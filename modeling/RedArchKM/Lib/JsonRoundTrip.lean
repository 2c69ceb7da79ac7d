import RedArchKM.Lib.JsonText

/-!
# JSON texts read back

A value that is written reads back (`parse_stringify`): its numbers must be finite and be written as
JSON writes numbers, and its objects must have different keys. What follows the text of a value does
not change how it reads, if no number or name can go on with it (`Reads`), so arrays and objects
read back item by item. Nothing that is written begins or ends in white space (`solid_stringify`).
-/

namespace RedArchKM.Lib.JsonText

open List Option

variable {ν : Type}

/-! ## Tokens -/

theorem expect_cons {unit first : Nat} {rest : Units} (notSpace : isSpace first = false) :
    expect unit (first :: rest) = if first = unit then some rest else none := by
  unfold expect skip
  rw [dropWhile_cons_of_neg (by rw [notSpace]; exact Bool.false_ne_true)]

theorem expect_self {unit : Nat} {rest : Units} (notSpace : isSpace unit = false) :
    expect unit (unit :: rest) = some rest := by
  rw [expect_cons notSpace, if_pos rfl]

theorem expect_other {unit first : Nat} {rest : Units} (notSpace : isSpace first = false)
    (differ : first ≠ unit) : expect unit (first :: rest) = none := by
  rw [expect_cons notSpace, if_neg differ]

section Strings

variable {unit : Nat}

variable {rest : Units}

theorem parseString_unit (notQuote : unit ≠ quote) (notBackslash : unit ≠ backslash)
    (notControl : ¬unit < 32) :
    parseString (unit :: rest) =
      (parseString rest).map fun (text, rest) => (unit :: text, rest) := by
  rw [parseString.eq_def]
  dsimp only
  rw [if_neg notQuote, if_neg notBackslash, if_neg notControl]

theorem parseString_escape {kind : Nat} (notLong : kind ≠ 'u'.toNat)
    (isEscape : unescape kind = some unit) :
    parseString (backslash :: kind :: rest) =
      (parseString rest).map fun (text, rest) => (unit :: text, rest) := by
  rw [parseString.eq_def]
  dsimp only
  rw [if_neg (by decide), if_pos rfl, if_neg notLong, isEscape]
  rfl

theorem hexValue_hexDigit : ∀ digit < 16, hexValue (hexDigit digit) = some digit := by decide

theorem parseString_longEscape (fits : unit < 65536) :
    parseString (longEscape unit ++ rest) =
      (parseString rest).map fun (text, rest) => (unit :: text, rest) := by
  have isUnit : hexUnit (hexDigit (unit / 4096 % 16)) (hexDigit (unit / 256 % 16))
      (hexDigit (unit / 16 % 16)) (hexDigit (unit % 16)) = some unit := by
    unfold hexUnit
    rw [hexValue_hexDigit _ (by omega), hexValue_hexDigit _ (by omega),
      hexValue_hexDigit _ (by omega), hexValue_hexDigit _ (by omega)]
    simp only [bind_some, map_some, some.injEq]
    omega
  unfold longEscape
  simp only [cons_append, nil_append]
  rw [parseString.eq_def]
  dsimp only
  rw [if_neg (by decide), if_pos rfl, if_pos rfl, isUnit]
  rfl

theorem unescape_shortEscape {short : Nat} (isShort : shortEscape unit = some short) :
    short ≠ 'u'.toNat ∧ unescape short = some unit := by
  have known : ∀ entry ∈ escapes, entry.1 ≠ 'u'.toNat ∧ unescape entry.1 = some entry.2 := by
    decide
  obtain ⟨before, after, split, _⟩ := lookup_eq_some_iff.mp isShort
  have isEntry : (unit, short) ∈ escapes.map Prod.swap :=
    split ▸ mem_append_right _ mem_cons_self
  obtain ⟨entry, isKnown, same⟩ := mem_map.mp isEntry
  cases same
  exact known entry isKnown

theorem parseString_escapedAlone :
    parseString (escaped.escapedAlone unit ++ rest) =
      (parseString rest).map fun (text, rest) => (unit :: text, rest) := by
  unfold escaped.escapedAlone
  split
  · rename_i short isShort
    obtain ⟨notLong, isEscape⟩ := unescape_shortEscape isShort
    exact parseString_escape notLong isEscape
  · rename_i notShort
    split
    · rename_i isLong
      refine parseString_longEscape ?_
      simp only [isHigh, isLow, Bool.or_eq_true, decide_eq_true_eq] at isLong
      omega
    · rename_i notLong
      simp only [Bool.or_eq_true, decide_eq_true_eq, not_or] at notLong
      refine parseString_unit ?_ ?_ notLong.1.1
      · rintro rfl
        exact absurd notShort (by decide)
      · rintro rfl
        exact absurd notShort (by decide)

/-- **A string that is quoted reads back.** -/
theorem parseString_escaped (text rest : Units) :
    parseString (escaped text ++ quote :: rest) = some (text, rest) := by
  induction text using escaped.induct with
  | case1 => 
    rw [escaped, nil_append, parseString.eq_def]
    rfl
  | case2 unit =>
    rw [escaped, parseString_escapedAlone, parseString.eq_def]
    rfl
  | case3 unit next rest' isPair ih =>
    have surrogate : 0xD800 ≤ unit ∧ 0xDC00 ≤ next := by
      simp only [isHigh, isLow, Bool.and_eq_true, decide_eq_true_eq] at isPair
      omega
    have plain : ∀ half, 0xD800 ≤ half → half ≠ quote ∧ half ≠ backslash ∧ ¬half < 32 := by
      have quoteSmall : quote < 128 := by decide
      have backslashSmall : backslash < 128 := by decide
      omega
    obtain ⟨notQuote, notBackslash, notControl⟩ := plain unit surrogate.1
    obtain ⟨notQuote', notBackslash', notControl'⟩ := plain next (by omega)
    rw [escaped, if_pos isPair, cons_append, cons_append,
      parseString_unit notQuote notBackslash notControl,
      parseString_unit notQuote' notBackslash' notControl', ih]
    rfl
  | case4 unit next rest' notPair ih =>
    rw [escaped, if_neg notPair, append_assoc, parseString_escapedAlone, ih]
    rfl

end Strings

section Numbers

theorem bare_of_digits {text rest : Units} (read : digits text = some rest)
    (bare : ∀ unit ∈ rest, isBare unit = true) : ∀ unit ∈ text, isBare unit = true := by
  unfold digits at read
  split at read
  · cases read
  · cases read
    intro unit isUnit
    rw [← takeWhile_append_dropWhile (p := isDigit) (l := text)] at isUnit
    rcases mem_append.mp isUnit with isFirst | isLater
    · have isNumber := mem_takeWhile_imp isFirst
      simp [isBare, isNumber]
    · exact bare unit isLater

theorem bare_of_cons {first : Nat} {text : Units} (isFirst : isBare first = true)
    (bare : ∀ unit ∈ text, isBare unit = true) : ∀ unit ∈ first :: text, isBare unit = true :=
  forall_mem_cons.mpr ⟨isFirst, bare⟩

theorem bare_of_afterSign {signs : List Nat} {text : Units}
    (signsBare : ∀ sign ∈ signs, isBare sign = true)
    (bare : ∀ unit ∈ afterSign signs text, isBare unit = true) :
    ∀ unit ∈ text, isBare unit = true := by
  unfold afterSign at bare
  split at bare
  · exact bare
  · split at bare
    · rename_i first rest isSign
      exact bare_of_cons (signsBare first isSign) bare
    · exact bare

theorem bare_of_isNumeral {text : Units} (isNumber : isNumeral text = true) :
    ∀ unit ∈ text, isBare unit = true := by
  obtain ⟨afterFraction, read, isExponent⟩ :=
    bind_eq_some_iff.mp (of_decide_eq_true isNumber)
  obtain ⟨afterIntegral, isIntegral, isFraction⟩ := bind_eq_some_iff.mp read
  have exponentBare : ∀ unit ∈ afterFraction, isBare unit = true := by
    unfold exponent at isExponent
    split at isExponent
    · exact fun unit isUnit => absurd isUnit not_mem_nil
    · split at isExponent
      · rename_i first rest isMark
        have marksBare : ∀ mark ∈ ['e'.toNat, 'E'.toNat], isBare mark = true := by decide
        exact bare_of_cons (marksBare first isMark) (bare_of_afterSign (by decide)
          (bare_of_digits isExponent fun unit isUnit => absurd isUnit not_mem_nil))
      · cases some.inj isExponent
  have fractionBare : ∀ unit ∈ afterIntegral, isBare unit = true := by
    unfold fraction at isFraction
    split at isFraction
    · exact fun unit isUnit => absurd isUnit not_mem_nil
    · split at isFraction
      · rename_i first rest isPoint
        exact bare_of_cons (by rw [isPoint]; decide) (bare_of_digits isFraction exponentBare)
      · cases isFraction
        exact exponentBare
  refine @bare_of_afterSign ['-'.toNat] text (by decide) ?_
  unfold integral at isIntegral
  split at isIntegral
  · cases isIntegral
  · rename_i first rest isFirst
    rw [isFirst]
    split at isIntegral
    · rename_i isZero
      cases isIntegral
      exact bare_of_cons (by rw [isZero]; decide) fractionBare
    · exact bare_of_digits isIntegral fractionBare

theorem visible_of_isBare {unit : Nat} (isBareUnit : isBare unit = true) :
    33 ≤ unit ∧ unit ≤ 126 ∧ unit ≠ quote ∧ unit ≠ comma ∧ unit ≠ colon ∧ unit ≠ openBracket ∧
      unit ≠ closeBracket ∧ unit ≠ openBrace ∧ unit ≠ closeBrace := by
  have within : 33 ≤ unit ∧ unit ≤ 126 := by
    simp only [isBare, isDigit, Bool.or_eq_true, decide_eq_true_eq] at isBareUnit
    have bounds : '0'.toNat = 48 ∧ '9'.toNat = 57 ∧ 'a'.toNat = 97 ∧ 'z'.toNat = 122 ∧
        'A'.toNat = 65 ∧ 'Z'.toNat = 90 ∧ '-'.toNat = 45 ∧ '+'.toNat = 43 ∧ '.'.toNat = 46 := by
      decide
    omega
  refine ⟨within.1, within.2, ?_⟩
  refine ⟨?_, ?_, ?_, ?_, ?_, ?_, ?_⟩ <;>
    · rintro rfl
      revert isBareUnit
      decide

end Numbers

/-! ## Values that are written and read -/

section Values

variable (numerals : Numerals ν)

/-- A finite number is written as JSON writes numbers, and reads back. -/
structure Numerals.Lawful : Prop where
  isNumeral_text : ∀ value, numerals.isFinite value = true → isNumeral (numerals.text value) = true
  number_text : ∀ value, numerals.isFinite value = true →
    numerals.number (numerals.text value) = value

/-- A value that JSON can hold: its numbers are finite, and its objects have different keys. -/
inductive Value.Wf : Value ν → Prop
  | null : Value.Wf .null
  | bool (value : Bool) : Value.Wf (.bool value)
  | number (value : ν) (finite : numerals.isFinite value = true) : Value.Wf (.number value)
  | string (value : Units) : Value.Wf (.string value)
  | array (items : List (Value ν)) (each : ∀ item ∈ items, Value.Wf item) : Value.Wf (.array items)
  | object (fields : List (Units × Value ν)) (keys : (fields.map Prod.fst).Nodup)
      (each : ∀ field ∈ fields, Value.Wf field.2) : Value.Wf (.object fields)

def Ends (rest : Units) : Prop := ∀ unit ∈ rest.head?, isBare unit = false

/-- The text of the value reads as the value, whatever is after it. -/
def Reads (value : Value ν) : Prop :=
  ∃ enough, ∀ depth, enough ≤ depth → ∀ rest, Ends rest →
    parseValue numerals depth (stringify numerals value ++ rest) = some (value, rest)

variable {numerals}

theorem isSpace_of_visible {unit : Nat} (visible : 33 ≤ unit) : isSpace unit = false := by
  simp only [isSpace, Bool.or_eq_false_iff, decide_eq_false_iff_not]
  omega

variable {value : Value ν}

theorem parseValue_bare {token rest : Units} (depth : Nat) (notEmpty : token ≠ [])
    (bare : ∀ unit ∈ token, isBare unit = true) (isScalar : scalar numerals token = some value)
    (ends : Ends rest) : parseValue numerals (depth + 1) (token ++ rest) = some (value, rest) := by
  have isToken : (token ++ rest).takeWhile isBare = token ∧
      (token ++ rest).dropWhile isBare = rest := by
    rw [takeWhile_append_of_pos bare, dropWhile_append_of_pos bare]
    cases rest with
    | nil => simp
    | cons unit rest =>
      have isEnd : isBare unit = false := ends unit rfl
      simp [isEnd]
  have isRead : parseScalar numerals (token ++ rest) = some (value, rest) := by
    unfold parseScalar
    rw [isToken.1, isToken.2, isScalar]
    rfl
  obtain ⟨first, others, rfl⟩ := exists_cons_of_ne_nil notEmpty
  obtain ⟨visible, _, notQuote, _, _, notBracket, _, notBrace, _⟩ :=
    visible_of_isBare (bare first mem_cons_self)
  have notSpace := isSpace_of_visible visible
  rw [parseValue, cons_append, expect_other notSpace notQuote,
    expect_other notSpace notBracket, expect_other notSpace notBrace]
  unfold skip
  rwa [dropWhile_cons_of_neg (by rw [notSpace]; exact Bool.false_ne_true)]

theorem reads_bare {token : Units} (isText : stringify numerals value = token)
    (notEmpty : token ≠ []) (bare : ∀ unit ∈ token, isBare unit = true)
    (isScalar : scalar numerals token = some value) : Reads numerals value := by
  refine ⟨1, fun depth enough rest ends => ?_⟩
  obtain ⟨depth, rfl⟩ := Nat.exists_eq_add_of_le' enough
  rw [isText]
  exact parseValue_bare depth notEmpty bare isScalar ends

theorem reads_number (lawful : numerals.Lawful) {value : ν}
    (finite : numerals.isFinite value = true) : Reads numerals (.number value) := by
  have isNumber := lawful.isNumeral_text value finite
  have isText : stringify numerals (.number value) = numerals.text value := by
    rw [stringify, if_pos finite]
  have named : ∀ name, isNumeral name = false → numerals.text value ≠ name := by
    intro name notNumber same
    rw [← same, isNumber] at notNumber
    cases notNumber
  refine reads_bare isText (named [] (by decide)) (bare_of_isNumeral isNumber) ?_
  unfold scalar
  rw [if_neg (named _ (by decide)), if_neg (named _ (by decide)), if_neg (named _ (by decide)),
    if_pos isNumber, lawful.number_text value finite]

theorem reads_string (text : Units) : Reads numerals (.string text) := by
  refine ⟨1, fun depth enough rest _ => ?_⟩
  obtain ⟨depth, rfl⟩ := Nat.exists_eq_add_of_le' enough
  rw [stringify, quoted, parseValue]
  simp only [cons_append, append_assoc, nil_append]
  rw [expect_self (by decide)]
  dsimp only
  rw [parseString_escaped]
  rfl

/-- A text that starts and ends with a visible unit. -/
structure Solid (text : Units) : Prop where
  first : ∃ first rest, text = first :: rest ∧ 33 ≤ first ∧ first ≤ 126 ∧
    first ≠ closeBracket ∧ first ≠ closeBrace
  last : ∃ front last, text = front ++ [last] ∧ 33 ≤ last ∧ last ≤ 126

theorem solid_bare {text : Units} (notEmpty : text ≠ [])
    (bare : ∀ unit ∈ text, isBare unit = true) : Solid text where
  first := by
    obtain ⟨first, rest, rfl⟩ := exists_cons_of_ne_nil notEmpty
    obtain ⟨above, below, _, _, _, _, notBracket, _, notBrace⟩ :=
      visible_of_isBare (bare first mem_cons_self)
    exact ⟨first, rest, rfl, above, below, notBracket, notBrace⟩
  last := by
    obtain ⟨above, below, _⟩ := visible_of_isBare (bare _ (getLast_mem notEmpty))
    exact ⟨text.dropLast, text.getLast notEmpty, (dropLast_append_getLast notEmpty).symm, above,
      below⟩

theorem solid_between {first last : Nat} (inner : Units)
    (visible : (33 ≤ first ∧ first ≤ 126 ∧ first ≠ closeBracket ∧ first ≠ closeBrace) ∧
      33 ≤ last ∧ last ≤ 126) : Solid (first :: inner ++ [last]) where
  first := ⟨first, inner ++ [last], rfl, visible.1⟩
  last := ⟨first :: inner, last, rfl, visible.2⟩

theorem solid_stringify (lawful : numerals.Lawful) (wf : value.Wf numerals) :
    Solid (stringify numerals value) := by
  cases wf with
  | null =>
    rw [stringify]
    exact solid_bare (by decide) (by decide)
  | bool value =>
    rw [stringify]
    cases value
    · exact solid_bare (by decide) (by decide)
    · exact solid_bare (by decide) (by decide)
  | number value finite =>
    have isNumber := lawful.isNumeral_text value finite
    rw [stringify, if_pos finite]
    refine solid_bare (fun isEmpty => ?_) (bare_of_isNumeral isNumber)
    rw [isEmpty] at isNumber
    revert isNumber
    decide
  | string value => exact solid_between _ (by decide)
  | array items _ => 
    exact solid_between _ (by decide)
  | object fields _ _ =>
    exact solid_between _ (by decide)

theorem expect_solid {unit : Nat} {text rest : Units} (solid : Solid text)
    (isClose : unit = closeBracket ∨ unit = closeBrace) : expect unit (text ++ rest) = none := by
  obtain ⟨first, others, rfl, visible, _, notBracket, notBrace⟩ := solid.first
  refine expect_other (isSpace_of_visible visible) ?_
  rcases isClose with rfl | rfl
  · exact notBracket
  · exact notBrace

theorem ends_cons {unit : Nat} {rest : Units} (notBare : isBare unit = false) :
    Ends (unit :: rest) := by
  intro first isFirst
  rwa [← some.inj isFirst]

theorem parseItems_stringify {items : List (Value ν)} (notEmpty : items ≠ [])
    (each : ∀ item ∈ items, Reads numerals item) :
    ∃ enough, ∀ depth, enough ≤ depth → ∀ rest,
      parseItems numerals depth (stringifyItems numerals items ++ closeBracket :: rest) =
        some (items, rest) := by
  induction items with
  | nil => exact absurd rfl notEmpty
  | cons item others ih =>
    obtain ⟨enough, reads⟩ := each item mem_cons_self
    cases others with
    | nil =>
      refine ⟨enough + 1, fun depth isEnough rest => ?_⟩
      obtain ⟨depth, rfl⟩ := Nat.exists_eq_add_of_le' (Nat.le_of_add_left_le isEnough)
      rw [stringifyItems, parseItems, reads depth (by omega) _ (ends_cons (by decide))]
      rfl
    | cons next others =>
      obtain ⟨enough', readsRest⟩ := ih (cons_ne_nil _ _) fun other isOther =>
        each other (mem_cons_of_mem item isOther)
      refine ⟨max enough enough' + 1, fun depth isEnough rest => ?_⟩
      obtain ⟨depth, rfl⟩ := Nat.exists_eq_add_of_le' (Nat.le_of_add_left_le isEnough)
      rw [stringifyItems, parseItems, append_assoc, cons_append,
        reads depth (by omega) _ (ends_cons (by decide))]
      dsimp only [bind_some]
      rw [expect_self (by decide)]
      dsimp only
      rw [readsRest depth (by omega)]
      rfl

theorem parseFields_stringify {fields : List (Units × Value ν)} (notEmpty : fields ≠ [])
    (each : ∀ field ∈ fields, Reads numerals field.2) :
    ∃ enough, ∀ depth, enough ≤ depth → ∀ rest,
      parseFields numerals depth (stringifyFields numerals fields ++ closeBrace :: rest) =
        some (fields, rest) := by
  induction fields with
  | nil => exact absurd rfl notEmpty
  | cons field others ih =>
    obtain ⟨key, value⟩ := field
    obtain ⟨enough, reads⟩ := each (key, value) mem_cons_self
    cases others with
    | nil =>
      refine ⟨enough + 1, fun depth isEnough rest => ?_⟩
      obtain ⟨depth, rfl⟩ := Nat.exists_eq_add_of_le' (Nat.le_of_add_left_le isEnough)
      rw [stringifyFields, quoted, parseFields]
      simp only [cons_append, append_assoc, nil_append]
      rw [expect_self (by decide), bind_some, parseString_escaped]
      dsimp only [bind_some]
      rw [expect_self (by decide), bind_some, reads depth (by omega) _ (ends_cons (by decide))]
      dsimp only [bind_some]
      rw [expect_other (by decide) (by decide), expect_self (by decide)]
      rfl
    | cons next others =>
      obtain ⟨enough', readsRest⟩ := ih (cons_ne_nil _ _) fun other isOther =>
        each other (mem_cons_of_mem (key, value) isOther)
      refine ⟨max enough enough' + 1, fun depth isEnough rest => ?_⟩
      obtain ⟨depth, rfl⟩ := Nat.exists_eq_add_of_le' (Nat.le_of_add_left_le isEnough)
      rw [stringifyFields, quoted, parseFields]
      simp only [cons_append, append_assoc, nil_append]
      rw [expect_self (by decide), bind_some, parseString_escaped]
      dsimp only [bind_some]
      rw [expect_self (by decide), bind_some, reads depth (by omega) _ (ends_cons (by decide))]
      dsimp only [bind_some]
      rw [expect_self (by decide)]
      dsimp only
      rw [readsRest depth (by omega)]
      rfl

theorem reads_array (lawful : numerals.Lawful) {items : List (Value ν)}
    (wf : ∀ item ∈ items, item.Wf numerals) (each : ∀ item ∈ items, Reads numerals item) :
    Reads numerals (.array items) := by
  cases items with
  | nil =>
    refine ⟨1, fun depth isEnough rest _ => ?_⟩
    obtain ⟨depth, rfl⟩ := Nat.exists_eq_add_of_le' isEnough
    rw [stringify, stringifyItems, parseValue]
    simp only [cons_append, nil_append]
    rw [expect_other (by decide) (by decide), expect_self (by decide)]
    dsimp only
    rw [expect_self (by decide)]
  | cons item others =>
    obtain ⟨enough, reads⟩ := parseItems_stringify (cons_ne_nil item others) each
    refine ⟨enough + 1, fun depth isEnough rest _ => ?_⟩
    obtain ⟨depth, rfl⟩ := Nat.exists_eq_add_of_le' (Nat.le_of_add_left_le isEnough)
    -- the first item is no closing bracket
    have notEmpty : ∀ rest, expect closeBracket
        (stringifyItems numerals (item :: others) ++ closeBracket :: rest) = none := by
      intro rest
      have solid := solid_stringify lawful (wf item mem_cons_self)
      cases others with
      | nil => exact expect_solid solid (.inl rfl)
      | cons next others =>
        rw [stringifyItems, append_assoc]
        exact expect_solid solid (.inl rfl)
    rw [stringify, parseValue]
    simp only [cons_append, append_assoc, nil_append]
    rw [expect_other (by decide) (by decide), expect_self (by decide)]
    dsimp only
    rw [notEmpty, reads depth (by omega)]
    rfl

theorem reads_object {fields : List (Units × Value ν)} (keys : (fields.map Prod.fst).Nodup)
    (each : ∀ field ∈ fields, Reads numerals field.2) : Reads numerals (.object fields) := by
  cases fields with
  | nil =>
    refine ⟨1, fun depth isEnough rest _ => ?_⟩
    obtain ⟨depth, rfl⟩ := Nat.exists_eq_add_of_le' isEnough
    rw [stringify, stringifyFields, parseValue]
    simp only [cons_append, nil_append]
    rw [expect_other (by decide) (by decide), expect_other (by decide) (by decide),
      expect_self (by decide)]
    dsimp only
    rw [expect_self (by decide)]
  | cons field others =>
    obtain ⟨enough, reads⟩ := parseFields_stringify (cons_ne_nil field others) each
    refine ⟨enough + 1, fun depth isEnough rest _ => ?_⟩
    obtain ⟨depth, rfl⟩ := Nat.exists_eq_add_of_le' (Nat.le_of_add_left_le isEnough)
    -- the first key is no closing brace
    have notEmpty : ∀ rest, expect closeBrace
        (stringifyFields numerals (field :: others) ++ closeBrace :: rest) = none := by
      intro rest
      cases others with
      | nil => exact expect_other (by decide) (by decide)
      | cons next others => exact expect_other (by decide) (by decide)
    rw [stringify, parseValue]
    simp only [cons_append, append_assoc, nil_append]
    rw [expect_other (by decide) (by decide), expect_other (by decide) (by decide),
      expect_self (by decide)]
    dsimp only
    rw [notEmpty, reads depth (by omega), map_some]
    unfold objectOf
    rw [foldl_put (by rw [nil_append]; exact keys), nil_append]

theorem reads_of_wf (lawful : numerals.Lawful) (wf : value.Wf numerals) : Reads numerals value := by
  induction wf with
  | null =>
    have isText : stringify numerals .null = units "null" := by rw [stringify]
    exact reads_bare isText (by decide) (by decide) rfl
  | bool value =>
    cases value with
    | false =>
      have isText : stringify numerals (.bool false) = units "false" := by
        rw [stringify, if_neg Bool.false_ne_true]
      exact reads_bare isText (by decide) (by decide) rfl
    | true =>
      have isText : stringify numerals (.bool true) = units "true" := by
        rw [stringify, if_pos rfl]
      exact reads_bare isText (by decide) (by decide) rfl
  | number value finite => exact reads_number lawful finite
  | string value => exact reads_string value
  | array items wf each => exact reads_array lawful wf each
  | object fields keys _ each => exact reads_object keys each

/-- **A value that is written reads back.** -/
theorem parse_stringify (lawful : numerals.Lawful) (wf : value.Wf numerals) :
    parse numerals (stringify numerals value) = some value := by
  obtain ⟨enough, reads⟩ := reads_of_wf lawful wf
  have isRead := reads (max enough (2 * (stringify numerals value).length + 1)) (by omega) []
    fun _ isFirst => by cases isFirst
  rw [append_nil, parseValue_of_le (by omega)] at isRead
  unfold parse
  rw [isRead]
  rfl

end Values

end RedArchKM.Lib.JsonText
