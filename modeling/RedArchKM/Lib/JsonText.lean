import Mathlib.Data.List.Nodup
import Mathlib.Data.List.TakeWhile

/-!
# JSON values and their texts

Texts are lists of UTF-16 code units. A value is written without white space, and read with white
space before and after every token; a key that is read twice has its later value. Numbers are those
of a structure that says how they are written and read.

The reader nests no deeper than its text allows (`parseValue_of_enough`), and a string is shorter
than any text that reads as it (`length_of_parse_string`).
-/

namespace RedArchKM.Lib.JsonText

open List Option

/-! ## Texts and values -/

abbrev Units := List Nat

/-- The code units of a text that has none beyond the first plane. -/
def units (text : String) : Units := text.toList.map Char.toNat

def quote : Nat := '"'.toNat
def backslash : Nat := '\\'.toNat
def comma : Nat := ','.toNat
def colon : Nat := ':'.toNat
def openBracket : Nat := '['.toNat
def closeBracket : Nat := ']'.toNat
def openBrace : Nat := 123
def closeBrace : Nat := 125

inductive Value (ν : Type) where
  | null
  | bool (value : Bool)
  | number (value : ν)
  | string (value : Units)
  | array (items : List (Value ν))
  | object (fields : List (Units × Value ν))

/-- How numbers are written and read. -/
structure Numerals (ν : Type) where
  isFinite : ν → Bool
  text : ν → Units
  number : Units → ν

section Objects

variable {κ ω : Type} [DecidableEq κ]

def put (key : κ) (value : ω) : List (κ × ω) → List (κ × ω)
  | [] => [(key, value)]
  | entry :: rest => if entry.1 = key then (key, value) :: rest else entry :: put key value rest

variable {entries : List (κ × ω)}

theorem put_of_notMem {key : κ} {value : ω} (isNew : key ∉ entries.map Prod.fst) :
    put key value entries = entries ++ [(key, value)] := by
  induction entries with
  | nil => rfl
  | cons entry rest ih =>
    rw [map_cons, mem_cons, not_or] at isNew
    rw [put, if_neg (Ne.symm isNew.1), ih isNew.2]
    rfl

theorem mem_put {key : κ} {value : ω} {entry : κ × ω} (member : entry ∈ put key value entries) :
    entry = (key, value) ∨ entry ∈ entries := by
  induction entries with
  | nil => exact .inl (mem_singleton.mp member)
  | cons first rest ih =>
    rw [put] at member
    split at member
    · exact (mem_cons.mp member).imp_right (mem_cons_of_mem first)
    · rcases mem_cons.mp member with rfl | later
      · exact .inr mem_cons_self
      · exact (ih later).imp_right (mem_cons_of_mem first)

theorem lookup_put [BEq κ] [LawfulBEq κ] (key other : κ) (value : ω) (entries : List (κ × ω)) :
    (put key value entries).lookup other = if other = key then some value else entries.lookup other := by
  induction entries with
  | nil =>
    by_cases same : other = key
    · rw [if_pos same, same, put, lookup_cons_self]
    · rw [if_neg same, put, lookup_cons, beq_false_of_ne same]
  | cons entry rest ih =>
    rw [put]
    by_cases here : entry.1 = key
    · rw [if_pos here]
      by_cases same : other = key
      · rw [if_pos same, same, lookup_cons_self]
      · rw [if_neg same, lookup_cons, lookup_cons, here, beq_false_of_ne same]
    · rw [if_neg here, lookup_cons, ih, lookup_cons]
      cases same : other == entry.1 with
      | true => exact (if_neg fun isKey => here ((eq_of_beq same).symm.trans isKey)).symm
      | false => rfl

theorem put_of_lookup [BEq κ] [LawfulBEq κ] {key : κ} {value : ω}
    (found : entries.lookup key = some value) : put key value entries = entries := by
  induction entries with
  | nil => cases found
  | cons entry rest ih =>
    rw [put]
    by_cases here : entry.1 = key
    · rw [if_pos here]
      rw [← here, lookup_cons_self] at found
      rw [← here, ← some.inj found]
    · rw [if_neg here]
      rw [lookup_cons, beq_false_of_ne (Ne.symm here)] at found
      rw [ih found]

theorem foldl_put {before : List (κ × ω)} (nodup : ((before ++ entries).map Prod.fst).Nodup) :
    entries.foldl (fun object entry => put entry.1 entry.2 object) before = before ++ entries := by
  induction entries generalizing before with
  | nil => rw [append_nil, foldl_nil]
  | cons entry rest ih =>
    have isNew : entry.1 ∉ before.map Prod.fst := by
      rw [map_append, map_cons] at nodup
      exact fun isOld => (nodup_append.mp nodup).2.2 _ isOld _ mem_cons_self rfl
    rw [append_cons] at nodup ⊢
    rw [foldl_cons, put_of_notMem isNew]
    exact ih nodup

end Objects

variable {ν : Type}

/-! ## Writing -/

def escapes : List (Nat × Nat) :=
  [(quote, quote), (backslash, backslash), ('b'.toNat, 8), ('f'.toNat, 12), ('n'.toNat, 10),
    ('r'.toNat, 13), ('t'.toNat, 9)]

def unescape (unit : Nat) : Option Nat :=
  if unit = '/'.toNat then some unit else escapes.lookup unit

def shortEscape (unit : Nat) : Option Nat :=
  (escapes.map Prod.swap).lookup unit

def hexDigit (digit : Nat) : Nat :=
  if digit < 10 then '0'.toNat + digit else 'a'.toNat + (digit - 10)

def isHigh (unit : Nat) : Bool := decide (0xD800 ≤ unit ∧ unit < 0xDC00)

def isLow (unit : Nat) : Bool := decide (0xDC00 ≤ unit ∧ unit < 0xE000)

def longEscape (unit : Nat) : Units :=
  [backslash, 'u'.toNat, hexDigit (unit / 4096 % 16), hexDigit (unit / 256 % 16),
    hexDigit (unit / 16 % 16), hexDigit (unit % 16)]

/-- The units between the quotes. Half of a surrogate pair alone is escaped. -/
def escaped : Units → Units
  | [] => []
  | [unit] => escapedAlone unit
  | unit :: next :: rest =>
    if isHigh unit && isLow next then unit :: next :: escaped rest
    else escapedAlone unit ++ escaped (next :: rest)
where
  escapedAlone (unit : Nat) : Units :=
    match shortEscape unit with
    | some short => [backslash, short]
    | none => if unit < 32 || isHigh unit || isLow unit then longEscape unit else [unit]

def quoted (text : Units) : Units := quote :: escaped text ++ [quote]

section Stringify

variable (numerals : Numerals ν)

mutual

/-- `JSON.stringify` -/
def stringify : Value ν → Units
  | .null => units "null"
  | .bool value => units (if value then "true" else "false")
  | .number value => if numerals.isFinite value then numerals.text value else units "null"
  | .string value => quoted value
  | .array items => openBracket :: stringifyItems items ++ [closeBracket]
  | .object fields => openBrace :: stringifyFields fields ++ [closeBrace]

def stringifyItems : List (Value ν) → Units
  | [] => []
  | [item] => stringify item
  | item :: next :: rest => stringify item ++ comma :: stringifyItems (next :: rest)

def stringifyFields : List (Units × Value ν) → Units
  | [] => []
  | [(key, value)] => quoted key ++ colon :: stringify value
  | (key, value) :: next :: rest =>
    quoted key ++ colon :: stringify value ++ comma :: stringifyFields (next :: rest)

end

end Stringify

/-! ## Reading -/

def isSpace (unit : Nat) : Bool := unit = 32 || unit = 9 || unit = 10 || unit = 13

def skip (text : Units) : Units := text.dropWhile isSpace

/-- What is after the unit, past white space. -/
def expect (unit : Nat) (text : Units) : Option Units :=
  match skip text with
  | [] => none
  | first :: rest => if first = unit then some rest else none

def hexValue (unit : Nat) : Option Nat :=
  if '0'.toNat ≤ unit ∧ unit ≤ '9'.toNat then some (unit - '0'.toNat)
  else if 'a'.toNat ≤ unit ∧ unit ≤ 'f'.toNat then some (unit - 'a'.toNat + 10)
  else if 'A'.toNat ≤ unit ∧ unit ≤ 'F'.toNat then some (unit - 'A'.toNat + 10)
  else none

def hexUnit (a b c d : Nat) : Option Nat :=
  (hexValue a).bind fun a => (hexValue b).bind fun b => (hexValue c).bind fun c =>
    (hexValue d).map fun d => ((a * 16 + b) * 16 + c) * 16 + d

/-- The string up to its quote, and what is after it. -/
def parseString : Units → Option (Units × Units)
  | [] => none
  | unit :: rest =>
    if unit = quote then some ([], rest)
    else if unit = backslash then
      match rest with
      | [] => none
      | kind :: rest =>
        if kind = 'u'.toNat then
          match rest with
          | a :: b :: c :: d :: rest =>
            (hexUnit a b c d).bind fun unit =>
              (parseString rest).map fun (text, rest) => (unit :: text, rest)
          | _ => none
        else (unescape kind).bind fun unit =>
          (parseString rest).map fun (text, rest) => (unit :: text, rest)
    else if unit < 32 then none
    else (parseString rest).map fun (text, rest) => (unit :: text, rest)

def isDigit (unit : Nat) : Bool := decide ('0'.toNat ≤ unit ∧ unit ≤ '9'.toNat)

def isBare (unit : Nat) : Bool :=
  isDigit unit || decide ('a'.toNat ≤ unit ∧ unit ≤ 'z'.toNat) ||
    decide ('A'.toNat ≤ unit ∧ unit ≤ 'Z'.toNat) || unit = '-'.toNat || unit = '+'.toNat ||
      unit = '.'.toNat

def digits (text : Units) : Option Units :=
  if (text.takeWhile isDigit).isEmpty then none else some (text.dropWhile isDigit)

/-- What is after the digits before the point: no zero leads others. -/
def integral (text : Units) : Option Units :=
  match text with
  | [] => none
  | first :: rest => if first = '0'.toNat then some rest else digits (first :: rest)

def fraction (text : Units) : Option Units :=
  match text with
  | [] => some []
  | first :: rest => if first = '.'.toNat then digits rest else some (first :: rest)

def afterSign (signs : List Nat) (text : Units) : Units :=
  match text with
  | [] => []
  | first :: rest => if first ∈ signs then rest else first :: rest

def exponent (text : Units) : Option Units :=
  match text with
  | [] => some []
  | first :: rest =>
    if first ∈ ['e'.toNat, 'E'.toNat] then digits (afterSign ['+'.toNat, '-'.toNat] rest)
    else some (first :: rest)

/-- Whether a text is a number as JSON writes numbers. -/
def isNumeral (text : Units) : Bool :=
  ((integral (afterSign ['-'.toNat] text)).bind fraction).bind exponent = some []

def objectOf (fields : List (Units × Value ν)) : Value ν :=
  .object (fields.foldl (fun object entry => put entry.1 entry.2 object) [])

section Parse

variable (numerals : Numerals ν)

def scalar (token : Units) : Option (Value ν) :=
  if token = units "null" then some .null
  else if token = units "true" then some (.bool true)
  else if token = units "false" then some (.bool false)
  else if isNumeral token then some (.number (numerals.number token))
  else none

def parseScalar (text : Units) : Option (Value ν × Units) :=
  (scalar numerals (text.takeWhile isBare)).map fun value => (value, text.dropWhile isBare)

mutual

/-- The value that a text starts with, and what is after it, nested at most so deep. -/
def parseValue : Nat → Units → Option (Value ν × Units)
  | 0, _ => none
  | depth + 1, text =>
    match expect quote text with
    | some rest => (parseString rest).map fun (value, rest) => (.string value, rest)
    | none =>
      match expect openBracket text with
      | some rest =>
        match expect closeBracket rest with
        | some rest => some (.array [], rest)
        | none => (parseItems depth rest).map fun (items, rest) => (.array items, rest)
      | none =>
        match expect openBrace text with
        | some rest =>
          match expect closeBrace rest with
          | some rest => some (.object [], rest)
          | none => (parseFields depth rest).map fun (fields, rest) => (objectOf fields, rest)
        | none => parseScalar numerals (skip text)

/-- The items up to the end of their array. -/
def parseItems : Nat → Units → Option (List (Value ν) × Units)
  | 0, _ => none
  | depth + 1, text =>
    (parseValue depth text).bind fun (item, rest) =>
      match expect comma rest with
      | some rest => (parseItems depth rest).map fun (items, rest) => (item :: items, rest)
      | none => (expect closeBracket rest).map fun rest => ([item], rest)

/-- The fields up to the end of their object. -/
def parseFields : Nat → Units → Option (List (Units × Value ν) × Units)
  | 0, _ => none
  | depth + 1, text =>
    (expect quote text).bind fun rest => (parseString rest).bind fun (key, rest) =>
      (expect colon rest).bind fun rest => (parseValue depth rest).bind fun (value, rest) =>
        match expect comma rest with
        | some rest =>
          (parseFields depth rest).map fun (fields, rest) => ((key, value) :: fields, rest)
        | none => (expect closeBrace rest).map fun rest => ([(key, value)], rest)

end

/-- `JSON.parse`, or nothing where it throws -/
def parse (text : Units) : Option (Value ν) :=
  (parseValue numerals (2 * text.length + 1) text).bind fun (value, rest) =>
    if (skip rest).isEmpty then some value else none

end Parse

/-! ## How far a reader gets -/

variable {rest : Units}

theorem length_of_expect {unit : Nat} {text : Units} (found : expect unit text = some rest) :
    rest.length < text.length := by
  have shorter : (skip text).length ≤ text.length := (dropWhile_suffix _).length_le
  unfold expect at found
  split at found
  · cases found
  · rename_i first others isSkipped
    rw [isSkipped, length_cons] at shorter
    split at found
    · cases found
      omega
    · cases found

theorem map_eq_some {α β : Type} {read : Option (α × Units)} {make : α → β} {result : β} :
    read.map (fun (value, rest) => (make value, rest)) = some (result, rest) ↔
      ∃ value, read = some (value, rest) ∧ make value = result := by
  rw [map_eq_some_iff]
  constructor
  · rintro ⟨⟨value, rest'⟩, isRead, same⟩
    obtain ⟨isResult, rfl⟩ := Prod.mk.inj same
    exact ⟨value, isRead, isResult⟩
  · rintro ⟨value, isRead, rfl⟩
    exact ⟨(value, rest), isRead, rfl⟩

theorem parseString_cases {text value : Units} (found : parseString text = some (value, rest)) :
    (text = quote :: rest ∧ value = []) ∨
      ∃ used later unit others, text = used ++ later ∧ used ≠ [] ∧
        parseString later = some (others, rest) ∧ value = unit :: others := by
  have goesOn : ∀ (used later : Units) (unit : Nat), used ≠ [] →
      (parseString later).map (fun (text, rest) => (unit :: text, rest)) = some (value, rest) →
        ∃ used' later' unit' others, used ++ later = used' ++ later' ∧ used' ≠ [] ∧
          parseString later' = some (others, rest) ∧ value = unit' :: others := by
    intro used later unit isUsed isLater
    obtain ⟨others, areOthers, same⟩ := map_eq_some.mp isLater
    exact ⟨used, later, unit, others, rfl, isUsed, areOthers, same.symm⟩
  cases text with
  | nil => cases found
  | cons first later =>
    rw [parseString.eq_def] at found
    dsimp only at found
    split at found
    · rename_i isQuote
      cases found
      exact .inl ⟨by rw [isQuote], rfl⟩
    · right
      split at found
      · split at found
        · cases found
        · rename_i kind later
          split at found
          · split at found
            · rename_i a b c d later
              obtain ⟨unit, _, found⟩ := bind_eq_some_iff.mp found
              exact goesOn [first, kind, a, b, c, d] later unit (cons_ne_nil _ _) found
            · cases found
          · obtain ⟨unit, _, found⟩ := bind_eq_some_iff.mp found
            exact goesOn [first, kind] later unit (cons_ne_nil _ _) found
      · split at found
        · cases found
        · exact goesOn [first] later first (cons_ne_nil _ _) found

theorem length_of_parseString {text value : Units} (found : parseString text = some (value, rest)) :
    value.length + rest.length < text.length := by
  induction value generalizing text with
  | nil =>
    rcases parseString_cases found with ⟨rfl, _⟩ | ⟨_, _, _, _, _, _, _, same⟩
    · simp
    · cases same
  | cons unit value ih =>
    rcases parseString_cases found with ⟨_, same⟩ | ⟨used, later, _, others, rfl, isUsed, found, same⟩
    · cases same
    · obtain ⟨_, rfl⟩ := List.cons.inj same
      have shorter := ih found
      have positive := length_pos_iff.mpr isUsed
      rw [length_append, length_cons]
      omega

section Lengths

variable {numerals : Numerals ν}

theorem length_of_parseScalar {text rest : Units} {value : Value ν}
    (found : parseScalar numerals text = some (value, rest)) : rest.length ≤ text.length := by
  obtain ⟨_, _, same⟩ := map_eq_some_iff.mp found
  obtain ⟨_, rfl⟩ := Prod.mk.inj same
  exact (dropWhile_suffix _).length_le

theorem length_of_parse (depth : Nat) :
    (∀ (text rest : Units) (value : Value ν),
        parseValue numerals depth text = some (value, rest) → rest.length ≤ text.length) ∧
      (∀ (text rest : Units) (items : List (Value ν)),
        parseItems numerals depth text = some (items, rest) → rest.length ≤ text.length) ∧
      ∀ (text rest : Units) (fields : List (Units × Value ν)),
        parseFields numerals depth text = some (fields, rest) → rest.length ≤ text.length := by
  induction depth with
  | zero =>
    refine ⟨?_, ?_, ?_⟩ <;>
      · intro text rest _ found
        cases found
  | succ depth ih =>
    obtain ⟨ofValue, ofItems, ofFields⟩ := ih
    refine ⟨?_, ?_, ?_⟩
    · intro text rest value found
      unfold parseValue at found
      split at found
      · rename_i later isQuote
        obtain ⟨string, isString, _⟩ := map_eq_some.mp found
        have first := length_of_expect isQuote
        have second := length_of_parseString isString
        omega
      · split at found
        · rename_i later isBracket
          have first := length_of_expect isBracket
          split at found
          · rename_i last isEnd
            have second := length_of_expect isEnd
            cases found
            omega
          · obtain ⟨items, areItems, _⟩ := map_eq_some.mp found
            have second := ofItems _ _ _ areItems
            omega
        · split at found
          · rename_i later isBrace
            have first := length_of_expect isBrace
            split at found
            · rename_i last isEnd
              have second := length_of_expect isEnd
              cases found
              omega
            · obtain ⟨fields, areFields, _⟩ := map_eq_some.mp found
              have second := ofFields _ _ _ areFields
              omega
          · have first : (skip text).length ≤ text.length := (dropWhile_suffix _).length_le
            have second := length_of_parseScalar found
            omega
    · intro text rest items found
      unfold parseItems at found
      obtain ⟨⟨item, later⟩, isItem, found⟩ := bind_eq_some_iff.mp found
      have first := ofValue _ _ _ isItem
      dsimp only at found
      split at found
      · rename_i next isComma
        have second := length_of_expect isComma
        obtain ⟨others, areOthers, _⟩ := map_eq_some.mp found
        have third := ofItems _ _ _ areOthers
        omega
      · obtain ⟨last, isEnd, same⟩ := map_eq_some_iff.mp found
        obtain ⟨_, rfl⟩ := Prod.mk.inj same
        have second := length_of_expect isEnd
        omega
    · intro text rest fields found
      unfold parseFields at found
      obtain ⟨afterQuote, isQuote, found⟩ := bind_eq_some_iff.mp found
      obtain ⟨⟨key, afterKey⟩, isKey, found⟩ := bind_eq_some_iff.mp found
      obtain ⟨afterColon, isColon, found⟩ := bind_eq_some_iff.mp found
      obtain ⟨⟨value, later⟩, isValue, found⟩ := bind_eq_some_iff.mp found
      have first := length_of_expect isQuote
      have second := length_of_parseString isKey
      have third := length_of_expect isColon
      have fourth := ofValue _ _ _ isValue
      dsimp only at found third
      split at found
      · rename_i next isComma
        have fifth := length_of_expect isComma
        obtain ⟨others, areOthers, _⟩ := map_eq_some.mp found
        have sixth := ofFields _ _ _ areOthers
        omega
      · obtain ⟨last, isEnd, same⟩ := map_eq_some_iff.mp found
        obtain ⟨_, rfl⟩ := Prod.mk.inj same
        have fifth := length_of_expect isEnd
        omega

/-- **The depth of a reader does not matter** once it is twice the length of the text. -/
theorem parseValue_of_enough (depth : Nat) :
    (∀ text : Units, 2 * text.length + 1 ≤ depth →
        parseValue numerals (depth + 1) text = parseValue numerals depth text) ∧
      (∀ text : Units, 2 * text.length + 2 ≤ depth →
        parseItems numerals (depth + 1) text = parseItems numerals depth text) ∧
      ∀ text : Units, 2 * text.length + 2 ≤ depth →
        parseFields numerals (depth + 1) text = parseFields numerals depth text := by
  induction depth with
  | zero => exact ⟨fun _ enough => by omega, fun _ enough => by omega, fun _ enough => by omega⟩
  | succ depth ih =>
    obtain ⟨ofValue, ofItems, ofFields⟩ := ih
    obtain ⟨lengthOfValue, _, _⟩ := @length_of_parse ν numerals depth
    refine ⟨fun text enough => ?_, fun text enough => ?_, fun text enough => ?_⟩
    · rw [parseValue, parseValue]
      cases expect quote text with
      | some rest => rfl
      | none =>
        cases isBracket : expect openBracket text with
        | some rest =>
          have shorter := length_of_expect isBracket
          dsimp only
          rw [ofItems rest (by omega)]
        | none =>
          cases isBrace : expect openBrace text with
          | none => rfl
          | some rest =>
            have shorter := length_of_expect isBrace
            dsimp only
            rw [ofFields rest (by omega)]
    · rw [parseItems, parseItems, ofValue text (by omega)]
      refine bind_congr fun ⟨item, rest⟩ isItem => ?_
      have first := lengthOfValue _ _ _ isItem
      dsimp only
      cases isComma : expect comma rest with
      | none => rfl
      | some later =>
        have second := length_of_expect isComma
        dsimp only
        rw [ofItems later (by omega)]
    · rw [parseFields, parseFields]
      refine bind_congr fun afterQuote isQuote => ?_
      refine bind_congr fun ⟨key, afterKey⟩ isKey => ?_
      refine bind_congr fun afterColon isColon => ?_
      have first := length_of_expect isQuote
      have second := length_of_parseString isKey
      have third := length_of_expect isColon
      rw [ofValue afterColon (by omega)]
      refine bind_congr fun ⟨value, rest⟩ isValue => ?_
      have fourth := lengthOfValue _ _ _ isValue
      dsimp only
      cases isComma : expect comma rest with
      | none => rfl
      | some later =>
        have fifth := length_of_expect isComma
        dsimp only
        rw [ofFields later (by omega)]

theorem parseValue_of_le {text : Units} {depth : Nat} (enough : 2 * text.length + 1 ≤ depth) :
    parseValue numerals depth text = parseValue numerals (2 * text.length + 1) text := by
  obtain ⟨more, rfl⟩ := Nat.exists_eq_add_of_le enough
  clear enough
  induction more with
  | zero => rfl
  | succ more ih =>
    rw [← Nat.add_assoc, (parseValue_of_enough (2 * text.length + 1 + more)).1 text (by omega), ih]

theorem scalar_ne_string (token value : Units) : scalar numerals token ≠ some (.string value) := by
  intro found
  unfold scalar at found
  split_ifs at found <;> cases found

/-- **A string is shorter than every text that reads as it.** -/
theorem length_of_parse_string {text value : Units}
    (found : parse numerals text = some (.string value)) : value.length < text.length := by
  obtain ⟨⟨result, rest⟩, isValue, found⟩ := bind_eq_some_iff.mp found
  dsimp only at found
  split at found
  · cases found
    rw [parseValue] at isValue
    split at isValue
    · rename_i later isQuote
      obtain ⟨string, isString, same⟩ := map_eq_some.mp isValue
      cases same
      have first := length_of_expect isQuote
      have second := length_of_parseString isString
      omega
    · split at isValue
      · split at isValue
        · cases isValue
        · obtain ⟨items, _, same⟩ := map_eq_some.mp isValue
          cases same
      · split at isValue
        · split at isValue
          · cases isValue
          · obtain ⟨fields, _, same⟩ := map_eq_some.mp isValue
            cases same
        · obtain ⟨scalarValue, isScalar, same⟩ := map_eq_some_iff.mp isValue
          obtain ⟨rfl, _⟩ := Prod.mk.inj same
          exact absurd isScalar (scalar_ne_string _ _)
  · cases found

end Lengths

end RedArchKM.Lib.JsonText
