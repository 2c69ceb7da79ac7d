import RedArchKM.Designer.Values
import RedArchKM.Workflow.JsonLogic

/-!
# Conditions as rows

A condition is shown as rows if it compares variables with scalars, all of which must hold. A row
holds its literal as a text, and its type is guessed when the row is compiled again: `true` and
`false` are truth values, a text that a number is written as becomes that number, and white space
around a text is dropped. So a literal is kept (`keptLiteral_iff`) unless it is null, or a string that
is taken for something else; an expression whose literals are kept means what it did
(`meaning_compileRows`).
-/

namespace RedArchKM.Designer

open Lib.JsonText List
open Workflow.JsonLogic (Python jsonLogic truthy)

variable {ν : Type}

inductive ConditionOp where
  | eq
  | ne
  | gt
  | ge
  | lt
  | le
  | isIn
deriving DecidableEq

def ConditionOp.name : ConditionOp → Units
  | .eq => units "=="
  | .ne => units "!="
  | .gt => units ">"
  | .ge => units ">="
  | .lt => units "<"
  | .le => units "<="
  | .isIn => units "in"

def conditionOps : List ConditionOp := [.eq, .ne, .gt, .ge, .lt, .le, .isIn]

def conditionOp (name : Units) : Option ConditionOp := conditionOps.find? fun op => op.name = name

structure ConditionRow where
  field : Units
  op : ConditionOp
  value : Units
deriving DecidableEq

def varKey : Units := units "var"

def andKey : Units := units "and"

section Rows

variable (numbers : Numbers ν)

/-! ## Compiling -/

def coerce (numeric : Bool) (value : Units) : Value ν :=
  let text := trimmed value
  if text = [] then .string []
  else if text = units "true" then .bool true
  else if text = units "false" then .bool false
  else
    let n := numbers.number text
    if numbers.isNaN n then .string text
    else if numeric || numbers.text n = text then .number n
    else .string text

def varRef (field : Units) : Value ν := .object [(varKey, .string field)]

/-- The items of an `in` row. -/
def rowItems (value : Units) : List Units :=
  ((value.splitOn comma).map trimmed).filter fun item => item ≠ []

def rowLiteral (numeric : Bool) (op : ConditionOp) (value : Units) : Value ν :=
  match op with
  | .isIn => .array ((rowItems value).map (coerce numbers numeric))
  | _ => coerce numbers numeric value

def compileRow (numeric : Bool) (row : ConditionRow) : Value ν :=
  .object [(row.op.name, .array [varRef row.field, rowLiteral numbers numeric row.op row.value])]

def compileRows (isNumeric : Units → Bool) (rows : List ConditionRow) : Value ν :=
  match rows.filter fun row => trimmed row.field ≠ [] with
  | [] => .null
  | [row] => compileRow numbers (isNumeric row.field) row
  | valid => .object [(andKey, .array (valid.map fun row =>
    compileRow numbers (isNumeric row.field) row))]

/-! ## Parsing -/

def scalarToText : Value ν → Units
  | .bool value => units (if value then "true" else "false")
  | .null => []
  | .number value => numbers.text value
  | .string value => value
  -- arrays and objects are no scalars
  | .array _ => []
  | .object _ => []

def isLiteral : Value ν → Bool
  | .array _ => false
  | .object _ => false
  | _ => true

/-- `x.var` of a needle, if it is a string -/
def varOf : Value ν → Option Units
  | .object fields =>
    match fields.lookup varKey with
    | some (.string field) => some field
    | _ => none
  | _ => none

/-- The text of an `in` row. -/
def haystackText : Value ν → Option Units
  | .array items =>
    if items.all isLiteral then
      let parts := items.map (scalarToText numbers)
      if parts.any fun part => part.contains comma then none
      else some ([comma, 32].intercalate parts)
    else none
  | _ => none

def rowText (op : ConditionOp) (right : Value ν) : Option Units :=
  match op with
  | .isIn => haystackText numbers right
  | _ => if isLiteral right then some (scalarToText numbers right) else none

def parseClause : Value ν → Option ConditionRow
  | .object [(name, .array [left, right])] =>
    (conditionOp name).bind fun op => (varOf left).bind fun field =>
      (rowText numbers op right).map fun value => ⟨field, op, value⟩
  | _ => none

def parseExpr : Value ν → Option (List ConditionRow)
  | .null => some []
  | .object fields =>
    match fields.lookup andKey with
    | some (.array clauses) => clauses.mapM (parseClause numbers)
    | _ => (parseClause numbers (.object fields)).map fun row => [row]
  | _ => none

/-! ## What rows keep -/

/-- A literal that is taken for itself. -/
def KeepsLiteral (numeric : Bool) : Value ν → Prop
  | .null => False
  | .string text =>
    trimmed text = text ∧ text ≠ units "true" ∧ text ≠ units "false" ∧
      (text = [] ∨ numbers.isNaN (numbers.number text) = true ∨
        (numeric = false ∧ numbers.text (numbers.number text) ≠ text))
  | _ => True

def KeepsRight (numeric : Bool) : Value ν → Prop
  | .array items => ∀ item ∈ items, item ≠ .string [] ∧ KeepsLiteral numbers numeric item
  | literal => KeepsLiteral numbers numeric literal

/-- A clause that is kept: its variable is read by nothing but a field, which is not blank. -/
def KeepsClause (isNumeric : Units → Bool) (clause : Value ν) : Prop :=
  ∃ op field right, clause = .object [(op, .array [varRef field, right])] ∧ trimmed field ≠ [] ∧
    KeepsRight numbers (isNumeric field) right

/-- An expression whose clauses are kept: it has no other key than `and`, and some clause. -/
def KeepsCondition (isNumeric : Units → Bool) : Value ν → Prop
  | .object fields =>
    match fields.lookup andKey with
    | some (.array clauses) =>
      fields.length = 1 ∧ clauses ≠ [] ∧ ∀ clause ∈ clauses, KeepsClause numbers isNumeric clause
    | _ => KeepsClause numbers isNumeric (.object fields)
  | _ => True

end Rows

variable {numbers : Numbers ν}

/-! ## Literals -/

theorem coerce_trimmed (numeric : Bool) (text : Units) :
    coerce numbers numeric (trimmed text) = coerce numbers numeric text := by
  unfold coerce
  rw [trimmed_trimmed]

theorem coerce_number (lawful : numbers.Lawful) (numeric : Bool) {value : ν}
    (finite : numbers.isFinite value = true) :
    coerce numbers numeric (numbers.text value) = .number value := by
  have wf : (Value.number value).Wf numbers.toNumerals := .number value finite
  have isNumber := lawful.numerals.isNumeral_text value finite
  have solid := solid_stringify lawful.numerals wf
  rw [stringify, if_pos finite] at solid
  have named : ∀ name, isNumeral name = false → numbers.text value ≠ name := by
    intro name notNumber same
    rw [← same, isNumber] at notNumber
    cases notNumber
  unfold coerce
  dsimp only
  rw [trimmed_solid solid, if_neg (named _ (by decide)), if_neg (named _ (by decide)),
    if_neg (named _ (by decide)), lawful.numerals.number_text value finite,
    lawful.isNaN_finite value finite]
  simp

theorem coerce_string_iff (numeric : Bool) (text : Units) :
    coerce numbers numeric text = .string text ↔ KeepsLiteral numbers numeric (.string text) := by
  unfold coerce KeepsLiteral
  dsimp only
  split_ifs with isBlank isTrue isFalse isText isNumber
  · constructor
    · intro same
      cases same
      exact ⟨rfl, by decide, by decide, .inl rfl⟩
    · rintro ⟨isTrimmed, _⟩
      rw [← isTrimmed, isBlank]
  · refine iff_of_false (fun same => by cases same) ?_
    rintro ⟨isTrimmed, notTrue, _⟩
    exact notTrue (isTrimmed.symm.trans isTrue)
  · refine iff_of_false (fun same => by cases same) ?_
    rintro ⟨isTrimmed, _, notFalse, _⟩
    exact notFalse (isTrimmed.symm.trans isFalse)
  · constructor
    · intro same
      have isTrimmed := Value.string.inj same
      rw [isTrimmed] at isTrue isFalse isText
      exact ⟨isTrimmed, isTrue, isFalse, .inr (.inl isText)⟩
    · exact fun kept => congrArg Value.string kept.1
  · refine iff_of_false (fun same => by cases same) ?_
    rintro ⟨isTrimmed, _, _, rfl | isNaN | ⟨notNumeric, notNumber⟩⟩
    · exact isBlank rfl
    · rw [isTrimmed] at isText
      exact isText isNaN
    · rw [isTrimmed, notNumeric] at isNumber
      simp [notNumber] at isNumber
  · constructor
    · intro same
      have isTrimmed := Value.string.inj same
      rw [isTrimmed] at isTrue isFalse isNumber
      simp only [Bool.or_eq_true, decide_eq_true_eq, not_or, Bool.not_eq_true] at isNumber
      exact ⟨isTrimmed, isTrue, isFalse, .inr (.inr isNumber)⟩
    · exact fun kept => congrArg Value.string kept.1

/-- **A literal is taken for itself exactly if it is kept.** -/
theorem keptLiteral_iff (lawful : numbers.Lawful) (numeric : Bool) {literal : Value ν}
    (wf : literal.Wf numbers.toNumerals) (isScalar : isLiteral literal = true) :
    coerce numbers numeric (scalarToText numbers literal) = literal ↔
      KeepsLiteral numbers numeric literal := by
  cases wf with
  | null => exact iff_of_false (fun same => by cases same) fun kept => kept
  | bool value =>
    cases value
    · exact iff_of_true rfl trivial
    · exact iff_of_true rfl trivial
  | number value finite => exact iff_of_true (coerce_number lawful numeric finite) trivial
  | string text => exact coerce_string_iff numeric text
  | array items _ => cases isScalar
  | object fields _ _ => cases isScalar

/-! ## Lists -/

theorem trimmed_cons {unit : Nat} (isSpace : isWhite unit = true) (text : Units) :
    trimmed (unit :: text) = trimmed text := by
  unfold trimmed Lib.trim
  rw [dropWhile_cons_of_pos isSpace]

theorem intercalate_unit (unit : Nat) (part : Units) (parts : List Units) :
    [comma].intercalate ((unit :: part) :: parts) = unit :: [comma].intercalate (part :: parts) := by
  cases parts with
  | nil => rfl
  | cons next others =>
    rfl

theorem intercalate_space (first : Units) (rest : List Units) :
    [comma, 32].intercalate (first :: rest) = [comma].intercalate (first :: rest.map (32 :: ·)) := by
  induction rest generalizing first with
  | nil => rfl
  | cons next others ih =>
    rw [intercalate_cons_cons, ih, map_cons, intercalate_cons_cons, intercalate_unit]
    simp

theorem rowItems_join {parts : List Units} (noComma : ∀ part ∈ parts, comma ∉ part) :
    rowItems ([comma, 32].intercalate parts) =
      (parts.map trimmed).filter fun item => item ≠ [] := by
  cases parts with
  | nil => rfl
  | cons first rest =>
    have parted : ([comma].intercalate (first :: rest.map (32 :: ·))).splitOn comma =
        first :: rest.map (32 :: ·) := by
      refine splitOn_intercalate comma (fun part isPart => ?_) (cons_ne_nil _ _)
      rcases mem_cons.mp isPart with rfl | isLater
      · exact noComma part mem_cons_self
      · obtain ⟨other, isOther, rfl⟩ := mem_map.mp isLater
        have notIn := noComma other (mem_cons_of_mem first isOther)
        rw [mem_cons, not_or]
        exact ⟨by decide, notIn⟩
    have same : (rest.map (32 :: ·)).map trimmed = rest.map trimmed := by
      rw [map_map]
      exact map_congr_left fun part _ => trimmed_cons rfl part
    unfold rowItems
    rw [intercalate_space, parted, map_cons, same, map_cons]

variable {numeric : Bool}

theorem trimmed_ne_nil (lawful : numbers.Lawful) {item : Value ν} (wf : item.Wf numbers.toNumerals)
    (kept : KeepsLiteral numbers numeric item) (notEmpty : item ≠ .string [])
    (isScalar : isLiteral item = true) : trimmed (scalarToText numbers item) ≠ [] := by
  cases wf with
  | null => exact absurd kept id
  | bool value =>
    rw [scalarToText]
    cases value
    · decide
    · decide
  | number value finite =>
    have wf : (Value.number value).Wf numbers.toNumerals := .number value finite
    have solid := solid_stringify lawful.numerals wf
    rw [stringify, if_pos finite] at solid
    obtain ⟨first, rest, isFirst, _⟩ := solid.first
    rw [scalarToText, trimmed_solid solid, isFirst]
    exact cons_ne_nil first rest
  | string text =>
    rw [scalarToText, kept.1]
    exact fun isEmpty => notEmpty (congrArg Value.string isEmpty)
  | array items _ => cases isScalar
  | object fields _ _ => cases isScalar

/-- **Items that are kept are taken for themselves.** -/
theorem kept_items (lawful : numbers.Lawful) {items : List (Value ν)} {text : Units}
    (wf : ∀ item ∈ items, item.Wf numbers.toNumerals)
    (isText : haystackText numbers (.array items) = some text)
    (kept : ∀ item ∈ items, item ≠ .string [] ∧ KeepsLiteral numbers numeric item) :
    (rowItems text).map (coerce numbers numeric) = items := by
  rw [haystackText] at isText
  split at isText
  · rename_i areLiterals
    dsimp only at isText
    split at isText
    · cases isText
    · rename_i noComma
      cases isText
      have scalars := all_eq_true.mp areLiterals
      have apart : ∀ part ∈ items.map (scalarToText numbers), comma ∉ part := by
        simpa using noComma
      have notBlank : ((items.map (scalarToText numbers)).map trimmed).filter (fun item => item ≠ []) =
          (items.map (scalarToText numbers)).map trimmed := by
        refine filter_eq_self.mpr fun part isPart => ?_
        rw [map_map] at isPart
        obtain ⟨item, isItem, rfl⟩ := mem_map.mp isPart
        obtain ⟨notEmpty, isKept⟩ := kept item isItem
        exact decide_eq_true (trimmed_ne_nil lawful (wf item isItem) isKept notEmpty
          (scalars item isItem))
      rw [rowItems_join apart, notBlank, map_map, map_map]
      refine (map_congr_left fun item isItem => ?_).trans (map_id items)
      refine (coerce_trimmed numeric _).trans ?_
      exact (keptLiteral_iff lawful numeric (wf item isItem) (scalars item isItem)).mpr
        (kept item isItem).2
  · cases isText

/-! ## Clauses and expressions -/

theorem name_of_conditionOp {name : Units} {op : ConditionOp} (isOp : conditionOp name = some op) :
    op.name = name := by
  have found := find?_some isOp
  exact of_decide_eq_true found

theorem rowLiteral_rowText (lawful : numbers.Lawful) {op : ConditionOp} {right : Value ν}
    {text : Units} (wf : right.Wf numbers.toNumerals)
    (isText : rowText numbers op right = some text) (kept : KeepsRight numbers numeric right) :
    rowLiteral numbers numeric op text = right := by
  have ofScalar : isLiteral right = true → scalarToText numbers right = text →
      coerce numbers numeric text = right := by
    rintro isScalar rfl
    refine (keptLiteral_iff lawful numeric wf isScalar).mpr ?_
    cases right with
    | array items => cases isScalar
    | _ => exact kept
  cases op with
  | isIn =>
    cases wf with
    | array items each => exact congrArg Value.array (kept_items lawful each isText kept)
    | _ => cases isText
  | _ =>
    obtain ⟨isScalar, same⟩ := Option.ite_none_right_eq_some.mp isText
    exact ofScalar isScalar (Option.some.inj same)

/-- **A clause that is kept is compiled to itself.** -/
theorem compileRow_parseClause (lawful : numbers.Lawful) {isNumeric : Units → Bool}
    {clause : Value ν} {row : ConditionRow} (wf : clause.Wf numbers.toNumerals)
    (isRow : parseClause numbers clause = some row)
    (kept : KeepsClause numbers isNumeric clause) :
    trimmed row.field ≠ [] ∧ compileRow numbers (isNumeric row.field) row = clause := by
  obtain ⟨name, field, right, rfl, notBlank, keptRight⟩ := kept
  have wfRight : right.Wf numbers.toNumerals := by
    cases wf with
    | object _ _ each =>
      cases each _ mem_cons_self with
      | array _ each => exact each right (mem_cons_of_mem _ mem_cons_self)
  obtain ⟨op, isOp, isRow⟩ := Option.bind_eq_some_iff.mp isRow
  obtain ⟨field', isField, isRow⟩ := Option.bind_eq_some_iff.mp isRow
  obtain rfl : field = field' := Option.some.inj isField
  obtain ⟨text, isText, rfl⟩ := Option.map_eq_some_iff.mp isRow
  refine ⟨notBlank, ?_⟩
  unfold compileRow
  rw [rowLiteral_rowText lawful wfRight isText keptRight, name_of_conditionOp isOp]

theorem compileRow_parseClauses (lawful : numbers.Lawful) {isNumeric : Units → Bool}
    {clauses : List (Value ν)} {rows : List ConditionRow}
    (wf : ∀ clause ∈ clauses, clause.Wf numbers.toNumerals)
    (areRows : clauses.mapM (parseClause numbers) = some rows)
    (kept : ∀ clause ∈ clauses, KeepsClause numbers isNumeric clause) :
    (rows.filter fun row => trimmed row.field ≠ []) = rows ∧
      (rows.map fun row => compileRow numbers (isNumeric row.field) row) = clauses := by
  induction clauses generalizing rows with
  | nil =>
    cases areRows
    exact ⟨rfl, rfl⟩
  | cons clause rest ih =>
    rw [mapM_cons] at areRows
    obtain ⟨row, isRow, later⟩ := Option.bind_eq_some_iff.mp areRows
    obtain ⟨others, areOthers, same⟩ := Option.bind_eq_some_iff.mp later
    cases same
    obtain ⟨notBlank, isClause⟩ := compileRow_parseClause lawful (wf clause mem_cons_self) isRow
      (kept clause mem_cons_self)
    obtain ⟨allKept, areClauses⟩ := ih
      (fun other isOther => wf other (mem_cons_of_mem clause isOther)) areOthers
      fun other isOther => kept other (mem_cons_of_mem clause isOther)
    rw [filter_cons_of_pos (by simpa using notBlank), allKept, map_cons, isClause, areClauses]
    exact ⟨rfl, rfl⟩

/-! ## Meaning -/

section Meaning

variable {python : Python ν}

/-- Whether a condition holds, or nothing where it raises. No condition always holds. -/
def meaning (python : Python ν) (data : Value ν) : Value ν → Option Bool
  | .null => some true
  | rule => (jsonLogic python data rule).map (truthy python)

theorem meaning_object (data : Value ν) (fields : Fields ν) :
    meaning python data (.object fields) =
      (jsonLogic python data (.object fields)).map (truthy python) := rfl

theorem meaning_and_single (data : Value ν) (fields : Fields ν) :
    meaning python data (.object [(andKey, .array [.object fields])]) =
      meaning python data (.object fields) := by
  have isAnd : jsonLogic python data (.object [(andKey, .array [.object fields])]) =
      Workflow.JsonLogic.decided python false .null [jsonLogic python data (.object fields)] := rfl
  rw [meaning_object, meaning_object, isAnd]
  cases jsonLogic python data (.object fields) with
  | none => rfl
  | some result =>
    unfold Workflow.JsonLogic.decided
    split
    · rfl
    · rfl

theorem meaning_compileRows_clauses (lawful : numbers.Lawful) {isNumeric : Units → Bool}
    {clauses : List (Value ν)} {rows : List ConditionRow}
    (wf : ∀ clause ∈ clauses, clause.Wf numbers.toNumerals)
    (areRows : clauses.mapM (parseClause numbers) = some rows) (notEmpty : clauses ≠ [])
    (kept : ∀ clause ∈ clauses, KeepsClause numbers isNumeric clause) (data : Value ν) :
    meaning python data (compileRows numbers isNumeric rows) =
      meaning python data (.object [(andKey, .array clauses)]) := by
  obtain ⟨allKept, areClauses⟩ := compileRow_parseClauses lawful wf areRows kept
  unfold compileRows
  rw [allKept]
  match rows, areClauses with
  | [], isEmpty => exact absurd isEmpty.symm notEmpty
  | [row], isSingle =>
    rw [← isSingle]
    exact (meaning_and_single data _).symm
  | row :: next :: others, areClauses => rw [← areClauses]

/-- **An expression that is kept means what it did.** -/
theorem meaning_compileRows (lawful : numbers.Lawful) {isNumeric : Units → Bool} {expr : Value ν}
    {rows : List ConditionRow} (wf : expr.Wf numbers.toNumerals)
    (accepted : parseExpr numbers expr = some rows) (kept : KeepsCondition numbers isNumeric expr)
    (data : Value ν) :
    meaning python data (compileRows numbers isNumeric rows) = meaning python data expr := by
  have wfExpr := wf
  cases wf with
  | null =>
    cases accepted
    rfl
  | object fields _ each =>
    unfold parseExpr at accepted
    unfold KeepsCondition at kept
    dsimp only at accepted kept
    split at accepted
    · rename_i clauses isAnd
      rw [isAnd] at kept
      obtain ⟨isOnly, notEmpty, kept⟩ := kept
      obtain ⟨only, rfl⟩ := length_eq_one_iff.mp isOnly
      obtain ⟨before, after, split, _⟩ := lookup_eq_some_iff.mp isAnd
      have isEntry : (andKey, Value.array clauses) ∈ [only] :=
        split ▸ mem_append_right _ mem_cons_self
      obtain rfl := mem_singleton.mp isEntry
      have wfClauses : ∀ clause ∈ clauses, clause.Wf numbers.toNumerals := by
        cases each _ mem_cons_self with
        | array _ each => exact each
      exact meaning_compileRows_clauses lawful wfClauses accepted notEmpty kept data
    · rename_i notAnd
      obtain ⟨row, isRow, rfl⟩ := Option.map_eq_some_iff.mp accepted
      have keptClause : KeepsClause numbers isNumeric (.object fields) := by
        split at kept
        · rename_i clauses isAnd
          exact absurd isAnd (notAnd clauses)
        · exact kept
      obtain ⟨notBlank, isClause⟩ := compileRow_parseClause lawful wfExpr isRow keptClause
      unfold compileRows
      rw [filter_cons_of_pos (by simpa using notBlank), filter_nil]
      dsimp only
      rw [isClause]
  | _ => cases accepted

end Meaning

end RedArchKM.Designer
