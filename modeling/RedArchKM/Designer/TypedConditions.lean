import RedArchKM.Designer.ConditionExpr
import RedArchKM.Designer.ValueEditors

/-!
# What a typed condition compares with

On a field that is declared as text, a row compares the record's text with what was typed exactly if
the text that was typed is taken for itself (`comparesTyped_iff`). For `==` and `!=` it may also be a
number that Python writes as it was typed, since numbers and texts are compared as texts.
-/

namespace RedArchKM.Designer

open Lib.JsonText Option
open Workflow.JsonLogic

variable {ν : Type}

def ConditionOp.operator : ConditionOp → Operator
  | .eq => .eq
  | .ne => .ne
  | .gt => .gt
  | .ge => .ge
  | .lt => .lt
  | .le => .le
  | .isIn => .isIn

def typedLiteral (op : ConditionOp) (value : Units) : Value ν :=
  match op with
  | .isIn => .array ((rowItems value).map .string)
  | _ => .string value

section

variable (numbers : Numbers ν)

/-- The row compares every text that its field holds with what was typed. -/
def ComparesTyped (python : Python ν) (row : ConditionRow) : Prop :=
  ∀ data text, getVar python data (.string row.field) .null = .string text →
    jsonLogic python data (compileRow numbers false row) =
      jsonLogic python data
        (.object [(row.op.name, .array [varRef row.field, typedLiteral row.op row.value])])

def NumberText (text : Units) : Prop :=
  trimmed text ≠ [] ∧ trimmed text ≠ units "true" ∧ trimmed text ≠ units "false" ∧
    numbers.isNaN (numbers.number (trimmed text)) = false ∧
      numbers.text (numbers.number (trimmed text)) = trimmed text

/-- What was typed is compared as it is. -/
def KeepsTyped (python : Python ν) (row : ConditionRow) : Prop :=
  match row.op with
  | .eq | .ne =>
    KeepsLiteral numbers false (.string row.value) ∨ (NumberText numbers row.value ∧
      python.str (.number (numbers.number (trimmed row.value))) = row.value)
  | .isIn => ∀ item ∈ rowItems row.value, KeepsLiteral numbers false (.string item)
  | _ => KeepsLiteral numbers false (.string row.value)

end

variable {numbers : Numbers ν} {python : Python ν}

/-! ## Clauses -/

theorem jsonLogic_clause (data : Value ν) (op : ConditionOp) (field : Units) {right : Value ν}
    (isValue : jsonLogic python data right = some right) :
    jsonLogic python data (.object [(op.name, .array [varRef field, right])]) =
      strict python op.operator [getVar python data (.string field) .null, right] := by
  have isVar : jsonLogic python data (varRef field) =
      some (getVar python data (.string field) .null) := rfl
  have applied : jsonLogic python data (.object [(op.name, .array [varRef field, right])]) =
      apply python data op.name [varRef field, right]
        [jsonLogic python data (varRef field), jsonLogic python data right] := rfl
  rw [applied, isVar, isValue]
  cases op <;> rfl

theorem exists_data (field text : Units) :
    ∃ data : Value ν, getVar python data (.string field) .null = .string text := by
  have nested : ∀ parts : List Units, walk .null parts
      (parts.foldr (fun part inner => .object [(part, inner)]) (.string text : Value ν)) =
        .string text := by
    intro parts
    induction parts with
    | nil => rfl
    | cons part parts ih =>
      rwa [List.foldr_cons, walk, List.lookup_cons_self]
  cases field with
  | nil => exact ⟨.string text, rfl⟩
  | cons first rest => exact ⟨_, nested (pathParts (first :: rest))⟩

theorem coerce_false (value : Units) :
    (¬NumberText numbers value ∧ coerce numbers false value = .string (trimmed value)) ∨
      (¬NumberText numbers value ∧ ∃ known, coerce numbers false value = .bool known) ∨
        (NumberText numbers value ∧
          coerce numbers false value = .number (numbers.number (trimmed value))) := by
  unfold coerce NumberText
  dsimp only
  split_ifs with isBlank isTrue isFalse isNaN isNumber
  · rw [isBlank]
    exact .inl ⟨fun isText => isText.1 rfl, rfl⟩
  · exact .inr (.inl ⟨fun isText => isText.2.1 isTrue, true, rfl⟩)
  · exact .inr (.inl ⟨fun isText => isText.2.2.1 isFalse, false, rfl⟩)
  · refine .inl ⟨fun isText => ?_, rfl⟩
    rw [isNaN] at isText
    cases isText.2.2.2.1
  · exact .inr (.inr ⟨⟨isBlank, isTrue, isFalse, by simpa using isNaN, by simpa using isNumber⟩, rfl⟩)
  · refine .inl ⟨fun isText => ?_, rfl⟩
    exact isNumber (by simpa using isText.2.2.2.2)

theorem jsonLogic_literal (data : Value ν) {value : Value ν} (notObject : ∀ fields, value ≠ .object fields) :
    jsonLogic python data value = some value := by
  cases value with
  | object fields => exact absurd rfl (notObject fields)
  | _ => rfl

section

variable (op : ConditionOp) (value : Units) (fields : Fields ν)

theorem rowLiteral_ne_object : rowLiteral numbers false op value ≠ .object fields := by
  have ofScalar : coerce numbers false value ≠ .object fields := by
    rcases @coerce_false ν numbers value with ⟨_, isText⟩ | ⟨_, known, isKnown⟩ | ⟨_, isNumber⟩
    · rw [isText]
      exact fun same => by cases same
    · rw [isKnown]
      exact fun same => by cases same
    · rw [isNumber]
      exact fun same => by cases same
  cases op with
  | isIn => exact fun same => by cases same
  | _ => exact ofScalar

theorem typedLiteral_ne_object : typedLiteral op value ≠ .object fields := by
  cases op <;> exact fun same => by cases same

end

theorem comparesTyped_iff_strict (row : ConditionRow) :
    ComparesTyped numbers python row ↔ ∀ text,
      strict python row.op.operator [.string text, rowLiteral numbers false row.op row.value] =
        strict python row.op.operator [.string text, typedLiteral row.op row.value] := by
  have compiled := fun data => jsonLogic_clause data row.op row.field
    (@jsonLogic_literal ν python data _ (@rowLiteral_ne_object ν numbers row.op row.value))
  have typed := fun data => jsonLogic_clause data row.op row.field
    (@jsonLogic_literal ν python data _ (typedLiteral_ne_object row.op row.value))
  constructor
  · intro compares text
    obtain ⟨data, isText⟩ := @exists_data ν python row.field text
    have same := compares data text isText
    rw [compileRow, compiled, typed, isText] at same
    exact same
  · intro same data text isText
    rw [compileRow, compiled, typed, isText]
    exact same text

/-! ## Equality -/

theorem looseEq_string (text other : Units) :
    looseEq python (.string text) (.string other) = (text == other) := rfl

theorem looseEq_bool (text : Units) (known : Bool) :
    looseEq python (.string text) (.bool known) = false := rfl

theorem looseEq_number (text : Units) (n : ν) :
    looseEq python (.string text) (.number n) = (text == python.str (.number n)) := rfl

theorem keepsLiteral_iff_coerce (value : Units) :
    KeepsLiteral numbers false (.string value) ↔ coerce numbers false value = .string value :=
  (coerce_string_iff false value).symm

theorem eq_of_beq_alike {a b : Units} (alike : ∀ text : Units, (text == a) = (text == b)) : a = b := by
  have same := alike a
  rw [beq_self_eq_true] at same
  exact eq_of_beq same.symm

theorem looseEq_typed_iff (value : Units) :
    (∀ text, looseEq python (.string text) (coerce numbers false value) =
        looseEq python (.string text) (.string value)) ↔
      KeepsLiteral numbers false (.string value) ∨ (NumberText numbers value ∧
        python.str (.number (numbers.number (trimmed value))) = value) := by
  rw [keepsLiteral_iff_coerce]
  rcases @coerce_false ν numbers value with
    ⟨notNumber, isText⟩ | ⟨notNumber, known, isKnown⟩ | ⟨isNumberText, isNumber⟩
  · rw [isText]
    simp only [looseEq_string, notNumber, false_and, or_false]
    constructor
    · exact fun alike => congrArg Value.string (eq_of_beq_alike alike)
    · exact fun same text => by rw [Value.string.inj same]
  · rw [isKnown]
    simp only [looseEq_bool, looseEq_string, notNumber, false_and, or_false]
    refine iff_of_false (fun alike => ?_) fun same => by cases same
    have never := alike value
    rw [beq_self_eq_true] at never
    cases never
  · rw [isNumber]
    simp only [looseEq_number, looseEq_string, isNumberText, true_and]
    constructor
    · exact fun alike => .inr (eq_of_beq_alike alike)
    · rintro (same | same)
      · cases same
      · exact fun text => by rw [same]

/-! ## Order -/

theorem cmp_string (text other : Units) :
    cmp python (.string text) (.string other) =
      some (if python.lessText text other then .lt
        else if python.lessText other text then .gt else .eq) := by
  have compared : cmp python (.string text) (.string other) =
      if python.lessText text other then some .lt
      else some (if python.lessText other text then .gt else .eq) := rfl
  rw [compared]
  split
  · rfl
  · rfl

theorem cmp_number {text : Units} {literal : Value ν} (isNumber : isNumber literal = true)
    (notEmpty : text ≠ []) (notFloat : python.parseFloat text = none) :
    cmp python (.string text) literal = none := by
  have noNumber : num python (.string text) = none := by
    cases text with
    | nil => exact absurd rfl notEmpty
    | cons first rest => exact notFloat
  unfold Workflow.JsonLogic.cmp
  rw [isNumber, Bool.or_true, if_pos rfl, noNumber]
  rfl

/-- The operators that put values in order. -/
def ConditionOp.isOrder : ConditionOp → Bool
  | .gt => true
  | .ge => true
  | .lt => true
  | .le => true
  | _ => false

theorem strict_order {op : ConditionOp} (isOrder : op.isOrder = true) :
    ∃ holds : Ordering → Bool,
      (∀ a b : Value ν, strict python op.operator [a, b] =
        (cmp python a b).map fun order => .bool (holds order)) ∧
      ((∀ order, holds order = decide (order = .lt)) ∨ (∀ order, holds order = decide (order = .gt)) ∨
        (∀ order, holds order = decide (order ≠ .lt)) ∨
          ∀ order, holds order = decide (order ≠ .gt)) := by
  cases op with
  | gt => exact ⟨_, fun _ _ => rfl, .inr (.inl fun _ => rfl)⟩
  | ge => exact ⟨_, fun _ _ => rfl, .inr (.inr (.inl fun _ => rfl))⟩
  | lt => exact ⟨_, fun _ _ => rfl, .inl fun _ => rfl⟩
  | le => exact ⟨_, fun _ _ => rfl, .inr (.inr (.inr fun _ => rfl))⟩
  | _ => cases isOrder

theorem eq_of_order_alike (lawful : python.Lawful) {op : ConditionOp} (isOrder : op.isOrder = true)
    {a b : Units}
    (alike : ∀ text, strict python op.operator [.string text, .string a] =
      strict python op.operator [.string text, .string b]) : a = b := by
  obtain ⟨holds, isStrict, kind⟩ := @strict_order ν python op isOrder
  have same : ∀ text, holds (if python.lessText text a then .lt
      else if python.lessText a text then .gt else .eq) =
        holds (if python.lessText text b then .lt
          else if python.lessText b text then .gt else .eq) := by
    intro text
    have found := alike text
    rw [isStrict, isStrict, cmp_string, cmp_string] at found
    exact Value.bool.inj (some.inj found)
  have irrefl : ∀ text, python.lessText text text = false := by
    intro text
    by_contra isLess
    have isTrue : python.lessText text text = true := by simpa using isLess
    have isFalse := lawful.asymm text text isTrue
    rw [isTrue] at isFalse
    cases isFalse
  have first := same a
  have second := same b
  rw [irrefl] at first second
  -- each operator tells a text apart from those before it, or from those after it
  have apart : python.lessText a b = false ∧ python.lessText b a = false := by
    cases isLess : python.lessText a b with
    | false =>
      cases isGreater : python.lessText b a with
      | false => exact ⟨rfl, rfl⟩
      | true =>
        rw [isLess, isGreater] at first second
        rcases kind with kind | kind | kind | kind
        all_goals
          rw [kind, kind] at first second
          simp at first second
    | true =>
      have isGreater := lawful.asymm a b isLess
      rw [isLess, isGreater] at first second
      rcases kind with kind | kind | kind | kind
      all_goals
        rw [kind, kind] at first second
        simp at first second
  exact lawful.connected a b apart.1 apart.2

theorem order_typed_iff (lawful : python.Lawful) {op : ConditionOp} (isOrder : op.isOrder = true)
    (value : Units) :
    (∀ text, strict python op.operator [.string text, coerce numbers false value] =
        strict python op.operator [.string text, .string value]) ↔
      KeepsLiteral numbers false (.string value) := by
  obtain ⟨holds, isStrict, _⟩ := @strict_order ν python op isOrder
  obtain ⟨text, notEmpty, notFloat⟩ := lawful.notFloat
  have noNumber : ∀ literal : Value ν, isNumber literal = true →
      strict python op.operator [.string text, literal] ≠
        strict python op.operator [.string text, .string value] := by
    intro literal isNumberLiteral same
    rw [isStrict, isStrict, cmp_number isNumberLiteral notEmpty notFloat, cmp_string] at same
    cases same
  rw [keepsLiteral_iff_coerce]
  rcases @coerce_false ν numbers value with ⟨_, isText⟩ | ⟨_, known, isKnown⟩ | ⟨_, isNumber⟩
  · rw [isText]
    constructor
    · exact fun alike => congrArg Value.string (eq_of_order_alike lawful isOrder alike)
    · exact fun same text => by rw [same]
  · rw [isKnown]
    exact iff_of_false (fun alike => noNumber _ rfl (alike text)) fun same => by cases same
  · rw [isNumber]
    exact iff_of_false (fun alike => noNumber _ rfl (alike text)) fun same => by cases same

/-! ## Membership -/

theorem isIn_texts (text : Units) (items : List Units) :
    isIn python (.string text) (.array (items.map .string)) = some (decide (text ∈ items)) := by
  have same : (items.map Value.string).any (equal python (.string text)) = decide (text ∈ items) := by
    rw [List.any_map]
    induction items with
    | nil => rfl
    | cons item rest ih =>
      have first : equal python (.string text) (.string item) = (text == item) := rfl
      rw [List.any_cons, ih, Function.comp_apply, first]
      simp [List.mem_cons, Bool.decide_or, beq_eq_decide]
  exact congrArg some same

theorem trimmed_of_mem_rowItems {value item : Units} (isItem : item ∈ rowItems value) :
    trimmed item = item := by
  obtain ⟨part, _, rfl⟩ := List.mem_map.mp (List.mem_of_mem_filter isItem)
  exact trimmed_trimmed part

theorem in_typed_iff (value : Units) :
    (∀ text, isIn python (.string text) (.array ((rowItems value).map (coerce numbers false))) =
        isIn python (.string text) (.array ((rowItems value).map .string))) ↔
      ∀ item ∈ rowItems value, KeepsLiteral numbers false (.string item) := by
  constructor
  · intro alike item isItem
    have found := alike item
    rw [isIn_texts, decide_eq_true isItem] at found
    obtain ⟨other, isOther, isEqual⟩ := List.any_eq_true.mp (some.inj found)
    obtain ⟨typed, isTyped, rfl⟩ := List.mem_map.mp isOther
    rcases @coerce_false ν numbers typed with ⟨_, isText⟩ | ⟨_, known, isKnown⟩ | ⟨_, isNumber⟩
    · rw [isText, trimmed_of_mem_rowItems isTyped] at isEqual
      have same : item = typed := eq_of_beq isEqual
      rw [keepsLiteral_iff_coerce, same, isText, trimmed_of_mem_rowItems isTyped]
    · rw [isKnown] at isEqual
      cases isEqual
    · rw [isNumber] at isEqual
      cases isEqual
  · intro kept text
    have same : (rowItems value).map (coerce numbers false) = (rowItems value).map .string :=
      List.map_congr_left fun item isItem => keepsLiteral_iff_coerce item |>.mp (kept item isItem)
    rw [same]

/-! ## Rows -/

theorem strict_eq_iff (value literal other : Value ν) :
    (strict python .eq [value, literal] = strict python .eq [value, other] ↔
        looseEq python value literal = looseEq python value other) ∧
      (strict python .ne [value, literal] = strict python .ne [value, other] ↔
        looseEq python value literal = looseEq python value other) := by
  have ofEq : ∀ right, strict python .eq [value, right] = some (.bool (looseEq python value right)) :=
    fun right => rfl
  have ofNe : ∀ right, strict python .ne [value, right] = some (.bool (!looseEq python value right)) :=
    fun right => rfl
  rw [ofEq, ofEq, ofNe, ofNe]
  constructor
  · exact ⟨fun same => Value.bool.inj (some.inj same), fun same => by rw [same]⟩
  · exact ⟨fun same => Bool.not_inj (Value.bool.inj (some.inj same)), fun same => by rw [same]⟩

theorem strict_in_iff (value literal other : Value ν) :
    strict python .isIn [value, literal] = strict python .isIn [value, other] ↔
      isIn python value literal = isIn python value other := by
  exact (map_injective fun _ _ same => Value.bool.inj same).eq_iff

/-- **A row compares with what was typed exactly if that is kept.** -/
theorem comparesTyped_iff (lawful : python.Lawful) (row : ConditionRow) :
    ComparesTyped numbers python row ↔ KeepsTyped numbers python row := by
  rw [comparesTyped_iff_strict]
  obtain ⟨field, op, value⟩ := row
  cases op with
  | eq =>
    refine (forall_congr' fun text => ?_).trans (@looseEq_typed_iff ν numbers python value)
    exact (strict_eq_iff _ _ _).1
  | ne =>
    refine (forall_congr' fun text => ?_).trans (@looseEq_typed_iff ν numbers python value)
    exact (strict_eq_iff _ _ _).2
  | isIn =>
    refine (forall_congr' fun text => ?_).trans (@in_typed_iff ν numbers python value)
    exact strict_in_iff _ _ _
  | gt => exact order_typed_iff lawful rfl value
  | ge => exact order_typed_iff lawful rfl value
  | lt => exact order_typed_iff lawful rfl value
  | le => exact order_typed_iff lawful rfl value

/-- Python on natural numbers. -/
def wholes : Python (Option Nat) where
  isFloat _ := false
  ofBool value := some (if value then 1 else 0)
  equal a b := a == b
  less a b := decide (a.getD 0 < b.getD 0)
  zero := some 0
  one := some 1
  add a b := some (a.getD 0 + b.getD 0)
  sub a b := some (a.getD 0 - b.getD 0)
  mul a b := some (a.getD 0 * b.getD 0)
  neg _ := none
  div _ _ := none
  float n := some n
  parseFloat text := (readDecimal text).map some
  str
    | .number n => naturals.text n
    | .bool value => units (if value then "True" else "False")
    | _ => units "None"
  lessText a b := decide (a < b)
  lessThan _ _ := none

theorem lawful_wholes : wholes.Lawful where
  asymm a b isLess := decide_eq_false (List.lt_asymm (of_decide_eq_true isLess))
  connected a b notLess notGreater :=
    List.le_antisymm (of_decide_eq_false notGreater) (of_decide_eq_false notLess)
  notFloat := ⟨units "x", by decide, by decide⟩

def flagRule : Value (Option Nat) :=
  .object [(units "==", .array [varRef (units "after.flag"), .string (units "true")])]

def flagged : Value (Option Nat) :=
  .object [(units "after", .object [(units "flag", .string (units "true"))])]

def statusRule : Value (Option Nat) :=
  .object [(andKey, .array
    [.object [(units "==", .array [varRef (units "after.status"), .string (units "open")])],
      .object [(units "in", .array [varRef (units "after.kind"),
        .array [.string (units "bug"), .string (units "task")]])]])]

theorem wf_statusRule : statusRule.Wf naturals.toNumerals := by
  have texts : ∀ items : List Units,
      (Value.array (items.map .string) : Value (Option Nat)).Wf naturals.toNumerals := by
    intro items
    refine .array _ fun item isItem => ?_
    obtain ⟨text, _, rfl⟩ := List.mem_map.mp isItem
    exact .string text
  have isVar : ∀ field, (varRef field : Value (Option Nat)).Wf naturals.toNumerals := by
    intro field
    refine .object _ (List.nodup_singleton _) fun entry isEntry => ?_
    rw [List.mem_singleton.mp isEntry]
    exact .string field
  have clause : ∀ op field right, right.Wf naturals.toNumerals →
      (Value.object [(op, .array [varRef field, right])]).Wf naturals.toNumerals := by
    intro op field right wf
    refine .object _ (List.nodup_singleton _) fun entry isEntry => ?_
    rw [List.mem_singleton.mp isEntry]
    refine .array _ fun item isItem => ?_
    rcases List.mem_pair.mp isItem with rfl | rfl
    · exact isVar field
    · exact wf
  refine .object _ (List.nodup_singleton _) fun entry isEntry => ?_
  rw [List.mem_singleton.mp isEntry]
  refine .array _ fun item isItem => ?_
  rcases List.mem_pair.mp isItem with rfl | rfl
  · exact clause _ _ _ (.string _)
  · exact clause _ _ _ (texts [units "bug", units "task"])

theorem kept_statusRule : KeepsCondition naturals (fun _ => false) statusRule := by
  have keptText : ∀ text ∈ [units "open", units "bug", units "task"],
      KeepsLiteral naturals false (.string text) := by
    intro text isText
    simp only [List.mem_cons, List.not_mem_nil, or_false] at isText
    rcases isText with rfl | rfl | rfl
    · exact ⟨by decide, by decide, by decide, .inr (.inl (by decide))⟩
    · exact ⟨by decide, by decide, by decide, .inr (.inl (by decide))⟩
    · exact ⟨by decide, by decide, by decide, .inr (.inl (by decide))⟩
  have notEmpty : ∀ text : Units, text ≠ [] → (Value.string text : Value (Option Nat)) ≠ .string [] :=
    fun text isText same => isText (Value.string.inj same)
  refine ⟨rfl, List.cons_ne_nil _ _, fun clause isClause => ?_⟩
  rcases List.mem_pair.mp isClause with rfl | rfl
  · exact ⟨_, _, _, rfl, by decide, keptText _ (by decide)⟩
  · refine ⟨_, _, _, rfl, by decide, fun item isItem => ?_⟩
    rcases List.mem_pair.mp isItem with rfl | rfl
    · exact ⟨notEmpty _ (by decide), keptText _ (by decide)⟩
    · exact ⟨notEmpty _ (by decide), keptText _ (by decide)⟩

end RedArchKM.Designer
