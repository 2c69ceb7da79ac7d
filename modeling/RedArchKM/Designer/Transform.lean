import RedArchKM.Designer.Values

/-!
# The transform of a script

A script task sets variables to expressions. The editor shows an expression as text: JSON that is no
string by its JSON, a string as it is, and in quotes if it would read as JSON otherwise. A cell that
is no JSON is read as the string that it holds.

A value that is no string is kept, and so is a string unless it is blank, or is JSON only without the
white space around it (`keptText_iff`).
-/

namespace RedArchKM.Designer

open Lib.JsonText List

variable {ν : Type}

structure TransformRow where
  key : Units
  expr : Units

section Editor

variable (numbers : Numbers ν)

def parseExprText (text : Units) : Value ν :=
  if trimmed text = [] then .string []
  else
    match parse numbers.toNumerals (trimmed text) with
    | some value => value
    | none => .string text

def exprToText : Value ν → Units
  | .string value =>
    if (parse numbers.toNumerals value).isSome then stringify numbers.toNumerals (.string value)
    else value
  | value => stringify numbers.toNumerals value

def asRecord : Value ν → Fields ν
  | .object fields => fields
  | _ => []

def transformToRows (value : Value ν) : List TransformRow :=
  (asRecord value).map fun (key, value) => ⟨key, exprToText numbers value⟩

def rowsToTransform (rows : List TransformRow) : Fields ν :=
  rows.foldl (fun object row =>
    if trimmed row.key = [] then object
    else assign (trimmed row.key) (parseExprText numbers row.expr) object) []

def KeepsText (text : Units) : Prop :=
  text = [] ∨ (parse numbers.toNumerals text).isSome = true ∨
    (trimmed text ≠ [] ∧ parse numbers.toNumerals (trimmed text) = none)

end Editor

variable {numbers : Numbers ν}

theorem parseExprText_stringify (lawful : numbers.Lawful) {value : Value ν}
    (wf : value.Wf numbers.toNumerals) :
    parseExprText numbers (stringify numbers.toNumerals value) = value := by
  have solid := solid_stringify lawful.numerals wf
  obtain ⟨first, rest, isFirst, _⟩ := solid.first
  unfold parseExprText
  rw [trimmed_solid solid, if_neg (by rw [isFirst]; exact cons_ne_nil _ _),
    parse_stringify lawful.numerals wf]

theorem parse_trimmed_ne (text : Units) :
    parse numbers.toNumerals (trimmed text) ≠ some (.string text) := by
  intro found
  have shorter := length_of_parse_string found
  have within : (trimmed text).length ≤ text.length :=
    (List.rdropWhile_prefix _ _).length_le.trans (dropWhile_suffix _).length_le
  omega

theorem keptText_iff (lawful : numbers.Lawful) {text : Units} :
    parseExprText numbers (exprToText numbers (.string text)) = .string text ↔
      KeepsText numbers text := by
  unfold KeepsText
  rw [exprToText]
  cases isJson : (parse numbers.toNumerals text).isSome with
  | true =>
    rw [if_pos rfl, parseExprText_stringify lawful (.string text)]
    exact iff_of_true rfl (.inr (.inl rfl))
  | false =>
    rw [if_neg Bool.false_ne_true]
    unfold parseExprText
    by_cases isBlank : trimmed text = []
    · rw [if_pos isBlank]
      constructor
      · intro same
        exact .inl (Value.string.inj same).symm
      · rintro (rfl | isJson | ⟨notBlank, _⟩)
        · rfl
        · cases isJson
        · exact absurd isBlank notBlank
    · rw [if_neg isBlank]
      cases found : parse numbers.toNumerals (trimmed text) with
      | none => exact iff_of_true rfl (.inr (.inr ⟨isBlank, rfl⟩))
      | some value =>
        refine iff_of_false (fun same => ?_) ?_
        · exact parse_trimmed_ne text (found.trans (congrArg some same))
        · rintro (rfl | isJson | ⟨_, notJson⟩)
          · exact isBlank rfl
          · cases isJson
          · cases notJson

/-- A value that its cell keeps. -/
def KeepsExpr (numbers : Numbers ν) : Value ν → Prop
  | .string text => KeepsText numbers text
  | _ => True

theorem keptExpr_iff (lawful : numbers.Lawful) {value : Value ν} (wf : value.Wf numbers.toNumerals) :
    parseExprText numbers (exprToText numbers value) = value ↔ KeepsExpr numbers value := by
  cases value with
  | string text => exact keptText_iff lawful
  | null => exact iff_of_true (parseExprText_stringify lawful wf) trivial
  | bool value => exact iff_of_true (parseExprText_stringify lawful wf) trivial
  | number value => exact iff_of_true (parseExprText_stringify lawful wf) trivial
  | array items => exact iff_of_true (parseExprText_stringify lawful wf) trivial
  | object fields => exact iff_of_true (parseExprText_stringify lawful wf) trivial

/-- **The transform that is saved is the one that was opened** exactly if no key is `__proto__` and
each cell keeps its value. -/
theorem sameFields_transform_iff (lawful : numbers.Lawful) {transform : Fields ν}
    (wf : (Value.object transform).Wf numbers.toNumerals)
    (plain : ∀ entry ∈ transform, PlainKey entry.1) :
    SameFields (rowsToTransform numbers (transformToRows numbers (.object transform))) transform ↔
      ∀ entry ∈ transform, entry.1 ≠ prototypeKey ∧ KeepsExpr numbers entry.2 := by
  cases wf with
  | object _ keys each =>
    have rebuilt : rowsToTransform numbers (transformToRows numbers (.object transform)) =
        transform.foldl (fun built entry => assign entry.1
          (parseExprText numbers (exprToText numbers entry.2)) built) [] := by
      unfold rowsToTransform transformToRows
      rw [foldl_map]
      refine foldl_ext _ _ _ fun built entry isEntry => ?_
      obtain ⟨isTrimmed, notBlank⟩ := plain entry isEntry
      rw [isTrimmed, if_neg notBlank]
    rw [rebuilt, sameFields_rebuilt keys]
    refine forall₂_congr fun entry isEntry => and_congr_right fun _ => ?_
    exact keptExpr_iff lawful (each entry isEntry)

end RedArchKM.Designer
