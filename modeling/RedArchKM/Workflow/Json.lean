import Mathlib.Data.List.Basic

/-!
# JSON values, decision tables and transforms

Run variables, handler outputs and action configs are JSON. Objects are lists of fields whose
updates keep the place of a key that is already there, as a Python dict does.

A decision table and a transform evaluate their expressions with the JsonLogic evaluator, which
is a parameter here: the engine never looks at an expression, and only an evaluator that raises
makes either of them fail.
-/

namespace RedArchKM.Workflow

open List

inductive Json where
  | null
  | bool (value : Bool)
  | num (value : Rat)
  | str (value : String)
  | arr (items : List Json)
  | obj (fields : List (String × Json))
deriving Inhabited, Repr, BEq

/-- The fields of an object. -/
abbrev Fields := List (String × Json)

namespace Fields

/-- `fields.get(key)`: an absent key reads as `null`. -/
def get (fields : Fields) (key : String) : Json := (fields.lookup key).getD .null

/-- `fields[key] = value` -/
def set (key : String) (value : Json) : Fields → Fields
  | [] => [(key, value)]
  | entry :: rest => if entry.1 = key then (key, value) :: rest else entry :: set key value rest

/-- `{**fields, **patch}` -/
def update (fields patch : Fields) : Fields :=
  patch.foldl (fun fields entry => set entry.1 entry.2 fields) fields

theorem mem_set {fields : Fields} {key : String} {value : Json} {entry : String × Json}
    (member : entry ∈ Fields.set key value fields) : entry = (key, value) ∨ entry ∈ fields := by
  induction fields with
  | nil => exact .inl (mem_singleton.mp member)
  | cons first rest ih =>
    unfold Fields.set at member
    split at member
    · exact (mem_cons.mp member).imp_right (mem_cons_of_mem first)
    · rcases mem_cons.mp member with rfl | later
      · exact .inr mem_cons_self
      · exact (ih later).imp_right (mem_cons_of_mem first)

theorem mem_update {fields patch : Fields} {entry : String × Json}
    (member : entry ∈ Fields.update fields patch) : entry ∈ patch ∨ entry ∈ fields := by
  induction patch generalizing fields with
  | nil => exact .inr member
  | cons first rest ih =>
    rcases ih member with patched | set
    · exact .inl (mem_cons_of_mem first patched)
    · rcases mem_set set with rfl | kept
      · exact .inl mem_cons_self
      · exact .inr kept

end Fields

namespace Json

/-- `bool(value)` -/
def truthy : Json → Bool
  | null => false
  | bool value => value
  | num value => value != 0
  | str value => value != ""
  | arr items => !items.isEmpty
  | obj fields => !fields.isEmpty

/-- The value as an object, where it is one. -/
def fields? : Json → Option Fields
  | obj fields => some fields
  | _ => none

/-- The value as a string with something in it, where it is one. -/
def nonemptyStr? : Json → Option String
  | str "" => none
  | str value => some value
  | _ => none

end Json

/-- A JsonLogic evaluator: an expression and its context to a value, or an error. -/
abbrev Evaluator := Json → Json → Except String Json

/-- The rules of a table in order: without `collect` the first match ends the evaluation. -/
def applyRules (jsonLogic : Evaluator) (collect : Bool) (context : Json) :
    List Json → Fields → Except String Fields
  | [], output => .ok output
  | .obj rule :: rules, output => do
      let applies ← match Fields.get rule "when" with
        | .null => pure true
        | condition => Json.truthy <$> jsonLogic condition context
      if !applies then applyRules jsonLogic collect context rules output
      else
        let output := match Fields.get rule "output" with
          | .obj patch => Fields.update output patch
          | _ => output
        if collect then applyRules jsonLogic collect context rules output else return output
  | _ :: rules, output => applyRules jsonLogic collect context rules output

/-- Evaluate a decision table, returning the merged outputs. -/
def evaluateDecisionTable (jsonLogic : Evaluator) (spec context : Json) : Except String Fields :=
  match spec with
  | .obj table =>
    let collect := match Fields.get table "hit_policy" with
      | .str policy => policy == "collect"
      | _ => false
    match Fields.get table "rules" with
    | .arr rules => applyRules jsonLogic collect context rules []
    | _ => .ok []
  | _ => .ok []

def transformEntries (jsonLogic : Evaluator) (context : Json) :
    Fields → Fields → Except String Fields
  | [], outputs => .ok outputs
  | (key, expr) :: rest, outputs => do
      let value ← match expr with
        | .obj _ | .arr _ => jsonLogic expr context
        | literal => pure literal
      transformEntries jsonLogic context rest (Fields.set key value outputs)

def evaluateTransform (jsonLogic : Evaluator) (mapping context : Json) : Except String Fields :=
  match mapping with
  | .obj entries => transformEntries jsonLogic context entries []
  | _ => .ok []

end RedArchKM.Workflow
