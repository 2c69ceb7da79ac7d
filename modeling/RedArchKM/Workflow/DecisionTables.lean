import RedArchKM.Designer.TypedConditions

/-!
# Decision tables and transforms

A decision table merges the outputs of the rules whose condition holds: of the first one, or of all.
A transform maps names to expressions. Both are to skip what is malformed, so that a bad table or
mapping does not sink the run.

The evaluator of conditions raises, and neither function catches that. And under the first hit
policy a rule that matches ends the table, also if its output is malformed. Otherwise what is
malformed makes no difference (`tableContained_iff`, `transformContained_iff`).
-/

namespace RedArchKM.Workflow.JsonLogic

open Lib.JsonText List

variable {ν : Type}

abbrev Outputs (ν : Type) := List (Units × Value ν)

section Evaluation

variable (python : Python ν) (context : Value ν)

/-- Whether the condition of a rule holds; nothing where it raises. A rule without one matches. -/
def isHit (rule : Outputs ν) : Option Bool :=
  match rule.lookup (units "when") with
  | none => some true
  | some .null => some true
  | some condition => (jsonLogic python context condition).map (truthy python)

def outputOf (rule : Outputs ν) : Outputs ν :=
  match rule.lookup (units "output") with
  | some (.object fields) => fields
  | _ => []

/-- `output.update(rule_output)` -/
def update (output fields : Outputs ν) : Outputs ν :=
  fields.foldl (fun output field => put field.1 field.2 output) output

/-- The loop over the rules, or nothing where one raises. -/
def evaluateRules (collect : Bool) : List (Value ν) → Outputs ν → Option (Outputs ν)
  | [], output => some output
  | .object rule :: rest, output =>
    match isHit python context rule with
    | none => none
    | some false => evaluateRules collect rest output
    | some true =>
      if collect then evaluateRules collect rest (update output (outputOf rule))
      else some (update output (outputOf rule))
  | _ :: rest, output => evaluateRules collect rest output

/-- `hit_policy == HIT_COLLECT` -/
def collects (spec : Outputs ν) : Bool :=
  match spec.lookup (units "hit_policy") with
  | some (.string policy) => policy == units "collect"
  | _ => false

/-- `evaluate_decision_table`, or nothing where it raises -/
def evaluateDecisionTable (spec : Value ν) : Option (Outputs ν) :=
  match spec with
  | .object spec =>
    match spec.lookup (units "rules") with
    | some (.array rules) => evaluateRules python context (collects spec) rules []
    | _ => some []
  | _ => some []

/-- The value of an entry: an object or a list is an expression, the rest are literals. -/
def evaluateEntry : Value ν → Option (Value ν)
  | .object fields => jsonLogic python context (.object fields)
  | .array items => jsonLogic python context (.array items)
  | literal => some literal

/-- `evaluate_transform`, or nothing where it raises -/
def evaluateTransform (mapping : Value ν) : Option (Outputs ν) :=
  match mapping with
  | .object entries =>
    entries.foldlM (fun outputs (key, expr) =>
      (evaluateEntry python context expr).map fun value => put key value outputs) []
  | _ => some []

/-! ## What is malformed -/

def hits : Value ν → Option Bool
  | .object rule => isHit python context rule
  | _ => some false

def contributes : Value ν → Outputs ν
  | .object rule => outputOf rule
  | _ => []

def hasBadOutput (rule : Outputs ν) : Bool :=
  match rule.lookup (units "output") with
  | none => false
  | some (.object _) => false
  | some _ => true

def malformed : Value ν → Bool
  | .object rule => (isHit python context rule).isNone || hasBadOutput rule
  | _ => true

def dropMalformed : Value ν → Value ν
  | .array rules => .array (rules.filter fun rule => !malformed python context rule)
  | other => other

def withoutMalformed : Value ν → Value ν
  | .object spec => .object (spec.map fun entry =>
    (entry.1, if entry.1 = units "rules" then dropMalformed python context entry.2 else entry.2))
  | other => other

def withoutRaising : Value ν → Value ν
  | .object entries =>
    .object (entries.filter fun entry => (evaluateEntry python context entry.2).isSome)
  | other => other

/-- The table returns what it returns without its malformed rules. -/
def TableContained (spec : Value ν) : Prop :=
  ∃ outputs, evaluateDecisionTable python context spec = some outputs ∧
    evaluateDecisionTable python context (withoutMalformed python context spec) = some outputs

/-- The transform returns what it returns without the entries that raise. -/
def TransformContained (mapping : Value ν) : Prop :=
  ∃ outputs, evaluateTransform python context mapping = some outputs ∧
    evaluateTransform python context (withoutRaising python context mapping) = some outputs

def rulesOf : Value ν → List (Value ν)
  | .object spec =>
    match spec.lookup (units "rules") with
    | some (.array rules) => rules
    | _ => []
  | _ => []

def collectsAll : Value ν → Bool
  | .object spec => collects spec
  | _ => false

/-- The first rule that matches or raises does not raise. If its output is malformed, the first
well-formed rule after it that matches has nothing to contribute. -/
def FirstIsSound (rules : List (Value ν)) : Prop :=
  match rules.dropWhile fun rule => hits python context rule = some false with
  | [] => True
  | rule :: rest =>
    hits python context rule ≠ none ∧
      (malformed python context rule = true →
        ∀ later ∈ rest.find? fun later =>
          !malformed python context later && hits python context later = some true,
          contributes later = [])

/-- No rule that is reached raises, and no malformed one ends the table. -/
def TableSound (spec : Value ν) : Prop :=
  if collectsAll spec then ∀ rule ∈ rulesOf spec, hits python context rule ≠ none
  else FirstIsSound python context (rulesOf spec)

end Evaluation

/-! ## Rules -/

section Rules

variable {python : Python ν} {context : Value ν} {collect : Bool} {rule : Value ν}
  {rest rules : List (Value ν)} {output : Outputs ν}

theorem evaluateRules_cons :
    evaluateRules python context collect (rule :: rest) output =
      (hits python context rule).bind fun isHit =>
        if isHit then
          if collect then
            evaluateRules python context collect rest (update output (contributes rule))
          else some (update output (contributes rule))
        else evaluateRules python context collect rest output := by
  cases rule with
  | object rule =>
    rw [evaluateRules, hits]
    rcases isHit python context rule with _ | _ | _ <;> rfl
  | _ => rfl

theorem hits_of_wellFormed (wellFormed : malformed python context rule = false) :
    hits python context rule ≠ none := by
  cases rule with
  | object rule =>
    rw [malformed, Bool.or_eq_false_iff] at wellFormed
    intro raises
    rw [hits] at raises
    rw [raises] at wellFormed
    cases wellFormed.1
  | _ => nofun

theorem contributes_of_malformed (isMalformed : malformed python context rule = true)
    (returns : hits python context rule ≠ none) : contributes rule = [] := by
  cases rule with
  | object rule =>
    have bad : hasBadOutput rule = true := by
      rw [malformed, Bool.or_eq_true] at isMalformed
      exact isMalformed.resolve_left fun raises => returns (Option.isNone_iff_eq_none.mp raises)
    rw [contributes, outputOf]
    unfold hasBadOutput at bad
    generalize rule.lookup (units "output") = found at bad ⊢
    rcases found with _ | value
    · rfl
    · cases value <;> first | rfl | cases bad
  | _ => rfl

theorem collect_contained_iff :
    (∃ outputs, evaluateRules python context true rules output = some outputs ∧
      evaluateRules python context true
        (rules.filter fun rule => !malformed python context rule) output = some outputs) ↔
      ∀ rule ∈ rules, hits python context rule ≠ none := by
  induction rules generalizing output with
  | nil => exact ⟨fun _ => nofun, fun _ => ⟨output, rfl, rfl⟩⟩
  | cons rule rest ih =>
    rw [forall_mem_cons, evaluateRules_cons, filter_cons]
    cases isHit : hits python context rule with
    | none => simp
    | some holds =>
      cases isMalformed : malformed python context rule with
      | false => cases holds <;> simp [evaluateRules_cons, isHit, ih]
      | true =>
        have nothing := contributes_of_malformed isMalformed (by rw [isHit]; nofun)
        cases holds <;> simp [nothing, update, ih]

theorem update_ne_nil {fields : Outputs ν} (notEmpty : output ≠ []) : update output fields ≠ [] := by
  induction fields generalizing output with
  | nil => exact notEmpty
  | cons field rest ih =>
    have filled : put field.1 field.2 output ≠ [] := by
      unfold put
      split
      · nofun
      · split <;> nofun
    exact ih filled

theorem update_nil_iff {fields : Outputs ν} : update [] fields = [] ↔ fields = [] := by
  cases fields with
  | nil => exact Iff.rfl
  | cons field rest => exact iff_of_false (@update_ne_nil ν [field] rest nofun) nofun

theorem evaluateRules_wellFormed :
    evaluateRules python context false
        (rules.filter fun rule => !malformed python context rule) output =
      some (((rules.find? fun rule =>
        !malformed python context rule && hits python context rule = some true).map
          (update output ∘ contributes)).getD output) := by
  induction rules with
  | nil => rfl
  | cons rule rest ih =>
    rw [filter_cons, find?_cons]
    cases isMalformed : malformed python context rule with
    | true => simpa using ih
    | false =>
      have returns := hits_of_wellFormed isMalformed
      cases isHit : hits python context rule with
      | none => exact absurd isHit returns
      | some holds => cases holds <;> simp [evaluateRules_cons, isHit, ih]

/-- Without its malformed rules, a table that ends with its first match is the same exactly if the
first rule that does not fail to match is sound. -/
theorem first_contained_iff :
    (∃ outputs, evaluateRules python context false rules [] = some outputs ∧
      evaluateRules python context false
        (rules.filter fun rule => !malformed python context rule) [] = some outputs) ↔
      FirstIsSound python context rules := by
  induction rules with
  | nil => exact ⟨fun _ => trivial, fun _ => ⟨[], rfl, rfl⟩⟩
  | cons rule rest ih =>
    unfold FirstIsSound
    rw [dropWhile_cons, evaluateRules_cons]
    cases isHit : hits python context rule with
    | none => simp [isHit]
    | some holds =>
      cases holds with
      | false =>
        have same : evaluateRules python context false
            ((rule :: rest).filter fun rule => !malformed python context rule) [] =
          evaluateRules python context false
            (rest.filter fun rule => !malformed python context rule) [] := by
          rw [filter_cons]
          split
          · rw [evaluateRules_cons, isHit]
            rfl
          · rfl
        rwa [same]
      | true =>
        cases isMalformed : malformed python context rule with
        | false => simp [isHit, isMalformed, evaluateRules_cons]
        | true =>
          have nothing := contributes_of_malformed isMalformed (by rw [isHit]; nofun)
          rw [filter_cons_of_neg (by simp [isMalformed]), evaluateRules_wellFormed, nothing]
          change _ ↔ _ ∧ (_ → ∀ later ∈ rest.find? _, _)
          generalize rest.find? _ = found
          rw [show update [] [] = ([] : Outputs ν) from rfl]
          cases found <;> simp [isHit, isMalformed, update_nil_iff]

end Rules

/-! ## Tables and transforms -/

section Tables

variable {python : Python ν} {context spec : Value ν}

theorem evaluateDecisionTable_eq :
    evaluateDecisionTable python context spec =
      evaluateRules python context (collectsAll spec) (rulesOf spec) [] := by
  cases spec with
  | object fields =>
    rw [evaluateDecisionTable, rulesOf, collectsAll]
    rcases fields.lookup (units "rules") with _ | value
    · rfl
    · cases value <;> rfl
  | _ => rfl

theorem lookup_map_entries {fields : Outputs ν} {key : Units} {change : Units → Value ν → Value ν} :
    (fields.map fun entry => (entry.1, change entry.1 entry.2)).lookup key =
      (fields.lookup key).map (change key) := by
  induction fields with
  | nil => rfl
  | cons entry rest ih =>
    rw [map_cons, lookup_cons, lookup_cons, ih]
    cases same : key == entry.1 with
    | true => rw [eq_of_beq same]; rfl
    | false => rfl

theorem rulesOf_withoutMalformed :
    rulesOf (withoutMalformed python context spec) =
      (rulesOf spec).filter fun rule => !malformed python context rule := by
  cases spec with
  | object fields =>
    rw [withoutMalformed, rulesOf, rulesOf]
    have found := @lookup_map_entries ν fields (units "rules") fun key value =>
      if key = units "rules" then dropMalformed python context value else value
    rw [found]
    rcases fields.lookup (units "rules") with _ | value
    · rfl
    · cases value <;> rfl
  | _ => rfl

theorem collectsAll_withoutMalformed :
    collectsAll (withoutMalformed python context spec) = collectsAll spec := by
  cases spec with
  | object fields =>
    rw [withoutMalformed, collectsAll, collectsAll, collects, collects]
    have found := @lookup_map_entries ν fields (units "hit_policy") fun key value =>
      if key = units "rules" then dropMalformed python context value else value
    have other : units "hit_policy" ≠ units "rules" := by decide
    simp only [found, if_neg other, Option.map_id']
  | _ => rfl

/-- **A malformed rule of a table makes no difference exactly if the table is sound.** -/
theorem tableContained_iff :
    TableContained python context spec ↔ TableSound python context spec := by
  rw [TableContained, evaluateDecisionTable_eq, evaluateDecisionTable_eq, rulesOf_withoutMalformed,
    collectsAll_withoutMalformed, TableSound]
  cases collectsAll spec with
  | true => exact collect_contained_iff
  | false => exact first_contained_iff

theorem foldlM_contained_iff {entries outputs : Outputs ν} :
    (∃ result, entries.foldlM (fun outputs (key, expr) =>
        (evaluateEntry python context expr).map fun value => put key value outputs) outputs =
          some result ∧
      (entries.filter fun entry => (evaluateEntry python context entry.2).isSome).foldlM
        (fun outputs (key, expr) =>
          (evaluateEntry python context expr).map fun value => put key value outputs) outputs =
            some result) ↔
      ∀ entry ∈ entries, evaluateEntry python context entry.2 ≠ none := by
  induction entries generalizing outputs with
  | nil => exact ⟨fun _ => nofun, fun _ => ⟨outputs, rfl, rfl⟩⟩
  | cons entry rest ih =>
    rw [forall_mem_cons, foldlM_cons, filter_cons]
    cases value : evaluateEntry python context entry.2 with
    | none => simp [value]
    | some result => simp [foldlM_cons, value, ih]

/-- **An entry that raises makes no difference exactly if there is none.** -/
theorem transformContained_iff {mapping : Value ν} :
    TransformContained python context mapping ↔
      ∀ entries, mapping = .object entries → ∀ entry ∈ entries,
        evaluateEntry python context entry.2 ≠ none := by
  cases mapping with
  | object entries =>
    have folded := @foldlM_contained_iff ν python context entries
    rw [TransformContained, evaluateTransform, withoutRaising, evaluateTransform, folded]
    constructor
    · rintro returns _ ⟨⟩
      exact returns
    · exact fun returns => returns entries rfl
  | _ => exact iff_of_true ⟨[], rfl, rfl⟩ fun _ => nofun

end Tables

/-- **Tables and transforms contain what is malformed under these conditions only.** -/
theorem contained_iff (python : Python ν) (context : Value ν) :
    (∀ spec, TableContained python context spec ↔ TableSound python context spec) ∧
      ∀ mapping, TransformContained python context mapping ↔
        ∀ entries, mapping = .object entries → ∀ entry ∈ entries,
          evaluateEntry python context entry.2 ≠ none :=
  ⟨fun _ => tableContained_iff, fun _ => transformContained_iff⟩

/-- A tier by an operator that is not known, with a default row. -/
def tiers : Value (Option Nat) :=
  .object [(units "rules", .array [
    .object [(units "when", .object [(units "startsWith", .string (units "A"))]),
      (units "output", .object [(units "tier", .string (units "gold"))])],
    .object [(units "output", .object [(units "tier", .string (units "basic"))])]])]

/-- The unknown operator raises, and the default row is not reached. -/
theorem not_tableContained_tiers : ¬ TableContained Designer.wholes (.object []) tiers := by
  rintro ⟨outputs, returned, -⟩
  have raises : evaluateDecisionTable Designer.wholes (.object []) tiers = none := by rfl
  rw [raises] at returned
  cases returned

end RedArchKM.Workflow.JsonLogic
