import RedArchKM.Lib.Fallible
import RedArchKM.Workflow.Json

/-!
# Runs on demand

A published version runs on demand with what its caller sends. A workflow whose trigger is manual, or
that is bound to no entity, takes the inputs that its trigger declares, each coerced to its type. Any
other runs on a record of its entity, read afresh when the caller names one; without one, what the
caller sends about the record is withheld from actions with effects outside.

A run is begun on what the version accepts (`exists_prepareRun`) and on nothing else
(`accepts_of_prepareRun`).
-/

namespace RedArchKM.Workflow.ManualRun

open List Lib.Fallible

abbrev EntityId := Nat

abbrev RecordId := Nat

/-- How a run is refused: by an HTTP error with its detail, or by an error that nothing catches. -/
inductive Refusal where
  | notFound (detail : String)
  | conflict (detail : String)
  | unprocessable (detail : String)
  | raised

/-- A node of a definition, as much of it as the start of a run looks at. -/
structure Node where
  type : String
  data : Fields := []

structure WorkflowVersion where
  published : Bool := true
  nodes : List Node

structure WorkflowRow where
  enabled : Bool := true
  entityDefinitionId : Option EntityId := none
  activeVersion : Option WorkflowVersion := none

def resolvePublishedVersion (workflow : WorkflowRow) : Except Refusal WorkflowVersion :=
  match workflow.activeVersion with
  | none => .error (.conflict "workflow has no published version")
  | some version =>
    if !version.published then .error (.conflict "workflow has no published version")
    else .ok version

/-! ## Declared inputs -/

inductive NumberError where
  | notANumber
  | overflow

/-- What Python makes of values and texts. -/
structure Python where
  str : Json → String
  repr : String → String
  strip : String → String
  lower : String → String
  /-- `float(value)`, as an `int` where it is one -/
  number : Json → Except NumberError Json

inductive InputType where
  | text
  | number
  | boolean
deriving DecidableEq

def InputType.ofJson : Json → InputType
  | .str "number" => .number
  | .str "boolean" => .boolean
  | _ => .text

structure InputSpec where
  key : String
  label : String
  type : InputType
  required : Bool

def triggerData (nodes : List Node) : Fields :=
  ((nodes.find? fun node => node.type = "trigger").map Node.data).getD []

def isManualTrigger (nodes : List Node) : Bool :=
  match (triggerData nodes).get "source" with
  | .str source => source = "manual"
  | _ => false

/-- Does the key match `^[A-Za-z0-9_]+$`? -/
def wellFormedKey (key : String) : Bool :=
  !key.isEmpty && key.toList.all fun char => char.isAlphanum || char = '_'

section Inputs

variable (python : Python)

/-- `str(value or default)` -/
def orText (value : Json) (default : String) : String :=
  if value.truthy then python.str value else default

/-- One entry of `inputs`, behind those that are declared already. -/
def declareInput (specs : List InputSpec) : Json → List InputSpec
  | .obj item =>
    let key := python.strip (orText python (Fields.get item "key") "")
    if wellFormedKey key ∧ key ∉ specs.map InputSpec.key then
      specs ++ [{
        key := key
        label := orText python (Fields.get item "label") key
        type := .ofJson (Fields.get item "type")
        required := (Fields.get item "required").truthy }]
    else specs
  | _ => specs

/-- The inputs that the trigger declares. Neither the characters of a text nor the keys of an object
declare any; what cannot be iterated raises. -/
def declaredInputs (nodes : List Node) : Except Refusal (List InputSpec) :=
  match (triggerData nodes).get "inputs" with
  | .arr items => .ok (items.foldl (declareInput python) [])
  | .num value => if value = 0 then .ok [] else .error .raised
  | .bool value => if value then .error .raised else .ok []
  | _ => .ok []

def coerceValue (spec : InputSpec) (value : Json) : Except Refusal Json :=
  match spec.type with
  | .number =>
    match python.number value with
    | .ok number => .ok number
    | .error .notANumber =>
      .error (.unprocessable s!"input {python.repr spec.label} must be a number")
    | .error .overflow => .error .raised
  | .boolean =>
    match value with
    | .bool value => .ok (.bool value)
    | .str text => .ok (.bool (python.lower (python.strip text) ∈ ["true", "1", "yes", "on"]))
    | value => .ok (.bool value.truthy)
  | .text => .ok (.str (python.str value))

/-- The value sent for a key; `null` and the empty text count as none. -/
def present (raw : Fields) (key : String) : Option Json :=
  match raw.lookup key with
  | none | some .null | some (.str "") => none
  | some value => some value

def coerceInputs (raw : Fields) : List InputSpec → Fields → Except Refusal Fields
  | [], result => .ok result
  | spec :: rest, result =>
    match present raw spec.key with
    | none =>
      if spec.required then
        .error (.unprocessable s!"missing required input: {python.repr spec.label}")
      else coerceInputs raw rest result
    | some value => do
      let value ← coerceValue python spec value
      coerceInputs raw rest (Fields.set spec.key value result)

/-- The input takes what is sent for it: a number where it wants one, and something if it must. -/
def AcceptsInput (raw : Fields) (spec : InputSpec) : Prop :=
  match present raw spec.key with
  | none => spec.required = false
  | some value => spec.type = .number → ∃ number, python.number value = .ok number

variable {python}

theorem coerceValue_isOk_iff {spec : InputSpec} {value : Json} :
    (∃ result, coerceValue python spec value = .ok result) ↔
      (spec.type = .number → ∃ number, python.number value = .ok number) := by
  unfold coerceValue
  cases spec.type with
  | text => exact iff_of_true ⟨_, rfl⟩ fun number => by cases number
  | boolean =>
    refine iff_of_true ?_ fun number => by cases number
    cases value <;> exact ⟨_, rfl⟩
  | number =>
    cases python.number value with
    | ok number => exact iff_of_true ⟨_, rfl⟩ fun _ => ⟨_, rfl⟩
    | error error => cases error <;> simp

theorem coerceInputs_isOk_iff {raw : Fields} {specs : List InputSpec} {result : Fields} :
    (∃ inputs, coerceInputs python raw specs result = .ok inputs) ↔
      ∀ spec ∈ specs, AcceptsInput python raw spec := by
  induction specs generalizing result with
  | nil => exact iff_of_true ⟨_, rfl⟩ (forall_mem_nil _)
  | cons spec rest ih =>
    rw [forall_mem_cons, coerceInputs, AcceptsInput]
    cases present raw spec.key with
    | none => cases required : spec.required <;> simp [ih]
    | some value =>
      simp only [bind_eq_ok]
      constructor
      · rintro ⟨inputs, coerced, isCoerced, done⟩
        exact ⟨coerceValue_isOk_iff.mp ⟨coerced, isCoerced⟩, ih.mp ⟨inputs, done⟩⟩
      · rintro ⟨first, later⟩
        obtain ⟨coerced, isCoerced⟩ := coerceValue_isOk_iff.mpr first
        obtain ⟨inputs, done⟩ := ih.mpr later
        exact ⟨inputs, coerced, isCoerced, done⟩

end Inputs

/-! ## The guards of a run -/

/-- `ManualRunRequest` -/
structure ManualRunRequest where
  operation : String := "update"
  recordId : Option RecordId := none
  before : Option Fields := none
  after : Option Fields := none
  inputs : Fields := []

/-- What a run is begun with: the arguments of `run_version_manually`. -/
structure RunArguments where
  operation : String
  recordId : Option RecordId := none
  before : Option Fields := none
  after : Option Fields := none
  inputs : Fields := []

def sideEffectingActions : List String := ["send_email", "send_webhook", "send_form", "http_request"]

/-- The `action_type`s of a definition's steps. -/
def actionTypes (nodes : List Node) : List Json :=
  (nodes.filter fun node => node.type = "action" || node.type = "task").map fun node =>
    node.data.get "action_type"

/-- May the value stand in a set? -/
def hashable : Json → Bool
  | .arr _ | .obj _ => false
  | _ => true

def isSideEffecting : Json → Bool
  | .str actionType => actionType ∈ sideEffectingActions
  | _ => false

section Guards

variable (python : Python) (loadTriggerRecord : EntityId → RecordId → Option Fields)
  (entityDefinitionId : Option EntityId) (nodes : List Node) (request : ManualRunRequest)

def boundEntity : Option EntityId :=
  if isManualTrigger nodes then none else entityDefinitionId

/-- `_execute`, up to the call of `run_version_manually`. -/
def prepareRun : Except Refusal RunArguments :=
  match boundEntity entityDefinitionId nodes with
  | none => do
    let specs ← declaredInputs python nodes
    let inputs ← coerceInputs python request.inputs specs []
    return { operation := "manual", inputs := inputs }
  | some entity =>
    match request.recordId with
    | some recordId =>
      match loadTriggerRecord entity recordId with
      | none => .error (.notFound "record not found for this workflow's entity")
      | some record => .ok {
          operation := request.operation
          recordId := some recordId
          before := some record
          after := some record }
    | none =>
      if !(actionTypes nodes).all hashable then .error .raised
      else if (actionTypes nodes).any isSideEffecting then .ok { operation := request.operation }
      else .ok {
        operation := request.operation
        before := request.before
        after := request.after }

inductive Accepts : Prop
  | inputs (specs : List InputSpec) (unbound : boundEntity entityDefinitionId nodes = none)
      (declared : declaredInputs python nodes = .ok specs)
      (each : ∀ spec ∈ specs, AcceptsInput python request.inputs spec)
  | record (entity : EntityId) (recordId : RecordId)
      (bound : boundEntity entityDefinitionId nodes = some entity)
      (asked : request.recordId = some recordId)
      (found : (loadTriggerRecord entity recordId).isSome)
  | withoutRecord (entity : EntityId) (bound : boundEntity entityDefinitionId nodes = some entity)
      (asked : request.recordId = none)
      (inSet : ∀ actionType ∈ actionTypes nodes, hashable actionType)

variable {python loadTriggerRecord entityDefinitionId nodes request}

theorem accepts_of_prepareRun {arguments : RunArguments}
    (prepared : prepareRun python loadTriggerRecord entityDefinitionId nodes request =
      .ok arguments) : Accepts python loadTriggerRecord entityDefinitionId nodes request := by
  unfold prepareRun at prepared
  cases bound : boundEntity entityDefinitionId nodes with
  | none =>
    rw [bound] at prepared
    obtain ⟨specs, declared, rest⟩ := bind_eq_ok.mp prepared
    obtain ⟨inputs, coerced, _⟩ := bind_eq_ok.mp rest
    exact .inputs specs bound declared (coerceInputs_isOk_iff.mp ⟨inputs, coerced⟩)
  | some entity =>
    rw [bound] at prepared
    cases asked : request.recordId with
    | some recordId =>
      cases found : loadTriggerRecord entity recordId with
      | none => simp [asked, found] at prepared
      | some record => exact .record entity recordId bound asked (by rw [found]; rfl)
    | none =>
      refine .withoutRecord entity bound asked (all_eq_true.mp ?_)
      cases inSet : (actionTypes nodes).all hashable with
      | true => rfl
      | false => simp only [asked, inSet, Bool.not_false, if_true, reduceCtorEq] at prepared

theorem exists_prepareRun (accepts : Accepts python loadTriggerRecord entityDefinitionId nodes
    request) : ∃ arguments,
      prepareRun python loadTriggerRecord entityDefinitionId nodes request = .ok arguments := by
  unfold prepareRun
  cases accepts with
  | inputs specs unbound declared each =>
    obtain ⟨inputs, coerced⟩ := coerceInputs_isOk_iff.mpr each
    rw [unbound, declared]
    exact ⟨_, bind_eq_ok.mpr ⟨specs, rfl, bind_eq_ok.mpr ⟨inputs, coerced, rfl⟩⟩⟩
  | record entity recordId bound asked found =>
    obtain ⟨record, isRecord⟩ := Option.isSome_iff_exists.mp found
    simp [bound, asked, isRecord]
  | withoutRecord entity bound asked inSet =>
    simp only [bound, asked, all_eq_true.mpr inSet]
    cases (actionTypes nodes).any isSideEffecting <;> exact ⟨_, rfl⟩

end Guards

end RedArchKM.Workflow.ManualRun
