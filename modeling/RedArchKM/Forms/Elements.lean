import Mathlib.Data.List.Dedup
import RedArchKM.Workflow.ManualRun

/-!
# The elements of a page

A page is a tree of elements. Panels, cards, tabs, accordions and columns hold elements of the
scope that they stand in; sections and blocks hold a few kinds of leaves in the scope of another
entity. Every walk over a page goes through the lists of children of a container
(`containerChildLists`), and what it visits is what occurs in the tree (`mem_iterElements`).

An anonymous visitor of a shared page may start the workflows that the walk collects from it. The
walk knows buttons, puzzle pads, record lists and chats, but neither keypads nor the further row
actions of a record list, and a workflow that it knows may still refuse what the visitor sends. So
the page offers exactly what it may start when every workflow of these is also carried by one of
the others, and every workflow on offer takes the request (`offersExactly_iff`).
-/

namespace RedArchKM.Forms.Elements

open List

open Workflow (Json Fields)

/-! ## Elements -/

inductive ButtonAction where
  | submit
  | runWorkflow (workflowId : Nat) (inputs : Fields)
  | link (href : String)
  | copyLink (href : String)
  | callConnection (body : Fields)

/-- `RunWorkflowAction`, as a puzzle pad runs it on completion. -/
structure RunWorkflowAction where
  workflowId : Nat
  inputs : Fields := []

structure PuzzlePadElement where
  kindField : Option String := none
  specField : Option String := none
  promptField : Option String := none
  hintField : Option String := none
  answerField : Option String := none
  spec : Option Fields := none
  onComplete : Option RunWorkflowAction := none

structure CountdownElement where
  untilField : Option String := none
  fromField : Option String := none
  secondsField : Option String := none

structure CalculatedElement where
  expression : Json := .null
  targetSlug : Option String := none

/-- The elements that an agent's work order is shown with. They bind nothing. -/
inductive WorkOrderElement where
  | agentTimeline
  | agentDiary
  | agentActivity
  | workOrderDocuments
  | workOrderList
  | workOrderTasks
  | workOrderCreate
  | workOrderActions
  | approvalQueue

/-- An element without children. -/
inductive Leaf where
  | field (slug : String) (readOnly : Bool)
  | label
  | calculated (element : CalculatedElement)
  | input
  | liveValue
  | image (url : String)
  | qrCode (url : String)
  | progress (value : Json)
  | countdown (element : CountdownElement)
  | slides (slug : Option String)
  | report
  | stat
  | recordList (rowWorkflowId : Option Nat) (rowActions : List Nat)
  | plot
  | model3d (url : String) (glowUrl accentUrl : Option String)
  | keypad (workflowId : Nat) (inputs : Fields)
  | chat (answerWorkflowId : Option Nat)
  | workOrder (element : WorkOrderElement)
  | button (action : ButtonAction)
  | puzzlePad (element : PuzzlePadElement)
  | formRef

/-- What may stand in a section or a block. -/
inductive ChildLeaf where
  | field (slug : String) (readOnly : Bool)
  | calculated (element : CalculatedElement)
  | label
  | puzzlePad (element : PuzzlePadElement)

def ChildLeaf.toLeaf : ChildLeaf → Leaf
  | .field slug readOnly => .field slug readOnly
  | .calculated element => .calculated element
  | .label => .label
  | .puzzlePad element => .puzzlePad element

/-- `SectionChild`: a leaf with its gate. -/
structure SectionChild where
  visibleWhen : Json := .null
  leaf : ChildLeaf

inductive TableColumn where
  | field (slug : String) (readOnly : Bool)
  | related (relationshipId : Nat) (slug : String) (editable : Bool)
  | link (hrefTemplate : String)

structure TableElement where
  anchorRelationshipId : Nat
  columns : List TableColumn
  readOnly : Bool := false
  sortBy : Option String := none
  sortDescending : Bool := false

/-- A container with one list of children. -/
inductive RegionKind where
  | panel | card

/-- A container with a list of children for each of its tabs, panes or columns. -/
inductive PartsKind where
  | tabGroup | accordion | columns

inductive FormElement where
  | leaf (visibleWhen : Json) (leaf : Leaf)
  | table (visibleWhen : Json) (table : TableElement)
  | «section» (visibleWhen : Json) (relationshipId : Nat) (elements : List SectionChild)
  | block (visibleWhen : Json) (anchorRelationshipId : Nat) (elements : List SectionChild)
  | region (visibleWhen : Json) (kind : RegionKind) (elements : List FormElement)
  | parts (visibleWhen : Json) (kind : PartsKind) (parts : List (List FormElement))

def SectionChild.toElement (child : SectionChild) : FormElement :=
  .leaf child.visibleWhen child.leaf.toLeaf

def FormElement.visibleWhen : FormElement → Json
  | .leaf visibleWhen _ | .table visibleWhen _ | .section visibleWhen _ _
  | .block visibleWhen _ _ | .region visibleWhen _ _ | .parts visibleWhen _ _ => visibleWhen

/-! ## The walk -/

def containerChildLists (layoutOnly : Bool) : FormElement → List (List FormElement)
  | .region _ _ elements => [elements]
  | .parts _ _ parts => parts
  | .section _ _ elements | .block _ _ elements =>
    if layoutOnly then [] else [elements.map SectionChild.toElement]
  | .leaf _ _ | .table _ _ => []

mutual

/-- `_walk`, from one element on. -/
def walkElement (layoutOnly : Bool) (depth : Nat) : FormElement → List (FormElement × Nat)
  | .region visibleWhen kind elements =>
    (.region visibleWhen kind elements, depth) :: walk layoutOnly (depth + 1) elements
  | .parts visibleWhen kind parts =>
    (.parts visibleWhen kind parts, depth) :: walkParts layoutOnly (depth + 1) parts
  | .section visibleWhen relationshipId elements =>
    (.section visibleWhen relationshipId elements, depth) ::
      if layoutOnly then [] else elements.map fun child => (child.toElement, depth + 1)
  | .block visibleWhen anchorRelationshipId elements =>
    (.block visibleWhen anchorRelationshipId elements, depth) ::
      if layoutOnly then [] else elements.map fun child => (child.toElement, depth + 1)
  | .table visibleWhen table => [(.table visibleWhen table, depth)]
  | .leaf visibleWhen leaf => [(.leaf visibleWhen leaf, depth)]

def walk (layoutOnly : Bool) (depth : Nat) : List FormElement → List (FormElement × Nat)
  | [] => []
  | element :: rest => walkElement layoutOnly depth element ++ walk layoutOnly depth rest

def walkParts (layoutOnly : Bool) (depth : Nat) :
    List (List FormElement) → List (FormElement × Nat)
  | [] => []
  | part :: rest => walk layoutOnly depth part ++ walkParts layoutOnly depth rest

end

def iterElements (layoutOnly : Bool) (elements : List FormElement) : List (FormElement × Nat) :=
  walk layoutOnly 0 elements

def treeDepth (elements : List FormElement) : Nat :=
  ((iterElements false elements).map Prod.snd).foldr max 0

/-- The element stands in the tree, below containers of any kind or of its own scope only. -/
inductive Occurs (layoutOnly : Bool) (element : FormElement) : List FormElement → Prop
  | here {elements : List FormElement} (member : element ∈ elements) :
      Occurs layoutOnly element elements
  | inside {elements children : List FormElement} {container : FormElement}
      (member : container ∈ elements) (isChild : children ∈ containerChildLists layoutOnly container)
      (inner : Occurs layoutOnly element children) : Occurs layoutOnly element elements

section Walk

variable {layoutOnly : Bool} {element : FormElement} {depth : Nat}

theorem walk_map_toElement (children : List SectionChild) :
    walk layoutOnly depth (children.map SectionChild.toElement) =
      children.map fun child => (child.toElement, depth) := by
  induction children with
  | nil => rfl
  | cons child rest ih =>
    rw [map_cons, walk, ih]
    rfl

theorem walkParts_eq (parts : List (List FormElement)) :
    walkParts layoutOnly depth parts = parts.flatMap (walk layoutOnly depth) := by
  induction parts with
  | nil => rfl
  | cons part rest ih => rw [walkParts, ih, flatMap_cons]

theorem walkElement_eq (element : FormElement) :
    walkElement layoutOnly depth element = (element, depth) ::
      (containerChildLists layoutOnly element).flatMap (walk layoutOnly (depth + 1)) := by
  cases element with
  | leaf => rfl
  | table => rfl
  | region => simp [walkElement, containerChildLists]
  | parts => rw [walkElement, walkParts_eq, containerChildLists]
  | «section» =>
    cases layoutOnly with
    | true => rfl
    | false => simp [walkElement, containerChildLists, walk_map_toElement]
  | block =>
    cases layoutOnly with
    | true => rfl
    | false => simp [walkElement, containerChildLists, walk_map_toElement]

theorem walk_eq (elements : List FormElement) :
    walk layoutOnly depth elements = elements.flatMap (walkElement layoutOnly depth) := by
  induction elements with
  | nil => rfl
  | cons element rest ih => rw [walk, ih, flatMap_cons]

theorem exists_mem_walk {elements : List FormElement} (occurs : Occurs layoutOnly element elements)
    (depth : Nat) : ∃ level, (element, level) ∈ walk layoutOnly depth elements := by
  induction occurs generalizing depth with
  | here member =>
    refine ⟨depth, ?_⟩
    rw [walk_eq]
    refine mem_flatMap.mpr ⟨element, member, ?_⟩
    rw [walkElement_eq]
    exact mem_cons_self
  | @inside elements children container member isChild inner ih =>
    obtain ⟨level, found⟩ := ih (depth + 1)
    refine ⟨level, ?_⟩
    rw [walk_eq]
    refine mem_flatMap.mpr ⟨container, member, ?_⟩
    rw [walkElement_eq]
    exact mem_cons_of_mem _ (mem_flatMap.mpr ⟨children, isChild, found⟩)

mutual

theorem occurs_of_walkElement : ∀ (container : FormElement) (depth level : Nat),
    (element, level) ∈ walkElement layoutOnly depth container → Occurs layoutOnly element [container]
  | .leaf visibleWhen leaf, depth, level, member => by
    obtain ⟨rfl, _⟩ := Prod.mk.inj (mem_singleton.mp member)
    exact .here mem_cons_self
  | .table visibleWhen table, depth, level, member => by
    obtain ⟨rfl, _⟩ := Prod.mk.inj (mem_singleton.mp member)
    exact .here mem_cons_self
  | .section visibleWhen relationshipId children, depth, level, member => by
    rcases mem_cons.mp member with same | below
    · obtain ⟨rfl, _⟩ := Prod.mk.inj same
      exact .here mem_cons_self
    · cases layoutOnly with
      | true => cases below
      | false =>
        obtain ⟨child, isChild, same⟩ := mem_map.mp below
        refine .inside mem_cons_self mem_cons_self (.here ?_)
        exact mem_map.mpr ⟨child, isChild, (Prod.mk.inj same).1⟩
  | .block visibleWhen anchorRelationshipId children, depth, level, member => by
    rcases mem_cons.mp member with same | below
    · obtain ⟨rfl, _⟩ := Prod.mk.inj same
      exact .here mem_cons_self
    · cases layoutOnly with
      | true => cases below
      | false =>
        obtain ⟨child, isChild, same⟩ := mem_map.mp below
        refine .inside mem_cons_self mem_cons_self (.here ?_)
        exact mem_map.mpr ⟨child, isChild, (Prod.mk.inj same).1⟩
  | .region visibleWhen kind elements, depth, level, member => by
    rcases mem_cons.mp member with same | below
    · obtain ⟨rfl, _⟩ := Prod.mk.inj same
      exact .here mem_cons_self
    · exact .inside mem_cons_self mem_cons_self (occurs_of_walk elements (depth + 1) level below)
  | .parts visibleWhen kind parts, depth, level, member => by
    rcases mem_cons.mp member with same | below
    · obtain ⟨rfl, _⟩ := Prod.mk.inj same
      exact .here mem_cons_self
    · obtain ⟨part, isPart, occurs⟩ := occurs_of_walkParts parts (depth + 1) level below
      exact .inside mem_cons_self isPart occurs

theorem occurs_of_walk : ∀ (elements : List FormElement) (depth level : Nat),
    (element, level) ∈ walk layoutOnly depth elements → Occurs layoutOnly element elements
  | [], depth, level, member => by cases member
  | container :: rest, depth, level, member => by
    rcases mem_append.mp member with first | later
    · cases occurs_of_walkElement container depth level first with
      | here isFirst => exact .here (mem_singleton.mp isFirst ▸ mem_cons_self)
      | inside isFirst isChild inner =>
        exact .inside (mem_singleton.mp isFirst ▸ mem_cons_self) isChild inner
    · cases occurs_of_walk rest depth level later with
      | here isLater => exact .here (mem_cons_of_mem _ isLater)
      | inside isLater isChild inner => exact .inside (mem_cons_of_mem _ isLater) isChild inner

theorem occurs_of_walkParts : ∀ (parts : List (List FormElement)) (depth level : Nat),
    (element, level) ∈ walkParts layoutOnly depth parts →
      ∃ part ∈ parts, Occurs layoutOnly element part
  | [], depth, level, member => by cases member
  | part :: rest, depth, level, member => by
    rcases mem_append.mp member with first | later
    · exact ⟨part, mem_cons_self, occurs_of_walk part depth level first⟩
    · obtain ⟨other, isOther, occurs⟩ := occurs_of_walkParts rest depth level later
      exact ⟨other, mem_cons_of_mem _ isOther, occurs⟩

end

/-- **The walk visits exactly what occurs in the tree.** -/
theorem mem_iterElements {elements : List FormElement} :
    (∃ level, (element, level) ∈ iterElements layoutOnly elements) ↔
      Occurs layoutOnly element elements :=
  ⟨fun ⟨level, member⟩ => occurs_of_walk elements 0 level member,
    fun occurs => exists_mem_walk occurs 0⟩

end Walk

/-! ## Workflows that a page starts -/

/-- The workflows that `collect_workflow_ids` reads off one element. -/
def collectedFrom : FormElement → List Nat
  | .leaf _ (.button (.runWorkflow workflowId _)) => [workflowId]
  | .leaf _ (.puzzlePad element) => (element.onComplete.map RunWorkflowAction.workflowId).toList
  | .leaf _ (.recordList rowWorkflowId _) => rowWorkflowId.toList
  | .leaf _ (.chat answerWorkflowId) => answerWorkflowId.toList
  | _ => []

def collectWorkflowIds (elements : List FormElement) : List Nat :=
  ((iterElements false elements).flatMap fun visited => collectedFrom visited.1).dedup

def passedOver : FormElement → List Nat
  | .leaf _ (.keypad workflowId _) => [workflowId]
  | .leaf _ (.recordList _ rowActions) => rowActions
  | _ => []

inductive Carries (workflowId : Nat) : Leaf → Prop
  | button (inputs : Fields) : Carries workflowId (.button (.runWorkflow workflowId inputs))
  | puzzlePad (element : PuzzlePadElement) (action : RunWorkflowAction)
      (completes : element.onComplete = some action) (runs : action.workflowId = workflowId) :
      Carries workflowId (.puzzlePad element)
  | keypad (inputs : Fields) : Carries workflowId (.keypad workflowId inputs)
  | row (rowActions : List Nat) : Carries workflowId (.recordList (some workflowId) rowActions)
  | rowAction (rowWorkflowId : Option Nat) (rowActions : List Nat)
      (member : workflowId ∈ rowActions) :
      Carries workflowId (.recordList rowWorkflowId rowActions)
  | chat : Carries workflowId (.chat (some workflowId))

/-- The page offers the workflow, at any depth. -/
def Offers (elements : List FormElement) (workflowId : Nat) : Prop :=
  ∃ visibleWhen leaf, Occurs false (.leaf visibleWhen leaf) elements ∧ Carries workflowId leaf

section Collecting

variable {elements : List FormElement} {workflowId : Nat}

theorem mem_collectWorkflowIds : workflowId ∈ collectWorkflowIds elements ↔
    ∃ element, Occurs false element elements ∧ workflowId ∈ collectedFrom element := by
  rw [collectWorkflowIds, mem_dedup, mem_flatMap]
  constructor
  · rintro ⟨⟨element, level⟩, visited, collected⟩
    exact ⟨element, mem_iterElements.mp ⟨level, visited⟩, collected⟩
  · rintro ⟨element, occurs, collected⟩
    obtain ⟨level, visited⟩ := mem_iterElements.mpr occurs
    exact ⟨(element, level), visited, collected⟩

theorem carries_iff {visibleWhen : Json} {leaf : Leaf} : Carries workflowId leaf ↔
    workflowId ∈ collectedFrom (.leaf visibleWhen leaf) ∨
      workflowId ∈ passedOver (.leaf visibleWhen leaf) := by
  constructor
  · intro carries
    cases carries with
    | button inputs => exact .inl mem_cons_self
    | puzzlePad element action completes runs =>
      left
      simp [collectedFrom, completes, runs]
    | keypad inputs => exact .inr mem_cons_self
    | row rowActions => exact .inl mem_cons_self
    | rowAction rowWorkflowId rowActions member => exact .inr member
    | chat => exact .inl mem_cons_self
  · rintro (collected | passed)
    · cases leaf with
      | button action =>
        cases action with
        | runWorkflow id inputs =>
          obtain rfl := mem_singleton.mp collected
          exact .button inputs
        | _ => cases collected
      | puzzlePad element =>
        obtain ⟨action, completes, runs⟩ := by simpa [collectedFrom] using collected
        exact .puzzlePad element action completes runs
      | recordList rowWorkflowId rowActions =>
        obtain rfl : rowWorkflowId = some workflowId := by simpa [collectedFrom] using collected
        exact .row rowActions
      | chat answerWorkflowId =>
        obtain rfl : answerWorkflowId = some workflowId := by
          simpa [collectedFrom] using collected
        exact .chat
      | _ => cases collected
    · cases leaf with
      | keypad id inputs =>
        obtain rfl := mem_singleton.mp passed
        exact .keypad inputs
      | recordList rowWorkflowId rowActions => exact .rowAction rowWorkflowId rowActions passed
      | _ => cases passed

theorem collectedFrom_leaf {element : FormElement} (member : workflowId ∈ collectedFrom element) :
    ∃ visibleWhen leaf, element = .leaf visibleWhen leaf := by
  cases element with
  | leaf visibleWhen leaf => exact ⟨visibleWhen, leaf, rfl⟩
  | _ => cases member

theorem offers_of_mem_collectWorkflowIds (collected : workflowId ∈ collectWorkflowIds elements) :
    Offers elements workflowId := by
  obtain ⟨element, occurs, member⟩ := mem_collectWorkflowIds.mp collected
  obtain ⟨visibleWhen, leaf, rfl⟩ := collectedFrom_leaf member
  exact ⟨visibleWhen, leaf, occurs, carries_iff.mpr (.inl member)⟩

/-- Every workflow that the walk passes over is also collected. -/
def NonePassedOver (elements : List FormElement) : Prop :=
  ∀ element, Occurs false element elements → ∀ workflowId ∈ passedOver element,
    workflowId ∈ collectWorkflowIds elements

theorem collects_iff : (∀ workflowId, workflowId ∈ collectWorkflowIds elements ↔
    Offers elements workflowId) ↔ NonePassedOver elements := by
  constructor
  · intro exact_ element occurs workflowId passed
    refine (exact_ workflowId).mpr ?_
    cases element with
    | leaf visibleWhen leaf => exact ⟨visibleWhen, leaf, occurs, carries_iff.mpr (.inr passed)⟩
    | _ => cases passed
  · intro none workflowId
    refine ⟨offers_of_mem_collectWorkflowIds, ?_⟩
    rintro ⟨visibleWhen, leaf, occurs, carries⟩
    rcases carries_iff.mp carries with collected | passed
    · exact mem_collectWorkflowIds.mpr ⟨_, occurs, collected⟩
    · exact none _ occurs workflowId passed

end Collecting

/-! ## The runs of a shared page -/

open Workflow.ManualRun Lib.Fallible

/-- What `run_workflow` refuses with, besides the refusals of the run. -/
inductive ShareRefusal where
  | notFound (message : String)
  | share (message : String)
  | run (refusal : Refusal)

/-- A shared view: whether its link is live, the elements of its config as they parse, and the
record that it is about now. -/
structure SharedView where
  live : Bool := true
  elements : List FormElement
  recordId : Option RecordId := none

structure ManualRunResult where
  runId : Nat
  status : String
  conditionsMatched : Bool
  actionsExecuted : Nat := 0
  error : Option String := none

/-- The rows of the view's organisation, and the dispatcher: `run_version_manually` creates a run
and carries it out, or raises, and nothing is left of the run. -/
structure Service where
  python : Python
  workflows : Nat → Option WorkflowRow
  loadTriggerRecord : EntityId → RecordId → Option Fields
  runVersionManually : Nat → WorkflowVersion → RunArguments → Except Refusal ManualRunResult

section Running

variable (service : Service)

def executeWorkflowRun (workflowId : Nat) (workflow : WorkflowRow) (version : WorkflowVersion)
    (request : ManualRunRequest) : Except Refusal ManualRunResult := do
  let arguments ← prepareRun service.python service.loadTriggerRecord
    workflow.entityDefinitionId version.nodes request
  service.runVersionManually workflowId version arguments

/-- The request that is made of the page's record and what the visitor sends. -/
def shareRequest (recordId : Option RecordId) (inputs after : Option Fields) :
    ManualRunRequest where
  recordId := recordId
  after := some (after.getD [])
  inputs := inputs.getD []

/-- `PublicViewService.run_workflow` -/
def runWorkflow (view : SharedView) (workflowId : Nat) (inputs after : Option Fields) :
    Except ShareRefusal ManualRunResult :=
  if !view.live then .error (.notFound "this link is not available")
  else if workflowId ∉ collectWorkflowIds view.elements then
    .error (.share "this page cannot run that workflow")
  else
    match service.workflows workflowId with
    | none => .error (.notFound "workflow not found")
    | some workflow =>
      if !workflow.enabled then .error (.share "this workflow is disabled")
      else Except.mapError ShareRefusal.run do
        let version ← resolvePublishedVersion workflow
        executeWorkflowRun service workflowId workflow version
          (shareRequest view.recordId inputs after)

def Available (workflowId : Nat) : Prop :=
  ∃ workflow, service.workflows workflowId = some workflow ∧ workflow.enabled = true

/-- The walk collects exactly what the page offers, and a visitor with a live link starts exactly
what it offers and what exists and is enabled. -/
def OffersExactly (elements : List FormElement) (recordId : Option RecordId)
    (inputs after : Option Fields) : Prop :=
  (∀ workflowId, workflowId ∈ collectWorkflowIds elements ↔ Offers elements workflowId) ∧
    ∀ workflowId,
      (∃ result, runWorkflow service ⟨true, elements, recordId⟩ workflowId inputs after =
        .ok result) ↔ Offers elements workflowId ∧ Available service workflowId

/-- The workflow has a published version that accepts the request, and the dispatcher carries its
run out without raising. -/
structure TakesRequest (workflowId : Nat) (workflow : WorkflowRow) (request : ManualRunRequest)
    (version : WorkflowVersion) : Prop where
  active : workflow.activeVersion = some version
  published : version.published = true
  accepts : Accepts service.python service.loadTriggerRecord workflow.entityDefinitionId
    version.nodes request
  carriedOut : ∀ arguments, prepareRun service.python service.loadTriggerRecord
    workflow.entityDefinitionId version.nodes request = .ok arguments →
      ∃ result, service.runVersionManually workflowId version arguments = .ok result

variable {service}

theorem resolvePublishedVersion_eq_ok {workflow : WorkflowRow} {version : WorkflowVersion} :
    resolvePublishedVersion workflow = .ok version ↔
      workflow.activeVersion = some version ∧ version.published = true := by
  unfold resolvePublishedVersion
  cases workflow.activeVersion with
  | none => simp
  | some active =>
    cases published : active.published with
    | false =>
      simp only [published, Bool.not_false, if_true, reduceCtorEq, Option.some.injEq, false_iff]
      rintro ⟨rfl, isPublished⟩
      exact Bool.noConfusion (published.symm.trans isPublished)
    | true =>
      simp only [published, Bool.not_true, Bool.false_eq_true, if_false, Except.ok.injEq,
        Option.some.injEq]
      exact ⟨fun same => ⟨same, same ▸ published⟩, And.left⟩

theorem mapError_eq_ok {ε ε' α : Type} {f : ε → ε'} {computation : Except ε α} {result : α} :
    computation.mapError f = .ok result ↔ computation = .ok result := by
  cases computation <;> simp [Except.mapError]

theorem executes_iff {workflowId : Nat} {workflow : WorkflowRow} {request : ManualRunRequest} :
    (∃ result, (do
      let version ← resolvePublishedVersion workflow
      executeWorkflowRun service workflowId workflow version request) = .ok result) ↔
        ∃ version, TakesRequest service workflowId workflow request version := by
  constructor
  · rintro ⟨result, executed⟩
    obtain ⟨version, resolved, begun⟩ := bind_eq_ok.mp executed
    obtain ⟨arguments, prepared, ran⟩ := bind_eq_ok.mp begun
    obtain ⟨active, published⟩ := resolvePublishedVersion_eq_ok.mp resolved
    refine ⟨version, active, published, accepts_of_prepareRun prepared, ?_⟩
    intro other isOther
    obtain rfl := Except.ok.inj (prepared.symm.trans isOther)
    exact ⟨result, ran⟩
  · rintro ⟨version, active, published, accepts, carriedOut⟩
    obtain ⟨arguments, prepared⟩ := exists_prepareRun accepts
    obtain ⟨result, ran⟩ := carriedOut arguments prepared
    have resolved := resolvePublishedVersion_eq_ok.mpr ⟨active, published⟩
    exact ⟨result, bind_eq_ok.mpr ⟨version, resolved, bind_eq_ok.mpr ⟨arguments, prepared, ran⟩⟩⟩

section Page

variable {elements : List FormElement} {recordId : Option RecordId} {inputs after : Option Fields}

theorem runs_iff {workflowId : Nat} :
    (∃ result, runWorkflow service ⟨true, elements, recordId⟩ workflowId inputs after =
      .ok result) ↔ workflowId ∈ collectWorkflowIds elements ∧ ∃ workflow,
        service.workflows workflowId = some workflow ∧ workflow.enabled = true ∧ ∃ version,
          TakesRequest service workflowId workflow (shareRequest recordId inputs after) version := by
  unfold runWorkflow
  by_cases collected : workflowId ∈ collectWorkflowIds elements
  · cases found : service.workflows workflowId with
    | none => simp [collected]
    | some workflow =>
      cases enabled : workflow.enabled with
      | false => simp [collected, enabled]
      | true =>
        simp only [collected, enabled, Bool.not_true, Bool.false_eq_true, if_false,
          not_true_eq_false, mapError_eq_ok, executes_iff, true_and, Option.some.injEq,
          exists_eq_left']
  · simp [collected]

end Page

/-- A page offers exactly what it may start when the walk passes over no workflow that it does
not also collect, and every workflow on offer that is enabled takes the visitor's request. -/
theorem offersExactly_iff (service : Service) (elements : List FormElement)
    (recordId : Option RecordId) (inputs after : Option Fields) :
    OffersExactly service elements recordId inputs after ↔ NonePassedOver elements ∧
      ∀ workflowId workflow, Offers elements workflowId →
        service.workflows workflowId = some workflow → workflow.enabled = true → ∃ version,
          TakesRequest service workflowId workflow (shareRequest recordId inputs after) version := by
  unfold OffersExactly
  rw [collects_iff]
  refine and_congr_right fun none => ?_
  have collects := collects_iff.mpr none
  constructor
  · intro starts workflowId workflow offers found enabled
    have runs := (starts workflowId).mpr ⟨offers, workflow, found, enabled⟩
    obtain ⟨_, other, isOther, _, takes⟩ := runs_iff.mp runs
    obtain rfl : workflow = other := Option.some.inj (found.symm.trans isOther)
    exact takes
  · intro takes workflowId
    rw [runs_iff]
    constructor
    · rintro ⟨collected, workflow, found, enabled, _⟩
      exact ⟨(collects workflowId).mp collected, workflow, found, enabled⟩
    · rintro ⟨offers, workflow, found, enabled⟩
      exact ⟨(collects workflowId).mpr offers, workflow, found, enabled,
        takes workflowId workflow offers found enabled⟩

end Running

/-- An organisation with one workflow, 7, which is manual and declares no inputs, and a dispatcher
that carries out every run. -/
def welcomeService : Service where
  python := ⟨fun _ => "", id, id, id, fun _ => .error .notANumber⟩
  workflows := fun workflowId =>
    if workflowId = 7 then
      some { activeVersion := some ⟨true, [⟨"trigger", [("source", .str "manual")]⟩]⟩ }
    else none
  loadTriggerRecord := fun _ _ => none
  runVersionManually := fun _ _ _ => .ok ⟨1, "completed", true, 0, none⟩

/-- A page with nothing but a keypad does not start the keypad's workflow, though it would take the
request. -/
theorem not_offersExactly_keypad :
    ¬OffersExactly welcomeService [.leaf .null (.keypad 7 [])] none none none := by
  intro offersExactly
  have offered : Offers [.leaf .null (.keypad 7 [])] 7 :=
    ⟨.null, .keypad 7 [], .here mem_cons_self, .keypad []⟩
  exact not_mem_nil ((offersExactly.1 7).mpr offered)

end RedArchKM.Forms.Elements
