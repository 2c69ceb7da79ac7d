import Mathlib.Algebra.Order.Ring.Unbundled.Rat
import RedArchKM.Lib.Reach
import RedArchKM.Workflow.Json

/-!
# Workflow definitions

A definition is a graph of nodes whose `type` is a category and whose `data` says which kind of
that category it is. A parsed definition carries what the structural validator checked: node ids
are distinct, and edges join nodes of the graph. Legacy graphs are read through `normalize`,
which maps their node types to categories and leaves the edges alone.
-/

namespace RedArchKM.Workflow

open Lib List

abbrev NodeId := String
abbrev WorkflowId := Nat
abbrev VersionId := Nat
abbrev RunId := Nat
abbrev AgentId := Nat
abbrev AgentRunId := Nat
abbrev RecordId := Nat
abbrev EntityId := Nat

inductive NodeType where
  | trigger | task | gateway | event
  | action | condition | switch | delay | merge | passthrough
deriving DecidableEq

/-- `other` is a subtype outside the vocabulary, which only a legacy node can carry. -/
inductive TaskType where
  | service | send | script | businessRule | user | receive | call | subProcess | manual | agent
  | other
deriving DecidableEq

inductive GatewayType where
  | exclusive | parallel | inclusive | eventBased | other
deriving DecidableEq

/-- `null` is a position set to `null`, which is not an absent one. -/
inductive EventPosition where
  | intermediate | endEvent | boundary | null | other
deriving DecidableEq

inductive EventType where
  | timer | message | signal | error | escalation | terminate | plain | other
deriving DecidableEq

inductive Operation where
  | create | update | delete | other
deriving DecidableEq

inductive ChangeSource where
  | record | form
deriving DecidableEq

/-- The source a trigger asks for; `manual` starts on demand only. -/
inductive RequiredSource where
  | manual | any | only (source : ChangeSource) | other
deriving DecidableEq

structure SwitchCase where
  expr : Option Json := none
  handle : Option String := none

/-- A retry policy as written on a node; `none` stands for a value of another type. -/
structure RetrySpec where
  maxAttempts : Option Int := none
  baseDelaySeconds : Option Rat := none
  maxDelaySeconds : Option Rat := none

structure NodeData where
  operations : Option (List Operation) := none
  source : Option RequiredSource := none
  fieldFilter : List String := []
  taskType : Option TaskType := none
  gatewayType : Option GatewayType := none
  position : Option EventPosition := none
  eventType : Option EventType := none
  endType : Option EventType := none
  errorCode : Option String := none
  attachedTo : Option NodeId := none
  actionType : Option String := none
  config : Json := .null
  capture : Json := .null
  continueOnError : Bool := false
  retry : Option RetrySpec := none
  decisionTable : Json := .null
  transform : Json := .null
  callWorkflowId : Option WorkflowId := none
  callInputs : Json := .null
  cases : List SwitchCase := []
  expr : Option Json := none
  delayMs : Json := .null
  delaySeconds : Json := .null
  agentId : Option AgentId := none
  task : String := ""
  outputSchema : Fields := []
  allowWebResearch : Bool := false

structure WorkflowNode where
  id : NodeId
  type : NodeType
  data : NodeData := {}

namespace WorkflowNode

section

variable (node : WorkflowNode)

def taskType : Option TaskType :=
  if node.type = .task then node.data.taskType else none

def gatewayType : Option GatewayType :=
  if node.type = .gateway then node.data.gatewayType else none

/-- The variable a task publishes its output under. -/
def capture : Option String := node.data.capture.nonemptyStr?

end

end WorkflowNode

structure WorkflowEdge where
  source : NodeId
  target : NodeId
  sourceHandle : Option String := none

/-- A parsed, structurally valid workflow graph. -/
structure WorkflowDefinitionModel where
  schemaVersion : Nat := 1
  nodes : List WorkflowNode := []
  edges : List WorkflowEdge := []
  ids_nodup : (nodes.map WorkflowNode.id).Nodup
  sources_known : ∀ edge ∈ edges, edge.source ∈ nodes.map WorkflowNode.id
  targets_known : ∀ edge ∈ edges, edge.target ∈ nodes.map WorkflowNode.id

/-! ## Normalization of legacy graphs -/

def sendActions : List String := ["send_email", "send_webhook", "send_form"]

def taskTypeForAction : Option String → TaskType
  | some actionType => if actionType ∈ sendActions then .send else .service
  | none => .service

def NodeType.isLegacy : NodeType → Bool
  | .action | .condition | .switch | .delay | .merge | .passthrough => true
  | .trigger | .task | .gateway | .event => false

def normalizeNode (node : WorkflowNode) : WorkflowNode :=
  let data := node.data
  match node.type with
  | .action =>
    { node with
      type := .task
      data := { data with
        taskType := some (data.taskType.getD (taskTypeForAction data.actionType)) } }
  | .condition | .switch | .merge | .passthrough =>
    { node with
      type := .gateway
      data := { data with gatewayType := some (data.gatewayType.getD .exclusive) } }
  | .delay =>
    { node with
      type := .event
      data := { data with
        position := some (data.position.getD .intermediate)
        eventType := some (data.eventType.getD .timer) } }
  | .trigger | .task | .gateway | .event => node

theorem normalizeNode_id (node : WorkflowNode) : (normalizeNode node).id = node.id := by
  unfold normalizeNode
  split <;> rfl

theorem map_id_normalizeNode (nodes : List WorkflowNode) :
    (nodes.map normalizeNode).map WorkflowNode.id = nodes.map WorkflowNode.id := by
  rw [map_map]
  exact map_congr_left fun node _ => normalizeNode_id node

/-- A model the token engine can execute. -/
def normalize (model : WorkflowDefinitionModel) : WorkflowDefinitionModel :=
  if !model.nodes.any fun node => node.type.isLegacy then model
  else
    { schemaVersion := max model.schemaVersion 2
      nodes := model.nodes.map normalizeNode
      edges := model.edges
      ids_nodup := by rw [map_id_normalizeNode]; exact model.ids_nodup
      sources_known := by rw [map_id_normalizeNode]; exact model.sources_known
      targets_known := by rw [map_id_normalizeNode]; exact model.targets_known }

@[simp] theorem edges_normalize (model : WorkflowDefinitionModel) :
    (normalize model).edges = model.edges := by
  unfold normalize
  split <;> rfl

/-! ## Reading the graph -/

namespace WorkflowDefinitionModel

/-- Whether the graph runs on the token engine. -/
def isV2 (model : WorkflowDefinitionModel) : Bool :=
  decide (2 ≤ model.schemaVersion) ||
    model.nodes.any fun node => !node.type.isLegacy && node.type != .trigger

def nodeById (model : WorkflowDefinitionModel) (nodeId : NodeId) : Option WorkflowNode :=
  model.nodes.find? fun node => node.id = nodeId

theorem mem_of_nodeById {model : WorkflowDefinitionModel} {nodeId : NodeId} {node : WorkflowNode}
    (found : model.nodeById nodeId = some node) : node ∈ model.nodes ∧ node.id = nodeId :=
  ⟨mem_of_find?_eq_some found, by simpa using find?_some found⟩

section

variable (model : WorkflowDefinitionModel)

def triggers : List WorkflowNode :=
  model.nodes.filter fun node => node.type = .trigger

def outEdges (nodeId : NodeId) : List (NodeId × Option String) :=
  (model.edges.filter fun edge => edge.source = nodeId).map fun edge =>
    (edge.target, edge.sourceHandle)

def incomingEdges (nodeId : NodeId) : List (NodeId × Option String) :=
  (model.edges.filter fun edge => edge.target = nodeId).map fun edge =>
    (edge.source, edge.sourceHandle)

/-- The edges without their handles. -/
def adjacency : List (NodeId × NodeId) :=
  model.edges.map fun edge => (edge.source, edge.target)

def forwardReachableNodes (startIds : List NodeId) : List NodeId :=
  Reach.reachable model.adjacency startIds

end

def isBoundaryOf (eventType : EventType) (nodeId : NodeId) (node : WorkflowNode) : Bool :=
  node.type == .event && node.data.position == some .boundary &&
    node.data.eventType == some eventType && node.data.attachedTo == some nodeId

section

variable (model : WorkflowDefinitionModel) (nodeId : NodeId)

/-- The error boundary that catches the failure: one with its code, else one without a code. -/
def errorBoundaryFor (errorCode : Option String) : Option WorkflowNode :=
  let attached := model.nodes.filter (isBoundaryOf .error nodeId)
  let code (node : WorkflowNode) := node.data.errorCode.getD ""
  (attached.find? fun node => code node ≠ "" && errorCode = some (code node)).or
    (attached.find? fun node => code node = "")

def timerBoundaryFor : Option WorkflowNode :=
  model.nodes.find? (isBoundaryOf .timer nodeId)

end

end WorkflowDefinitionModel

def handleOrDefault : Option String → String
  | none | some "" => "default"
  | some handle => handle

/-! ## Retry policies -/

structure RetryPolicy where
  maxAttempts : Nat := 1
  baseDelay : Rat := 1
  maxDelay : Rat := 300

def clampInt (value : Option Int) (default low high : Nat) : Nat :=
  match value with
  | none => default
  | some value => max low (min high value.toNat)

def clampDelay (value : Option Rat) (default low high : Rat) : Rat :=
  match value with
  | none => default
  | some value => max low (min high value)

/-- A node without a retry spec gets one attempt. -/
def readPolicy : Option RetrySpec → RetryPolicy
  | none => {}
  | some spec =>
    let baseDelay := clampDelay spec.baseDelaySeconds 1 0 (24 * 3600)
    { maxAttempts := clampInt spec.maxAttempts 3 1 20
      baseDelay
      maxDelay := max baseDelay (clampDelay spec.maxDelaySeconds 300 0 (24 * 3600)) }

end RedArchKM.Workflow
