import Mathlib.Data.Rat.Floor
import RedArchKM.Designer.Values

/-!
# Errors of a workflow graph

The designer checks a stored graph before it saves or publishes it, after the older types of nodes
are read as the categories that replaced them. Only the issues that block a save are here
(`graphErrors`). A graph without them has different ids, known types, edges between nodes that are
there, and boundary events on nodes that are there (`sound_of_no_errors`).
-/

namespace RedArchKM.Designer

open Lib.JsonText List

variable {ν : Type}

/-! ## Stored graphs -/

/-- Positions are numbers without rounding errors. -/
abbrev Position := ℚ × ℚ

structure GraphNode (ν : Type) where
  id : Units
  type : Units
  position : Option Position
  data : Fields ν

structure GraphEdge where
  id : Units
  source : Units
  target : Units
  sourceHandle : Option Units

structure WorkflowDefinition (ν : Type) where
  schemaVersion : Option Nat
  nodes : List (GraphNode ν)
  edges : List GraphEdge

/-! ## Vocabulary -/

def schemaVersion : Nat := 2

def triggerType : Units := units "trigger"

def taskType : Units := units "task"

def gatewayType : Units := units "gateway"

def eventType : Units := units "event"

/-- `NODE_TYPES`, and `ALL_NODE_TYPES` -/
def nodeTypes : List Units :=
  [triggerType, taskType, gatewayType, eventType, units "condition", units "action",
    units "switch", units "delay", units "merge", units "passthrough"]

def taskTypes : List Units :=
  [units "service", units "send", units "script", units "businessRule", units "user",
    units "receive", units "call", units "subProcess", units "manual", units "agent"]

def gatewayTypes : List Units :=
  [units "exclusive", units "parallel", units "inclusive", units "event_based"]

def eventPositions : List Units := [units "intermediate", units "end", units "boundary"]

/-- `EVENT_TYPES` -/
def eventTypes : List Units :=
  [units "timer", units "message", units "signal", units "error", units "escalation",
    units "terminate", units "none"]

/-! ## Data of nodes -/

def attachedKey : Units := units "attached_to"

/-- `data[key] === text` -/
def reads (data : Fields ν) (key text : String) : Bool :=
  match data.lookup (units key) with
  | some (.string found) => found = units text
  | _ => false

/-- `data.attached_to`, where it is a text -/
def attachedTo (data : Fields ν) : Option Units :=
  match data.lookup attachedKey with
  | some (.string host) => some host
  | _ => none

/-- `isBoundaryEvent`, and the test of `toReactFlow` -/
def isBoundary (type : Units) (data : Fields ν) : Bool :=
  type = eventType && reads data "position" "boundary"

/-- `if (data[key] === undefined) data[key] = value` -/
def setDefault (key text : String) (data : Fields ν) : Fields ν :=
  if (data.lookup (units key)).isNone then put (units key) (.string (units text)) data else data

/-! ## Normalization -/

structure NormNode (ν : Type) where
  id : Units
  type : Units
  data : Fields ν

section Text

variable (stringOf : Value ν → Units)

/-- `String(value ?? "")` -/
def textOr : Option (Value ν) → Units
  | none => []
  | some .null => []
  | some value => stringOf value

def sendActions : List Units := [units "send_email", units "send_webhook", units "send_form"]

/-- `String(data.action_type)` -/
def actionType (data : Fields ν) : Units :=
  match data.lookup (units "action_type") with
  | none => units "undefined"
  | some value => stringOf value

def normalizeNode (node : GraphNode ν) : NormNode ν :=
  if node.type = units "action" then
    { id := node.id
      type := taskType
      data := setDefault "task_type"
        (if actionType stringOf node.data ∈ sendActions then "send" else "service") node.data }
  else if node.type ∈ [units "condition", units "switch", units "merge", units "passthrough"] then
    { id := node.id, type := gatewayType, data := setDefault "gateway_type" "exclusive" node.data }
  else if node.type = units "delay" then
    { id := node.id
      type := eventType
      data := setDefault "throw_catch" "catch"
        (setDefault "event_type" "timer" (setDefault "position" "intermediate" node.data)) }
  else { id := node.id, type := node.type, data := node.data }

def isAuthoredV2 (definition : WorkflowDefinition ν) : Bool :=
  schemaVersion ≤ definition.schemaVersion.getD 1 ||
    definition.nodes.any fun node => node.type ∈ [taskType, gatewayType, eventType]

/-! ## Structure -/

/-- The codes of the issues that block a save. -/
inductive IssueCode where
  | malformed
  | noTrigger
  | boundaryUnattached
  | boundaryBadAttach
  | eventGatewayTarget
  | agentTaskV1
  | agentTaskNoAgent
  | agentTaskNoTask
  | agentTaskNoEscalation

structure Issue where
  code : IssueCode
  nodeId : Option Units := none
  edgeId : Option Units := none

def isLetter (unit : Nat) : Bool :=
  (65 ≤ unit && unit ≤ 90) || (97 ≤ unit && unit ≤ 122)

/-- `NODE_ID_RE` -/
def isNodeId (id : Units) : Bool :=
  1 ≤ id.length && id.length ≤ 64 &&
    id.all fun unit => isLetter unit || isDigit unit || unit = 95 || unit = 45

def isUnknown (known : List Units) (value : Option (Value ν)) : Bool :=
  match value with
  | none => false
  | some .null => false
  | some value => stringOf value ∉ known

def subtypeIssue (node : GraphNode ν) : List Issue :=
  let malformed (key : String) (known : List Units) : List Issue :=
    if isUnknown stringOf known (node.data.lookup (units key)) then
      [{ code := .malformed, nodeId := some node.id }]
    else []
  if node.type = taskType then malformed "task_type" taskTypes
  else if node.type = gatewayType then malformed "gateway_type" gatewayTypes
  else if node.type = eventType then
    malformed "position" eventPositions ++ malformed "event_type" eventTypes
  else []

def nodeIssues : List Units → List (GraphNode ν) → List Issue
  | _, [] => []
  | seen, node :: rest =>
    let malformed : Issue := { code := .malformed, nodeId := some node.id }
    (if isNodeId node.id then [] else [malformed]) ++
      (if node.type ∈ nodeTypes then [] else [malformed]) ++
        (if node.id ∈ seen then [malformed] else []) ++
          subtypeIssue stringOf node ++ nodeIssues (node.id :: seen) rest

def structuralIssues (definition : WorkflowDefinition ν) : List Issue :=
  let seen := definition.nodes.map GraphNode.id
  nodeIssues stringOf [] definition.nodes ++
    definition.edges.flatMap fun edge =>
      if edge.source ∈ seen ∧ edge.target ∈ seen then []
      else [{ code := .malformed, edgeId := some edge.id }]

/-! ## Checks -/

section

variable (nodes : List (NormNode ν))

def checkTriggers : List Issue :=
  if nodes.any fun node => node.type = triggerType then [] else [{ code := .noTrigger }]

/-- `new Map(nodes.map((n) => [n.id, n])).get(id)`: the last one counts. -/
def nodeById (id : Units) : Option (NormNode ν) :=
  nodes.reverse.find? fun node => node.id = id

def checkBoundaryEvents : List Issue :=
  (nodes.filter fun node => isBoundary node.type node.data).flatMap fun node =>
    match attachedTo node.data with
    | none => [{ code := .boundaryUnattached, nodeId := some node.id }]
    | some host =>
      if host = [] then [{ code := .boundaryUnattached, nodeId := some node.id }]
      else if (nodeById nodes host).isNone then
        [{ code := .boundaryBadAttach, nodeId := some node.id }]
      else []

end

def isCatchTarget : Option (NormNode ν) → Bool
  | none => false
  | some node =>
    if node.type = eventType && reads node.data "position" "intermediate" then
      match node.data.lookup (units "throw_catch") with
      | none => true
      | some .null => true
      | some (.string text) => text = units "catch"
      | some _ => false
    else node.type = taskType && reads node.data "task_type" "receive"

def checkEventBasedGateways (nodes : List (NormNode ν)) (edges : List GraphEdge) : List Issue :=
  (nodes.filter fun node => node.type = gatewayType &&
      reads node.data "gateway_type" "event_based").flatMap fun node =>
    (edges.filter fun edge => edge.source = node.id).flatMap fun edge =>
      if isCatchTarget (nodeById nodes edge.target) then []
      else [{ code := .eventGatewayTarget, nodeId := some node.id, edgeId := some edge.id }]

def isHex (unit : Nat) : Bool := isDigit unit || (65 ≤ unit && unit ≤ 70) || (97 ≤ unit && unit ≤ 102)

/-- `UUID_RE` -/
def isUuid (text : Units) : Bool :=
  text.length = 36 && text.zipIdx.all fun entry =>
    if entry.2 ∈ [8, 13, 18, 23] then entry.1 = 45 else isHex entry.1

section

variable (nodes : List (NormNode ν)) (authoredV2 : Bool)

/-- `checkAgentTasks`, for one node -/
def agentTaskIssues (node : NormNode ν) : List Issue :=
  let issue (code : IssueCode) : Issue := { code := code, nodeId := some node.id }
  (if authoredV2 then [] else [issue .agentTaskV1]) ++
    (if isUuid (textOr stringOf (node.data.lookup (units "agent_id"))) then []
      else [issue .agentTaskNoAgent]) ++
    (if trimmed (textOr stringOf (node.data.lookup (units "task"))) = [] then
      [issue .agentTaskNoTask] else []) ++
    if nodes.any fun event => isBoundary event.type event.data &&
        attachedTo event.data = some node.id && reads event.data "event_type" "error" then []
    else [issue .agentTaskNoEscalation]

def checkAgentTasks : List Issue :=
  (nodes.filter fun node => node.type = taskType &&
    reads node.data "task_type" "agent").flatMap (agentTaskIssues stringOf nodes authoredV2)

end

/-- The issues of `validateGraph` that are errors. -/
def graphErrors (definition : WorkflowDefinition ν) : List Issue :=
  let structural := structuralIssues stringOf definition
  if structural ≠ [] then structural
  else
    let nodes := definition.nodes.map (normalizeNode stringOf)
    checkTriggers nodes ++ checkBoundaryEvents nodes ++
      checkEventBasedGateways nodes definition.edges ++
        checkAgentTasks stringOf nodes (isAuthoredV2 definition)

end Text

/-! ## Graphs without errors -/

/-- What a graph without errors has. -/
structure Sound (definition : WorkflowDefinition ν) : Prop where
  nodup : (definition.nodes.map GraphNode.id).Nodup
  named : ∀ node ∈ definition.nodes, node.id ≠ []
  known : ∀ node ∈ definition.nodes, node.type ∈ nodeTypes
  ends : ∀ edge ∈ definition.edges,
    edge.source ∈ definition.nodes.map GraphNode.id ∧ edge.target ∈ definition.nodes.map GraphNode.id
  attached : ∀ node ∈ definition.nodes, isBoundary node.type node.data →
    ∃ host ∈ definition.nodes, attachedTo node.data = some host.id

section Facts

variable {stringOf : Value ν → Units}

theorem nodeIssues_eq_nil {seen : List Units} {nodes : List (GraphNode ν)}
    (none : nodeIssues stringOf seen nodes = []) :
    (nodes.map GraphNode.id).Nodup ∧
      ∀ node ∈ nodes, node.id ∉ seen ∧ node.id ≠ [] ∧ node.type ∈ nodeTypes := by
  induction nodes generalizing seen with
  | nil => exact ⟨nodup_nil, fun node member => absurd member not_mem_nil⟩
  | cons node rest ih =>
    simp only [nodeIssues, append_eq_nil_iff] at none
    obtain ⟨⟨⟨⟨isId, isKnown⟩, isNew⟩, _⟩, later⟩ := none
    obtain ⟨nodup, each⟩ := ih later
    have isKnown : node.type ∈ nodeTypes := by
      by_contra unknown
      rw [if_neg unknown] at isKnown
      cases isKnown
    have isNew : node.id ∉ seen := by
      intro isSeen
      rw [if_pos isSeen] at isNew
      cases isNew
    have isNamed : node.id ≠ [] := by
      intro same
      rw [same] at isId
      cases isId
    refine ⟨nodup_cons.mpr ⟨?_, nodup⟩, fun other member => ?_⟩
    · intro isLater
      obtain ⟨other, isOther, same⟩ := mem_map.mp isLater
      exact (each other isOther).1 (same ▸ mem_cons_self)
    · rcases mem_cons.mp member with rfl | isLater
      · exact ⟨isNew, isNamed, isKnown⟩
      · obtain ⟨notSeen, facts⟩ := each other isLater
        exact ⟨fun isSeen => notSeen (mem_cons_of_mem _ isSeen), facts⟩

theorem id_normalizeNode (node : GraphNode ν) : (normalizeNode stringOf node).id = node.id := by
  unfold normalizeNode
  split_ifs <;> rfl

theorem normalizeNode_boundary (stringOf : Value ν → Units) {node : GraphNode ν}
    (boundary : isBoundary node.type node.data) :
    normalizeNode stringOf node = ⟨node.id, node.type, node.data⟩ := by
  have isEvent : node.type = eventType := by
    simp only [isBoundary, Bool.and_eq_true, decide_eq_true_eq] at boundary
    exact boundary.1
  unfold normalizeNode
  rw [if_neg (isEvent ▸ by decide), if_neg (isEvent ▸ by decide), if_neg (isEvent ▸ by decide)]

/-- **A graph without errors is sound.** -/
theorem sound_of_no_errors {definition : WorkflowDefinition ν}
    (valid : graphErrors stringOf definition = []) : Sound definition := by
  have structural : structuralIssues stringOf definition = [] := by
    by_contra issues
    rw [graphErrors, if_pos issues] at valid
    exact issues valid
  rw [graphErrors, if_neg (not_not.mpr structural)] at valid
  simp only [append_eq_nil_iff] at valid
  obtain ⟨ofNodes, ofEdges⟩ := append_eq_nil_iff.mp structural
  obtain ⟨nodup, each⟩ := nodeIssues_eq_nil ofNodes
  refine ⟨nodup, fun node member => (each node member).2.1, fun node member => (each node member).2.2,
    fun edge member => ?_, fun node member boundary => ?_⟩
  · by_contra apart
    have noIssue := flatMap_eq_nil_iff.mp ofEdges edge member
    rw [if_neg apart] at noIssue
    cases noIssue
  · have isNormal : (⟨node.id, node.type, node.data⟩ : NormNode ν) ∈
        (definition.nodes.map (normalizeNode stringOf)).filter fun node =>
          isBoundary node.type node.data :=
      mem_filter.mpr ⟨normalizeNode_boundary stringOf boundary ▸ mem_map_of_mem member, boundary⟩
    have noIssue := flatMap_eq_nil_iff.mp valid.1.1.2 _ isNormal
    cases isHost : attachedTo node.data with
    | none =>
      simp only [isHost] at noIssue
      cases noIssue
    | some host =>
      simp only [isHost] at noIssue
      split_ifs at noIssue with unnamed missing
      obtain ⟨found, isFound⟩ := Option.ne_none_iff_exists'.mp
        (fun isNone => missing (Option.isNone_iff_eq_none.mpr isNone))
      have isNode := mem_reverse.mp (mem_of_find?_eq_some isFound)
      obtain ⟨other, isOther, rfl⟩ := mem_map.mp isNode
      refine ⟨other, isOther, ?_⟩
      have same : (normalizeNode stringOf other).id = host := by
        simpa using find?_some isFound
      rw [← same, id_normalizeNode]

end Facts

end RedArchKM.Designer
