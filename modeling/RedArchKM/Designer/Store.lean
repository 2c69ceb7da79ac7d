import RedArchKM.Designer.GraphSerde

/-!
# The store of the designer

The store holds the nodes and the edges of the canvas, and a clipboard that outlives what it was
copied from. Copies get new ids; what they refer to among the copied nodes is renamed with them.
Deleting a node deletes, in one pass, the boundary events that sit on it.

A session records besides the state which ids were given to nodes, and the state from which the
clipboard was filled.
-/

namespace RedArchKM.Designer

open Lib.JsonText

variable {ν : Type}

/-! ## State -/

structure Connection where
  source : Units
  target : Units
  sourceHandle : Option Units := none
  targetHandle : Option Units := none

/-- How the canvas library adds an edge, unless there is such an edge. -/
structure FlowLibrary where
  addEdge : Edge → List Edge → List Edge

/-- What the library promises: an edge is added, if at all, between the nodes that are given. -/
structure FlowLibrary.Lawful (flow : FlowLibrary) : Prop where
  ends_addEdge : ∀ edge edges, ∀ added ∈ flow.addEdge edge edges,
    added ∈ edges ∨ (added.source = edge.source ∧ added.target = edge.target)

structure Slab (ν : Type) where
  nodes : List (Node ν)
  edges : List Edge

structure DesignerState (ν : Type) where
  nodes : List (Node ν) := []
  edges : List Edge := []
  clipboard : Option (Slab ν) := none

def DesignerState.ids (state : DesignerState ν) : List Units := state.nodes.map Node.id

/-- `newNodeId`, with the random part given -/
def newNodeId (start random : Units) : Units := start ++ units "_" ++ random

/-- `DUP_OFFSET` -/
def dupOffset : Position := (40, 40)

/-- `metaFor(type).defaultData()` -/
def defaultData (number : Nat → ν) (type : Units) : Fields ν :=
  if type = triggerType then
    [(units "operations", .array [.string (units "update")]), (units "field_filter", .array [])]
  else if type = taskType then
    [(units "task_type", .string (units "service")), (units "action_type", .string []),
      (units "config", .object [])]
  else if type = gatewayType then [(units "gateway_type", .string (units "exclusive"))]
  else if type = eventType then
    [(units "position", .string (units "end")), (units "event_type", .string (units "none"))]
  else if type = units "action" then
    [(units "action_type", .string []), (units "config", .object [])]
  else if type = units "condition" then [(units "expr", .null)]
  else if type = units "switch" then [(units "cases", .array [])]
  else if type = units "delay" then
    [(units "delay_amount", .number (number 30)), (units "delay_unit", .string (units "minutes")),
      (units "delay_seconds", .number (number 1800))]
  else []

/-! ## Copies -/

section

variable (idMap : List (Units × Units))

def renamed (id : Units) : Units := (idMap.lookup id).getD id

def clonedNode (offset : Position) (node : Node ν) : Node ν :=
  { node with
    id := renamed idMap node.id
    selected := true
    position := node.position + offset
    data :=
      match (attachedTo node.data).bind fun host => idMap.lookup host with
      | some host => put attachedKey (.string host) node.data
      | none => node.data
    parentId :=
      match node.parent.bind fun host => idMap.lookup host with
      | some host => some host
      | none => node.parentId }

def clonedEdge (edge : Edge) (random : Units) : Edge :=
  { edge with
    id := newNodeId (units "e") random
    source := renamed idMap edge.source
    target := renamed idMap edge.target
    selected := false }

end

section

variable (nodes : List (Node ν)) (random : List Units)

def newIds : List Units :=
  List.zipWith (fun node random => newNodeId node.type random) nodes random

/-- `idMap` of `cloneSlab` -/
def idMapOf : List (Units × Units) :=
  mapOf ((nodes.map Node.id).zip (newIds nodes random))

end

/-- `cloneSlab`, with the random parts of the ids of nodes and edges -/
def cloneSlab (slab : Slab ν) (offset : Position) (random edgeRandom : List Units) : Slab ν :=
  let idMap := idMapOf slab.nodes random
  { nodes := canvas.rootsFirst (slab.nodes.map (clonedNode idMap offset))
    edges := List.zipWith (clonedEdge idMap) slab.edges edgeRandom }

/-! ## Operations -/

/-- The operations of the store, each with the random parts of the ids that it draws. A selection is
what the canvas reports: some nodes are selected, some are not any more. -/
inductive Operation (ν : Type) where
  | addNode (type : Units) (position : Position) (dataOverride : Option (Fields ν))
      (random : Units)
  | onConnect (connection : Connection) (random : Units)
  | updateNodeData (id : Units) (data : Fields ν)
  | deleteNodes (ids : List Units)
  | deleteEdges (ids : List Units)
  | selectNode (id : Option Units)
  | onSelect (changes : List (Units × Bool))
  | copySelection
  | paste (offset : Position) (random edgeRandom : List Units)
  | duplicateSelection (random edgeRandom : List Units)

def Node.deselected (node : Node ν) : Node ν := { node with selected := false }

/-- The changes of selection that name a node, one after the other. -/
def Node.reselected (changes : List (Units × Bool)) (node : Node ν) : Node ν :=
  changes.foldl
    (fun node change => if change.1 = node.id then { node with selected := change.2 } else node) node

/-- A boundary event does not outlive what it is attached to. -/
def doom (doomed : List Units) (node : Node ν) : List Units :=
  match attachedTo node.data with
  | some host =>
    if isBoundary node.type node.data ∧ host ∈ doomed then node.id :: doomed else doomed
  | none => doomed

/-- `idSet` of `deleteNodes`: one pass over the nodes -/
def cascaded (nodes : List (Node ν)) (ids : List Units) : List Units := nodes.foldl doom ids

namespace DesignerState

variable (state : DesignerState ν)

def addNode (type : Units) (position : Position) (data : Fields ν) (random : Units) :
    DesignerState ν :=
  { state with
    nodes := state.nodes ++
      [{ id := newNodeId type random, type := type, position := position, data := data }] }

def onConnect (flow : FlowLibrary) (connection : Connection) (random : Units) : DesignerState ν :=
  { state with
    edges := flow.addEdge
      { id := newNodeId (units "e") random
        source := connection.source
        target := connection.target
        sourceHandle := connection.sourceHandle
        targetHandle := connection.targetHandle
        style := edgeStyle connection.sourceHandle }
      state.edges }

def updateNodeData (id : Units) (data : Fields ν) : DesignerState ν :=
  { state with
    nodes := state.nodes.map fun node => if node.id = id then { node with data := data } else node }

def deleteNodes (ids : List Units) : DesignerState ν :=
  let doomed := cascaded state.nodes ids
  { state with
    nodes := state.nodes.filter fun node => node.id ∉ doomed
    edges := state.edges.filter fun edge => edge.source ∉ doomed ∧ edge.target ∉ doomed }

def deleteEdges (ids : List Units) : DesignerState ν :=
  { state with edges := state.edges.filter fun edge => edge.id ∉ ids }

def selectNode (id : Option Units) : DesignerState ν :=
  { state with
    nodes := state.nodes.map fun node => { node with selected := some node.id = id }
    edges := state.edges.map fun edge => { edge with selected := false } }

def onSelect (changes : List (Units × Bool)) : DesignerState ν :=
  { state with nodes := state.nodes.map (Node.reselected changes) }

def selection : Slab ν :=
  let chosen := state.nodes.filter Node.selected
  let ids := chosen.map Node.id
  { nodes := chosen, edges := state.edges.filter fun edge => edge.source ∈ ids ∧ edge.target ∈ ids }

def copySelection : DesignerState ν :=
  if state.selection.nodes = [] then state else { state with clipboard := some state.selection }

/-- The copies of a slab are added, and nothing else stays selected. -/
def insert (slab : Slab ν) (offset : Position) (random edgeRandom : List Units) : DesignerState ν :=
  let cloned := cloneSlab slab offset random edgeRandom
  { state with
    nodes := state.nodes.map Node.deselected ++ cloned.nodes
    edges := state.edges ++ cloned.edges }

def paste (offset : Position) (random edgeRandom : List Units) : DesignerState ν :=
  match state.clipboard with
  | none => state
  | some slab => if slab.nodes = [] then state else state.insert slab offset random edgeRandom

def duplicateSelection (random edgeRandom : List Units) : DesignerState ν :=
  if state.selection.nodes = [] then state
  else state.insert state.selection dupOffset random edgeRandom

/-- One operation of the store. -/
def perform (flow : FlowLibrary) (number : Nat → ν) : Operation ν → DesignerState ν
  | .addNode type position dataOverride random =>
    state.addNode type position (dataOverride.getD (defaultData number type)) random
  | .onConnect connection random => state.onConnect flow connection random
  | .updateNodeData id data => state.updateNodeData id data
  | .deleteNodes ids => state.deleteNodes ids
  | .deleteEdges ids => state.deleteEdges ids
  | .selectNode id => state.selectNode id
  | .onSelect changes => state.onSelect changes
  | .copySelection => state.copySelection
  | .paste offset random edgeRandom => state.paste offset random edgeRandom
  | .duplicateSelection random edgeRandom => state.duplicateSelection random edgeRandom

/-- The ids that an operation gives to nodes. -/
def drawn : Operation ν → List Units
  | .addNode type _ _ random => [newNodeId type random]
  | .paste _ random _ =>
    match state.clipboard with
    | none => []
    | some slab => newIds slab.nodes random
  | .duplicateSelection random _ => newIds state.selection.nodes random
  | _ => []

/-- There is a random part for each node and each edge that is copied. -/
def DrawsEnough : Operation ν → Prop
  | .paste _ random edgeRandom =>
    match state.clipboard with
    | none => True
    | some slab => random.length = slab.nodes.length ∧ edgeRandom.length = slab.edges.length
  | .duplicateSelection random edgeRandom =>
    random.length = state.selection.nodes.length ∧
      edgeRandom.length = state.selection.edges.length
  | _ => True

end DesignerState

/-! ## Sessions -/

structure Session (ν : Type) where
  state : DesignerState ν
  used : List Units
  /-- The state from which the clipboard was filled. -/
  origin : Option (DesignerState ν) := none

/-- A graph that was just loaded. -/
def opened (definition : WorkflowDefinition ν) : Session ν where
  state :=
    { nodes := (toReactFlow definition).1
      edges := (toReactFlow definition).2 }
  used := definition.nodes.map GraphNode.id

namespace Session

variable (session : Session ν)

def perform (flow : FlowLibrary) (number : Nat → ν) (operation : Operation ν) : Session ν where
  state := session.state.perform flow number operation
  used := session.state.drawn operation ++ session.used
  origin :=
    match operation with
    | .copySelection =>
      if session.state.selection.nodes = [] then session.origin else some session.state
    | _ => session.origin

/-- Edges are drawn between nodes that are there, a change of data leaves `attached_to` alone, and
new ids are new. -/
def Allows : Operation ν → Prop
  | .onConnect connection _ =>
    connection.source ∈ session.state.ids ∧ connection.target ∈ session.state.ids
  | .updateNodeData id data =>
    ∀ node ∈ session.state.nodes, node.id = id →
      data.lookup attachedKey = node.data.lookup attachedKey
  | operation =>
    session.state.DrawsEnough operation ∧ (session.state.drawn operation).Nodup ∧
      ∀ id ∈ session.state.drawn operation, id ∉ session.used

end Session

end RedArchKM.Designer
