import Mathlib.Algebra.Group.Prod
import RedArchKM.Designer.GraphValidation
import RedArchKM.Lib.Nesting

/-!
# Graphs on the canvas

The canvas keeps a boundary event at a place that is counted from its host, with the hosts before
what they hold. `toReactFlow` reads a stored graph so, and `toDefinition` writes one. What is
written of a graph that was just read is that graph, with its positions rounded, if and only if no
boundary event sits on a boundary event whose own host is off the origin (`roundTrips_iff`): the
writer adds the place of the host, which is then counted from the host's host.
-/

namespace RedArchKM.Designer

open Lib (Nesting)
open Lib.JsonText List

variable {ν : Type}

/-! ## Nodes of the canvas -/

structure Node (ν : Type) where
  id : Units
  type : Units
  position : Position
  data : Fields ν
  parentId : Option Units := none
  extent : Option Units := none
  selected : Bool := false

structure Edge where
  id : Units
  source : Units
  target : Units
  sourceHandle : Option Units := none
  targetHandle : Option Units := none
  type : Units := units "labeled"
  style : Option Units := none
  selected : Bool := false

def Node.parent (node : Node ν) : Option Units := node.parentId.filter fun id => id ≠ []

def canvas : Nesting (Node ν) Units Position := ⟨Node.id, Node.parent, Node.position⟩

def red : Units := units "#f43f5e"

/-- `edgeStyle`, and the style of `toReactFlow` -/
def edgeStyle (sourceHandle : Option Units) : Option Units :=
  if sourceHandle = some (units "false") ∨ sourceHandle = some (units "error") then some red
  else none

/-- `new Map(pairs)`: the last value of a key counts. -/
def mapOf {κ ω : Type} [DecidableEq κ] (pairs : List (κ × ω)) : List (κ × ω) :=
  pairs.foldl (fun map pair => put pair.1 pair.2 map) []

/-! ## Reading and writing -/

/-- `n.position ?? ORIGIN` -/
def GraphNode.place (node : GraphNode ν) : Position := node.position.getD 0

def flowNode (absPosById : List (Units × Position)) (node : GraphNode ν) : Node ν :=
  let base : Node ν :=
    { id := node.id, type := node.type, position := node.place, data := node.data }
  if isBoundary node.type node.data then
    match attachedTo node.data with
    | none => base
    | some host =>
      match absPosById.lookup host with
      | none => base
      | some parentPos =>
        { base with
          parentId := some host
          extent := some (units "parent")
          position := node.place - parentPos }
  else base

def flowEdge (edge : GraphEdge) : Edge :=
  { id := edge.id
    source := edge.source
    target := edge.target
    sourceHandle := edge.sourceHandle
    style := edgeStyle edge.sourceHandle }

def toReactFlow (definition : WorkflowDefinition ν) : List (Node ν) × List Edge :=
  let absPosById := mapOf (definition.nodes.map fun node => (node.id, node.place))
  (canvas.rootsFirst (definition.nodes.map (flowNode absPosById)),
    definition.edges.map flowEdge)

/-- `Math.round` -/
def mathRound (x : ℚ) : ℚ := ⌊x + 1 / 2⌋

def rounded (position : Position) : Position := (mathRound position.1, mathRound position.2)

section

variable (byId : List (Units × Node ν)) (node : Node ν)

def savedPosition : Position :=
  match node.parent.bind fun host => byId.lookup host with
  | none => node.position
  | some parent => node.position + parent.position

/-- One node of `toDefinition`. Unknown types are refused. -/
def savedNode : Option (GraphNode ν) :=
  if node.type ∈ nodeTypes then
    some { id := node.id
           type := node.type
           position := some (rounded (savedPosition byId node))
           data := node.data }
  else none

end

def savedEdge (edge : Edge) : GraphEdge := ⟨edge.id, edge.source, edge.target, edge.sourceHandle⟩

def toDefinition (nodes : List (Node ν)) (edges : List Edge) : Option (WorkflowDefinition ν) := do
  let byId := mapOf (nodes.map fun node => (node.id, node))
  let saved ← nodes.mapM (savedNode byId)
  return { schemaVersion := some schemaVersion, nodes := saved, edges := edges.map savedEdge }

/-! ## The round trip -/

def GraphNode.integral (node : GraphNode ν) : GraphNode ν :=
  { node with position := some (rounded node.place) }

/-- The graph that is written is the one that was read. Triggers and boundary events keep their
order. -/
def RoundTrips (definition : WorkflowDefinition ν) : Prop :=
  ∃ saved, toDefinition (toReactFlow definition).1 (toReactFlow definition).2 = some saved ∧
    saved.nodes.Perm (definition.nodes.map GraphNode.integral) ∧
    saved.nodes.filter (fun node => node.type = triggerType) =
      (definition.nodes.filter fun node => node.type = triggerType).map GraphNode.integral ∧
    saved.nodes.filter (fun node => isBoundary node.type node.data) =
      (definition.nodes.filter fun node => isBoundary node.type node.data).map
        GraphNode.integral ∧
    saved.edges = definition.edges

def SitsOn (node host : GraphNode ν) : Prop :=
  isBoundary node.type node.data ∧ attachedTo node.data = some host.id

/-- Where a boundary event sits on another, the host of that one is not seen when the position is
rounded: on a graph of whole numbers, it is at the origin. -/
def FlatHosts (definition : WorkflowDefinition ν) : Prop :=
  ∀ node ∈ definition.nodes, ∀ host ∈ definition.nodes, ∀ base ∈ definition.nodes,
    SitsOn node host → SitsOn host base → rounded (node.place - base.place) = rounded node.place

theorem mapOf_of_nodup {κ ω : Type} [DecidableEq κ] {pairs : List (κ × ω)}
    (nodup : (pairs.map Prod.fst).Nodup) : mapOf pairs = pairs := foldl_put nodup

theorem mapM_map_of_eq {α β γ : Type} {read : β → Option γ} {make : α → β} {image : α → γ}
    {items : List α} (each : ∀ item ∈ items, read (make item) = some (image item)) :
    (items.map make).mapM read = some (items.map image) := by
  induction items with
  | nil => rfl
  | cons item rest ih =>
    rw [map_cons, mapM_cons, each item mem_cons_self,
      ih fun other member => each other (mem_cons_of_mem _ member)]
    rfl

section Loaded

variable {definition : WorkflowDefinition ν}

def loadedNode (definition : WorkflowDefinition ν) (node : GraphNode ν) : Node ν :=
  flowNode (definition.nodes.map fun node => (node.id, node.place)) node

variable {node : GraphNode ν}

theorem lookup_places (sound : Sound definition) (member : node ∈ definition.nodes) :
    (definition.nodes.map fun node => (node.id, node.place)).lookup node.id = some node.place := by
  have nodup : ((definition.nodes.map fun node => (node.id, node.place)).map Prod.fst).Nodup := by
    rw [map_map]
    exact sound.nodup
  have isEntry : (node.id, node.place) ∈ definition.nodes.map fun node => (node.id, node.place) :=
    mem_map.mpr ⟨node, member, rfl⟩
  exact lookup_of_mem_nodup nodup isEntry

theorem nodes_toReactFlow (sound : Sound definition) :
    (toReactFlow definition).1 =
      canvas.rootsFirst (definition.nodes.map (loadedNode definition)) := by
  have nodup : ((definition.nodes.map fun node => (node.id, node.place)).map Prod.fst).Nodup := by
    rw [map_map]
    exact sound.nodup
  rw [toReactFlow, mapOf_of_nodup nodup]
  rfl

section

variable (node : GraphNode ν)

theorem loadedNode_keeps : (loadedNode definition node).id = node.id ∧
    (loadedNode definition node).type = node.type ∧
    (loadedNode definition node).data = node.data := by
  unfold loadedNode flowNode
  split_ifs <;> try exact ⟨rfl, rfl, rfl⟩
  cases attachedTo node.data with
  | none => exact ⟨rfl, rfl, rfl⟩
  | some host => dsimp only; cases List.lookup host _ <;> exact ⟨rfl, rfl, rfl⟩

theorem id_loadedNode : (loadedNode definition node).id = node.id := (loadedNode_keeps node).1

theorem type_loadedNode : (loadedNode definition node).type = node.type := (loadedNode_keeps node).2.1

theorem data_loadedNode : (loadedNode definition node).data = node.data := (loadedNode_keeps node).2.2

end

/-- **A boundary event of a sound graph is read from its host.** -/
theorem loadedNode_boundary (sound : Sound definition) {host : GraphNode ν}
    (isHost : host ∈ definition.nodes) (sits : SitsOn node host) :
    (loadedNode definition node).parent = some host.id ∧
      (loadedNode definition node).position = node.place - host.place := by
  obtain ⟨boundary, attached⟩ := sits
  have found := lookup_places sound isHost
  have read : loadedNode definition node =
      { id := node.id
        type := node.type
        position := node.place - host.place
        data := node.data
        parentId := some host.id
        extent := some (units "parent") } := by
    unfold loadedNode flowNode
    simp only [if_pos boundary, attached, found]
  rw [read]
  exact ⟨Option.filter_eq_some_iff.mpr ⟨rfl, by simpa using sound.named host isHost⟩, rfl⟩

theorem loadedNode_plain (definition : WorkflowDefinition ν)
    (plain : ¬ isBoundary node.type node.data) :
    (loadedNode definition node).parent = none ∧
      (loadedNode definition node).position = node.place := by
  have read : loadedNode definition node =
      { id := node.id, type := node.type, position := node.place, data := node.data } := by
    unfold loadedNode flowNode
    rw [if_neg plain]
  rw [read]
  exact ⟨rfl, rfl⟩

theorem isSome_parent_loadedNode (sound : Sound definition) (member : node ∈ definition.nodes) :
    (loadedNode definition node).parent.isSome = isBoundary node.type node.data := by
  cases boundary : isBoundary node.type node.data with
  | true =>
    obtain ⟨host, isHost, attached⟩ := sound.attached node member boundary
    rw [(loadedNode_boundary sound isHost ⟨boundary, attached⟩).1, Option.isSome_some]
  | false => rw [(loadedNode_plain definition (by simp [boundary])).1, Option.isSome_none]

theorem lookup_byId (sound : Sound definition) (member : node ∈ definition.nodes) :
    (mapOf ((toReactFlow definition).1.map fun node => (node.id, node))).lookup node.id =
      some (loadedNode definition node) := by
  have sameIds : (definition.nodes.map (loadedNode definition)).map Node.id =
      definition.nodes.map GraphNode.id := by
    rw [map_map]
    exact map_congr_left fun node _ => id_loadedNode node
  have nodup : (((toReactFlow definition).1.map fun node => (node.id, node)).map Prod.fst).Nodup := by
    rw [map_map, nodes_toReactFlow sound]
    exact ((Lib.Nesting.rootsFirst_perm.map Node.id).nodup_iff).mpr (sameIds ▸ sound.nodup)
  have isEntry : ((loadedNode definition node).id, loadedNode definition node) ∈
      (toReactFlow definition).1.map fun node => (node.id, node) := by
    rw [nodes_toReactFlow sound]
    exact mem_map.mpr ⟨_, Lib.Nesting.mem_rootsFirst.mpr (mem_map_of_mem member), rfl⟩
  have found := lookup_of_mem_nodup nodup isEntry
  rw [id_loadedNode] at found
  rwa [mapOf_of_nodup nodup]

def writtenPlace (definition : WorkflowDefinition ν) (node : GraphNode ν) : Position :=
  savedPosition (mapOf ((toReactFlow definition).1.map fun node => (node.id, node)))
    (loadedNode definition node)

theorem writtenPlace_plain (plain : ¬ isBoundary node.type node.data) :
    writtenPlace definition node = node.place := by
  obtain ⟨isRoot, same⟩ := loadedNode_plain definition plain
  rwa [writtenPlace, savedPosition, isRoot]

theorem writtenPlace_boundary (sound : Sound definition) {host : GraphNode ν}
    (isHost : host ∈ definition.nodes) (sits : SitsOn node host) :
    writtenPlace definition node =
      node.place - host.place + (loadedNode definition host).position := by
  obtain ⟨hangs, same⟩ := loadedNode_boundary sound isHost sits
  rw [writtenPlace, savedPosition, hangs, Option.bind_some, lookup_byId sound isHost, same]

theorem rounded_writtenPlace_iff (sound : Sound definition) :
    (∀ node ∈ definition.nodes, rounded (writtenPlace definition node) = rounded node.place) ↔
      FlatHosts definition := by
  constructor
  · intro kept node member host isHost base isBase sits further
    have same := kept node member
    rw [writtenPlace_boundary sound isHost sits, (loadedNode_boundary sound isBase further).2] at same
    rwa [sub_add_sub_cancel] at same
  · intro flat node member
    by_cases boundary : isBoundary node.type node.data
    · obtain ⟨host, isHost, attached⟩ := sound.attached node member boundary
      have sits : SitsOn node host := ⟨boundary, attached⟩
      rw [writtenPlace_boundary sound isHost sits]
      by_cases further : isBoundary host.type host.data
      · obtain ⟨base, isBase, onBase⟩ := sound.attached host isHost further
        rw [(loadedNode_boundary sound isBase ⟨further, onBase⟩).2, sub_add_sub_cancel]
        exact flat node member host isHost base isBase sits ⟨further, onBase⟩
      · rw [(loadedNode_plain definition further).2, sub_add_cancel]
    · rw [writtenPlace_plain boundary]

def writtenNode (definition : WorkflowDefinition ν) (node : GraphNode ν) : GraphNode ν :=
  { node with position := some (rounded (writtenPlace definition node)) }

theorem toDefinition_toReactFlow (sound : Sound definition) :
    toDefinition (toReactFlow definition).1 (toReactFlow definition).2 =
      some
        { schemaVersion := some schemaVersion
          nodes := ((definition.nodes.filter fun node => !isBoundary node.type node.data) ++
            definition.nodes.filter fun node => isBoundary node.type node.data).map
              (writtenNode definition)
          edges := definition.edges } := by
  have saved : ∀ node ∈ definition.nodes,
      savedNode (mapOf ((toReactFlow definition).1.map fun node => (node.id, node)))
        (loadedNode definition node) = some (writtenNode definition node) := by
    intro node member
    unfold savedNode
    rw [type_loadedNode, if_pos (sound.known node member), id_loadedNode, data_loadedNode]
    rfl
  have roots : ∀ node ∈ definition.nodes,
      ((fun node => (canvas.parent node).isNone) ∘ loadedNode definition) node =
        !isBoundary node.type node.data := by
    intro node member
    rw [← isSome_parent_loadedNode sound member, Option.not_isSome]
    rfl
  have hanging : ∀ node ∈ definition.nodes,
      ((fun node => (canvas.parent node).isSome) ∘ loadedNode definition) node =
        isBoundary node.type node.data :=
    fun node member => isSome_parent_loadedNode sound member
  have ordered : (toReactFlow definition).1 =
      ((definition.nodes.filter fun node => !isBoundary node.type node.data) ++
        definition.nodes.filter fun node => isBoundary node.type node.data).map
          (loadedNode definition) := by
    rw [nodes_toReactFlow sound, Nesting.rootsFirst, filter_map, filter_map,
      filter_congr roots, filter_congr hanging, map_append]
  have written : (toReactFlow definition).1.mapM
      (savedNode (mapOf ((toReactFlow definition).1.map fun node => (node.id, node)))) =
        some (((definition.nodes.filter fun node => !isBoundary node.type node.data) ++
          definition.nodes.filter fun node => isBoundary node.type node.data).map
            (writtenNode definition)) := by
    generalize mapOf ((toReactFlow definition).1.map fun node => (node.id, node)) = byId at saved ⊢
    rw [ordered]
    refine mapM_map_of_eq fun node member => saved node ?_
    rcases mem_append.mp member with plain | boundary
    · exact mem_of_mem_filter plain
    · exact mem_of_mem_filter boundary
  have edges : ((toReactFlow definition).2).map savedEdge = definition.edges := by
    rw [toReactFlow, map_map]
    exact map_id _
  unfold toDefinition
  simp only [written, edges]
  rfl

variable {nodes : List (GraphNode ν)}

theorem filter_written (kind : Units → Fields ν → Bool)
    (ordered : (nodes.filter (fun node => !isBoundary node.type node.data) ++
        nodes.filter fun node => isBoundary node.type node.data).filter
          (fun node => kind node.type node.data) =
      nodes.filter fun node => kind node.type node.data) :
    ((nodes.filter (fun node => !isBoundary node.type node.data) ++
        nodes.filter fun node => isBoundary node.type node.data).map GraphNode.integral).filter
          (fun node => kind node.type node.data) =
      (nodes.filter fun node => kind node.type node.data).map GraphNode.integral := by
  rw [filter_map, ← ordered]
  rfl

theorem trigger_of_written :
    (nodes.filter (fun node => !isBoundary node.type node.data) ++
        nodes.filter fun node => isBoundary node.type node.data).filter
          (fun node => node.type = triggerType) =
      nodes.filter fun node => node.type = triggerType := by
  have plain : ∀ node : GraphNode ν, node.type = triggerType →
      isBoundary node.type node.data = false := by
    intro node isTrigger
    rw [isBoundary, isTrigger]
    rfl
  rw [filter_append, filter_filter, filter_filter]
  have none : nodes.filter (fun node => decide (node.type = triggerType) &&
      isBoundary node.type node.data) = [] := by
    refine filter_eq_nil_iff.mpr fun node _ both => ?_
    rw [Bool.and_eq_true, decide_eq_true_eq] at both
    rw [plain node both.1] at both
    exact Bool.false_ne_true both.2
  rw [none, append_nil]
  refine filter_congr fun node _ => ?_
  by_cases isTrigger : node.type = triggerType
  · rw [plain node isTrigger, Bool.not_false, Bool.and_true]
  · rw [decide_eq_false isTrigger, Bool.false_and]

theorem boundary_of_written :
    (nodes.filter (fun node => !isBoundary node.type node.data) ++
        nodes.filter fun node => isBoundary node.type node.data).filter
          (fun node => isBoundary node.type node.data) =
      nodes.filter fun node => isBoundary node.type node.data := by
  rw [filter_append, filter_filter, filter_filter]
  simp only [Bool.and_not_self, Bool.and_self, filter_false, nil_append]

/-- **A sound graph is written as it was read exactly if its hosts are flat.** -/
theorem roundTrips_iff (sound : Sound definition) :
    RoundTrips definition ↔ FlatHosts definition := by
  rw [← rounded_writtenPlace_iff sound]
  have split := filter_append_perm (fun node : GraphNode ν => !isBoundary node.type node.data)
    definition.nodes
  simp only [Bool.not_not] at split
  constructor
  · rintro ⟨saved, isSaved, perm, _⟩ node member
    rw [toDefinition_toReactFlow sound] at isSaved
    cases isSaved
    have isWritten : writtenNode definition node ∈ definition.nodes.map GraphNode.integral :=
      perm.subset (mem_map_of_mem (split.mem_iff.mpr member))
    obtain ⟨other, isOther, same⟩ := mem_map.mp isWritten
    have sameId : other.integral.id = (writtenNode definition node).id :=
      congrArg GraphNode.id same
    obtain rfl := inj_on_of_nodup_map sound.nodup isOther member sameId
    exact (Option.some.inj (congrArg GraphNode.position same)).symm
  · intro kept
    have same : ∀ nodes : List (GraphNode ν), (∀ node ∈ nodes, node ∈ definition.nodes) →
        nodes.map (writtenNode definition) = nodes.map GraphNode.integral := fun nodes known =>
      map_congr_left fun node member => by
        rw [writtenNode, kept node (known node member)]
        rfl
    refine ⟨_, toDefinition_toReactFlow sound, ?_, ?_, ?_, rfl⟩
    · rw [same _ fun node member => split.mem_iff.mp member]
      exact split.map _
    · rw [same _ fun node member => split.mem_iff.mp member]
      exact filter_written (fun type _ => type = triggerType) trigger_of_written
    · rw [same _ fun node member => split.mem_iff.mp member]
      exact filter_written isBoundary boundary_of_written

end Loaded

end RedArchKM.Designer
