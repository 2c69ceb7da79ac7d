import RedArchKM.Designer.StoreSteps

/-!
# Sessions of the designer

A session starts from a stored graph without errors. The loaded state is well formed exactly if
every boundary event that sits on a boundary event comes after it (`wellFormed_opened_iff`), and the
graph is written back as it was exactly if such an event's host is at the origin of its own host.
From there, every run of safe operations stays well formed, and each paste and each duplicate adds a
copy of what was selected that is moved as a whole (`sessionsKeepGraph`). A boundary event that is
pasted after its host was deleted hangs from nothing.
-/

namespace RedArchKM.Designer

open Lib (Nesting)
open Lib.JsonText List

variable {ν : Type}

/-! ## Loaded graphs -/

section

variable (definition : WorkflowDefinition ν)

def boundaryHost (node : GraphNode ν) : Option Units :=
  if isBoundary node.type node.data then
    (attachedTo node.data).filter fun host =>
      definition.nodes.any fun other => other.id = host && isBoundary other.type other.data
  else none

def stored : Nesting (GraphNode ν) Units Position :=
  ⟨GraphNode.id, boundaryHost definition, GraphNode.place⟩

/-- A boundary event that sits on a boundary event comes after it. -/
def HostsFirst : Prop :=
  (stored definition).ParentsFirst definition.nodes

end

section Opened

variable {definition : WorkflowDefinition ν}

theorem boundaryHost_eq_some {node : GraphNode ν} {host : Units} :
    boundaryHost definition node = some host ↔
      isBoundary node.type node.data ∧ attachedTo node.data = some host ∧
        ∃ other ∈ definition.nodes, other.id = host ∧ isBoundary other.type other.data := by
  unfold boundaryHost
  by_cases boundary : isBoundary node.type node.data = true
  · rw [if_pos boundary, Option.filter_eq_some_iff]
    simp only [boundary, true_and, any_eq_true, Bool.and_eq_true, decide_eq_true_eq]
  · rw [if_neg boundary]
    exact ⟨nofun, fun sits => absurd sits.1 boundary⟩

section

variable (sound : Sound definition)

include sound

theorem ids_opened : (opened definition).state.ids.Perm (definition.nodes.map GraphNode.id) := by
  change ((toReactFlow definition).1.map Node.id).Perm _
  rw [nodes_toReactFlow sound]
  refine (Nesting.rootsFirst_perm.map Node.id).trans (Perm.of_eq ?_)
  rw [map_map]
  exact map_congr_left fun node _ => id_loadedNode node

theorem mem_opened {node : Node ν} : node ∈ (opened definition).state.nodes ↔
      ∃ old ∈ definition.nodes, loadedNode definition old = node := by
  change node ∈ (toReactFlow definition).1 ↔ _
  rw [nodes_toReactFlow sound, Nesting.mem_rootsFirst, mem_map]

theorem hangs_loadedNode {node : GraphNode ν} (member : node ∈ definition.nodes) {host : Units}
    (hangs : Hangs (loadedNode definition node) host) :
    isBoundary node.type node.data ∧ attachedTo node.data = some host := by
  rcases hangs with byParent | ⟨boundary, attached⟩
  · have boundary : isBoundary node.type node.data = true := by
      rw [← isSome_parent_loadedNode sound member, byParent, Option.isSome_some]
    obtain ⟨other, isOther, attached⟩ := sound.attached node member boundary
    have same := (loadedNode_boundary sound isOther ⟨boundary, attached⟩).1.symm.trans byParent
    rw [attached, Option.some.inj same]
    exact ⟨boundary, rfl⟩
  · rw [type_loadedNode, data_loadedNode] at boundary
    rw [data_loadedNode] at attached
    exact ⟨boundary, attached⟩

theorem descends_loaded_iff :
    canvas.Descends (opened definition).state.nodes ↔ HostsFirst definition := by
  have filtered : (definition.nodes.map (loadedNode definition)).filter
      (fun node => (canvas.parent node).isSome) =
        (definition.nodes.filter fun node => isBoundary node.type node.data).map
          (loadedNode definition) := by
    rw [filter_map]
    exact congrArg _ (filter_congr fun node member => isSome_parent_loadedNode sound member)
  have linked : ∀ earlier ∈ definition.nodes, ∀ item ∈ definition.nodes,
      isBoundary item.type item.data →
      (canvas.parent (loadedNode definition earlier) = some (loadedNode definition item).id ↔
        boundaryHost definition earlier = some item.id) := by
    intro earlier isEarlier item isItem boundary
    rw [id_loadedNode, boundaryHost_eq_some]
    constructor
    · intro hangs
      obtain ⟨isEvent, attached⟩ := hangs_loadedNode sound isEarlier (.inl hangs)
      exact ⟨isEvent, attached, item, isItem, rfl, boundary⟩
    · rintro ⟨isEvent, attached, _⟩
      exact (loadedNode_boundary sound isItem ⟨isEvent, attached⟩).1
  change canvas.Descends (toReactFlow definition).1 ↔ _
  rw [nodes_toReactFlow sound]
  constructor
  · intro descends
    have hanging := descends.sublist (sublist_append_right _ _)
    rw [filtered] at hanging
    refine Nesting.Descends.parentsFirst ⟨fun item isItem hangs => ?_, ?_⟩ ?_
    · obtain ⟨boundary, _⟩ := boundaryHost_eq_some.mp hangs
      exact hanging.irrefl _ (mem_map_of_mem (mem_filter.mpr ⟨isItem, boundary⟩))
        ((linked item isItem item isItem boundary).mpr hangs)
    · have later := pairwise_filter.mp (pairwise_map.mp hanging.later)
      refine later.imp_of_mem fun {earlier item} isEarlier isItem apart hangs => ?_
      obtain ⟨isEvent, _, other, isOther, same, boundary⟩ := boundaryHost_eq_some.mp hangs
      obtain rfl := inj_on_of_nodup_map sound.nodup isOther isItem same
      exact apart isEvent boundary ((linked earlier isEarlier other isItem boundary).mpr hangs)
    · intro item _ above hangs
      obtain ⟨_, _, other, isOther, rfl, _⟩ := boundaryHost_eq_some.mp hangs
      exact mem_map_of_mem isOther
  · intro first
    have descends : (stored definition).Descends definition.nodes := first.descends sound.nodup
    refine Nesting.descends_rootsFirst ?_
    rw [filtered]
    refine (descends.sublist filter_sublist).map fun earlier isEarlier item isItem hangs => ?_
    obtain ⟨isOld, _⟩ := mem_filter.mp isEarlier
    obtain ⟨isNode, boundary⟩ := mem_filter.mp isItem
    exact (linked earlier isOld item isNode boundary).mp hangs

/-- **A loaded graph is well formed exactly if hosts come first.** -/
theorem wellFormed_opened_iff : WellFormed (opened definition).state ↔ HostsFirst definition := by
  rw [← descends_loaded_iff sound]
  refine ⟨WellFormed.descends, fun descends => wellFormed_of_descends ?_ ?_ ?_ descends⟩
  · exact (ids_opened sound).nodup_iff.mpr sound.nodup
  · intro edge member
    obtain ⟨old, isOld, rfl⟩ := mem_map.mp member
    obtain ⟨isSource, isTarget⟩ := sound.ends old isOld
    exact ⟨(ids_opened sound).mem_iff.mpr isSource, (ids_opened sound).mem_iff.mpr isTarget⟩
  · intro node member host hangs
    obtain ⟨old, isOld, rfl⟩ := (mem_opened sound).mp member
    obtain ⟨boundary, attached⟩ := hangs_loadedNode sound isOld hangs
    obtain ⟨other, isOther, same⟩ := sound.attached old isOld boundary
    cases attached.symm.trans same
    exact (ids_opened sound).mem_iff.mpr (mem_map_of_mem isOther)

theorem coherent_opened (first : HostsFirst definition) : Coherent (opened definition) where
  wellFormed := (wellFormed_opened_iff sound).mpr first
  known _ isId := (ids_opened sound).mem_iff.mp isId
  clipboard := rfl
  origin source isOrigin := by cases isOrigin

end

end Opened

/-! ## Runs -/

inductive Reached (flow : FlowLibrary) (number : Nat → ν)
    (condition : DesignerState ν → Operation ν → Prop) (start : Session ν) : Session ν → Prop where
  | start : Reached flow number condition start start
  | step {session : Session ν} {operation : Operation ν}
      (reached : Reached flow number condition start session) (allowed : session.Allows operation)
      (meets : condition session.state operation) :
      Reached flow number condition start (session.perform flow number operation)

def AddsCopy (session : Session ν) (after : DesignerState ν) : Operation ν → Prop
  | .paste offset _ _ => ∀ source, session.origin = some source →
      ∃ rename, IsCopy rename source session.state after offset
  | .duplicateSelection _ _ => session.state.selection.nodes ≠ [] →
      ∃ rename, IsCopy rename session.state session.state after dupOffset
  | _ => True

section Runs

variable {flow : FlowLibrary} {number : Nat → ν}

/-- **A safe paste or duplicate adds a copy.** -/
theorem Coherent.addsCopy {session : Session ν} (coherent : Coherent session)
    {operation : Operation ν} (allowed : session.Allows operation)
    (safe : Safe session.state operation) :
    AddsCopy session (session.state.perform flow number operation) operation := by
  cases operation with
  | paste offset random edgeRandom =>
    intro source isOrigin
    obtain ⟨enough, isNew⟩ := allowed
    obtain ⟨wfSource, isSome, _, kept⟩ := coherent.origin source isOrigin
    have isFull := coherent.clipboard
    rw [isOrigin, Option.map_some] at isFull
    simp only [DesignerState.DrawsEnough, DesignerState.drawn, isFull] at enough isNew
    simp only [DesignerState.perform, DesignerState.paste, isFull, if_neg isSome]
    exact ⟨_, isCopy_insert wfSource coherent.wellFormed coherent.known kept
      (coherent.copyable_origin isOrigin (safe _ isFull).1) (draws_of_allows enough isNew)
      (safe _ isFull).2⟩
  | duplicateSelection random edgeRandom =>
    intro isSome
    obtain ⟨enough, isNew⟩ := allowed
    simp only [DesignerState.perform, DesignerState.duplicateSelection, if_neg isSome]
    exact ⟨_, isCopy_insert coherent.wellFormed coherent.wellFormed coherent.known
      (kept_self coherent.wellFormed.unique) coherent.copyable_self
      (draws_of_allows enough isNew) (.inr safe)⟩
  | _ => trivial

/-- **Runs of safe operations keep a session coherent.** -/
theorem Reached.coherent {start session : Session ν} (lawful : flow.Lawful)
    (coherent : Coherent start) (reached : Reached flow number Safe start session) :
    Coherent session := by
  induction reached with
  | start => exact coherent
  | step _ allowed safe ih => exact ih.perform lawful allowed safe

end Runs

/-- In every session that is reached, the graph is well formed, the clipboard is what was selected
where it was filled, and every paste and duplicate adds a copy. -/
def KeepsGraph (flow : FlowLibrary) (number : Nat → ν)
    (condition : DesignerState ν → Operation ν → Prop) (definition : WorkflowDefinition ν) : Prop :=
  ∀ session, Reached flow number condition (opened definition) session →
    WellFormed session.state ∧
      session.state.clipboard = session.origin.map DesignerState.selection ∧
      ∀ operation, session.Allows operation → condition session.state operation →
        AddsCopy session (session.state.perform flow number operation) operation

/-- **Sessions keep the graph under safe operations if hosts come first, and a loaded graph is
written as it was read exactly if its hosts are flat.** -/
theorem sessionsKeepGraph {flow : FlowLibrary} (lawful : flow.Lawful) (number : Nat → ν)
    {stringOf : Value ν → Units} {definition : WorkflowDefinition ν}
    (valid : graphErrors stringOf definition = []) :
    (KeepsGraph flow number Safe definition ↔ HostsFirst definition) ∧
      (RoundTrips definition ↔ FlatHosts definition) := by
  have sound := sound_of_no_errors valid
  refine ⟨⟨fun keeps => ?_, fun first session reached => ?_⟩, roundTrips_iff sound⟩
  · exact (wellFormed_opened_iff sound).mp (keeps _ .start).1
  · have coherent := reached.coherent lawful (coherent_opened sound first)
    exact ⟨coherent.wellFormed, coherent.clipboard, fun operation => coherent.addsCopy⟩

/-! ## A boundary event without its host -/

/-- An edge is added unless the same handles are joined already. -/
def addOnce : FlowLibrary where
  addEdge edge edges :=
    if edges.any fun other => other.source = edge.source && other.target = edge.target &&
        other.sourceHandle = edge.sourceHandle && other.targetHandle = edge.targetHandle then edges
    else edges ++ [edge]

theorem lawful_addOnce : addOnce.Lawful where
  ends_addEdge edge edges added member := by
    unfold addOnce at member
    dsimp only at member
    split_ifs at member
    · exact .inl member
    · rcases mem_append.mp member with isOld | isNew
      · exact .inl isOld
      · rw [mem_singleton.mp isNew]
        exact .inr ⟨rfl, rfl⟩

/-- `String(value)`, of a text -/
def plainText : Value (Option Nat) → Units
  | .string text => text
  | _ => []

/-- A user task with a timer. -/
def approval : WorkflowDefinition (Option Nat) where
  schemaVersion := some 2
  nodes :=
    [⟨units "start", triggerType, some (0, 0), []⟩,
      ⟨units "approve", taskType, some (100, 100), [(units "task_type", .string (units "user"))]⟩,
      ⟨units "late", eventType, some (140, 150),
        [(units "position", .string (units "boundary")),
          (units "event_type", .string (units "timer")),
          (attachedKey, .string (units "approve"))]⟩,
      ⟨units "done", eventType, some (100, 300), [(units "position", .string (units "end"))]⟩]
  edges :=
    [⟨units "e1", units "start", units "approve", none⟩,
      ⟨units "e2", units "approve", units "done", none⟩]

theorem sessionsKeepGraph_approval :
    KeepsGraph addOnce some Safe approval ∧ RoundTrips approval := by
  obtain ⟨keeps, roundTrips⟩ :=
    sessionsKeepGraph lawful_addOnce some
      (by decide : graphErrors plainText approval = [])
  refine ⟨keeps.mpr ?_, roundTrips.mpr ?_⟩
  · have none : ∀ node ∈ approval.nodes, boundaryHost approval node = none := by decide
    intro before node after split host hangs
    have member : node ∈ approval.nodes := split ▸ mem_append_right _ mem_cons_self
    exact absurd ((none node member).symm.trans hangs) nofun
  · have plain : ∀ node ∈ approval.nodes, ∀ host ∈ approval.nodes,
        attachedTo node.data = some host.id → isBoundary host.type host.data = false := by decide
    intro node isNode host isHost base _ sits further
    exact absurd further.1 (by rw [plain node isNode host isHost sits.2]; exact Bool.false_ne_true)

/-- The timer is copied alone, its task is deleted, and the timer is pasted. -/
def orphaned : Session (Option Nat) :=
  ((((opened approval).perform addOnce some (.onSelect [(units "late", true)])).perform addOnce
    some .copySelection).perform addOnce some (.deleteNodes [units "approve"])).perform addOnce
      some (.paste dupOffset [units "k3x"] [])

theorem not_keepsGraph_approval :
    graphErrors plainText approval = [] ∧
      ¬ KeepsGraph addOnce some (fun _ _ => True) approval := by
  refine ⟨by decide, fun keeps => ?_⟩
  have reached : Reached addOnce some (fun _ _ => True) (opened approval) orphaned := by
    refine .step (.step (.step (.step .start ?_ ?_) ?_ ?_) ?_ ?_) ?_ ?_
    · exact ⟨trivial, nodup_nil, nofun⟩
    · trivial
    · exact ⟨trivial, nodup_nil, nofun⟩
    · trivial
    · exact ⟨trivial, nodup_nil, nofun⟩
    · trivial
    · exact ⟨⟨rfl, rfl⟩, by decide, by decide⟩
    · trivial
  have hosts := (keeps _ reached).1.hosts
  have isOrphan : ∃ node ∈ orphaned.state.nodes,
      node.parent = some (units "approve") ∧ units "approve" ∉ orphaned.state.ids := by decide
  obtain ⟨node, member, hangs, missing⟩ := isOrphan
  exact missing (hosts node member _ (.inl hangs))

end RedArchKM.Designer
