import RedArchKM.Designer.Copies

/-!
# Safe operations of the store

An operation is safe if what it adds hangs from nodes that are there (`Safe`): a pasted boundary
event finds its host, no copied node is moved twice, and a deletion finds, in its one pass, all that
hangs from what it deletes. A safe operation keeps a session coherent (`Coherent.perform`).
-/

namespace RedArchKM.Designer

open Lib (Nesting)
open Lib.JsonText List

variable {ν : Type}

/-! ## Deletion -/

inductive Below (nodes : List (Node ν)) (ids : List Units) : Units → Prop where
  | listed {id : Units} (isListed : id ∈ ids) : Below nodes ids id
  | hanging {node : Node ν} {host : Units} (member : node ∈ nodes) (hangs : Hangs node host)
      (isBelow : Below nodes ids host) : Below nodes ids node.id

/-- What hangs from a deleted node is a boundary event that is attached to it, and comes later. -/
def Prunable (nodes : List (Node ν)) (ids : List Units) : Prop :=
  ∀ before node after, nodes = before ++ node :: after → node.id ∉ ids →
    ∀ host, Hangs node host → Below nodes ids host →
      isBoundary node.type node.data ∧ attachedTo node.data = some host ∧
        (host ∈ ids ∨ host ∈ before.map Node.id)

section Cascade

variable {nodes : List (Node ν)} {ids doomed : List Units}

theorem subset_doom (node : Node ν) : doomed ⊆ doom doomed node := by
  intro id isDoomed
  unfold doom
  cases attachedTo node.data with
  | none => exact isDoomed
  | some host =>
    dsimp only
    split_ifs
    · exact mem_cons_of_mem _ isDoomed
    · exact isDoomed

theorem mem_doom {node : Node ν} {host : Units} (boundary : isBoundary node.type node.data)
    (attached : attachedTo node.data = some host) (goes : host ∈ doomed) :
    node.id ∈ doom doomed node := by
  simp only [doom, attached, boundary, goes, and_self, if_true]
  exact mem_cons_self

theorem doom_cases {id : Units} {node : Node ν} (isDoomed : id ∈ doom doomed node) :
    id ∈ doomed ∨ (id = node.id ∧ ∃ host ∈ doomed, Hangs node host) := by
  unfold doom at isDoomed
  cases attached : attachedTo node.data with
  | none =>
    simp only [attached] at isDoomed
    exact .inl isDoomed
  | some host =>
    simp only [attached] at isDoomed
    split_ifs at isDoomed with goes
    · rcases mem_cons.mp isDoomed with same | already
      · exact .inr ⟨same, host, goes.2, .inr ⟨goes.1, attached⟩⟩
      · exact .inl already
    · exact .inl isDoomed

theorem subset_foldl_doom : doomed ⊆ nodes.foldl doom doomed := by
  induction nodes generalizing doomed with
  | nil => exact Subset.refl _
  | cons node rest ih => exact Subset.trans (subset_doom node) ih

theorem below_of_mem_foldl {all : List (Node ν)} (known : ∀ node ∈ nodes, node ∈ all)
    (below : ∀ id ∈ doomed, Below all ids id) :
    ∀ id ∈ nodes.foldl doom doomed, Below all ids id := by
  induction nodes generalizing doomed with
  | nil => exact below
  | cons node rest ih =>
    refine ih (fun other member => known other (mem_cons_of_mem _ member)) fun id isDoomed => ?_
    rcases doom_cases isDoomed with already | ⟨rfl, host, isHost, hangs⟩
    · exact below id already
    · exact .hanging (known node mem_cons_self) hangs (below host isHost)

theorem mem_of_mem_foldl {id : Units} (isDoomed : id ∈ nodes.foldl doom doomed)
    (other : id ∉ nodes.map Node.id) : id ∈ doomed := by
  induction nodes generalizing doomed with
  | nil => exact isDoomed
  | cons node rest ih =>
    rw [map_cons, mem_cons, not_or] at other
    rcases doom_cases (ih isDoomed other.2) with already | ⟨same, _⟩
    · exact already
    · exact absurd same other.1

/-- **What stays hangs from nothing that is deleted.** -/
theorem cascaded_closed (unique : (nodes.map Node.id).Nodup) (prunable : Prunable nodes ids)
    {node : Node ν} (member : node ∈ nodes) (stays : node.id ∉ cascaded nodes ids) {host : Units}
    (hangs : Hangs node host) : host ∉ cascaded nodes ids := by
  intro isDoomed
  have isBelow := below_of_mem_foldl (fun _ member => member) (fun _ => .listed) host isDoomed
  have notListed : node.id ∉ ids := fun isListed => stays (subset_foldl_doom isListed)
  obtain ⟨before, after, split⟩ := append_of_mem member
  obtain ⟨boundary, attached, earlier⟩ :=
    prunable before node after split notListed host hangs isBelow
  have isEarlier : host ∈ before.foldl doom ids := by
    rcases earlier with isListed | isBefore
    · exact subset_foldl_doom isListed
    · refine mem_of_mem_foldl (?_ : host ∈ (node :: after).foldl doom _) fun isLater => ?_
      · rwa [← foldl_append, ← split]
      · rw [split, map_append] at unique
        exact (nodup_append.mp unique).2.2 host isBefore host isLater rfl
  apply stays
  rw [cascaded, split, foldl_append, foldl_cons]
  exact subset_foldl_doom (mem_doom boundary attached isEarlier)

end Cascade

/-! ## Safe operations -/

/-- What is attached by the data of a node is there. -/
def Attaches (state : DesignerState ν) (type : Units) (data : Fields ν) : Prop :=
  isBoundary type data → ∀ host, attachedTo data = some host → host ∈ state.ids

/-- The operations that do no harm. -/
def Safe (state : DesignerState ν) : Operation ν → Prop
  | .addNode type _ dataOverride _ => ∀ data, dataOverride = some data → Attaches state type data
  | .updateNodeData id data =>
    ∀ node ∈ state.nodes, node.id = id → Attaches state node.type data
  | .deleteNodes ids => Prunable state.nodes ids
  | .paste offset _ _ =>
    ∀ slab, state.clipboard = some slab →
      (∀ node ∈ slab.nodes, ∀ host, Hangs node host →
        host ∈ slab.nodes.map Node.id ∨ host ∈ state.ids) ∧
      (offset = 0 ∨ RideAlone slab.nodes)
  | .duplicateSelection _ _ => RideAlone state.selection.nodes
  | _ => True

/-! ## What is kept -/

/-- What holds at every point of a session. -/
structure Coherent (session : Session ν) : Prop where
  wellFormed : WellFormed session.state
  known : ∀ id ∈ session.state.ids, id ∈ session.used
  clipboard : session.state.clipboard = session.origin.map DesignerState.selection
  origin : ∀ source, session.origin = some source → WellFormed source ∧
    source.selection.nodes ≠ [] ∧ (∀ id ∈ source.ids, id ∈ session.used) ∧
      Kept source session.state

section Steps

variable {state : DesignerState ν} {edges : List Edge} {clipboard : Option (Slab ν)}

theorem kept_self (unique : state.ids.Nodup) : Kept state state := by
  intro node isNode old isOld same
  obtain rfl := inj_on_of_nodup_map unique isNode isOld same
  exact ⟨rfl, rfl⟩

theorem ids_remap {f : Node ν → Node ν} (sameId : ∀ node, (f node).id = node.id) :
    DesignerState.ids { nodes := state.nodes.map f, edges := edges, clipboard := clipboard } =
      state.ids := by
  rw [DesignerState.ids, map_map]
  exact map_congr_left fun node _ => sameId node

theorem WellFormed.remap (wf : WellFormed state) {f : Node ν → Node ν}
    (sameId : ∀ node, (f node).id = node.id) (sameParent : ∀ node, (f node).parent = node.parent)
    (hosts : ∀ node ∈ state.nodes, ∀ host, Hangs (f node) host → host ∈ state.ids)
    (ends : ∀ edge ∈ edges, edge.source ∈ state.ids ∧ edge.target ∈ state.ids) :
    WellFormed { nodes := state.nodes.map f, edges := edges, clipboard := clipboard } := by
  refine wellFormed_of_descends ?_ ?_ ?_ ?_
  · rw [ids_remap sameId]
    exact wf.unique
  · rwa [ids_remap sameId]
  · intro node member host hangs
    obtain ⟨old, isOld, rfl⟩ := mem_map.mp member
    rw [ids_remap sameId]
    exact hosts old isOld host hangs
  · refine wf.descends.map fun earlier _ item _ hangs => ?_
    change (f earlier).parent = some (f item).id at hangs
    rw [sameParent, sameId] at hangs
    exact hangs

theorem Kept.remap {source : DesignerState ν} (kept : Kept source state) {f : Node ν → Node ν}
    (sameId : ∀ node, (f node).id = node.id) (sameParent : ∀ node, (f node).parent = node.parent)
    (samePlace : ∀ node, (f node).position = node.position) :
    Kept source { nodes := state.nodes.map f, edges := edges, clipboard := clipboard } := by
  intro node member old isOld same
  obtain ⟨before, isBefore, rfl⟩ := mem_map.mp member
  rw [sameParent, samePlace]
  exact kept before isBefore old isOld ((sameId before).symm.trans same)

theorem reselected_eq (changes : List (Units × Bool)) (node : Node ν) :
    ∃ selected, node.reselected changes = { node with selected := selected } := by
  induction changes generalizing node with
  | nil => exact ⟨node.selected, rfl⟩
  | cons change rest ih =>
    obtain ⟨selected, same⟩ :=
      ih (if change.1 = node.id then { node with selected := change.2 } else node)
    refine ⟨selected, same.trans ?_⟩
    split_ifs <;> rfl

end Steps

/-! ## One operation -/

section Perform

variable {session : Session ν}

variable {state : DesignerState ν} {edgeRandom random : List Units}

theorem copyable_selection {source : DesignerState ν} {used : List Units} (wf : WellFormed source)
    (known : ∀ id ∈ source.ids, id ∈ used)
    (hosts : ∀ node ∈ source.selection.nodes, ∀ host, Hangs node host →
      host ∈ source.selection.nodes.map Node.id ∨ host ∈ state.ids) :
    Copyable state used source.selection where
  unique := (filter_sublist.map Node.id).nodup wf.unique
  known node member := known node.id (mem_map_of_mem (mem_of_mem_filter member))
  ends _ member := of_decide_eq_true (mem_filter.mp member).2
  descends := wf.descends.sublist filter_sublist
  hosts := hosts

theorem Kept.insert {source : DesignerState ν} {used : List Units} {slab : Slab ν}
    {offset : Position} (kept : Kept source state) (known : ∀ id ∈ source.ids, id ∈ used)
    (copyable : Copyable state used slab) (draws : Draws used slab random edgeRandom) :
    Kept source (state.insert slab offset random edgeRandom) := by
  intro node member old isOld same
  rcases mem_nodes_insert.mp member with ⟨before, isBefore, rfl⟩ | isCopy
  · exact kept before isBefore old isOld same
  · have isNew : node.id ∈ newIds slab.nodes random :=
      ids_copies offset copyable draws ▸ mem_map_of_mem isCopy
    exact absurd (known old.id (mem_map_of_mem isOld)) (same ▸ draws.fresh node.id isNew)

/-- A coherent session after a step that changes neither clipboard nor ids that are used. -/
theorem Coherent.of_state (coherent : Coherent session) {drawn : List Units} (wf : WellFormed state)
    (known : ∀ id ∈ state.ids, id ∈ drawn ++ session.used)
    (sameClipboard : state.clipboard = session.state.clipboard)
    (kept : ∀ source, session.origin = some source → Kept source state) :
    Coherent ⟨state, drawn ++ session.used, session.origin⟩ where
  wellFormed := wf
  known := known
  clipboard := sameClipboard.trans coherent.clipboard
  origin source isOrigin := by
    obtain ⟨wfSource, isSome, knownSource, _⟩ := coherent.origin source isOrigin
    exact ⟨wfSource, isSome, fun id isId => mem_append_right _ (knownSource id isId),
      kept source isOrigin⟩

variable {flow : FlowLibrary} {number : Nat → ν}

theorem isBoundary_defaultData (number : Nat → ν) (type : Units) :
    isBoundary type (defaultData number type) = false := by
  unfold isBoundary
  by_cases isEvent : type = eventType
  · subst isEvent
    rfl
  · rw [decide_eq_false isEvent, Bool.false_and]

theorem Coherent.addNode (coherent : Coherent session) {type : Units} {position : Position}
    {data : Fields ν} {random : Units} (isNew : newNodeId type random ∉ session.used)
    (attaches : Attaches session.state type data) :
    Coherent ⟨session.state.addNode type position data random,
      [newNodeId type random] ++ session.used, session.origin⟩ := by
  have wf := coherent.wellFormed
  have ids : (session.state.addNode type position data random).ids =
      session.state.ids ++ [newNodeId type random] := map_append
  have isOld {id : Units} (isId : id ∈ session.state.ids) :
      id ∈ (session.state.addNode type position data random).ids :=
    ids ▸ mem_append_left _ isId
  refine coherent.of_state (wellFormed_of_descends ?_ ?_ ?_ ?_) ?_ rfl ?_
  · rw [ids]
    refine nodup_append.mpr ⟨wf.unique, nodup_singleton _, fun id isId other isOther => ?_⟩
    rw [mem_singleton.mp isOther]
    exact fun same => isNew (same ▸ coherent.known id isId)
  · exact fun edge member => ⟨isOld (wf.ends edge member).1, isOld (wf.ends edge member).2⟩
  · intro node member host hangs
    rcases mem_append.mp member with isThere | isAdded
    · exact isOld (wf.hosts node isThere host hangs)
    · obtain rfl := mem_singleton.mp isAdded
      rcases hangs with byParent | ⟨boundary, attached⟩
      · cases byParent
      · exact isOld (attaches boundary host attached)
  · refine wf.descends.append (Nesting.descends_of_roots fun node isAdded => ?_) ?_
    · rw [mem_singleton.mp isAdded]
      rfl
    · intro node member other isAdded hangs
      rw [mem_singleton.mp isAdded] at hangs
      exact isNew (coherent.known _ (wf.hosts node member _ (.inl hangs)))
  · intro id isId
    rw [ids] at isId
    rcases mem_append.mp isId with isThere | isAdded
    · exact mem_append_right _ (coherent.known id isThere)
    · exact mem_append_left _ isAdded
  · intro source isOrigin node member old isOldNode same
    obtain ⟨_, _, knownSource, kept⟩ := coherent.origin source isOrigin
    rcases mem_append.mp member with isThere | isAdded
    · exact kept node isThere old isOldNode same
    · rw [mem_singleton.mp isAdded] at same
      exact absurd (knownSource old.id (mem_map_of_mem isOldNode)) (same ▸ isNew)

theorem Coherent.deleteNodes (coherent : Coherent session) {ids : List Units}
    (prunable : Prunable session.state.nodes ids) :
    Coherent ⟨session.state.deleteNodes ids, [] ++ session.used, session.origin⟩ := by
  have wf := coherent.wellFormed
  have fewer : (session.state.deleteNodes ids).nodes.Sublist session.state.nodes :=
    filter_sublist
  have stays {id : Units} (isId : id ∈ session.state.ids)
      (isKept : id ∉ cascaded session.state.nodes ids) :
      id ∈ (session.state.deleteNodes ids).ids := by
    obtain ⟨node, member, rfl⟩ := mem_map.mp isId
    exact mem_map_of_mem (mem_filter.mpr ⟨member, decide_eq_true isKept⟩)
  refine coherent.of_state (wellFormed_of_descends ?_ ?_ ?_ (wf.descends.sublist fewer)) ?_ rfl ?_
  · exact (fewer.map Node.id).nodup wf.unique
  · intro edge member
    obtain ⟨isEdge, isKept⟩ := mem_filter.mp member
    obtain ⟨isSource, isTarget⟩ := wf.ends edge isEdge
    obtain ⟨keepsSource, keepsTarget⟩ := of_decide_eq_true isKept
    exact ⟨stays isSource keepsSource, stays isTarget keepsTarget⟩
  · intro node member host hangs
    obtain ⟨isNode, isKept⟩ := mem_filter.mp member
    exact stays (wf.hosts node isNode host hangs)
      (cascaded_closed wf.unique prunable isNode (of_decide_eq_true isKept) hangs)
  · exact fun id isId => coherent.known id ((fewer.map Node.id).subset isId)
  · intro source isOrigin node member
    exact (coherent.origin source isOrigin).2.2.2 node (fewer.subset member)

theorem Coherent.insert (coherent : Coherent session) {slab : Slab ν} {offset : Position}
    (copyable : Copyable session.state session.used slab)
    (draws : Draws session.used slab random edgeRandom) :
    Coherent ⟨session.state.insert slab offset random edgeRandom,
      newIds slab.nodes random ++ session.used, session.origin⟩ := by
  refine coherent.of_state (coherent.wellFormed.insert coherent.known copyable draws) ?_ rfl ?_
  · intro id isId
    rcases (mem_ids_insert copyable draws).mp isId with isThere | isNew
    · exact mem_append_right _ (coherent.known id isThere)
    · exact mem_append_left _ isNew
  · intro source isOrigin
    obtain ⟨_, _, knownSource, kept⟩ := coherent.origin source isOrigin
    exact kept.insert knownSource copyable draws

theorem draws_of_allows {slab : Slab ν}
    (enough : random.length = slab.nodes.length ∧ edgeRandom.length = slab.edges.length)
    (isNew : (newIds slab.nodes random).Nodup ∧ ∀ id ∈ newIds slab.nodes random, id ∉ session.used) :
    Draws session.used slab random edgeRandom :=
  ⟨enough.1, enough.2, isNew.1, isNew.2⟩

section

variable (coherent : Coherent session)

include coherent

theorem Coherent.copyable_origin {source : DesignerState ν}
    (isOrigin : session.origin = some source)
    (hosts : ∀ node ∈ source.selection.nodes, ∀ host, Hangs node host →
      host ∈ source.selection.nodes.map Node.id ∨ host ∈ session.state.ids) :
    Copyable session.state session.used source.selection := by
  obtain ⟨wf, _, known, _⟩ := coherent.origin source isOrigin
  exact copyable_selection wf known hosts

theorem Coherent.copyable_self : Copyable session.state session.used session.state.selection :=
  copyable_selection coherent.wellFormed coherent.known fun node member host hangs =>
    .inr (coherent.wellFormed.hosts node (mem_of_mem_filter member) host hangs)

theorem Coherent.remap {f : Node ν → Node ν} {edges : List Edge}
    (sameId : ∀ node, (f node).id = node.id) (sameParent : ∀ node, (f node).parent = node.parent)
    (samePlace : ∀ node, (f node).position = node.position)
    (hosts : ∀ node ∈ session.state.nodes, ∀ host, Hangs (f node) host → host ∈ session.state.ids)
    (ends : ∀ edge ∈ edges, edge.source ∈ session.state.ids ∧ edge.target ∈ session.state.ids) :
    Coherent
      ⟨{ nodes := session.state.nodes.map f, edges := edges, clipboard := session.state.clipboard },
        [] ++ session.used, session.origin⟩ := by
  refine coherent.of_state (coherent.wellFormed.remap sameId sameParent hosts ends) ?_ rfl ?_
  · rw [ids_remap sameId]
    exact coherent.known
  · exact fun source isOrigin =>
      (coherent.origin source isOrigin).2.2.2.remap sameId sameParent samePlace

theorem Coherent.withEdges {edges : List Edge}
    (ends : ∀ edge ∈ edges, edge.source ∈ session.state.ids ∧ edge.target ∈ session.state.ids) :
    Coherent ⟨{ session.state with edges := edges }, [] ++ session.used, session.origin⟩ :=
  coherent.of_state
    { unique := coherent.wellFormed.unique
      ends := ends
      hosts := coherent.wellFormed.hosts
      first := coherent.wellFormed.first }
    coherent.known rfl fun source isOrigin => (coherent.origin source isOrigin).2.2.2

theorem Coherent.copySelection : Coherent (session.perform flow number .copySelection) := by
  change Coherent ⟨session.state.copySelection, [] ++ session.used, _⟩
  unfold DesignerState.copySelection
  by_cases isEmpty : session.state.selection.nodes = []
  · simp only [if_pos isEmpty]
    exact coherent
  · simp only [if_neg isEmpty]
    exact
      { wellFormed :=
          { unique := coherent.wellFormed.unique
            ends := coherent.wellFormed.ends
            hosts := coherent.wellFormed.hosts
            first := coherent.wellFormed.first }
        known := coherent.known
        clipboard := rfl
        origin := by
          intro source isOrigin
          cases isOrigin
          exact ⟨coherent.wellFormed, isEmpty, coherent.known,
            kept_self coherent.wellFormed.unique⟩ }

/-- **A safe operation keeps a session coherent.** -/
theorem Coherent.perform (lawful : flow.Lawful) {operation : Operation ν}
    (allowed : session.Allows operation) (safe : Safe session.state operation) :
    Coherent (session.perform flow number operation) := by
  have wf := coherent.wellFormed
  cases operation with
  | addNode type position dataOverride random =>
    refine coherent.addNode (allowed.2.2 _ (mem_singleton_self _)) ?_
    cases dataOverride with
    | none =>
      intro boundary
      rw [Option.getD_none, isBoundary_defaultData] at boundary
      cases boundary
    | some data => exact safe data rfl
  | onConnect connection random =>
    refine coherent.withEdges fun edge member => ?_
    rcases lawful.ends_addEdge _ _ edge member with isOld | ⟨isSource, isTarget⟩
    · exact wf.ends edge isOld
    · rwa [isSource, isTarget]
  | updateNodeData id data =>
    refine coherent.remap (fun node => ?_) (fun node => ?_) (fun node => ?_) ?_ wf.ends
    · split_ifs <;> rfl
    · split_ifs <;> rfl
    · split_ifs <;> rfl
    · intro node member host hangs
      split_ifs at hangs with isIt
      · rcases hangs with byParent | ⟨boundary, attached⟩
        · exact wf.hosts node member host (.inl byParent)
        · exact safe node member isIt boundary host attached
      · exact wf.hosts node member host hangs
  | deleteNodes ids => exact coherent.deleteNodes safe
  | deleteEdges ids =>
    exact coherent.withEdges fun edge member => wf.ends edge (mem_of_mem_filter member)
  | selectNode id =>
    refine coherent.remap (fun _ => rfl) (fun _ => rfl) (fun _ => rfl)
      (fun node member host hangs => wf.hosts node member host hangs) fun edge member => ?_
    obtain ⟨old, isOld, rfl⟩ := mem_map.mp member
    exact wf.ends old isOld
  | onSelect changes =>
    refine coherent.remap (fun node => ?_) (fun node => ?_) (fun node => ?_)
      (fun node member host hangs => ?_) wf.ends
    all_goals obtain ⟨selected, same⟩ := reselected_eq changes node
    · rw [same]
    · rw [same]; rfl
    · rw [same]
    · rw [same] at hangs
      exact wf.hosts node member host hangs
  | copySelection => exact coherent.copySelection
  | paste offset random edgeRandom =>
    obtain ⟨enough, isNew⟩ := allowed
    cases isOrigin : session.origin with
    | none =>
      have isEmpty := coherent.clipboard
      rw [isOrigin, Option.map_none] at isEmpty
      simp only [Session.perform, DesignerState.perform, DesignerState.paste, DesignerState.drawn,
        isEmpty]
      exact coherent
    | some source =>
      have isFull := coherent.clipboard
      rw [isOrigin, Option.map_some] at isFull
      obtain ⟨_, isSome, _⟩ := coherent.origin source isOrigin
      simp only [DesignerState.DrawsEnough, DesignerState.drawn, isFull] at enough isNew
      simp only [Session.perform, DesignerState.perform, DesignerState.paste, DesignerState.drawn,
        isFull, if_neg isSome]
      exact coherent.insert (coherent.copyable_origin isOrigin (safe _ isFull).1)
        (draws_of_allows enough isNew)
  | duplicateSelection random edgeRandom =>
    obtain ⟨enough, isNew⟩ := allowed
    by_cases isEmpty : session.state.selection.nodes = []
    · simp only [Session.perform, DesignerState.perform, DesignerState.duplicateSelection,
        DesignerState.drawn, isEmpty]
      exact coherent
    · simp only [Session.perform, DesignerState.perform, DesignerState.duplicateSelection,
        DesignerState.drawn, if_neg isEmpty]
      exact coherent.insert coherent.copyable_self (draws_of_allows enough isNew)

end

end Perform

end RedArchKM.Designer
