import RedArchKM.Designer.Store

/-!
# Copies on the canvas

What `insert` adds to a well formed state is a copy of the slab: the same nodes and edges under new
ids, with what refers to a copied node renamed. The state stays well formed exactly as far as each
host is copied too or is there (`WellFormed.insert`), and all nodes are moved by the offset if no
node is copied together with its parent (`isCopy_insert`): a place that is counted from a copied
parent is moved twice.
-/

namespace RedArchKM.Designer

open Lib (Nesting)
open Lib.JsonText List Option

variable {ν : Type}

/-! ## Well formed states -/

def Hangs (node : Node ν) (host : Units) : Prop :=
  node.parent = some host ∨ (isBoundary node.type node.data ∧ attachedTo node.data = some host)

structure WellFormed (state : DesignerState ν) : Prop where
  unique : state.ids.Nodup
  ends : ∀ edge ∈ state.edges, edge.source ∈ state.ids ∧ edge.target ∈ state.ids
  hosts : ∀ node ∈ state.nodes, ∀ host, Hangs node host → host ∈ state.ids
  first : canvas.ParentsFirst state.nodes

theorem WellFormed.descends {state : DesignerState ν} (wf : WellFormed state) :
    canvas.Descends state.nodes := wf.first.descends wf.unique

theorem wellFormed_of_descends {state : DesignerState ν} (unique : state.ids.Nodup)
    (ends : ∀ edge ∈ state.edges, edge.source ∈ state.ids ∧ edge.target ∈ state.ids)
    (hosts : ∀ node ∈ state.nodes, ∀ host, Hangs node host → host ∈ state.ids)
    (descends : canvas.Descends state.nodes) : WellFormed state where
  unique := unique
  ends := ends
  hosts := hosts
  first := descends.parentsFirst fun node member host hangs => hosts node member host (.inl hangs)

structure Copyable (state : DesignerState ν) (used : List Units) (slab : Slab ν) : Prop where
  unique : (slab.nodes.map Node.id).Nodup
  known : ∀ node ∈ slab.nodes, node.id ∈ used
  ends : ∀ edge ∈ slab.edges,
    edge.source ∈ slab.nodes.map Node.id ∧ edge.target ∈ slab.nodes.map Node.id
  descends : canvas.Descends slab.nodes
  hosts : ∀ node ∈ slab.nodes, ∀ host, Hangs node host →
    host ∈ slab.nodes.map Node.id ∨ host ∈ state.ids

structure Draws (used : List Units) (slab : Slab ν) (random edgeRandom : List Units) : Prop where
  enough : random.length = slab.nodes.length
  enoughEdges : edgeRandom.length = slab.edges.length
  unique : (newIds slab.nodes random).Nodup
  fresh : ∀ id ∈ newIds slab.nodes random, id ∉ used

/-! ## Copies -/

/-- What a node is, wherever it is. -/
structure Shape (ν : Type) where
  id : Units
  type : Units
  data : Fields ν
  parent : Option Units
  extent : Option Units

def Node.shape (node : Node ν) : Shape ν :=
  ⟨node.id, node.type, node.data, node.parent, node.extent⟩

/-- What an edge joins, and how. -/
structure Link where
  source : Units
  target : Units
  sourceHandle : Option Units
  targetHandle : Option Units
  type : Units
  style : Option Units

def Edge.link (edge : Edge) : Link :=
  ⟨edge.source, edge.target, edge.sourceHandle, edge.targetHandle, edge.type, edge.style⟩

section

variable (rename : Units → Units)

/-- `data` with what it is attached to renamed -/
def renamedData (data : Fields ν) : Fields ν :=
  match attachedTo data with
  | some host => put attachedKey (.string (rename host)) data
  | none => data

def Shape.renamed (shape : Shape ν) : Shape ν :=
  ⟨rename shape.id, shape.type, renamedData rename shape.data, shape.parent.map rename,
    shape.extent⟩

def Link.renamed (link : Link) : Link :=
  { link with source := rename link.source, target := rename link.target }

end

structure IsCopy (rename : Units → Units) (source before after : DesignerState ν)
    (offset : Position) : Prop where
  isNew : ∀ node ∈ source.selection.nodes, rename node.id ∉ before.ids
  injective : ∀ node ∈ source.selection.nodes, ∀ other ∈ source.selection.nodes,
    rename node.id = rename other.id → node.id = other.id
  others : ∀ id, id ∉ source.selection.nodes.map Node.id → rename id = id
  nodes : ∃ copies, after.nodes = before.nodes.map Node.deselected ++ copies ∧
    (copies.map Node.shape).Perm
      (source.selection.nodes.map fun node => node.shape.renamed rename)
  edges : ∃ copies, after.edges = before.edges ++ copies ∧
    copies.map Edge.link = source.selection.edges.map fun edge => edge.link.renamed rename
  moved : ∀ node ∈ source.selection.nodes, ∃ place, canvas.At source.nodes node.id place ∧
    canvas.At after.nodes (rename node.id) (place + offset)

def Kept (source state : DesignerState ν) : Prop :=
  ∀ node ∈ state.nodes, ∀ old ∈ source.nodes, node.id = old.id →
    node.parent = old.parent ∧ node.position = old.position

def RideAlone (nodes : List (Node ν)) : Prop :=
  ∀ node ∈ nodes, ∀ host, node.parent = some host → host ∉ nodes.map Node.id

/-! ## New ids -/

section Renaming

variable {nodes : List (Node ν)} {random : List Units}

theorem newNodeId_ne_nil (start random : Units) : newNodeId start random ≠ [] := by
  intro same
  have empty := (append_eq_nil_iff.mp (append_eq_nil_iff.mp same).1).2
  cases empty

theorem newIds_ne_nil : ∀ id ∈ newIds nodes random, id ≠ [] := by
  intro id isNew
  rw [newIds, ← List.map_uncurry_zip_eq_zipWith] at isNew
  obtain ⟨pair, _, rfl⟩ := mem_map.mp isNew
  exact newNodeId_ne_nil _ _

theorem lookup_zip {keys values : List Units} (nodup : keys.Nodup)
    (same : values.length = keys.length) :
    keys.map (fun key => (keys.zip values).lookup key) = values.map some := by
  induction keys generalizing values with
  | nil => rw [length_eq_zero_iff.mp same]; rfl
  | cons key keys ih =>
    obtain ⟨value, values, rfl⟩ := exists_cons_of_length_eq_add_one same
    obtain ⟨isNew, nodup⟩ := nodup_cons.mp nodup
    rw [map_cons, map_cons, zip_cons_cons, lookup_cons_self, ← ih nodup (Nat.succ_injective same)]
    refine congrArg _ (List.map_congr_left fun other isOther => ?_)
    have apart : other ≠ key := by
      rintro rfl
      exact isNew isOther
    rw [lookup_cons, beq_false_of_ne apart]

theorem length_newIds (enough : random.length = nodes.length) :
    (newIds nodes random).length = nodes.length := by
  rw [newIds, length_zipWith, enough, Nat.min_self]

section

variable (unique : (nodes.map Node.id).Nodup) (enough : random.length = nodes.length)

include unique enough

theorem idMapOf_eq : idMapOf nodes random = (nodes.map Node.id).zip (newIds nodes random) := by
  refine mapOf_of_nodup ?_
  rwa [map_fst_zip (by rw [length_map, length_newIds enough])]

/-- **The copied nodes get the new ids, one after the other.** -/
theorem lookup_idMapOf : (nodes.map Node.id).map (fun id => (idMapOf nodes random).lookup id) =
      (newIds nodes random).map some := by
  rw [idMapOf_eq unique enough]
  exact lookup_zip unique (by rw [length_newIds enough, length_map])

end

variable {id : Units}

theorem renamed_of_lookup {idMap : List (Units × Units)} {fresh : Units}
    (found : idMap.lookup id = some fresh) : renamed idMap id = fresh := by
  rw [renamed, found, getD_some]

section

variable (unique : (nodes.map Node.id).Nodup) (enough : random.length = nodes.length)

include unique enough

theorem lookup_of_copied (isId : id ∈ nodes.map Node.id) :
    (idMapOf nodes random).lookup id = some (renamed (idMapOf nodes random) id) := by
  have isSome : (idMapOf nodes random).lookup id ∈ (newIds nodes random).map some :=
    lookup_idMapOf unique enough ▸ mem_map_of_mem isId
  obtain ⟨fresh, _, isFresh⟩ := mem_map.mp isSome
  rw [← isFresh, renamed_of_lookup isFresh.symm]

theorem map_renamed :
    (nodes.map Node.id).map (renamed (idMapOf nodes random)) = newIds nodes random := by
  have some_renamed : (nodes.map Node.id).map (fun id => some (renamed (idMapOf nodes random) id)) =
      (newIds nodes random).map some := by
    rw [← lookup_idMapOf unique enough]
    exact List.map_congr_left fun id isId => (lookup_of_copied unique enough isId).symm
  refine List.map_injective_iff.mpr (Option.some_injective Units) ?_
  rw [← some_renamed, List.map_map]
  rfl

theorem lookup_of_not_copied (other : id ∉ nodes.map Node.id) :
    (idMapOf nodes random).lookup id = none := by
  rw [idMapOf_eq unique enough]
  refine lookup_eq_none_iff.mpr fun pair isPair => bne_iff_ne.mpr fun same => other ?_
  rw [same]
  exact (of_mem_zip isPair).1

theorem renamed_of_not_copied (other : id ∉ nodes.map Node.id) :
    renamed (idMapOf nodes random) id = id := by
  rw [renamed, lookup_of_not_copied unique enough other, getD_none]

theorem renamed_mem (isId : id ∈ nodes.map Node.id) :
    renamed (idMapOf nodes random) id ∈ newIds nodes random :=
  map_renamed unique enough ▸ mem_map_of_mem isId

theorem renamed_injective (fresh : (newIds nodes random).Nodup) {other : Units}
    (isId : id ∈ nodes.map Node.id) (isOther : other ∈ nodes.map Node.id)
    (same : renamed (idMapOf nodes random) id = renamed (idMapOf nodes random) other) :
    id = other :=
  inj_on_of_nodup_map ((map_renamed unique enough).symm ▸ fresh) isId isOther same

end

end Renaming

/-! ## Copied nodes -/

section Cloned

variable {idMap : List (Units × Units)} {offset : Position} {node : Node ν}

theorem parent_clonedNode (offset : Position) (node : Node ν)
    (named : ∀ id fresh, idMap.lookup id = some fresh → fresh ≠ []) :
    (clonedNode idMap offset node).parent = node.parent.map (renamed idMap) := by
  cases isHost : node.parent with
  | none =>
    rwa [clonedNode, isHost]
  | some host =>
    cases found : idMap.lookup host with
    | none =>
      have same : (clonedNode idMap offset node).parentId = node.parentId := by
        simp only [clonedNode, isHost, bind_some, found]
      rw [Node.parent, same, ← Node.parent, isHost, map_some, renamed, found, getD_none]
    | some fresh =>
      have same : (clonedNode idMap offset node).parentId = some fresh := by
        simp only [clonedNode, isHost, bind_some, found]
      rw [Node.parent, same, map_some, renamed_of_lookup found]
      exact filter_eq_some_iff.mpr ⟨rfl, by simpa using named host fresh found⟩

theorem lookup_of_attachedTo {data : Fields ν} {host : Units} (attached : attachedTo data = some host) :
    data.lookup attachedKey = some (.string host) := by
  unfold attachedTo at attached
  split at attached
  · rename_i found
    rw [found, some.inj attached]
  · cases attached

theorem data_clonedNode :
    (clonedNode idMap offset node).data = renamedData (renamed idMap) node.data := by
  unfold clonedNode renamedData
  cases attached : attachedTo node.data with
  | none => rfl
  | some host =>
    cases found : idMap.lookup host with
    | none =>
      simp only [bind_some, found, renamed, getD_none]
      exact (put_of_lookup (lookup_of_attachedTo attached)).symm
    | some fresh => simp only [bind_some, found, renamed, getD_some]

theorem attachedTo_renamedData (rename : Units → Units) (data : Fields ν) :
    attachedTo (renamedData rename data) = (attachedTo data).map rename := by
  cases attached : attachedTo data with
  | none => rw [renamedData, attached]; exact attached
  | some host =>
    simp only [renamedData, attached]
    rw [attachedTo, lookup_put, if_pos rfl]
    rfl

theorem isBoundary_renamedData (rename : Units → Units) (type : Units) (data : Fields ν) :
    isBoundary type (renamedData rename data) = isBoundary type data := by
  unfold renamedData
  cases attachedTo data with
  | none => rfl
  | some host =>
    have apart : units "position" ≠ attachedKey := by decide
    simp only [isBoundary, reads, lookup_put, if_neg apart]

theorem hangs_clonedNode (named : ∀ id fresh, idMap.lookup id = some fresh → fresh ≠ [])
    {host : Units} (hangs : Hangs (clonedNode idMap offset node) host) :
    ∃ old, Hangs node old ∧ host = renamed idMap old := by
  rcases hangs with byParent | ⟨boundary, attached⟩
  · rw [parent_clonedNode _ _ named] at byParent
    obtain ⟨old, isOld, rfl⟩ := map_eq_some_iff.mp byParent
    exact ⟨old, .inl isOld, rfl⟩
  · rw [data_clonedNode, attachedTo_renamedData] at attached
    obtain ⟨old, isOld, rfl⟩ := map_eq_some_iff.mp attached
    rw [data_clonedNode] at boundary
    exact ⟨old, .inr ⟨isBoundary_renamedData _ _ _ ▸ boundary, isOld⟩, rfl⟩

end Cloned

/-! ## Inserted slabs -/

section Inserted

variable {state : DesignerState ν} {used : List Units} {slab : Slab ν} {offset : Position}
  {random edgeRandom : List Units}

def copies (slab : Slab ν) (offset : Position) (random : List Units) : List (Node ν) :=
  slab.nodes.map (clonedNode (idMapOf slab.nodes random) offset)

theorem mem_nodes_insert {node : Node ν} :
    node ∈ (state.insert slab offset random edgeRandom).nodes ↔
      (∃ old ∈ state.nodes, old.deselected = node) ∨ node ∈ copies slab offset random := by
  refine mem_append.trans (or_congr mem_map ?_)
  exact Nesting.mem_rootsFirst

theorem ids_copies (offset : Position) (copyable : Copyable state used slab)
    (draws : Draws used slab random edgeRandom) :
    (copies slab offset random).map Node.id = newIds slab.nodes random := by
  rw [copies, ← map_renamed copyable.unique draws.enough, List.map_map, List.map_map]
  rfl

section

variable (copyable : Copyable state used slab) (draws : Draws used slab random edgeRandom)

include copyable draws

theorem ids_insert_perm : (state.insert slab offset random edgeRandom).ids.Perm
      (state.ids ++ newIds slab.nodes random) := by
  have split : (state.insert slab offset random edgeRandom).ids =
      state.ids ++ (canvas.rootsFirst (copies slab offset random)).map Node.id := by
    have old : (state.nodes.map Node.deselected).map Node.id = state.ids := by
      rw [List.map_map]
      rfl
    rw [← old, ← List.map_append]
    rfl
  rw [split, ← ids_copies offset copyable draws]
  exact (Nesting.rootsFirst_perm.map Node.id).append_left _

theorem mem_ids_insert {id : Units} : id ∈ (state.insert slab offset random edgeRandom).ids ↔
      id ∈ state.ids ∨ id ∈ newIds slab.nodes random :=
  (ids_insert_perm copyable draws).mem_iff.trans mem_append

theorem named_idMapOf :
    ∀ id fresh, (idMapOf slab.nodes random).lookup id = some fresh → fresh ≠ [] := by
  intro id fresh found
  by_cases isId : id ∈ slab.nodes.map Node.id
  · rw [lookup_of_copied copyable.unique draws.enough isId] at found
    exact newIds_ne_nil fresh (some.inj found ▸ renamed_mem copyable.unique draws.enough isId)
  · rw [lookup_of_not_copied copyable.unique draws.enough isId] at found
    cases found

theorem renamed_mem_insert {id : Units} (isId : id ∈ slab.nodes.map Node.id) :
    renamed (idMapOf slab.nodes random) id ∈ (state.insert slab offset random edgeRandom).ids :=
  (mem_ids_insert copyable draws).mpr (.inr (renamed_mem copyable.unique draws.enough isId))

end

theorem descends_copies (copyable : Copyable state used slab) (known : ∀ id ∈ state.ids, id ∈ used)
    (draws : Draws used slab random edgeRandom) : canvas.Descends (copies slab offset random) := by
  refine copyable.descends.map fun earlier isEarlier node isNode hangs => ?_
  have named := named_idMapOf copyable draws
  change (clonedNode _ _ earlier).parent = some (renamed _ node.id) at hangs
  rw [parent_clonedNode _ _ named] at hangs
  obtain ⟨host, isHost, same⟩ := map_eq_some_iff.mp hangs
  have isId : node.id ∈ slab.nodes.map Node.id := mem_map_of_mem isNode
  by_cases isCopied : host ∈ slab.nodes.map Node.id
  · exact isHost.trans (congrArg some
      (renamed_injective copyable.unique draws.enough draws.unique isCopied isId same))
  · rw [renamed_of_not_copied copyable.unique draws.enough isCopied] at same
    have isThere := (copyable.hosts earlier isEarlier host (.inl isHost)).resolve_left isCopied
    exact absurd (known host isThere)
      (draws.fresh host (same ▸ renamed_mem copyable.unique draws.enough isId))

/-- **A well formed state stays well formed when a slab is copied into it.** -/
theorem WellFormed.insert (wf : WellFormed state) (known : ∀ id ∈ state.ids, id ∈ used)
    (copyable : Copyable state used slab) (draws : Draws used slab random edgeRandom) :
    WellFormed (state.insert slab offset random edgeRandom) := by
  have named := named_idMapOf copyable draws
  have inOld {id : Units} (isOld : id ∈ state.ids) :
      id ∈ (state.insert slab offset random edgeRandom).ids :=
    (mem_ids_insert copyable draws).mpr (.inl isOld)
  refine wellFormed_of_descends ?_ ?_ ?_ ?_
  · rw [(ids_insert_perm copyable draws).nodup_iff]
    refine nodup_append.mpr ⟨wf.unique, draws.unique, fun id isOld other isNew same => ?_⟩
    exact draws.fresh other isNew (same ▸ known id isOld)
  · intro edge isEdge
    rcases mem_append.mp isEdge with isOld | isNew
    · exact ⟨inOld (wf.ends edge isOld).1, inOld (wf.ends edge isOld).2⟩
    · change edge ∈ List.zipWith _ _ _ at isNew
      rw [← List.map_uncurry_zip_eq_zipWith] at isNew
      obtain ⟨pair, isPair, rfl⟩ := mem_map.mp isNew
      obtain ⟨isSource, isTarget⟩ := copyable.ends pair.1 (of_mem_zip isPair).1
      exact ⟨renamed_mem_insert copyable draws isSource, renamed_mem_insert copyable draws isTarget⟩
  · intro node isNode host hangs
    rcases mem_nodes_insert.mp isNode with ⟨old, isOld, rfl⟩ | isCopy
    · exact inOld (wf.hosts old isOld host hangs)
    · obtain ⟨old, isOld, rfl⟩ := mem_map.mp isCopy
      obtain ⟨host, isHost, rfl⟩ := hangs_clonedNode named hangs
      by_cases isCopied : host ∈ slab.nodes.map Node.id
      · exact renamed_mem_insert copyable draws isCopied
      · rw [renamed_of_not_copied copyable.unique draws.enough isCopied]
        exact inOld ((copyable.hosts old isOld host isHost).resolve_left isCopied)
  · have old : canvas.Descends (state.nodes.map Node.deselected) :=
      wf.descends.map fun _ _ _ _ hangs => hangs
    refine old.append (descends_copies copyable known draws).rootsFirst ?_
    intro node isNode copy isCopy hangs
    obtain ⟨before, isBefore, rfl⟩ := mem_map.mp isNode
    have isNew : canvas.id copy ∈ newIds slab.nodes random := by
      rw [← ids_copies offset copyable draws]
      exact mem_map_of_mem (Nesting.mem_rootsFirst.mp isCopy)
    exact draws.fresh _ isNew (known _ (wf.hosts before isBefore _ (.inl hangs)))

end Inserted

section Moved

variable {source state : DesignerState ν} {used : List Units} {offset : Position}
  {random edgeRandom : List Units}

theorem mem_selection {node : Node ν} (unique : source.ids.Nodup) (member : node ∈ source.nodes)
    (isChosen : node.id ∈ source.selection.nodes.map Node.id) : node ∈ source.selection.nodes := by
  obtain ⟨chosen, isSelected, same⟩ := mem_map.mp isChosen
  rwa [← inj_on_of_nodup_map unique (mem_of_mem_filter isSelected) member same]

theorem at_insert (wf : WellFormed state) (kept : Kept source state) {slab : Slab ν} {host : Units}
    (isThere : host ∈ state.ids) {place : Position} (isAt : canvas.At source.nodes host place) :
    canvas.At (state.insert slab offset random edgeRandom).nodes host place := by
  refine isAt.kept (fun old isOld isInside => ?_) isThere
  obtain ⟨node, isNode, same⟩ := mem_map.mp isInside
  obtain ⟨sameParent, samePlace⟩ := kept node isNode old isOld same
  refine ⟨⟨node.deselected, mem_nodes_insert.mpr (.inl ⟨node, isNode, rfl⟩), same, sameParent,
    samePlace⟩, fun above hangs => ?_⟩
  exact wf.hosts node isNode above (.inl (sameParent.trans hangs))

/-- **All copies are moved by the offset, unless a node is copied with its parent.** -/
theorem moved_insert (wfSource : WellFormed source) (wf : WellFormed state)
    (kept : Kept source state) (copyable : Copyable state used source.selection)
    (draws : Draws used source.selection random edgeRandom)
    (still : offset = 0 ∨ RideAlone source.selection.nodes) :
    ∀ node ∈ source.selection.nodes, ∃ place, canvas.At source.nodes node.id place ∧
      canvas.At (state.insert source.selection offset random edgeRandom).nodes
        (renamed (idMapOf source.selection.nodes random) node.id) (place + offset) := by
  intro node isChosen
  have isNode : node ∈ source.nodes := mem_of_mem_filter isChosen
  obtain ⟨place, isAt⟩ := Nesting.exists_at wfSource.first (Nesting.mem_ids isNode)
  refine ⟨place, isAt, isAt.copied (fun item member isInside => ?_) (mem_map_of_mem isChosen)⟩
  have isItem := mem_selection wfSource.unique member isInside
  refine ⟨_, mem_nodes_insert.mpr (.inr (mem_map_of_mem isItem)), rfl, rfl, ?_⟩
  have renamedParent := parent_clonedNode offset item (named_idMapOf copyable draws)
  cases hangs : item.parent with
  | none => exact .root hangs (renamedParent.trans (by rw [hangs, map_none]))
  | some above =>
    rw [hangs, map_some] at renamedParent
    by_cases isCopied : above ∈ source.selection.nodes.map Node.id
    · refine .inside above hangs isCopied renamedParent (still.resolve_right fun alone => ?_)
      exact alone item isItem above hangs isCopied
    · rw [renamed_of_not_copied copyable.unique draws.enough isCopied] at renamedParent
      refine .outside above hangs renamedParent fun place isAt => at_insert wf kept ?_ isAt
      exact (copyable.hosts item isItem above (.inl hangs)).resolve_left isCopied

/-- **What is inserted is a copy.** -/
theorem isCopy_insert (wfSource : WellFormed source) (wf : WellFormed state)
    (known : ∀ id ∈ state.ids, id ∈ used) (kept : Kept source state)
    (copyable : Copyable state used source.selection)
    (draws : Draws used source.selection random edgeRandom)
    (still : offset = 0 ∨ RideAlone source.selection.nodes) :
    IsCopy (renamed (idMapOf source.selection.nodes random)) source state
      (state.insert source.selection offset random edgeRandom) offset where
  isNew node isNode isOld :=
    draws.fresh _ (renamed_mem copyable.unique draws.enough (mem_map_of_mem isNode)) (known _ isOld)
  injective node isNode other isOther same :=
    renamed_injective copyable.unique draws.enough draws.unique (mem_map_of_mem isNode)
      (mem_map_of_mem isOther) same
  others id other := renamed_of_not_copied copyable.unique draws.enough other
  nodes := by
    refine ⟨_, rfl, (Nesting.rootsFirst_perm.map Node.shape).trans ?_⟩
    rw [List.map_map]
    refine Perm.of_eq (List.map_congr_left fun node _ => ?_)
    rw [Function.comp_apply, Node.shape, parent_clonedNode _ _ (named_idMapOf copyable draws),
      data_clonedNode]
    rfl
  edges := by
    refine ⟨_, rfl, ?_⟩
    change (List.zipWith _ _ _).map _ = _
    have each : (source.selection.edges.zip edgeRandom).map Prod.fst = source.selection.edges :=
      map_fst_zip (by rw [draws.enoughEdges])
    have links := congrArg (List.map fun edge : Edge =>
      edge.link.renamed (renamed (idMapOf source.selection.nodes random))) each
    rw [List.map_map] at links
    rwa [← List.map_uncurry_zip_eq_zipWith, List.map_map]
  moved := moved_insert wfSource wf kept copyable draws still

end Moved

end RedArchKM.Designer
