import RedArchKM.Access.DimensionNumbers
import RedArchKM.Access.FolderUpdate

/-!
# What a scoped key reads with

A key with assignments reads with the masks of its own dimensions, public content included, and,
if it lists folders, within their subtrees as far as the masks see them. The subtrees are
resolved from a part of the tree: the subtrees and the ways up from the listed folders. That part
decides visibility as the whole tree does (`isVisible_subtreeRows`).
-/

namespace RedArchKM.Access

open Lib Lib.Ancestry List

/-! ## Resolving a key -/

def withUnrestricted (masks : List Nat) : List Nat :=
  publicMask :: masks.filter fun mask => mask ≠ publicMask

/-- What a key is assigned, with the org it belongs to. -/
inductive Assignment where
  | dimension (kind : DimensionKind) (permissionNumber : Nat) (orgId : Option Nat)
  | folder (folderId : Nat) (orgId : Option Nat)

def Assignment.orgId : Assignment → Option Nat
  | .dimension _ _ orgId => orgId
  | .folder _ orgId => orgId

def Assignment.number (kind : DimensionKind) : Assignment → Option Nat
  | .dimension kind' permissionNumber _ => if kind' = kind then some permissionNumber else none
  | .folder _ _ => none

def Assignment.listedFolder : Assignment → Option Nat
  | .dimension _ _ _ => none
  | .folder folderId _ => some folderId

structure ApiKey where
  orgId : Nat
  isScoped : Bool
  assignments : List Assignment

inductive KeyScopeError where
  | notScoped
  | noAssignments
  | outsideOrg
  | orgNotFound
  | tooManyAccessMasks (detail : String)

/-- What a scoped key reads with. Public content is always among it. -/
structure KeyScope where
  masks : List Nat
  folderIds : Option (List Nat)
  public_mem : publicMask ∈ masks

section

variable (folders : List Folder)

def subtreeIds (rootIds : List Nat) : List Nat :=
  Reach.reachable (childEdges folders) ((folders.map Folder.id).filter fun id => id ∈ rootIds)

/-- The folders that a resolution of subtrees loads: the subtrees and the ways up from them. -/
def subtreeRows (rootIds : List Nat) : List Folder :=
  folders.filter fun folder =>
    folder.id ∈ subtreeIds folders rootIds ++ ancestorIds folders rootIds

/-- The listed folders and every descendant, each with whether the masks may see it. -/
def visibleSubtrees (rootIds masks : List Nat) : List (Nat × Bool) :=
  let rows := subtreeRows folders rootIds
  (rows.filter fun folder => folder.id ∈ subtreeIds folders rootIds).map fun folder =>
    (folder.id, isVisible folder rows masks)

end

/-- The masks and folder set a scoped key reads with. -/
def resolveKeyScope (orgNumber : Option Nat) (folders : List Folder) (apiKey : ApiKey) :
    Except KeyScopeError KeyScope :=
  if !apiKey.isScoped then .error .notScoped
  else if apiKey.assignments.isEmpty then .error .noAssignments
  else if apiKey.assignments.any fun row => row.orgId ≠ some apiKey.orgId then .error .outsideOrg
  else
    match orgNumber with
    | none => .error .orgNotFound
    | some orgNumber =>
      let numbers kind := apiKey.assignments.filterMap (Assignment.number kind)
      let listed := apiKey.assignments.filterMap Assignment.listedFolder
      match masksOfNumbers orgNumber numbers with
      | .error detail => .error (.tooManyAccessMasks detail)
      | .ok own =>
        let masks := withUnrestricted own
        .ok {
          masks := masks
          folderIds :=
            if listed.isEmpty then none
            else
              some (((visibleSubtrees folders listed masks).filter fun entry => entry.2).map
                Prod.fst)
          public_mem := mem_cons_self .. }

/-! ## The loaded part decides visibility -/

variable {folders : List Folder}

theorem edge_childEdges {parentId id : Nat} :
    Reach.Edge (childEdges folders) parentId id ↔ Reach.Edge (parentEdges folders) id parentId := by
  simp [Reach.Edge, childEdges]

section

variable (unique : (folders.map Folder.id).Nodup)

include unique

theorem parentId_mem_subtreeRows {rootIds : List Nat} {folder : Folder} {parentId : Nat}
    (member : folder ∈ folders)
    (loaded : folder.id ∈ subtreeIds folders rootIds ++ ancestorIds folders rootIds)
    (link : folder.parentId = some parentId) :
    parentId ∈ subtreeIds folders rootIds ++ ancestorIds folders rootIds := by
  have up : Reach.Edge (parentEdges folders) folder.id parentId :=
    edge_parentEdges.mpr ⟨folder, member, rfl, link⟩
  rcases mem_append.mp loaded with below | above
  · obtain ⟨rootId, listed, reaches⟩ := Reach.mem_reachable.mp below
    rcases reaches.cases_tail with same | ⟨otherId, before, edge⟩
    · -- A listed folder: its parent lies on the way up from it.
      have isRoot : rootId ∈ rootIds := by
        simpa using (mem_filter.mp listed).2
      exact mem_append_right _ (Reach.mem_reachable.mpr ⟨rootId, isRoot, .single (same ▸ up)⟩)
    · obtain ⟨child, childMember, sameId, childLink⟩ :=
        edge_parentEdges.mp (edge_childEdges.mp edge)
      obtain rfl := inj_on_of_nodup_map unique childMember member sameId
      obtain rfl : parentId = otherId := Option.some.inj (link.symm.trans childLink)
      exact mem_append_left _ (Reach.mem_reachable.mpr ⟨rootId, listed, before⟩)
  · obtain ⟨rootId, isRoot, reaches⟩ := Reach.mem_reachable.mp above
    exact mem_append_right _ (Reach.mem_reachable.mpr ⟨rootId, isRoot, reaches.tail up⟩)

theorem covers_subtreeRows {rootIds : List Nat} {folder : Folder}
    (loaded : folder ∈ subtreeRows folders rootIds) :
    Covers folders (subtreeRows folders rootIds) folder where
  subset := filter_subset_self _
  above := by
    intro ancestor ancestorMember reaches
    refine mem_filter.mpr ⟨ancestorMember, decide_eq_true ?_⟩
    -- Up from a loaded folder, every id is among those that are loaded.
    have upward : ∀ {id : Nat}, Reach.Reaches (parentEdges folders) folder.id id →
        id ∈ subtreeIds folders rootIds ++ ancestorIds folders rootIds := by
      intro id reaches
      induction reaches with
      | refl => exact of_decide_eq_true (mem_filter.mp loaded).2
      | tail _ edge ih =>
        obtain ⟨child, childMember, rfl, link⟩ := edge_parentEdges.mp edge
        exact parentId_mem_subtreeRows unique childMember ih link
    exact upward reaches

/-- **The loaded part of the folders decides visibility as the whole does.** -/
theorem isVisible_subtreeRows {rootIds masks : List Nat} {folder : Folder}
    (loaded : folder ∈ subtreeRows folders rootIds) :
    isVisible folder (subtreeRows folders rootIds) masks = isVisible folder folders masks := by
  rw [isVisible, isVisible, effectiveMasksByParent_of_covers unique (mem_filter.mp loaded).1
    (covers_subtreeRows unique loaded)]

end

theorem visible_of_mem_folderIds {orgNumber : Option Nat} (wellFormed : WellFormed folders)
    {apiKey : ApiKey} {scope : KeyScope}
    (resolved : resolveKeyScope orgNumber folders apiKey = .ok scope) {folderIds : List Nat}
    (limited : scope.folderIds = some folderIds) {folderId : Nat} (member : folderId ∈ folderIds) :
    ∃ folder ∈ folders, folder.id = folderId ∧ isVisible folder folders scope.masks = true := by
  unfold resolveKeyScope at resolved
  split at resolved
  · cases resolved
  split at resolved
  · cases resolved
  split at resolved
  · cases resolved
  split at resolved
  · cases resolved
  dsimp only at resolved
  split at resolved
  · cases resolved
  cases resolved
  split at limited
  · cases limited
  cases limited
  obtain ⟨⟨id, visible⟩, kept, rfl⟩ := mem_map.mp member
  obtain ⟨listed, isTrue⟩ := mem_filter.mp kept
  obtain ⟨folder, row, same⟩ := mem_map.mp listed
  obtain ⟨rfl, rfl⟩ := Prod.mk.injEq .. ▸ same
  have loaded := (mem_filter.mp row).1
  exact ⟨folder, (mem_filter.mp loaded).1, rfl,
    isVisible_subtreeRows wellFormed.ids_nodup loaded ▸ isTrue⟩

end RedArchKM.Access
