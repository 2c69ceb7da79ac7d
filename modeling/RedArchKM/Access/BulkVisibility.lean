import Mathlib.Data.List.Sort
import RedArchKM.Access.KeyScope

/-!
# Resolving permissions in bulk

A listing resolves the masks of every folder from one map of all of them, a key scope from the
subtrees and the ways up from its folders, and a single folder is resolved from its ancestors. All
find the same masks, on any parent links that the folders may have, cycles and missing parents
included (`resolutions_agree`).
-/

namespace RedArchKM.Access

open Lib List

section

variable (folders : List Folder)

/-- The folders visible to the masks (all of them for an admin) in the order of their paths, one page
of them if asked, and how many there are. -/
def listVisibleToMasks (userMasks : Option (List Nat)) (offset limit : Option Nat) :
    List Folder × Nat :=
  let allFolders := folders.mergeSort fun first second => first.dotPath ≤ second.dotPath
  let visible := match userMasks with
    | none => allFolders
    | some masks => allFolders.filter fun folder => isVisible folder allFolders masks
  let fromOffset := match offset with
    | none => visible
    | some offset => visible.drop offset
  (match limit with
    | none => fromOffset
    | some limit => fromOffset.take limit, visible.length)

def ListedFor (masks : List Nat) (folder : Folder) : Prop :=
  folder ∈ (listVisibleToMasks folders (some masks) none none).1

def Below (rootIds : List Nat) (folder : Folder) : Prop :=
  ∃ root ∈ folders, root.id ∈ rootIds ∧ Reach.Reaches (childEdges folders) root.id folder.id

end

/-- What is promised of the folders of an org. -/
structure ResolutionsAgree (folders : List Folder) : Prop where
  bulk : ∀ folder ∈ folders, ∀ byId, Covers folders byId folder →
    effectiveMasksByParent folder byId = effectiveViewMasks folders (some folder)
  subtrees : ∀ rootIds masks id visible, (id, visible) ∈ visibleSubtrees folders rootIds masks ↔
    ∃ folder ∈ folders, folder.id = id ∧ Below folders rootIds folder ∧
      (visible = true ↔ ListedFor folders masks folder)
  once : ∀ rootIds masks, ((visibleSubtrees folders rootIds masks).map Prod.fst).Nodup

section Folders

variable {folders : List Folder} (unique : (folders.map Folder.id).Nodup)

theorem mem_subtreeIds {rootIds : List Nat} {folder : Folder} :
    folder.id ∈ subtreeIds folders rootIds ↔ Below folders rootIds folder := by
  rw [subtreeIds, Reach.mem_reachable]
  constructor
  · rintro ⟨rootId, listed, reaches⟩
    obtain ⟨present, isRoot⟩ := mem_filter.mp listed
    obtain ⟨root, member, rfl⟩ := mem_map.mp present
    exact ⟨root, member, of_decide_eq_true isRoot, reaches⟩
  · rintro ⟨root, member, isRoot, reaches⟩
    exact ⟨root.id, mem_filter.mpr ⟨mem_map_of_mem member, decide_eq_true isRoot⟩, reaches⟩

include unique

theorem isVisible_perm {ordered : List Folder} (perm : ordered.Perm folders) {folder : Folder}
    (member : folder ∈ folders) (masks : List Nat) :
    isVisible folder ordered masks = isVisible folder folders masks := by
  have covers : Covers folders ordered folder :=
    ⟨perm.subset, fun ancestor present _ => perm.symm.subset present⟩
  rw [isVisible, isVisible, effectiveMasksByParent_of_covers unique member covers]

theorem listedFor_iff {masks : List Nat} {folder : Folder} (member : folder ∈ folders) :
    ListedFor folders masks folder ↔ isVisible folder folders masks = true := by
  have perm := mergeSort_perm folders fun first second => decide (first.dotPath ≤ second.dotPath)
  rw [ListedFor, listVisibleToMasks]
  rw [mem_filter, isVisible_perm unique perm member]
  exact and_iff_right (perm.symm.subset member)

/-- **The bulk resolutions and the one of a single folder agree.** -/
theorem resolutions_agree : ResolutionsAgree folders where
  bulk folder member byId covers := by
    rw [effectiveViewMasks_eq_of_nodup unique, effectiveMasksByParent_of_covers unique member covers]
  subtrees rootIds masks id visible := by
    simp only [visibleSubtrees, mem_map, mem_filter, Prod.mk.injEq, decide_eq_true_eq]
    constructor
    · rintro ⟨folder, ⟨loaded, inside⟩, rfl, rfl⟩
      have member := (mem_filter.mp loaded).1
      refine ⟨folder, member, rfl, mem_subtreeIds.mp inside, ?_⟩
      rw [isVisible_subtreeRows unique loaded, listedFor_iff unique member]
    · rintro ⟨folder, member, rfl, below, shown⟩
      have inside := mem_subtreeIds.mpr below
      have loaded : folder ∈ subtreeRows folders rootIds :=
        mem_filter.mpr ⟨member, decide_eq_true (mem_append_left _ inside)⟩
      refine ⟨folder, ⟨loaded, inside⟩, rfl, ?_⟩
      rw [isVisible_subtreeRows unique loaded, Bool.eq_iff_iff, shown, listedFor_iff unique member]
  once rootIds masks := by
    have rows : ((visibleSubtrees folders rootIds masks).map Prod.fst).Sublist
        (folders.map Folder.id) := by
      rw [visibleSubtrees, map_map]
      exact (filter_sublist.trans filter_sublist).map _
    exact unique.sublist rows

end Folders

/-- Two folders that are each other's parents, one of them with masks, and a third one whose parent
is missing. -/
theorem resolutions_agree_loop : ResolutionsAgree
    [{ id := 1, name := "a", parentId := some 2 },
      { id := 2, name := "b", parentId := some 1, viewerPermissionsConfig := some [],
        viewPermissionMasks := [7] },
      { id := 3, name := "c", parentId := some 9 }] :=
  resolutions_agree (by decide)

end RedArchKM.Access
