import RedArchKM.Access.PermissionConfig
import RedArchKM.Lib.Ancestry
import RedArchKM.Lib.Reach

/-!
# The folder tree

The folders of an org, each with its own viewer and contributor config and the masks they
resolved to. A folder without a viewer config inherits the masks of its nearest configured
ancestor. The source computes this twice: from a map of all folders
(`effectiveMasksByParent`) and from the ancestors it loads (`effectiveViewMasks`). Both find
the end of the same climb (`effectiveMasksByParent_of_climb`, `effectiveViewMasks_of_climb`),
and they agree whatever the parent links (`effectiveViewMasks_eq_of_nodup`).
-/

namespace RedArchKM.Access

open Lib Lib.Ancestry List Option

structure Folder where
  id : Nat
  name : String
  description : Option String := none
  dotPath : String := ""
  parentId : Option Nat := none
  viewerPermissionsConfig : Option (List ConfigEntry) := none
  contributorPermissionsConfig : Option (List ConfigEntry) := none
  viewPermissionMasks : List Nat := []
  contributorPermissionMasks : List Nat := []
deriving DecidableEq

/-! ## Walking the tree -/

def folderById (folders : List Folder) (id : Nat) : Option Folder :=
  folders.find? fun folder => folder.id = id

def parentIn (byId : List Folder) (folder : Folder) : Option Folder :=
  folder.parentId.bind (folderById byId)

def ownViewMasks (folder : Folder) : Option (List Nat) :=
  folder.viewerPermissionsConfig.map fun _ => folder.viewPermissionMasks

def effectiveMasksByParent (folder : Folder) (byId : List Folder) : List Nat :=
  (nearest (parentIn byId) ownViewMasks (byId.length + 1) folder).getD []

section

variable (folders : List Folder)

def parentEdges : List (Nat × Nat) :=
  folders.filterMap fun folder => folder.parentId.map fun parentId => (folder.id, parentId)

def ancestorIds (folderIds : List Nat) : List Nat :=
  Reach.reachable (parentEdges folders) folderIds

/-- The ancestors of a folder, nearest first, itself excluded. -/
def ancestors (folder : Folder) : List Folder :=
  match folder.parentId with
  | none => []
  | some parentId =>
    let byId := folders.filter fun ancestor => ancestor.id ∈ ancestorIds folders [parentId]
    chain (parentIn byId) (byId.length + 1) (folderById byId parentId)

def nearestConfiguredAncestor (folder : Folder) : Option Folder :=
  (ancestors folders folder).find? fun ancestor => ancestor.viewerPermissionsConfig.isSome

def effectiveViewMasks : Option Folder → List Nat
  | none => []
  | some folder =>
    match folder.viewerPermissionsConfig with
    | some _ => folder.viewPermissionMasks
    | none => (nearestConfiguredAncestor folders folder).elim [] Folder.viewPermissionMasks

end

/-! ## Forests -/

/-- The folders form a forest: ids are unique, parents exist, and no folder is its own
ancestor. -/
structure WellFormed (folders : List Folder) : Prop where
  ids_nodup : (folders.map Folder.id).Nodup
  parents_present : ∀ folder ∈ folders, ∀ parentId, folder.parentId = some parentId →
    parentId ∈ folders.map Folder.id
  acyclic : Reach.Acyclic (parentEdges folders)

variable {folders path : List Folder} {folder : Folder}

theorem edge_parentEdges {id parentId : Nat} :
    Reach.Edge (parentEdges folders) id parentId ↔
      ∃ folder ∈ folders, folder.id = id ∧ folder.parentId = some parentId := by
  simp only [Reach.Edge, parentEdges, mem_filterMap, map_eq_some_iff, Prod.mk.injEq]
  grind

theorem mem_of_folderById {id : Nat} (found : folderById folders id = some folder) :
    folder ∈ folders ∧ folder.id = id :=
  ⟨mem_of_find?_eq_some found, by simpa using find?_some found⟩

theorem folderById_of_nodup (unique : (folders.map Folder.id).Nodup) (member : folder ∈ folders) :
    folderById folders folder.id = some folder := by
  cases found : folderById folders folder.id with
  | none =>
    have skipped := find?_eq_none.mp found folder member
    simp at skipped
  | some other =>
    obtain ⟨member', same⟩ := mem_of_folderById found
    rw [inj_on_of_nodup_map unique member' member same]

theorem parentIn_eq_some {parent : Folder} (found : parentIn folders folder = some parent) :
    parent ∈ folders ∧ folder.parentId = some parent.id := by
  obtain ⟨parentId, link, lookup⟩ := bind_eq_some_iff.mp found
  obtain ⟨member, rfl⟩ := mem_of_folderById lookup
  exact ⟨member, link⟩

theorem climb_subset {β : Type*} {own : Folder → Option β} {value : Option β}
    (member : folder ∈ folders) (climb : Climb (parentIn folders) own folder path value) :
    path ⊆ folders := fun _ visited =>
  climb.forall_mem (P := (· ∈ folders)) member (fun _ _ _ _ link => (parentIn_eq_some link).1) _
    visited

namespace WellFormed

variable {folders : List Folder} (wellFormed : WellFormed folders)
include wellFormed

theorem eq_of_id {folder other : Folder} (member : folder ∈ folders) (member' : other ∈ folders)
    (same : folder.id = other.id) : folder = other :=
  inj_on_of_nodup_map wellFormed.ids_nodup member member' same

variable {folder : Folder}

theorem folderById_eq (member : folder ∈ folders) : folderById folders folder.id = some folder :=
  folderById_of_nodup wellFormed.ids_nodup member

theorem exists_climb {β : Type*} (own : Folder → Option β) (member : folder ∈ folders) :
    ∃ path value, Climb (parentIn folders) own folder path value := by
  refine Ancestry.exists_climb (P := (· ∈ folders))
    (fun folder => Reach.rank (parentEdges folders) folder.id)
    (fun child parent member link => ?_) own member
  obtain ⟨member', parentId⟩ := parentIn_eq_some link
  exact ⟨member', Reach.rank_lt_of_edge wellFormed.acyclic
    (edge_parentEdges.mpr ⟨child, member, rfl, parentId⟩)⟩

theorem parentIn_of_reaches {target : Folder} (member : folder ∈ folders)
    (different : folder.id ≠ target.id)
    (below : Reach.Reaches (parentEdges folders) folder.id target.id) :
    ∃ parent, parentIn folders folder = some parent ∧
      Reach.Reaches (parentEdges folders) parent.id target.id := by
  obtain ⟨parentId, edge, rest⟩ := below.through_edge different
  obtain ⟨child, childMember, sameId, link⟩ := edge_parentEdges.mp edge
  obtain rfl := wellFormed.eq_of_id childMember member sameId
  obtain ⟨parent, parentMember, rfl⟩ :=
    mem_map.mp (wellFormed.parents_present _ member parentId link)
  exact ⟨parent, by simp [parentIn, link, wellFormed.folderById_eq parentMember], rest⟩

theorem climb_isSome {β : Type*} {own : Folder → Option β} {target : Folder} {path : List Folder}
    {value : Option β} (climb : Climb (parentIn folders) own folder path value)
    (member : folder ∈ folders) (member' : target ∈ folders) (owned : own target ≠ none)
    (below : Reach.Reaches (parentEdges folders) folder.id target.id) : value ≠ none := by
  induction climb with
  | own => simp
  | @root folder bare top =>
    by_cases same : folder.id = target.id
    · exact absurd (wellFormed.eq_of_id member member' same ▸ bare) owned
    · obtain ⟨parent, link, -⟩ := wellFormed.parentIn_of_reaches member same below
      simp [top] at link
  | @up folder parent path value bare link rest ih =>
    by_cases same : folder.id = target.id
    · exact absurd (wellFormed.eq_of_id member member' same ▸ bare) owned
    · obtain ⟨parent', link', onward⟩ := wellFormed.parentIn_of_reaches member same below
      cases link.symm.trans link'
      exact ih (parentIn_eq_some link).1 onward

end WellFormed

/-! ## Parts of the tree -/

theorem folderById_filter {ids : List Nat} {id : Nat} (member : id ∈ ids) :
    folderById (folders.filter fun folder => folder.id ∈ ids) id = folderById folders id := by
  simp only [folderById, find?_filter]
  congr 1
  funext folder
  by_cases same : folder.id = id <;> simp [same, member]

theorem climb_filter {β : Type*} {own : Folder → Option β} (ids : List Nat) {value : Option β}
    (climb : Climb (parentIn folders) own folder path value)
    (closed : ∀ child ∈ path, own child = none → ∀ parentId, child.parentId = some parentId →
      parentId ∈ ids) :
    Climb (parentIn (folders.filter fun folder => folder.id ∈ ids)) own folder path value := by
  have carried : Climb (parentIn (folders.filter fun folder => folder.id ∈ ids)) own (id folder)
      (path.map id) (value.map id) :=
    climb.map id id (by simp) fun child visited bare => by
      cases link : child.parentId with
      | none => simp [parentIn, link]
      | some parentId =>
        simp [parentIn, link, folderById_filter (closed child visited bare parentId link)]
  simpa using carried

/-! ## Any parent links

Links may run in cycles or lead nowhere; only the ids tell the folders apart. -/

structure Covers (folders byId : List Folder) (folder : Folder) : Prop where
  subset : byId ⊆ folders
  above : ∀ ancestor ∈ folders, Reach.Reaches (parentEdges folders) folder.id ancestor.id →
    ancestor ∈ byId

section Links

variable {folders byId : List Folder} (unique : (folders.map Folder.id).Nodup)

theorem folderById_eq_none {id : Nat} (missing : folderById folders id = none)
    (subset : byId ⊆ folders) : folderById byId id = none :=
  find?_eq_none.mpr fun folder member => find?_eq_none.mp missing folder (subset member)

include unique

theorem folderById_part {id : Nat} (subset : byId ⊆ folders)
    (holds : ∀ parent, folderById folders id = some parent → parent ∈ byId) :
    folderById byId id = folderById folders id := by
  cases found : folderById folders id with
  | none => exact folderById_eq_none found subset
  | some parent =>
    obtain ⟨-, rfl⟩ := mem_of_folderById found
    cases part : folderById byId parent.id with
    | none =>
      have skipped := find?_eq_none.mp part parent (holds parent found)
      simp at skipped
    | some other =>
      obtain ⟨member, same⟩ := mem_of_folderById part
      rw [inj_on_of_nodup_map unique (subset member) (mem_of_folderById found).1 same]

/-- **A part that covers a folder walks as the whole does**, with as many steps as it has folders. -/
theorem nearest_part {β : Type*} {own : Folder → Option β} {folder : Folder}
    (member : folder ∈ folders) (covers : Covers folders byId folder) {steps steps' : Nat}
    (enough : folders.length ≤ steps) (enough' : byId.length ≤ steps') :
    nearest (parentIn byId) own steps' folder = nearest (parentIn folders) own steps folder := by
  refine (nearest_congr (fun other => other ∈ folders ∧
    Reach.Reaches (parentEdges folders) folder.id other.id) ⟨member, .refl⟩ ?_ ?_
    (fun other kept => kept.1) (fun other kept => covers.above other kept.1 kept.2) enough
    enough').symm
  · rintro other ⟨otherMember, reaches⟩
    cases link : other.parentId with
    | none => rw [parentIn, parentIn, link]; rfl
    | some parentId =>
      rw [parentIn, parentIn, link]
      refine folderById_part unique covers.subset fun parent found => ?_
      obtain ⟨parentMember, rfl⟩ := mem_of_folderById found
      exact covers.above parent parentMember
        (reaches.tail (edge_parentEdges.mpr ⟨other, otherMember, rfl, link⟩))
  · rintro other parent ⟨otherMember, reaches⟩ found
    obtain ⟨parentMember, link⟩ := parentIn_eq_some found
    exact ⟨parentMember, reaches.tail (edge_parentEdges.mpr ⟨other, otherMember, rfl, link⟩)⟩

end Links

/-! ## Both walks find the end of the climb -/

theorem effectiveMasksByParent_of_climb {value : Option (List Nat)} (member : folder ∈ folders)
    (climb : Climb (parentIn folders) ownViewMasks folder path value) :
    effectiveMasksByParent folder folders = value.getD [] := by
  rw [effectiveMasksByParent,
    nearest_of_climb_subset climb (climb_subset member climb) (Nat.le_succ _)]

theorem findSome?_ancestors {β : Type*} {own : Folder → Option β} {parent : Folder}
    {value : Option β} (link : parentIn folders folder = some parent)
    (climb : Climb (parentIn folders) own parent path value) :
    (ancestors folders folder).findSome? own = value := by
  obtain ⟨member, parentId⟩ := parentIn_eq_some link
  have self : parent.id ∈ ancestorIds folders [parent.id] :=
    Reach.mem_reachable.mpr ⟨_, mem_singleton_self _, .refl⟩
  have lookup : folderById folders parent.id = some parent := by
    simpa [parentIn, parentId] using link
  have inside : ∀ child ∈ path, child ∈ folders ∧ child.id ∈ ancestorIds folders [parent.id] :=
    climb.forall_mem ⟨member, self⟩ fun child next kept _ onward => by
      obtain ⟨nextMember, nextId⟩ := parentIn_eq_some onward
      obtain ⟨start, isStart, reaches⟩ := Reach.mem_reachable.mp kept.2
      exact ⟨nextMember, Reach.mem_reachable.mpr ⟨start, isStart,
        reaches.tail (edge_parentEdges.mpr ⟨child, kept.1, rfl, nextId⟩)⟩⟩
  have restricted := climb_filter (ancestorIds folders [parent.id]) climb
    fun child visited _ nextId next => by
      obtain ⟨childMember, reached⟩ := inside child visited
      obtain ⟨start, isStart, reaches⟩ := Reach.mem_reachable.mp reached
      exact Reach.mem_reachable.mpr ⟨start, isStart,
        reaches.tail (edge_parentEdges.mpr ⟨child, childMember, rfl, next⟩)⟩
  have among : path ⊆ folders.filter fun folder => folder.id ∈ ancestorIds folders [parent.id] :=
    fun child visited => mem_filter.mpr ⟨(inside child visited).1, by
      simpa using (inside child visited).2⟩
  simp only [ancestors, parentId, findSome?_chain, folderById_filter self, lookup, bind_some]
  exact nearest_of_climb_subset restricted among (Nat.le_succ _)

theorem ancestors_of_parentIn_eq_none (top : parentIn folders folder = none) :
    ancestors folders folder = [] := by
  cases link : folder.parentId with
  | none => simp [ancestors, link]
  | some parentId =>
    have missing : folderById folders parentId = none := by simpa [parentIn, link] using top
    have self : parentId ∈ ancestorIds folders [parentId] :=
      Reach.mem_reachable.mpr ⟨_, mem_singleton_self _, .refl⟩
    simp [ancestors, link, folderById_filter self, missing, chain]

theorem elim_find?_configured (folders : List Folder) :
    (folders.find? fun folder => folder.viewerPermissionsConfig.isSome).elim []
      Folder.viewPermissionMasks = (folders.findSome? ownViewMasks).getD [] := by
  induction folders with
  | nil => rfl
  | cons folder folders ih =>
    cases config : folder.viewerPermissionsConfig <;>
      simp [ownViewMasks, config, ← ih]

theorem effectiveViewMasks_of_climb {value : Option (List Nat)}
    (climb : Climb (parentIn folders) ownViewMasks folder path value) :
    effectiveViewMasks folders (some folder) = value.getD [] := by
  cases climb with
  | own owned =>
    obtain ⟨config, configured, rfl⟩ := map_eq_some_iff.mp owned
    simp [effectiveViewMasks, configured]
  | root bare top =>
    have unconfigured : folder.viewerPermissionsConfig = none := map_eq_none_iff.mp bare
    simp [effectiveViewMasks, unconfigured, nearestConfiguredAncestor,
      ancestors_of_parentIn_eq_none top]
  | up bare link rest =>
    have unconfigured : folder.viewerPermissionsConfig = none := map_eq_none_iff.mp bare
    simp only [effectiveViewMasks, unconfigured, nearestConfiguredAncestor,
      elim_find?_configured, findSome?_ancestors link rest]

/-! ## Both walks agree on any parent links -/

theorem covers_ancestorIds (folders : List Folder) (parentId : Nat) {parent : Folder} (isParent : parent.id = parentId) :
    Covers folders (folders.filter fun ancestor => ancestor.id ∈ ancestorIds folders [parentId])
      parent where
  subset := filter_subset_self _
  above ancestor member reaches := by
    refine mem_filter.mpr ⟨member, decide_eq_true (Reach.mem_reachable.mpr ?_)⟩
    exact ⟨parentId, mem_singleton_self _, isParent ▸ reaches⟩

section Links

variable {folders byId : List Folder} (unique : (folders.map Folder.id).Nodup) {folder : Folder}
include unique

theorem effectiveMasksByParent_of_covers (member : folder ∈ folders)
    (covers : Covers folders byId folder) :
    effectiveMasksByParent folder byId = effectiveMasksByParent folder folders := by
  rw [effectiveMasksByParent, effectiveMasksByParent,
    nearest_part unique member covers (Nat.le_succ _) (Nat.le_succ _)]

/-- **The two computations of the effective masks agree, whatever the parent links.** -/
theorem effectiveViewMasks_eq_of_nodup (folder : Folder) :
    effectiveViewMasks folders (some folder) = effectiveMasksByParent folder folders := by
  cases configured : folder.viewerPermissionsConfig with
  | some config =>
    simp [effectiveViewMasks, effectiveMasksByParent, nearest, ownViewMasks, configured]
  | none =>
    have bare : ownViewMasks folder = none := by rw [ownViewMasks, configured]; rfl
    simp only [effectiveViewMasks, configured, nearestConfiguredAncestor, elim_find?_configured]
    rw [effectiveMasksByParent, nearest, bare]
    cases link : parentIn folders folder with
    | none => rw [ancestors_of_parentIn_eq_none link]; rfl
    | some parent =>
      obtain ⟨parentMember, parentId⟩ := parentIn_eq_some link
      have lookup : folderById folders parent.id = some parent :=
        folderById_of_nodup unique parentMember
      have self : parent.id ∈ ancestorIds folders [parent.id] :=
        Reach.mem_reachable.mpr ⟨_, mem_singleton_self _, .refl⟩
      simp only [ancestors, parentId, findSome?_chain, folderById_filter self, lookup, bind_some]
      rw [nearest_part unique parentMember (covers_ancestorIds folders parent.id rfl)
        (Nat.le_refl _) (Nat.le_succ _)]

end Links

end RedArchKM.Access
