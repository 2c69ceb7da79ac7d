import RedArchKM.Access.FolderTree

/-!
# Folder and document visibility

A folder is visible when its effective view masks are empty or overlap the requester's; a
document is visible when its folder is and its own override, if it has one, is empty or
overlaps.

The masks of a config whose entries all fail to resolve are empty, and an empty list reads as
"unrestricted". So a config hides a folder from a membership it does not name exactly when
one of its entries resolves: `isVisible_iff`, and for the whole reach of a config
`nonemptyConfig_hides_iff`.
-/

namespace RedArchKM.Access

open Lib Lib.Ancestry List Option

/-- A document with its own viewer override, if any. -/
structure Document where
  documentKey : String
  title : String
  tags : List String := []
  folderId : Option Nat := none
  viewerPermissionsConfig : Option (List ConfigEntry) := none
  /-- A config that a request has set to null: the column holds a JSON null, which is not NULL. -/
  configCleared : Bool := false
  viewPermissionMasks : List Nat := []

/-! ## The visibility checks -/

/-- A folder is visible if it has no effective restriction, or one that overlaps the user's
masks. -/
def isVisible (folder : Folder) (byId : List Folder) (userMasks : List Nat) : Bool :=
  let effective := effectiveMasksByParent folder byId
  effective.isEmpty || effective.any fun mask => mask ∈ userMasks

/-- An empty resource mask list means unrestricted; otherwise any shared mask. -/
def overlaps (resourceMasks masks : List Nat) : Bool :=
  if resourceMasks.isEmpty then true else resourceMasks.any fun mask => mask ∈ masks

def folderVisible (folders : List Folder) (folder : Folder) : Option (List Nat) → Bool
  | none => true
  | some masks => overlaps (effectiveViewMasks folders (some folder)) masks

def documentVisible (folders : List Folder) (document : Document) : Option (List Nat) → Bool
  | none => true
  | some masks =>
    match document.folderId.bind (folderById folders) with
    | none => false
    | some folder =>
      if folderVisible folders folder (some masks) then
        document.viewerPermissionsConfig.isNone || overlaps document.viewPermissionMasks masks
      else false

def computeFolderMasks (org : Option Org)
    (viewerConfig contributorConfig : Option (List ConfigEntry)) :
    Except String (List Nat × List Nat) := do
  let viewerMasks ← permissionConfigToMasks org viewerConfig
  let contributorMasks ← permissionConfigToMasks org contributorConfig
  return (viewerMasks, contributorMasks)

theorem computeFolderMasks_some (org : Org) (viewer contributor : Option (List ConfigEntry)) :
    computeFolderMasks (some org) viewer contributor =
      .ok (viewerMasks org (viewer.getD []), viewerMasks org (contributor.getD [])) := by
  simp only [computeFolderMasks, permissionConfigToMasks_some]
  rfl

/-- The stored masks of every folder are those its configs resolve to. -/
def MasksComputed (org : Org) (folders : List Folder) : Prop :=
  ∀ folder ∈ folders,
    computeFolderMasks (some org) folder.viewerPermissionsConfig
      folder.contributorPermissionsConfig =
        .ok (folder.viewPermissionMasks, folder.contributorPermissionMasks)

/-- The stored masks of every override are those it resolves to. -/
def OverridesComputed (org : Org) (documents : List Document) : Prop :=
  ∀ document ∈ documents,
    permissionConfigToMasks (some org) document.viewerPermissionsConfig =
      .ok document.viewPermissionMasks

/-! ## What decides -/

/-- The viewer config that governs a folder: its own, or its nearest configured ancestor's. -/
def governingConfig (folders : List Folder) (folder : Folder) : Option (List ConfigEntry) :=
  nearest (parentIn folders) Folder.viewerPermissionsConfig (folders.length + 1) folder

def Resolves (org : Org) (entry : ConfigEntry) : Prop := (resolveEntry org entry).isSome

structure Excludes {org : Org} (membership : Membership org) (config : List ConfigEntry) :
    Prop where
  resolves : ∃ entry ∈ config, Resolves org entry
  unsatisfied : ∀ entry ∈ config, ¬ membership.Satisfies entry

section Masks

variable {org : Org} {membership : Membership org} {config : List ConfigEntry}

theorem viewerMasks_eq_nil_iff :
    viewerMasks org config = [] ↔ ¬ ∃ entry ∈ config, Resolves org entry := by
  simp only [viewerMasks, map_eq_nil_iff, filterMap_eq_nil_iff, Resolves]
  simp [isSome_iff_ne_none]

theorem overlaps_viewerMasks :
    overlaps (viewerMasks org config) membership.masks = false ↔ Excludes membership config := by
  by_cases empty : viewerMasks org config = []
  · have open' : overlaps (viewerMasks org config) membership.masks = true := by
      simp [overlaps, empty]
    rw [open']
    constructor
    · intro closed
      cases closed
    · intro excludes
      exact absurd excludes.resolves (viewerMasks_eq_nil_iff.mp empty)
  · have resolves : ∃ entry ∈ config, Resolves org entry := by
      by_contra none
      exact empty (viewerMasks_eq_nil_iff.mpr none)
    have shares : overlaps (viewerMasks org config) membership.masks = true ↔
        ∃ mask ∈ viewerMasks org config, mask ∈ membership.masks := by
      simp [overlaps, empty]
    rw [← Bool.not_eq_true, shares, sharesMask_iff]
    push Not
    exact ⟨fun unsatisfied => ⟨resolves, unsatisfied⟩, Excludes.unsatisfied⟩

end Masks

section Tree

variable {org : Org} {folders : List Folder} {folder : Folder}

theorem ownViewMasks_eq (computed : MasksComputed org folders) (member : folder ∈ folders) :
    ownViewMasks folder = folder.viewerPermissionsConfig.map (viewerMasks org) := by
  have masks := computed folder member
  rw [computeFolderMasks_some] at masks
  have own : viewerMasks org (folder.viewerPermissionsConfig.getD []) = folder.viewPermissionMasks :=
    congrArg Prod.fst (Except.ok.inj masks)
  cases config : folder.viewerPermissionsConfig with
  | none => simp [ownViewMasks, config]
  | some entries => simpa [ownViewMasks, config] using own.symm

theorem effectiveMasksByParent_eq (wellFormed : WellFormed folders)
    (computed : MasksComputed org folders) (member : folder ∈ folders) :
    effectiveMasksByParent folder folders =
      viewerMasks org ((governingConfig folders folder).getD []) := by
  obtain ⟨path, config, climb⟩ := wellFormed.exists_climb Folder.viewerPermissionsConfig member
  have inside : path ⊆ folders := climb_subset member climb
  have masks : Climb (parentIn folders) ownViewMasks folder path (config.map (viewerMasks org)) := by
    simpa using climb.map id (viewerMasks org)
      (fun visited reached => ownViewMasks_eq computed (inside reached)) (by simp)
  rw [effectiveMasksByParent_of_climb member masks, governingConfig,
    nearest_of_climb_subset climb inside (Nat.le_succ _)]
  cases config <;> rfl

variable {membership : Membership org}

section

variable (wellFormed : WellFormed folders) (computed : MasksComputed org folders)
    (member : folder ∈ folders)

include wellFormed computed member

/-- **A folder is hidden from a membership exactly when its governing config keeps it out.** -/
theorem isVisible_iff : isVisible folder folders membership.masks = false ↔
      Excludes membership ((governingConfig folders folder).getD []) := by
  rw [← overlaps_viewerMasks, ← effectiveMasksByParent_eq wellFormed computed member]
  cases effective : effectiveMasksByParent folder folders <;>
    simp [isVisible, overlaps, effective]

theorem folderVisible_iff : folderVisible folders folder (some membership.masks) = false ↔
      Excludes membership ((governingConfig folders folder).getD []) := by
  rw [← overlaps_viewerMasks, ← effectiveMasksByParent_eq wellFormed computed member,
    ← effectiveViewMasks_eq_of_nodup wellFormed.ids_nodup]
  rfl

end

def filedUnder (folders : List Folder) (document : Document) : Option (List ConfigEntry) :=
  (document.folderId.bind (folderById folders)).map fun folder =>
    (governingConfig folders folder).getD []

theorem documentVisible_iff (wellFormed : WellFormed folders)
    (computed : MasksComputed org folders) {document : Document} {override : List ConfigEntry}
    (overridden : document.viewerPermissionsConfig = some override)
    (masks : permissionConfigToMasks (some org) document.viewerPermissionsConfig =
      .ok document.viewPermissionMasks) :
    documentVisible folders document (some membership.masks) = false ↔
      (∀ config, filedUnder folders document = some config → Excludes membership config) ∨
        Excludes membership override := by
  rw [permissionConfigToMasks_some, overridden] at masks
  have own : document.viewPermissionMasks = viewerMasks org override := (Except.ok.inj masks).symm
  cases filed : document.folderId.bind (folderById folders) with
  | none => simp [documentVisible, filedUnder, filed]
  | some folder =>
    obtain ⟨folderId, -, found⟩ := bind_eq_some_iff.mp filed
    have hidden : folderVisible folders folder (some membership.masks) = false ↔ _ :=
      folderVisible_iff wellFormed computed (mem_of_folderById found).1
    simp only [documentVisible, filedUnder, filed, map_some, some.injEq,
      forall_eq', overridden, isNone_some, Bool.false_or]
    rw [← hidden, ← overlaps_viewerMasks, ← own]
    cases folderVisible folders folder (some membership.masks) <;> simp

end Tree

/-! ## The reach of a config -/

section Reach

variable {org : Org} (folders : List Folder) (documents : List Document) (folder : Folder)
  (membership : Membership org)

/-- An override that names entries, none of which the membership satisfies. -/
def Unsatisfied (override : List ConfigEntry) : Prop :=
  override ≠ [] ∧ ∀ entry ∈ override, ¬ membership.Satisfies entry

/-- What a config is expected to hide from the holder of the masks: the folder, every
descendant without a config of its own, and every document with an override that names entries,
none of them satisfied. -/
structure Hides (masks : List Nat) : Prop where
  own : isVisible folder folders masks = false
  descendants : ∀ descendant ∈ folders,
    Reach.Reaches (parentEdges folders) descendant.id folder.id →
    descendant.viewerPermissionsConfig = none → isVisible descendant folders masks = false
  documents : ∀ document ∈ documents, ∀ override,
    document.viewerPermissionsConfig = some override → Unsatisfied membership override →
    documentVisible folders document (some masks) = false

/-- The configs that decide resolve: the folder's own has an entry that does, a descendant's
governing config keeps the membership out, and an override has an entry that resolves unless
the document is unfiled or filed under a config that keeps the membership out. -/
structure DecidingConfigsResolve (entries : List ConfigEntry) : Prop where
  own : ∃ entry ∈ entries, Resolves org entry
  descendants : ∀ descendant ∈ folders,
    Reach.Reaches (parentEdges folders) descendant.id folder.id →
    descendant.viewerPermissionsConfig = none →
    Excludes membership ((governingConfig folders descendant).getD [])
  documents : ∀ document ∈ documents, ∀ override,
    document.viewerPermissionsConfig = some override → Unsatisfied membership override →
    (∀ config, filedUnder folders document = some config → Excludes membership config) ∨
      ∃ entry ∈ override, Resolves org entry

end Reach

/-- **A non-empty config hides what it governs exactly when the deciding configs resolve.** -/
theorem nonemptyConfig_hides_iff {org : Org} {folders : List Folder} {documents : List Document}
    (wellFormed : WellFormed folders) (computed : MasksComputed org folders)
    (overrides : OverridesComputed org documents) {folder : Folder} (member : folder ∈ folders)
    {entries : List ConfigEntry} (configured : folder.viewerPermissionsConfig = some entries)
    (membership : Membership org) (cap : membership.UnderCap)
    (unsatisfied : Unsatisfied membership entries) :
    ∃ masks,
      calculateUserMasksFromMembership membership org.permissionNumber = .ok masks ∧
      (Hides folders documents folder membership masks ↔
        DecidingConfigsResolve folders documents folder membership entries) := by
  refine ⟨membership.masks, calculateUserMasks_of_underCap cap, ?_⟩
  have governed : governingConfig folders folder = some entries :=
    nearest_of_climb (.own configured) (Nat.le_add_left 1 _)
  have own : isVisible folder folders membership.masks = false ↔
      ∃ entry ∈ entries, Resolves org entry := by
    rw [isVisible_iff wellFormed computed member, governed]
    exact ⟨Excludes.resolves, fun resolves => ⟨resolves, unsatisfied.2⟩⟩
  have overridden : ∀ document ∈ documents, ∀ override,
      document.viewerPermissionsConfig = some override → Unsatisfied membership override →
      (documentVisible folders document (some membership.masks) = false ↔
        (∀ config, filedUnder folders document = some config → Excludes membership config) ∨
          ∃ entry ∈ override, Resolves org entry) := by
    intro document documentMember override config outside
    rw [documentVisible_iff wellFormed computed config (overrides document documentMember)]
    exact or_congr_right ⟨Excludes.resolves, fun resolves => ⟨resolves, outside.2⟩⟩
  constructor
  · intro hides
    exact {
      own := own.mp hides.own
      descendants := fun descendant descendantMember below bare =>
        (isVisible_iff wellFormed computed descendantMember).mp
          (hides.descendants descendant descendantMember below bare)
      documents := fun document documentMember override config outside =>
        (overridden document documentMember override config outside).mp
          (hides.documents document documentMember override config outside) }
  · intro resolve
    exact {
      own := own.mpr resolve.own
      descendants := fun descendant descendantMember below bare =>
        (isVisible_iff wellFormed computed descendantMember).mpr
          (resolve.descendants descendant descendantMember below bare)
      documents := fun document documentMember override config outside =>
        (overridden document documentMember override config outside).mpr
          (resolve.documents document documentMember override config outside) }

/-! ## A misspelt region -/

/-- A top-level folder that names one region. -/
def regionFolder (region : String) : Folder where
  id := 0
  name := "Plans"
  viewerPermissionsConfig := some [{ region := some region }]
  viewPermissionMasks := viewerMasks twoRegions [{ region := some region }]

theorem regionFolder_wellFormed (region : String) : WellFormed [regionFolder region] where
  ids_nodup := nodup_singleton _
  parents_present := by simp [regionFolder]
  acyclic := Reach.acyclic_of_height (fun _ => 0) fun _ _ edge => by
    simp [Reach.Edge, parentEdges, regionFolder] at edge

theorem regionFolder_computed (region : String) :
    MasksComputed twoRegions [regionFolder region] := by
  intro folder member
  obtain rfl := mem_singleton.mp member
  exact computeFolderMasks_some _ _ _

theorem northerner_unsatisfied {region : String} (other : region ≠ "North") :
    Unsatisfied northerner [{ region := some region }] := by
  refine ⟨by simp, fun entry member satisfied => ?_⟩
  obtain rfl := mem_singleton.mp member
  obtain ⟨dimension, -, named, assigned⟩ := satisfied.region region rfl
  obtain rfl : dimension = north := by simpa [northerner] using assigned
  exact other named.symm

/-- The folder of the south is hidden from the northerner. -/
theorem nonemptyConfig_hides_south :
    ∃ masks,
      calculateUserMasksFromMembership northerner 1 = .ok masks ∧
      Hides [regionFolder "South"] [] (regionFolder "South") northerner masks := by
  obtain ⟨masks, expanded, hides⟩ :=
    nonemptyConfig_hides_iff (regionFolder_wellFormed "South") (regionFolder_computed "South")
      (show OverridesComputed twoRegions [] from fun _ absent => by cases absent)
      (mem_singleton_self _) rfl
      northerner northerner_underCap (northerner_unsatisfied (by decide))
  refine ⟨masks, expanded, hides.mpr {
    own := ⟨_, mem_singleton_self _, rfl⟩
    descendants := fun descendant member _ bare => ?_
    documents := fun _ absent => by cases absent }⟩
  obtain rfl := mem_singleton.mp member
  cases bare

/-- A config whose only name is misspelt resolves to no mask and opens the folder to a member it
does not name. -/
theorem misspelt_config_opens :
    Unsatisfied northerner [{ region := some "Sotuh" }] ∧
      WellFormed [regionFolder "Sotuh"] ∧
      MasksComputed twoRegions [regionFolder "Sotuh"] ∧
      ∃ masks,
        calculateUserMasksFromMembership northerner 1 = .ok masks ∧
        ¬ Hides [regionFolder "Sotuh"] [] (regionFolder "Sotuh") northerner masks := by
  refine ⟨northerner_unsatisfied (by decide), regionFolder_wellFormed _,
    regionFolder_computed _, northerner.masks, calculateUserMasks_of_underCap northerner_underCap,
    fun hides => ?_⟩
  have visible : isVisible (regionFolder "Sotuh") [regionFolder "Sotuh"] northerner.masks = true :=
    rfl
  exact Bool.noConfusion (visible.symm.trans hides.own)

end RedArchKM.Access
