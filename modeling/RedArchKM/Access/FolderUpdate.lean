import RedArchKM.Access.FolderVisibility
import RedArchKM.Lib.Fallible

/-!
# Updating a folder

One request renames a folder, describes it, changes its configs and moves it, in this order.
When the viewer config is part of the request, the payloads that re-scope the inheriting
documents are collected before the move.

`updateFolder_cases` says once what an accepted request does: it revises the record of one
folder and the display paths below it. A forest stays a forest (`updateFolder_wellFormed`),
because a move checks the ancestors of the new parent.
-/

namespace RedArchKM.Access

open Lib Lib.Ancestry Lib.Fallible List

/-! ## Requests -/

/-- A partial update. An omitted field is `none`; the parent and the configs may also be set to
null. -/
structure FolderUpdate where
  name : Option String := none
  description : Option String := none
  parentId : Option (Option Nat) := none
  viewerPermissionsConfig : Option (Option (List ConfigEntry)) := none
  contributorPermissionsConfig : Option (Option (List ConfigEntry)) := none

inductive UpdateError where
  | badRequest (detail : String)
  | notFound (detail : String)
  | integrityError
  | valueError (detail : String)

def setFolder (folders : List Folder) (id : Nat) (change : Folder → Folder) : List Folder :=
  folders.map fun folder => if folder.id = id then change folder else folder

def getFolder (folders : List Folder) (id : Nat) : Except UpdateError Folder :=
  match folderById folders id with
  | some folder => .ok folder
  | none => .error (.notFound "Folder not found")

/-! ## Display paths -/

/-- Bound for path rebuilds. -/
def maxDepth : Nat := 1000

/-- The rebuilt path of a folder below the rewritten one, from the names on the way down. -/
def subtreePath (folders : List Folder) (folderId : Nat) (newPrefix : String) :
    Nat → Folder → Option String
  | depth, folder =>
    if folder.id = folderId then some newPrefix
    else
      match depth with
      | 0 => none
      | depth + 1 =>
        ((parentIn folders folder).bind (subtreePath folders folderId newPrefix depth)).map
          fun path => path ++ "." ++ folder.name

/-- Set the folder's path and rebuild every descendant's from its names. -/
def rewriteSubtreePaths (folders : List Folder) (newPrefix : String) (folderId : Nat) :
    List Folder :=
  folders.map fun folder =>
    match subtreePath folders folderId newPrefix maxDepth folder with
    | some path => { folder with dotPath := path }
    | none => folder

def childPath (parent : Option Folder) (name : String) : String :=
  match parent with
  | some parent => s!"{parent.dotPath}.{name}"
  | none => name

section

variable (folders : List Folder)

/-- Another folder holds the name under the same parent. The constraint does not bind folders
without a parent. -/
def nameTaken (id : Nat) (name : String) (parentId : Option Nat) : Bool :=
  parentId.isSome &&
    folders.any fun folder => folder.id ≠ id && folder.name = name && folder.parentId = parentId

def rename (folder : Folder) (newName : String) : Except UpdateError (List Folder) :=
  if nameTaken folders folder.id newName folder.parentId then .error .integrityError
  else
    .ok (rewriteSubtreePaths (setFolder folders folder.id fun folder => { folder with name := newName })
      (childPath (parentIn folders folder) newName) folder.id)

def move (folder : Folder) (newParent : Option Folder) : Except UpdateError (List Folder) :=
  let parentId := newParent.map Folder.id
  if nameTaken folders folder.id folder.name parentId then .error .integrityError
  else
    .ok (rewriteSubtreePaths
      (setFolder folders folder.id fun folder => { folder with parentId := parentId })
      (childPath newParent folder.name) folder.id)

end

/-- Moving the folder under the new parent would put it below itself. -/
def wouldCreateCycle (folder : Folder) (newParent : Option Folder)
    (newParentAncestors : List Folder) : Bool :=
  match newParent with
  | none => false
  | some parent =>
    parent.id = folder.id || newParentAncestors.any fun ancestor => ancestor.id = folder.id

def moveFolder (folders : List Folder) (folder : Folder) (newParentId : Option Nat) :
    Except UpdateError (List Folder) := do
  let newParent ← match newParentId with
    | none => pure none
    | some parentId =>
      match folderById folders parentId with
      | some parent => pure (some parent)
      | none => throw (.notFound s!"Parent folder {parentId} not found")
  let above := newParent.elim [] (ancestors folders)
  if wouldCreateCycle folder newParent above then
    throw (.badRequest "Cannot move a folder under itself or one of its descendants")
  move folders folder newParent

/-! ## Propagation payloads -/

/-- Blank characters that a trim removes. -/
def isBlank (c : Char) : Bool :=
  (9 ≤ c.toNat && c.toNat ≤ 13) || (28 ≤ c.toNat && c.toNat ≤ 32) || c.toNat = 133 ||
    c.toNat = 160 || c.toNat = 5760 || (8192 ≤ c.toNat && c.toNat ≤ 8202) || c.toNat = 8232 ||
    c.toNat = 8233 || c.toNat = 8239 || c.toNat = 8287 || c.toNat = 12288

/-- Whether the name uses the server-only prefix, in any case, trimmed. -/
def isReservedTagName (name : String) : Bool :=
  let trimmed := ((name.toList.dropWhile isBlank).reverse.dropWhile isBlank).reverse
  "folder:".toList.isPrefixOf (trimmed.map Char.toLower)

def folderTag (folderId : Nat) : String := s!"folder:{folderId}"

def indexTags (userTags : List String) (folderId : Option Nat) : List String :=
  let tags := userTags.filter fun name => !isReservedTagName name
  match folderId with
  | some folderId => tags ++ [folderTag folderId]
  | none => tags

/-- A metadata update for the index. -/
structure Payload where
  documentKey : String
  newTags : List String
  newAccessKeys : List Nat
  title : String

def permPropagationPayloads (folder : Folder) (documents : List Document)
    (accessKeys : List Nat) : List Payload :=
  documents.map fun document =>
    { documentKey := document.documentKey
      newTags := indexTags document.tags (some folder.id)
      newAccessKeys := accessKeys
      title := document.title }

def listInheritingInFolder (documents : List Document) (folderId : Nat) : List Document :=
  documents.filter fun document =>
    document.folderId = some folderId &&
      (document.viewerPermissionsConfig.isNone && !document.configCleared)

def childEdges (folders : List Folder) : List (Nat × Nat) := (parentEdges folders).map Prod.swap

def descendants (folders : List Folder) (folder : Folder) : List Folder :=
  folders.filter fun other => other.id ∈ Reach.reachable (childEdges folders) [folder.id]

def boundaryMark (changedId : Nat) (folder : Folder) : Option Bool :=
  if folder.id = changedId then some false
  else if folder.viewerPermissionsConfig.isSome then some true
  else none

def isUnderBoundary (folder : Folder) (changedId : Nat) (byId : List Folder) : Bool :=
  (nearest (parentIn byId) (boundaryMark changedId) (byId.length + 1) folder).getD false

def collectSubtreePropagation (folders : List Folder) (documents : List Document)
    (changed : Folder) : List Payload :=
  let subtree := descendants folders changed
  let newMasks := effectiveViewMasks folders (some changed)
  subtree.flatMap fun folder =>
    if isUnderBoundary folder changed.id subtree then []
    else permPropagationPayloads folder (listInheritingInFolder documents folder.id) newMasks

/-! ## The request -/

section

variable (folders : List Folder) (folder : Folder) (body : FolderUpdate)

def applyName : Except UpdateError (List Folder) :=
  match body.name with
  | some name => if name ≠ folder.name then rename folders folder name else .ok folders
  | none => .ok folders

def applyDescription : List Folder :=
  match body.description with
  | some description =>
    setFolder folders folder.id fun folder => { folder with description := some description }
  | none => folders

end

/-- Recompute the masks when either config is part of the request. -/
def applyConfigs (org : Org) (folders : List Folder) (folder : Folder) (body : FolderUpdate) :
    Except UpdateError (List Folder) :=
  if body.viewerPermissionsConfig.isSome || body.contributorPermissionsConfig.isSome then
    let viewer := body.viewerPermissionsConfig.getD folder.viewerPermissionsConfig
    let contributor := body.contributorPermissionsConfig.getD folder.contributorPermissionsConfig
    match computeFolderMasks (some org) viewer contributor with
    | .error detail => .error (.valueError detail)
    | .ok (viewMasks, contributorMasks) =>
      .ok (setFolder folders folder.id fun folder =>
        { folder with
          viewerPermissionsConfig := viewer
          contributorPermissionsConfig := contributor
          viewPermissionMasks := viewMasks
          contributorPermissionMasks := contributorMasks })
  else .ok folders

def applyParent (folders : List Folder) (folder : Folder) (body : FolderUpdate) :
    Except UpdateError (List Folder) :=
  match body.parentId with
  | some newParentId => moveFolder folders folder newParentId
  | none => .ok folders

/-- The folder's record is read again after each part that may rewrite it. -/
def updateFolder (org : Org) (folders : List Folder) (documents : List Document) (folderId : Nat)
    (body : FolderUpdate) : Except UpdateError (List Folder × List Payload) := do
  let folder ← getFolder folders folderId
  let renamed ← applyName folders folder body
  let configured ← applyConfigs org (applyDescription renamed folder body) folder body
  let changed ← getFolder configured folderId
  let payloads :=
    if body.viewerPermissionsConfig.isSome then
      collectSubtreePropagation configured documents changed
    else []
  let moved ← applyParent configured changed body
  return (moved, payloads)

/-! ## What each part does -/

/-- What decides inheritance and entitlement: the parent, the configs and the masks. -/
structure FolderAccess where
  parentId : Option Nat
  viewerConfig : Option (List ConfigEntry)
  contributorConfig : Option (List ConfigEntry)
  viewMasks : List Nat
  contributorMasks : List Nat

def Folder.access (folder : Folder) : FolderAccess where
  parentId := folder.parentId
  viewerConfig := folder.viewerPermissionsConfig
  contributorConfig := folder.contributorPermissionsConfig
  viewMasks := folder.viewPermissionMasks
  contributorMasks := folder.contributorPermissionMasks

variable {folder : Folder} {folders folders' : List Folder} {image : Folder → Folder}
  {body : FolderUpdate} {org : Org}

theorem access_parentId {other : Folder} (same : folder.access = other.access) :
    folder.parentId = other.parentId := congrArg FolderAccess.parentId same

theorem access_viewerConfig {other : Folder} (same : folder.access = other.access) :
    folder.viewerPermissionsConfig = other.viewerPermissionsConfig :=
  congrArg FolderAccess.viewerConfig same

theorem access_viewMasks {other : Folder} (same : folder.access = other.access) :
    folder.viewPermissionMasks = other.viewPermissionMasks := congrArg FolderAccess.viewMasks same

/-- A map of folder records that keeps every id, and the access of every folder but one. -/
structure Revises (folderId : Nat) (image : Folder → Folder) : Prop where
  id : ∀ folder, (image folder).id = folder.id
  others : ∀ folder, folder.id ≠ folderId → (image folder).access = folder.access

/-- The access of a folder after the request's configs are applied. -/
def FolderAccess.configured (access : FolderAccess) (org : Org) (body : FolderUpdate) :
    FolderAccess :=
  if body.viewerPermissionsConfig.isSome || body.contributorPermissionsConfig.isSome then
    let viewer := body.viewerPermissionsConfig.getD access.viewerConfig
    let contributor := body.contributorPermissionsConfig.getD access.contributorConfig
    { access with
      viewerConfig := viewer
      contributorConfig := contributor
      viewMasks := viewerMasks org (viewer.getD [])
      contributorMasks := viewerMasks org (contributor.getD []) }
  else access

theorem getFolder_eq_ok {id : Nat} :
    getFolder folders id = .ok folder ↔ folderById folders id = some folder := by
  unfold getFolder
  cases folderById folders id <;> simp

theorem folderById_map (keeps : ∀ folder, (image folder).id = folder.id) (folders : List Folder)
    (id : Nat) : folderById (folders.map image) id = (folderById folders id).map image := by
  simp only [folderById, find?_map]
  congr 2
  funext folder
  simp [keeps]

theorem bind_folderById_map (keeps : ∀ folder, (image folder).id = folder.id)
    (folders : List Folder) (id : Option Nat) :
    id.bind (folderById (folders.map image)) = (id.bind (folderById folders)).map image := by
  cases id with
  | none => rfl
  | some id => exact folderById_map keeps folders id

theorem parentIn_map (keeps : ∀ folder, (image folder).id = folder.id) (folders : List Folder)
    (same : (image folder).parentId = folder.parentId) :
    parentIn (folders.map image) (image folder) = (parentIn folders folder).map image := by
  simp only [parentIn, same, bind_folderById_map keeps]

namespace Revises

variable {folderId : Nat} {image next : Folder → Folder}

theorem refl (folderId : Nat) : Revises folderId fun folder => folder := ⟨fun _ => rfl, fun _ _ => rfl⟩

theorem comp (later : Revises folderId next) (earlier : Revises folderId image) :
    Revises folderId fun folder => next (image folder) where
  id folder := (later.id _).trans (earlier.id folder)
  others folder different :=
    (later.others _ (earlier.id folder ▸ different)).trans (earlier.others folder different)

end Revises

section

variable (folders : List Folder) (newPrefix : String) (folderId : Nat)

theorem rewriteSubtreePaths_eq_map :
    ∃ image : Folder → Folder, rewriteSubtreePaths folders newPrefix folderId = folders.map image ∧
      (∀ folder, (image folder).id = folder.id) ∧
      ∀ folder, (image folder).access = folder.access := by
  refine ⟨_, rfl, fun folder => ?_, fun folder => ?_⟩
  · cases subtreePath folders folderId newPrefix maxDepth folder <;> rfl
  · cases subtreePath folders folderId newPrefix maxDepth folder <;> rfl

theorem rewrite_setFolder_eq_map (change : Folder → Folder)
    (keeps : ∀ folder, (change folder).id = folder.id) : ∃ image, Revises folderId image ∧
      rewriteSubtreePaths (setFolder folders folderId change) newPrefix folderId =
        folders.map image ∧
      ∀ folder, folder.id = folderId → (image folder).access = (change folder).access := by
  obtain ⟨rebuilt, same, sameId, sameAccess⟩ :=
    rewriteSubtreePaths_eq_map (setFolder folders folderId change) newPrefix folderId
  refine ⟨fun folder => rebuilt (if folder.id = folderId then change folder else folder),
    ⟨fun folder => ?_, fun folder different => ?_⟩, ?_, fun folder target => ?_⟩
  · rw [sameId]
    split
    · exact keeps folder
    · rfl
  · rw [if_neg different, sameAccess]
  · rw [same, setFolder, map_map]
    rfl
  · simp only [if_pos target, sameAccess]

end

theorem applyName_cases (accepted : applyName folders folder body = .ok folders') :
    ∃ image, Revises folder.id image ∧ folders' = folders.map image ∧
      ∀ other, (image other).access = other.access := by
  have kept : ∃ image, Revises folder.id image ∧ folders = folders.map image ∧
      ∀ other, (image other).access = other.access :=
    ⟨fun other => other, .refl _, by simp, fun _ => rfl⟩
  unfold applyName at accepted
  split at accepted
  · rename_i name requested
    split at accepted
    · unfold rename at accepted
      split at accepted
      · cases accepted
      · obtain ⟨image, revises, same, target⟩ := rewrite_setFolder_eq_map folders
          (childPath (parentIn folders folder) name) folder.id
          (fun folder => { folder with name := name }) fun _ => rfl
        refine ⟨image, revises, (Except.ok.inj accepted).symm.trans same, fun other => ?_⟩
        by_cases isTarget : other.id = folder.id
        · exact target other isTarget
        · exact revises.others other isTarget
    · cases accepted
      exact kept
  · cases accepted
    exact kept

theorem applyDescription_cases (folders : List Folder) (folder : Folder) (body : FolderUpdate) :
    ∃ image, Revises folder.id image ∧ applyDescription folders folder body = folders.map image ∧
      ∀ other, (image other).access = other.access := by
  unfold applyDescription
  split
  · refine ⟨_, ⟨fun other => ?_, fun other _ => ?_⟩, rfl, fun other => ?_⟩
    · split <;> rfl
    · split <;> rfl
    · split <;> rfl
  · exact ⟨fun other => other, .refl _, by simp, fun _ => rfl⟩

theorem applyConfigs_cases (accepted : applyConfigs org folders folder body = .ok folders') :
    ∃ image, Revises folder.id image ∧ folders' = folders.map image ∧
      ∀ other, other.id = folder.id → other.access = folder.access →
        (image other).access = folder.access.configured org body := by
  unfold applyConfigs at accepted
  split at accepted
  · rename_i provided
    simp only [computeFolderMasks_some] at accepted
    cases accepted
    refine ⟨_, ⟨fun other => ?_, fun other different => ?_⟩, rfl, fun other target same => ?_⟩
    · split <;> rfl
    · simp [different]
    · rw [if_pos target, FolderAccess.configured, if_pos provided]
      have parents : other.parentId = folder.parentId := congrArg FolderAccess.parentId same
      simp [Folder.access, parents]
  · rename_i omitted
    cases accepted
    refine ⟨fun other => other, .refl _, by simp, fun other _ same => ?_⟩
    rwa [FolderAccess.configured, if_neg omitted]

/-- What a request does to the parent link. -/
def Moves (folders : List Folder) (folder : Folder) (moved : Folder → Folder) :
    Option (Option Nat) → Prop
  | none => ∀ other, (moved other).access = other.access
  | some newParentId =>
    (∀ other, other.id = folder.id →
      (moved other).access = { other.access with parentId := newParentId }) ∧
    ∀ parentId, newParentId = some parentId →
      ∃ parent, folderById folders parentId = some parent ∧ parent.id ≠ folder.id ∧
        ∀ ancestor ∈ ancestors folders parent, ancestor.id ≠ folder.id

theorem move_cases {newParent : Option Folder}
    (accepted : move folders folder newParent = .ok folders') :
    ∃ image, Revises folder.id image ∧ folders' = folders.map image ∧
      ∀ other, other.id = folder.id →
        (image other).access = { other.access with parentId := newParent.map Folder.id } := by
  simp only [move] at accepted
  split at accepted
  · cases accepted
  · obtain ⟨image, revises, same, target⟩ := rewrite_setFolder_eq_map folders
      (childPath newParent folder.name) folder.id
      (fun folder => { folder with parentId := newParent.map Folder.id }) fun _ => rfl
    exact ⟨image, revises, (Except.ok.inj accepted).symm.trans same, target⟩

theorem moveFolder_cases {newParentId : Option Nat}
    (accepted : moveFolder folders folder newParentId = .ok folders') :
    ∃ image, Revises folder.id image ∧ folders' = folders.map image ∧
      Moves folders folder image (some newParentId) := by
  cases newParentId with
  | none =>
    have moved : move folders folder none = .ok folders' := accepted
    obtain ⟨image, revises, same, target⟩ := move_cases moved
    exact ⟨image, revises, same, target, fun _ absent => by cases absent⟩
  | some parentId =>
    cases found : folderById folders parentId with
    | none =>
      simp only [moveFolder, found] at accepted
      cases accepted
    | some parent =>
      obtain ⟨-, rfl⟩ := mem_of_folderById found
      simp only [moveFolder, found, pure_bind, Option.elim_some] at accepted
      obtain ⟨apart, relinked⟩ := (guard_eq_ok fun _ done => by cases done).mp accepted
      obtain ⟨image, revises, same, target⟩ := move_cases relinked
      simp only [wouldCreateCycle, Bool.or_eq_true, decide_eq_true_eq, any_eq_true,
        not_or, not_exists, not_and] at apart
      refine ⟨image, revises, same, target, fun _ requested => ?_⟩
      cases requested
      exact ⟨parent, found, apart⟩

theorem applyParent_cases (accepted : applyParent folders folder body = .ok folders') :
    ∃ image, Revises folder.id image ∧ folders' = folders.map image ∧
      Moves folders folder image body.parentId := by
  unfold applyParent at accepted
  split at accepted
  · rename_i newParentId requested
    rw [requested]
    exact moveFolder_cases accepted
  · rename_i omitted
    rw [omitted]
    cases accepted
    exact ⟨fun other => other, .refl _, by simp, fun _ => rfl⟩

/-- **What an accepted request does.** The record of one folder is revised by the configs and
by the move, in this order, and the payloads are collected in between. -/
theorem updateFolder_cases {documents : List Document} {folderId : Nat} {payloads : List Payload}
    (accepted : updateFolder org folders documents folderId body = .ok (folders', payloads)) :
    ∃ folder edited moved,
      folderById folders folderId = some folder ∧
      Revises folderId edited ∧ (edited folder).access = folder.access.configured org body ∧
      Revises folderId moved ∧
      Moves (folders.map edited) (edited folder) moved body.parentId ∧
      folders' = (folders.map edited).map moved ∧
      payloads =
        if body.viewerPermissionsConfig.isSome then
          collectSubtreePropagation (folders.map edited) documents (edited folder)
        else [] := by
  simp only [updateFolder, bind_eq_ok, pure_eq_ok, Prod.mk.injEq] at accepted
  obtain ⟨folder, fetched, renamed, named, configured, configs, changed, refreshed, relinked, parent,
    rfl, rfl⟩ := accepted
  have found := getFolder_eq_ok.mp fetched
  obtain ⟨-, rfl⟩ := mem_of_folderById found
  obtain ⟨rename, revises₁, rfl, kept₁⟩ := applyName_cases named
  obtain ⟨describe, revises₂, described, kept₂⟩ :=
    applyDescription_cases (folders.map rename) folder body
  obtain ⟨configure, revises₃, rfl, set⟩ := applyConfigs_cases configs
  have revises : Revises folder.id ((configure ∘ describe) ∘ rename) :=
    revises₃.comp (revises₂.comp revises₁)
  rw [described, map_map, map_map] at parent refreshed ⊢
  have same : changed = configure (describe (rename folder)) := by
    have lookup := getFolder_eq_ok.mp refreshed
    rw [folderById_map revises.id, found] at lookup
    exact (Option.some.inj lookup).symm
  subst same
  obtain ⟨moved, revises₄, rfl, moves⟩ := applyParent_cases parent
  refine ⟨folder, _, moved, found, revises, ?_, ?_, moves, rfl, rfl⟩
  · exact set _ ((revises₂.comp revises₁).id folder) ((kept₂ _).trans (kept₁ folder))
  · exact revises.id folder ▸ revises₄

/-! ## Forests stay forests -/

theorem ids_map (keeps : ∀ folder, (image folder).id = folder.id) (folders : List Folder) :
    (folders.map image).map Folder.id = folders.map Folder.id := by
  rw [map_map]
  exact map_congr_left fun folder _ => keeps folder

theorem WellFormed.map (wellFormed : WellFormed folders)
    (keeps : ∀ folder, (image folder).id = folder.id)
    (present : ∀ folder ∈ folders, ∀ parentId, (image folder).parentId = some parentId →
      parentId ∈ folders.map Folder.id) (acyclic : Reach.Acyclic (parentEdges (folders.map image))) :
    WellFormed (folders.map image) where
  ids_nodup := by rw [ids_map keeps]; exact wellFormed.ids_nodup
  parents_present := by
    rw [ids_map keeps]
    simpa using present
  acyclic := acyclic

theorem edge_parentEdges_map (keeps : ∀ folder, (image folder).id = folder.id) {id parentId : Nat} :
    Reach.Edge (parentEdges (folders.map image)) id parentId ↔
      ∃ folder ∈ folders, folder.id = id ∧ (image folder).parentId = some parentId := by
  simp [edge_parentEdges, keeps]

theorem parentEdges_map (keeps : ∀ folder, (image folder).id = folder.id)
    (links : ∀ folder ∈ folders, (image folder).parentId = folder.parentId) :
    parentEdges (folders.map image) = parentEdges folders := by
  rw [parentEdges, parentEdges, filterMap_map]
  exact filterMap_congr fun folder member => by simp [keeps, links folder member]

theorem WellFormed.map_of_links (wellFormed : WellFormed folders)
    (keeps : ∀ folder, (image folder).id = folder.id)
    (links : ∀ folder ∈ folders, (image folder).parentId = folder.parentId) :
    WellFormed (folders.map image) := by
  refine wellFormed.map keeps (fun folder member parentId link => ?_) ?_
  · exact wellFormed.parents_present folder member parentId (links folder member ▸ link)
  · exact parentEdges_map keeps links ▸ wellFormed.acyclic

section

variable (access : FolderAccess)

theorem configured_viewerConfig : (access.configured org body).viewerConfig =
      body.viewerPermissionsConfig.getD access.viewerConfig := by
  unfold FolderAccess.configured
  cases body.viewerPermissionsConfig with
  | none => split <;> rfl
  | some _ => rfl

theorem configured_parentId : (access.configured org body).parentId = access.parentId := by
  unfold FolderAccess.configured
  split <;> rfl

theorem configured_viewMasks : (access.configured org body).viewMasks =
      if body.viewerPermissionsConfig.isSome || body.contributorPermissionsConfig.isSome then
        viewerMasks org ((body.viewerPermissionsConfig.getD access.viewerConfig).getD [])
      else access.viewMasks := by
  unfold FolderAccess.configured
  split <;> rfl

end

section

variable (wellFormed : WellFormed folders) (member : folder ∈ folders)

include wellFormed member

theorem WellFormed.configure {edited : Folder → Folder} (revises : Revises folder.id edited)
    (configured : (edited folder).access = folder.access.configured org body) :
    WellFormed (folders.map edited) := by
  refine wellFormed.map_of_links revises.id fun other otherMember => ?_
  by_cases same : other.id = folder.id
  · obtain rfl := wellFormed.eq_of_id otherMember member same
    exact (congrArg FolderAccess.parentId configured).trans (configured_parentId _)
  · exact access_parentId (revises.others other same)

theorem WellFormed.exists_ancestor {target : Folder} (member' : target ∈ folders)
    (different : folder.id ≠ target.id)
    (below : Reach.Reaches (parentEdges folders) folder.id target.id) :
    ∃ ancestor ∈ ancestors folders folder, ancestor.id = target.id := by
  let isTarget (folder : Folder) : Option Unit := if folder.id = target.id then some () else none
  obtain ⟨parent, link, onward⟩ := wellFormed.parentIn_of_reaches member different below
  have parentMember := (parentIn_eq_some link).1
  obtain ⟨path, value, climb⟩ := wellFormed.exists_climb isTarget parentMember
  have met : value ≠ none :=
    wellFormed.climb_isSome climb parentMember member' (by simp [isTarget]) onward
  rw [← findSome?_ancestors link climb, ne_eq, findSome?_eq_none_iff] at met
  push Not at met
  obtain ⟨ancestor, above, hit⟩ := met
  exact ⟨ancestor, above, by simpa [isTarget] using hit⟩

/-- **A move keeps a forest.** -/
theorem WellFormed.move {moved : Folder → Folder} (revises : Revises folder.id moved)
    {request : Option (Option Nat)} (moves : Moves folders folder moved request) :
    WellFormed (folders.map moved) := by
  have others : ∀ other, other.id ≠ folder.id → (moved other).parentId = other.parentId :=
    fun other different => congrArg FolderAccess.parentId (revises.others other different)
  cases request with
  | none =>
    exact wellFormed.map_of_links revises.id fun other _ =>
      congrArg FolderAccess.parentId (moves other)
  | some newParentId =>
    obtain ⟨target, checked⟩ := moves
    have own : ∀ other, other.id = folder.id → (moved other).parentId = newParentId :=
      fun other same => congrArg FolderAccess.parentId (target other same)
    refine wellFormed.map revises.id (fun other otherMember parentId link => ?_) ?_
    · by_cases same : other.id = folder.id
      · obtain ⟨parent, found, -⟩ := checked parentId (own other same ▸ link)
        obtain ⟨parentMember, rfl⟩ := mem_of_folderById found
        exact mem_map_of_mem parentMember
      · exact wellFormed.parents_present other otherMember parentId (others other same ▸ link)
    · -- The new link leads out of the folder; every other link is an old one.
      refine wellFormed.acyclic.relink (a := folder.id) fun id parentId edge => ?_
      obtain ⟨other, otherMember, rfl, link⟩ := (edge_parentEdges_map revises.id).mp edge
      by_cases same : other.id = folder.id
      · obtain ⟨parent, found, different, apart⟩ := checked parentId (own other same ▸ link)
        obtain ⟨parentMember, rfl⟩ := mem_of_folderById found
        refine .inr ⟨same, fun below => ?_⟩
        obtain ⟨ancestor, above, hit⟩ :=
          wellFormed.exists_ancestor parentMember member different below
        exact apart ancestor above hit
      · exact .inl (edge_parentEdges.mpr
          ⟨other, otherMember, rfl, (others other same).symm.trans link⟩)

end

/-- **An accepted request keeps a forest.** -/
theorem updateFolder_wellFormed {documents : List Document} {folderId : Nat}
    {payloads : List Payload} (wellFormed : WellFormed folders)
    (accepted : updateFolder org folders documents folderId body = .ok (folders', payloads)) :
    WellFormed folders' := by
  obtain ⟨folder, edited, moved, found, revises, configured, revises', moves, rfl, -⟩ :=
    updateFolder_cases accepted
  obtain ⟨member, rfl⟩ := mem_of_folderById found
  exact (wellFormed.configure member revises configured).move (mem_map_of_mem member)
    (revises.id folder ▸ revises') moves

end RedArchKM.Access
