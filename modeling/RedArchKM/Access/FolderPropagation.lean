import RedArchKM.Access.FolderUpdate

/-!
# Keeping the index in step with the tree

The index holds, for every chunk of a document, the access keys it was stored with. For a
document that inherits, these are meant to be the effective view masks of its folder.

An accepted request changes what the open part of one folder's subtree inherits, and nothing
else (`effectiveViewMasks_of_not_inheritsFrom`). It re-scopes that part only when the viewer
config is among its fields, before the move, and without the documents whose own config was set to
null. So the index stays in sync exactly when the folder ends up with the masks the index holds by
then (`serve_inSync_iff`), and over a run of such requests it is in sync after each
(`index_follows_tree`).
-/

namespace RedArchKM.Access

open Lib Lib.Ancestry List Option

/-! ## The index -/

/-- A stored chunk. -/
structure IndexPoint where
  documentKey : String
  accessKeys : List Nat
  tags : List String
  title : String

/-- A metadata update reaches the chunks of its document. -/
def IndexPoint.refresh (point : IndexPoint) (payload : Payload) : IndexPoint :=
  if point.documentKey = payload.documentKey then
    { point with
      accessKeys := payload.newAccessKeys
      tags := payload.newTags
      title := payload.title }
  else point

def deliver (index : List IndexPoint) (payloads : List Payload) : List IndexPoint :=
  index.map fun point => payloads.foldl IndexPoint.refresh point

/-- The folders and documents of an org, and the index. -/
structure State where
  folders : List Folder
  documents : List Document
  index : List IndexPoint

structure Request where
  folderId : Nat
  body : FolderUpdate

/-- Serve a request: a refused one is rolled back. -/
def serve (org : Org) (state : State) (request : Request) : State :=
  match updateFolder org state.folders state.documents request.folderId request.body with
  | .error _ => state
  | .ok (folders, payloads) =>
    { state with folders := folders, index := deliver state.index payloads }

def run (org : Org) (state : State) (requests : List Request) : State :=
  requests.foldl (serve org) state

def inheritedMasks (folders : List Folder) (folderId : Option Nat) : List Nat :=
  effectiveViewMasks folders (folderId.bind (folderById folders))

/-- Every chunk of an inheriting document carries the effective masks of its folder. -/
def InSync (state : State) : Prop :=
  ∀ document ∈ state.documents, document.viewerPermissionsConfig = none →
    ∀ point ∈ state.index, point.documentKey = document.documentKey →
      point.accessKeys = inheritedMasks state.folders document.folderId

/-- The folders form a forest and document keys are unique. -/
structure State.Valid (state : State) : Prop where
  wellFormed : WellFormed state.folders
  keys_nodup : (state.documents.map Document.documentKey).Nodup

/-! ## The open part of a subtree -/

/-- The folder inherits from the changed one: on its way up it meets no config before it. -/
def inheritsFrom (folders : List Folder) (changedId : Nat) (folder : Folder) : Prop :=
  nearest (parentIn folders) (boundaryMark changedId) (folders.length + 1) folder = some false

def FiledBelow (folders : List Folder) (changedId : Nat) (document : Document) : Prop :=
  ∃ filed, document.folderId.bind (folderById folders) = some filed ∧
    inheritsFrom folders changedId filed

section Open

variable {folders : List Folder} {folder changed : Folder}

variable {changedId : Nat}

theorem inheritsFrom_iff {path : List Folder} {value : Option Bool} (member : folder ∈ folders)
    (climb : Climb (parentIn folders) (boundaryMark changedId) folder path value) :
    inheritsFrom folders changedId folder ↔ value = some false := by
  rw [inheritsFrom, nearest_of_climb_subset climb (climb_subset member climb) (Nat.le_succ _)]

theorem boundaryMark_eq_none :
    boundaryMark changedId folder = none ↔
      folder.id ≠ changedId ∧ folder.viewerPermissionsConfig = none := by
  unfold boundaryMark
  split
  · simp_all
  · cases folder.viewerPermissionsConfig <;> simp_all

theorem boundaryMark_eq_false :
    boundaryMark changedId folder = some false ↔ folder.id = changedId := by
  unfold boundaryMark
  split
  · simp_all
  · split <;> simp_all

theorem reaches_of_mem_climb {β : Type*} {own : Folder → Option β} {path : List Folder}
    {value : Option β} (member : folder ∈ folders)
    (climb : Climb (parentIn folders) own folder path value) :
    ∀ visited ∈ path, visited ∈ folders ∧
      Reach.Reaches (parentEdges folders) folder.id visited.id :=
  climb.forall_mem ⟨member, .refl⟩ fun child parent kept _ link => by
    obtain ⟨parentMember, parentId⟩ := parentIn_eq_some link
    exact ⟨parentMember, kept.2.tail (edge_parentEdges.mpr ⟨child, kept.1, rfl, parentId⟩)⟩

theorem reaches_of_inheritsFrom (wellFormed : WellFormed folders) (member : folder ∈ folders)
    (inherits : inheritsFrom folders changedId folder) :
    Reach.Reaches (parentEdges folders) folder.id changedId := by
  obtain ⟨path, value, climb⟩ := wellFormed.exists_climb (boundaryMark changedId) member
  obtain rfl := (inheritsFrom_iff member climb).mp inherits
  obtain ⟨owner, visited, mark⟩ := climb.owner
  exact boundaryMark_eq_false.mp mark ▸ (reaches_of_mem_climb member climb owner visited).2

theorem mem_descendants : folder ∈ descendants folders changed ↔
    folder ∈ folders ∧ Reach.Reaches (parentEdges folders) folder.id changed.id := by
  have swapped : ∀ a b, Reach.Reaches (childEdges folders) a b ↔
      Reach.Reaches (parentEdges folders) b a := by
    intro a b
    have edges : Reach.Edge (childEdges folders) = Function.swap (Reach.Edge (parentEdges folders)) := by
      funext a b
      simp [Reach.Edge, childEdges, Function.swap]
    rw [Reach.Reaches, edges, Relation.reflTransGen_swap]
  simp [descendants, Reach.mem_reachable, swapped]

/-- **The payloads are collected for exactly the folders that inherit from the changed one.** -/
theorem collected_iff (wellFormed : WellFormed folders) (changedMember : changed ∈ folders) :
    (folder ∈ descendants folders changed ∧
      isUnderBoundary folder changed.id (descendants folders changed) = false) ↔
      folder ∈ folders ∧ inheritsFrom folders changed.id folder := by
  by_cases member : folder ∈ folders
  · obtain ⟨path, value, climb⟩ := wellFormed.exists_climb (boundaryMark changed.id) member
    -- Below the changed folder the way up stays in its subtree until it ends.
    have walked : Reach.Reaches (parentEdges folders) folder.id changed.id →
        isUnderBoundary folder changed.id (descendants folders changed) = value.getD false := by
      intro below
      have inside : ∀ visited ∈ path, visited ∈ folders ∧
          Reach.Reaches (parentEdges folders) visited.id changed.id :=
        climb.forall_mem ⟨member, below⟩ fun child parent kept bare link => by
          obtain ⟨parent', link', onward⟩ := wellFormed.parentIn_of_reaches kept.1
            (boundaryMark_eq_none.mp bare).1 kept.2
          cases link.symm.trans link'
          exact ⟨(parentIn_eq_some link).1, onward⟩
      have restricted : Climb (parentIn (descendants folders changed)) _ folder path value :=
        climb_filter _ climb fun child visited bare parentId link => by
          obtain ⟨parent, found, onward⟩ := wellFormed.parentIn_of_reaches
            (inside child visited).1 (boundaryMark_eq_none.mp bare).1 (inside child visited).2
          have sameId : parent.id = parentId :=
            some.inj ((parentIn_eq_some found).2.symm.trans link)
          have among : parent ∈ descendants folders changed :=
            mem_descendants.mpr ⟨(parentIn_eq_some found).1, onward⟩
          simpa [sameId] using (mem_filter.mp among).2
      rw [isUnderBoundary, nearest_of_climb_subset restricted
        (fun visited reached => mem_descendants.mpr (inside visited reached)) (Nat.le_succ _)]
    constructor
    · rintro ⟨descendant, outside⟩
      have below := (mem_descendants.mp descendant).2
      rw [walked below] at outside
      have met : value ≠ none := wellFormed.climb_isSome climb member changedMember
        (by simp [boundaryMark]) below
      refine ⟨member, (inheritsFrom_iff member climb).mpr ?_⟩
      cases value with
      | none => exact absurd rfl met
      | some mark => exact congrArg some outside
    · rintro ⟨-, inherits⟩
      have below := reaches_of_inheritsFrom wellFormed member inherits
      obtain rfl := (inheritsFrom_iff member climb).mp inherits
      exact ⟨mem_descendants.mpr ⟨member, below⟩, walked below⟩
  · exact ⟨fun inside => absurd (mem_descendants.mp inside.1).1 member,
      fun inside => absurd inside.1 member⟩

theorem effectiveViewMasks_of_inheritsFrom (wellFormed : WellFormed folders)
    (member : folder ∈ folders) (changedMember : changed ∈ folders)
    (inherits : inheritsFrom folders changed.id folder) :
    effectiveViewMasks folders (some folder) = effectiveViewMasks folders (some changed) := by
  obtain ⟨path, value, climb⟩ := wellFormed.exists_climb (boundaryMark changed.id) member
  obtain rfl := (inheritsFrom_iff member climb).mp inherits
  obtain ⟨onward, masks, rest⟩ := wellFormed.exists_climb ownViewMasks changedMember
  -- Up to the changed folder nothing is configured, so its climb extends to the folder's.
  have extended : ∀ {start : Folder} {path : List Folder} {mark : Option Bool},
      Climb (parentIn folders) (boundaryMark changed.id) start path mark → start ∈ folders →
      mark = some false → ∃ path', Climb (parentIn folders) ownViewMasks start path' masks := by
    intro start path mark climb
    induction climb with
    | own owned =>
      intro startMember hit
      have sameId := boundaryMark_eq_false.mp (owned.trans hit)
      exact ⟨_, wellFormed.eq_of_id startMember changedMember sameId ▸ rest⟩
    | root => intro _ absent; cases absent
    | up bare link _ ih =>
      intro startMember hit
      obtain ⟨path', above⟩ := ih (parentIn_eq_some link).1 hit
      refine ⟨_, .up ?_ link above⟩
      simp [ownViewMasks, (boundaryMark_eq_none.mp bare).2]
  obtain ⟨path', whole⟩ := extended climb member rfl
  rw [effectiveViewMasks_of_climb whole, effectiveViewMasks_of_climb rest]

end Open

/-! ## Revising one folder -/

section Revision

variable {folders : List Folder} {changedId : Nat} {image : Folder → Folder}
  (wellFormed : WellFormed folders) (revises : Revises changedId image)
include wellFormed revises

theorem inheritsFrom_map {folder : Folder} (member : folder ∈ folders) :
    inheritsFrom (folders.map image) changedId (image folder) ↔
      inheritsFrom folders changedId folder := by
  obtain ⟨path, value, climb⟩ := wellFormed.exists_climb (boundaryMark changedId) member
  have carried : Climb (parentIn (folders.map image)) (boundaryMark changedId) (image folder)
      (path.map image) value := by
    have marks : ∀ other, boundaryMark changedId (image other) = boundaryMark changedId other := by
      intro other
      by_cases same : other.id = changedId
      · simp [boundaryMark, revises.id, same]
      · simp [boundaryMark, revises.id, same, access_viewerConfig (revises.others other same)]
    simpa using climb.map image id (fun other _ => by simp [marks]) fun other _ bare =>
      parentIn_map revises.id folders
        (access_parentId (revises.others other (boundaryMark_eq_none.mp bare).1))
  rw [inheritsFrom_iff member climb, inheritsFrom_iff (mem_map_of_mem member) carried]

/-- **A revision of one folder changes no effective masks but those inherited from it.** -/
theorem effectiveViewMasks_of_not_inheritsFrom {folder : Folder} (member : folder ∈ folders)
    (apart : ¬ inheritsFrom folders changedId folder) :
    effectiveViewMasks (folders.map image) (some (image folder)) =
      effectiveViewMasks folders (some folder) := by
  obtain ⟨path, value, climb⟩ := wellFormed.exists_climb (boundaryMark changedId) member
  rw [inheritsFrom_iff member climb] at apart
  -- The climb that avoids the changed folder is the climb to the masks.
  have avoids : ∀ visited ∈ path, visited.id ≠ changedId := by
    intro visited reached hit
    obtain ⟨rest, -, tail⟩ := climb.of_mem reached
    exact apart ((tail.unique (.own (boundaryMark_eq_false.mpr hit))).2)
  have toMasks : ∀ {start : Folder} {path : List Folder} {mark : Option Bool},
      Climb (parentIn folders) (boundaryMark changedId) start path mark →
      (∀ visited ∈ path, visited.id ≠ changedId) →
      ∃ masks, Climb (parentIn folders) ownViewMasks start path masks := by
    intro start path mark climb
    induction climb with
    | @own start mark owned =>
      intro avoids
      have away := avoids start (mem_singleton_self _)
      cases config : start.viewerPermissionsConfig with
      | none => simp [boundaryMark, away, config] at owned
      | some entries => exact ⟨_, .own (show ownViewMasks start = some start.viewPermissionMasks by
          simp [ownViewMasks, config])⟩
    | root bare top =>
      intro _
      exact ⟨none, .root (by simp [ownViewMasks, (boundaryMark_eq_none.mp bare).2]) top⟩
    | up bare link _ ih =>
      intro avoids
      obtain ⟨masks, above⟩ := ih fun visited reached =>
        avoids visited (mem_cons_of_mem _ reached)
      exact ⟨masks, .up (by simp [ownViewMasks, (boundaryMark_eq_none.mp bare).2]) link above⟩
  obtain ⟨masks, masksClimb⟩ := toMasks climb avoids
  have carried : Climb (parentIn (folders.map image)) ownViewMasks (image folder)
      (path.map image) masks := by
    simpa using masksClimb.map image id (fun other reached => by
        have same := revises.others other (avoids other reached)
        simp [ownViewMasks, access_viewerConfig same, access_viewMasks same])
      fun other reached _ => parentIn_map revises.id folders
        (access_parentId (revises.others other (avoids other reached)))
  rw [effectiveViewMasks_of_climb carried, effectiveViewMasks_of_climb masksClimb]

theorem inheritedMasks_map {parentId : Option Nat}
    (apart : ∀ parent, parentId.bind (folderById folders) = some parent →
      ¬ inheritsFrom folders changedId parent) :
    inheritedMasks (folders.map image) parentId = inheritedMasks folders parentId := by
  rw [inheritedMasks, inheritedMasks, bind_folderById_map revises.id]
  cases found : parentId.bind (folderById folders) with
  | none => rfl
  | some parent =>
    obtain ⟨_, -, lookup⟩ := bind_eq_some_iff.mp found
    exact effectiveViewMasks_of_not_inheritsFrom wellFormed revises
      (mem_of_folderById lookup).1 (apart parent found)

theorem filedBelow_map (document : Document) :
    FiledBelow (folders.map image) changedId document ↔ FiledBelow folders changedId document := by
  simp only [FiledBelow, bind_folderById_map revises.id, map_eq_some_iff]
  constructor
  · rintro ⟨_, ⟨filed, lookup, rfl⟩, inherits⟩
    obtain ⟨_, -, found⟩ := bind_eq_some_iff.mp lookup
    exact ⟨filed, lookup,
      (inheritsFrom_map wellFormed revises (mem_of_folderById found).1).mp inherits⟩
  · rintro ⟨filed, lookup, inherits⟩
    obtain ⟨_, -, found⟩ := bind_eq_some_iff.mp lookup
    exact ⟨_, ⟨filed, lookup, rfl⟩,
      (inheritsFrom_map wellFormed revises (mem_of_folderById found).1).mpr inherits⟩

end Revision

variable {folders : List Folder}

theorem inheritedMasks_of_filedBelow (wellFormed : WellFormed folders) {changed : Folder}
    (member : changed ∈ folders) {document : Document}
    (below : FiledBelow folders changed.id document) :
    inheritedMasks folders document.folderId = effectiveViewMasks folders (some changed) := by
  obtain ⟨filed, lookup, inherits⟩ := below
  obtain ⟨_, -, found⟩ := bind_eq_some_iff.mp lookup
  rw [inheritedMasks, lookup]
  exact effectiveViewMasks_of_inheritsFrom wellFormed (mem_of_folderById found).1 member inherits

theorem effectiveViewMasks_of_unconfigured (wellFormed : WellFormed folders) {folder : Folder}
    (unconfigured : folder.viewerPermissionsConfig = none) :
    effectiveViewMasks folders (some folder) = inheritedMasks folders folder.parentId := by
  have bare : ownViewMasks folder = none := by simp [ownViewMasks, unconfigured]
  rw [inheritedMasks]
  cases link : parentIn folders folder with
  | none =>
    rw [effectiveViewMasks_of_climb (.root bare link)]
    simp only [parentIn] at link
    rw [link]
    rfl
  | some parent =>
    obtain ⟨path, masks, climb⟩ :=
      wellFormed.exists_climb ownViewMasks (parentIn_eq_some link).1
    rw [effectiveViewMasks_of_climb (.up bare link climb)]
    simp only [parentIn] at link
    rw [link, effectiveViewMasks_of_climb climb]

theorem not_inheritsFrom_of_parent (wellFormed : WellFormed folders) {folder parent : Folder}
    (member : folder ∈ folders) (link : parentIn folders folder = some parent) :
    ¬ inheritsFrom folders folder.id parent := by
  intro inherits
  obtain ⟨parentMember, parentId⟩ := parentIn_eq_some link
  have cycle := reaches_of_inheritsFrom wellFormed parentMember inherits
  exact wellFormed.acyclic folder.id
    (.head' (edge_parentEdges.mpr ⟨folder, member, rfl, parentId⟩) cycle)

/-! ## What the folder ends up with -/

/-- The folder ends up with the masks the index holds for a document that it is told of, or is not.
With a config of its own: the index is told of it, or the request does not recompute the masks, or
the config resolves to the present ones. Without one: the new parent passes down what the old one
does if the index is told, else what the folder does. -/
def KeepsMasks (org : Org) (folders : List Folder) (folder : Folder) (body : FolderUpdate)
    (told : Bool) : Prop :=
  match body.viewerPermissionsConfig.getD folder.viewerPermissionsConfig with
  | some config =>
    told ∨ (body.viewerPermissionsConfig = none ∧ body.contributorPermissionsConfig = none) ∨
      permissionConfigToMasks (some org) (some config) =
        .ok (effectiveViewMasks folders (some folder))
  | none =>
    inheritedMasks folders (body.parentId.getD folder.parentId) =
      if told then inheritedMasks folders folder.parentId
      else effectiveViewMasks folders (some folder)

/-- The masks the index holds for such a document once the payloads are delivered. -/
def toldMasks (folders configured : List Folder) (folder changed : Folder) (told : Bool) :
    List Nat :=
  if told then effectiveViewMasks configured (some changed)
  else effectiveViewMasks folders (some folder)

/-- The payloads of the request are meant for the document. -/
def FolderUpdate.tells (body : FolderUpdate) (document : Document) : Bool :=
  body.viewerPermissionsConfig.isSome && !document.configCleared

section Request

variable {org : Org} {folders : List Folder} {folder : Folder} {edited moved : Folder → Folder}
  {body : FolderUpdate}

variable (wellFormed : WellFormed folders) (member : folder ∈ folders)
  (revises : Revises folder.id edited)
  (configured : (edited folder).access = folder.access.configured org body)
  (revises' : Revises folder.id moved)
  (moves : Moves (folders.map edited) (edited folder) moved body.parentId)
include wellFormed member revises configured revises' moves

/-- A new parent passes down after the move what it passed down before the request. -/
theorem inheritedMasks_newParent :
    inheritedMasks ((folders.map edited).map moved) (body.parentId.getD folder.parentId) =
      inheritedMasks folders (body.parentId.getD folder.parentId) := by
  have wellFormed' := wellFormed.configure member revises configured
  have member' : edited folder ∈ folders.map edited := mem_map_of_mem member
  have apart : ∀ parent,
      (body.parentId.getD folder.parentId).bind (folderById folders) = some parent →
      ¬ inheritsFrom folders folder.id parent := by
    intro parent found
    cases request : body.parentId with
    | none =>
      rw [request] at found
      exact not_inheritsFrom_of_parent wellFormed member found
    | some newParentId =>
      rw [request] at moves found
      obtain ⟨parentId, rfl, lookup⟩ := bind_eq_some_iff.mp found
      obtain ⟨parent', found', different, above⟩ := moves.2 parentId rfl
      rw [folderById_map revises.id, lookup] at found'
      cases found'
      have parentMember := (mem_of_folderById lookup).1
      rw [← inheritsFrom_map wellFormed revises parentMember]
      intro inherits
      have below := reaches_of_inheritsFrom wellFormed' (mem_map_of_mem parentMember) inherits
      obtain ⟨ancestor, isAbove, hit⟩ := wellFormed'.exists_ancestor
        (mem_map_of_mem parentMember) member' different (revises.id folder ▸ below)
      exact above ancestor isAbove hit
  rw [inheritedMasks_map wellFormed' revises', inheritedMasks_map wellFormed revises apart]
  intro parent found
  rw [bind_folderById_map revises.id] at found
  obtain ⟨original, originalFound, rfl⟩ := map_eq_some_iff.mp found
  obtain ⟨_, -, originalLookup⟩ := bind_eq_some_iff.mp originalFound
  rw [inheritsFrom_map wellFormed revises (mem_of_folderById originalLookup).1]
  exact apart original originalFound

/-- **The folder ends up with the masks the index holds exactly under `KeepsMasks`.** -/
theorem toldMasks_eq_iff {told : Bool}
    (provided : told = true → body.viewerPermissionsConfig.isSome = true) :
    toldMasks folders (folders.map edited) folder (edited folder) told =
      effectiveViewMasks ((folders.map edited).map moved) (some (moved (edited folder))) ↔
      KeepsMasks org folders folder body told := by
  have wellFormed' := wellFormed.configure member revises configured
  have member' : edited folder ∈ folders.map edited := mem_map_of_mem member
  have wellFormed'' := wellFormed'.move member' (revises.id folder ▸ revises') moves
  have parentId : (edited folder).parentId = folder.parentId :=
    (congrArg FolderAccess.parentId configured).trans (configured_parentId _)
  have movedAccess : (moved (edited folder)).access =
      { (edited folder).access with parentId := body.parentId.getD folder.parentId } := by
    cases request : body.parentId with
    | none =>
      rw [request] at moves
      exact (moves (edited folder)).trans (by simp [Folder.access, parentId])
    | some newParentId =>
      rw [request] at moves
      exact moves.1 (edited folder) rfl
  have config : (edited folder).viewerPermissionsConfig =
      body.viewerPermissionsConfig.getD folder.viewerPermissionsConfig :=
    (congrArg FolderAccess.viewerConfig configured).trans (configured_viewerConfig _)
  have config' : (moved (edited folder)).viewerPermissionsConfig =
      (edited folder).viewerPermissionsConfig := congrArg FolderAccess.viewerConfig movedAccess
  have masks' : (moved (edited folder)).viewPermissionMasks =
      (edited folder).viewPermissionMasks := congrArg FolderAccess.viewMasks movedAccess
  have parentId' : (moved (edited folder)).parentId = body.parentId.getD folder.parentId :=
    congrArg FolderAccess.parentId movedAccess
  have recomputed : (edited folder).viewPermissionMasks =
      if body.viewerPermissionsConfig.isSome || body.contributorPermissionsConfig.isSome then
        viewerMasks org
          ((body.viewerPermissionsConfig.getD folder.viewerPermissionsConfig).getD [])
      else folder.viewPermissionMasks :=
    (congrArg FolderAccess.viewMasks configured).trans (configured_viewMasks _)
  cases new : body.viewerPermissionsConfig.getD folder.viewerPermissionsConfig with
  | some entries =>
    have own : effectiveViewMasks (folders.map edited) (some (edited folder)) =
        (edited folder).viewPermissionMasks := by
      simp [effectiveViewMasks, config, new]
    have own' : effectiveViewMasks ((folders.map edited).map moved)
        (some (moved (edited folder))) = (edited folder).viewPermissionMasks := by
      simp [effectiveViewMasks, config', config, new, masks']
    rw [new, getD_some] at recomputed
    rw [own']
    simp only [KeepsMasks, new, permissionConfigToMasks_some, getD_some, Except.ok.injEq]
    cases told with
    | true => simp [toldMasks, own]
    | false =>
      simp only [toldMasks, Bool.false_eq_true, if_false, false_or, recomputed]
      by_cases kept : body.viewerPermissionsConfig = none ∧ body.contributorPermissionsConfig = none
      · have stored : folder.viewerPermissionsConfig = some entries := by
          simpa [kept.1] using new
        simp [kept, effectiveViewMasks, stored]
      · have changes : (body.viewerPermissionsConfig.isSome ||
            body.contributorPermissionsConfig.isSome) = true := by
          rw [Bool.or_eq_true, isSome_iff_ne_none, isSome_iff_ne_none]
          exact Decidable.not_and_iff_not_or_not.mp kept
        rw [if_pos changes, or_iff_right kept]
        exact eq_comm
  | none =>
    have own : effectiveViewMasks ((folders.map edited).map moved)
        (some (moved (edited folder))) =
        inheritedMasks folders (body.parentId.getD folder.parentId) := by
      rw [effectiveViewMasks_of_unconfigured wellFormed''
        (config'.trans (config.trans new)), parentId']
      exact inheritedMasks_newParent wellFormed member revises configured revises' moves
    rw [own]
    simp only [KeepsMasks, new]
    cases told with
    | false => exact eq_comm
    | true =>
      have above : effectiveViewMasks (folders.map edited) (some (edited folder)) =
          inheritedMasks folders folder.parentId := by
        rw [effectiveViewMasks_of_unconfigured wellFormed' (config.trans new), parentId]
        exact inheritedMasks_map wellFormed revises fun parent found =>
          not_inheritsFrom_of_parent wellFormed member found
      simp only [toldMasks, if_true, above]
      exact eq_comm

end Request

/-! ## What the payloads do to the index -/

@[simp] theorem documentKey_refresh (point : IndexPoint) (payload : Payload) :
    (point.refresh payload).documentKey = point.documentKey := by
  unfold IndexPoint.refresh
  split <;> rfl

@[simp] theorem documentKey_foldl_refresh (payloads : List Payload) (point : IndexPoint) :
    (payloads.foldl IndexPoint.refresh point).documentKey = point.documentKey := by
  induction payloads generalizing point with
  | nil => rfl
  | cons payload payloads ih => simp [ih]

theorem foldl_refresh_of_unaddressed {payloads : List Payload} {point : IndexPoint}
    (unaddressed : ∀ payload ∈ payloads, payload.documentKey ≠ point.documentKey) :
    payloads.foldl IndexPoint.refresh point = point := by
  induction payloads with
  | nil => rfl
  | cons payload payloads ih =>
    obtain ⟨first, rest⟩ := forall_mem_cons.mp unaddressed
    have same : point.refresh payload = point := if_neg (Ne.symm first)
    rw [foldl_cons, same, ih rest]

theorem accessKeys_foldl_refresh {payloads : List Payload} {point : IndexPoint} {keys : List Nat}
    (agree : ∀ payload ∈ payloads, payload.newAccessKeys = keys)
    (addressed : ∃ payload ∈ payloads, payload.documentKey = point.documentKey) :
    (payloads.foldl IndexPoint.refresh point).accessKeys = keys := by
  induction payloads generalizing point with
  | nil => simp at addressed
  | cons payload payloads ih =>
    obtain ⟨first, rest⟩ := forall_mem_cons.mp agree
    rw [foldl_cons]
    by_cases later : ∃ payload ∈ payloads, payload.documentKey = point.documentKey
    · exact ih rest (by simpa using later)
    · have hit : point.documentKey = payload.documentKey := by
        obtain ⟨other, member, same⟩ := addressed
        rcases mem_cons.mp member with rfl | below
        · exact same.symm
        · exact absurd ⟨other, below, same⟩ later
      rw [foldl_refresh_of_unaddressed (by simpa using later)]
      simp [IndexPoint.refresh, hit, first]

section Collect

variable {folders : List Folder} {documents : List Document} {changed : Folder}

theorem mem_collectSubtreePropagation {payload : Payload} :
    payload ∈ collectSubtreePropagation folders documents changed ↔
      ∃ folder, (folder ∈ descendants folders changed ∧
        isUnderBoundary folder changed.id (descendants folders changed) = false) ∧
      ∃ document ∈ documents, document.folderId = some folder.id ∧
        (document.viewerPermissionsConfig = none ∧ document.configCleared = false) ∧
        payload = { documentKey := document.documentKey
                    newTags := indexTags document.tags (some folder.id)
                    newAccessKeys := effectiveViewMasks folders (some changed)
                    title := document.title } := by
  simp only [collectSubtreePropagation, mem_flatMap, permPropagationPayloads,
    listInheritingInFolder]
  constructor
  · rintro ⟨folder, descendant, collected⟩
    split at collected
    · simp at collected
    · rename_i outside
      obtain ⟨document, listed, rfl⟩ := mem_map.mp collected
      obtain ⟨member, filed⟩ := mem_filter.mp listed
      obtain ⟨inFolder, bare⟩ : document.folderId = some folder.id ∧
          document.viewerPermissionsConfig = none ∧ document.configCleared = false := by
        simpa using filed
      exact ⟨folder, ⟨descendant, by simpa using outside⟩, document, member, inFolder, bare, rfl⟩
  · rintro ⟨folder, ⟨descendant, outside⟩, document, member, inFolder, bare, rfl⟩
    refine ⟨folder, descendant, ?_⟩
    rw [if_neg (by simp [outside])]
    exact mem_map_of_mem (mem_filter.mpr ⟨member, by simp [inFolder, bare]⟩)

/-- **A payload addresses an inheriting document exactly when it is filed in the open part and its
config is NULL.** -/
theorem addressed_iff (wellFormed : WellFormed folders)
    (nodup : (documents.map Document.documentKey).Nodup) (changedMember : changed ∈ folders)
    {document : Document} (documentMember : document ∈ documents)
    (bare : document.viewerPermissionsConfig = none) :
    (∃ payload ∈ collectSubtreePropagation folders documents changed,
      payload.documentKey = document.documentKey) ↔
        FiledBelow folders changed.id document ∧ document.configCleared = false := by
  simp only [mem_collectSubtreePropagation, collected_iff wellFormed changedMember]
  constructor
  · rintro ⟨_, ⟨filed, ⟨filedMember, inherits⟩, other, otherMember, inFolder, kept, rfl⟩, sameKey⟩
    obtain rfl := inj_on_of_nodup_map nodup otherMember documentMember sameKey
    exact ⟨⟨filed, by rw [inFolder]; exact wellFormed.folderById_eq filedMember, inherits⟩, kept.2⟩
  · rintro ⟨⟨filed, lookup, inherits⟩, uncleared⟩
    obtain ⟨folderId, inFolder, found⟩ := bind_eq_some_iff.mp lookup
    obtain ⟨filedMember, rfl⟩ := mem_of_folderById found
    exact ⟨_, ⟨filed, ⟨filedMember, inherits⟩, document, documentMember, inFolder,
      ⟨bare, uncleared⟩, rfl⟩, rfl⟩

theorem unaddressed_of_override (nodup : (documents.map Document.documentKey).Nodup)
    {document : Document} (documentMember : document ∈ documents)
    (override : document.viewerPermissionsConfig ≠ none) :
    ∀ payload ∈ collectSubtreePropagation folders documents changed,
      payload.documentKey ≠ document.documentKey := by
  intro payload collected sameKey
  obtain ⟨_, -, other, otherMember, -, bare, rfl⟩ := mem_collectSubtreePropagation.mp collected
  obtain rfl := inj_on_of_nodup_map nodup otherMember documentMember sameKey
  exact override bare.1

end Collect

/-! ## One request -/

/-- The document inherits, is filed in the open part below the folder, and has a chunk. -/
structure Affected (state : State) (folder : Folder) (document : Document) : Prop where
  bare : document.viewerPermissionsConfig = none
  below : FiledBelow state.folders folder.id document
  indexed : ∃ point ∈ state.index, point.documentKey = document.documentKey

section

variable (org : Org) (state : State) (request : Request)

/-- The request leaves the index in step: the folder keeps the masks that the index holds for each
document that depends on it. -/
def Covered : Prop :=
  ∀ folder, folderById state.folders request.folderId = some folder →
    ∀ document ∈ state.documents, Affected state folder document →
      KeepsMasks org state.folders folder request.body (request.body.tells document)

def Accepted : Prop :=
  ∃ result, updateFolder org state.folders state.documents request.folderId request.body =
    .ok result

end

section Serve

variable {org : Org} {state : State} {request : Request}

theorem serve_of_refused (refused : ¬ Accepted org state request) :
    serve org state request = state := by
  unfold serve
  split
  · rfl
  · rename_i folders payloads accepted
    exact absurd ⟨_, accepted⟩ refused

theorem serve_valid (valid : state.Valid) : (serve org state request).Valid := by
  unfold serve
  split
  · exact valid
  · rename_i folders payloads accepted
    exact ⟨updateFolder_wellFormed valid.wellFormed accepted, valid.keys_nodup⟩

@[simp] theorem documents_serve : (serve org state request).documents = state.documents := by
  unfold serve
  split <;> rfl

theorem accessKeys_delivered (valid : state.Valid) (sync : InSync state) {folder : Folder}
    {edited : Folder → Folder} (member : folder ∈ state.folders)
    (revises : Revises folder.id edited)
    (configured : (edited folder).access = folder.access.configured org request.body)
    {document : Document} (documentMember : document ∈ state.documents)
    (bare : document.viewerPermissionsConfig = none) {point : IndexPoint}
    (pointMember : point ∈ state.index) (sameKey : point.documentKey = document.documentKey) :
    let payloads :=
      if request.body.viewerPermissionsConfig.isSome then
        collectSubtreePropagation (state.folders.map edited) state.documents (edited folder)
      else []
    (FiledBelow state.folders folder.id document →
      (payloads.foldl IndexPoint.refresh point).accessKeys =
        toldMasks state.folders (state.folders.map edited) folder (edited folder)
          (request.body.tells document)) ∧
    (¬ FiledBelow state.folders folder.id document →
      (payloads.foldl IndexPoint.refresh point).accessKeys =
        inheritedMasks state.folders document.folderId) := by
  have wellFormed' := valid.wellFormed.configure member revises configured
  have inStep := sync document documentMember bare point pointMember sameKey
  have addressed := addressed_iff wellFormed' valid.keys_nodup (mem_map_of_mem member)
    documentMember bare
  rw [revises.id, filedBelow_map valid.wellFormed revises, ← sameKey] at addressed
  have old : FiledBelow state.folders folder.id document →
      point.accessKeys = effectiveViewMasks state.folders (some folder) := fun below =>
    inStep.trans (inheritedMasks_of_filedBelow valid.wellFormed member below)
  unfold toldMasks FolderUpdate.tells
  cases request.body.viewerPermissionsConfig with
  | none => exact ⟨old, fun _ => inStep⟩
  | some _ =>
    simp only [isSome_some, if_true, Bool.true_and]
    -- A point no payload addresses is as it was.
    have unaddressed : ¬ (FiledBelow state.folders folder.id document ∧
        document.configCleared = false) →
        (collectSubtreePropagation (state.folders.map edited) state.documents
          (edited folder)).foldl IndexPoint.refresh point = point := fun apart =>
      foldl_refresh_of_unaddressed fun payload collected same =>
        apart (addressed.mp ⟨payload, collected, same⟩)
    refine ⟨fun below => ?_, fun apart => ?_⟩
    · cases cleared : document.configCleared with
      | true =>
        rw [unaddressed fun both => by rw [cleared] at both; cases both.2]
        exact old below
      | false =>
        refine accessKeys_foldl_refresh (fun payload collected => ?_)
          (addressed.mpr ⟨below, cleared⟩)
        obtain ⟨_, -, _, -, -, -, rfl⟩ := mem_collectSubtreePropagation.mp collected
        rfl
    · rw [unaddressed fun both => apart both.1]
      exact inStep

/-- **One request.** The index is in sync after an accepted request exactly when the request is
covered. -/
theorem serve_inSync_iff (valid : state.Valid) (sync : InSync state)
    (accepted : Accepted org state request) :
    InSync (serve org state request) ↔ Covered org state request := by
  obtain ⟨⟨folders', payloads⟩, accepted⟩ := accepted
  obtain ⟨folder, edited, moved, found, revises, configured, revises', moves, rfl, collected⟩ :=
    updateFolder_cases accepted
  obtain ⟨member, sameId⟩ := mem_of_folderById found
  rw [← sameId] at revises revises'
  have member' : edited folder ∈ state.folders.map edited := mem_map_of_mem member
  have wellFormed'' := (valid.wellFormed.configure member revises configured).move member'
    (revises.id folder ▸ revises') moves
  have kept (document : Document) := toldMasks_eq_iff valid.wellFormed member revises configured
    revises' moves fun tells : request.body.tells document = true =>
      (Bool.and_eq_true_iff.mp tells).1
  let image := fun folder => moved (edited folder)
  have revisesAll : Revises folder.id image := revises'.comp revises
  have relocated : (state.folders.map edited).map moved = state.folders.map image := map_map
  simp only [relocated] at kept wellFormed''
  have served : serve org state request =
      { state with folders := state.folders.map image, index := deliver state.index payloads } := by
    simp only [serve, accepted, relocated]
  -- What an inheriting document should carry after the request.
  have due : ∀ document, FiledBelow state.folders folder.id document →
      inheritedMasks (state.folders.map image) document.folderId =
        effectiveViewMasks (state.folders.map image) (some (image folder)) := fun document below =>
    inheritedMasks_of_filedBelow wellFormed'' (mem_map_of_mem member)
      (revisesAll.id folder ▸ (filedBelow_map valid.wellFormed revisesAll document).mpr below)
  have due_apart : ∀ document, ¬ FiledBelow state.folders folder.id document →
      inheritedMasks (state.folders.map image) document.folderId =
        inheritedMasks state.folders document.folderId := fun document apart =>
    inheritedMasks_map valid.wellFormed revisesAll fun parent lookup inherits =>
      apart ⟨parent, lookup, inherits⟩
  rw [served]
  constructor
  · intro after other isFolder document documentMember affected
    obtain rfl := some.inj (found.symm.trans isFolder)
    obtain ⟨point, pointMember, sameKey⟩ := affected.indexed
    have keys := (accessKeys_delivered valid sync member revises configured documentMember
      affected.bare pointMember sameKey).1 affected.below
    rw [← collected] at keys
    have inStep := after document documentMember affected.bare _ (mem_map_of_mem pointMember)
      (by simpa using sameKey)
    rw [keys, due document affected.below] at inStep
    exact (kept document).mp inStep
  · intro covered document documentMember bare point pointMember sameKey
    obtain ⟨original, originalMember, rfl⟩ := mem_map.mp pointMember
    rw [documentKey_foldl_refresh] at sameKey
    obtain ⟨keys, keys_apart⟩ := accessKeys_delivered valid sync member revises configured
      documentMember bare originalMember sameKey
    rw [← collected] at keys keys_apart
    by_cases below : FiledBelow state.folders folder.id document
    · rw [keys below, due document below]
      exact (kept document).mpr
        (covered folder found document documentMember ⟨bare, below, original, originalMember, sameKey⟩)
    · rw [keys_apart below, due_apart document below]

/-- The chunks of a document. -/
def chunksOf (state : State) (document : Document) : List IndexPoint :=
  state.index.filter fun point => point.documentKey = document.documentKey

/-- A request never touches the chunks of a document with a viewer config of its own. -/
theorem chunksOf_serve (valid : state.Valid) {document : Document}
    (documentMember : document ∈ state.documents)
    (override : document.viewerPermissionsConfig ≠ none) :
    chunksOf (serve org state request) document = chunksOf state document := by
  unfold serve
  split
  · rfl
  · rename_i folders payloads accepted
    obtain ⟨folder, edited, -, -, -, -, -, -, -, rfl⟩ := updateFolder_cases accepted
    simp only [chunksOf, deliver, List.filter_map]
    have keys : ((fun point : IndexPoint => decide (point.documentKey = document.documentKey)) ∘
        fun point => (if request.body.viewerPermissionsConfig.isSome then
          collectSubtreePropagation (state.folders.map edited) state.documents (edited folder)
        else []).foldl IndexPoint.refresh point) =
        fun point => decide (point.documentKey = document.documentKey) := by
      funext point
      simp
    rw [keys]
    refine (List.map_congr_left fun point chunk => ?_).trans (List.map_id _)
    have sameKey : point.documentKey = document.documentKey := by
      simpa using (mem_filter.mp chunk).2
    refine foldl_refresh_of_unaddressed fun payload collected => ?_
    split at collected
    · exact sameKey ▸ unaddressed_of_override valid.keys_nodup documentMember override payload
        collected
    · cases collected

end Serve

/-! ## Runs of requests -/

/-- Every accepted request of the run is covered when it arrives. -/
def CoveredRun (org : Org) (state : State) (requests : List Request) : Prop :=
  ∀ before request after, requests = before ++ request :: after →
    Accepted org (run org state before) request → Covered org (run org state before) request

variable {state : State}

theorem CoveredRun.of_prefix {org : Org} {requests before : List Request}
    (covered : CoveredRun org state requests) (earlier : before <+: requests) :
    CoveredRun org state before := by
  obtain ⟨rest, rfl⟩ := earlier
  exact fun first next after split => covered first next (after ++ rest) (by simp [split])

theorem run_append (org : Org) (state : State) (before : List Request) (request : Request) :
    run org state (before ++ [request]) = serve org (run org state before) request := by
  simp [run]

@[simp] theorem documents_run (org : Org) (state : State) (requests : List Request) :
    (run org state requests).documents = state.documents := by
  induction requests generalizing state with
  | nil => rfl
  | cons request requests ih => exact (ih (serve org state request)).trans documents_serve

theorem run_valid {org : Org} (valid : state.Valid) (requests : List Request) :
    (run org state requests).Valid := by
  induction requests generalizing state with
  | nil => exact valid
  | cons request requests ih => exact ih (serve_valid valid)

theorem inSync_run {org : Org} (valid : state.Valid) (sync : InSync state) (requests : List Request)
    (covered : CoveredRun org state requests) : InSync (run org state requests) := by
  induction requests using List.reverseRecOn with
  | nil => exact sync
  | append_singleton before request ih =>
    have earlier : InSync (run org state before) :=
      ih (covered.of_prefix (prefix_append _ _))
    rw [run_append]
    by_cases accepted : Accepted org (run org state before) request
    · exact (serve_inSync_iff (run_valid valid before) earlier accepted).mpr
        (covered before request [] rfl accepted)
    · exact (serve_of_refused accepted).symm ▸ earlier

theorem chunksOf_run {org : Org} (valid : state.Valid) {document : Document}
    (documentMember : document ∈ state.documents)
    (override : document.viewerPermissionsConfig ≠ none) (requests : List Request) :
    chunksOf (run org state requests) document = chunksOf state document := by
  induction requests using List.reverseRecOn with
  | nil => rfl
  | append_singleton before request ih =>
    rw [run_append, chunksOf_serve (run_valid valid before) (by simpa using documentMember)
      override, ih]

/-- **The index follows the folder tree over every run of covered requests, and after a single
accepted request only if it is covered.** Documents with a viewer config of their own are
untouched throughout. -/
theorem index_follows_tree {org : Org} {state : State} (valid : state.Valid)
    (sync : InSync state) (requests : List Request) :
    (∀ document ∈ state.documents, document.viewerPermissionsConfig ≠ none →
      chunksOf (run org state requests) document = chunksOf state document) ∧
    (CoveredRun org state requests →
      ∀ before, before <+: requests → InSync (run org state before)) ∧
    ∀ request, InSync (run org state requests) → Accepted org (run org state requests) request →
      (InSync (run org state (requests ++ [request])) ↔
        Covered org (run org state requests) request) := by
  refine ⟨fun document documentMember override => ?_, fun covered before earlier => ?_, ?_⟩
  · exact chunksOf_run valid documentMember override requests
  · exact inSync_run valid sync before (covered.of_prefix earlier)
  · intro request current accepted
    rw [run_append]
    exact serve_inSync_iff (run_valid valid requests) current accepted

/-! ## A bare reparent -/

/-- A public shelf, a southern shelf, and a folder on the public one with an indexed document. -/
def shelves : State where
  folders := [
    { id := 0, name := "Public" },
    { id := 1, name := "South", viewerPermissionsConfig := some [{ region := some "South" }]
      viewPermissionMasks := viewerMasks twoRegions [{ region := some "South" }] },
    { id := 2, name := "Plans", parentId := some 0 }]
  documents := [{ documentKey := "plan", title := "Plan", folderId := some 2 }]
  index := [{ documentKey := "plan", accessKeys := [], tags := ["folder:2"], title := "Plan" }]

/-- Move the folder to the southern shelf. -/
def reparent : Request := ⟨2, { parentId := some (some 1) }⟩

/-- Give the folder a config of its own. -/
def configureNorth : Request :=
  ⟨2, { viewerPermissionsConfig := some (some [{ region := some "North" }]) }⟩

theorem shelves_valid : shelves.Valid where
  wellFormed := {
    ids_nodup := by decide
    parents_present := by decide
    acyclic := Reach.acyclic_of_height id fun a b edge => by
      obtain ⟨rfl, rfl⟩ : a = 2 ∧ b = 0 := by
        simpa [Reach.Edge, parentEdges, shelves] using edge
      decide }
  keys_nodup := by decide

theorem shelves_inSync : InSync shelves := by
  unfold InSync
  decide

/-- A config of its own reaches the document's chunk. -/
theorem configureNorth_keeps_index : InSync (run twoRegions shelves [configureNorth]) := by
  refine (index_follows_tree shelves_valid shelves_inSync [configureNorth]).2.1
    (fun before request after split _ folder _ document member _ => ?_) _ (prefix_refl _)
  cases before with
  | nil =>
    obtain ⟨rfl, -⟩ := List.cons.inj split
    obtain rfl := mem_singleton.mp member
    exact .inl rfl
  | cons _ _ => simp at split

/-- After the reparent the document inherits the southern masks, and its chunk is still public. -/
theorem reparent_leaves_index_stale :
    shelves.Valid ∧ InSync shelves ∧ ¬ InSync (run twoRegions shelves [reparent]) := by
  refine ⟨shelves_valid, shelves_inSync, ?_⟩
  unfold InSync
  decide

end RedArchKM.Access
