import RedArchKM.Access.FolderUpdate
import RedArchKM.Lib.Trace

/-!
# The paths of the folder tree

Folders are created, renamed and moved, one request after the other. A rename and a move rebuild the
display paths of a subtree from a prefix, every other path is left alone. Still every path is the
one that the names on the way up spell (`tree_kept`).

What a path is says `NamePath`, from the parent links alone. The proof carries the local statement
`Pathed`: every path extends the path of the parent by the folder's own name. Rebuilding the paths
below a folder repairs it wherever it was broken (`pathed_rewrite`).
-/

namespace RedArchKM.Access

open Lib Lib.Fallible List Option

/-! ## Operations -/

/-- A request for a new folder. -/
structure FolderCreate where
  name : String
  description : Option String := none
  parentId : Option Nat := none
  viewerPermissionsConfig : Option (List ConfigEntry) := none
  contributorPermissionsConfig : Option (List ConfigEntry) := none

def buildDotPath (folders : List Folder) (name : String) (parentId : Option Nat) : String :=
  match parentId with
  | none => name
  | some parentId =>
    match folderById folders parentId with
    | none => name
    | some parent => s!"{parent.dotPath}.{name}"

/-- Create a folder under the next id. The tables refuse an id that is taken, a parent that does not
exist, and a name that the parent already has. -/
def createFolder (org : Org) (folders : List Folder) (id : Nat) (body : FolderCreate) :
    Except UpdateError (List Folder) :=
  let dotPath := buildDotPath folders body.name body.parentId
  match computeFolderMasks (some org) body.viewerPermissionsConfig
      body.contributorPermissionsConfig with
  | .error detail => .error (.valueError detail)
  | .ok (viewMasks, contributorMasks) =>
    if id ∈ folders.map Folder.id ∨
        (∃ parentId ∈ body.parentId, parentId ∉ folders.map Folder.id) ∨
        nameTaken folders id body.name body.parentId then .error .integrityError
    else
      .ok (folders ++ [{
        id := id
        name := body.name
        description := body.description
        dotPath := dotPath
        parentId := body.parentId
        viewerPermissionsConfig := body.viewerPermissionsConfig
        contributorPermissionsConfig := body.contributorPermissionsConfig
        viewPermissionMasks := viewMasks
        contributorPermissionMasks := contributorMasks }])

/-- The operations on the folders of an org. An update may rename and move in one request. -/
inductive FolderOp where
  | create (id : Nat) (body : FolderCreate)
  | rename (id : Nat) (newName : String)
  | move (id : Nat) (newParentId : Option Nat)
  | update (id : Nat) (body : FolderUpdate)

/-- The folder whose subtree an operation may rewrite. -/
def FolderOp.target : FolderOp → Option Nat
  | .create _ _ => none
  | .rename id _ => some id
  | .move id _ => some id
  | .update id _ => some id

section

variable (org : Org) (documents : List Document) (folders : List Folder)

def perform : FolderOp → Except UpdateError (List Folder)
  | .create id body => createFolder org folders id body
  | .rename id newName => do rename folders (← getFolder folders id) newName
  | .move id newParentId => do moveFolder folders (← getFolder folders id) newParentId
  | .update id body => return (← updateFolder org folders documents id body).1

/-- An operation that fails is rolled back. -/
def next (op : FolderOp) : Option (List Folder) :=
  some ((perform org documents folders op).toOption.getD folders)

end

/-! ## What is promised -/

inductive NamePath (folders : List Folder) : Folder → List String → Prop
  | root {folder : Folder} (top : folder.parentId = none) : NamePath folders folder [folder.name]
  | child {folder parent : Folder} {names : List String} (member : parent ∈ folders)
      (link : folder.parentId = some parent.id) (above : NamePath folders parent names) :
      NamePath folders folder (names ++ [folder.name])

/-- Every chain of parents is shorter than the bound for path rebuilds. -/
def Shallow (folders : List Folder) : Prop :=
  ∀ folder ∈ folders, ∀ names, NamePath folders folder names → names.length < maxDepth

def cycleError : UpdateError :=
  .badRequest "Cannot move a folder under itself or one of its descendants"

/-- What is promised of the folders of an org. -/
structure TreeKept (org : Org) (documents : List Document) (folders : List Folder) : Prop where
  forest : Reach.Acyclic (parentEdges folders)
  paths : ∀ folder ∈ folders, ∃ names, NamePath folders folder names ∧
    folder.dotPath = ".".intercalate names
  cycles : ∀ folder ∈ folders, ∀ newParentId,
    moveFolder folders folder newParentId = .error cycleError ↔
      ∃ parent ∈ folders, newParentId = some parent.id ∧
        Reach.Reaches (parentEdges folders) parent.id folder.id
  outside : ∀ op folders', perform org documents folders op = .ok folders' →
    ∀ folder ∈ folders,
      (∀ id ∈ op.target, ¬Reach.Reaches (parentEdges folders) folder.id id) → folder ∈ folders'

/-! ## Paths by the parent -/

def Pathed (folders : List Folder) : Prop :=
  ∀ folder ∈ folders, folder.dotPath = childPath (parentIn folders folder) folder.name

namespace NamePath

variable {folders : List Folder} {folder : Folder} {names : List String}

theorem ne_nil (path : NamePath folders folder names) : names ≠ [] := by
  cases path <;> simp

theorem map {image : Folder → Folder} (keeps : ∀ folder, (image folder).id = folder.id)
    (links : ∀ folder, (image folder).parentId = folder.parentId)
    (path : NamePath folders folder names) :
    ∃ names', names'.length = names.length ∧
      NamePath (folders.map image) (image folder) names' := by
  induction path with
  | @root folder top => exact ⟨[(image folder).name], rfl, .root ((links folder).trans top)⟩
  | child member link _ ih =>
    obtain ⟨names', same, above⟩ := ih
    refine ⟨names' ++ [_], by simp [same], .child (mem_map_of_mem member) ?_ above⟩
    rw [links, link, keeps]

theorem of_map {image : Folder → Folder} (keeps : ∀ folder, (image folder).id = folder.id)
    (links : ∀ folder, (image folder).parentId = folder.parentId)
    (path : NamePath (folders.map image) (image folder) names) :
    ∃ names', names'.length = names.length ∧ NamePath folders folder names' := by
  generalize revised : image folder = other at path
  induction path generalizing folder with
  | root top =>
    subst revised
    exact ⟨[folder.name], rfl, .root ((links folder).symm.trans top)⟩
  | child member link _ ih =>
    subst revised
    obtain ⟨parent, parentMember, rfl⟩ := mem_map.mp member
    obtain ⟨names', same, above⟩ := ih rfl
    refine ⟨names' ++ [folder.name], by simp [same], .child parentMember ?_ above⟩
    rw [← links, link, keeps]

end NamePath

variable {folders : List Folder}

theorem shallow_map {image : Folder → Folder} (keeps : ∀ folder, (image folder).id = folder.id)
    (links : ∀ folder, (image folder).parentId = folder.parentId) :
    Shallow (folders.map image) ↔ Shallow folders := by
  constructor
  · intro shallow folder member names path
    obtain ⟨names', same, carried⟩ := path.map keeps links
    exact same ▸ shallow _ (mem_map_of_mem member) names' carried
  · intro shallow other member names path
    obtain ⟨folder, folderMember, rfl⟩ := mem_map.mp member
    obtain ⟨names', same, back⟩ := path.of_map keeps links
    exact same ▸ shallow folder folderMember names' back

theorem shallow_of_falls (falls : ∀ folder ∈ folders, folder.id + 1 < maxDepth ∧
      ∀ parentId ∈ folder.parentId, parentId < folder.id) : Shallow folders := by
  have bound : ∀ folder ∈ folders, ∀ names, NamePath folders folder names →
      names.length ≤ folder.id + 1 := by
    intro folder member names path
    induction path with
    | root => exact Nat.le_add_left 1 _
    | child parentMember link _ ih =>
      rw [length_append, length_singleton]
      have lower := (falls _ member).2 _ link
      have above := ih parentMember
      omega
  exact fun folder member names path =>
    Nat.lt_of_le_of_lt (bound folder member names path) (falls folder member).1

section Forest

variable {folders : List Folder} (wellFormed : WellFormed folders)
include wellFormed

theorem WellFormed.parentIn_eq {folder parent : Folder} (member : parent ∈ folders)
    (link : folder.parentId = some parent.id) : parentIn folders folder = some parent := by
  rw [parentIn, link]
  exact wellFormed.folderById_eq member

variable {folder : Folder}

theorem WellFormed.parentIn_eq_none (member : folder ∈ folders)
    (top : parentIn folders folder = none) : folder.parentId = none := by
  cases link : folder.parentId with
  | none => rfl
  | some parentId =>
    obtain ⟨parent, parentMember, rfl⟩ :=
      mem_map.mp (wellFormed.parents_present folder member parentId link)
    rw [wellFormed.parentIn_eq parentMember link] at top
    cases top

theorem WellFormed.exists_namePath (member : folder ∈ folders) :
    ∃ names, NamePath folders folder names := by
  obtain ⟨path, value, climb⟩ := wellFormed.exists_climb (fun _ => (none : Option Unit)) member
  induction climb with
  | own owned => cases owned
  | root _ top => exact ⟨_, .root (wellFormed.parentIn_eq_none member top)⟩
  | up _ link _ ih =>
    obtain ⟨parentMember, parentId⟩ := parentIn_eq_some link
    obtain ⟨names, above⟩ := ih parentMember
    exact ⟨_, .child parentMember parentId above⟩

/-- **Paths by the parent are the joined names.** -/
theorem Pathed.dotPath_eq (pathed : Pathed folders) {names : List String}
    (member : folder ∈ folders) (path : NamePath folders folder names) :
    folder.dotPath = ".".intercalate names := by
  induction path with
  | @root folder top =>
    have rootless : parentIn folders folder = none := by rw [parentIn, top]; rfl
    rw [pathed folder member, rootless, String.intercalate_singleton]
    rfl
  | @child folder parent names parentMember link above ih =>
    rw [pathed folder member, wellFormed.parentIn_eq parentMember link,
      String.intercalate_append_of_ne_nil above.ne_nil (cons_ne_nil _ _),
      String.intercalate_singleton, ← ih parentMember]
    rfl

end Forest

/-! ## Rebuilding the paths of a subtree -/

section Rebuilt

variable {folders : List Folder} {newPrefix : String} {folderId : Nat}

def rebuilt (folders : List Folder) (newPrefix : String) (folderId : Nat) (folder : Folder) :
    Folder :=
  { folder with
    dotPath := (subtreePath folders folderId newPrefix maxDepth folder).getD folder.dotPath }

@[simp] theorem rebuilt_id (folder : Folder) :
    (rebuilt folders newPrefix folderId folder).id = folder.id := rfl

@[simp] theorem rebuilt_parentId (folder : Folder) :
    (rebuilt folders newPrefix folderId folder).parentId = folder.parentId := rfl

theorem rewriteSubtreePaths_eq (folders : List Folder) (newPrefix : String) (folderId : Nat) :
    rewriteSubtreePaths folders newPrefix folderId =
      folders.map (rebuilt folders newPrefix folderId) := by
  refine map_congr_left fun folder _ => ?_
  rw [rebuilt]
  cases subtreePath folders folderId newPrefix maxDepth folder <;> rfl

variable {folder : Folder}

theorem rebuilt_of_none (outside : subtreePath folders folderId newPrefix maxDepth folder = none) :
    rebuilt folders newPrefix folderId folder = folder := by
  rw [rebuilt, outside]
  rfl

theorem dotPath_rebuilt {path : String}
    (inside : subtreePath folders folderId newPrefix maxDepth folder = some path) :
    (rebuilt folders newPrefix folderId folder).dotPath = path := by
  rw [rebuilt, inside]
  rfl

theorem subtreePath_self (same : folder.id = folderId) (depth : Nat) :
    subtreePath folders folderId newPrefix depth folder = some newPrefix := by
  cases depth <;> simp [subtreePath, same]

theorem subtreePath_succ (different : folder.id ≠ folderId) (depth : Nat) :
    subtreePath folders folderId newPrefix (depth + 1) folder =
      ((parentIn folders folder).bind (subtreePath folders folderId newPrefix depth)).map
        fun path => path ++ "." ++ folder.name := by
  rw [subtreePath, if_neg different]

variable {depth : Nat}

theorem subtreePath_mono {path : String}
    (found : subtreePath folders folderId newPrefix depth folder = some path) :
    subtreePath folders folderId newPrefix (depth + 1) folder = some path := by
  induction depth generalizing folder path with
  | zero =>
    by_cases same : folder.id = folderId
    · rwa [subtreePath_self same] at found ⊢
    · simp [subtreePath, same] at found
  | succ depth ih =>
    by_cases same : folder.id = folderId
    · rwa [subtreePath_self same] at found ⊢
    · rw [subtreePath_succ same] at found ⊢
      obtain ⟨above, walked, rfl⟩ := map_eq_some_iff.mp found
      obtain ⟨parent, link, rest⟩ := bind_eq_some_iff.mp walked
      rw [link, bind_some, ih rest]
      rfl

theorem reaches_of_subtreePath {path : String} (member : folder ∈ folders)
    (found : subtreePath folders folderId newPrefix depth folder = some path) :
    Reach.Reaches (parentEdges folders) folder.id folderId := by
  induction depth generalizing folder path with
  | zero =>
    by_cases same : folder.id = folderId
    · exact same ▸ .refl
    · simp [subtreePath, same] at found
  | succ depth ih =>
    by_cases same : folder.id = folderId
    · exact same ▸ .refl
    · rw [subtreePath_succ same] at found
      obtain ⟨above, walked, -⟩ := map_eq_some_iff.mp found
      obtain ⟨parent, link, rest⟩ := bind_eq_some_iff.mp walked
      obtain ⟨parentMember, parentId⟩ := parentIn_eq_some link
      exact .head (edge_parentEdges.mpr ⟨folder, member, rfl, parentId⟩) (ih parentMember rest)

theorem subtreePath_eq_none (member : folder ∈ folders)
    (outside : ¬Reach.Reaches (parentEdges folders) folder.id folderId) :
    subtreePath folders folderId newPrefix depth folder = none := by
  cases found : subtreePath folders folderId newPrefix depth folder with
  | none => rfl
  | some path => exact absurd (reaches_of_subtreePath member found) outside

/-- A rebuild that is deep enough gives every folder below the rewritten one a path. -/
theorem WellFormed.subtreePath_isSome (wellFormed : WellFormed folders) {target : Folder}
    {names : List String} (member : folder ∈ folders) (path : NamePath folders folder names)
    (deep : names.length ≤ depth + 1)
    (below : Reach.Reaches (parentEdges folders) folder.id target.id) :
    ∃ path, subtreePath folders target.id newPrefix depth folder = some path := by
  induction path generalizing depth with
  | @root folder top =>
    by_cases same : folder.id = target.id
    · exact ⟨_, subtreePath_self same depth⟩
    · obtain ⟨parent, link, -⟩ := wellFormed.parentIn_of_reaches member same below
      rw [parentIn, top] at link
      cases link
  | @child folder parent names parentMember parentId above ih =>
    by_cases same : folder.id = target.id
    · exact ⟨_, subtreePath_self same depth⟩
    · obtain ⟨other, link, onward⟩ := wellFormed.parentIn_of_reaches member same below
      have isParent := wellFormed.parentIn_eq parentMember parentId
      cases isParent.symm.trans link
      have nonempty : 0 < names.length := length_pos_of_ne_nil above.ne_nil
      rw [length_append, length_singleton] at deep
      cases depth with
      | zero => omega
      | succ depth =>
        obtain ⟨walked, rest⟩ := ih parentMember (Nat.le_of_succ_le_succ deep) onward
        rw [subtreePath_succ same, link, bind_some, rest]
        exact ⟨_, rfl⟩

/-- **Rebuilding the paths of a subtree** leaves every path an extension of the parent's, if the
prefix is right for the folder at the top and the paths outside were right. -/
theorem pathed_rewrite (wellFormed : WellFormed folders) (shallow : Shallow folders)
    {target : Folder} (targetMember : target ∈ folders)
    (outside : ∀ folder ∈ folders, ¬Reach.Reaches (parentEdges folders) folder.id target.id →
      folder.dotPath = childPath (parentIn folders folder) folder.name) :
    Pathed (rewriteSubtreePaths folders (childPath (parentIn folders target) target.name)
      target.id) := by
  generalize isPrefix : childPath (parentIn folders target) target.name = newPrefix
  rw [rewriteSubtreePaths_eq]
  intro other otherMember
  obtain ⟨folder, member, rfl⟩ := mem_map.mp otherMember
  have parents : parentIn (folders.map (rebuilt folders newPrefix target.id))
      (rebuilt folders newPrefix target.id folder) =
        (parentIn folders folder).map (rebuilt folders newPrefix target.id) :=
    parentIn_map rebuilt_id folders (rebuilt_parentId folder)
  rw [parents]
  by_cases below : Reach.Reaches (parentEdges folders) folder.id target.id
  · by_cases same : folder.id = target.id
    · -- The parent of the target is not below it.
      obtain rfl := wellFormed.eq_of_id member targetMember same
      rw [dotPath_rebuilt (subtreePath_self rfl _), ← isPrefix]
      cases link : parentIn folders folder with
      | none => rfl
      | some parent =>
        obtain ⟨parentMember, parentId⟩ := parentIn_eq_some link
        have edge : Reach.Edge (parentEdges folders) folder.id parent.id :=
          edge_parentEdges.mpr ⟨folder, member, rfl, parentId⟩
        have above : ¬Reach.Reaches (parentEdges folders) parent.id folder.id := fun back =>
          wellFormed.acyclic folder.id (.head' edge back)
        rw [map_some, rebuilt_of_none (subtreePath_eq_none parentMember above)]
        rfl
    · obtain ⟨names, path⟩ := wellFormed.exists_namePath member
      have short := shallow folder member names path
      obtain ⟨built, found⟩ : ∃ built,
          subtreePath folders target.id newPrefix maxDepth folder = some built :=
        wellFormed.subtreePath_isSome member path (Nat.le_succ_of_le (Nat.le_of_lt short)) below
      rw [dotPath_rebuilt found]
      obtain ⟨depth, deep⟩ : ∃ depth, maxDepth = depth + 1 := ⟨999, rfl⟩
      rw [deep, subtreePath_succ same] at found
      obtain ⟨above, walked, rfl⟩ := map_eq_some_iff.mp found
      obtain ⟨parent, link, rest⟩ := bind_eq_some_iff.mp walked
      rw [link, map_some, childPath, dotPath_rebuilt (deep ▸ subtreePath_mono rest)]
      rfl
  · rw [rebuilt_of_none (subtreePath_eq_none member below), outside folder member below]
    cases link : parentIn folders folder with
    | none => rfl
    | some parent =>
      obtain ⟨parentMember, parentId⟩ := parentIn_eq_some link
      have apart : ¬Reach.Reaches (parentEdges folders) parent.id target.id := fun reaches =>
        below (.head (edge_parentEdges.mpr ⟨folder, member, rfl, parentId⟩) reaches)
      rw [map_some, rebuilt_of_none (subtreePath_eq_none parentMember apart)]

end Rebuilt

/-! ## What the operations keep -/

theorem WellFormed.append (wellFormed : WellFormed folders) {new : Folder}
    (fresh : new.id ∉ folders.map Folder.id)
    (present : ∀ parentId, new.parentId = some parentId → parentId ∈ folders.map Folder.id) :
    WellFormed (folders ++ [new]) where
  ids_nodup := by
    rw [map_append, map_singleton, nodup_append_comm]
    exact nodup_cons.mpr ⟨fresh, wellFormed.ids_nodup⟩
  parents_present folder member parentId link := by
    rw [map_append]
    refine mem_append_left _ ?_
    rcases mem_append.mp member with old | isLast
    · exact wellFormed.parents_present folder old parentId link
    · obtain rfl := mem_singleton.mp isLast
      exact present parentId link
  acyclic := by
    -- No link leads to the new leaf.
    have untouched : ∀ start, Reach.Reaches (parentEdges folders) start new.id →
        start = new.id := by
      intro start reaches
      induction reaches using Relation.ReflTransGen.head_induction_on with
      | refl => rfl
      | head edge _ ih =>
        subst ih
        obtain ⟨child, member, -, link⟩ := edge_parentEdges.mp edge
        exact absurd (wellFormed.parents_present child member _ link) fresh
    refine wellFormed.acyclic.relink (a := new.id) fun id parentId edge => ?_
    obtain ⟨child, member, rfl, link⟩ := edge_parentEdges.mp edge
    rcases mem_append.mp member with old | isLast
    · exact .inl (edge_parentEdges.mpr ⟨child, old, rfl, link⟩)
    · obtain rfl := mem_singleton.mp isLast
      refine .inr ⟨rfl, fun back => fresh ?_⟩
      rw [← untouched parentId back]
      exact present parentId link

/-- A revision of one folder that neither a link nor a path reads. -/
structure Plain (folderId : Nat) (image : Folder → Folder) : Prop where
  id : ∀ folder, (image folder).id = folder.id
  links : ∀ folder, (image folder).parentId = folder.parentId
  names : ∀ folder, (image folder).name = folder.name
  dotPaths : ∀ folder, (image folder).dotPath = folder.dotPath
  others : ∀ folder, folder.id ≠ folderId → image folder = folder

theorem Plain.refl (id : Nat) : Plain id fun folder => folder :=
  ⟨fun _ => rfl, fun _ => rfl, fun _ => rfl, fun _ => rfl, fun _ _ => rfl⟩

theorem Plain.comp {id : Nat} {image later : Folder → Folder} (second : Plain id later)
    (first : Plain id image) : Plain id (later ∘ image) where
  id folder := (second.id _).trans (first.id folder)
  links folder := (second.links _).trans (first.links folder)
  names folder := (second.names _).trans (first.names folder)
  dotPaths folder := (second.dotPaths _).trans (first.dotPaths folder)
  others folder different := by
    rw [Function.comp_apply, first.others folder different, second.others folder different]

theorem plain_setFolder {id : Nat} {change : Folder → Folder}
    (same : ∀ folder, (change folder).id = folder.id ∧
      (change folder).parentId = folder.parentId ∧ (change folder).name = folder.name ∧
      (change folder).dotPath = folder.dotPath) :
    Plain id fun folder => if folder.id = id then change folder else folder where
  id folder := by split <;> simp [same]
  links folder := by split <;> simp [same]
  names folder := by split <;> simp [same]
  dotPaths folder := by split <;> simp [same]
  others folder different := if_neg different

theorem applyDescription_plain (folders : List Folder) (folder : Folder) (body : FolderUpdate) :
    ∃ image, Plain folder.id image ∧ applyDescription folders folder body = folders.map image := by
  unfold applyDescription
  split
  · refine ⟨_, ?_, rfl⟩
    exact plain_setFolder fun _ => ⟨rfl, rfl, rfl, rfl⟩
  · exact ⟨_, .refl _, (map_id' folders).symm⟩

theorem applyConfigs_plain {org : Org} {folders' : List Folder} {folder : Folder}
    {body : FolderUpdate} (accepted : applyConfigs org folders folder body = .ok folders') :
    ∃ image, Plain folder.id image ∧ folders' = folders.map image := by
  unfold applyConfigs at accepted
  split at accepted
  · simp only [computeFolderMasks_some] at accepted
    cases accepted
    refine ⟨_, ?_, rfl⟩
    exact plain_setFolder fun _ => ⟨rfl, rfl, rfl, rfl⟩
  · cases accepted
    exact ⟨_, .refl _, (map_id' folders).symm⟩

/-- A forest whose paths are right. -/
structure Intact (folders : List Folder) : Prop where
  wellFormed : WellFormed folders
  pathed : Pathed folders

/-- Every folder that is not below the one of that id is left as it was. -/
def Spares (folders folders' : List Folder) (id : Nat) : Prop :=
  ∀ folder ∈ folders, ¬Reach.Reaches (parentEdges folders) folder.id id → folder ∈ folders'

section Change

variable {folders : List Folder} {target : Folder} {change : Folder → Folder}

theorem mem_setFolder_of_ne (change : Folder → Folder) {id : Nat} {folder : Folder}
    (member : folder ∈ folders) (different : folder.id ≠ id) :
    folder ∈ setFolder folders id change :=
  mem_map.mpr ⟨folder, member, if_neg different⟩

variable (keeps : ∀ folder, (change folder).id = folder.id)
include keeps

theorem id_changed (id : Nat) (folder : Folder) :
    (if folder.id = id then change folder else folder).id = folder.id := by
  split
  · exact keeps folder
  · rfl

/-- Away from the changed folder the links are the old ones, so what is outside stays outside. -/
theorem reaches_of_setFolder {id start : Nat}
    (reaches : Reach.Reaches (parentEdges (setFolder folders id change)) start id) :
    Reach.Reaches (parentEdges folders) start id := by
  refine reaches.of_kept fun child parent different edge => ?_
  obtain ⟨folder, member, rfl, link⟩ := (edge_parentEdges_map (id_changed keeps id)).mp edge
  rw [if_neg different] at link
  exact edge_parentEdges.mpr ⟨folder, member, rfl, link⟩

/-- **Changing a folder and rebuilding the paths below it** spares every other folder. -/
theorem spares_rewrite (newPrefix : String) (id : Nat) :
    Spares folders (rewriteSubtreePaths (setFolder folders id change) newPrefix id) id := by
  intro folder member outside
  have different : folder.id ≠ id := fun same => outside (same ▸ .refl)
  have kept := mem_setFolder_of_ne change member different
  rw [rewriteSubtreePaths_eq]
  refine mem_map.mpr ⟨folder, kept, rebuilt_of_none (subtreePath_eq_none kept ?_)⟩
  exact fun reaches => outside (reaches_of_setFolder keeps reaches)

theorem Intact.rewrite (intact : Intact folders) (member : target ∈ folders)
    (wellFormed : WellFormed (setFolder folders target.id change))
    (shallow : Shallow (setFolder folders target.id change)) {newPrefix : String}
    (isPrefix : newPrefix = childPath
      (parentIn (setFolder folders target.id change) (change target)) (change target).name) :
    Intact (rewriteSubtreePaths (setFolder folders target.id change) newPrefix target.id) where
  wellFormed := by
    rw [rewriteSubtreePaths_eq]
    exact wellFormed.map_of_links rebuilt_id fun folder _ => rebuilt_parentId folder
  pathed := by
    have changed : change target ∈ setFolder folders target.id change :=
      mem_map.mpr ⟨target, member, if_pos rfl⟩
    rw [isPrefix, ← keeps target]
    refine pathed_rewrite (keeps target ▸ wellFormed) (keeps target ▸ shallow)
      (keeps target ▸ changed) ?_
    rw [keeps]
    intro other otherMember outside
    obtain ⟨folder, folderMember, rfl⟩ := mem_map.mp otherMember
    have different : folder.id ≠ target.id := fun same => by
      rw [id_changed keeps, same] at outside
      exact outside .refl
    rw [if_neg different] at otherMember outside ⊢
    rw [intact.pathed folder folderMember]
    cases link : folder.parentId with
    | none => rw [parentIn, parentIn, link]; rfl
    | some parentId =>
      obtain ⟨parent, parentMember, rfl⟩ :=
        mem_map.mp (intact.wellFormed.parents_present folder folderMember parentId link)
      have apart : parent.id ≠ target.id := fun same => by
        refine outside (.single (edge_parentEdges.mpr ⟨folder, otherMember, rfl, ?_⟩))
        rw [link, same]
      rw [intact.wellFormed.parentIn_eq parentMember link,
        wellFormed.parentIn_eq (mem_setFolder_of_ne change parentMember apart) link]

end Change

section Steps

variable {folders folders' : List Folder} {folder : Folder}

variable {id : Nat} {org : Org} {payloads : List Payload}

theorem Intact.revise (intact : Intact folders) {image : Folder → Folder} (plain : Plain id image) :
    Intact (folders.map image) where
  wellFormed := intact.wellFormed.map_of_links plain.id fun folder _ => plain.links folder
  pathed := by
    intro other otherMember
    obtain ⟨folder, member, rfl⟩ := mem_map.mp otherMember
    rw [plain.dotPaths, plain.names, parentIn_map plain.id folders (plain.links folder),
      intact.pathed folder member]
    cases parentIn folders folder with
    | none => rfl
    | some parent => simp only [map_some, childPath, plain.dotPaths]

theorem rename_spares {newName : String} (accepted : rename folders folder newName = .ok folders') :
    Spares folders folders' folder.id ∧ parentEdges folders' = parentEdges folders := by
  obtain ⟨-, done⟩ := (guard_eq_ok fun _ done => by cases done).mp accepted
  cases done
  have keeps : ∀ folder : Folder, { folder with name := newName }.id = folder.id := fun _ => rfl
  refine ⟨spares_rewrite keeps _ _, ?_⟩
  rw [rewriteSubtreePaths_eq, parentEdges_map rebuilt_id fun other _ => rebuilt_parentId other]
  refine parentEdges_map (id_changed keeps folder.id) fun other _ => ?_
  split <;> rfl

/-- **A rename** keeps all paths right. -/
theorem Intact.rename (intact : Intact folders) (shallow : Shallow folders)
    (member : folder ∈ folders) {newName : String}
    (accepted : rename folders folder newName = .ok folders') :
    Intact folders' := by
  obtain ⟨-, done⟩ := (guard_eq_ok fun _ done => by cases done).mp accepted
  cases done
  let change (folder : Folder) : Folder := { folder with name := newName }
  have links : ∀ other, (if other.id = folder.id then change other else other).parentId =
      other.parentId := fun other => by split <;> rfl
  have keeps : ∀ folder, (change folder).id = folder.id := fun _ => rfl
  have renamed : WellFormed (setFolder folders folder.id change) :=
    intact.wellFormed.map_of_links (id_changed keeps folder.id) fun other _ => links other
  have shallow' : Shallow (setFolder folders folder.id change) :=
    (shallow_map (id_changed keeps folder.id) links).mpr shallow
  refine intact.rewrite keeps member renamed shallow' ?_
  cases link : parentIn folders folder with
  | none =>
    have top := intact.wellFormed.parentIn_eq_none member link
    rw [parentIn, show (change folder).parentId = none from top]
    rfl
  | some parent =>
    obtain ⟨parentMember, parentId⟩ := parentIn_eq_some link
    have apart : parent.id ≠ folder.id := fun same =>
      intact.wellFormed.acyclic folder.id
        (.single (edge_parentEdges.mpr ⟨folder, member, rfl, same ▸ parentId⟩))
    rw [renamed.parentIn_eq (mem_setFolder_of_ne change parentMember apart)
      (show (change folder).parentId = some parent.id from parentId)]

variable {newParentId : Option Nat} {body : FolderUpdate} {documents : List Document}

theorem moveFolder_eq (accepted : moveFolder folders folder newParentId = .ok folders') :
    folders' = rewriteSubtreePaths
      (setFolder folders folder.id fun folder => { folder with parentId := newParentId })
      (childPath (newParentId.bind (folderById folders)) folder.name) folder.id := by
  have relinked : ∀ newParent, move folders folder newParent = .ok folders' →
      folders' = rewriteSubtreePaths (setFolder folders folder.id fun folder =>
          { folder with parentId := newParent.map Folder.id })
        (childPath newParent folder.name) folder.id := fun newParent moved => by
    obtain ⟨-, done⟩ := (guard_eq_ok fun _ done => by cases done).mp moved
    exact (Except.ok.inj done).symm
  cases newParentId with
  | none => exact relinked none accepted
  | some parentId =>
    cases found : folderById folders parentId with
    | none =>
      simp only [moveFolder, found] at accepted
      cases accepted
    | some parent =>
      obtain ⟨-, rfl⟩ := mem_of_folderById found
      simp only [moveFolder, found, pure_bind, elim_some] at accepted
      obtain ⟨-, moved⟩ := (guard_eq_ok fun _ done => by cases done).mp accepted
      rw [relinked (some parent) moved, bind_some, found]
      rfl

theorem moveFolder_spares (accepted : moveFolder folders folder newParentId = .ok folders') :
    Spares folders folders' folder.id := by
  obtain rfl := moveFolder_eq accepted
  refine spares_rewrite ?_ _ _
  exact fun _ => rfl

/-- **A move** keeps all paths right. -/
theorem Intact.moveFolder (intact : Intact folders) (shallow : Shallow folders')
    (member : folder ∈ folders) (accepted : moveFolder folders folder newParentId = .ok folders') :
    Intact folders' := by
  obtain ⟨_, _, _, _, checked⟩ := moveFolder_cases accepted
  obtain rfl := moveFolder_eq accepted
  let change (folder : Folder) : Folder := { folder with parentId := newParentId }
  have keeps : ∀ folder, (change folder).id = folder.id := fun _ => rfl
  have relinked : WellFormed (setFolder folders folder.id change) := by
    have revises : Revises folder.id fun other =>
        if other.id = folder.id then change other else other :=
      ⟨id_changed keeps folder.id, fun other different => by rw [if_neg different]⟩
    have moves : Moves folders folder (fun other =>
        if other.id = folder.id then change other else other) (some newParentId) :=
      ⟨fun other same => by simp only [if_pos same]; rfl, checked⟩
    exact intact.wellFormed.move member revises moves
  rw [rewriteSubtreePaths_eq, shallow_map rebuilt_id rebuilt_parentId] at shallow
  refine intact.rewrite keeps member relinked shallow ?_
  cases newParentId with
  | none => rfl
  | some parentId =>
    obtain ⟨parent, found, apart, -⟩ := checked parentId rfl
    obtain ⟨parentMember, rfl⟩ := mem_of_folderById found
    rw [bind_some, found, relinked.parentIn_eq
      (mem_setFolder_of_ne change parentMember apart)
      (show (change folder).parentId = some parent.id from rfl)]

theorem updateFolder_parts
    (accepted : updateFolder org folders documents id body = .ok (folders', payloads)) :
    ∃ folder ∈ folders, folder.id = id ∧ ∃ renamed, applyName folders folder body = .ok renamed ∧
      ∃ image, Plain id image ∧ ∃ changed ∈ renamed.map image, changed.id = id ∧
        applyParent (renamed.map image) changed body = .ok folders' := by
  simp only [updateFolder, bind_eq_ok, pure_eq_ok, Prod.mk.injEq] at accepted
  obtain ⟨folder, fetched, renamed, named, configured, configs, changed, refreshed, relinked,
    parent, rfl, -⟩ := accepted
  obtain ⟨member, rfl⟩ := mem_of_folderById (getFolder_eq_ok.mp fetched)
  obtain ⟨changedMember, sameId⟩ := mem_of_folderById (getFolder_eq_ok.mp refreshed)
  obtain ⟨describe, plain₁, described⟩ := applyDescription_plain renamed folder body
  obtain ⟨configure, plain₂, rfl⟩ := applyConfigs_plain configs
  rw [described, List.map_map] at changedMember parent
  exact ⟨folder, member, rfl, renamed, named, _, plain₂.comp plain₁, changed, changedMember, sameId,
    parent⟩

theorem rename_of_applyName (accepted : applyName folders folder body = .ok folders') :
    (∃ newName, rename folders folder newName = .ok folders') ∨ folders' = folders := by
  unfold applyName at accepted
  split at accepted
  · split at accepted
    · exact .inl ⟨_, accepted⟩
    · exact .inr (Except.ok.inj accepted).symm
  · exact .inr (Except.ok.inj accepted).symm

theorem moveFolder_of_applyParent (accepted : applyParent folders folder body = .ok folders') :
    (∃ newParentId, moveFolder folders folder newParentId = .ok folders') ∨ folders' = folders := by
  unfold applyParent at accepted
  split at accepted
  · exact .inl ⟨_, accepted⟩
  · exact .inr (Except.ok.inj accepted).symm

theorem applyName_spares (accepted : applyName folders folder body = .ok folders') :
    Spares folders folders' folder.id ∧ parentEdges folders' = parentEdges folders := by
  rcases rename_of_applyName accepted with ⟨newName, renamed⟩ | rfl
  · exact rename_spares renamed
  · exact ⟨fun _ present _ => present, rfl⟩

theorem updateFolder_spares
    (accepted : updateFolder org folders documents id body = .ok (folders', payloads)) :
    Spares folders folders' id := by
  obtain ⟨folder, -, rfl, renamed, named, image, plain, changed, -, sameId, parent⟩ :=
    updateFolder_parts accepted
  obtain ⟨spares, edges⟩ := applyName_spares named
  intro other member outside
  have revised : other ∈ renamed.map image :=
    mem_map.mpr ⟨other, spares other member outside,
      plain.others other fun same => outside (same ▸ .refl)⟩
  rcases moveFolder_of_applyParent parent with ⟨newParentId, moved⟩ | rfl
  · refine moveFolder_spares moved other revised ?_
    rwa [parentEdges_map plain.id fun other _ => plain.links other, edges, sameId]
  · exact revised

/-- **An update** renames and moves in one request, and keeps all paths right. -/
theorem Intact.update (intact : Intact folders) (shallow : Shallow folders)
    (shallow' : Shallow folders')
    (accepted : updateFolder org folders documents id body = .ok (folders', payloads)) :
    Intact folders' := by
  obtain ⟨folder, member, rfl, renamed, named, image, plain, changed, changedMember, -, parent⟩ :=
    updateFolder_parts accepted
  have intact₁ : Intact renamed := by
    rcases rename_of_applyName named with ⟨newName, accepted⟩ | rfl
    · exact intact.rename shallow member accepted
    · exact intact
  have intact₂ := intact₁.revise plain
  rcases moveFolder_of_applyParent parent with ⟨newParentId, moved⟩ | rfl
  · exact intact₂.moveFolder shallow' changedMember moved
  · exact intact₂

theorem createFolder_subset {body : FolderCreate}
    (accepted : createFolder org folders id body = .ok folders') : folders ⊆ folders' := by
  rw [createFolder, computeFolderMasks_some] at accepted
  obtain ⟨-, done⟩ := (guard_eq_ok fun _ done => by cases done).mp accepted
  cases done
  exact subset_append_left _ _

/-- **A new folder** under an existing parent, or at the root, keeps all paths right. -/
theorem Intact.create {body : FolderCreate} (intact : Intact folders)
    (accepted : createFolder org folders id body = .ok folders') : Intact folders' := by
  rw [createFolder, computeFolderMasks_some] at accepted
  obtain ⟨free, done⟩ := (guard_eq_ok fun _ done => by cases done).mp accepted
  simp only [not_or, not_exists, not_and, not_not] at free
  obtain ⟨fresh, present, -⟩ := free
  cases done
  generalize isNew : Folder.mk id body.name body.description _ body.parentId _ _ _ _ = new
  obtain rfl : new.id = id := isNew ▸ rfl
  have link : new.parentId = body.parentId := isNew ▸ rfl
  have present : ∀ parentId, new.parentId = some parentId → parentId ∈ folders.map Folder.id :=
    fun parentId isParent => present parentId (link.symm.trans isParent)
  have wellFormed := intact.wellFormed.append fresh present
  refine ⟨wellFormed, fun folder member => ?_⟩
  have parents : ∀ folder, (∀ parentId, folder.parentId = some parentId →
      parentId ∈ folders.map Folder.id) →
      parentIn (folders ++ [new]) folder = parentIn folders folder := fun folder known => by
    cases isParent : folder.parentId with
    | none => rw [parentIn, parentIn, isParent]; rfl
    | some parentId =>
      obtain ⟨parent, parentMember, rfl⟩ := mem_map.mp (known parentId isParent)
      rw [intact.wellFormed.parentIn_eq parentMember isParent,
        wellFormed.parentIn_eq (mem_append_left _ parentMember) isParent]
  rcases mem_append.mp member with old | isLast
  · rw [parents folder (intact.wellFormed.parents_present folder old), intact.pathed folder old]
  · obtain rfl := mem_singleton.mp isLast
    rw [parents folder present, ← isNew, parentIn]
    cases body.parentId with
    | none => rfl
    | some parentId =>
      rw [bind_some, buildDotPath]
      cases folderById folders parentId <;> rfl

end Steps

/-! ## Moves that are refused -/

section Cycles

variable {folders : List Folder}

theorem reaches_ancestor {folder ancestor : Folder} (member : folder ∈ folders)
    (above : ancestor ∈ ancestors folders folder) :
    Reach.Reaches (parentEdges folders) folder.id ancestor.id := by
  rw [ancestors] at above
  cases link : folder.parentId with
  | none => simp [link] at above
  | some parentId =>
    rw [link] at above
    have loaded := Ancestry.forall_mem_chain
      (fun _ _ next => (parentIn_eq_some next).1) _
      (fun _ first => (mem_of_folderById first).1) ancestor above
    obtain ⟨start, isStart, reaches⟩ :=
      Reach.mem_reachable.mp (of_decide_eq_true (mem_filter.mp loaded).2)
    obtain rfl := mem_singleton.mp isStart
    exact .head (edge_parentEdges.mpr ⟨folder, member, rfl, link⟩) reaches

theorem move_ne_cycleError (folder : Folder) (newParent : Option Folder) :
    move folders folder newParent ≠ .error cycleError := by
  intro refused
  simp only [move] at refused
  split at refused
  · cases Except.error.inj refused
  · cases refused

variable (wellFormed : WellFormed folders)
include wellFormed

/-- **The cycle test is exact.** -/
theorem WellFormed.wouldCreateCycle_iff {folder parent : Folder} (member : folder ∈ folders)
    (parentMember : parent ∈ folders) :
    wouldCreateCycle folder (some parent) (ancestors folders parent) = true ↔
      Reach.Reaches (parentEdges folders) parent.id folder.id := by
  simp only [wouldCreateCycle, Bool.or_eq_true, decide_eq_true_eq, List.any_eq_true]
  constructor
  · rintro (same | ⟨ancestor, above, same⟩)
    · exact same ▸ .refl
    · exact same ▸ reaches_ancestor parentMember above
  · intro below
    by_cases same : parent.id = folder.id
    · exact .inl same
    · exact .inr (wellFormed.exists_ancestor parentMember member same below)

theorem WellFormed.moveFolder_cycle {folder : Folder} (member : folder ∈ folders)
    (newParentId : Option Nat) :
    moveFolder folders folder newParentId = .error cycleError ↔
      ∃ parent ∈ folders, newParentId = some parent.id ∧
        Reach.Reaches (parentEdges folders) parent.id folder.id := by
  cases newParentId with
  | none =>
    refine iff_of_false ?_ (by simp)
    exact move_ne_cycleError folder none
  | some parentId =>
    cases found : folderById folders parentId with
    | none =>
      refine iff_of_false (fun refused => ?_) ?_
      · simp only [moveFolder, found] at refused
        cases Except.error.inj refused
      · rintro ⟨parent, parentMember, isParent, -⟩
        cases isParent
        rw [wellFormed.folderById_eq parentMember] at found
        cases found
    | some parent =>
      obtain ⟨parentMember, rfl⟩ := mem_of_folderById found
      have tested : moveFolder folders folder (some parent.id) =
          if wouldCreateCycle folder (some parent) (ancestors folders parent) then
            .error cycleError
          else Access.move folders folder (some parent) := by
        simp only [moveFolder, found, pure_bind]
        rfl
      rw [tested]
      split
      · rename_i detected
        exact iff_of_true rfl ⟨parent, parentMember, rfl,
          (wellFormed.wouldCreateCycle_iff member parentMember).mp detected⟩
      · rename_i undetected
        refine iff_of_false (move_ne_cycleError folder (some parent)) ?_
        rintro ⟨other, otherMember, same, below⟩
        obtain rfl := wellFormed.eq_of_id parentMember otherMember (some.inj same)
        exact undetected ((wellFormed.wouldCreateCycle_iff member parentMember).mpr below)

end Cycles

/-! ## Runs -/

theorem intact_nil : Intact [] where
  wellFormed := ⟨nodup_nil, nofun, Reach.acyclic_of_height (fun _ => 0) nofun⟩
  pathed := nofun

section Runs

variable {org : Org} {documents : List Document}

variable {folders' : List Folder}

theorem Intact.perform {folders : List Folder} (intact : Intact folders) (shallow : Shallow folders)
    {op : FolderOp} (accepted : perform org documents folders op = .ok folders')
    (shallow' : Shallow folders') : Intact folders' := by
  cases op with
  | create id body => exact intact.create accepted
  | rename id newName =>
    obtain ⟨folder, fetched, renamed⟩ := bind_eq_ok.mp accepted
    exact intact.rename shallow (mem_of_folderById (getFolder_eq_ok.mp fetched)).1 renamed
  | move id newParentId =>
    obtain ⟨folder, fetched, moved⟩ := bind_eq_ok.mp accepted
    exact intact.moveFolder shallow' (mem_of_folderById (getFolder_eq_ok.mp fetched)).1 moved
  | update id body =>
    obtain ⟨⟨updated, payloads⟩, done, same⟩ := bind_eq_ok.mp accepted
    obtain rfl := pure_eq_ok.mp same
    exact intact.update shallow shallow' done

theorem perform_outside {folders : List Folder} {op : FolderOp}
    (accepted : perform org documents folders op = .ok folders') {folder : Folder}
    (member : folder ∈ folders)
    (outside : ∀ id ∈ op.target, ¬Reach.Reaches (parentEdges folders) folder.id id) :
    folder ∈ folders' := by
  cases op with
  | create id body => exact createFolder_subset accepted member
  | rename id newName =>
    obtain ⟨target, fetched, renamed⟩ := bind_eq_ok.mp accepted
    obtain ⟨-, rfl⟩ := mem_of_folderById (getFolder_eq_ok.mp fetched)
    exact (rename_spares renamed).1 folder member (outside _ rfl)
  | move id newParentId =>
    obtain ⟨target, fetched, moved⟩ := bind_eq_ok.mp accepted
    obtain ⟨-, rfl⟩ := mem_of_folderById (getFolder_eq_ok.mp fetched)
    exact moveFolder_spares moved folder member (outside _ rfl)
  | update id body =>
    obtain ⟨⟨updated, payloads⟩, done, same⟩ := bind_eq_ok.mp accepted
    obtain rfl := pure_eq_ok.mp same
    exact updateFolder_spares done folder member (outside _ rfl)

theorem next_cases {folders : List Folder} {op : FolderOp}
    (stepped : next org documents folders op = some folders') :
    perform org documents folders op = .ok folders' ∨ folders' = folders := by
  rw [next] at stepped
  cases performed : perform org documents folders op with
  | error refusal =>
    rw [performed] at stepped
    exact .inr (some.inj stepped).symm
  | ok result =>
    rw [performed] at stepped
    exact .inl (congrArg Except.ok (some.inj stepped))

/-- **The folders of an org stay a forest with the right paths**, after any operations, one after
the other, from the empty org on. -/
theorem tree_kept {ops : List FolderOp} {folders : List Folder}
    (passes : Trace.Passes (next org documents) [] ops folders)
    (shallow : ∀ passed, Trace.Passes (next org documents) [] ops passed → Shallow passed) :
    TreeKept org documents folders := by
  have intact : Intact folders := by
    refine passes.invariant Intact intact_nil fun before op after state state' split ran stepped
      intact => ?_
    rcases next_cases stepped with accepted | rfl
    · exact intact.perform (shallow state ⟨before, _, split, ran⟩) accepted
        (shallow state' (.next split ran stepped))
    · exact intact
  exact {
    forest := intact.wellFormed.acyclic
    paths := fun folder member => by
      obtain ⟨names, path⟩ := intact.wellFormed.exists_namePath member
      exact ⟨names, path, intact.pathed.dotPath_eq intact.wellFormed member path⟩
    cycles := fun folder member newParentId => intact.wellFormed.moveFolder_cycle member newParentId
    outside := fun op folders' accepted folder member => perform_outside accepted member }

end Runs

/-- Two roots of one name, a folder below the second, and an update that renames the second root and
moves it below the first. -/
def sharedRoots : List FolderOp :=
  [.create 1 { name := "a" }, .create 2 { name := "a" },
    .create 3 { name := "b", parentId := some 2 },
    .update 2 { name := some "c", parentId := some (some 1) }]

/-- The folder below follows to the path that the new names spell. -/
theorem tree_kept_sharedRoots :
    TreeKept twoRegions [] [{ id := 1, name := "a", dotPath := "a" },
      { id := 2, name := "c", dotPath := "a.c", parentId := some 1 },
      { id := 3, name := "b", dotPath := "a.c.b", parentId := some 2 }] := by
  refine @tree_kept twoRegions [] sharedRoots _ ⟨sharedRoots, [], rfl, by decide +kernel⟩
    fun passed passes => ?_
  unfold sharedRoots at passes
  simp only [Trace.passes_cons, Trace.passes_nil] at passes
  rcases passes with rfl | ⟨_, first, rfl | ⟨_, second, rfl | ⟨_, third, rfl | ⟨_, last, rfl⟩⟩⟩⟩
  · exact shallow_of_falls nofun
  all_goals cases first
  · exact shallow_of_falls (by decide +kernel)
  all_goals cases second
  · exact shallow_of_falls (by decide +kernel)
  all_goals cases third
  · exact shallow_of_falls (by decide +kernel)
  · cases last
    exact shallow_of_falls (by decide +kernel)

end RedArchKM.Access
