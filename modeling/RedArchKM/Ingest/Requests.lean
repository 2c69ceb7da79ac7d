import RedArchKM.Access.FolderUpdate
import RedArchKM.Ingest.BrainIndex

/-!
# Requests that touch a document

What the API does for a document, as the list of effects that a request has once its handler has
read the rows: revise the row, rewrite the original, purge the index, dispatch a task. The effects
of one request happen in this order, and those of others may happen in between.

Every dispatched payload is a copy of what the handler read. An ingest carries the folder tag
alone (`deriveIngestScoping`); a metadata update after a PATCH carries the user tags as well
(`currentScoping`).
-/

namespace RedArchKM.Ingest

open Option

open Access (ConfigEntry Document Folder FolderUpdate Org computeFolderMasks effectiveViewMasks
  folderById indexTags)

/-! ## The row -/

inductive ProcessingStatus where
  | pending
  | processing
  | success
  | failed
  | cancelled
deriving DecidableEq

/-- The states that the worker's callback does not leave. -/
def ProcessingStatus.terminal : ProcessingStatus → Bool
  | success => true
  | failed => true
  | cancelled => true
  | _ => false

/-- The states an ingest can be cancelled in. -/
def ProcessingStatus.cancellable : ProcessingStatus → Bool
  | pending => true
  | processing => true
  | _ => false

/-- Where an ingest task finds its text: in its payload, or in an original it downloads. -/
inductive Source where
  | text (text : String)
  | original (url : String)
deriving DecidableEq

structure Task where
  source : Source
  scoping : Scoping
  useKnowledgeGraph : Bool := true

structure Row where
  document : Document
  contributorPermissionsConfig : Option (List ConfigEntry) := none
  contributorPermissionMasks : List Nat := []
  text : Option String := none
  documentUrl : Option String := none
  useKnowledgeGraph : Option Bool := none
  contentHash : Option String := none
  processingStatus : ProcessingStatus := .pending
  celeryTaskId : Option Nat := none

/-- What a document is ingested from: its original, or else its own text, if not empty. -/
def Row.source (row : Row) : Option Source :=
  match row.documentUrl with
  | some url => some (.original url)
  | none => (row.text.filter (· ≠ "")).map .text

/-- The columns an UPDATE of the row sets. -/
structure Revision where
  title : Option String := none
  folderId : Option (Option Nat) := none
  tags : Option (List String) := none
  viewerPermissionsConfig : Option (Option (List ConfigEntry)) := none
  contributorPermissionsConfig : Option (Option (List ConfigEntry)) := none
  viewPermissionMasks : Option (List Nat) := none
  contributorPermissionMasks : Option (List Nat) := none
  text : Option (Option String) := none
  documentUrl : Option (Option String) := none
  contentHash : Option (Option String) := none
  processingStatus : Option ProcessingStatus := none
  celeryTaskId : Option (Option Nat) := none

/-- The row after the UPDATE. -/
def Row.revise (row : Row) (revision : Revision) : Row where
  document := {
    documentKey := row.document.documentKey
    title := revision.title.getD row.document.title
    folderId := revision.folderId.getD row.document.folderId
    tags := revision.tags.getD row.document.tags
    viewerPermissionsConfig :=
      revision.viewerPermissionsConfig.getD row.document.viewerPermissionsConfig
    configCleared := match revision.viewerPermissionsConfig with
      | some none => row.document.viewerPermissionsConfig.isSome || row.document.configCleared
      | some (some _) => false
      | none => row.document.configCleared
    viewPermissionMasks := revision.viewPermissionMasks.getD row.document.viewPermissionMasks }
  contributorPermissionsConfig :=
    revision.contributorPermissionsConfig.getD row.contributorPermissionsConfig
  contributorPermissionMasks :=
    revision.contributorPermissionMasks.getD row.contributorPermissionMasks
  text := revision.text.getD row.text
  documentUrl := revision.documentUrl.getD row.documentUrl
  useKnowledgeGraph := row.useKnowledgeGraph
  contentHash := revision.contentHash.getD row.contentHash
  processingStatus := revision.processingStatus.getD row.processingStatus
  celeryTaskId := revision.celeryTaskId.getD row.celeryTaskId

/-! ## Effects of a request -/

inductive Action where
  /-- Ask brain-api to purge, where a failure ends the request. -/
  | reachBrain
  | purgeVectors
  | purgeKnowledge
  /-- Put new content under the key of a stored original. -/
  | rewriteObject (url content : String)
  | storeObject (url content : String)
  | discardObject (url : String)
  /-- Flush a change of the row, which locks it until the commit. -/
  | lockRow
  | insertRow (row : Row)
  | updateRow (revision : Revision)
  | deleteRow
  | updateFolder (folderId : Nat) (body : FolderUpdate)
  | revoke (taskId : Nat)
  /-- Dispatch an ingest; a failure marks the row failed if `required`. -/
  | dispatchIngest (task : Task) (required : Bool)
  | persistTaskId
  | dispatchMetadataUpdate (scoping : Scoping)

def purgeBrainVectors : List Action := [.purgeVectors, .purgeKnowledge]

def Action.purgesVectors : Action → Bool
  | .purgeVectors => true
  | _ => false

def Action.purgesKnowledge : Action → Bool
  | .purgeKnowledge => true
  | _ => false

/-! ## Scoping -/

def Row.folder (row : Row) (folders : List Folder) : Option Folder :=
  row.document.folderId.bind (folderById folders)

/-- The document's own viewer permissions win; without them it inherits its folder's. -/
def Row.accessKeys (row : Row) (folders : List Folder) : List Nat :=
  match row.document.viewerPermissionsConfig with
  | some _ => row.document.viewPermissionMasks
  | none => effectiveViewMasks folders (row.folder folders)

def deriveIngestScoping (folders : List Folder) (row : Row) : List String × List Nat :=
  (indexTags [] ((row.folder folders).map Folder.id), row.accessKeys folders)

def currentScoping (folders : List Folder) (row : Row) : Scoping where
  title := row.document.title
  tags := indexTags row.document.tags ((row.folder folders).map Folder.id)
  accessKeys := row.accessKeys folders

def Row.ingestTask (row : Row) (title : String) (scoping : List String × List Nat)
    (source : Source) : Task where
  source := source
  scoping := ⟨title, scoping.1, scoping.2⟩
  useKnowledgeGraph := row.useKnowledgeGraph.getD true

/-! ## Creation -/

/-- The folder a body names; an unknown one is refused. -/
def checkedFolder (folders : List Folder) : Option Nat → Option (Option Folder)
  | none => some none
  | some folderId => (folderById folders folderId).map some

structure DocumentCreate where
  documentKey : String
  title : String
  text : Option String := none
  folderId : Option Nat := none
  tags : List String := []
  useKnowledgeGraph : Option Bool := none

def createDocument (folders : List Folder) (body : DocumentCreate) : Option (List Action) := do
  let folder ← checkedFolder folders body.folderId
  let row : Row := {
    document := {
      documentKey := body.documentKey
      title := body.title
      folderId := body.folderId
      tags := body.tags }
    text := body.text
    useKnowledgeGraph := body.useKnowledgeGraph }
  let scoping := (indexTags [] (folder.map Folder.id), effectiveViewMasks folders folder)
  match body.text.filter (· ≠ "") with
  | some text =>
    return [.insertRow row,
      .dispatchIngest (row.ingestTask body.title scoping (.text text)) false,
      .persistTaskId]
  | none => return [.insertRow row]

structure Upload where
  documentKey : String
  title : String
  filename : String
  content : String
  folderId : Option Nat := none

/-- One document of an upload. Its original is stored before the commit. -/
def uploadDocument (folders : List Folder) (body : Upload) : Option (List Action) := do
  let folder ← checkedFolder folders body.folderId
  let objectKey := body.documentKey ++ "/" ++ body.filename
  let row : Row := {
    document := {
      documentKey := body.documentKey
      title := body.title
      folderId := body.folderId }
    documentUrl := some objectKey }
  let scoping := (indexTags [] (folder.map Folder.id), effectiveViewMasks folders folder)
  return [.storeObject objectKey body.content,
    .insertRow row,
    .dispatchIngest (row.ingestTask body.title scoping (.original objectKey)) false,
    .persistTaskId]

/-! ## New content -/

/-- The extension of a path: what follows its last dot, if its name does not begin there. -/
def splitext (path : String) : String :=
  let name := path.toList.reverse.takeWhile (· ≠ '/')
  let ext := name.takeWhile (· ≠ '.')
  match name.drop ext.length with
  | '.' :: stem => if stem.any (· ≠ '.') then String.ofList ('.' :: ext.reverse) else ""
  | _ => ""

def textOriginalExtensions : List String := [".md", ".markdown", ".txt"]

def updateDocumentContent (folders : List Folder) (row : Row) (text : String) :
    Option (List Action) :=
  let scoping := deriveIngestScoping folders row
  let ingest := row.ingestTask row.document.title scoping
  match row.documentUrl with
  | some url =>
    if String.map Char.toLower (splitext url) ∈ textOriginalExtensions then some <|
      [.rewriteObject url text, .updateRow { processingStatus := some .pending }] ++
        purgeBrainVectors ++ [.dispatchIngest (ingest (.original url)) false, .persistTaskId]
    else none
  | none =>
    if text ≠ "" then some <|
      [.updateRow { text := some (some text), processingStatus := some .pending }] ++
        purgeBrainVectors ++ [.dispatchIngest (ingest (.text text)) false, .persistTaskId]
    else some <| .updateRow { text := some none } :: purgeBrainVectors

def reprocessDocument (folders : List Folder) (row : Row) : Option (List Action) :=
  if row.processingStatus.cancellable then none
  else
    row.source.map fun source =>
      [.updateRow { processingStatus := some .pending }] ++ purgeBrainVectors ++
        [.dispatchIngest (row.ingestTask row.document.title (deriveIngestScoping folders row)
          source) false, .persistTaskId]

/-! ## External upserts -/

/-- A validated write with the hash of its content. The filename is `none` for text, which is
not empty. -/
structure KnowledgeDocumentInput where
  folderId : Nat
  title : String
  content : String
  contentHash : String
  filename : Option String := none
  text_ne : filename = none → content ≠ ""

def KnowledgeDocumentInput.objectKey (data : KnowledgeDocumentInput) (documentKey : String)
    (filename : String) (versioned : Bool) : String :=
  if versioned then
    documentKey ++ "/" ++ String.ofList (data.contentHash.toList.take 16) ++ "/" ++ filename
  else documentKey ++ "/" ++ filename

section

variable (folders : List Folder)

/-- The write of a document that is not there yet. -/
def upsertCreate (documentKey : String) (data : KnowledgeDocumentInput) : Option (List Action) := do
  let folder ← folderById folders data.folderId
  let row : Row := {
    document := {
      documentKey := documentKey
      title := data.title
      folderId := some folder.id }
    contentHash := some data.contentHash }
  let scoping := (indexTags [] (some folder.id), effectiveViewMasks folders (some folder))
  match data.filename with
  | some filename =>
    let stored := data.objectKey documentKey filename false
    return [.storeObject stored data.content,
      .insertRow { row with documentUrl := some stored },
      .dispatchIngest (row.ingestTask data.title scoping (.original stored)) true,
      .persistTaskId]
  | none =>
    return [.insertRow { row with text := some data.content },
      .dispatchIngest (row.ingestTask data.title scoping (.text data.content)) true,
      .persistTaskId]

/-- Purge the index, commit the new version, enqueue the ingest. The purge comes first. -/
def requeue (row : Row) (data : KnowledgeDocumentInput) (newContent : Bool) : List Action :=
  let revision : Revision := {
    title := some data.title
    processingStatus := some .pending
    celeryTaskId := some none }
  let ingest := row.ingestTask data.title (deriveIngestScoping folders row)
  let superseded (kept : Option String) : List Action :=
    match row.documentUrl with
    | some url => if some url = kept then [] else [.discardObject url]
    | none => []
  .reachBrain :: purgeBrainVectors ++
    if newContent then
      match data.filename with
      | some filename =>
        let stored := data.objectKey row.document.documentKey filename true
        [.storeObject stored data.content,
          .updateRow { revision with
            documentUrl := some (some stored)
            text := some none
            contentHash := some (some data.contentHash) }] ++
          superseded (some stored) ++
          [.dispatchIngest (ingest (.original stored)) true, .persistTaskId]
      | none =>
        [.updateRow { revision with
            documentUrl := some none
            text := some (some data.content)
            contentHash := some (some data.contentHash) }] ++
          superseded none ++
          [.dispatchIngest (ingest (.text data.content)) true, .persistTaskId]
    else
      [.updateRow revision,
        .dispatchIngest (ingest (match row.documentUrl with
          | some url => .original url
          | none => .text (row.text.getD ""))) true, .persistTaskId]

/-- The write of a document that is there, with its row locked. `stuckPending` is whether it
has been pending for too long. -/
def upsertReplace (row : Row) (data : KnowledgeDocumentInput) (stuckPending : Bool) :
    Option (List Action) :=
  let retryable := row.processingStatus = .failed ∨ row.processingStatus = .cancelled ∨
    row.processingStatus = .pending ∧ stuckPending = true
  if row.contentHash = some data.contentHash then
    if retryable then some (requeue folders row data false)
    else if row.document.title ≠ data.title then
      let scoping := deriveIngestScoping folders row
      some [.updateRow { title := some data.title },
        .dispatchMetadataUpdate ⟨data.title, scoping.1, scoping.2⟩]
    else none
  else if ¬ retryable ∧ row.processingStatus.cancellable then none
  else some (requeue folders row data true)

end

/-! ## Metadata -/

/-- A partial update. The folder and the configs may also be set to null. -/
structure DocumentUpdate where
  title : Option String := none
  folderId : Option (Option Nat) := none
  tags : Option (List String) := none
  viewerPermissionsConfig : Option (Option (List ConfigEntry)) := none
  contributorPermissionsConfig : Option (Option (List ConfigEntry)) := none

def DocumentUpdate.permsChanged (body : DocumentUpdate) : Bool :=
  body.viewerPermissionsConfig.isSome || body.contributorPermissionsConfig.isSome

/-- Whether the update changes what the index stores. -/
def DocumentUpdate.retag (body : DocumentUpdate) : Bool :=
  body.folderId.isSome || body.tags.isSome || body.title.isSome || body.permsChanged

/-- The columns set by the update. Both masks are recomputed when either config is set. -/
def DocumentUpdate.revision (body : DocumentUpdate) (org : Org) (row : Row) : Option Revision :=
  let revision : Revision := {
    title := body.title
    folderId := body.folderId
    tags := body.tags
    viewerPermissionsConfig := body.viewerPermissionsConfig
    contributorPermissionsConfig := body.contributorPermissionsConfig }
  if body.permsChanged then
    match computeFolderMasks (some org)
        (body.viewerPermissionsConfig.getD row.document.viewerPermissionsConfig)
        (body.contributorPermissionsConfig.getD row.contributorPermissionsConfig) with
    | .ok (viewMasks, contributorMasks) => some { revision with
        viewPermissionMasks := some viewMasks
        contributorPermissionMasks := some contributorMasks }
    | .error _ => none
  else some revision

def updateDocument (org : Org) (folders : List Folder) (row : Row) (body : DocumentUpdate) :
    Option (List Action) := do
  let _ ← checkedFolder folders (body.folderId.getD none)
  let revision ← body.revision org row
  if body.retag then
    some [.updateRow revision,
      .dispatchMetadataUpdate (currentScoping folders (row.revise revision))]
  else some [.updateRow revision]

def updateFolder (org : Org) (folders : List Folder) (row : Option Row) (folderId : Nat)
    (body : FolderUpdate) : Option (List Action) :=
  match Access.updateFolder org folders (row.map Row.document).toList folderId body with
  | .error _ => none
  | .ok (_, payloads) => some <|
      .updateFolder folderId body :: payloads.map fun payload =>
        .dispatchMetadataUpdate ⟨payload.title, payload.newTags, payload.newAccessKeys⟩

/-! ## Withdrawal -/

def cancelDocumentIngest (row : Row) : Option (List Action) :=
  if row.processingStatus.cancellable then some <|
    (row.celeryTaskId.toList.map .revoke) ++ [.lockRow] ++ purgeBrainVectors ++
      [.updateRow { processingStatus := some .cancelled }]
  else none

def deleteDocument (row : Row) : List Action :=
  [.lockRow] ++ row.documentUrl.toList.map .discardObject ++ purgeBrainVectors ++ [.deleteRow]

/-! ## What each request can do -/

section Cases

variable {folders : List Folder} {row : Row} {todo : List Action}

theorem createDocument_cases {body : DocumentCreate}
    (accepted : createDocument folders body = some todo) :
    ∃ row : Row,
      (row.source = none ∧ todo = [.insertRow row]) ∨
      ∃ task, row.source = some task.source ∧
        todo = [.insertRow row, .dispatchIngest task false, .persistTaskId] := by
  obtain ⟨folder, -, accepted⟩ := bind_eq_some_iff.mp accepted
  cases written : body.text.filter (· ≠ "") with
  | none =>
    simp only [written] at accepted
    cases accepted
    exact ⟨_, .inl ⟨by simp only [Row.source, written]; rfl, rfl⟩⟩
  | some text =>
    simp only [written] at accepted
    cases accepted
    exact ⟨_, .inr ⟨_, by simp only [Row.source, written]; rfl, rfl⟩⟩

theorem uploadDocument_cases {body : Upload} (accepted : uploadDocument folders body = some todo) :
    ∃ (url : String) (row : Row) (task : Task),
      task.source = .original url ∧ row.source = some task.source ∧
      todo = [.storeObject url body.content, .insertRow row, .dispatchIngest task false,
        .persistTaskId] := by
  obtain ⟨folder, -, accepted⟩ := bind_eq_some_iff.mp accepted
  cases accepted
  exact ⟨_, _, _, rfl, rfl, rfl⟩

variable {data : KnowledgeDocumentInput}

theorem upsertCreate_cases {documentKey : String}
    (accepted : upsertCreate folders documentKey data = some todo) :
    ∃ (row : Row) (task : Task), row.source = some task.source ∧
      (todo = [.insertRow row, .dispatchIngest task true, .persistTaskId] ∨
      ∃ url, task.source = .original url ∧
        todo = [.storeObject url data.content, .insertRow row, .dispatchIngest task true,
          .persistTaskId]) := by
  obtain ⟨folder, -, accepted⟩ := bind_eq_some_iff.mp accepted
  cases named : data.filename with
  | none =>
    simp only [named] at accepted
    cases accepted
    exact ⟨_, _, by simp [Row.source, Row.ingestTask, Option.filter, data.text_ne named], .inl rfl⟩
  | some filename =>
    simp only [named] at accepted
    cases accepted
    exact ⟨_, _, rfl, .inr ⟨_, rfl, rfl⟩⟩

theorem updateDocumentContent_cases {text : String}
    (accepted : updateDocumentContent folders row text = some todo) :
    (∃ url, row.documentUrl = some url ∧ ∃ task : Task, task.source = .original url ∧
      todo = [.rewriteObject url text, .updateRow { processingStatus := some .pending },
        .purgeVectors, .purgeKnowledge, .dispatchIngest task false, .persistTaskId]) ∨
    (row.documentUrl = none ∧ text ≠ "" ∧ ∃ task : Task, task.source = .text text ∧
      todo = [.updateRow { text := some (some text), processingStatus := some .pending },
        .purgeVectors, .purgeKnowledge, .dispatchIngest task false, .persistTaskId]) ∨
    row.documentUrl = none ∧ text = "" ∧
      todo = [.updateRow { text := some none }, .purgeVectors, .purgeKnowledge] := by
  simp only [updateDocumentContent] at accepted
  cases stored : row.documentUrl with
  | some url =>
    simp only [stored] at accepted
    split at accepted
    · cases accepted
      exact .inl ⟨url, rfl, _, rfl, rfl⟩
    · cases accepted
  | none =>
    simp only [stored] at accepted
    split at accepted
    · rename_i written
      cases accepted
      exact .inr (.inl ⟨rfl, written, _, rfl, rfl⟩)
    · rename_i empty
      cases accepted
      exact .inr (.inr ⟨rfl, Decidable.not_not.mp empty, rfl⟩)

theorem reprocessDocument_cases (accepted : reprocessDocument folders row = some todo) :
    ∃ task : Task, row.source = some task.source ∧
      todo = [.updateRow { processingStatus := some .pending }, .purgeVectors, .purgeKnowledge,
        .dispatchIngest task false, .persistTaskId] := by
  unfold reprocessDocument at accepted
  split at accepted
  · cases accepted
  · obtain ⟨source, found, rfl⟩ := map_eq_some_iff.mp accepted
    exact ⟨_, found, rfl⟩

/-- A requeue purges, may store a new original, publishes, may discard the old original, and
dispatches what it published. -/
theorem requeue_cases {newContent : Bool} (accepted : requeue folders row data newContent = todo) :
    ∃ (stores discards : List Action) (revision : Revision) (task : Task),
      todo = [.reachBrain, .purgeVectors, .purgeKnowledge] ++ stores ++ [.updateRow revision] ++
        discards ++ [.dispatchIngest task true, .persistTaskId] ∧
      revision.processingStatus = some .pending ∧
      (newContent = true → revision.text.isSome = true ∧
        ∀ row : Row, (row.revise revision).source = some task.source) ∧
      (newContent = false → revision.text = none ∧ revision.documentUrl = none) ∧
      (∀ action ∈ stores, ∃ url, action = .storeObject url data.content ∧
        task.source = .original url) ∧
      ∀ action ∈ discards, ∃ url, action = .discardObject url ∧ task.source ≠ .original url := by
  subst accepted
  unfold requeue
  cases newContent with
  | false =>
    exact ⟨[], [], _, _, rfl, rfl, nofun, fun _ => ⟨rfl, rfl⟩, by simp, by simp⟩
  | true =>
    cases named : data.filename with
    | some filename =>
      refine ⟨[_], _, _, _, rfl, rfl, fun _ => ⟨rfl, fun _ => rfl⟩, nofun, ?_, ?_⟩
      · intro action member
        obtain rfl := List.mem_singleton.mp member
        exact ⟨_, rfl, rfl⟩
      · intro action member
        grind [Row.ingestTask]
    | none =>
      refine ⟨[], _, _, _, rfl, rfl, fun _ => ⟨rfl, fun row => ?_⟩, nofun, by simp, ?_⟩
      · simp [Row.source, Row.revise, Row.ingestTask, Option.filter, data.text_ne named]
      · intro action member
        grind [Row.ingestTask]

theorem upsertReplace_cases {stuckPending : Bool}
    (accepted : upsertReplace folders row data stuckPending = some todo) :
    (∃ newContent, requeue folders row data newContent = todo) ∨
    ∃ scoping, todo = [.updateRow { title := some data.title }, .dispatchMetadataUpdate scoping] := by
  unfold upsertReplace at accepted
  simp only at accepted
  split at accepted
  · split at accepted
    · exact .inl ⟨_, some.inj accepted⟩
    · split at accepted
      · exact .inr ⟨_, (some.inj accepted).symm⟩
      · cases accepted
  · split at accepted
    · cases accepted
    · exact .inl ⟨_, some.inj accepted⟩

theorem updateDocument_cases {org : Org} {body : DocumentUpdate}
    (accepted : updateDocument org folders row body = some todo) :
    ∃ revision : Revision,
      revision.text = none ∧ revision.documentUrl = none ∧ revision.processingStatus = none ∧
      (todo = [.updateRow revision] ∨
        todo = [.updateRow revision,
          .dispatchMetadataUpdate (currentScoping folders (row.revise revision))]) := by
  obtain ⟨folder, -, accepted⟩ := bind_eq_some_iff.mp accepted
  obtain ⟨revision, revised, accepted⟩ := bind_eq_some_iff.mp accepted
  have columns : revision.text = none ∧ revision.documentUrl = none ∧
      revision.processingStatus = none := by
    unfold DocumentUpdate.revision at revised
    split at revised
    · split at revised
      · cases revised
        exact ⟨rfl, rfl, rfl⟩
      · cases revised
    · cases revised
      exact ⟨rfl, rfl, rfl⟩
  refine ⟨revision, columns.1, columns.2.1, columns.2.2, ?_⟩
  split at accepted
  · exact .inr (some.inj accepted).symm
  · exact .inl (some.inj accepted).symm

theorem updateFolder_cases {org : Org} {row : Option Row} {folderId : Nat} {body : FolderUpdate}
    (accepted : updateFolder org folders row folderId body = some todo) :
    ∃ scopings : List Scoping,
      todo = .updateFolder folderId body :: scopings.map .dispatchMetadataUpdate := by
  unfold updateFolder at accepted
  split at accepted
  · cases accepted
  · rename_i payloads _
    cases accepted
    exact ⟨payloads.map fun payload => ⟨payload.title, payload.newTags, payload.newAccessKeys⟩,
      by rw [List.map_map]; rfl⟩

end Cases

end RedArchKM.Ingest
