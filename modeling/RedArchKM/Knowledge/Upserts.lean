import RedArchKM.Ingest.Requests

/-!
# External upserts

An API key writes a document under a reference of its own choosing. One call writes to four
places in a fixed order: the knowledge index is purged, the original stored, the row committed
and the ingest enqueued. Every one of these steps may fail, and what has been done before it is
taken back for some of them only.

The worker ingests between the calls: it fills the index of a document and reports a status.
-/

namespace RedArchKM.Knowledge

open Access Function
open Ingest (ProcessingStatus)

/-! ## Rows and objects -/

/-- The key of an object in storage, cut at its slashes, without the organisation in front. -/
abbrev ObjectKey := List String

/-- A row of the documents, with the columns a write reads or sets. -/
structure DocumentRow (κ μ : Type) extends Access.Document where
  contributorPermissionsConfig : Option (List ConfigEntry) := none
  contributorPermissionMasks : List Nat := []
  externalRef : Option String := none
  contentHash : Option String := none
  sizeBytes : Option Nat := none
  text : Option κ := none
  documentUrl : Option ObjectKey := none
  metadata : Option μ := none
  useKnowledgeGraph : Option Bool := none
  processingStatus : ProcessingStatus := .pending
  stage : Option String := none
  celeryTaskId : Option Nat := none
  updatedAt : Option Int := none

inductive Source (κ : Type) where
  | text (text : Option κ)
  | original (documentUrl : ObjectKey) (filename : String)

/-- A task for the worker. -/
inductive Job (κ μ : Type) where
  | ingest (documentKey title : String) (tags : List String) (accessKeys : List Nat)
      (useKnowledgeGraph : Bool) (metadata : μ) (source : Source κ)
  | updateMetadata (documentKey : String) (newTags : List String) (newAccessKeys : List Nat)
      (title : String)

/-- The database, the object storage, the knowledge index and the queue. -/
structure State (κ μ χ : Type) where
  documents : List (DocumentRow κ μ) := []
  objects : ObjectKey → Option κ := fun _ => none
  /-- The chunks indexed for a document key. -/
  index : String → List χ := fun _ => []
  queue : List (Job κ μ) := []
  commits : Nat := 0

/-- What a write is given of the host: digests in hexadecimal digits, and sizes. -/
structure Platform (κ : Type) where
  sha256 : κ → String
  size : κ → Nat

/-- A validated write. The filename is `none` for text; a reference is not empty. -/
structure KnowledgeDocumentInput (κ μ : Type) where
  folderId : Nat
  title : String
  content : κ
  filename : Option String := none
  externalRef : Option String := none
  metadata : Option μ := none
  ref_ne : externalRef ≠ some "" := by decide

inductive Failure where
  | knowledgeWriteError (statusCode : Nat) (detail : String)
  | raised

inductive WriteOutcome where
  | created | updated | reprocessed | metadataUpdated | unchanged

/-- How the steps of a call go that may fail. -/
structure Outages where
  purgeRaises : Bool := false
  /-- Whether the purge empties the index; it may do so and raise. -/
  purgeRemoves : Bool := true
  putRaises : Bool := false
  /-- Whether a put that raises has written the object. -/
  putWrites : Bool := false
  commitRaises : Bool := false
  deleteRaises : Bool := false
  dispatchRaises : Bool := false
  markRaises : Bool := false
  persistRaises : Bool := false

/-- One call: who calls, on what folders, when, and what fails. -/
structure Call (κ μ : Type) where
  data : KnowledgeDocumentInput κ μ
  /-- `none` for an org key. -/
  masks : Option (List Nat) := none
  /-- `none` is no folder limit. -/
  folderIds : Option (List Nat) := none
  folders : List Folder := []
  now : Int := 0
  /-- The key minted for a document that is created. -/
  documentKey : String := ""
  outages : Outages := {}

/-! ## The steps -/

namespace State

variable {κ μ χ : Type}

section

variable (state : State κ μ χ)

def removeDocument (outages : Outages) (documentKey : String) : State κ μ χ :=
  if outages.purgeRemoves then
    { state with index := update state.index documentKey [] }
  else state

def putObject (outages : Outages) (key : ObjectKey) (content : κ) : State κ μ χ :=
  if outages.putRaises ∧ ¬outages.putWrites then state
  else { state with objects := update state.objects key (some content) }

/-- Best-effort delete of an object no committed row points at. -/
def discard (outages : Outages) (key : Option ObjectKey) : State κ μ χ :=
  match key with
  | none => state
  | some key =>
    if outages.deleteRaises then state
    else { state with objects := update state.objects key none }

def commitUpdate (documentKey : String) (revise : DocumentRow κ μ → DocumentRow κ μ) :
    State κ μ χ :=
  { state with
    documents := state.documents.map fun row =>
      if row.documentKey = documentKey then revise row else row
    commits := state.commits + 1 }

def commitInsert (row : DocumentRow κ μ) : State κ μ χ :=
  { state with documents := state.documents ++ [row], commits := state.commits + 1 }

def enqueue (job : Job κ μ) : State κ μ χ :=
  { state with queue := state.queue ++ [job] }

end

end State

/-! ## Who may write -/

def effectiveContributorMasks (folders : List Folder) (folder : Folder) : List Nat :=
  match folder.contributorPermissionsConfig with
  | some _ => folder.contributorPermissionMasks
  | none =>
    ((ancestors folders folder).find? fun ancestor =>
      ancestor.contributorPermissionsConfig.isSome).elim [] Folder.contributorPermissionMasks

def canAddToFolder (folders : List Folder) (folder : Folder) : Option (List Nat) → Bool
  | none => true
  | some masks =>
    folderVisible folders folder (some masks) &&
      overlaps (effectiveContributorMasks folders folder) masks

section Upsert

variable {κ μ χ : Type}

/-- A document's own contributor config, when set, narrows who may change it. -/
def mayContributeToDocument (row : DocumentRow κ μ) : Option (List Nat) → Bool
  | none => true
  | some masks =>
    row.contributorPermissionsConfig.isNone || row.contributorPermissionMasks.isEmpty ||
      row.contributorPermissionMasks.any fun mask => mask ∈ masks

/-- Outside a folder-limited key's set; an unfiled document always is. -/
def outsideFolders (call : Call κ μ) (folderId : Option Nat) : Bool :=
  match call.folderIds with
  | none => false
  | some folderIds => !folderId.any (· ∈ folderIds)

def authorisedFolder (call : Call κ μ) : Except Failure Folder :=
  if outsideFolders call (some call.data.folderId) then
    .error (.knowledgeWriteError 404 "folder not found")
  else
    match folderById call.folders call.data.folderId with
    | none => .error (.knowledgeWriteError 404 "folder not found")
    | some folder =>
      if !folderVisible call.folders folder call.masks then
        .error (.knowledgeWriteError 404 "folder not found")
      else if !canAddToFolder call.folders folder call.masks then
        .error (.knowledgeWriteError 403
          "This key's assignments may not add documents to this folder")
      else .ok folder

/-! ## Dispatching -/

def scoping (folders : List Folder) (row : DocumentRow κ μ) : List String × List Nat :=
  let folder := row.folderId.bind (folderById folders)
  (indexTags [] (folder.map Folder.id),
    match row.viewerPermissionsConfig with
    | some _ => row.viewPermissionMasks
    | none => effectiveViewMasks folders folder)

def ingestJob [EmptyCollection μ] (row : DocumentRow κ μ) (scope : List String × List Nat) :
    Job κ μ :=
  .ingest row.documentKey row.title scope.1 scope.2 (row.useKnowledgeGraph.getD true)
    (row.metadata.getD ∅)
    (match row.documentUrl with
      | some documentUrl => .original documentUrl (documentUrl.getLastD "")
      | none => .text row.text)

/-- Enqueue the worker ingest and record its task id. A broker failure marks the document, which
is already committed, as failed. -/
def dispatch [EmptyCollection μ] (call : Call κ μ) (state : State κ μ χ) (row : DocumentRow κ μ)
    (scope : List String × List Nat) : State κ μ χ × Except Failure Unit :=
  if call.outages.dispatchRaises then
    (if call.outages.markRaises then state
      else state.commitUpdate row.documentKey fun row =>
        { row with
          processingStatus := .failed, stage := some "enqueue_failed", updatedAt := some call.now },
      .error (.knowledgeWriteError 503
        "The ingest queue is unavailable; resend this document to retry"))
  else
    let taskId := state.queue.length
    let queued := state.enqueue (ingestJob row scope)
    (if call.outages.persistRaises then queued
      else queued.commitUpdate row.documentKey fun row =>
        { row with celeryTaskId := some taskId, updatedAt := some call.now },
      .ok ())

/-! ## Creating -/

/-- The key of a document's original; a replacement goes under the head of its hash. -/
def objectKey (platform : Platform κ) (documentKey filename : String) (content : κ)
    (versioned : Bool) : ObjectKey :=
  if versioned then
    [documentKey, String.ofList ((platform.sha256 content).toList.take 16), filename]
  else [documentKey, filename]

def SameReference (first second : DocumentRow κ μ) : Prop :=
  first.folderId.isSome ∧ first.folderId = second.folderId ∧
    first.externalRef.isSome ∧ first.externalRef = second.externalRef

instance (first second : DocumentRow κ μ) : Decidable (SameReference first second) :=
  inferInstanceAs (Decidable (_ ∧ _ ∧ _ ∧ _))

def createdRow [EmptyCollection μ] (platform : Platform κ) (call : Call κ μ) (folder : Folder) :
    DocumentRow κ μ where
  documentKey := call.documentKey
  title := call.data.title
  folderId := some folder.id
  externalRef := call.data.externalRef
  contentHash := some (platform.sha256 call.data.content)
  sizeBytes := some (platform.size call.data.content)
  text := if call.data.filename.isSome then none else some call.data.content
  documentUrl := call.data.filename.map fun filename =>
    objectKey platform call.documentKey filename call.data.content false
  metadata := some (call.data.metadata.getD ∅)
  updatedAt := some call.now

/-- Store the original before the commit. A put that raises leaves no key to discard. -/
def store (state : State κ μ χ) (outages : Outages) (key : Option ObjectKey) (content : κ) :
    State κ μ χ × Bool :=
  match key with
  | none => (state, true)
  | some key => (state.putObject outages key content, !outages.putRaises)

/-- Insert the row, store the original, commit, enqueue. -/
def create [EmptyCollection μ] (platform : Platform κ) (call : Call κ μ) (state : State κ μ χ)
    (folder : Folder) : State κ μ χ × Except Failure WriteOutcome :=
  let row := createdRow platform call folder
  if ∃ other ∈ state.documents, other.documentKey = row.documentKey then (state, .error .raised)
  else
    let (stored, didStore) := store state call.outages row.documentUrl call.data.content
    if !didStore then
      (stored, .error (.knowledgeWriteError 502 "Failed to store the uploaded file"))
    else if call.outages.commitRaises then
      (stored.discard call.outages row.documentUrl, .error .raised)
    else if ∃ other ∈ state.documents, SameReference other row then
      (stored.discard call.outages row.documentUrl,
        .error (.knowledgeWriteError 409 "external_ref is already in use in this folder"))
    else
      let (dispatched, answer) := dispatch call (stored.commitInsert row) row
        (indexTags [] (some folder.id), effectiveViewMasks call.folders (some folder))
      (dispatched, answer.map fun _ => .created)

/-! ## Replacing -/

def isStuckPending (row : DocumentRow κ μ) (now : Int) : Bool :=
  row.processingStatus = .pending &&
    match row.updatedAt with
    | none => row.celeryTaskId.isNone
    | some updated => 600 < now - updated || (row.celeryTaskId.isNone && 60 < now - updated)

def retryable (row : DocumentRow κ μ) (now : Int) : Bool :=
  row.processingStatus = .failed || row.processingStatus = .cancelled || isStuckPending row now

def metadataChanged [DecidableEq μ] [EmptyCollection μ] (row : DocumentRow κ μ)
    (data : KnowledgeDocumentInput κ μ) : Bool :=
  row.title ≠ data.title || data.metadata.any fun metadata => metadata ≠ row.metadata.getD ∅

def DocumentRow.retitled (row : DocumentRow κ μ) (call : Call κ μ) : DocumentRow κ μ :=
  { row with
    title := call.data.title
    metadata := call.data.metadata.or row.metadata
    updatedAt := some call.now }

/-- Same content, new title or metadata: the index's title follows. -/
def updateMetadataOnly (call : Call κ μ) (state : State κ μ χ) (row : DocumentRow κ μ) :
    State κ μ χ × Except Failure WriteOutcome :=
  if call.outages.commitRaises then (state, .error .raised)
  else
    let committed := state.commitUpdate row.documentKey (DocumentRow.retitled · call)
    let scope := scoping call.folders row
    (if call.outages.dispatchRaises then committed
      else committed.enqueue (.updateMetadata row.documentKey scope.1 scope.2 call.data.title),
      .ok .metadataUpdated)

/-- The row as a replacement leaves it, queued anew. `stored` is the key of a new original. -/
def DocumentRow.requeued (row : DocumentRow κ μ) (platform : Platform κ) (call : Call κ μ)
    (stored : Option ObjectKey) (newContent : Bool) : DocumentRow κ μ :=
  let row := row.retitled call
  let row :=
    if newContent then
      { row with
        documentUrl := stored
        text := if stored.isSome then none else some call.data.content
        contentHash := some (platform.sha256 call.data.content)
        sizeBytes := some (platform.size call.data.content) }
    else row
  { row with processingStatus := .pending, stage := some "queued", celeryTaskId := none }

/-- The key a replacement stores its original under, if it has one. -/
def replacementKey (platform : Platform κ) (call : Call κ μ) (row : DocumentRow κ μ)
    (newContent : Bool) : Option ObjectKey :=
  if newContent then
    call.data.filename.map fun filename =>
      objectKey platform row.documentKey filename call.data.content true
  else none

/-- Purge the old index, store and commit the new version, enqueue the ingest. -/
def requeue [EmptyCollection μ] (platform : Platform κ) (call : Call κ μ) (state : State κ μ χ)
    (row : DocumentRow κ μ) (newContent : Bool) : State κ μ χ × Except Failure Unit :=
  let purged := state.removeDocument call.outages row.documentKey
  if call.outages.purgeRaises then
    (purged, .error (.knowledgeWriteError 503
      "The knowledge index is unavailable; nothing was changed. Retry later."))
  else
    let key := replacementKey platform call row newContent
    let (stored, didStore) := store purged call.outages key call.data.content
    if !didStore then
      (stored, .error (.knowledgeWriteError 502 "Failed to store the uploaded file"))
    else if call.outages.commitRaises then (stored.discard call.outages key, .error .raised)
    else
      let requeued := row.requeued platform call key newContent
      let committed :=
        stored.commitUpdate row.documentKey fun row => row.requeued platform call key newContent
      let swept :=
        if newContent ∧ row.documentUrl ≠ requeued.documentUrl then
          committed.discard call.outages row.documentUrl
        else committed
      dispatch call swept requeued (scoping call.folders row)

def replace [DecidableEq μ] [EmptyCollection μ] (platform : Platform κ) (call : Call κ μ)
    (state : State κ μ χ) (row : DocumentRow κ μ) : State κ μ χ × Except Failure WriteOutcome :=
  if outsideFolders call row.folderId ∨
      ¬documentVisible call.folders row.toDocument call.masks then
    (state, .error (.knowledgeWriteError 409 "external_ref is already in use in this folder"))
  else if !mayContributeToDocument row call.masks then
    (state, .error (.knowledgeWriteError 403
      "This key's assignments may not change this document"))
  else if row.contentHash = some (platform.sha256 call.data.content) then
    if retryable row call.now then
      let (requeued, answer) := requeue platform call state row false
      (requeued, answer.map fun _ => .reprocessed)
    else if metadataChanged row call.data then updateMetadataOnly call state row
    else (state, .ok .unchanged)
  else if !retryable row call.now ∧
      (row.processingStatus = .pending ∨ row.processingStatus = .processing) then
    (state, .error (.knowledgeWriteError 409
      ("The previous version is still being processed; " ++
        "retry when its status is SUCCESS or FAILED")))
  else
    let (requeued, answer) := requeue platform call state row true
    (requeued, answer.map fun _ => .updated)

def getByExternalRef (state : State κ μ χ) (folderId : Nat) (externalRef : Option String) :
    Option (DocumentRow κ μ) :=
  externalRef.bind fun ref =>
    state.documents.find? fun row => row.folderId = some folderId ∧ row.externalRef = some ref

def upsert [DecidableEq μ] [EmptyCollection μ] (platform : Platform κ) (call : Call κ μ)
    (state : State κ μ χ) : State κ μ χ × Except Failure WriteOutcome :=
  match authorisedFolder call with
  | .error failure => (state, .error failure)
  | .ok folder =>
    match getByExternalRef state folder.id call.data.externalRef with
    | none => create platform call state folder
    | some row => replace platform call state row

end Upsert

/-! ## Runs -/

/-- A call, or the worker's report on a document with what it has indexed by then. -/
inductive Event (κ μ χ : Type) where
  | upsert (call : Call κ μ)
  | report (documentKey : String) (status : ProcessingStatus) (stage : Option String) (now : Int)
      (chunks : List χ)

section Runs

variable {κ μ χ : Type} [DecidableEq μ] [EmptyCollection μ]

def next (platform : Platform κ) (state : State κ μ χ) : Event κ μ χ → State κ μ χ
  | .upsert call => (upsert platform call state).1
  | .report documentKey status stage now chunks =>
    { state with
      documents := state.documents.map fun row =>
        if row.documentKey = documentKey then
          { row with processingStatus := status, stage, updatedAt := some now }
        else row
      index := update state.index documentKey chunks }

end Runs

end RedArchKM.Knowledge
