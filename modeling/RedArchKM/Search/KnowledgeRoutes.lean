import RedArchKM.Access.KeyScope
import RedArchKM.Search.VectorSearch

/-!
# The knowledge routes of an API key

Searching, chatting, listing documents and fetching one, as an API key does it over the public
routes. The document routes decide from the rows of the request; searching decides from the keys
and tags the chunks were indexed with.
-/

namespace RedArchKM.Search

open Access

/-! ## Whoever holds the key -/

/-- A refusal of the request. -/
structure HttpError where
  status : Nat
  detail : String

structure ApiKeyPrincipal where
  isScoped : Bool
  masks : Option (List Nat)
  folderIds : Option (List Nat)

/-- The caller that a scoped key resolves to. -/
def principalOf (scope : KeyScope) : ApiKeyPrincipal where
  isScoped := true
  masks := some scope.masks
  folderIds := scope.folderIds

/-- The masks a key reads with: `none` for an org key. -/
def apiKeyAccessKeys (principal : ApiKeyPrincipal) : Except HttpError (Option (List Nat)) :=
  if !principal.isScoped then .ok none
  else
    match principal.masks with
    | none | some [] => .error ⟨403, "API key has no knowledge access"⟩
    | some masks => .ok (some masks)

def maxFolderTags : Nat := 1024

def tooManyFolders (count : Nat) : String :=
  s!"Too many folders to search at once ({count}; the limit is {maxFolderTags})"

/-- More folders than a filter takes are refused, not truncated. -/
def checkFolderCount (folderIds : List Nat) : Except HttpError (Option (List Nat)) :=
  if maxFolderTags < folderIds.length then .error ⟨422, tooManyFolders folderIds.length⟩
  else .ok (some folderIds)

/-- The folders a request may search, given the key's folder limits. -/
def apiKeyFolderScope (principal : ApiKeyPrincipal) (requestedFolderIds : List Nat) :
    Except HttpError (Option (List Nat)) :=
  let requested := requestedFolderIds.eraseDups
  match principal.folderIds with
  | none => if requested.isEmpty then .ok none else checkFolderCount requested
  | some allowed =>
    if requested.isEmpty then checkFolderCount (allowed.insertionSort (· ≤ ·))
    else if requested.all fun folderId => folderId ∈ allowed then checkFolderCount requested
    else .error ⟨404, "folder not found"⟩

/-- The tags of the folders, of which a chunk must carry one; no folder is no filter. -/
def folderTags : Option (List Nat) → Option (List String)
  | none | some [] => none
  | some folderIds => some (folderIds.map folderTag)

/-! ## Searching -/

structure SearchRequest where
  query : String
  limit : Nat := 5
  tags : List String := []
  folderIds : List Nat := []
  query_length : 1 ≤ query.length ∧ query.length ≤ 5000
  limit_range : 1 ≤ limit ∧ limit ≤ 50

structure ChatRequest where
  query : String
  tags : List String := []
  folderIds : List Nat := []
  query_length : 1 ≤ query.length ∧ query.length ≤ 5000

/-- What the key may retrieve; `none` when it may read no folder. -/
def retrievalScope (principal : ApiKeyPrincipal) (tags : List String) (folderIds : List Nat) :
    Except HttpError (Option ReadScope) := do
  let accessKeys ← apiKeyAccessKeys principal
  let folders ← apiKeyFolderScope principal folderIds
  if folders = some [] then return none
  return some { accessKeys := accessKeys, requiredTags := tags, anyTags := folderTags folders }

def checkAccessKeys (scope : ReadScope) : Except HttpError Unit :=
  if scope.accessKeys.any fun keys => maxAccessKeys < keys.length then
    .error ⟨500, "Internal server error"⟩
  else .ok ()

section

variable (backends : Backends) (chunks : List Chunk) (principal : ApiKeyPrincipal)

/-- Semantic search over the org's knowledge base. -/
def searchRoute (body : SearchRequest) : Except HttpError (List Hit) := do
  match ← retrievalScope principal body.tags body.folderIds with
  | none => return []
  | some scope =>
    checkAccessKeys scope
    return vectorSearch backends chunks body.query body.limit scope

def chatRoute (body : ChatRequest) : Except HttpError (List Source) := do
  match ← retrievalScope principal body.tags body.folderIds with
  | none => return []
  | some scope =>
    checkAccessKeys scope
    return passageSources
      (vectorSearch backends chunks body.query backends.chatChunkLimit scope)

end

/-! ## The document routes -/

structure DocumentRow extends Document where
  id : Nat

def visibleFolderIds (folders : List Folder) : Option (List Nat) → List Nat
  | none => folders.map Folder.id
  | some masks => (folders.filter fun folder => isVisible folder folders masks).map Folder.id

structure PaginationParams where
  page : Nat := 1
  pageSize : Nat := 20
  page_pos : 1 ≤ page
  pageSize_range : 1 ≤ pageSize ∧ pageSize ≤ 200

def PaginationParams.offset (pagination : PaginationParams) : Nat :=
  (pagination.page - 1) * pagination.pageSize

def overrideAdmits (document : Document) (masks : List Nat) : Bool :=
  document.viewerPermissionsConfig.isNone || document.viewPermissionMasks.isEmpty ||
    document.viewPermissionMasks.any fun mask => mask ∈ masks

/-- What a listing selects: documents of the folders (`none` is every document), if their
override admits the masks. -/
def selects (folderIds : Option (List Nat)) (includeUnfiled : Bool)
    (viewerMasks : Option (List Nat)) (document : Document) : Bool :=
  (folderIds.all fun folderIds =>
    match document.folderId with
    | none => includeUnfiled
    | some folderId => folderId ∈ folderIds) &&
  viewerMasks.all fun masks => overrideAdmits document masks

/-- A page of the selected documents, newest first, and their number. -/
def listForFolders (documents : List DocumentRow) (folderIds : Option (List Nat))
    (includeUnfiled : Bool) (offset limit : Nat) (viewerMasks : Option (List Nat)) :
    List DocumentRow × Nat :=
  let matching := documents.filter fun document =>
    selects folderIds includeUnfiled viewerMasks document.toDocument
  ((matching.drop offset).take limit, matching.length)

section

variable (folders : List Folder) (documents : List DocumentRow) (principal : ApiKeyPrincipal)

def listDocuments (pagination : PaginationParams) (folderId : Option Nat) :
    Except HttpError (List DocumentRow × Nat) := do
  match ← apiKeyAccessKeys principal with
  | none =>
    return listForFolders documents (folderId.map fun folderId => [folderId]) folderId.isNone
      pagination.offset pagination.pageSize none
  | some masks =>
    let visible := principal.folderIds.getD (visibleFolderIds folders (some masks))
    if folderId.any fun folderId => folderId ∉ visible then
      throw ⟨404, "folder not found"⟩
    if visible.isEmpty then return ([], 0)
    return listForFolders documents
      (some (folderId.elim visible fun folderId => [folderId])) false
      pagination.offset pagination.pageSize (some masks)

/-- Fetch a single document, if the key may see it. -/
def getDocument (documentId : Nat) : Except HttpError DocumentRow := do
  let masks ← apiKeyAccessKeys principal
  match documents.find? fun document => document.id = documentId with
  | none => throw ⟨404, "document not found"⟩
  | some document =>
    let outsideFolders := principal.folderIds.any fun folderIds =>
      !document.folderId.any fun folderId => folderId ∈ folderIds
    if outsideFolders || !documentVisible folders document.toDocument masks then
      throw ⟨404, "document not found"⟩
    return document

end

end RedArchKM.Search
