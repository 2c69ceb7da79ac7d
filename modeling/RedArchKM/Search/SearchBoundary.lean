import RedArchKM.Ingest.Requests
import RedArchKM.Search.KnowledgeRoutes
import Std.Data.String.ToNat

/-!
# Where searching and the document routes agree

The index carries one list of access keys and one folder tag for each document. The keys are the
document's override if it has one, and otherwise what its folder asks for; no keys are public. So
a search lets a document through when these keys overlap the masks (`overlaps_of_chunkConditions`), while the
document routes also ask that it be filed in a folder the masks see (`getDocument_eq_ok`). The
two agree exactly when no indexed document depends on that difference
(`sameBoundary_iff_guarded`).
-/

namespace RedArchKM.Search

open Access List Option

/-! ## What the write paths index -/

section

variable (folders : List Folder) (document : Document)

def filedIn : Option Folder :=
  document.folderId.bind (folderById folders)

/-- The document's own viewer override wins, else its folder's effective masks. -/
def scoping : List String × List Nat :=
  let folder := filedIn folders document
  let tags := indexTags [] (folder.map Folder.id)
  if document.viewerPermissionsConfig.isSome then (tags, document.viewPermissionMasks)
  else (tags, effectiveViewMasks folders folder)

def indexedScoping (userTags : List String) : Ingest.Scoping :=
  Ingest.Scoping.stored {
    title := document.title
    tags := indexTags userTags ((filedIn folders document).map Folder.id)
    accessKeys := (scoping folders document).2 }

end

/-- The chunk is indexed under the document, as the write paths derive it from the rows. -/
structure IndexedAs (folders : List Folder) (document : Document) (chunk : Chunk) : Prop where
  documentKey : chunk.payload.documentKey = document.documentKey
  accessKeys : chunk.accessKeys = (indexedScoping folders document []).accessKeys
  tags : ∃ userTags, chunk.tags = (indexedScoping folders document userTags).tags

/-- Every chunk is indexed as the current rows say. -/
def IndexFollowsRows (folders : List Folder) (documents : List DocumentRow) (chunks : List Chunk) :
    Prop :=
  ∀ chunk ∈ chunks, ∃ document ∈ documents, IndexedAs folders document.toDocument chunk

/-! ## Keys and tags -/

theorem any_stored_accessKeys {masks : List Nat} (public_mem : publicMask ∈ masks)
    (folders : List Folder) (document : Document) (userTags : List String) :
    (masks.any fun mask => mask ∈ (indexedScoping folders document userTags).accessKeys) =
      overlaps (scoping folders document).2 masks := by
  rw [Bool.eq_iff_iff]
  by_cases unrestricted : (scoping folders document).2 = []
  · simp only [indexedScoping, Ingest.Scoping.stored, unrestricted, if_true, overlaps,
      isEmpty_nil, List.any_eq_true, decide_eq_true_eq, iff_true]
    exact ⟨publicMask, public_mem, mem_singleton_self _⟩
  · simp only [indexedScoping, Ingest.Scoping.stored, unrestricted, if_false, overlaps,
      List.isEmpty_iff, List.any_eq_true, decide_eq_true_eq]
    exact exists_congr fun mask => and_comm

theorem trim_append {start : List Char} (text : List Char) (first : start.dropWhile isBlank = start)
    (last : start.reverse.dropWhile isBlank = start.reverse) (nonempty : start ≠ []) :
    ∃ kept, (((start ++ text).dropWhile isBlank).reverse.dropWhile isBlank).reverse =
      start ++ kept := by
  have stays : (start ++ text).dropWhile isBlank = start ++ text := by
    rw [dropWhile_append, first]
    simp [nonempty]
  rw [stays, reverse_append, dropWhile_append, last]
  split
  · exact ⟨[], by simp⟩
  · exact ⟨(text.reverse.dropWhile isBlank).reverse, by simp⟩

theorem folderTag_toList (folderId : Nat) :
    (folderTag folderId).toList = "folder:".toList ++ (toString folderId).toList :=
  String.toList_append

theorem isReservedTagName_folderTag (folderId : Nat) :
    isReservedTagName (folderTag folderId) = true := by
  obtain ⟨kept, trimmed⟩ := trim_append (toString folderId).toList
    (show "folder:".toList.dropWhile isBlank = "folder:".toList by decide) (by decide) (by decide)
  simp only [isReservedTagName, folderTag_toList, trimmed, map_append]
  simp

theorem folderTag_injective {folderId other : Nat} (same : folderTag folderId = folderTag other) :
    folderId = other := by
  have lists := congrArg String.toList same
  rw [folderTag_toList, folderTag_toList] at lists
  have texts : toString folderId = toString other :=
    String.toList_injective (append_cancel_left lists)
  exact Nat.repr_injective texts

theorem folderTag_mem_indexTags {userTags : List String} {filed : Option Nat} {folderId : Nat} :
    folderTag folderId ∈ indexTags userTags filed ↔ filed = some folderId := by
  have forged : folderTag folderId ∉ userTags.filter fun name => !isReservedTagName name := by
    simp [isReservedTagName_folderTag]
  cases filed with
  | none => simpa [indexTags] using forged
  | some other =>
    simp only [indexTags, mem_append, forged, false_or, mem_singleton, some.injEq]
    exact ⟨fun same => (folderTag_injective same).symm, fun same => same ▸ rfl⟩

/-! ## What each route lets through -/

section Routes

variable {folders : List Folder} {documents : List DocumentRow} {chunks : List Chunk}
  {scope : KeyScope}

@[simp] theorem apiKeyAccessKeys_principalOf (scope : KeyScope) :
    apiKeyAccessKeys (principalOf scope) = .ok (some scope.masks) := by
  cases masks : scope.masks with
  | nil =>
    have held := scope.public_mem
    rw [masks] at held
    cases held
  | cons mask rest => simp [apiKeyAccessKeys, principalOf, masks]

def WithinFolders (scope : KeyScope) (document : Document) : Prop :=
  ∀ folderIds ∈ scope.folderIds, ∃ folderId ∈ document.folderId, folderId ∈ folderIds

theorem documentVisible_eq_true {document : Document} {masks : List Nat} :
    documentVisible folders document (some masks) = true ↔
      ∃ folder ∈ filedIn folders document, folderVisible folders folder (some masks) = true ∧
        (document.viewerPermissionsConfig = none ∨
          overlaps document.viewPermissionMasks masks = true) := by
  cases filed : document.folderId.bind (folderById folders) with
  | none => simp [documentVisible, filedIn, filed]
  | some folder =>
    cases folderVisible folders folder (some masks) <;>
      simp [documentVisible, filedIn, *]

/-- **Fetching gives a document within the folder limit that is visible to the masks.** -/
theorem getDocument_eq_ok (ids : (documents.map DocumentRow.id).Nodup) {document : DocumentRow}
    (member : document ∈ documents) :
    getDocument folders documents (principalOf scope) document.id = .ok document ↔
      WithinFolders scope document.toDocument ∧
        documentVisible folders document.toDocument (some scope.masks) = true := by
  have found : (documents.find? fun other => other.id = document.id) = some document := by
    cases first : documents.find? fun other => other.id = document.id with
    | none =>
      have skipped := find?_eq_none.mp first document member
      simp at skipped
    | some other =>
      have same : other.id = document.id := by simpa using find?_some first
      rw [inj_on_of_nodup_map ids (mem_of_find?_eq_some first) member same]
  have outside : ((principalOf scope).folderIds.any fun folderIds =>
      !document.folderId.any fun folderId => folderId ∈ folderIds) = false ↔
      WithinFolders scope document.toDocument := by
    cases limit : scope.folderIds <;> cases filed : document.folderId <;>
      simp [WithinFolders, principalOf, limit, filed]
  simp only [getDocument, apiKeyAccessKeys_principalOf, found, bind, Except.bind]
  rw [← outside]
  cases (principalOf scope).folderIds.any fun folderIds =>
      !document.folderId.any fun folderId => folderId ∈ folderIds <;>
    simp [pure, Except.pure, throw, throwThe, MonadExceptOf.throw]

variable {folderIds : List Nat}

theorem checkFolderCount_eq_ok {folders : Option (List Nat)}
    (checked : checkFolderCount folderIds = .ok folders) : folders = some folderIds := by
  unfold checkFolderCount at checked
  split at checked
  · cases checked
  · exact (Except.ok.inj checked).symm

theorem apiKeyFolderScope_eq_ok {searched : Option (List Nat)}
    (granted : apiKeyFolderScope (principalOf scope) folderIds = .ok searched) :
    ∀ allowed ∈ scope.folderIds, ∃ among, among ⊆ allowed ∧ searched = some among := by
  intro allowed limit
  have limited : (principalOf scope).folderIds = some allowed := limit
  simp only [apiKeyFolderScope, limited] at granted
  split at granted
  · exact ⟨_, fun _ member => (mem_insertionSort _).mp member, checkFolderCount_eq_ok granted⟩
  · split at granted
    · rename_i inside
      refine ⟨_, fun folderId member => ?_, checkFolderCount_eq_ok granted⟩
      exact of_decide_eq_true (all_eq_true.mp inside folderId member)
    · cases granted

theorem retrievalScope_eq_ok {tags : List String} {readScope : ReadScope}
    (granted : retrievalScope (principalOf scope) tags folderIds = .ok (some readScope)) :
    readScope.accessKeys = some scope.masks ∧
      ∀ allowed ∈ scope.folderIds, ∃ searched : List Nat, searched ≠ [] ∧ searched ⊆ allowed ∧
        readScope.anyTags = some (searched.map folderTag) := by
  simp only [retrievalScope, apiKeyAccessKeys_principalOf, bind, Except.bind] at granted
  split at granted
  · cases granted
  · rename_i searched within
    split at granted
    · cases granted
    · rename_i nonempty
      cases Except.ok.inj granted
      refine ⟨rfl, fun allowed limit => ?_⟩
      obtain ⟨among, inside, rfl⟩ := apiKeyFolderScope_eq_ok within allowed limit
      cases among with
      | nil => exact absurd rfl nonempty
      | cons folderId rest => exact ⟨folderId :: rest, by simp, inside, rfl⟩

theorem retrievalScope_unlimited (unlimited : scope.folderIds = none) :
    retrievalScope (principalOf scope) [] [] = .ok (some { accessKeys := some scope.masks }) := by
  have limit : (principalOf scope).folderIds = none := unlimited
  simp only [retrievalScope, apiKeyAccessKeys_principalOf, apiKeyFolderScope, limit, bind,
    Except.bind]
  rfl

theorem overlaps_of_chunkConditions {tags : List String} {readScope : ReadScope}
    {document : Document} {chunk : Chunk}
    (granted : retrievalScope (principalOf scope) tags folderIds = .ok (some readScope))
    (indexed : IndexedAs folders document chunk) (admitted : chunkConditions readScope chunk = true) :
    overlaps (scoping folders document).2 scope.masks = true ∧
      ∀ allowed ∈ scope.folderIds, ∃ folder ∈ filedIn folders document, folder.id ∈ allowed := by
  obtain ⟨keys, limited⟩ := retrievalScope_eq_ok granted
  simp only [chunkConditions, keys, all_some, Bool.and_eq_true, Bool.or_eq_true] at admitted
  obtain ⟨⟨-, tagged⟩, accessible⟩ := admitted
  constructor
  · rw [← any_stored_accessKeys scope.public_mem folders document [], ← indexed.accessKeys]
    rcases accessible with empty | matching
    · have held := scope.public_mem
      rw [isEmpty_iff.mp empty] at held
      cases held
    · exact matching
  · intro allowed limit
    obtain ⟨searched, nonempty, inside, anyTags⟩ := limited allowed limit
    simp only [anyTags, all_some, Bool.or_eq_true, List.isEmpty_iff, List.map_eq_nil_iff,
      nonempty, false_or, List.any_eq_true, decide_eq_true_eq, List.mem_map] at tagged
    obtain ⟨tag, ⟨folderId, among, rfl⟩, carried⟩ := tagged
    obtain ⟨userTags, stored⟩ := indexed.tags
    rw [stored] at carried
    have filed : (filedIn folders document).map Folder.id = some folderId :=
      folderTag_mem_indexTags.mp carried
    obtain ⟨folder, isFolder, rfl⟩ := map_eq_some_iff.mp filed
    exact ⟨folder, isFolder, inside among⟩

end Routes

/-! ## Paging -/

theorem exists_page_iff {α : Type*} {items : List α} {item : α} {pageSize : Nat}
    (pos : 1 ≤ pageSize) :
    (∃ page, 1 ≤ page ∧ item ∈ (items.drop ((page - 1) * pageSize)).take pageSize) ↔
      item ∈ items := by
  constructor
  · rintro ⟨page, -, member⟩
    exact mem_of_mem_drop (mem_of_mem_take member)
  · intro member
    obtain ⟨place, within, rfl⟩ := mem_iff_getElem.mp member
    have split := Nat.div_add_mod' place pageSize
    have small := Nat.mod_lt place pos
    refine ⟨place / pageSize + 1, Nat.le_add_left 1 _, ?_⟩
    rw [Nat.add_sub_cancel]
    refine mem_iff_getElem.mpr ⟨place % pageSize, ?_, ?_⟩
    · rw [length_take, length_drop]
      omega
    · rw [getElem_take, getElem_drop]
      simp only [split]

section Listing

variable {folders : List Folder} {documents : List DocumentRow} {scope : KeyScope}

def listableFolders (folders : List Folder) (scope : KeyScope) : List Nat :=
  scope.folderIds.getD (visibleFolderIds folders (some scope.masks))

def listable (folders : List Folder) (scope : KeyScope) (folderId : Option Nat)
    (documents : List DocumentRow) : List DocumentRow :=
  documents.filter fun document =>
    (document.folderId.any fun filed =>
      filed ∈ listableFolders folders scope ∧ ∀ only ∈ folderId, filed = only) &&
    overrideAdmits document.toDocument scope.masks

theorem listForFolders_eq {folderId : Option Nat}
    (shown : ∀ only ∈ folderId, only ∈ listableFolders folders scope) (offset limit : Nat) :
    listForFolders documents
        (some (folderId.elim (listableFolders folders scope) fun folderId => [folderId])) false
        offset limit (some scope.masks) =
      (((listable folders scope folderId documents).drop offset).take limit,
        (listable folders scope folderId documents).length) := by
  have same : (fun document : DocumentRow =>
      selects (some (folderId.elim (listableFolders folders scope) fun folderId => [folderId]))
        false (some scope.masks) document.toDocument) =
      fun document =>
        (document.folderId.any fun filed =>
          filed ∈ listableFolders folders scope ∧ ∀ only ∈ folderId, filed = only) &&
        overrideAdmits document.toDocument scope.masks := by
    funext document
    simp only [selects, all_some]
    congr 1
    cases document.folderId with
    | none => simp
    | some filed =>
      cases folderId with
      | none =>
        show decide (filed ∈ listableFolders folders scope) = _
        simp
      | some asked =>
        have held := shown asked rfl
        by_cases here : filed = asked
        · simp [here, held]
        · simp [here]
  simp only [listForFolders, listable, same]

theorem listDocuments_eq (pagination : PaginationParams) (folderId : Option Nat) :
    listDocuments folders documents (principalOf scope) pagination folderId =
      if folderId.any fun folderId => folderId ∉ listableFolders folders scope then
        .error ⟨404, "folder not found"⟩
      else
        .ok ((((listable folders scope folderId documents).drop pagination.offset).take
          pagination.pageSize), (listable folders scope folderId documents).length) := by
  have visible : (principalOf scope).folderIds.getD (visibleFolderIds folders (some scope.masks)) =
      listableFolders folders scope := rfl
  simp only [listDocuments, apiKeyAccessKeys_principalOf, bind, Except.bind, visible]
  split
  · rfl
  · rename_i shown
    have held : ∀ only ∈ folderId, only ∈ listableFolders folders scope := by
      intro only asked
      rw [mem_def.mp asked] at shown
      simpa using shown
    rw [← listForFolders_eq held]
    split
    · rename_i empty
      have nothing : listableFolders folders scope = [] := isEmpty_iff.mp empty
      rw [listForFolders_eq held]
      simp [listable, nothing, pure, Except.pure]
    · rfl

theorem mem_listable {folderId : Option Nat} {document : DocumentRow}
    (member : document ∈ documents) :
    document ∈ listable folders scope folderId documents ↔
      ∃ filed ∈ document.folderId, filed ∈ listableFolders folders scope ∧
        (∀ only ∈ folderId, filed = only) ∧
        overrideAdmits document.toDocument scope.masks = true := by
  simp only [listable, mem_filter, member, true_and, Bool.and_eq_true]
  cases document.folderId <;> simp [and_assoc]

end Listing

/-! ## The boundary -/

/-- What the search lets through is no more than what the document routes do: the document is
filed, and its folder is visible or has it inherit; or its override admits none of the masks. -/
def Sheltered (folders : List Folder) (masks : List Nat) (document : Document) : Prop :=
  (∃ folder ∈ filedIn folders document,
    folderVisible folders folder (some masks) = true ∨ document.viewerPermissionsConfig = none) ∨
  document.viewerPermissionsConfig ≠ none ∧ overlaps document.viewPermissionMasks masks = false

/-- The routes of a scoped key draw one boundary: searching and chatting show passages only of
documents that can be fetched, and the pages of a listing hold exactly the documents that can be
fetched. -/
structure SameBoundary (folders : List Folder) (documents : List DocumentRow)
    (chunks : List Chunk) (principal : ApiKeyPrincipal) : Prop where
  searched : ∀ (backends : Backends) (body : SearchRequest) (hits : List Hit),
    searchRoute backends chunks principal body = .ok hits → ∀ hit ∈ hits,
    ∀ document ∈ documents, document.documentKey = hit.payload.documentKey →
    getDocument folders documents principal document.id = .ok document
  chatted : ∀ (backends : Backends) (body : ChatRequest) (sources : List Source),
    chatRoute backends chunks principal body = .ok sources → ∀ source ∈ sources,
    ∀ document ∈ documents, document.documentKey = source.documentKey →
    getDocument folders documents principal document.id = .ok document
  listed : ∀ pageSize, 1 ≤ pageSize ∧ pageSize ≤ 200 → ∀ folderId, ∀ document ∈ documents,
    (∃ pagination : PaginationParams, pagination.pageSize = pageSize ∧
      ∃ page, listDocuments folders documents principal pagination folderId = .ok page ∧
        document ∈ page.1) ↔
    getDocument folders documents principal document.id = .ok document ∧
      ∀ only ∈ folderId, document.folderId = some only

section Boundary

variable {orgNumber : Option Nat} {folders : List Folder} {documents : List DocumentRow}
  {chunks : List Chunk} {apiKey : ApiKey} {scope : KeyScope}

theorem folderVisible_eq_isVisible (wellFormed : WellFormed folders) (folder : Folder)
    (masks : List Nat) :
    folderVisible folders folder (some masks) = isVisible folder folders masks := by
  simp only [folderVisible, isVisible, overlaps, effectiveViewMasks_eq_of_nodup wellFormed.ids_nodup]
  cases (effectiveMasksByParent folder folders).isEmpty <;> rfl

variable {document : Document}

variable {masks : List Nat}

theorem documentVisible_iff_sheltered
    (searchable : overlaps (scoping folders document).2 masks = true) :
    documentVisible folders document (some masks) = true ↔ Sheltered folders masks document := by
  rw [documentVisible_eq_true]
  cases config : document.viewerPermissionsConfig with
  | some entries =>
    have own : overlaps document.viewPermissionMasks masks = true := by
      simpa [scoping, config] using searchable
    simp [Sheltered, config, own]
  | none =>
    have inherited : overlaps (effectiveViewMasks folders (filedIn folders document)) masks =
        true := by simpa [scoping, config] using searchable
    cases filed : filedIn folders document with
    | none => simp [Sheltered, config, filed]
    | some folder =>
      have visible : folderVisible folders folder (some masks) = true := by
        simpa [folderVisible, filed] using inherited
      simp [Sheltered, config, filed, visible]

theorem mem_filedIn (wellFormed : WellFormed folders) {folder : Folder} :
    folder ∈ filedIn folders document ↔ folder ∈ folders ∧ document.folderId = some folder.id := by
  constructor
  · intro isFolder
    obtain ⟨folderId, link, found⟩ := bind_eq_some_iff.mp isFolder
    obtain ⟨member, rfl⟩ := mem_of_folderById found
    exact ⟨member, link⟩
  · rintro ⟨member, link⟩
    exact bind_eq_some_iff.mpr ⟨folder.id, link, wellFormed.folderById_eq member⟩

theorem overrideAdmits_eq_true :
    overrideAdmits document masks = true ↔
      document.viewerPermissionsConfig = none ∨
        overlaps document.viewPermissionMasks masks = true := by
  cases empty : document.viewPermissionMasks.isEmpty <;> simp [overrideAdmits, overlaps, empty]

section

variable (wellFormed : WellFormed folders)
    (resolved : resolveKeyScope orgNumber folders apiKey = .ok scope)

include wellFormed resolved

theorem visible_of_mem_listableFolders {folderId : Nat}
    (listed : folderId ∈ listableFolders folders scope) :
    ∃ folder ∈ folders, folder.id = folderId ∧ isVisible folder folders scope.masks = true := by
  cases limit : scope.folderIds with
  | some allowed =>
    have inside : folderId ∈ allowed := by simpa [listableFolders, limit] using listed
    exact visible_of_mem_folderIds wellFormed resolved limit inside
  | none =>
    simp only [listableFolders, limit, getD_none, visibleFolderIds, List.mem_map,
      mem_filter] at listed
    obtain ⟨folder, ⟨member, visible⟩, same⟩ := listed
    exact ⟨folder, member, same, visible⟩

theorem sheltered_of_allowed {allowed : List Nat} (limit : scope.folderIds = some allowed)
    (filed : ∃ folder ∈ filedIn folders document, folder.id ∈ allowed) :
    Sheltered folders scope.masks document ∧ WithinFolders scope document := by
  obtain ⟨folder, isFolder, inside⟩ := filed
  obtain ⟨member, link⟩ := (mem_filedIn wellFormed).mp isFolder
  obtain ⟨other, otherMember, same, visible⟩ :=
    visible_of_mem_folderIds wellFormed resolved limit inside
  obtain rfl := wellFormed.eq_of_id otherMember member same
  refine ⟨.inl ⟨other, isFolder, .inl ?_⟩, fun folderIds limited => ⟨other.id, link, ?_⟩⟩
  · rw [folderVisible_eq_isVisible wellFormed, visible]
  · obtain rfl : allowed = folderIds := some.inj (limit.symm.trans limited)
    exact inside

/-- **What a key may list is what it may fetch.** -/
theorem listable_iff (document : Document) :
    (∃ filed ∈ document.folderId, filed ∈ listableFolders folders scope ∧
      overrideAdmits document scope.masks = true) ↔
    WithinFolders scope document ∧ documentVisible folders document (some scope.masks) = true := by
  rw [documentVisible_eq_true, ← overrideAdmits_eq_true]
  constructor
  · rintro ⟨filed, link, listed, admits⟩
    obtain ⟨folder, member, rfl, visible⟩ :=
      visible_of_mem_listableFolders wellFormed resolved listed
    refine ⟨fun allowed limit => ⟨folder.id, link, ?_⟩,
      folder, (mem_filedIn wellFormed).mpr ⟨member, link⟩, ?_, admits⟩
    · simpa [listableFolders, mem_def.mp limit] using listed
    · rw [folderVisible_eq_isVisible wellFormed, visible]
  · rintro ⟨within, folder, isFolder, visible, admits⟩
    obtain ⟨member, link⟩ := (mem_filedIn wellFormed).mp isFolder
    refine ⟨folder.id, link, ?_, admits⟩
    cases limit : scope.folderIds with
    | some allowed =>
      obtain ⟨folderId, link', inside⟩ := within allowed limit
      obtain rfl : folder.id = folderId := some.inj (link.symm.trans link')
      simpa [listableFolders, limit] using inside
    | none =>
      rw [folderVisible_eq_isVisible wellFormed] at visible
      simp only [listableFolders, limit, getD_none, visibleFolderIds, List.mem_map, mem_filter]
      exact ⟨folder, ⟨member, visible⟩, rfl⟩

/-- **The pages of a listing hold exactly the documents that can be fetched.** -/
theorem listDocuments_pages_iff (ids : (documents.map DocumentRow.id).Nodup) {pageSize : Nat}
    (range : 1 ≤ pageSize ∧ pageSize ≤ 200) (folderId : Option Nat) {document : DocumentRow}
    (member : document ∈ documents) :
    (∃ pagination : PaginationParams, pagination.pageSize = pageSize ∧
      ∃ page, listDocuments folders documents (principalOf scope) pagination folderId = .ok page ∧
        document ∈ page.1) ↔
    getDocument folders documents (principalOf scope) document.id = .ok document ∧
      ∀ only ∈ folderId, document.folderId = some only := by
  rw [getDocument_eq_ok ids member, ← listable_iff wellFormed resolved]
  constructor
  · rintro ⟨pagination, -, page, answered, shown⟩
    rw [listDocuments_eq] at answered
    split at answered
    · cases answered
    · cases answered
      obtain ⟨filed, link, listed, asked, admits⟩ :=
        (mem_listable member).mp (mem_of_mem_drop (mem_of_mem_take shown))
      exact ⟨⟨filed, link, listed, admits⟩, fun only isAsked => asked only isAsked ▸ link⟩
  · rintro ⟨⟨filed, link, listed, admits⟩, asked⟩
    have same : ∀ only ∈ folderId, filed = only := fun only isAsked =>
      some.inj ((mem_def.mp link).symm.trans (asked only isAsked))
    have among : document ∈ listable folders scope folderId documents :=
      (mem_listable member).mpr ⟨filed, link, listed, same, admits⟩
    obtain ⟨page, pos, shown⟩ := (exists_page_iff range.1).mpr among
    refine ⟨⟨page, pageSize, pos, range⟩, rfl,
      (_, (listable folders scope folderId documents).length), ?_, shown⟩
    rw [listDocuments_eq, if_neg ?_]
    · rfl
    · cases folderId with
      | none => simp
      | some only =>
        obtain rfl := same only rfl
        simpa using listed

end

/-- What a granted search shows. -/
structure Retrieved (chunks : List Chunk) (scope : KeyScope) (payload : ChunkPayload)
    (tags : List String) (folderIds : List Nat) : Prop where
  masks_fit : scope.masks.length ≤ maxAccessKeys
  shows : ∃ readScope, retrievalScope (principalOf scope) tags folderIds = .ok (some readScope) ∧
    ∃ chunk ∈ chunks, chunkConditions readScope chunk = true ∧ chunk.payload = payload

theorem masks_fit_of_check {readScope : ReadScope} (keys : readScope.accessKeys = some scope.masks)
    (checked : checkAccessKeys readScope = .ok ()) : scope.masks.length ≤ maxAccessKeys := by
  unfold checkAccessKeys at checked
  split at checked
  · cases checked
  · rename_i fits
    simpa [keys] using fits

theorem retrieved_of_searchRoute {backends : Backends} {body : SearchRequest} {hits : List Hit}
    {hit : Hit} (answered : searchRoute backends chunks (principalOf scope) body = .ok hits)
    (member : hit ∈ hits) :
    Retrieved chunks scope hit.payload body.tags body.folderIds := by
  simp only [searchRoute, bind, Except.bind] at answered
  split at answered
  · cases answered
  · rename_i granted
    split at answered
    · cases answered
      cases member
    · rename_i readScope
      split at answered
      · cases answered
      · rename_i checked
        cases answered
        obtain ⟨chunk, stored, admitted, -, same⟩ := shows_of_mem_vectorSearch member
        exact ⟨masks_fit_of_check (retrievalScope_eq_ok granted).1 checked,
          readScope, granted, chunk, stored, admitted, same.symm⟩

theorem retrieved_of_chatRoute {backends : Backends} {body : ChatRequest} {sources : List Source}
    {source : Source}
    (answered : chatRoute backends chunks (principalOf scope) body = .ok sources)
    (member : source ∈ sources) :
    ∃ payload, payload.documentKey = source.documentKey ∧
      Retrieved chunks scope payload body.tags body.folderIds := by
  simp only [chatRoute, bind, Except.bind] at answered
  split at answered
  · cases answered
  · rename_i granted
    split at answered
    · cases answered
      cases member
    · rename_i readScope
      split at answered
      · cases answered
      · rename_i checked
        cases answered
        obtain ⟨place, within, rfl⟩ := mem_iff_getElem.mp member
        have bound : place < (vectorSearch backends chunks body.query backends.chatChunkLimit
            readScope).length := by simpa [passageSources] using within
        obtain ⟨chunk, stored, admitted, -, same⟩ :=
          shows_of_mem_vectorSearch (getElem_mem bound)
        refine ⟨_, ?_, masks_fit_of_check (retrievalScope_eq_ok granted).1 checked,
          readScope, granted, chunk, stored, admitted, same.symm⟩
        simp [passageSources]

/-- The chunks of a document that a search may not show do not depend on the difference. -/
theorem sheltered_of_not_searchable (hidden : overlaps (scoping folders document).2 masks = false) :
    Sheltered folders masks document := by
  cases config : document.viewerPermissionsConfig with
  | some entries =>
    have own : overlaps document.viewPermissionMasks masks = false := by
      simpa [scoping, config] using hidden
    exact .inr ⟨by simp [config], own⟩
  | none =>
    cases filed : filedIn folders document with
    | none => simp [scoping, config, filed, effectiveViewMasks, overlaps] at hidden
    | some folder => exact .inl ⟨folder, filed, .inr config⟩

/-- When the key searches at all, and everywhere, the document has to be sheltered. -/
def Guarded (folders : List Folder) (documents : List DocumentRow) (chunks : List Chunk)
    (scope : KeyScope) : Prop :=
  scope.folderIds ≠ none ∨ maxAccessKeys < scope.masks.length ∨
    ∀ document ∈ documents,
      (∃ chunk ∈ chunks, chunk.payload.documentKey = document.documentKey) →
      Sheltered folders scope.masks document.toDocument

theorem getDocument_of_retrieved (wellFormed : WellFormed folders)
    (resolved : resolveKeyScope orgNumber folders apiKey = .ok scope)
    (ids : (documents.map DocumentRow.id).Nodup)
    (keys : (documents.map fun document => document.documentKey).Nodup)
    (follows : IndexFollowsRows folders documents chunks)
    (guarded : Guarded folders documents chunks scope) {payload : ChunkPayload}
    {tags : List String} {folderIds : List Nat}
    (retrieved : Retrieved chunks scope payload tags folderIds) {document : DocumentRow}
    (member : document ∈ documents) (same : document.documentKey = payload.documentKey) :
    getDocument folders documents (principalOf scope) document.id = .ok document := by
  obtain ⟨fits, readScope, granted, chunk, stored, admitted, rfl⟩ := retrieved
  obtain ⟨other, otherMember, indexed⟩ := follows chunk stored
  obtain rfl : other = document := inj_on_of_nodup_map keys otherMember member
    (indexed.documentKey.symm.trans same.symm)
  obtain ⟨searchable, limited⟩ := overlaps_of_chunkConditions granted indexed admitted
  rw [getDocument_eq_ok ids member, documentVisible_iff_sheltered searchable]
  cases limit : scope.folderIds with
  | some allowed =>
    exact (sheltered_of_allowed wellFormed resolved limit (limited allowed limit)).symm
  | none =>
    refine ⟨fun allowed isLimit => by simp [limit] at isLimit, ?_⟩
    rcases guarded with narrowed | excess | sheltered
    · exact absurd limit narrowed
    · exact absurd fits (Nat.not_le.mpr excess)
    · exact sheltered other member ⟨chunk, stored, same.symm⟩

/-- A request that names no folder and no tag. -/
def anyQuestion : SearchRequest where
  query := "?"
  limit := 1
  query_length := by decide
  limit_range := by decide

theorem searchRoute_favouring {chunk : Chunk} (unlimited : scope.folderIds = none)
    (fits : scope.masks.length ≤ maxAccessKeys) (stored : chunk ∈ chunks)
    (indexed : IndexedAs folders document chunk)
    (searchable : overlaps (scoping folders document).2 scope.masks = true) :
    ∃ hits, searchRoute (favouring chunk) chunks (principalOf scope) anyQuestion = .ok hits ∧
      ∃ hit ∈ hits, hit.payload = chunk.payload := by
  have nonempty : scope.masks ≠ [] := ne_nil_of_mem scope.public_mem
  have admitted : chunkConditions { accessKeys := some scope.masks } chunk = true := by
    have matching := any_stored_accessKeys scope.public_mem folders document []
    rw [← indexed.accessKeys, searchable] at matching
    simp [chunkConditions, matching]
  have checked : checkAccessKeys { accessKeys := some scope.masks } = .ok () := by
    simp [checkAccessKeys, fits]
  refine ⟨_, ?_, _, favoured_mem_vectorSearch stored admitted
    (by simp [ReadScope.isEmpty, nonempty]) anyQuestion.query, rfl⟩
  have granted : retrievalScope (principalOf scope) anyQuestion.tags anyQuestion.folderIds = _ :=
    retrievalScope_unlimited unlimited
  simp only [searchRoute, granted, checked, bind, Except.bind]
  rfl

/-- **The routes draw one boundary exactly when the documents are guarded.** -/
theorem sameBoundary_iff_guarded (wellFormed : WellFormed folders)
    (resolved : resolveKeyScope orgNumber folders apiKey = .ok scope)
    (ids : (documents.map DocumentRow.id).Nodup)
    (keys : (documents.map fun document => document.documentKey).Nodup)
    (follows : IndexFollowsRows folders documents chunks) :
    SameBoundary folders documents chunks (principalOf scope) ↔
      Guarded folders documents chunks scope := by
  constructor
  · intro boundary
    by_contra unguarded
    simp only [Guarded, not_or, not_not, not_forall, Nat.not_lt] at unguarded
    obtain ⟨unlimited, fits, document, member, ⟨chunk, stored, same⟩, exposed⟩ := unguarded
    apply exposed
    cases searchable : overlaps (scoping folders document.toDocument).2 scope.masks with
    | false => exact sheltered_of_not_searchable searchable
    | true =>
      obtain ⟨other, otherMember, indexed⟩ := follows chunk stored
      obtain rfl : other = document := inj_on_of_nodup_map keys otherMember member
        (indexed.documentKey.symm.trans same)
      obtain ⟨hits, answered, hit, shown, payload⟩ :=
        searchRoute_favouring unlimited fits stored indexed searchable
      have fetched := boundary.searched _ _ _ answered hit shown other member
        (payload ▸ same.symm)
      exact (documentVisible_iff_sheltered searchable).mp
        ((getDocument_eq_ok ids member).mp fetched).2
  · intro guarded
    exact {
      searched := fun backends body hits answered hit shown document member same =>
        getDocument_of_retrieved wellFormed resolved ids keys follows guarded
          (retrieved_of_searchRoute answered shown) member same
      chatted := fun backends body sources answered source shown document member same => by
        obtain ⟨payload, sameKey, retrieved⟩ := retrieved_of_chatRoute answered shown
        exact getDocument_of_retrieved wellFormed resolved ids keys follows guarded retrieved
          member (same.trans sameKey.symm)
      listed := fun pageSize range folderId document member =>
        listDocuments_pages_iff wellFormed resolved ids range folderId member }

end Boundary

/-! ## A note that is filed, and one that is not -/

/-- A key assigned one region. -/
def northKey : ApiKey where
  orgId := 1
  isScoped := true
  assignments := [.dimension .region 1 (some 1)]

/-- What the key reads with. -/
def northScope : KeyScope where
  masks := withUnrestricted
    ((masksOfNumbers 1 fun kind => if kind = .region then [1] else []).toOption.getD [])
  folderIds := none
  public_mem := mem_cons_self ..

theorem resolveKeyScope_northKey (folders : List Folder) :
    resolveKeyScope (some 1) folders northKey = .ok northScope := rfl

/-- A note, filed in the folder of that id. -/
def note (folderId : Option Nat) : DocumentRow where
  id := 1
  documentKey := "note"
  title := "Note"
  folderId := folderId

section

variable (folders : List Folder) (folderId : Option Nat)

/-- The note's only chunk, as an ingest writes it. -/
def noteChunk : Chunk where
  id := 1
  payload := { text := "Remember the milk.", documentKey := "note" }
  accessKeys := (indexedScoping folders (note folderId).toDocument []).accessKeys
  tags := (indexedScoping folders (note folderId).toDocument []).tags

theorem noteChunk_follows :
    IndexFollowsRows folders [note folderId] [noteChunk folders folderId] := by
  intro chunk stored
  obtain rfl := mem_singleton.mp stored
  exact ⟨_, mem_singleton_self _, rfl, rfl, [], rfl⟩

end

/-- The note in the folder of the north: the key may fetch it, and so may every route show it. -/
theorem sameBoundary_filed_note :
    SameBoundary [regionFolder "North"] [note (some 0)]
        [noteChunk [regionFolder "North"] (some 0)] (principalOf northScope) ∧
      getDocument [regionFolder "North"] [note (some 0)] (principalOf northScope) 1 =
        .ok (note (some 0)) := by
  refine ⟨(sameBoundary_iff_guarded (regionFolder_wellFormed "North")
    (resolveKeyScope_northKey _) (by decide) (by decide) (noteChunk_follows _ _)).mpr
    (.inr (.inr ?_)), rfl⟩
  intro document member _
  obtain rfl := mem_singleton.mp member
  exact .inl ⟨regionFolder "North", rfl, .inr rfl⟩

theorem noFolders_wellFormed : WellFormed [] where
  ids_nodup := nodup_nil
  parents_present := by simp
  acyclic := Lib.Reach.acyclic_of_height (fun _ => 0) fun _ _ edge => by cases edge

/-- The unfiled note: the key finds its passage, but may not fetch it. -/
theorem not_sameBoundary_unfiled_note :
    WellFormed [] ∧ resolveKeyScope (some 1) [] northKey = .ok northScope ∧
      IndexFollowsRows [] [note none] [noteChunk [] none] ∧
      ¬ SameBoundary [] [note none] [noteChunk [] none] (principalOf northScope) := by
  refine ⟨noFolders_wellFormed, resolveKeyScope_northKey [], noteChunk_follows [] none,
    fun boundary => ?_⟩
  have indexed : IndexedAs [] (note none).toDocument (noteChunk [] none) :=
    ⟨rfl, rfl, [], rfl⟩
  obtain ⟨hits, answered, hit, shown, payload⟩ :
      ∃ hits, searchRoute (favouring (noteChunk [] none)) [noteChunk [] none]
          (principalOf northScope) anyQuestion = .ok hits ∧
        ∃ hit ∈ hits, hit.payload = (noteChunk [] none).payload :=
    searchRoute_favouring rfl (by decide +kernel) (mem_singleton_self _) indexed rfl
  have fetched := boundary.searched _ _ _ answered hit shown (note none)
    (mem_singleton_self _) (payload ▸ rfl)
  cases fetched

end RedArchKM.Search
