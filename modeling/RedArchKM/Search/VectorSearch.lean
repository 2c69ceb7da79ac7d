import RedArchKM.Access.FolderUpdate
import Mathlib.Data.List.Sort

/-!
# Vector search

A search ranks the chunks that pass its read scope, lets a reranker re-score a wider shortlist,
and pulls the siblings of the best document in after its hit. Every stage reads chunks under the
same scope: each hit shows a chunk that passes it (`shows_of_mem_vectorSearch`).
-/

namespace RedArchKM.Search

open List

open Access (isBlank)

/-! ## The store -/

/-- What retrieval reads of a chunk. -/
structure ChunkPayload where
  text : String
  summary : String := ""
  heading : Option String := none
  chunkOrder : Nat := 0
  documentId : String := ""
  documentKey : String
  documentTitle : String := ""
  type : String := ""
deriving DecidableEq

/-- A stored chunk, with the keys and tags it is filtered by. -/
structure Chunk where
  id : Nat
  payload : ChunkPayload
  accessKeys : List Nat
  tags : List String
deriving DecidableEq

/-- What a read may see: `none` is no filter. -/
structure ReadScope where
  accessKeys : Option (List Nat) := none
  requiredTags : List String := []
  anyTags : Option (List String) := none

/-- An explicit empty scope: nothing is readable. -/
def ReadScope.isEmpty (scope : ReadScope) : Bool :=
  scope.accessKeys = some [] || scope.anyTags = some []

def chunkConditions (scope : ReadScope) (chunk : Chunk) : Bool :=
  (scope.requiredTags.all fun tag => tag ∈ chunk.tags) &&
    (scope.anyTags.all fun tags => tags.isEmpty || tags.any fun tag => tag ∈ chunk.tags) &&
    scope.accessKeys.all fun keys => keys.isEmpty || keys.any fun key => key ∈ chunk.accessKeys

/-- A retrieved passage. Scores only matter through their order. -/
structure Hit where
  id : Nat
  score : Int
  payload : ChunkPayload
  denseScore : Option Int := none
  expanded : Bool := false
deriving DecidableEq

/-- Scores passages against a query, best first, by their place in the list; `none` when it is
down. -/
abbrev Reranker := String → (texts : List String) → Nat → Option (List (Fin texts.length × Int))

/-- The models behind a search, and its settings. -/
structure Backends where
  /-- How the vector store scores a chunk for the embedded query. -/
  relevance : String → Chunk → Int
  reranker : Option Reranker := none
  resolveRelativeDates : String → String := id
  rerankCandidates : Nat := 40
  chatChunkLimit : Nat := 5

def search (backends : Backends) (chunks : List Chunk) (query : String) (limit : Nat)
    (scope : ReadScope) : List Hit :=
  let passing := chunks.filter (chunkConditions scope)
  let ranked := passing.insertionSort fun chunk other =>
    backends.relevance query other ≤ backends.relevance query chunk
  (ranked.take limit).map fun chunk =>
    { id := chunk.id, score := backends.relevance query chunk, payload := chunk.payload }

def listDocumentChunks (chunks : List Chunk) (documentKey : String) (limit : Nat)
    (scope : ReadScope) : List Hit :=
  let scrolled := (chunks.filter fun chunk =>
    chunkConditions scope chunk && chunk.payload.documentKey = documentKey).take limit
  let results : List Hit := scrolled.map fun chunk =>
    { id := chunk.id, score := 0, payload := chunk.payload }
  results.insertionSort fun result other => result.payload.chunkOrder ≤ other.payload.chunkOrder

/-! ## The search -/

def expandTopDocs : Nat := 1
def expandCharBudget : Nat := 6000
def expandMaxChunks : Nat := 40

/-- Re-score the shortlist and keep the best. A reranker that fails or returns nothing leaves the
dense order. -/
def rerankHits (reranker : Reranker) (query : String) (hits : List Hit) (limit : Nat) : List Hit :=
  if hits.isEmpty then hits
  else
    match reranker query (hits.map fun hit => hit.payload.text) limit with
    | none => hits.take limit
    | some ranked =>
      let out := (ranked.take limit).map fun result =>
        let hit := hits.get (result.1.cast (length_map _))
        { hit with score := result.2, denseScore := some hit.score }
      if out.isEmpty then hits.take limit else out

def addSiblings : Nat → List Nat → List Hit → List Nat × List Hit
  | _, seenIds, [] => (seenIds, [])
  | budget, seenIds, sibling :: siblings =>
    if sibling.id ∈ seenIds then addSiblings budget seenIds siblings
    else if budget < sibling.payload.text.length then (seenIds, [])
    else
      let (seenIds, added) := addSiblings (budget - sibling.payload.text.length)
        (seenIds ++ [sibling.id]) siblings
      (seenIds, { sibling with score := 0, expanded := true } :: added)

structure Expansion where
  seenIds : List Nat
  expandedDocs : List String := []
  out : List Hit := []

def Expansion.add (chunks : List Chunk) (scope : ReadScope) (expansion : Expansion) (hit : Hit) :
    Expansion :=
  let out := expansion.out ++ [hit]
  let documentKey := hit.payload.documentKey
  if documentKey = "" ∨ documentKey ∈ expansion.expandedDocs ∨
      expandTopDocs ≤ expansion.expandedDocs.length then { expansion with out := out }
  else
    let siblings := listDocumentChunks chunks documentKey expandMaxChunks scope
    let (seenIds, added) := addSiblings expandCharBudget expansion.seenIds siblings
    { seenIds := seenIds
      expandedDocs := expansion.expandedDocs ++ [documentKey]
      out := out ++ added }

def expandTopDocuments (chunks : List Chunk) (hits : List Hit) (scope : ReadScope) : List Hit :=
  (hits.foldl (Expansion.add chunks scope) { seenIds := hits.map Hit.id }).out

section

variable (backends : Backends) (chunks : List Chunk) (query : String) (limit : Nat)
    (scope : ReadScope)

/-- The dense hits; with a reranker, a wider shortlist re-scored down to the limit. -/
def rankedHits : List Hit :=
  match backends.reranker with
  | none => search backends chunks query limit scope
  | some reranker =>
    rerankHits reranker query
      (search backends chunks query (max limit backends.rerankCandidates) scope) limit

/-- Semantic search over the chunks. -/
def vectorSearch (expandDocuments : Bool := true) : List Hit :=
  if scope.isEmpty then []
  else
    let hits := rankedHits backends chunks (backends.resolveRelativeDates query) limit scope
    if expandDocuments then expandTopDocuments chunks hits scope else hits

end

/-! ## Citations -/

def snippetMaxChars : Nat := 240

/-- A short preview of a passage, cut at a word boundary. -/
def snippet (text : String) : String :=
  let words := (text.toList.splitOnP isBlank).filter fun word => !word.isEmpty
  let collapsed := [' '].intercalate words
  if collapsed.length ≤ snippetMaxChars then String.ofList collapsed
  else
    let cut := collapsed.take snippetMaxChars
    let beforeLastSpace := ((cut.reverse.dropWhile fun char => char != ' ').drop 1).reverse
    let cut := if beforeLastSpace.isEmpty then cut else beforeLastSpace
    String.ofList (cut.reverse.dropWhile isBlank).reverse ++ "…"

/-- A numbered citation of a passage. -/
structure Source where
  documentId : String
  documentKey : String
  documentTitle : String
  heading : Option String
  chunkOrder : Nat
  snippet : String
  score : Int
  number : Nat

def passageSources (hits : List Hit) : List Source :=
  hits.mapIdx fun place hit =>
    { documentId := hit.payload.documentId
      documentKey := hit.payload.documentKey
      documentTitle := hit.payload.documentTitle
      heading := hit.payload.heading
      chunkOrder := hit.payload.chunkOrder
      snippet := snippet hit.payload.text
      score := hit.score
      number := place + 1 }

/-! ## Hits show chunks of the scope -/

/-- The hit shows a chunk of the store that passes the scope. -/
def Shows (chunks : List Chunk) (scope : ReadScope) (hit : Hit) : Prop :=
  ∃ chunk ∈ chunks, chunkConditions scope chunk = true ∧ hit.id = chunk.id ∧
    hit.payload = chunk.payload

section Shown

variable {backends : Backends} {chunks : List Chunk} {scope : ReadScope} {hit : Hit}

variable {limit : Nat} {query : String}

theorem shows_of_mem_search (member : hit ∈ search backends chunks query limit scope) :
    Shows chunks scope hit := by
  obtain ⟨chunk, ranked, rfl⟩ := mem_map.mp member
  have passing := (mem_insertionSort _).mp (mem_of_mem_take ranked)
  obtain ⟨stored, admitted⟩ := mem_filter.mp passing
  exact ⟨chunk, stored, admitted, rfl, rfl⟩

theorem shows_of_mem_listDocumentChunks {documentKey : String}
    (member : hit ∈ listDocumentChunks chunks documentKey limit scope) :
    Shows chunks scope hit := by
  have scrolled := (mem_insertionSort _).mp member
  obtain ⟨chunk, taken, rfl⟩ := mem_map.mp scrolled
  obtain ⟨stored, conditions⟩ := mem_filter.mp (mem_of_mem_take taken)
  simp only [Bool.and_eq_true] at conditions
  exact ⟨chunk, stored, conditions.1, rfl, rfl⟩

theorem shows_of_mem_rerankHits {reranker : Reranker} {hits : List Hit}
    (shown : ∀ hit ∈ hits, Shows chunks scope hit)
    (member : hit ∈ rerankHits reranker query hits limit) : Shows chunks scope hit := by
  have dense : hit ∈ hits.take limit → Shows chunks scope hit := fun taken =>
    shown hit (mem_of_mem_take taken)
  unfold rerankHits at member
  split at member
  · exact shown hit member
  · split at member
    · exact dense member
    · rename_i ranked _
      dsimp only at member
      split at member
      · exact dense member
      · obtain ⟨result, -, rfl⟩ := mem_map.mp member
        exact shown (hits.get (result.1.cast (length_map _))) (get_mem hits _)

theorem shows_of_mem_addSiblings {siblings : List Hit}
    (shown : ∀ sibling ∈ siblings, Shows chunks scope sibling) :
    ∀ (budget : Nat) (seenIds : List Nat), hit ∈ (addSiblings budget seenIds siblings).2 →
      Shows chunks scope hit := by
  induction siblings with
  | nil =>
    intro budget seenIds member
    cases member
  | cons sibling siblings ih =>
    intro budget seenIds member
    have rest := ih fun other later => shown other (mem_cons_of_mem _ later)
    unfold addSiblings at member
    split at member
    · exact rest _ _ member
    · split at member
      · cases member
      · rcases mem_cons.mp member with rfl | later
        · exact shown sibling (mem_cons_self ..)
        · exact rest _ _ later

theorem shows_of_mem_expandTopDocuments {hits : List Hit}
    (shown : ∀ hit ∈ hits, Shows chunks scope hit)
    (member : hit ∈ expandTopDocuments chunks hits scope) : Shows chunks scope hit := by
  have kept : ∀ (hits : List Hit) (expansion : Expansion),
      (∀ hit ∈ hits, Shows chunks scope hit) → (∀ hit ∈ expansion.out, Shows chunks scope hit) →
      ∀ hit ∈ (hits.foldl (Expansion.add chunks scope) expansion).out, Shows chunks scope hit := by
    intro hits
    induction hits with
    | nil => exact fun _ _ so => so
    | cons first rest ih =>
      intro expansion shown so
      have grown : ∀ hit ∈ expansion.out ++ [first], Shows chunks scope hit := by
        intro hit member
        rcases mem_append.mp member with before | now
        · exact so hit before
        · exact shown hit (mem_singleton.mp now ▸ mem_cons_self ..)
      refine ih _ (fun hit later => shown hit (mem_cons_of_mem _ later)) ?_
      intro hit member
      unfold Expansion.add at member
      dsimp only at member
      split at member
      · exact grown hit member
      · rcases mem_append.mp member with before | added
        · exact grown hit before
        · exact shows_of_mem_addSiblings (fun _ => shows_of_mem_listDocumentChunks) _ _ added
  exact kept hits _ shown (by simp) hit member

theorem shows_of_mem_rankedHits (member : hit ∈ rankedHits backends chunks query limit scope) :
    Shows chunks scope hit := by
  unfold rankedHits at member
  split at member
  · exact shows_of_mem_search member
  · exact shows_of_mem_rerankHits (fun _ => shows_of_mem_search) member

/-- **Every hit shows a chunk of the scope.** -/
theorem shows_of_mem_vectorSearch {expandDocuments : Bool}
    (member : hit ∈ vectorSearch backends chunks query limit scope expandDocuments) :
    Shows chunks scope hit := by
  unfold vectorSearch at member
  split at member
  · cases member
  · dsimp only at member
    split at member
    · exact shows_of_mem_expandTopDocuments (fun _ => shows_of_mem_rankedHits) member
    · exact shows_of_mem_rankedHits member

end Shown

/-! ## A chunk in scope can lead -/

theorem mem_out_add (chunks : List Chunk) (scope : ReadScope) (expansion : Expansion) (hit : Hit)
    {shown : Hit} (kept : shown ∈ expansion.out ∨ shown = hit) :
    shown ∈ (expansion.add chunks scope hit).out := by
  have grown : shown ∈ expansion.out ++ [hit] := by simpa using kept
  unfold Expansion.add
  dsimp only
  split
  · exact grown
  · exact mem_append_left _ grown

theorem subset_expandTopDocuments (chunks : List Chunk) (hits : List Hit) (scope : ReadScope) :
    hits ⊆ expandTopDocuments chunks hits scope := by
  have kept : ∀ (hits : List Hit) (expansion : Expansion) (shown : Hit),
      shown ∈ expansion.out ∨ shown ∈ hits →
      shown ∈ (hits.foldl (Expansion.add chunks scope) expansion).out := by
    intro hits
    induction hits with
    | nil => simp
    | cons hit rest ih =>
      intro expansion shown member
      apply ih
      rcases member with before | among
      · exact .inl (mem_out_add chunks scope expansion hit (.inl before))
      · rcases mem_cons.mp among with now | later
        · exact .inl (mem_out_add chunks scope expansion hit (.inr now))
        · exact .inr later
  exact fun shown member => kept hits _ shown (.inr member)

/-- Backends that score one chunk above all others. -/
def favouring (chunk : Chunk) : Backends where
  relevance _ other := if other = chunk then 1 else 0

theorem head_search_favouring {chunks : List Chunk} {scope : ReadScope} {chunk : Chunk}
    (stored : chunk ∈ chunks) (admitted : chunkConditions scope chunk = true) (query : String) :
    search (favouring chunk) chunks query 1 scope =
      [{ id := chunk.id, score := 1, payload := chunk.payload }] := by
  let before : Chunk → Chunk → Prop := fun first second =>
    (favouring chunk).relevance query second ≤ (favouring chunk).relevance query first
  have sorted := pairwise_insertionSort before (chunks.filter (chunkConditions scope))
  have ranked : chunk ∈ (chunks.filter (chunkConditions scope)).insertionSort before :=
    (mem_insertionSort _).mpr (mem_filter.mpr ⟨stored, admitted⟩)
  show (((chunks.filter (chunkConditions scope)).insertionSort before).take 1).map _ = _
  cases list : (chunks.filter (chunkConditions scope)).insertionSort before with
  | nil =>
    rw [list] at ranked
    cases ranked
  | cons first rest =>
    rw [list] at ranked sorted
    have leads : first = chunk := by
      rcases mem_cons.mp ranked with same | later
      · exact same.symm
      · have above : before first chunk := (pairwise_cons.mp sorted).1 chunk later
        by_contra other
        simp [before, favouring, other] at above
    subst leads
    simp [favouring]

theorem favoured_mem_vectorSearch {chunks : List Chunk} {scope : ReadScope} {chunk : Chunk}
    (stored : chunk ∈ chunks) (admitted : chunkConditions scope chunk = true)
    (nonempty : scope.isEmpty = false) (query : String) :
    ({ id := chunk.id, score := 1, payload := chunk.payload } : Hit) ∈
      vectorSearch (favouring chunk) chunks query 1 scope := by
  have ranked : rankedHits (favouring chunk) chunks query 1 scope =
      [{ id := chunk.id, score := 1, payload := chunk.payload }] :=
    head_search_favouring stored admitted query
  have found := subset_expandTopDocuments chunks
    (rankedHits (favouring chunk) chunks query 1 scope) scope
  rw [ranked] at found
  simp only [vectorSearch, nonempty, Bool.false_eq_true, if_false, if_true]
  show _ ∈ expandTopDocuments chunks (rankedHits (favouring chunk) chunks query 1 scope) scope
  rw [ranked]
  exact found (mem_singleton_self _)

end RedArchKM.Search
