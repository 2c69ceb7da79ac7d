import RedArchKM.Facts.Convergence

/-!
# Ingesting documents

A document is ingested by withdrawing what it stated before and inserting what is extracted from it
now. A claim stays in the store as long as some document supports it, so a withdrawal takes out the
claims that no other document states (`claims_deleteByDocumentKey`), and after it the document
supports nothing (`supports_deleteByDocumentKey`).

Extraction, the resolution of names and the clock are not looked into: a document comes as the
claims that are extracted from its chunks, and a clock is what it reads one time after another.
Canonical predicates are slugs, which the normalization of claims leaves alone.
-/

namespace RedArchKM.Facts

open List

/-! ## The pipeline -/

/-- What a clock reads, one time after the other. -/
structure Clock where
  read : Nat → String
  advances : StrictMono read
  nonempty : ∀ count, read count ≠ ""

/-- A clock that stays within a second. -/
def fractions : Clock where
  read count := String.ofList ("2024-06-01T00:00:00.".toList ++ List.replicate count '9')
  advances := by
    refine strictMono_nat_of_lt_succ fun count => ?_
    have longer (text : List Char) : text < text ++ ['9'] := by
      have after : text ++ [] < text ++ ['9'] := append_left_lt (by decide)
      rwa [append_nil] at after
    simp only [String.lt_iff_toList_lt, String.toList_ofList, replicate_succ',
      ← append_assoc]
    exact longer _
  nonempty count := by
    intro empty
    have lengths := congrArg (fun text => text.toList.length) empty
    simp at lengths

/-- A candidate whose entities and predicate are resolved. -/
structure Extracted (casefold : String → String) where
  subjectId : String
  predicate : String
  object : ClaimObject
  confidence : ℚ := 1
  canonical : norm casefold predicate = predicate

structure ChunkReading (casefold : String → String) where
  failed : Bool := false
  /-- Structured candidates come first. -/
  claims : List (Extracted casefold) := []

/-- A call of `ingest_document`. -/
structure Ingest (casefold : String → String) where
  documentKey : String
  chunks : List (ChunkReading casefold)
  tags : List String := []
  accessKeys : List Nat := []

section Pipeline

variable {casefold : String → String}

def Ingest.toClaim (ingest : Ingest casefold) (recordedAt : String) (chunkIndex : Nat)
    (candidate : Extracted casefold) : Claim where
  subjectId := candidate.subjectId
  predicate := candidate.predicate
  object := candidate.object
  recordedAt := recordedAt
  confidence := candidate.confidence
  accessKeys := ingest.accessKeys
  tags := ingest.tags
  provenance := [⟨ingest.documentKey, chunkIndex⟩]

/-- A wholesale failure of the extraction is an error, not an empty document. -/
def Ingest.failed (ingest : Ingest casefold) : Bool :=
  !ingest.chunks.isEmpty && ingest.chunks.all ChunkReading.failed

def Ingest.candidates (ingest : Ingest casefold) : List (Nat × Extracted casefold) :=
  if ingest.failed then []
  else ingest.chunks.zipIdx.flatMap fun (chunk, index) => chunk.claims.map (index, ·)

/-- Every claim is recorded when it is built. -/
def Ingest.toClaims (ingest : Ingest casefold) (clock : Clock) :
    Nat → List (Nat × Extracted casefold) → List Claim
  | _, [] => []
  | now, (chunkIndex, candidate) :: rest =>
    ingest.toClaim (clock.read now) chunkIndex candidate :: ingest.toClaims clock (now + 1) rest

/-- The store, and how often the clock was read. -/
structure IngestState where
  store : FactStore := {}
  now : Nat := 0

def ingestDocument (registry : PredicateRegistry) (clock : Clock) (state : IngestState)
    (ingest : Ingest casefold) (replace : Bool := true) : IngestState where
  store := FactStore.insertClaims casefold registry
    (if replace then state.store.deleteByDocumentKey ingest.documentKey else state.store)
    (ingest.toClaims clock state.now ingest.candidates)
  now := state.now + ingest.candidates.length

end Pipeline

/-! ## Withdrawing a document -/

namespace StoredClaim

/-- Whether all chunks that state the claim are the document's, and there are some. -/
def soleSource (stored : StoredClaim) (documentKey : String) : Bool :=
  stored.sourcedFrom documentKey &&
    stored.provenance.all fun source => source.documentKey = documentKey

theorem sourcedFrom_iff {stored : StoredClaim} {documentKey : String} :
    stored.sourcedFrom documentKey = true ↔
      documentKey ∈ stored.provenance.map Provenance.documentKey := by
  rw [sourcedFrom, any_eq_true, mem_map]
  simp only [decide_eq_true_iff]

end StoredClaim

namespace FactStore

variable {casefold : String → String} {registry : PredicateRegistry} {store : FactStore}
  {claim : Claim} {documentKey : String}

def withdrawn (store : FactStore) (documentKey : String) (stored : StoredClaim) : StoredClaim :=
  let left := { stored with
    provenance := stored.provenance.filter fun source => source.documentKey ≠ documentKey }
  if stored.sourcedFrom documentKey then
    { left with accessKeys := (store.setDocument documentKey none).recomputed left }
  else stored

section

variable (stored : StoredClaim)

theorem provenance_withdrawn : (store.withdrawn documentKey stored).provenance =
      stored.provenance.filter fun source => source.documentKey ≠ documentKey := by
  unfold withdrawn
  by_cases isSource : stored.sourcedFrom documentKey = true
  · rw [if_pos isSource]
  · rw [if_neg isSource, filter_eq_self.mpr]
    intro source member
    have others : ¬∃ source ∈ stored.provenance, source.documentKey = documentKey := by
      simpa [StoredClaim.sourcedFrom] using isSource
    simpa using fun same => others ⟨source, member, same⟩

theorem sameStatement_withdrawn : SameStatement stored (store.withdrawn documentKey stored) := by
  unfold withdrawn
  split <;> exact ⟨rfl, rfl, rfl, rfl, rfl, rfl⟩

theorem status_withdrawn : (store.withdrawn documentKey stored).status = stored.status := by
  unfold withdrawn
  split <;> rfl

end

/-- **A withdrawal takes out the claims that only the document states.** -/
theorem claims_deleteByDocumentKey (consistent : Consistent casefold store) (documentKey : String) :
    (store.deleteByDocumentKey documentKey).claims =
      (store.claims.filter fun stored => !stored.soleSource documentKey).map
        (store.withdrawn documentKey) := by
  have isAffected {stored : StoredClaim} (member : stored ∈ store.claims) :
      stored.claimId ∈ (store.claims.filter (·.sourcedFrom documentKey)).map StoredClaim.claimId ↔
        stored.sourcedFrom documentKey = true := by
    rw [mem_map_claimId consistent (fun one isOne => (mem_filter.mp isOne).1) member, mem_filter]
    exact and_iff_right member
  have sameFilter : store.claims.filter ((fun stored : StoredClaim =>
        !(stored.claimId ∈ (store.claims.filter (·.sourcedFrom documentKey)).map
            StoredClaim.claimId && stored.provenance.isEmpty)) ∘ fun stored => { stored with
          provenance := stored.provenance.filter fun source =>
            source.documentKey ≠ documentKey }) =
      store.claims.filter fun stored => !stored.soleSource documentKey := by
    apply filter_congr
    intro stored member
    have isEmpty : (stored.provenance.filter fun source => source.documentKey ≠ documentKey).isEmpty =
        stored.provenance.all fun source => source.documentKey = documentKey := by
      rw [Bool.eq_iff_iff]
      simp [filter_eq_nil_iff]
    have affected : decide (stored.claimId ∈ (store.claims.filter
        (·.sourcedFrom documentKey)).map StoredClaim.claimId) = stored.sourcedFrom documentKey := by
      rw [Bool.eq_iff_iff, decide_eq_true_iff]
      exact isAffected member
    simp only [Function.comp_apply, affected, isEmpty, StoredClaim.soleSource]
  unfold deleteByDocumentKey
  simp only [recomputeMasks, claims_mapClaims, claims_setDocument, filter_map, map_map]
  rw [sameFilter]
  apply map_congr_left
  intro stored isLeft
  have member := (mem_filter.mp isLeft).1
  simp only [Function.comp_apply, withdrawn, isAffected member]
  by_cases isSource : stored.sourcedFrom documentKey = true
  · rw [if_pos isSource, if_pos isSource]
    rfl
  · have same : (store.withdrawn documentKey stored).provenance =
        stored.provenance.filter fun source => source.documentKey ≠ documentKey :=
      provenance_withdrawn stored
    rw [withdrawn, if_neg isSource] at same
    rw [if_neg isSource, if_neg isSource, ← same]

theorem Consistent.deleteByDocumentKey (consistent : Consistent casefold store)
    (documentKey : String) : Consistent casefold (store.deleteByDocumentKey documentKey) := by
  have left : Consistent casefold
      { store with claims := store.claims.filter fun stored => !stored.soleSource documentKey } :=
    ⟨fun stored member => consistent.identified stored (mem_filter.mp member).1,
      consistent.unique.sublist (filter_sublist.map _)⟩
  exact left.of_identities (claims_deleteByDocumentKey consistent documentKey)
    (fun stored => (sameStatement_withdrawn stored).claimId)
    fun stored => (sameStatement_withdrawn stored).identity

/-! ## Support -/

/-- A chunk of the document states the claim. -/
def Supports (store : FactStore) (claimId : ClaimId) (documentKey : String) : Prop :=
  ∃ stored ∈ store.claims, stored.claimId = claimId ∧ stored.sourcedFrom documentKey = true

theorem supports_deleteByDocumentKey (consistent : Consistent casefold store)
    (claimId : ClaimId) (other : String) :
    (store.deleteByDocumentKey documentKey).Supports claimId other ↔
      other ≠ documentKey ∧ store.Supports claimId other := by
  have sourced (stored : StoredClaim) :
      (store.withdrawn documentKey stored).sourcedFrom other = true ↔
        other ≠ documentKey ∧ stored.sourcedFrom other = true := by
    rw [StoredClaim.sourcedFrom_iff, StoredClaim.sourcedFrom_iff, provenance_withdrawn,
      mem_map, mem_map]
    constructor
    · rintro ⟨source, member, rfl⟩
      obtain ⟨isSource, differs⟩ := mem_filter.mp member
      exact ⟨by simpa using differs, source, isSource, rfl⟩
    · rintro ⟨differs, source, isSource, rfl⟩
      exact ⟨source, mem_filter.mpr ⟨isSource, by simpa using differs⟩, rfl⟩
  unfold Supports
  rw [claims_deleteByDocumentKey consistent]
  constructor
  · rintro ⟨after, member, sameId, isSource⟩
    obtain ⟨stored, isLeft, rfl⟩ := mem_map.mp member
    rw [sourced] at isSource
    rw [(sameStatement_withdrawn stored).claimId] at sameId
    exact ⟨isSource.1, stored, (mem_filter.mp isLeft).1, sameId, isSource.2⟩
  · rintro ⟨differs, stored, member, sameId, isSource⟩
    have isLeft : stored.soleSource documentKey = false := by
      rw [Bool.eq_false_iff]
      intro sole
      rw [StoredClaim.soleSource, Bool.and_eq_true, all_eq_true] at sole
      obtain ⟨source, isIn, same⟩ := any_eq_true.mp isSource
      have isDocument := sole.2 source isIn
      simp only [decide_eq_true_iff] at same isDocument
      exact differs (same.symm.trans isDocument)
    refine ⟨store.withdrawn documentKey stored, mem_map_of_mem
      (mem_filter.mpr ⟨member, by rw [isLeft]; rfl⟩), ?_, (sourced stored).mpr ⟨differs, isSource⟩⟩
    rw [(sameStatement_withdrawn stored).claimId, sameId]

theorem provenance_retire (affected : List ClaimId) (validTo : String) (stored : StoredClaim) :
    (retire affected validTo stored).provenance = stored.provenance := by
  unfold retire
  split <;> rfl

theorem provenance_flag (affected : List ClaimId) (stored : StoredClaim) :
    (flag affected stored).provenance = stored.provenance := by
  unfold flag
  split <;> rfl

theorem provenance_corroborated (stored : StoredClaim) :
    (corroborated casefold store claim stored).provenance =
      if stored.claimId = claim.claimId casefold then
        mergeSources stored.provenance claim.provenance
      else stored.provenance := by
  unfold corroborated
  split
  · dsimp only
    split
    · rename_i none
      rw [none]
      rfl
    · rfl
  · rfl

theorem supports_of_append {next : FactStore} {change : StoredClaim → StoredClaim}
    {status : ClaimStatus}
    (isNext : next.claims = store.claims.map change ++ [storedAs casefold claim status])
    (sameId : ∀ stored, (change stored).claimId = stored.claimId)
    (sameSources : ∀ stored, (change stored).provenance = stored.provenance)
    (claimId : ClaimId) (documentKey : String) :
    next.Supports claimId documentKey ↔
      store.Supports claimId documentKey ∨ (claimId = claim.claimId casefold ∧
        documentKey ∈ claim.provenance.map Provenance.documentKey) := by
  have newSources : (storedAs casefold claim status).sourcedFrom documentKey = true ↔
      documentKey ∈ claim.provenance.map Provenance.documentKey := by
    rw [StoredClaim.sourcedFrom_iff, mem_map, mem_map]
    simp [storedAs]
  unfold Supports
  rw [isNext]
  constructor
  · rintro ⟨after, member, rfl, isSource⟩
    rcases mem_append.mp member with old | new
    · obtain ⟨stored, isStored, rfl⟩ := mem_map.mp old
      rw [StoredClaim.sourcedFrom, sameSources] at isSource
      exact .inl ⟨stored, isStored, (sameId stored).symm, isSource⟩
    · obtain rfl := mem_singleton.mp new
      exact .inr ⟨rfl, newSources.mp isSource⟩
  · rintro (⟨stored, isStored, rfl, isSource⟩ | ⟨rfl, isSource⟩)
    · refine ⟨change stored, mem_append_left _ (mem_map_of_mem isStored), sameId stored, ?_⟩
      rwa [StoredClaim.sourcedFrom, sameSources]
    · exact ⟨_, mem_append_right _ mem_cons_self, rfl, newSources.mpr isSource⟩

theorem supports_of_corroborated {next : FactStore} (stored : ¬Fresh casefold store claim)
    (isNext : next.claims = store.claims.map (corroborated casefold store claim))
    (claimId : ClaimId) (documentKey : String) :
    next.Supports claimId documentKey ↔
      store.Supports claimId documentKey ∨ (claimId = claim.claimId casefold ∧
        documentKey ∈ claim.provenance.map Provenance.documentKey) := by
  have sourced (stored : StoredClaim) :
      (corroborated casefold store claim stored).sourcedFrom documentKey = true ↔
        stored.sourcedFrom documentKey = true ∨ (stored.claimId = claim.claimId casefold ∧
          documentKey ∈ claim.provenance.map Provenance.documentKey) := by
    rw [StoredClaim.sourcedFrom_iff, StoredClaim.sourcedFrom_iff, provenance_corroborated]
    split
    · rename_i same
      simp only [mem_map, mem_mergeSources, same, true_and]
      constructor
      · rintro ⟨source, old | new, isDocument⟩
        · exact .inl ⟨source, old, isDocument⟩
        · exact .inr ⟨source, new, isDocument⟩
      · rintro (⟨source, old, isDocument⟩ | ⟨source, new, isDocument⟩)
        · exact ⟨source, .inl old, isDocument⟩
        · exact ⟨source, .inr new, isDocument⟩
    · rename_i differs
      simp [differs]
  unfold Supports
  rw [isNext]
  constructor
  · rintro ⟨after, member, rfl, isSource⟩
    obtain ⟨before, isBefore, rfl⟩ := mem_map.mp member
    rw [(sameStatement_corroborated before).claimId]
    rcases (sourced before).mp isSource with old | new
    · exact .inl ⟨before, isBefore, rfl, old⟩
    · exact .inr new
  · rintro (⟨before, isBefore, rfl, isSource⟩ | ⟨rfl, isSource⟩)
    · exact ⟨_, mem_map_of_mem isBefore, (sameStatement_corroborated before).claimId,
        (sourced before).mpr (.inl isSource)⟩
    · obtain ⟨before, isBefore, same⟩ := not_fresh_iff.mp stored
      exact ⟨_, mem_map_of_mem isBefore, (sameStatement_corroborated before).claimId.trans same,
        (sourced before).mpr (.inr ⟨same, isSource⟩)⟩

/-- **An insertion adds the sources of the claim.** -/
theorem supports_applyClaim (consistent : Consistent casefold store) (claimId : ClaimId)
    (documentKey : String) :
    (applyClaim casefold registry store claim).Supports claimId documentKey ↔
      store.Supports claimId documentKey ∨ (claimId = claim.claimId casefold ∧
        documentKey ∈ claim.provenance.map Provenance.documentKey) := by
  have inserted : Inserted casefold registry store claim
      (applyClaim casefold registry store claim).claims := inserted_applyClaim consistent
  generalize applyClaim casefold registry store claim = next at inserted ⊢
  generalize isNext : next.claims = claims at inserted
  cases inserted with
  | same stored => exact supports_of_corroborated stored isNext claimId documentKey
  | additive => exact supports_of_append isNext (fun _ => rfl) (fun _ => rfl) claimId documentKey
  | newest =>
    exact supports_of_append isNext (fun stored => (sameStatement_retire _ _ stored).claimId)
      (provenance_retire _ _) claimId documentKey
  | late =>
    exact supports_of_append isNext (fun stored => (sameStatement_flag _ stored).claimId)
      (provenance_flag _) claimId documentKey

end FactStore

/-! ## What a document supports -/

section Ingested

open FactStore

variable {casefold : String → String} {registry : PredicateRegistry} {clock : Clock}
  {state : IngestState} {store : FactStore}

def Ingest.claimIds (ingest : Ingest casefold) : List ClaimId :=
  ingest.candidates.map fun candidate =>
    computeDedupKey casefold candidate.2.subjectId candidate.2.predicate candidate.2.object.key

theorem FactStore.Consistent.ingestDocument (consistent : Consistent casefold state.store)
    (ingest : Ingest casefold) (replace : Bool) :
    Consistent casefold (ingestDocument registry clock state ingest replace).store := by
  refine Consistent.insertClaims ?_ _
  split
  · exact consistent.deleteByDocumentKey ingest.documentKey
  · exact consistent

theorem supports_toClaims (consistent : Consistent casefold store) (ingest : Ingest casefold)
    (now : Nat) (candidates : List (Nat × Extracted casefold)) (claimId : ClaimId)
    (documentKey : String) :
    (insertClaims casefold registry store (ingest.toClaims clock now candidates)).Supports
        claimId documentKey ↔
      store.Supports claimId documentKey ∨ (documentKey = ingest.documentKey ∧
        claimId ∈ candidates.map fun candidate => computeDedupKey casefold
          candidate.2.subjectId candidate.2.predicate candidate.2.object.key) := by
  induction candidates generalizing store now with
  | nil => simp [Ingest.toClaims, insertClaims]
  | cons candidate rest ih =>
    obtain ⟨chunkIndex, extracted⟩ := candidate
    refine (ih (consistent.applyClaim _) (now + 1)).trans ?_
    rw [supports_applyClaim consistent]
    have sources : documentKey ∈ (ingest.toClaim (clock.read now) chunkIndex
        extracted).provenance.map Provenance.documentKey ↔ documentKey = ingest.documentKey :=
      mem_singleton
    have id : (ingest.toClaim (clock.read now) chunkIndex extracted).claimId casefold =
        computeDedupKey casefold extracted.subjectId extracted.predicate extracted.object.key := rfl
    rw [sources, id, map_cons, mem_cons]
    tauto

/-- **An ingested document supports what it states now, and the others what they did.** -/
theorem supports_ingestDocument (consistent : Consistent casefold state.store)
    (ingest : Ingest casefold) (claimId : ClaimId) (documentKey : String) :
    (ingestDocument registry clock state ingest).store.Supports claimId documentKey ↔
      if documentKey = ingest.documentKey then claimId ∈ ingest.claimIds
      else state.store.Supports claimId documentKey := by
  refine (supports_toClaims (consistent.deleteByDocumentKey _) ingest _ _ claimId
    documentKey).trans ?_
  rw [supports_deleteByDocumentKey consistent]
  split
  · simp [*, Ingest.claimIds]
  · simp [*]

end Ingested

end RedArchKM.Facts
