import RedArchKM.Facts.DocumentIngest

/-!
# Claims and the keys of their documents

A claim is to be visible to whoever sees a document that states it: its access keys are the union of
the keys of its documents, or none if one of these is public (`Faithful`). Withdrawals and metadata
updates recompute the keys of every claim that the document supports. An insertion gives the
documents of the claim its access keys, and recomputes the keys of this claim only, so whatever
else such a document states keeps keys from before.

Every state of a run is faithful exactly if no insertion changes what the documents of another claim
give it (`faithful_run_iff`). An ingest that replaces the document cannot.
-/

namespace RedArchKM.Facts

open List Option

/-! ## Masks -/

/-- What claims that are stated under these lists of keys are to have: all keys of the lists, or
none if one of the lists is empty. -/
def Covers (lists : List (List Nat)) (keys : List Nat) : Prop :=
  (keys = [] ↔ [] ∈ lists) ∧ ([] ∉ lists → ∀ key, key ∈ keys ↔ ∃ list ∈ lists, key ∈ list)

def SameMask (lists others : List (List Nat)) : Prop :=
  ([] ∈ lists ↔ [] ∈ others) ∧
    ([] ∉ lists → ∀ key, (∃ list ∈ lists, key ∈ list) ↔ ∃ list ∈ others, key ∈ list)

theorem SameMask.refl (lists : List (List Nat)) : SameMask lists lists :=
  ⟨Iff.rfl, fun _ _ => Iff.rfl⟩

theorem Covers.iff_sameMask {lists others : List (List Nat)} {keys : List Nat}
    (covers : Covers lists keys) : Covers others keys ↔ SameMask lists others := by
  constructor
  · intro otherCovers
    refine ⟨covers.1.symm.trans otherCovers.1, fun restricted key => ?_⟩
    have otherRestricted : [] ∉ others := fun isPublic =>
      restricted (covers.1.mp (otherCovers.1.mpr isPublic))
    rw [← covers.2 restricted, ← otherCovers.2 otherRestricted]
  · rintro ⟨samePublic, sameKeys⟩
    refine ⟨covers.1.trans samePublic, fun restricted key => ?_⟩
    have wasRestricted : [] ∉ lists := mt samePublic.mp restricted
    rw [covers.2 wasRestricted, sameKeys wasRestricted]

theorem covers_of_same {lists : List (List Nat)} {keys : List Nat} (some : lists ≠ [])
    (same : ∀ list ∈ lists, list = keys) : Covers lists keys := by
  obtain ⟨list, rest, rfl⟩ := exists_cons_of_ne_nil some
  obtain rfl : list = keys := same list mem_cons_self
  refine ⟨⟨?_, fun isPublic => (same [] isPublic).symm⟩, fun _ key => ⟨?_, ?_⟩⟩
  · rintro rfl
    exact mem_cons_self
  · intro isKey
    exact ⟨list, mem_cons_self, isKey⟩
  · rintro ⟨other, member, isKey⟩
    rwa [same other member] at isKey

namespace FactStore

theorem mem_joinKeys (lists : List (List Nat)) (key : Nat) :
    key ∈ joinKeys lists ↔ ∃ list ∈ lists, key ∈ list := by
  have step (lists : List (List Nat)) (keys : List Nat) :
      key ∈ lists.foldl (fun keys list => keys ++ list.filter (· ∉ keys)) keys ↔
        key ∈ keys ∨ ∃ list ∈ lists, key ∈ list := by
    induction lists generalizing keys with
    | nil => simp
    | cons list rest ih =>
      rw [foldl_cons, ih, exists_mem_cons_iff, mem_append, mem_filter, decide_eq_true_iff]
      tauto
  rw [joinKeys, step]
  simp

variable {casefold : String → String} {registry : PredicateRegistry} {store : FactStore}
  {claim : Claim} {documentKey : String}

variable {stored : StoredClaim} {other : FactStore}

/-- **Recomputed keys are those of the sources.** -/
theorem covers_recomputed (some : store.sourceKeys stored ≠ []) :
    Covers (store.sourceKeys stored) (store.recomputed stored) := by
  have isPublic : ((store.sourceKeys stored).dedup.any List.isEmpty) = true ↔
      [] ∈ store.sourceKeys stored := by
    rw [List.any_eq_true]
    constructor
    · rintro ⟨list, member, isEmpty⟩
      rw [List.isEmpty_iff] at isEmpty
      exact isEmpty ▸ List.mem_dedup.mp member
    · intro member
      exact ⟨[], mem_dedup.mpr member, rfl⟩
  unfold recomputed
  by_cases anyPublic : [] ∈ store.sourceKeys stored
  · rw [if_pos (isPublic.mpr anyPublic)]
    exact ⟨iff_of_true rfl anyPublic, fun restricted => absurd anyPublic restricted⟩
  · rw [if_neg (mt isPublic.mp anyPublic)]
    have keys (key : Nat) : key ∈ joinKeys (store.sourceKeys stored).dedup ↔
        ∃ list ∈ store.sourceKeys stored, key ∈ list := by
      simp only [mem_joinKeys, mem_dedup]
    refine ⟨iff_of_false (fun none => ?_) anyPublic, fun _ => keys⟩
    obtain ⟨list, rest, isList⟩ := exists_cons_of_ne_nil some
    have member : list ∈ store.sourceKeys stored := by
      rw [isList]
      exact mem_cons_self
    obtain ⟨key, others, isCons⟩ : ∃ key others, list = key :: others :=
      exists_cons_of_ne_nil fun isEmpty => anyPublic (isEmpty ▸ member)
    have isKey := (keys key).mpr ⟨list, member, by rw [isCons]; exact mem_cons_self⟩
    rw [none] at isKey
    cases isKey

/-! ## Faithful claims -/

def documentKeys (store : FactStore) (stored : StoredClaim) : List (List Nat) :=
  stored.provenance.filterMap fun source =>
    (store.documents source.documentKey).bind DocumentNode.accessKeys

def Known (store : FactStore) (documentKey : String) : Prop :=
  ((store.documents documentKey).bind DocumentNode.accessKeys).isSome

structure FaithfulClaim (store : FactStore) (stored : StoredClaim) : Prop where
  supported : stored.provenance ≠ []
  known : ∀ source ∈ stored.provenance, store.Known source.documentKey
  covers : Covers (store.documentKeys stored) stored.accessKeys

/-- **Every claim is as visible as its documents.** -/
def Faithful (store : FactStore) : Prop := ∀ stored ∈ store.claims, store.FaithfulClaim stored

theorem FaithfulClaim.congr {after : StoredClaim} (faithful : store.FaithfulClaim stored)
    (documents : other.documents = store.documents)
    (provenance : after.provenance = stored.provenance)
    (accessKeys : after.accessKeys = stored.accessKeys) : other.FaithfulClaim after where
  supported := provenance ▸ faithful.supported
  known source member := by
    rw [Known, documents]
    exact faithful.known source (provenance ▸ member)
  covers := by
    rw [documentKeys, documents, provenance, accessKeys]
    exact faithful.covers

section

variable (supported : stored.provenance ≠ [])
    (known : ∀ source ∈ stored.provenance, store.Known source.documentKey)

include supported known

theorem sourceKeys_of_known :
    store.sourceKeys stored = store.documentKeys stored ∧ store.sourceKeys stored ≠ [] := by
  have nodes : (stored.provenance.filterMap fun source =>
      store.documents source.documentKey) ≠ [] := by
    obtain ⟨source, rest, isCons⟩ := exists_cons_of_ne_nil supported
    have member : source ∈ stored.provenance := by
      rw [isCons]
      exact mem_cons_self
    obtain ⟨keys, isKeys⟩ := isSome_iff_exists.mp (known source member)
    obtain ⟨node, found, _⟩ := bind_eq_some_iff.mp isKeys
    exact ne_nil_of_mem (mem_filterMap.mpr ⟨source, member, found⟩)
  unfold sourceKeys documentKeys
  rw [if_neg nodes]
  refine ⟨?_, by simpa using nodes⟩
  rw [map_filterMap]
  apply filterMap_congr
  intro source member
  obtain ⟨keys, isKeys⟩ := isSome_iff_exists.mp (known source member)
  obtain ⟨node, found, isNode⟩ := bind_eq_some_iff.mp isKeys
  rw [found]
  simp [isNode]

theorem faithfulClaim_recomputed :
    store.FaithfulClaim { stored with accessKeys := store.recomputed stored } := by
  obtain ⟨same, some⟩ := sourceKeys_of_known supported known
  have covers := covers_recomputed some
  rw [same] at covers
  exact ⟨supported, known, covers⟩

end

/-! ## One insertion -/

theorem documents_applyClaim :
    (applyClaim casefold registry store claim).documents = (store.documented claim).documents := by
  have created (status : ClaimStatus) :
      (createClaim casefold store claim status).documents = (store.documented claim).documents := by
    unfold createClaim
    rw [documents_attachProvenance]
    unfold documented
    rw [(claims_mergeEntities _ _).2]
  unfold applyClaim
  dsimp only
  split
  · unfold corroborate
    rw [documents_attachProvenance]
    rfl
  · exact created _
  · exact created _
  · exact created _

theorem known_documented (known : store.Known documentKey) :
    (store.documented claim).Known documentKey := by
  unfold Known documented
  dsimp only
  split
  · rfl
  · exact known

theorem known_documented_of_mem {source : Provenance} (member : source ∈ claim.provenance) :
    (store.documented claim).Known source.documentKey := by
  unfold Known documented
  dsimp only
  rw [if_pos (mem_map_of_mem member)]
  rfl

/-- A claim with the sources and the keys that it had. -/
structure SameAccess (before after : StoredClaim) : Prop where
  claimId : after.claimId = before.claimId
  provenance : after.provenance = before.provenance
  accessKeys : after.accessKeys = before.accessKeys

theorem sameAccess_retire (affected : List ClaimId) (validTo : String) (stored : StoredClaim) :
    SameAccess stored (retire affected validTo stored) := by
  unfold retire
  split <;> exact ⟨rfl, rfl, rfl⟩

theorem sameAccess_flag (affected : List ClaimId) (stored : StoredClaim) :
    SameAccess stored (flag affected stored) := by
  unfold flag
  split <;> exact ⟨rfl, rfl, rfl⟩

theorem sameAccess_corroborated
    (other : stored.claimId ≠ claim.claimId casefold ∨ claim.provenance = []) :
    SameAccess stored (corroborated casefold store claim stored) := by
  unfold corroborated
  rcases other with differs | none
  · rw [if_neg differs]
    exact ⟨rfl, rfl, rfl⟩
  · split
    · exact ⟨rfl, rfl, rfl⟩
    · exact ⟨rfl, rfl, rfl⟩

def AllKnown (store : FactStore) : Prop :=
  ∀ stored ∈ store.claims, ∀ source ∈ stored.provenance, store.Known source.documentKey

/-- What an insertion does to the sources and the keys of the claims. -/
structure Restates (casefold : String → String) (store : FactStore) (claim : Claim)
    (next : FactStore) : Prop where
  documents : next.documents = (store.documented claim).documents
  others : ∀ after ∈ next.claims, after.claimId ≠ claim.claimId casefold →
    ∃ before ∈ store.claims, SameAccess before after
  kept : ∀ before ∈ store.claims, before.claimId ≠ claim.claimId casefold →
    ∃ after ∈ next.claims, SameAccess before after
  stated : claim.provenance ≠ [] → store.AllKnown →
    ∀ after ∈ next.claims, after.claimId = claim.claimId casefold → next.FaithfulClaim after
  silent : claim.provenance = [] → ¬Fresh casefold store claim →
    ∀ after ∈ next.claims, ∃ before ∈ store.claims, SameAccess before after
  sourceless : claim.provenance = [] → Fresh casefold store claim →
    ∃ after ∈ next.claims, after.provenance = []

theorem known_congr (documents : other.documents = store.documents) (documentKey : String) :
    other.Known documentKey ↔ store.Known documentKey := by
  rw [Known, Known, documents]

theorem faithfulClaim_storedAs (stated : claim.provenance ≠ []) (status : ClaimStatus) :
    (store.documented claim).FaithfulClaim (storedAs casefold claim status) := by
  have isSource {source : Provenance}
      (member : source ∈ (storedAs casefold claim status).provenance) :
      source ∈ claim.provenance :=
    (mem_mergeSources.mp member).resolve_left not_mem_nil
  obtain ⟨source, rest, isCons⟩ := exists_cons_of_ne_nil stated
  have first : source ∈ (storedAs casefold claim status).provenance := by
    refine mem_mergeSources.mpr (.inr ?_)
    rw [isCons]
    exact mem_cons_self
  have keysOf {source : Provenance} (member : source ∈ claim.provenance) :
      ((store.documented claim).documents source.documentKey).bind DocumentNode.accessKeys =
        some claim.accessKeys := by
    unfold documented
    dsimp only
    rw [if_pos (mem_map_of_mem member)]
    rfl
  refine ⟨ne_nil_of_mem first, fun source member => known_documented_of_mem (isSource member),
    covers_of_same (ne_nil_of_mem (mem_filterMap.mpr ⟨source, first, keysOf (isSource first)⟩)) ?_⟩
  intro keys member
  obtain ⟨source, isIn, found⟩ := mem_filterMap.mp member
  rw [keysOf (isSource isIn)] at found
  exact (some.inj found).symm

theorem faithfulClaim_corroborated (stated : claim.provenance ≠ [])
    (same : stored.claimId = claim.claimId casefold)
    (known : ∀ source ∈ stored.provenance, store.Known source.documentKey) :
    (store.documented claim).FaithfulClaim (corroborated casefold store claim stored) := by
  have effect : ∃ counted : StoredClaim, counted.provenance = stored.provenance ∧
      corroborated casefold store claim stored = store.resourced claim counted := by
    unfold corroborated
    rw [if_pos same]
    rw [if_neg stated]
    refine ⟨_, ?_, rfl⟩
    rfl
  obtain ⟨counted, sameSources, isNow⟩ := effect
  rw [isNow]
  obtain ⟨source, rest, isCons⟩ := exists_cons_of_ne_nil stated
  have first : source ∈ mergeSources counted.provenance claim.provenance := by
    refine mem_mergeSources.mpr (.inr ?_)
    rw [isCons]
    exact mem_cons_self
  refine faithfulClaim_recomputed (ne_nil_of_mem first) ?_
  intro source member
  rcases mem_mergeSources.mp member with old | new
  · exact known_documented (known source (sameSources ▸ old))
  · exact known_documented_of_mem new

theorem restates_of_append {next : FactStore} {change : StoredClaim → StoredClaim}
    {status : ClaimStatus} (fresh : Fresh casefold store claim)
    (documents : next.documents = (store.documented claim).documents)
    (isNext : next.claims = store.claims.map change ++ [storedAs casefold claim status])
    (same : ∀ stored, SameAccess stored (change stored)) : Restates casefold store claim next where
  documents := documents
  others after member differs := by
    rw [isNext] at member
    rcases mem_append.mp member with old | new
    · obtain ⟨before, isBefore, rfl⟩ := mem_map.mp old
      exact ⟨before, isBefore, same before⟩
    · obtain rfl := mem_singleton.mp new
      exact absurd rfl differs
  kept before isBefore _ := by
    rw [isNext]
    exact ⟨change before, mem_append_left _ (mem_map_of_mem isBefore), same before⟩
  stated stated _ after member sameId := by
    rw [isNext] at member
    rcases mem_append.mp member with old | new
    · obtain ⟨before, isBefore, rfl⟩ := mem_map.mp old
      rw [(same before).claimId] at sameId
      exact absurd sameId (fresh before isBefore)
    · obtain rfl := mem_singleton.mp new
      exact (faithfulClaim_storedAs stated status).congr documents rfl rfl
  silent _ notFresh := absurd fresh notFresh
  sourceless none _ := by
    rw [isNext]
    refine ⟨_, mem_append_right _ mem_cons_self, ?_⟩
    rw [storedAs, none]
    rfl

/-- **An insertion changes the access to the claim that it states, and no other.** -/
theorem restates_applyClaim (consistent : Consistent casefold store) :
    Restates casefold store claim (applyClaim casefold registry store claim) := by
  have inserted : Inserted casefold registry store claim
      (applyClaim casefold registry store claim).claims := inserted_applyClaim consistent
  have documents : (applyClaim casefold registry store claim).documents =
      (store.documented claim).documents := documents_applyClaim
  generalize applyClaim casefold registry store claim = next at inserted documents ⊢
  generalize isNext : next.claims = claims at inserted
  cases inserted with
  | additive fresh =>
    exact restates_of_append fresh documents isNext fun _ => ⟨rfl, rfl, rfl⟩
  | newest fresh => exact restates_of_append fresh documents isNext (sameAccess_retire _ _)
  | late fresh => exact restates_of_append fresh documents isNext (sameAccess_flag _)
  | same stored =>
    have sameId (before : StoredClaim) :
        (corroborated casefold store claim before).claimId = before.claimId :=
      (sameStatement_corroborated before).claimId
    refine ⟨documents, ?_, ?_, ?_, ?_, fun _ fresh => absurd fresh stored⟩
    · intro after member differs
      rw [isNext] at member
      obtain ⟨before, isBefore, rfl⟩ := mem_map.mp member
      rw [sameId] at differs
      exact ⟨before, isBefore, sameAccess_corroborated (.inl differs)⟩
    · intro before isBefore differs
      rw [isNext]
      exact ⟨_, mem_map_of_mem isBefore, sameAccess_corroborated (.inl differs)⟩
    · intro stated known after member isSame
      rw [isNext] at member
      obtain ⟨before, isBefore, rfl⟩ := mem_map.mp member
      rw [sameId] at isSame
      exact (faithfulClaim_corroborated stated isSame (known before isBefore)).congr documents
        rfl rfl
    · intro none _ after member
      rw [isNext] at member
      obtain ⟨before, isBefore, rfl⟩ := mem_map.mp member
      exact ⟨before, isBefore, sameAccess_corroborated (.inr none)⟩

theorem Faithful.allKnown (faithful : store.Faithful) : store.AllKnown :=
  fun stored member => (faithful stored member).known

theorem FaithfulClaim.iff_sameMask {after : StoredClaim} (faithful : store.FaithfulClaim stored)
    (same : SameAccess stored after)
    (known : ∀ source ∈ stored.provenance, other.Known source.documentKey) :
    other.FaithfulClaim after ↔
      SameMask (store.documentKeys stored) (other.documentKeys stored) := by
  have sameKeys : other.documentKeys after = other.documentKeys stored := by
    rw [documentKeys, documentKeys, same.provenance]
  rw [← faithful.covers.iff_sameMask]
  constructor
  · intro isFaithful
    rw [← sameKeys, ← same.accessKeys]
    exact isFaithful.covers
  · intro covers
    refine ⟨same.provenance ▸ faithful.supported, fun source member => ?_, ?_⟩
    · exact known source (same.provenance ▸ member)
    · rwa [sameKeys, same.accessKeys]

/-! ## Inserting a claim -/

/-- A new claim names a document, and the documents give the other claims what they gave them
before, once the named ones have the access keys of the claim. -/
structure InsertAgrees (casefold : String → String) (store : FactStore) (claim : Claim) : Prop where
  named : Fresh casefold store claim → claim.provenance ≠ []
  others : ∀ stored ∈ store.claims, stored.claimId ≠ claim.claimId casefold →
    SameMask (store.documentKeys stored) ((store.documented claim).documentKeys stored)

theorem documentKeys_congr (documents : other.documents = store.documents) (stored : StoredClaim) :
    other.documentKeys stored = store.documentKeys stored := by
  rw [documentKeys, documentKeys, documents]

/-- **An insertion keeps the store faithful exactly if it agrees with it.** -/
theorem faithful_applyClaim_iff (consistent : Consistent casefold store) (faithful : store.Faithful) :
    (applyClaim casefold registry store claim).Faithful ↔ InsertAgrees casefold store claim := by
  have restates : Restates casefold store claim (applyClaim casefold registry store claim) :=
    restates_applyClaim consistent
  generalize applyClaim casefold registry store claim = next at restates ⊢
  have knownNow : ∀ stored ∈ store.claims, ∀ source ∈ stored.provenance,
      next.Known source.documentKey := by
    intro stored member source isSource
    rw [known_congr restates.documents]
    exact known_documented (faithful.allKnown stored member source isSource)
  constructor
  · intro isFaithful
    refine ⟨fun fresh none => ?_, fun stored member differs => ?_⟩
    · obtain ⟨after, isAfter, sourceless⟩ := restates.sourceless none fresh
      exact (isFaithful after isAfter).supported sourceless
    · obtain ⟨after, isAfter, same⟩ := restates.kept stored member differs
      rw [← documentKeys_congr restates.documents]
      exact ((faithful stored member).iff_sameMask same (knownNow stored member)).mp
        (isFaithful after isAfter)
  · intro agrees after isAfter
    by_cases sameId : after.claimId = claim.claimId casefold
    · by_cases stated : claim.provenance = []
      · have notFresh : ¬Fresh casefold store claim := fun fresh => agrees.named fresh stated
        obtain ⟨before, member, same⟩ := restates.silent stated notFresh after isAfter
        refine (faithful before member).congr ?_ same.provenance same.accessKeys
        rw [restates.documents, documented, stated]
        rfl
      · exact restates.stated stated faithful.allKnown after isAfter sameId
    · obtain ⟨before, member, same⟩ := restates.others after isAfter sameId
      rw [same.claimId] at sameId
      refine ((faithful before member).iff_sameMask same (knownNow before member)).mpr ?_
      rw [documentKeys_congr restates.documents]
      exact agrees.others before member sameId

/-! ## Ingesting a document -/

section Ingested

variable {ingest : Ingest casefold} {clock : Clock} {now : Nat}

def ingested (store : FactStore) (ingest : Ingest casefold)
    (candidates : List (Nat × Extracted casefold)) : FactStore :=
  if candidates = [] then store
  else store.setDocument ingest.documentKey
    (some { accessKeys := some ingest.accessKeys, tags := some ingest.tags })

theorem documents_toClaim (chunkIndex : Nat) (candidate : Extracted casefold) (recordedAt : String) :
    (store.documented (ingest.toClaim recordedAt chunkIndex candidate)).documents =
      (store.ingested ingest [(chunkIndex, candidate)]).documents := by
  simp only [documented, Ingest.toClaim, map_singleton, mem_singleton, documentOf]
  rfl

theorem known_ingested (candidates : List (Nat × Extracted casefold))
    (known : store.Known documentKey) : (store.ingested ingest candidates).Known documentKey := by
  unfold ingested
  split
  · exact known
  · unfold Known setDocument
    dsimp only
    split
    · rfl
    · exact known

theorem Restates.allKnown {next : FactStore} (restates : Restates casefold store claim next)
    (stated : claim.provenance ≠ []) (known : store.AllKnown) : next.AllKnown := by
  intro after member source isSource
  by_cases sameId : after.claimId = claim.claimId casefold
  · exact (restates.stated stated known after member sameId).known source isSource
  · obtain ⟨before, isBefore, same⟩ := restates.others after member sameId
    rw [known_congr restates.documents]
    exact known_documented (known before isBefore source (same.provenance ▸ isSource))

abbrev candidateIds (candidates : List (Nat × Extracted casefold)) : List ClaimId :=
  candidates.map fun candidate =>
    computeDedupKey casefold candidate.2.subjectId candidate.2.predicate candidate.2.object.key

/-- What the insertion of a document's claims does to the sources and the keys. -/
structure Ingests (store : FactStore) (ingest : Ingest casefold)
    (candidates : List (Nat × Extracted casefold)) (next : FactStore) : Prop where
  documents : next.documents = (store.ingested ingest candidates).documents
  others : ∀ after ∈ next.claims, after.claimId ∉ candidateIds candidates →
    ∃ before ∈ store.claims, SameAccess before after
  kept : ∀ before ∈ store.claims, before.claimId ∉ candidateIds candidates →
    ∃ after ∈ next.claims, SameAccess before after
  stated : ∀ after ∈ next.claims, after.claimId ∈ candidateIds candidates →
    next.FaithfulClaim after

theorem SameAccess.trans {first second third : StoredClaim} (one : SameAccess first second)
    (two : SameAccess second third) : SameAccess first third :=
  ⟨two.claimId.trans one.claimId, two.provenance.trans one.provenance,
    two.accessKeys.trans one.accessKeys⟩

theorem ingests_toClaims (consistent : Consistent casefold store) (known : store.AllKnown)
    (candidates : List (Nat × Extracted casefold)) :
    Ingests store ingest candidates
      (insertClaims casefold registry store (ingest.toClaims clock now candidates)) := by
  induction candidates generalizing store now with
  | nil =>
    exact ⟨rfl, fun after member _ => ⟨after, member, rfl, rfl, rfl⟩,
      fun before member _ => ⟨before, member, rfl, rfl, rfl⟩, fun _ _ => nofun⟩
  | cons candidate rest ih =>
    obtain ⟨chunkIndex, extracted⟩ := candidate
    let claim := ingest.toClaim (clock.read now) chunkIndex extracted
    let mid := applyClaim casefold registry store claim
    have restates : Restates casefold store claim mid := restates_applyClaim consistent
    have stated : claim.provenance ≠ [] := cons_ne_nil _ _
    have later : Ingests mid ingest rest
        (insertClaims casefold registry mid (ingest.toClaims clock (now + 1) rest)) :=
      ih (consistent.applyClaim claim) (restates.allKnown stated known)
    change Ingests store ingest ((chunkIndex, extracted) :: rest)
      (insertClaims casefold registry mid (ingest.toClaims clock (now + 1) rest))
    generalize insertClaims casefold registry mid (ingest.toClaims clock (now + 1) rest) = next
      at later
    have midDocuments : mid.documents = (store.ingested ingest [(chunkIndex, extracted)]).documents :=
      restates.documents.trans (documents_toClaim chunkIndex extracted (clock.read now))
    -- The first claim has given the document its keys, the others leave it so.
    have stays : next.documents = mid.documents := by
      rw [later.documents, ingested]
      split
      · rfl
      · funext key
        simp only [midDocuments, ingested, setDocument, cons_ne_nil, if_false]
        split <;> rfl
    refine ⟨stays.trans midDocuments, ?_, ?_, ?_⟩
    · intro after member notStated
      rw [candidateIds, map_cons, mem_cons, not_or] at notStated
      obtain ⟨between, isBetween, sameLater⟩ := later.others after member notStated.2
      have differs : between.claimId ≠ claim.claimId casefold := by
        rw [← sameLater.claimId]
        exact notStated.1
      obtain ⟨before, isBefore, same⟩ := restates.others between isBetween differs
      exact ⟨before, isBefore, same.trans sameLater⟩
    · intro before isBefore notStated
      rw [candidateIds, map_cons, mem_cons, not_or] at notStated
      obtain ⟨between, isBetween, same⟩ := restates.kept before isBefore notStated.1
      obtain ⟨after, member, sameLater⟩ := later.kept between isBetween
        (by rw [same.claimId]; exact notStated.2)
      exact ⟨after, member, same.trans sameLater⟩
    · intro after member isStated
      by_cases isLater : after.claimId ∈ candidateIds rest
      · exact later.stated after member isLater
      · obtain ⟨between, isBetween, same⟩ := later.others after member isLater
        have here : between.claimId = claim.claimId casefold := by
          rw [← same.claimId]
          exact (mem_cons.mp isStated).resolve_right isLater
        exact (restates.stated stated known between isBetween here).congr stays same.provenance
          same.accessKeys

/-- The claims that an ingest does not state get from their documents what they got before, once
the ingested document has its new keys. -/
def IngestAgrees (store : FactStore) (ingest : Ingest casefold) : Prop :=
  ∀ stored ∈ store.claims, stored.claimId ∉ ingest.claimIds →
    SameMask (store.documentKeys stored)
      ((store.ingested ingest ingest.candidates).documentKeys stored)

theorem faithful_toClaims_iff (consistent : Consistent casefold store) (faithful : store.Faithful) :
    (insertClaims casefold registry store
        (ingest.toClaims clock now ingest.candidates)).Faithful ↔ store.IngestAgrees ingest := by
  have ingests : Ingests store ingest ingest.candidates (insertClaims casefold registry store
      (ingest.toClaims clock now ingest.candidates)) :=
    ingests_toClaims consistent faithful.allKnown ingest.candidates
  generalize insertClaims casefold registry store
    (ingest.toClaims clock now ingest.candidates) = next at ingests ⊢
  have knownNow : ∀ stored ∈ store.claims, ∀ source ∈ stored.provenance,
      next.Known source.documentKey := by
    intro stored member source isSource
    rw [known_congr ingests.documents]
    exact known_ingested _ (faithful.allKnown stored member source isSource)
  constructor
  · intro isFaithful stored member notStated
    obtain ⟨after, isAfter, same⟩ := ingests.kept stored member notStated
    rw [← documentKeys_congr ingests.documents]
    exact ((faithful stored member).iff_sameMask same (knownNow stored member)).mp
      (isFaithful after isAfter)
  · intro agrees after isAfter
    by_cases stated : after.claimId ∈ ingest.claimIds
    · exact ingests.stated after isAfter stated
    · obtain ⟨before, member, same⟩ := ingests.others after isAfter stated
      refine ((faithful before member).iff_sameMask same (knownNow before member)).mpr ?_
      rw [documentKeys_congr ingests.documents]
      exact agrees before member (same.claimId ▸ stated)

end Ingested

/-! ## Withdrawals and metadata -/

theorem documents_deleteByDocumentKey (documentKey : String) :
    (store.deleteByDocumentKey documentKey).documents =
      (store.setDocument documentKey none).documents := rfl

theorem known_setDocument_of_ne {node : Option DocumentNode} {other : String}
    (differs : other ≠ documentKey) :
    (store.setDocument documentKey node).Known other ↔ store.Known other := by
  unfold Known setDocument
  dsimp only
  rw [if_neg differs]

theorem documentKeys_setDocument {node : Option DocumentNode}
    (others : ∀ source ∈ stored.provenance, source.documentKey ≠ documentKey) :
    (store.setDocument documentKey node).documentKeys stored = store.documentKeys stored := by
  unfold documentKeys setDocument
  dsimp only
  apply filterMap_congr
  intro source member
  rw [if_neg (others source member)]

theorem FaithfulClaim.setDocument (faithful : store.FaithfulClaim stored)
    (other : ¬stored.sourcedFrom documentKey = true) (node : Option DocumentNode) :
    (store.setDocument documentKey node).FaithfulClaim stored := by
  have others : ∀ source ∈ stored.provenance, source.documentKey ≠ documentKey := by
    intro source member same
    refine other (StoredClaim.sourcedFrom_iff.mpr ?_)
    exact same ▸ mem_map_of_mem member
  refine ⟨faithful.supported, fun source member => ?_, ?_⟩
  · rw [known_setDocument_of_ne (others source member)]
    exact faithful.known source member
  · rw [documentKeys_setDocument others]
    exact faithful.covers

/-- **A withdrawal keeps the store faithful.** -/
theorem Faithful.deleteByDocumentKey (faithful : store.Faithful)
    (consistent : Consistent casefold store) (documentKey : String) :
    (store.deleteByDocumentKey documentKey).Faithful := by
  intro after member
  rw [claims_deleteByDocumentKey consistent] at member
  obtain ⟨stored, isLeft, rfl⟩ := mem_map.mp member
  obtain ⟨isStored, notSole⟩ := mem_filter.mp isLeft
  by_cases isSource : stored.sourcedFrom documentKey = true
  · have supported : (stored.provenance.filter fun source =>
        source.documentKey ≠ documentKey) ≠ [] := by
      intro none
      have all : stored.provenance.all (fun source => source.documentKey = documentKey) = true := by
        simpa [filter_eq_nil_iff] using none
      rw [StoredClaim.soleSource, isSource, all] at notSole
      cases notSole
    have isNow : store.withdrawn documentKey stored =
        (let left := { stored with
          provenance := stored.provenance.filter fun source => source.documentKey ≠ documentKey }
        { left with accessKeys := (store.setDocument documentKey none).recomputed left }) := by
      rw [withdrawn, if_pos isSource]
    rw [isNow]
    refine (faithfulClaim_recomputed supported fun source isIn => ?_).congr
      (documents_deleteByDocumentKey documentKey) rfl rfl
    obtain ⟨isIn, differs⟩ := mem_filter.mp isIn
    rw [known_setDocument_of_ne (by simpa using differs)]
    exact (faithful stored isStored).known source isIn
  · have same : store.withdrawn documentKey stored = stored := by
      rw [withdrawn, if_neg isSource]
    rw [same]
    exact ((faithful stored isStored).setDocument isSource none).congr
      (documents_deleteByDocumentKey documentKey) rfl rfl

theorem Consistent.updateDocumentMetadata (consistent : Consistent casefold store)
    (documentKey : String) (tags : Option (List String)) (accessKeys : Option (List Nat)) :
    Consistent casefold (store.updateDocumentMetadata documentKey tags accessKeys) := by
  unfold FactStore.updateDocumentMetadata
  split
  · exact consistent
  · dsimp only
    split
    · exact ⟨consistent.identified, consistent.unique⟩
    · refine consistent.of_identities rfl (fun stored => ?_) fun stored => ?_
      · split <;> rfl
      · split <;> rfl

/-- **New metadata of a document keeps the store faithful.** -/
theorem Faithful.updateDocumentMetadata (faithful : store.Faithful)
    (consistent : Consistent casefold store) (documentKey : String)
    (tags : Option (List String)) (accessKeys : Option (List Nat)) :
    (store.updateDocumentMetadata documentKey tags accessKeys).Faithful := by
  unfold FactStore.updateDocumentMetadata
  cases found : store.documents documentKey with
  | none => exact faithful
  | some node =>
    dsimp only
    cases accessKeys with
    | none =>
      -- The document keeps its keys, and so do all claims.
      rw [if_pos rfl]
      intro stored member
      have sameKeys (key : String) : ((store.setDocument documentKey
          (some { accessKeys := Option.or none node.accessKeys
                  tags := tags.or node.tags })).documents key).bind DocumentNode.accessKeys =
          (store.documents key).bind DocumentNode.accessKeys := by
        unfold setDocument
        dsimp only
        split
        · rename_i same
          rw [same, found]
          rfl
        · rfl
      have isFaithful := faithful stored member
      refine ⟨isFaithful.supported, fun source isSource => ?_, ?_⟩
      · rw [Known, sameKeys]
        exact isFaithful.known source isSource
      · rw [documentKeys]
        simp only [sameKeys]
        exact isFaithful.covers
    | some keys =>
      intro after member
      obtain ⟨stored, isStored, rfl⟩ := mem_map.mp member
      have isAffected : stored.claimId ∈ (store.claims.filter
          (·.sourcedFrom documentKey)).map StoredClaim.claimId ↔
            stored.sourcedFrom documentKey = true := by
        rw [mem_map_claimId consistent (fun one isOne => (mem_filter.mp isOne).1) isStored,
          mem_filter]
        exact and_iff_right isStored
      rw [claims_setDocument]
      by_cases isSource : stored.sourcedFrom documentKey = true
      · rw [if_pos (isAffected.mpr isSource)]
        refine (faithfulClaim_recomputed (faithful stored isStored).supported
          fun source isIn => ?_).congr (documents_recomputeMasks _ _) rfl rfl
        by_cases same : source.documentKey = documentKey
        · rw [Known, setDocument, same]
          simp
        · rw [known_setDocument_of_ne same]
          exact (faithful stored isStored).known source isIn
      · rw [if_neg (mt isAffected.mp isSource)]
        exact ((faithful stored isStored).setDocument isSource _).congr
          (documents_recomputeMasks _ _) rfl rfl

/-! ## Runs -/

/-- What may happen to a fact store. -/
inductive FactOperation (casefold : String → String) where
  | ingest (replace : Bool) (document : Ingest casefold)
  | insert (claim : Claim)
  | updateMetadata (documentKey : String) (tags : Option (List String))
      (accessKeys : Option (List Nat))
  | delete (documentKey : String)

def FactOperation.apply (registry : PredicateRegistry) (clock : Clock) (state : IngestState) :
    FactOperation casefold → IngestState
  | .ingest replace document => ingestDocument registry clock state document replace
  | .insert claim => { state with store := applyClaim casefold registry state.store claim }
  | .updateMetadata documentKey tags accessKeys =>
    { state with store := state.store.updateDocumentMetadata documentKey tags accessKeys }
  | .delete documentKey => { state with store := state.store.deleteByDocumentKey documentKey }

/-- An insertion into the store, other than one that replaces a document, agrees with it. -/
def FactOperation.Agrees (store : FactStore) : FactOperation casefold → Prop
  | .ingest true _ => True
  | .ingest false document => store.IngestAgrees document
  | .insert claim => InsertAgrees casefold store claim
  | .updateMetadata .. => True
  | .delete _ => True

theorem ingestAgrees_deleteByDocumentKey (consistent : Consistent casefold store)
    (ingest : Ingest casefold) :
    (store.deleteByDocumentKey ingest.documentKey).IngestAgrees ingest := by
  intro stored member _
  rw [claims_deleteByDocumentKey consistent] at member
  obtain ⟨before, _, rfl⟩ := mem_map.mp member
  have others : ∀ source ∈ (store.withdrawn ingest.documentKey before).provenance,
      source.documentKey ≠ ingest.documentKey := by
    intro source isSource
    rw [provenance_withdrawn] at isSource
    simpa using (mem_filter.mp isSource).2
  unfold ingested
  split
  · exact SameMask.refl _
  · rw [documentKeys_setDocument others]
    exact SameMask.refl _

section Runs

variable {clock : Clock} {state : IngestState}

theorem Consistent.apply (consistent : Consistent casefold state.store)
    (operation : FactOperation casefold) :
    Consistent casefold (operation.apply registry clock state).store := by
  cases operation with
  | ingest replace ingest => exact consistent.ingestDocument ingest replace
  | insert claim => exact consistent.applyClaim claim
  | updateMetadata documentKey tags accessKeys =>
    exact consistent.updateDocumentMetadata documentKey tags accessKeys
  | delete documentKey => exact consistent.deleteByDocumentKey documentKey

/-- **An operation keeps the store faithful exactly if it agrees with it.** -/
theorem faithful_apply_iff (consistent : Consistent casefold state.store)
    (faithful : state.store.Faithful) (operation : FactOperation casefold) :
    (operation.apply registry clock state).store.Faithful ↔ operation.Agrees state.store := by
  cases operation with
  | ingest replace ingest =>
    cases replace with
    | false => exact faithful_toClaims_iff consistent faithful
    | true =>
      refine (faithful_toClaims_iff (consistent.deleteByDocumentKey ingest.documentKey)
        (faithful.deleteByDocumentKey consistent ingest.documentKey)).trans ?_
      exact iff_of_true (ingestAgrees_deleteByDocumentKey consistent ingest) trivial
  | insert claim => exact faithful_applyClaim_iff consistent faithful
  | updateMetadata documentKey tags accessKeys =>
    exact iff_of_true (faithful.updateDocumentMetadata consistent documentKey tags accessKeys)
      trivial
  | delete documentKey =>
    exact iff_of_true (faithful.deleteByDocumentKey consistent documentKey) trivial

/-- The state that operations lead to. -/
def runOperations (registry : PredicateRegistry) (clock : Clock)
    (operations : List (FactOperation casefold)) : IngestState :=
  operations.foldl (FactOperation.apply registry clock) {}

section

variable (operations : List (FactOperation casefold))

theorem runOperations_concat (operation : FactOperation casefold) :
    runOperations registry clock (operations ++ [operation]) =
      operation.apply registry clock (runOperations registry clock operations) := by
  rw [runOperations, foldl_append]
  rfl

theorem consistent_runOperations :
    Consistent casefold (runOperations registry clock operations).store := by
  induction operations using List.reverseRecOn with
  | nil => exact Consistent.empty
  | append_singleton operations operation ih =>
    rw [runOperations_concat]
    exact ih.apply operation

end

variable (registry clock) in
/-- **Every state of a run is faithful exactly if every operation agrees with the store that it
meets.** -/
theorem faithful_run_iff (operations : List (FactOperation casefold)) :
    (∀ initial, initial <+: operations → (runOperations registry clock initial).store.Faithful) ↔
      ∀ earlier operation later, operations = earlier ++ operation :: later →
        operation.Agrees (runOperations registry clock earlier).store := by
  constructor
  · rintro allFaithful earlier operation later rfl
    have before := allFaithful earlier (prefix_append _ _)
    have after := allFaithful (earlier ++ [operation]) ⟨later, by simp⟩
    rw [runOperations_concat] at after
    exact (faithful_apply_iff (consistent_runOperations earlier) before operation).mp after
  · intro allAgree initial isInitial
    induction initial using List.reverseRecOn with
    | nil => exact fun _ member => absurd member not_mem_nil
    | append_singleton initial operation ih =>
      have before := ih ((prefix_append _ _).trans isInitial)
      obtain ⟨later, isSplit⟩ := isInitial
      rw [runOperations_concat]
      refine (faithful_apply_iff (consistent_runOperations initial) before operation).mpr ?_
      exact allAgree initial operation later (by rw [← isSplit]; simp)

end Runs

/-! ## A document that is restricted -/

/-- A notice about what a company has acquired. -/
def notice (object : String) (accessKeys : List Nat) : Ingest asciiCasefold where
  documentKey := "notice"
  chunks := [{ claims := [
    { subjectId := "acme"
      predicate := "acquired"
      object := .literal .text object
      canonical := by decide +kernel }] }]
  accessKeys := accessKeys

/-- What a public notice has stated stays public when the notice is ingested with access keys and
does not state it any more. -/
theorem not_faithful_notice :
    ¬∀ initial, initial <+: [FactOperation.ingest true (notice "Globex" []),
        FactOperation.ingest false (notice "Initech" [5])] →
      (runOperations defaultPredicates fractions initial).store.Faithful := by
  intro allFaithful
  have faithful := allFaithful _ prefix_rfl
  have stale : ∃ stored ∈ (runOperations defaultPredicates fractions
      [FactOperation.ingest true (notice "Globex" []),
        FactOperation.ingest false (notice "Initech" [5])]).store.claims,
      stored.accessKeys = [] ∧ (runOperations defaultPredicates fractions
        [FactOperation.ingest true (notice "Globex" []),
          FactOperation.ingest false (notice "Initech" [5])]).store.documentKeys stored = [[5]] := by
    decide +kernel
  obtain ⟨stored, member, isPublic, restricted⟩ := stale
  have covers := (faithful stored member).covers.1.mp isPublic
  rw [restricted] at covers
  revert covers
  decide

end FactStore

end RedArchKM.Facts
