import Mathlib.Data.List.Dedup
import RedArchKM.Facts.FactStore
import RedArchKM.Lib.Register

/-!
# What an insertion does to the store

A claim that is stored already is corroborated: its sources grow and its status stays. Any other
claim is added behind the ones that are there. Of a functional predicate, the claims about one
subject are a register, and the insertion enters the claim into it (`entries_applyClaim`); the
registers of other subjects and predicates are no part of it.
-/

namespace RedArchKM.Facts

open List

open Lib (Register.Entry Register.Standing)

namespace FactStore

/-! ## Small facts -/

section

variable (store : FactStore)

include store

@[simp] theorem claims_mapClaims (change : StoredClaim → StoredClaim) :
    (store.mapClaims change).claims = store.claims.map change := rfl

@[simp] theorem claims_setDocument (key : String) (node : Option DocumentNode) :
    (store.setDocument key node).claims = store.claims := rfl

@[simp] theorem documents_recomputeMasks (claimIds : List ClaimId) :
    (store.recomputeMasks claimIds).documents = store.documents := rfl

theorem claims_mergeEntities (entityIds : List String) :
    (entityIds.foldl mergeEntity store).claims = store.claims ∧
      (entityIds.foldl mergeEntity store).documents = store.documents := by
  induction entityIds generalizing store with
  | nil => exact ⟨rfl, rfl⟩
  | cons entityId rest ih =>
    have kept : (store.mergeEntity entityId).claims = store.claims ∧
        (store.mergeEntity entityId).documents = store.documents := by
      unfold mergeEntity
      split <;> exact ⟨rfl, rfl⟩
    exact ⟨(ih _).1.trans kept.1, (ih _).2.trans kept.2⟩

end

/-- What a document is set to when a claim that it states is inserted. -/
def documentOf (claim : Claim) : DocumentNode :=
  { accessKeys := some claim.accessKeys, tags := some claim.tags }

theorem setDocuments (store : FactStore) (node : DocumentNode) (sources : List Provenance) :
    (sources.foldl (fun store source => store.setDocument source.documentKey (some node))
        store).claims = store.claims ∧
      ∀ key, (sources.foldl (fun store source => store.setDocument source.documentKey (some node))
        store).documents key =
          if key ∈ sources.map Provenance.documentKey then some node else store.documents key := by
  induction sources generalizing store with
  | nil => exact ⟨rfl, fun key => by simp⟩
  | cons source rest ih =>
    refine ⟨(ih _).1, fun key => ?_⟩
    rw [foldl_cons, (ih _).2, map_cons]
    by_cases later : key ∈ rest.map Provenance.documentKey
    · simp [later]
    · by_cases here : key = source.documentKey
      · simp [here, setDocument]
      · simp [later, here, setDocument]

@[simp] theorem mem_mergeSources {sources new : List Provenance} {source : Provenance} :
    source ∈ mergeSources sources new ↔ source ∈ sources ∨ source ∈ new := by
  unfold mergeSources
  induction new generalizing sources with
  | nil => simp
  | cons first rest ih =>
    rw [foldl_cons, ih, mem_cons]
    split
    · constructor
      · tauto
      · rintro (old | rfl | later)
        · exact .inl old
        · exact .inl ‹_›
        · exact .inr later
    · rw [mem_append, mem_singleton, or_assoc]

/-! ## Attaching sources -/

section

variable (store : FactStore)

def documented (claim : Claim) : FactStore :=
  { store with
    documents := fun key =>
      if key ∈ claim.provenance.map Provenance.documentKey then some (documentOf claim)
      else store.documents key }

theorem documents_attachProvenance (claimId : ClaimId) (claim : Claim) :
    (store.attachProvenance claimId claim).documents = (store.documented claim).documents := by
  funext key
  unfold attachProvenance documented
  split
  · rename_i none
    simp [none]
  · exact (setDocuments _ (documentOf claim) claim.provenance).2 key

def resourced (claim : Claim) (stored : StoredClaim) : StoredClaim :=
  let stored :=
    { stored with provenance := mergeSources stored.provenance claim.provenance }
  { stored with accessKeys := (store.documented claim).recomputed stored }

theorem claims_attachProvenance (claimId : ClaimId) {claim : Claim} (stated : claim.provenance ≠ []) :
    (store.attachProvenance claimId claim).claims = store.claims.map fun stored =>
      if stored.claimId = claimId then store.resourced claim stored else stored := by
  unfold attachProvenance
  rw [if_neg stated]
  have documents := (setDocuments (store.mapClaims fun stored =>
    if stored.claimId = claimId then
      { stored with provenance := mergeSources stored.provenance claim.provenance }
    else stored) (documentOf claim) claim.provenance)
  simp only [recomputeMasks, claims_mapClaims, mem_singleton]
  refine (congrArg _ documents.1).trans ?_
  rw [claims_mapClaims, map_map]
  apply map_congr_left
  intro stored _
  have sameKeys (stored : StoredClaim) : recomputed (claim.provenance.foldl (fun store source =>
      store.setDocument source.documentKey (some (documentOf claim))) (store.mapClaims fun stored =>
        if stored.claimId = claimId then
          { stored with provenance := mergeSources stored.provenance claim.provenance }
        else stored)) stored = (store.documented claim).recomputed stored := by
    have same : (claim.provenance.foldl (fun store source =>
        store.setDocument source.documentKey (some (documentOf claim))) (store.mapClaims
          fun stored => if stored.claimId = claimId then
            { stored with provenance := mergeSources stored.provenance claim.provenance }
          else stored)).documents = (store.documented claim).documents := funext documents.2
    rw [recomputed, recomputed, sourceKeys, sourceKeys, same]
  by_cases here : stored.claimId = claimId
  · simp only [Function.comp_apply, if_pos here, resourced]
    exact congrArg (fun keys => { stored with
      provenance := mergeSources stored.provenance claim.provenance, accessKeys := keys })
      (sameKeys _)
  · simp [here]

end

theorem recomputed_of_same {store : FactStore} {stored : StoredClaim} {keys : List Nat}
    (some : store.sourceKeys stored ≠ [])
    (same : ∀ list ∈ store.sourceKeys stored, list = keys) : store.recomputed stored = keys := by
  have single : (store.sourceKeys stored).dedup = [keys] := by
    rw [eq_replicate_of_mem same, replicate_dedup]
    exact fun none => some (length_eq_zero_iff.mp none)
  rw [recomputed, single]
  cases keys with
  | nil => rfl
  | cons key rest => simp [joinKeys]

section Insert

variable {casefold : String → String} {registry : PredicateRegistry} {store : FactStore}
  {claim : Claim}

/-! ## New claims -/

def storedAs (casefold : String → String) (claim : Claim) (status : ClaimStatus) : StoredClaim :=
  { claim with
    provenance := mergeSources [] claim.provenance
    claimId := claim.claimId casefold
    status := status }

def Fresh (casefold : String → String) (store : FactStore) (claim : Claim) : Prop :=
  ∀ stored ∈ store.claims, stored.claimId ≠ claim.claimId casefold

theorem resourced_new (stated : claim.provenance ≠ []) (stored : StoredClaim)
    (new : stored.provenance = []) :
    (store.resourced claim stored).accessKeys = claim.accessKeys := by
  obtain ⟨source, rest, split⟩ := exists_cons_of_ne_nil stated
  have nodes : ∀ source ∈ mergeSources stored.provenance claim.provenance,
      (store.documented claim).documents source.documentKey = some (documentOf claim) := by
    intro source member
    rw [new, mem_mergeSources] at member
    have isSource : source ∈ claim.provenance := member.resolve_left not_mem_nil
    exact if_pos (mem_map_of_mem isSource)
  have present : documentOf claim ∈
      (mergeSources stored.provenance claim.provenance).filterMap fun source =>
        (store.documented claim).documents source.documentKey := by
    have member : source ∈ mergeSources stored.provenance claim.provenance := by
      rw [mem_mergeSources, split]
      exact .inr mem_cons_self
    exact mem_filterMap.mpr ⟨source, member, nodes source member⟩
  have notEmpty := ne_nil_of_mem present
  refine recomputed_of_same ?_ ?_
  · simp only [sourceKeys, if_neg notEmpty, ne_eq, map_eq_nil_iff]
    exact notEmpty
  · intro list member
    simp only [sourceKeys, if_neg notEmpty] at member
    obtain ⟨node, isNode, rfl⟩ := mem_map.mp member
    obtain ⟨source, isSource, found⟩ := mem_filterMap.mp isNode
    rw [nodes source isSource] at found
    cases found
    rfl

theorem claims_createClaim (fresh : Fresh casefold store claim) (status : ClaimStatus) :
    (createClaim casefold store claim status).claims =
      store.claims ++ [storedAs casefold claim status] := by
  let stored : StoredClaim :=
    { claim with provenance := [], claimId := claim.claimId casefold, status := status }
  let added := { store with claims := store.claims ++ [stored] }
  have merged := claims_mergeEntities added stored.entityIds
  have unfolds : createClaim casefold store claim status =
      (stored.entityIds.foldl mergeEntity added).attachProvenance stored.claimId claim := rfl
  rw [unfolds]
  by_cases stated : claim.provenance = []
  · rw [attachProvenance, if_pos stated, merged.1]
    simp [added, stored, storedAs, stated, mergeSources]
  · rw [claims_attachProvenance _ _ stated, merged.1, map_append, map_singleton]
    congr 1
    · refine (map_congr_left fun old member => ?_).trans (map_id _)
      exact if_neg (fresh old member)
    · rw [if_pos rfl]
      have keys : ((stored.entityIds.foldl mergeEntity added).resourced claim stored).accessKeys =
          claim.accessKeys := resourced_new stated stored rfl
      simp only [resourced] at keys
      simp only [resourced, storedAs, List.cons.injEq, and_true]
      rw [keys]

/-! ## Consistent stores -/

/-- Claims are stored under their ids, each once. -/
structure Consistent (casefold : String → String) (store : FactStore) : Prop where
  identified : ∀ stored ∈ store.claims, stored.claimId = stored.toClaim.claimId casefold
  unique : (store.claims.map StoredClaim.claimId).Nodup

theorem Consistent.empty : Consistent casefold {} := ⟨nofun, nodup_nil⟩

theorem Consistent.of_identities {next : FactStore} (consistent : Consistent casefold store)
    {change : StoredClaim → StoredClaim} (isNext : next.claims = store.claims.map change)
    (sameId : ∀ stored, (change stored).claimId = stored.claimId)
    (sameClaim : ∀ stored, (change stored).toClaim.claimId casefold =
      stored.toClaim.claimId casefold) : Consistent casefold next := by
  constructor
  · intro stored member
    rw [isNext] at member
    obtain ⟨before, isBefore, rfl⟩ := mem_map.mp member
    rw [sameId, sameClaim]
    exact consistent.identified before isBefore
  · have same : StoredClaim.claimId ∘ change = StoredClaim.claimId := funext sameId
    rw [isNext, map_map, same]
    exact consistent.unique

theorem Consistent.append {next : FactStore} (consistent : Consistent casefold store)
    (fresh : Fresh casefold store claim) (status : ClaimStatus)
    (isNext : next.claims = store.claims ++ [storedAs casefold claim status]) :
    Consistent casefold next := by
  constructor
  · intro stored member
    rw [isNext] at member
    rcases mem_append.mp member with old | new
    · exact consistent.identified stored old
    · obtain rfl := mem_singleton.mp new
      rfl
  · rw [isNext, map_append, map_singleton]
    refine nodup_append.mpr ⟨consistent.unique, nodup_singleton _, ?_⟩
    intro id old other new same
    obtain ⟨stored, member, rfl⟩ := mem_map.mp old
    rw [mem_singleton.mp new] at same
    exact fresh stored member same

/-! ## The claims about one subject -/

def about (subject predicate : String) (stored : StoredClaim) : Bool :=
  stored.subjectId = subject && stored.predicate = predicate

def standingOf : ClaimStatus → Register.Standing
  | .active => .active
  | .superseded => .superseded
  | .contradicted => .contradicted
  | .retracted => .withdrawn

theorem standingOf_injective : Function.Injective standingOf := by
  intro left right same
  cases left <;> cases right <;> first | rfl | cases same

def entryOf (stored : StoredClaim) : Register.Entry ClaimId String where
  key := stored.claimId
  since := (orderingStamp stored.toClaim).getD ""
  till := stored.validTo
  standing := standingOf stored.status

section

variable (store : FactStore) (subject predicate : String)

def entries : List (Register.Entry ClaimId String) :=
  (store.claims.filter (about subject predicate)).map entryOf

def Stamped : Prop :=
  ∀ stored ∈ store.claims, about subject predicate stored →
    (orderingStamp stored.toClaim).isSome

end

theorem orderingStamp_getD (stamped : (orderingStamp claim).isSome) :
    (claim.validFrom.bind nonempty).getD claim.recordedAt = (orderingStamp claim).getD "" := by
  unfold orderingStamp at stamped ⊢
  cases valid : claim.validFrom.bind nonempty with
  | some time => rfl
  | none =>
    simp only [valid, Option.none_or, Option.getD_none] at stamped ⊢
    unfold nonempty at stamped ⊢
    split at stamped
    · cases stamped
    · rw [if_neg ‹_›]
      rfl

variable {stored : StoredClaim}

theorem isStrictlyNewer_iff (status : ClaimStatus) (stamped : (orderingStamp claim).isSome)
    (storedStamped : (orderingStamp stored.toClaim).isSome) :
    isStrictlyNewer claim stored.rowClaim = true ↔
      (entryOf stored).since < (entryOf (storedAs casefold claim status)).since := by
  have sameStamp : orderingStamp stored.rowClaim = orderingStamp stored.toClaim := rfl
  have newStamp : orderingStamp (storedAs casefold claim status).toClaim = orderingStamp claim := rfl
  obtain ⟨new, isNew⟩ := Option.isSome_iff_exists.mp stamped
  obtain ⟨old, isOld⟩ := Option.isSome_iff_exists.mp storedStamped
  simp [isStrictlyNewer, entryOf, sameStamp, newStamp, isNew, isOld]

/-! ## Decisions -/

def rivals (store : FactStore) (claim : Claim) : List StoredClaim :=
  store.claims.filter fun stored =>
    about claim.subjectId claim.predicate stored && stored.status = .active

theorem filter_conflictsWith (consistent : Consistent casefold store)
    (fresh : Fresh casefold store claim) :
    store.claims.filter (conflictsWith claim) = store.rivals claim := by
  apply filter_congr
  intro stored member
  by_cases peer : stored.subjectId = claim.subjectId ∧ stored.predicate = claim.predicate
  · have otherKey : stored.object.key ≠ claim.object.key := by
      intro sameKey
      refine fresh stored member ((consistent.identified stored member).trans ?_)
      rw [Claim.claimId, Claim.claimId, peer.1, peer.2, sameKey]
    simp [conflictsWith, about, peer, otherKey]
  · rw [not_and_or] at peer
    rcases peer with other | other <;> simp [conflictsWith, about, other]

theorem existingSame_of_fresh (fresh : Fresh casefold store claim) :
    (store.claims.any fun stored => stored.claimId = claim.claimId casefold) = false := by
  rw [any_eq_false]
  intro stored member
  simpa using fresh stored member

theorem decisionOn_fresh (consistent : Consistent casefold store)
    (fresh : Fresh casefold store claim)
    (functional : registry.cardinality claim.predicate = .functional) :
    decisionOn casefold registry store claim =
      reconcile casefold claim .functional false
        ((store.rivals claim).map StoredClaim.rowClaim) := by
  simp only [decisionOn, existingSame_of_fresh fresh, functional, and_self, if_true,
    filter_conflictsWith consistent fresh]

theorem map_claimId_rowClaim (consistent : Consistent casefold store) {stored : List StoredClaim}
    (members : ∀ one ∈ stored, one ∈ store.claims) :
    (stored.map StoredClaim.rowClaim).map (Claim.claimId casefold) =
      stored.map StoredClaim.claimId := by
  rw [map_map]
  apply map_congr_left
  intro one member
  rw [consistent.identified one (members one member)]
  rfl

theorem mem_claims_of_mem_rivals (member : stored ∈ store.rivals claim) :
    stored ∈ store.claims := (mem_filter.mp member).1

/-- Whether a claim can be ordered after every active claim about its subject. -/
def Newest (store : FactStore) (claim : Claim) : Prop :=
  ∀ stored ∈ store.rivals claim, isStrictlyNewer claim stored.rowClaim = true

theorem mem_map_claimId (consistent : Consistent casefold store) {some : List StoredClaim}
    (members : ∀ one ∈ some, one ∈ store.claims) (member : stored ∈ store.claims) :
    stored.claimId ∈ some.map StoredClaim.claimId ↔ stored ∈ some := by
  constructor
  · intro isId
    obtain ⟨one, isOne, same⟩ := mem_map.mp isId
    rwa [← inj_on_of_nodup_map consistent.unique (members one isOne) member same]
  · exact mem_map_of_mem

/-- **A claim that is newer than the active ones retires them.** -/
theorem claims_applyClaim_newest (consistent : Consistent casefold store)
    (fresh : Fresh casefold store claim)
    (functional : registry.cardinality claim.predicate = .functional)
    (newest : store.Newest claim) :
    (applyClaim casefold registry store claim).claims =
      store.claims.map (retire ((store.rivals claim).map StoredClaim.claimId)
          ((claim.validFrom.bind nonempty).getD claim.recordedAt)) ++
        [storedAs casefold claim .active] := by
  have rivals : ∀ one ∈ store.rivals claim, one ∈ store.claims := fun _ => mem_claims_of_mem_rivals
  have ids := map_claimId_rowClaim consistent rivals
  have unretired (validTo : String) :
      retire ((store.rivals claim).map StoredClaim.claimId) validTo
        (storedAs casefold claim .active) = storedAs casefold claim .active := by
    refine if_neg fun isId => ?_
    obtain ⟨stored, member, same⟩ := mem_map.mp isId
    exact fresh stored (mem_claims_of_mem_rivals member) same
  by_cases none : store.rivals claim = []
  · have decision : decisionOn casefold registry store claim = { action := .create } := by
      rw [decisionOn_fresh consistent fresh functional, none]
      simp [reconcile]
    have unchanged (validTo : String) : retire [] validTo = id :=
      funext fun _ => if_neg not_mem_nil
    simp only [applyClaim, decision, claims_createClaim fresh, none, map_nil, unchanged, map_id]
  · have decision : decisionOn casefold registry store claim =
        { action := .supersede
          affectedKeys := (store.rivals claim).map StoredClaim.claimId } := by
      have all : ((store.rivals claim).map StoredClaim.rowClaim).all (isStrictlyNewer claim) = true := by
        rwa [all_map, all_eq_true]
      rw [decisionOn_fresh consistent fresh functional, reconcile, if_neg (by decide),
        if_neg (by simpa using none),
        if_pos all, ids]
    simp only [applyClaim, decision, claims_mapClaims, claims_createClaim fresh, map_append,
      map_singleton, unretired]

/-- The active claims about its subject that a claim cannot be ordered after. -/
def unresolved (store : FactStore) (claim : Claim) : List StoredClaim :=
  (store.rivals claim).filter fun stored => !isStrictlyNewer claim stored.rowClaim

/-- **Any other claim contradicts the active ones that it is not newer than.** -/
theorem claims_applyClaim_late (consistent : Consistent casefold store)
    (fresh : Fresh casefold store claim)
    (functional : registry.cardinality claim.predicate = .functional)
    (late : ¬store.Newest claim) :
    (applyClaim casefold registry store claim).claims =
      store.claims.map (flag ((store.unresolved claim).map StoredClaim.claimId)) ++
        [storedAs casefold claim .contradicted] := by
  have members : ∀ stored ∈ store.unresolved claim, stored ∈ store.claims := fun _ member =>
    mem_claims_of_mem_rivals (mem_filter.mp member).1
  have unflagged : flag ((store.unresolved claim).map StoredClaim.claimId)
      (storedAs casefold claim .contradicted) = storedAs casefold claim .contradicted := by
    refine if_neg fun isId => ?_
    obtain ⟨stored, member, same⟩ := mem_map.mp isId
    exact fresh stored (members stored member) same
  have decision : decisionOn casefold registry store claim =
      { action := .contradict
        newStatus := .contradicted
        affectedKeys := (store.unresolved claim).map StoredClaim.claimId } := by
    have some : store.rivals claim ≠ [] := by
      intro none
      refine late fun stored member => ?_
      rw [none] at member
      cases member
    have notAll : ¬((store.rivals claim).map StoredClaim.rowClaim).all (isStrictlyNewer claim) = true := by
      rwa [all_map, all_eq_true]
    rw [decisionOn_fresh consistent fresh functional, reconcile, if_neg (by decide),
      if_neg (by simpa using some),
      if_neg notAll, filter_map]
    congr 1
    exact map_claimId_rowClaim consistent members
  simp only [applyClaim, decision, claims_mapClaims, claims_createClaim fresh, map_append,
    map_singleton, unflagged]

/-! ## The register of a claim -/

theorem mem_rivals :
    stored ∈ store.rivals claim ↔
      stored ∈ store.claims ∧ about claim.subjectId claim.predicate stored = true ∧
        stored.status = .active := by
  simp [rivals, mem_filter]

theorem newest_iff (stamped : (orderingStamp claim).isSome)
    (allStamped : store.Stamped claim.subjectId claim.predicate) (status : ClaimStatus) :
    store.Newest claim ↔ ∀ old ∈ store.entries claim.subjectId claim.predicate,
      old.standing = .active → old.since < (entryOf (storedAs casefold claim status)).since := by
  constructor
  · intro newest old member isActive
    obtain ⟨stored, isStored, rfl⟩ := mem_map.mp member
    obtain ⟨isClaim, isAbout⟩ := mem_filter.mp isStored
    have active : stored.status = .active := standingOf_injective isActive
    exact (isStrictlyNewer_iff status stamped (allStamped stored isClaim isAbout)).mp
      (newest stored (mem_rivals.mpr ⟨isClaim, isAbout, active⟩))
  · intro newest stored member
    obtain ⟨isClaim, isAbout, active⟩ := mem_rivals.mp member
    have newer : isStrictlyNewer claim stored.rowClaim = true ↔
        (entryOf stored).since < (entryOf (storedAs casefold claim status)).since :=
      isStrictlyNewer_iff status stamped (allStamped stored isClaim isAbout)
    refine newer.mpr (newest _ (mem_map_of_mem (mem_filter.mpr ⟨isClaim, isAbout⟩)) ?_)
    rw [entryOf, active]
    rfl

theorem entries_map_append {next : FactStore} {change : StoredClaim → StoredClaim}
    {new : StoredClaim} {subject predicate : String}
    (isNext : next.claims = store.claims.map change ++ [new])
    (sameAbout : ∀ stored, about subject predicate (change stored) =
      about subject predicate stored) :
    next.entries subject predicate =
      (store.claims.filter (about subject predicate)).map (entryOf ∘ change) ++
        if about subject predicate new then [entryOf new] else [] := by
  have commutes : about subject predicate ∘ change = about subject predicate := funext sameAbout
  rw [entries, isNext, filter_append, filter_map, commutes, map_append, map_map, filter_singleton]
  by_cases isAbout : about subject predicate new <;> simp [isAbout]

theorem about_retire (affected : List ClaimId) (validTo subject predicate : String)
    (stored : StoredClaim) : about subject predicate (retire affected validTo stored) =
      about subject predicate stored := by
  unfold retire
  split <;> rfl

theorem about_flag (affected : List ClaimId) (subject predicate : String) (stored : StoredClaim) :
    about subject predicate (flag affected stored) = about subject predicate stored := by
  unfold flag
  split <;> rfl

theorem about_storedAs (status : ClaimStatus) :
    about claim.subjectId claim.predicate (storedAs casefold claim status) = true := by
  simp [about, storedAs]

section

variable (consistent : Consistent casefold store) (stamped : (orderingStamp claim).isSome)
    (status : ClaimStatus) (member : stored ∈ store.claims)
    (isAbout : about claim.subjectId claim.predicate stored = true)

include consistent stamped status member isAbout

theorem entryOf_retire : entryOf (retire ((store.rivals claim).map StoredClaim.claimId)
        ((claim.validFrom.bind nonempty).getD claim.recordedAt) stored) =
      Lib.Register.supersede (entryOf (storedAs casefold claim status)) (entryOf stored) := by
  have isRival : stored.claimId ∈ (store.rivals claim).map StoredClaim.claimId ↔
      stored.status = .active := by
    rw [mem_map_claimId consistent (fun _ => mem_claims_of_mem_rivals) member, mem_rivals]
    exact ⟨fun rival => rival.2.2, fun active => ⟨member, isAbout, active⟩⟩
  have isActive : (entryOf stored).standing = .active ↔ stored.status = .active :=
    ⟨fun same => standingOf_injective same, fun same => by rw [entryOf, same]; rfl⟩
  by_cases active : stored.status = .active
  · rw [retire, if_pos (isRival.mpr active), Lib.Register.supersede, if_pos (isActive.mpr active),
      orderingStamp_getD stamped]
    rfl
  · rw [retire, if_neg (mt isRival.mp active), Lib.Register.supersede,
      if_neg (mt isActive.mp active)]

theorem entryOf_flag (storedStamped : (orderingStamp stored.toClaim).isSome) :
    entryOf (flag ((store.unresolved claim).map StoredClaim.claimId) stored) =
      Lib.Register.contradict (entryOf (storedAs casefold claim status)) (entryOf stored) := by
  have isUnresolved : stored.claimId ∈ (store.unresolved claim).map StoredClaim.claimId ↔
      stored.status = .active ∧
        ¬(entryOf stored).since < (entryOf (storedAs casefold claim status)).since := by
    have members : ∀ one ∈ store.unresolved claim, one ∈ store.claims := fun _ one =>
      mem_claims_of_mem_rivals (mem_filter.mp one).1
    rw [mem_map_claimId consistent members member, unresolved, mem_filter, mem_rivals,
      ← isStrictlyNewer_iff status stamped storedStamped]
    simp [member, isAbout]
  have isActive : (entryOf stored).standing = .active ↔ stored.status = .active :=
    ⟨fun same => standingOf_injective same, fun same => by rw [entryOf, same]; rfl⟩
  by_cases late : stored.status = .active ∧
      ¬(entryOf stored).since < (entryOf (storedAs casefold claim status)).since
  · rw [flag, if_pos (isUnresolved.mpr late), Lib.Register.contradict,
      if_pos ⟨isActive.mpr late.1, late.2⟩]
    rfl
  · rw [flag, if_neg (mt isUnresolved.mp late), Lib.Register.contradict,
      if_neg fun both => late ⟨isActive.mp both.1, both.2⟩]

end

/-- **A claim of a functional predicate that is not stored is entered into its register.** -/
theorem entries_applyClaim (consistent : Consistent casefold store)
    (fresh : Fresh casefold store claim)
    (functional : registry.cardinality claim.predicate = .functional)
    (stamped : (orderingStamp claim).isSome)
    (allStamped : store.Stamped claim.subjectId claim.predicate) :
    (applyClaim casefold registry store claim).entries claim.subjectId claim.predicate =
      Lib.Register.enter (store.entries claim.subjectId claim.predicate)
        (entryOf (storedAs casefold claim .active)) := by
  have newest : store.Newest claim ↔
      ∀ old ∈ store.entries claim.subjectId claim.predicate, old.standing = .active →
        old.since < (entryOf (storedAs casefold claim .active)).since :=
    newest_iff stamped allStamped .active
  unfold Lib.Register.enter
  by_cases isNewest : store.Newest claim
  · rw [if_pos (newest.mp isNewest), entries_map_append
      (claims_applyClaim_newest consistent fresh functional isNewest) (about_retire _ _ _ _),
      if_pos (about_storedAs _), entries, map_map]
    congr 1
    refine map_congr_left fun stored isPeer => ?_
    obtain ⟨member, isAbout⟩ := mem_filter.mp isPeer
    exact entryOf_retire consistent stamped .active member isAbout
  · rw [if_neg (mt newest.mpr isNewest), entries_map_append
      (claims_applyClaim_late consistent fresh functional isNewest) (about_flag _ _ _),
      if_pos (about_storedAs _), entries, map_map]
    congr 1
    refine map_congr_left fun stored isPeer => ?_
    obtain ⟨member, isAbout⟩ := mem_filter.mp isPeer
    exact entryOf_flag consistent stamped .active member isAbout (allStamped stored member isAbout)

/-! ## Steps -/

structure SameStatement (before after : StoredClaim) : Prop where
  claimId : after.claimId = before.claimId
  subjectId : after.subjectId = before.subjectId
  predicate : after.predicate = before.predicate
  object : after.object = before.object
  validFrom : after.validFrom = before.validFrom
  recordedAt : after.recordedAt = before.recordedAt

namespace SameStatement

variable {before after : StoredClaim}

section

variable (same : SameStatement before after)

include same

theorem identity : after.toClaim.claimId casefold = before.toClaim.claimId casefold := by
  rw [Claim.claimId, Claim.claimId, same.subjectId, same.predicate, same.object]

theorem about (subject predicate : String) :
    FactStore.about subject predicate after = FactStore.about subject predicate before := by
  rw [FactStore.about, FactStore.about, same.subjectId, same.predicate]

theorem orderingStamp : Facts.orderingStamp after.toClaim = Facts.orderingStamp before.toClaim := by
  rw [Facts.orderingStamp, Facts.orderingStamp, same.validFrom, same.recordedAt]

end

end SameStatement

theorem sameStatement_retire (affected : List ClaimId) (validTo : String) (stored : StoredClaim) :
    SameStatement stored (retire affected validTo stored) := by
  unfold retire
  split <;> exact ⟨rfl, rfl, rfl, rfl, rfl, rfl⟩

theorem sameStatement_flag (affected : List ClaimId) (stored : StoredClaim) :
    SameStatement stored (flag affected stored) := by
  unfold flag
  split <;> exact ⟨rfl, rfl, rfl, rfl, rfl, rfl⟩

/-- A claim that another statement of it corroborates. -/
def corroborated (casefold : String → String) (store : FactStore) (claim : Claim)
    (stored : StoredClaim) : StoredClaim :=
  if stored.claimId = claim.claimId casefold then
    let stored :=
      { stored with
        corroborations := stored.corroborations + 1
        confidence := if stored.confidence < claim.confidence then claim.confidence
          else stored.confidence }
    if claim.provenance = [] then stored else store.resourced claim stored
  else stored

theorem sameStatement_corroborated (stored : StoredClaim) :
    SameStatement stored (corroborated casefold store claim stored) := by
  unfold corroborated
  split
  · dsimp only
    split <;> exact ⟨rfl, rfl, rfl, rfl, rfl, rfl⟩
  · exact ⟨rfl, rfl, rfl, rfl, rfl, rfl⟩

theorem status_corroborated (stored : StoredClaim) :
    (corroborated casefold store claim stored).status = stored.status ∧
      (corroborated casefold store claim stored).validTo = stored.validTo := by
  unfold corroborated
  split
  · dsimp only
    split <;> exact ⟨rfl, rfl⟩
  · exact ⟨rfl, rfl⟩

theorem claims_corroborate :
    (corroborate casefold store claim).claims =
      store.claims.map (corroborated casefold store claim) := by
  unfold corroborate
  by_cases stated : claim.provenance = []
  · rw [attachProvenance, if_pos stated, claims_mapClaims]
    simp [corroborated, stated]
  · rw [claims_attachProvenance _ _ stated, claims_mapClaims, map_map]
    apply map_congr_left
    intro stored _
    by_cases here : stored.claimId = claim.claimId casefold
    · simp only [Function.comp_apply, corroborated, if_pos here, if_neg stated]
      rfl
    · simp [corroborated, here]

theorem not_fresh_iff : ¬Fresh casefold store claim ↔
    ∃ stored ∈ store.claims, stored.claimId = claim.claimId casefold := by
  simp [Fresh]

theorem claims_applyClaim_same (stored : ¬Fresh casefold store claim) :
    (applyClaim casefold registry store claim).claims =
      store.claims.map (corroborated casefold store claim) := by
  have existingSame : (store.claims.any fun stored =>
      stored.claimId = claim.claimId casefold) = true := by
    obtain ⟨same, member, isSame⟩ := not_fresh_iff.mp stored
    exact any_eq_true.mpr ⟨same, member, by simpa using isSame⟩
  have decision : (decisionOn casefold registry store claim).action = .corroborate := by
    simp [decisionOn, reconcile, existingSame]
  rw [← claims_corroborate]
  simp only [applyClaim, decision]

theorem claims_applyClaim_multi (fresh : Fresh casefold store claim)
    (multi : registry.cardinality claim.predicate = .multi) :
    (applyClaim casefold registry store claim).claims =
      store.claims ++ [storedAs casefold claim .active] := by
  have decision : decisionOn casefold registry store claim = { action := .create } := by
    simp [decisionOn, reconcile, existingSame_of_fresh fresh, multi]
  simp only [applyClaim, decision, claims_createClaim fresh]

/-- **What an insertion can do to the claims.** -/
inductive Inserted (casefold : String → String) (registry : PredicateRegistry) (store : FactStore)
    (claim : Claim) : List StoredClaim → Prop where
  | same (stored : ¬Fresh casefold store claim) :
      Inserted casefold registry store claim
        (store.claims.map (corroborated casefold store claim))
  | additive (fresh : Fresh casefold store claim)
      (multi : registry.cardinality claim.predicate = .multi) :
      Inserted casefold registry store claim
        (store.claims.map id ++ [storedAs casefold claim .active])
  | newest (fresh : Fresh casefold store claim)
      (functional : registry.cardinality claim.predicate = .functional)
      (newest : store.Newest claim) :
      Inserted casefold registry store claim
        (store.claims.map (retire ((store.rivals claim).map StoredClaim.claimId)
          ((claim.validFrom.bind nonempty).getD claim.recordedAt)) ++
            [storedAs casefold claim .active])
  | late (fresh : Fresh casefold store claim)
      (functional : registry.cardinality claim.predicate = .functional)
      (late : ¬store.Newest claim) :
      Inserted casefold registry store claim
        (store.claims.map (flag ((store.unresolved claim).map StoredClaim.claimId)) ++
          [storedAs casefold claim .contradicted])

theorem inserted_applyClaim (consistent : Consistent casefold store) :
    Inserted casefold registry store claim (applyClaim casefold registry store claim).claims := by
  by_cases fresh : Fresh casefold store claim
  · cases cardinality : registry.cardinality claim.predicate with
    | multi =>
      rw [claims_applyClaim_multi fresh cardinality]
      have additive := Inserted.additive fresh cardinality
      rwa [map_id] at additive
    | functional =>
      by_cases newest : store.Newest claim
      · rw [claims_applyClaim_newest consistent fresh cardinality newest]
        exact .newest fresh cardinality newest
      · rw [claims_applyClaim_late consistent fresh cardinality newest]
        exact .late fresh cardinality newest
  · rw [claims_applyClaim_same fresh]
    exact .same fresh

variable (registry claim) in
theorem exists_change (consistent : Consistent casefold store) :
    ∃ change : StoredClaim → StoredClaim, (∀ stored, SameStatement stored (change stored)) ∧
      ((¬Fresh casefold store claim ∧
          (applyClaim casefold registry store claim).claims = store.claims.map change) ∨
        (Fresh casefold store claim ∧ ∃ status,
          (applyClaim casefold registry store claim).claims =
            store.claims.map change ++ [storedAs casefold claim status])) := by
  have inserted : Inserted casefold registry store claim
      (applyClaim casefold registry store claim).claims := inserted_applyClaim consistent
  generalize (applyClaim casefold registry store claim).claims = claims at inserted
  cases inserted with
  | same stored => exact ⟨_, sameStatement_corroborated, .inl ⟨stored, rfl⟩⟩
  | additive fresh multi =>
    exact ⟨id, fun _ => ⟨rfl, rfl, rfl, rfl, rfl, rfl⟩, .inr ⟨fresh, _, rfl⟩⟩
  | newest fresh _ _ => exact ⟨_, sameStatement_retire _ _, .inr ⟨fresh, _, rfl⟩⟩
  | late fresh _ _ => exact ⟨_, sameStatement_flag _, .inr ⟨fresh, _, rfl⟩⟩

/-- **An insertion keeps a store consistent.** -/
theorem Consistent.applyClaim (consistent : Consistent casefold store) (claim : Claim) :
    Consistent casefold (applyClaim casefold registry store claim) := by
  obtain ⟨change, same, ⟨_, isNext⟩ | ⟨fresh, status, isNext⟩⟩ :=
    exists_change registry claim consistent
  · exact consistent.of_identities isNext (fun stored => (same stored).claimId)
      fun stored => (same stored).identity
  · have changed : Consistent casefold (store.mapClaims change) :=
      consistent.of_identities rfl (fun stored => (same stored).claimId)
        fun stored => (same stored).identity
    refine changed.append (?_ : Fresh casefold (store.mapClaims change) claim) status isNext
    intro stored member
    obtain ⟨before, isBefore, rfl⟩ := mem_map.mp member
    rw [(same before).claimId]
    exact fresh before isBefore

end Insert

end FactStore

end RedArchKM.Facts
