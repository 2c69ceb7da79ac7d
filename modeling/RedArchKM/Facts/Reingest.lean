import RedArchKM.Facts.DocumentIngest
import RedArchKM.Lib.Incumbents

/-!
# Ingesting a document again

In a store that documents are ingested into, the claims are a board: the subject and a functional
predicate are a seat, and the latest value that was inserted for it is in office, that is active
(`boardOf_applyClaim`). To ingest a document again is to take the claims that only it states off the
board and to enter them anew, with the time at which this is done. So a claim that a later document
has superseded comes back active, and supersedes the other one.

The store is as it was exactly if the document is restored (`unchanged_iff_restored`): for every
subject and functional predicate, the last of the claims that only it states was active, and these
claims are stored with the objects that it gives them.
-/

namespace RedArchKM.Facts

open List Function

open Lib (Incumbents.Board)

namespace FactStore

variable {casefold : String → String} {registry : PredicateRegistry} {clock : Clock}
  {store : FactStore} {now : Nat}

/-! ## The board of a store -/

/-- What a claim runs for, if its predicate has one value. -/
def seatOf (registry : PredicateRegistry) (claimId : ClaimId) : Option (String × String) :=
  if registry.cardinality claimId.predicate = .functional then
    some (claimId.subjectId, claimId.predicate)
  else none

def boardOf (store : FactStore) : Incumbents.Board ClaimId ClaimObject := fun claimId =>
  (store.claims.find? fun stored => stored.claimId = claimId).map fun stored =>
    (stored.object, decide (stored.status = .active))

structure IsRecorded (casefold : String → String) (clock : Clock) (now : Nat)
    (stored : StoredClaim) : Prop where
  canonical : norm casefold stored.predicate = stored.predicate
  undated : stored.validFrom = none
  recorded : ∃ count < now, stored.recordedAt = clock.read count
  settled : stored.status = .active ∨ stored.status = .superseded

/-- What ingested documents leave behind. -/
structure Recorded (casefold : String → String) (clock : Clock) (now : Nat) (store : FactStore) :
    Prop where
  consistent : Consistent casefold store
  each : ∀ stored ∈ store.claims, IsRecorded casefold clock now stored

structure Built (casefold : String → String) (clock : Clock) (now : Nat) (claim : Claim) : Prop where
  canonical : norm casefold claim.predicate = claim.predicate
  undated : claim.validFrom = none
  recorded : claim.recordedAt = clock.read now

theorem built_toClaim (ingest : Ingest casefold) (chunkIndex : Nat) (candidate : Extracted casefold) :
    Built casefold clock now (ingest.toClaim (clock.read now) chunkIndex candidate) :=
  ⟨candidate.canonical, rfl, rfl⟩

/-! ## Entering a claim -/

theorem find_map {change : StoredClaim → StoredClaim}
    (sameId : ∀ stored, (change stored).claimId = stored.claimId) (claims : List StoredClaim)
    (claimId : ClaimId) :
    (claims.map change).find? (fun stored => stored.claimId = claimId) =
      (claims.find? fun stored => stored.claimId = claimId).map change := by
  rw [find?_map]
  congr 2
  funext stored
  simp only [comp_apply, sameId]

variable {claim : Claim}

theorem boardOf_of_corroborated {next : FactStore}
    (isNext : next.claims = store.claims.map (corroborated casefold store claim)) :
    next.boardOf = store.boardOf := by
  funext claimId
  rw [boardOf, boardOf, isNext,
    find_map (fun stored => (sameStatement_corroborated stored).claimId), Option.map_map]
  congr 1
  funext stored
  simp only [comp_apply, (sameStatement_corroborated stored).object, (status_corroborated stored).1]

theorem boardOf_of_append {next : FactStore} {change : StoredClaim → StoredClaim}
    (isNext : next.claims = store.claims.map change ++ [storedAs casefold claim .active])
    (fresh : Fresh casefold store claim)
    (sameStatement : ∀ stored, SameStatement stored (change stored)) (claimId : ClaimId) :
    next.boardOf claimId =
      if claimId = claim.claimId casefold then some (claim.object, true)
      else (store.claims.find? fun stored => stored.claimId = claimId).map fun stored =>
        (stored.object, decide ((change stored).status = .active)) := by
  rw [boardOf, isNext, find?_append, find_map fun stored => (sameStatement stored).claimId]
  by_cases new : claimId = claim.claimId casefold
  · have absent : store.claims.find? (fun stored => stored.claimId = claimId) = none := by
      rw [find?_eq_none]
      intro stored member
      simpa [new] using fresh stored member
    rw [if_pos new, absent, new]
    simp [storedAs]
  · have other : ¬(storedAs casefold claim .active).claimId = claimId := fun same => new same.symm
    rw [if_neg new, find?_singleton]
    simp only [other, decide_false, Bool.false_eq_true, if_false, Option.or_none, Option.map_map]
    congr 1
    funext stored
    simp only [comp_apply, (sameStatement stored).object]

section

variable (recorded : Recorded casefold clock now store) (built : Built casefold clock now claim)

include recorded built

theorem Recorded.newest : store.Newest claim := by
  intro stored isRival
  have member := mem_claims_of_mem_rivals isRival
  obtain ⟨count, before, isRecorded⟩ := (recorded.each stored member).recorded
  have stamp : orderingStamp claim = some (clock.read now) := by
    simp [orderingStamp, built.undated, built.recorded, nonempty, clock.nonempty]
  have storedStamp : orderingStamp stored.rowClaim = some (clock.read count) := by
    simp [orderingStamp, StoredClaim.rowClaim, (recorded.each stored member).undated, isRecorded, nonempty,
      clock.nonempty]
  simp [isStrictlyNewer, stamp, storedStamp, clock.advances before]

theorem seatOf_eq_iff (functional : registry.cardinality claim.predicate = .functional)
    {stored : StoredClaim} (member : stored ∈ store.claims) :
    seatOf registry stored.claimId = seatOf registry (claim.claimId casefold) ↔
      about claim.subjectId claim.predicate stored = true := by
  have storedId : stored.claimId =
      ⟨stored.subjectId, stored.predicate, norm casefold stored.object.key⟩ := by
    rw [recorded.consistent.identified stored member, Claim.claimId, computeDedupKey,
      (recorded.each stored member).canonical]
  have newId : claim.claimId casefold =
      ⟨claim.subjectId, claim.predicate, norm casefold claim.object.key⟩ := by
    rw [Claim.claimId, computeDedupKey, built.canonical]
  rw [storedId, newId, seatOf, seatOf, if_pos functional, about, Bool.and_eq_true,
    decide_eq_true_iff, decide_eq_true_iff]
  constructor
  · intro same
    split at same
    · exact ⟨congrArg Prod.fst (Option.some.inj same), congrArg Prod.snd (Option.some.inj same)⟩
    · cases same
  · rintro ⟨sameSubject, samePredicate⟩
    rw [samePredicate, if_pos functional, sameSubject]

theorem unseat_retire (functional : registry.cardinality claim.predicate = .functional)
    {stored : StoredClaim} (member : stored ∈ store.claims) (validTo : String) :
    Lib.Incumbents.unseat (seatOf registry) (seatOf registry (claim.claimId casefold))
        stored.claimId (stored.object, decide (stored.status = .active)) =
      (stored.object, decide ((retire ((store.rivals claim).map StoredClaim.claimId) validTo
        stored).status = .active)) := by
  have isRival : stored.claimId ∈ (store.rivals claim).map StoredClaim.claimId ↔
      about claim.subjectId claim.predicate stored = true ∧ stored.status = .active := by
    rw [mem_map_claimId recorded.consistent (fun _ => mem_claims_of_mem_rivals) member, mem_rivals]
    exact and_iff_right member
  have seated : seatOf registry (claim.claimId casefold) ≠ none := by
    rw [seatOf, Claim.claimId, computeDedupKey, built.canonical, if_pos functional]
    rintro ⟨⟩
  have sameSeat : seatOf registry stored.claimId = seatOf registry (claim.claimId casefold) ↔
      about claim.subjectId claim.predicate stored = true :=
    seatOf_eq_iff recorded built functional member
  unfold Lib.Incumbents.unseat retire
  by_cases isAbout : about claim.subjectId claim.predicate stored = true
  · rw [if_pos ⟨seated, sameSeat.mpr isAbout⟩]
    by_cases active : stored.status = .active
    · rw [if_pos (isRival.mpr ⟨isAbout, active⟩)]
      rfl
    · rw [if_neg fun rival => active (isRival.mp rival).2]
      simp [active]
  · rw [if_neg fun both => isAbout (sameSeat.mp both.2),
      if_neg fun rival => isAbout (isRival.mp rival).1]

/-- **An insertion of the pipeline enters the claim into the board.** -/
theorem boardOf_applyClaim : (applyClaim casefold registry store claim).boardOf =
      Lib.Incumbents.enter (seatOf registry) store.boardOf (claim.claimId casefold, claim.object) := by
  have inserted : Inserted casefold registry store claim
      (applyClaim casefold registry store claim).claims := inserted_applyClaim recorded.consistent
  generalize applyClaim casefold registry store claim = next at inserted ⊢
  generalize isNext : next.claims = claims at inserted
  have absent (fresh : Fresh casefold store claim) : store.boardOf (claim.claimId casefold) = none := by
    rw [boardOf, Option.map_eq_none_iff, find?_eq_none]
    intro stored member
    simpa using fresh stored member
  cases inserted with
  | same stored =>
    obtain ⟨same, member, isSame⟩ := not_fresh_iff.mp stored
    have present : (store.boardOf (claim.claimId casefold)).isSome := by
      rw [← isSame, boardOf, find_claimId recorded.consistent member]
      rfl
    rw [boardOf_of_corroborated isNext, Lib.Incumbents.enter_of_present present]
  | additive fresh multi =>
    funext claimId
    have seatless : seatOf registry (claim.claimId casefold) = none := by
      rw [seatOf, Claim.claimId, computeDedupKey, built.canonical, multi]
      exact if_neg (by decide)
    rw [boardOf_of_append isNext fresh (fun _ => ⟨rfl, rfl, rfl, rfl, rfl, rfl⟩),
      Lib.Incumbents.enter_of_absent (absent fresh)]
    rw [seatless, Lib.Incumbents.unseat_none, Option.map_id]
    rfl
  | newest fresh functional newest =>
    funext claimId
    rw [boardOf_of_append isNext fresh (sameStatement_retire _ _),
      Lib.Incumbents.enter_of_absent (absent fresh), boardOf, Option.map_map]
    split
    · rfl
    · apply Option.map_congr
      intro stored found
      obtain rfl : stored.claimId = claimId := by simpa using find?_some found
      exact (unseat_retire recorded built functional (mem_of_find?_eq_some found) _).symm
  | late fresh functional late => exact absurd (recorded.newest built) late

end

/-! ## What is recorded -/

theorem IsRecorded.mono {stored : StoredClaim} (recorded : IsRecorded casefold clock now stored)
    {later : Nat} (le : now ≤ later) : IsRecorded casefold clock later stored where
  canonical := recorded.canonical
  undated := recorded.undated
  recorded := by
    obtain ⟨count, before, isRecorded⟩ := recorded.recorded
    exact ⟨count, by omega, isRecorded⟩
  settled := recorded.settled

theorem IsRecorded.of_sameStatement {before after : StoredClaim}
    (recorded : IsRecorded casefold clock now before) (same : SameStatement before after)
    (status : after.status = before.status ∨ after.status = .superseded) :
    IsRecorded casefold clock now after where
  canonical := by rw [same.predicate, recorded.canonical]
  undated := by rw [same.validFrom, recorded.undated]
  recorded := by
    rw [same.recordedAt]
    exact recorded.recorded
  settled := by
    rcases status with same | superseded
    · rw [same]
      exact recorded.settled
    · exact .inr superseded

theorem Built.isRecorded (built : Built casefold clock now claim) :
    IsRecorded casefold clock (now + 1) (storedAs casefold claim .active) :=
  ⟨built.canonical, built.undated, ⟨now, by omega, built.recorded⟩, .inl rfl⟩

theorem status_retire (affected : List ClaimId) (validTo : String) (stored : StoredClaim) :
    (retire affected validTo stored).status = stored.status ∨
      (retire affected validTo stored).status = .superseded := by
  unfold retire
  split
  · exact .inr rfl
  · exact .inl rfl

/-- **What the pipeline inserts keeps the store recorded.** -/
theorem Recorded.applyClaim (recorded : Recorded casefold clock now store) {claim : Claim}
    (built : Built casefold clock now claim) :
    Recorded casefold clock (now + 1) (applyClaim casefold registry store claim) := by
  refine ⟨recorded.consistent.applyClaim claim, ?_⟩
  have kept {change : StoredClaim → StoredClaim}
      (same : ∀ stored, SameStatement stored (change stored))
      (status : ∀ stored, (change stored).status = stored.status ∨
        (change stored).status = .superseded) :
      ∀ stored ∈ store.claims.map change, IsRecorded casefold clock (now + 1) stored := by
    intro stored member
    obtain ⟨before, isBefore, rfl⟩ := mem_map.mp member
    exact ((recorded.each before isBefore).of_sameStatement (same before) (status before)).mono
      (Nat.le_succ now)
  have added {claims : List StoredClaim}
      (old : ∀ stored ∈ claims, IsRecorded casefold clock (now + 1) stored) :
      ∀ stored ∈ claims ++ [storedAs casefold claim .active],
        IsRecorded casefold clock (now + 1) stored :=
    forall_mem_append.mpr ⟨old, forall_mem_singleton.mpr built.isRecorded⟩
  have inserted : Inserted casefold registry store claim
      (FactStore.applyClaim casefold registry store claim).claims :=
    inserted_applyClaim recorded.consistent
  generalize (FactStore.applyClaim casefold registry store claim).claims = claims at inserted ⊢
  cases inserted with
  | same => exact kept sameStatement_corroborated fun stored => .inl (status_corroborated stored).1
  | additive => exact added (kept (fun _ => ⟨rfl, rfl, rfl, rfl, rfl, rfl⟩) fun _ => .inl rfl)
  | newest => exact added (kept (sameStatement_retire _ _) (status_retire _ _))
  | late _ _ late => exact absurd (recorded.newest built) late

theorem Recorded.deleteByDocumentKey (recorded : Recorded casefold clock now store)
    (documentKey : String) :
    Recorded casefold clock now (store.deleteByDocumentKey documentKey) := by
  refine ⟨recorded.consistent.deleteByDocumentKey documentKey, fun stored member => ?_⟩
  rw [claims_deleteByDocumentKey recorded.consistent] at member
  obtain ⟨before, isLeft, rfl⟩ := mem_map.mp member
  exact (recorded.each before (mem_filter.mp isLeft).1).of_sameStatement
    (sameStatement_withdrawn before) (.inl (status_withdrawn before))

/-! ## Withdrawing from the board -/

theorem boardOf_eq_some (consistent : Consistent casefold store) {claimId : ClaimId}
    {member : ClaimObject × Bool} :
    store.boardOf claimId = some member ↔ ∃ stored ∈ store.claims, stored.claimId = claimId ∧
      (stored.object, decide (stored.status = .active)) = member := by
  constructor
  · intro found
    obtain ⟨stored, isFirst, isMember⟩ := Option.map_eq_some_iff.mp found
    exact ⟨stored, mem_of_find?_eq_some isFirst, by simpa using find?_some isFirst, isMember⟩
  · rintro ⟨stored, isStored, rfl, isMember⟩
    rw [boardOf, find_claimId consistent isStored, ← isMember]
    rfl

def soleIds (store : FactStore) (documentKey : String) (claimId : ClaimId) : Bool :=
  store.claims.any fun stored => stored.claimId = claimId && stored.soleSource documentKey

/-- **A withdrawal takes the claims that only the document states off the board.** -/
theorem boardOf_deleteByDocumentKey (consistent : Consistent casefold store) (documentKey : String) :
    (store.deleteByDocumentKey documentKey).boardOf =
      Lib.Incumbents.without store.boardOf (store.soleIds documentKey) := by
  have sole {stored : StoredClaim} (member : stored ∈ store.claims) :
      store.soleIds documentKey stored.claimId = stored.soleSource documentKey := by
    rw [Bool.eq_iff_iff, soleIds, any_eq_true]
    constructor
    · rintro ⟨other, isOther, both⟩
      obtain ⟨sameId, isSole⟩ := Bool.and_eq_true_iff.mp both
      rwa [← inj_on_of_nodup_map consistent.unique isOther member (by simpa using sameId)]
    · intro isSole
      exact ⟨stored, member, by simp [isSole]⟩
  funext claimId
  apply Option.ext
  intro member
  rw [boardOf_eq_some (consistent.deleteByDocumentKey documentKey),
    claims_deleteByDocumentKey consistent, Lib.Incumbents.without]
  constructor
  · rintro ⟨after, isAfter, rfl, rfl⟩
    obtain ⟨stored, isLeft, rfl⟩ := mem_map.mp isAfter
    obtain ⟨isStored, notSole⟩ := mem_filter.mp isLeft
    rw [(sameStatement_withdrawn stored).claimId, sole isStored,
      if_neg (by simpa using notSole), boardOf_eq_some consistent]
    refine ⟨stored, isStored, rfl, ?_⟩
    rw [(sameStatement_withdrawn stored).object, status_withdrawn]
  · intro found
    by_cases isSole : store.soleIds documentKey claimId = true
    · rw [if_pos isSole] at found
      cases found
    · rw [if_neg isSole, boardOf_eq_some consistent] at found
      obtain ⟨stored, isStored, rfl, rfl⟩ := found
      rw [sole isStored] at isSole
      refine ⟨_, mem_map_of_mem (mem_filter.mpr ⟨isStored, by simpa using isSole⟩),
        (sameStatement_withdrawn stored).claimId, ?_⟩
      rw [(sameStatement_withdrawn stored).object, status_withdrawn]

/-! ## Boards and claims -/

def States (store : FactStore) (subject predicate : String) (object : ClaimObject)
    (status : ClaimStatus) : Prop :=
  ∃ stored ∈ store.claims, stored.subjectId = subject ∧ stored.predicate = predicate ∧
    stored.object = object ∧ stored.status = status

theorem states_iff_boardOf (recorded : Recorded casefold clock now store)
    (subject predicate : String) (object : ClaimObject) (status : ClaimStatus) :
    store.States subject predicate object status ↔
      norm casefold predicate = predicate ∧ (status = .active ∨ status = .superseded) ∧
        store.boardOf (computeDedupKey casefold subject predicate object.key) =
          some (object, decide (status = .active)) := by
  rw [boardOf_eq_some recorded.consistent]
  constructor
  · rintro ⟨stored, member, rfl, rfl, rfl, rfl⟩
    have isRecorded := recorded.each stored member
    exact ⟨isRecorded.canonical, isRecorded.settled, stored, member,
      recorded.consistent.identified stored member, rfl⟩
  · rintro ⟨canonical, settled, stored, member, sameId, same⟩
    have isRecorded := recorded.each stored member
    rw [recorded.consistent.identified stored member, Claim.claimId, computeDedupKey,
      computeDedupKey, isRecorded.canonical, canonical] at sameId
    have sameStatus : stored.status = .active ↔ status = .active :=
      decide_eq_decide.mp (congrArg Prod.snd same)
    refine ⟨stored, member, congrArg ClaimId.subjectId sameId, congrArg ClaimId.predicate sameId,
      congrArg Prod.fst same, ?_⟩
    rcases settled with rfl | rfl
    · exact sameStatus.mpr rfl
    · exact isRecorded.settled.resolve_left (mt sameStatus.mp (by decide))

theorem boardOf_eq_iff_states {other : FactStore} {later : Nat}
    (recorded : Recorded casefold clock now store)
    (otherRecorded : Recorded casefold clock later other) :
    other.boardOf = store.boardOf ↔ ∀ subject predicate object status,
      other.States subject predicate object status ↔
        store.States subject predicate object status := by
  constructor
  · intro sameBoard subject predicate object status
    rw [states_iff_boardOf recorded, states_iff_boardOf otherRecorded, sameBoard]
  · intro sameStates
    have onBoth {one two : FactStore} {oneNow twoNow : Nat}
        (isOne : Recorded casefold clock oneNow one) (isTwo : Recorded casefold clock twoNow two)
        (states : ∀ subject predicate object status, one.States subject predicate object status →
          two.States subject predicate object status) (claimId : ClaimId)
        (member : ClaimObject × Bool) (isMember : one.boardOf claimId = some member) :
        two.boardOf claimId = some member := by
      obtain ⟨stored, isStored, rfl, rfl⟩ := (boardOf_eq_some isOne.consistent).mp isMember
      have stated := states stored.subjectId stored.predicate stored.object stored.status
        ⟨stored, isStored, rfl, rfl, rfl, rfl⟩
      rw [isOne.consistent.identified stored isStored]
      exact ((states_iff_boardOf isTwo _ _ _ _).mp stated).2.2
    funext claimId
    apply Option.ext
    intro member
    exact ⟨onBoth otherRecorded recorded (fun _ _ _ _ => (sameStates _ _ _ _).mp) claimId member,
      onBoth recorded otherRecorded (fun _ _ _ _ => (sameStates _ _ _ _).mpr) claimId member⟩

/-! ## Runs -/

section Runs

variable {state : IngestState} {ingest : Ingest casefold}

/-- What a document states, in the order in which it is inserted. -/
def statements (ingest : Ingest casefold) : List (ClaimId × ClaimObject) :=
  ingest.candidates.map fun (_, candidate) =>
    (computeDedupKey casefold candidate.subjectId candidate.predicate candidate.object.key,
      candidate.object)

theorem map_fst_statements (ingest : Ingest casefold) :
    (statements ingest).map Prod.fst = ingest.claimIds := by
  rw [statements, map_map]
  rfl

theorem boardOf_toClaims (recorded : Recorded casefold clock now store)
    (candidates : List (Nat × Extracted casefold)) :
    Recorded casefold clock (now + candidates.length)
        (insertClaims casefold registry store (ingest.toClaims clock now candidates)) ∧
      (insertClaims casefold registry store (ingest.toClaims clock now candidates)).boardOf =
        Lib.Incumbents.enterAll (seatOf registry) store.boardOf
          (candidates.map fun (_, candidate) =>
            (computeDedupKey casefold candidate.subjectId candidate.predicate candidate.object.key,
              candidate.object)) := by
  induction candidates generalizing store now with
  | nil => exact ⟨recorded, rfl⟩
  | cons candidate rest ih =>
    obtain ⟨chunkIndex, extracted⟩ := candidate
    have built : Built casefold clock now (ingest.toClaim (clock.read now) chunkIndex extracted) :=
      built_toClaim ingest chunkIndex extracted
    obtain ⟨stays, board⟩ := ih (recorded.applyClaim built)
    refine ⟨?_, board.trans ?_⟩
    · rwa [length_cons, ← Nat.add_assoc, Nat.add_right_comm]
    · rw [boardOf_applyClaim recorded built]
      rfl

theorem Recorded.ingestDocument (recorded : Recorded casefold clock state.now state.store)
    (ingest : Ingest casefold) :
    Recorded casefold clock (ingestDocument registry clock state ingest).now
      (ingestDocument registry clock state ingest).store :=
  (boardOf_toClaims (recorded.deleteByDocumentKey ingest.documentKey) ingest.candidates).1

/-- **An ingest takes off the board what only the document states, and enters what it states.** -/
theorem boardOf_ingestDocument (recorded : Recorded casefold clock state.now state.store)
    (ingest : Ingest casefold) :
    (ingestDocument registry clock state ingest).store.boardOf =
      Lib.Incumbents.enterAll (seatOf registry)
        (Lib.Incumbents.without state.store.boardOf (state.store.soleIds ingest.documentKey))
        (statements ingest) := by
  rw [← boardOf_deleteByDocumentKey recorded.consistent]
  exact (boardOf_toClaims (recorded.deleteByDocumentKey ingest.documentKey) ingest.candidates).2

def ingestAll (registry : PredicateRegistry) (clock : Clock) (history : List (Ingest casefold)) :
    IngestState :=
  history.foldl (fun state ingest => ingestDocument registry clock state ingest) {}

section

variable (history : List (Ingest casefold))

include history

theorem ingestAll_concat (ingest : Ingest casefold) :
    ingestAll registry clock (history ++ [ingest]) =
      ingestDocument registry clock (ingestAll registry clock history) ingest := by
  rw [ingestAll, foldl_append]
  rfl

theorem recorded_ingestAll : Recorded casefold clock (ingestAll registry clock history).now
      (ingestAll registry clock history).store := by
  induction history using List.reverseRecOn with
  | nil => exact ⟨Consistent.empty, fun _ member => absurd member not_mem_nil⟩
  | append_singleton history ingest ih =>
    rw [ingestAll_concat]
    exact ih.ingestDocument ingest

theorem settled_ingestAll :
    Lib.Incumbents.Settled (seatOf registry) (ingestAll registry clock history).store.boardOf := by
  induction history using List.reverseRecOn with
  | nil => exact ⟨nofun, nofun⟩
  | append_singleton history ingest ih =>
    rw [ingestAll_concat, boardOf_ingestDocument (recorded_ingestAll history)]
    exact (ih.without _).enterAll _

end

/-- **A document supports what it stated when it was ingested last.** -/
theorem supports_ingestAll (earlier later : List (Ingest casefold)) (ingest : Ingest casefold)
    (last : ∀ other ∈ later, other.documentKey ≠ ingest.documentKey) (claimId : ClaimId) :
    (ingestAll registry clock (earlier ++ ingest :: later)).store.Supports claimId
        ingest.documentKey ↔ claimId ∈ ingest.claimIds := by
  induction later using List.reverseRecOn with
  | nil =>
    rw [ingestAll_concat,
      supports_ingestDocument (recorded_ingestAll earlier).consistent, if_pos rfl]
  | append_singleton later other ih =>
    have differs : ingest.documentKey ≠ other.documentKey :=
      (last other (mem_append_right _ mem_cons_self)).symm
    rw [← cons_append, ← append_assoc, ingestAll_concat,
      supports_ingestDocument (recorded_ingestAll _).consistent, if_neg differs]
    exact ih fun one member => last one (mem_append_left _ member)

/-! ## Ingesting again -/

structure Unchanged (before after : FactStore) : Prop where
  states : ∀ subject predicate object status, after.States subject predicate object status ↔
    before.States subject predicate object status
  supports : ∀ claimId documentKey, after.Supports claimId documentKey ↔
    before.Supports claimId documentKey

def Lone (store : FactStore) (documentKey : String) (claimId : ClaimId) : Prop :=
  store.Supports claimId documentKey ∧
    ∀ other, store.Supports claimId other → other = documentKey

/-- The claims that only the document states are stored in its words, and of those that it comes
to last for a subject and a functional predicate, each is active. -/
structure Restored (registry : PredicateRegistry) (store : FactStore)
    (ingest : Ingest casefold) : Prop where
  worded : ∀ before statement after,
    Lib.Incumbents.First (statements ingest) before statement after →
      store.Lone ingest.documentKey statement.1 →
        ∃ stored ∈ store.claims, stored.claimId = statement.1 ∧ stored.object = statement.2
  current : ∀ before statement after,
    Lib.Incumbents.First (statements ingest) before statement after →
      store.Lone ingest.documentKey statement.1 → seatOf registry statement.1 ≠ none →
      (∀ later ∈ after, seatOf registry later.1 = seatOf registry statement.1 →
        store.Lone ingest.documentKey later.1 →
          later.1 ∈ (before ++ [statement]).map Prod.fst) →
        store.statusOf statement.1 = some .active

theorem soleIds_iff (consistent : Consistent casefold store) (documentKey : String)
    (claimId : ClaimId) :
    store.soleIds documentKey claimId = true ↔ store.Lone documentKey claimId := by
  rw [soleIds, any_eq_true]
  constructor
  · rintro ⟨stored, member, both⟩
    obtain ⟨sameId, sole⟩ := Bool.and_eq_true_iff.mp both
    obtain rfl : stored.claimId = claimId := by simpa using sameId
    obtain ⟨isSource, all⟩ := Bool.and_eq_true_iff.mp sole
    refine ⟨⟨stored, member, rfl, isSource⟩, ?_⟩
    rintro other ⟨same, isSame, sameKey, isOther⟩
    obtain rfl := inj_on_of_nodup_map consistent.unique isSame member sameKey
    obtain ⟨source, isIn, isDocument⟩ := any_eq_true.mp isOther
    have inDocument := all_eq_true.mp all source isIn
    simp only [decide_eq_true_iff] at isDocument inDocument
    exact isDocument.symm.trans inDocument
  · rintro ⟨⟨stored, member, rfl, isSource⟩, onlyHere⟩
    refine ⟨stored, member, ?_⟩
    rw [Bool.and_eq_true, StoredClaim.soleSource, isSource, Bool.true_and, all_eq_true]
    refine ⟨decide_eq_true rfl, fun source isIn => decide_eq_true ?_⟩
    refine onlyHere _ ⟨stored, member, rfl, ?_⟩
    exact any_eq_true.mpr ⟨source, isIn, decide_eq_true rfl⟩

variable {claimId : ClaimId}

theorem value_boardOf (consistent : Consistent casefold store) {object : ClaimObject} :
    (store.boardOf claimId).map Prod.fst = some object ↔
      ∃ stored ∈ store.claims, stored.claimId = claimId ∧ stored.object = object := by
  rw [Option.map_eq_some_iff]
  constructor
  · rintro ⟨member, isMember, rfl⟩
    obtain ⟨stored, isStored, sameId, same⟩ := (boardOf_eq_some consistent).mp isMember
    exact ⟨stored, isStored, sameId, congrArg Prod.fst same⟩
  · rintro ⟨stored, isStored, sameId, rfl⟩
    exact ⟨_, (boardOf_eq_some consistent).mpr ⟨stored, isStored, sameId, rfl⟩, rfl⟩

theorem office_boardOf :
    (store.boardOf claimId).map Prod.snd = some true ↔ store.statusOf claimId = some .active := by
  rw [boardOf, statusOf, Option.map_map]
  cases store.claims.find? fun stored => stored.claimId = claimId with
  | none => simp
  | some stored => simp

theorem restored_iff (consistent : Consistent casefold store)
    (known : ∀ statement ∈ statements ingest, (store.boardOf statement.1).isSome) :
    Restored registry store ingest ↔
      (∀ before statement after,
        Lib.Incumbents.First (statements ingest) before statement after →
          store.soleIds ingest.documentKey statement.1 →
            (store.boardOf statement.1).map Prod.fst = some statement.2) ∧
      ∀ before statement after,
        Lib.Incumbents.LastFor (seatOf registry)
            (Lib.Incumbents.without store.boardOf (store.soleIds ingest.documentKey))
            (statements ingest) before statement after →
          seatOf registry statement.1 ≠ none →
            (store.boardOf statement.1).map Prod.snd = some true := by
  have absent {statement : ClaimId × ClaimObject} (isStatement : statement ∈ statements ingest) :
      Lib.Incumbents.without store.boardOf (store.soleIds ingest.documentKey) statement.1 = none ↔
        store.Lone ingest.documentKey statement.1 := by
    rw [← soleIds_iff consistent, Lib.Incumbents.without]
    split
    · exact iff_of_true rfl ‹_›
    · rename_i notSole
      exact iff_of_false (fun none => by simpa [none] using known statement isStatement) notSole
  have inList {before after : List (ClaimId × ClaimObject)} {statement : ClaimId × ClaimObject}
      (first : Lib.Incumbents.First (statements ingest) before statement after) :
      statement ∈ statements ingest ∧ ∀ later ∈ after, later ∈ statements ingest := by
    rw [first.1]
    exact ⟨by simp, fun later member => by simp [member]⟩
  constructor
  · intro restored
    refine ⟨fun before statement after first sole => ?_,
      fun before statement after lastFor seated => ?_⟩
    · rw [value_boardOf consistent]
      exact restored.worded before statement after first ((soleIds_iff consistent _ _).mp sole)
    · rw [office_boardOf]
      obtain ⟨isStatement, isLater⟩ := inList lastFor.first
      refine restored.current before statement after lastFor.first
        ((absent isStatement).mp lastFor.absent) seated fun later member sameSeat lone => ?_
      rcases lastFor.last later member sameSeat with present | again
      · rw [(absent (isLater later member)).mpr lone] at present
        cases present
      · exact again
  · rintro ⟨worded, current⟩
    refine ⟨fun before statement after first lone => ?_,
      fun before statement after first lone seated last => ?_⟩
    · rw [← value_boardOf consistent]
      exact worded before statement after first ((soleIds_iff consistent _ _).mpr lone)
    · rw [← office_boardOf]
      obtain ⟨isStatement, isLater⟩ := inList first
      refine current before statement after
        ⟨first, (absent isStatement).mpr lone, fun later member sameSeat => ?_⟩ seated
      by_cases isLone : store.Lone ingest.documentKey later.1
      · exact .inr (last later member sameSeat isLone)
      · refine .inl ?_
        rw [Option.isSome_iff_ne_none]
        exact mt (absent (isLater later member)).mp isLone

theorem isSome_boardOf_of_supports {documentKey : String} (consistent : Consistent casefold store)
    (supports : store.Supports claimId documentKey) : (store.boardOf claimId).isSome := by
  obtain ⟨stored, member, sameId, _⟩ := supports
  rw [(boardOf_eq_some consistent).mpr ⟨stored, member, sameId, rfl⟩]
  rfl

variable (registry clock) in
/-- **Ingesting a document again changes nothing exactly if the document is restored.** -/
theorem unchanged_iff_restored (earlier later : List (Ingest casefold)) (ingest : Ingest casefold)
    (last : ∀ other ∈ later, other.documentKey ≠ ingest.documentKey) :
    let state := ingestAll registry clock (earlier ++ ingest :: later)
    Unchanged state.store (ingestDocument registry clock state ingest).store ↔
      Restored registry state.store ingest := by
  intro state
  have recorded : Recorded casefold clock state.now state.store := recorded_ingestAll _
  have supported (claimId : ClaimId) : state.store.Supports claimId ingest.documentKey ↔
      claimId ∈ ingest.claimIds := supports_ingestAll earlier later ingest last claimId
  have known : ∀ statement ∈ statements ingest, (state.store.boardOf statement.1).isSome := by
    intro statement member
    have isId : statement.1 ∈ ingest.claimIds := by
      rw [← map_fst_statements]
      exact mem_map_of_mem member
    exact isSome_boardOf_of_supports recorded.consistent ((supported statement.1).mpr isId)
  have stated : ∀ claimId, state.store.soleIds ingest.documentKey claimId →
      claimId ∈ (statements ingest).map Prod.fst := by
    intro claimId sole
    rw [map_fst_statements, ← supported]
    exact ((soleIds_iff recorded.consistent _ _).mp sole).1
  have sameSupport (claimId : ClaimId) (documentKey : String) :
      (ingestDocument registry clock state ingest).store.Supports claimId documentKey ↔
        state.store.Supports claimId documentKey := by
    rw [supports_ingestDocument recorded.consistent]
    split
    · rename_i same
      rw [same, supported]
    · rfl
  rw [restored_iff recorded.consistent known,
    ← Lib.Incumbents.enterAll_without_iff (settled_ingestAll _) stated known,
    ← boardOf_ingestDocument recorded,
    boardOf_eq_iff_states recorded (recorded.ingestDocument ingest)]
  exact ⟨fun unchanged => unchanged.states, fun states => ⟨states, sameSupport⟩⟩

end Runs

/-! ## Two reports about a company -/

/-- A report on where a company has its seat. -/
def report (documentKey city : String) : Ingest asciiCasefold where
  documentKey := documentKey
  chunks := [{ claims := [
    { subjectId := "acme"
      predicate := "headquartered_in"
      object := .literal .text city
      canonical := by decide +kernel }] }]

/-- The older report, ingested again, retires what the newer one states. -/
theorem not_unchanged_report :
    let state := ingestAll defaultPredicates fractions [report "older" "London", report "newer" "Paris"]
    ¬Unchanged state.store
      (ingestDocument defaultPredicates fractions state (report "older" "London")).store := by
  intro state unchanged
  have active : state.store.States "acme" "headquartered_in" (.literal .text "London") .active := by
    rw [← unchanged.states]
    unfold States
    decide +kernel
  revert active
  unfold States
  decide +kernel

theorem unchanged_iff_restored_report :
    let state := ingestAll defaultPredicates fractions
      ([report "older" "London"] ++ report "newer" "Paris" :: [])
    Unchanged state.store
        (ingestDocument defaultPredicates fractions state (report "newer" "Paris")).store ↔
      Restored defaultPredicates state.store (report "newer" "Paris") :=
  unchanged_iff_restored defaultPredicates fractions [report "older" "London"] []
    (report "newer" "Paris") nofun

end FactStore

end RedArchKM.Facts
