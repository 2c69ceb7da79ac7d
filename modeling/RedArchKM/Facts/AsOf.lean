import Mathlib.Data.Finset.Max
import RedArchKM.Facts.Convergence
import RedArchKM.Facts.FactAgent

/-!
# Claims as of a time

A claim that is superseded keeps the time from which it was valid and gets the one until which it
was. The claim query filters by both, and by the status first: it asks for active claims only. As
of a time it therefore finds the present value or none, and is right exactly for times before the
first value and for times at which the last one is valid (`answersAsOf_iff`).
-/

namespace RedArchKM.Facts

open List Option

namespace FactStore

variable {casefold : String → String} {registry : PredicateRegistry} {store : FactStore}
  {subject predicate : String} {claims : List Claim} {claim : Claim}

/-! ## The last of a chain -/

section

variable (consistent : Consistent casefold store) (noneAbout : store.entries subject predicate = [])

include consistent noneAbout

theorem last_mem_claims {before : List Claim}
    (competing : Competing casefold registry subject predicate (before ++ [claim]))
    (fresh : ∀ one ∈ before ++ [claim], Fresh casefold store one)
    (inOrder : InOrder (before ++ [claim])) : storedAs casefold claim .active ∈
      (insertClaims casefold registry store (before ++ [claim])).claims := by
  have isActive := statusOf_of_inOrder consistent noneAbout competing fresh inOrder
    (mem_append_right _ (mem_singleton_self _))
  have latest : ∀ other ∈ before ++ [claim], dateOf other ≤ dateOf claim := by
    intro other member
    rcases mem_append.mp member with earlier | last
    · exact ((pairwise_append.mp inOrder).2.2 other earlier claim (by simp)).le
    · rw [mem_singleton.mp last]
  rw [if_pos latest] at isActive
  have split : insertClaims casefold registry store (before ++ [claim]) =
      applyClaim casefold registry (insertClaims casefold registry store before) claim := by
    simp [insertClaims]
  have consistentBefore : Consistent casefold (insertClaims casefold registry store before) :=
    consistent.insertClaims before
  have notBefore : Fresh casefold (insertClaims casefold registry store before) claim := by
    refine (fresh claim (by simp)).insertClaims consistent fun one member same => ?_
    have distinct := competing.distinct
    rw [map_append, map_singleton] at distinct
    exact (nodup_append.mp distinct).2.2 _ (mem_map_of_mem member) _
      (mem_singleton_self _) same.symm
  have functional := competing.functional
  rw [← (competing.about claim (by simp)).2] at functional
  have inserted : Inserted casefold registry (insertClaims casefold registry store before) claim
      (applyClaim casefold registry (insertClaims casefold registry store before) claim).claims :=
    inserted_applyClaim consistentBefore
  have consistentNow : Consistent casefold (applyClaim casefold registry
      (insertClaims casefold registry store before) claim) := consistentBefore.applyClaim claim
  rw [split] at isActive ⊢
  have status {status : ClaimStatus} (member : storedAs casefold claim status ∈
      (applyClaim casefold registry (insertClaims casefold registry store before) claim).claims) :
      status = .active :=
    some.inj ((statusOf_of_mem consistentNow member).symm.trans isActive)
  generalize (applyClaim casefold registry
    (insertClaims casefold registry store before) claim).claims = now at inserted status ⊢
  cases inserted with
  | same stored => exact absurd notBefore stored
  | additive _ multi => rw [functional] at multi; cases multi
  | newest _ _ _ => exact mem_append_right _ (mem_singleton_self _)
  | late _ _ _ =>
    cases status (mem_append_right _ (mem_singleton_self _))

/-- **The last claim of a chain is the only active one.** -/
theorem activeAbout_chain {before : List Claim}
    (competing : Competing casefold registry subject predicate (before ++ [claim]))
    (fresh : ∀ one ∈ before ++ [claim], Fresh casefold store one)
    (inOrder : InOrder (before ++ [claim])) :
    (insertClaims casefold registry store (before ++ [claim])).activeAbout subject predicate =
      [storedAs casefold claim .active] := by
  have few := length_activeAbout_le_one consistent noneAbout competing fresh prefix_rfl
  have member : storedAs casefold claim .active ∈
      (insertClaims casefold registry store (before ++ [claim])).activeAbout subject predicate := by
    obtain ⟨rfl, rfl⟩ := competing.about claim (by simp)
    refine mem_filter.mpr ⟨last_mem_claims consistent noneAbout competing fresh inOrder, ?_⟩
    simp [about, storedAs]
  cases actives : (insertClaims casefold registry store
      (before ++ [claim])).activeAbout subject predicate with
  | nil =>
    rw [actives] at member
    cases member
  | cons first rest =>
    rw [actives] at few member
    obtain rfl : rest = [] := length_eq_zero_iff.mp (by simpa using few)
    rw [mem_singleton.mp member]

end

/-! ## Queries as of a time -/

/-- The claim that is in force at a time: none that is not later began after it. -/
def IsCurrent (claims : List Claim) (time : String) (claim : Claim) : Prop :=
  claim ∈ claims ∧ dateOf claim ≤ time ∧
    ∀ other ∈ claims, dateOf other ≤ time → dateOf other ≤ dateOf claim

theorem exists_isCurrent {time : String} (member : claim ∈ claims) (begun : dateOf claim ≤ time) :
    ∃ current, IsCurrent claims time current := by
  have some : (claims.toFinset.filter fun one => dateOf one ≤ time).Nonempty :=
    ⟨claim, Finset.mem_filter.mpr ⟨mem_toFinset.mpr member, begun⟩⟩
  obtain ⟨current, isMember, latest⟩ := Finset.exists_max_image _ dateOf some
  obtain ⟨isClaim, isBegun⟩ := Finset.mem_filter.mp isMember
  refine ⟨current, mem_toFinset.mp isClaim, isBegun, fun other isOther otherBegun => ?_⟩
  exact latest other (Finset.mem_filter.mpr ⟨mem_toFinset.mpr isOther, otherBegun⟩)

/-- The query returns the claim in force and nothing else, or nothing if none is. -/
def AnswersAsOf (casefold : String → String) (store : FactStore) (claims : List Claim)
    (time : String) (observation : Observation) : Prop :=
  (∀ claim, IsCurrent claims time claim → ∃ stored ∈ store.claims,
    stored.claimId = claim.claimId casefold ∧
      observation.records = .claims [store.claimRow stored]) ∧
  ((∀ claim ∈ claims, time < dateOf claim) → observation.records = .claims [])

/-- A call of the claim query about the subject and the predicate, as of the time. -/
structure AsOfCall (engine : Engine) (tenant : Tenant) (subject predicate time : String)
    (args : ToolArgs) : Prop where
  known : subject ≠ ""
  timed : time ≠ ""
  aboutSubject : ∃ name, args.subject = some name ∧ name ≠ "" ∧
    resolveName engine tenant name = some subject
  aboutPredicate : ∃ raw, args.predicate = some raw ∧ raw ≠ "" ∧ engine.predicateKey raw = predicate
  anyObject : args.object = none
  asOf : args.asOf = some time
  limited : ∃ limit, args.limit = .ok limit ∧ limit ≠ some 0

/-- Whether the caller may read a claim with the keys of its documents. -/
def MayRead (ctx : AgentContext) (claim : Claim) : Prop :=
  ctx.accessKeys = [] ∨ claim.accessKeys = [] ∨ ∃ key ∈ claim.accessKeys, key ∈ ctx.accessKeys

theorem readable_of_mayRead {ctx : AgentContext} (may : MayRead ctx claim) (status : ClaimStatus) :
    readable ctx.keys (storedAs casefold claim status) = true := by
  unfold readable AgentContext.keys
  split
  · rfl
  · rename_i keyed
    rcases may with none | isPublic | ⟨key, isKey, held⟩
    · exact absurd none keyed
    · simp [storedAs, isPublic]
    · rw [Option.all_some, Bool.or_eq_true, List.any_eq_true]
      exact .inr ⟨key, isKey, by simpa using held⟩

section Query

variable {engine : Engine} {ctx : AgentContext} {tenant : Tenant} {time : String} {args : ToolArgs}

variable (ctx) in
theorem records_asOf (call : AsOfCall engine tenant subject predicate time args) :
    ∃ limit, limit ≠ 0 ∧ (toolClaimQuery engine ctx tenant args).records =
      .claims (((((tenant.facts.activeAbout subject predicate).filter fun stored =>
        validAt time stored && readable ctx.keys stored).insertionSort ranksBefore).take limit).map
          tenant.facts.claimRow) := by
  obtain ⟨name, isName, notEmpty, resolved⟩ := call.aboutSubject
  obtain ⟨raw, isRaw, rawNotEmpty, rfl⟩ := call.aboutPredicate
  obtain ⟨limit, isLimit, notZero⟩ := call.limited
  have named : nonempty name = some name := if_neg notEmpty
  have known : nonempty subject = some subject := if_neg call.known
  have keyed : nonempty raw = some raw := if_neg rawNotEmpty
  have timed : nonempty time = some time := if_neg call.timed
  refine ⟨limit.getD 50, ?_, ?_⟩
  · cases limit with
    | none => decide
    | some count => simpa using notZero
  · have filters : tenant.facts.claims.filter
        (answers engine (claimQueryOf ctx args (some subject) (limit.getD 50))) =
          (tenant.facts.activeAbout subject (engine.predicateKey raw)).filter fun stored =>
            validAt time stored && readable ctx.keys stored := by
      rw [activeAbout, List.filter_filter]
      apply List.filter_congr
      intro stored _
      simp only [answers, claimQueryOf, isRaw, call.anyObject, call.asOf, bind_some, known,
        keyed, timed, bind_none, Option.all_some, all_none, about, if_true,
        Bool.and_true]
      rw [Bool.eq_iff_iff]
      simp only [Bool.and_eq_true]
      tauto
    simp only [toolClaimQuery, isName, bind_some, named, resolved, withLimit, isLimit,
      claimsObservation, queryClaims, filters]
    rfl

/-- What the query returns at the end of a chain: its last claim, if that is valid at the time. -/
theorem records_chain (consistent : Consistent casefold store)
    (noneAbout : store.entries subject predicate = []) {before : List Claim}
    (competing : Competing casefold registry subject predicate (before ++ [claim]))
    (fresh : ∀ one ∈ before ++ [claim], Fresh casefold store one)
    (inOrder : InOrder (before ++ [claim]))
    (isNow : tenant.facts = insertClaims casefold registry store (before ++ [claim]))
    (call : AsOfCall engine tenant subject predicate time args) (may : MayRead ctx claim) :
    (toolClaimQuery engine ctx tenant args).records =
      .claims (if validAt time (storedAs casefold claim .active) then
        [tenant.facts.claimRow (storedAs casefold claim .active)] else []) := by
  obtain ⟨limit, notZero, isRecords⟩ := records_asOf ctx call
  have actives := activeAbout_chain consistent noneAbout competing fresh inOrder
  rw [← isNow] at actives
  rw [isRecords, actives, filter_singleton, readable_of_mayRead may, Bool.and_true]
  cases validAt time (storedAs casefold claim .active) with
  | false => simp
  | true =>
    obtain ⟨more, rfl⟩ := Nat.exists_eq_succ_of_ne_zero notZero
    simp

theorem validAt_iff {date : String} (dated : claim.validFrom = some date) (status : ClaimStatus) :
    validAt time (storedAs casefold claim status) = true ↔
      dateOf claim ≤ time ∧ ∀ till ∈ claim.validTo, time < till := by
  simp [validAt, storedAs, dated, dateOf, Option.all_eq_true]

/-- **The query answers as of a time exactly if the time is before the first date, or the last
claim is valid then.** -/
theorem answersAsOf_iff (consistent : Consistent casefold store)
    (noneAbout : store.entries subject predicate = [])
    (competing : Competing casefold registry subject predicate claims)
    (fresh : ∀ one ∈ claims, Fresh casefold store one) (inOrder : InOrder claims)
    (isNow : tenant.facts = insertClaims casefold registry store claims)
    (call : AsOfCall engine tenant subject predicate time args)
    (may : ∀ claim ∈ claims, MayRead ctx claim) :
    AnswersAsOf casefold tenant.facts claims time (toolClaimQuery engine ctx tenant args) ↔
      (∀ claim ∈ claims, time < dateOf claim) ∨
        ∃ last ∈ claims.getLast?, dateOf last ≤ time ∧ ∀ till ∈ last.validTo, time < till := by
  rcases eq_nil_or_concat claims with rfl | ⟨before, last, rfl⟩
  · obtain ⟨limit, _, isRecords⟩ := records_asOf ctx call
    have actives : tenant.facts.activeAbout subject predicate = [] := by
      rw [isNow]
      exact length_eq_zero_iff.mp ((length_activeAbout _ _ _).trans (by
        rw [insertClaims, foldl_nil, noneAbout]
        rfl))
    rw [actives] at isRecords
    refine iff_of_true ⟨fun claim current => absurd current.1 not_mem_nil, fun _ => ?_⟩ (.inl nofun)
    rw [isRecords, filter_nil, insertionSort_nil, take_nil, map_nil]
  · rw [concat_eq_append] at *
    have isLast : last ∈ before ++ [last] := by simp
    obtain ⟨date, dated, _⟩ := competing.dated last isLast
    have isRecords := records_chain consistent noneAbout competing fresh inOrder isNow call
      (may last isLast)
    have stored : storedAs casefold last .active ∈ tenant.facts.claims := by
      rw [isNow]
      exact last_mem_claims consistent noneAbout competing fresh inOrder
    have latest : ∀ other ∈ before ++ [last], dateOf other ≤ dateOf last := by
      intro other member
      rcases mem_append.mp member with earlier | same
      · exact ((pairwise_append.mp inOrder).2.2 other earlier last (by simp)).le
      · rw [mem_singleton.mp same]
    have lastCurrent (begun : dateOf last ≤ time) : IsCurrent (before ++ [last]) time last :=
      ⟨isLast, begun, fun other member _ => latest other member⟩
    rw [getLast?_concat]
    simp only [mem_some_iff, exists_eq_left']
    have valid : validAt time (storedAs casefold last .active) = true ↔
        dateOf last ≤ time ∧ ∀ till ∈ last.validTo, time < till := validAt_iff dated .active
    rw [← valid]
    constructor
    · intro ⟨current, _⟩
      by_cases isValid : validAt time (storedAs casefold last .active) = true
      · exact .inr isValid
      · refine .inl fun claim member => lt_of_not_ge fun begun => ?_
        obtain ⟨inForce, isCurrent⟩ := exists_isCurrent member begun
        obtain ⟨_, _, _, found⟩ := current inForce isCurrent
        rw [isRecords, if_neg isValid] at found
        cases found
    · rintro (notBegun | isValid)
      · have notValid : ¬validAt time (storedAs casefold last .active) = true := fun isValid =>
          absurd (valid.mp isValid).1 (not_le.mpr (notBegun last isLast))
        refine ⟨fun claim current => ?_, fun _ => by rw [isRecords, if_neg notValid]⟩
        exact absurd current.2.1 (not_le.mpr (notBegun claim current.1))
      · have begun := (valid.mp isValid).1
        refine ⟨fun claim current => ?_, fun notBegun => ?_⟩
        · have sameDate : dateOf claim = dateOf last :=
            le_antisymm (latest claim current.1) (current.2.2 last isLast begun)
          have same : claim = last := competing.eq_of_dateOf_eq current.1 isLast sameDate
          subst same
          exact ⟨_, stored, rfl, by rw [isRecords, if_pos isValid]⟩
        · exact absurd begun (not_le.mpr (notBegun last isLast))

end Query

/-! ## Where the company had its seat -/

/-- An engine whose name index knows entities by their names. -/
def plainEngine : Engine where
  nameIndex entities name limit :=
    ((entities.filter fun entity => entity.canonicalName = some name).map fun entity =>
      (entity, 1)).take limit
  backends := { relevance := fun _ _ => 0 }
  grep _ _ _ := ⟨"", .none⟩
  read _ _ _ := ⟨"", .none⟩

def acmeStore : FactStore where
  entities := [{ entityId := "acme", canonicalName := some "Acme", type := some "ORG" }]

def seats : List Claim := [seat "London" "2010-01-01", seat "Paris" "2020-01-01"]

/-- The tenant once both seats are known. -/
def acmeTenant : Tenant where
  facts := insertClaims asciiCasefold defaultPredicates acmeStore seats

def seatAsOf (time : String) : ToolArgs where
  subject := some "Acme"
  predicate := some "headquartered_in"
  asOf := some time

/-- As of 2015 the query finds nothing, though the company had its seat in London then. -/
theorem not_answersAsOf_seats :
    ¬AnswersAsOf asciiCasefold acmeTenant.facts seats "2015-01-01"
      (toolClaimQuery plainEngine {} acmeTenant (seatAsOf "2015-01-01")) := by
  intro answers
  have inForce : IsCurrent seats "2015-01-01" (seat "London" "2010-01-01") := by
    refine ⟨by decide, by decide +kernel, ?_⟩
    decide +kernel
  obtain ⟨stored, _, _, found⟩ := answers.1 _ inForce
  have nothing : (toolClaimQuery plainEngine {} acmeTenant (seatAsOf "2015-01-01")).records =
      .claims [] := by decide +kernel
  rw [nothing] at found
  cases found

theorem answersAsOf_iff_seats :
    AnswersAsOf asciiCasefold acmeTenant.facts seats "2024-01-01"
        (toolClaimQuery plainEngine {} acmeTenant (seatAsOf "2024-01-01")) ↔
      (∀ claim ∈ seats, "2024-01-01" < dateOf claim) ∨
        ∃ last ∈ seats.getLast?, dateOf last ≤ "2024-01-01" ∧
          ∀ till ∈ last.validTo, "2024-01-01" < till := by
  have call : AsOfCall plainEngine acmeTenant "acme" "headquartered_in" "2024-01-01"
      (seatAsOf "2024-01-01") :=
    { known := by decide
      timed := by decide
      aboutSubject := ⟨"Acme", rfl, by decide, by decide +kernel⟩
      aboutPredicate := ⟨"headquartered_in", rfl, by decide, rfl⟩
      anyObject := rfl
      asOf := rfl
      limited := ⟨none, rfl, nofun⟩ }
  have consistent : Consistent asciiCasefold acmeStore := ⟨nofun, nodup_nil⟩
  have inOrder : InOrder seats := by
    unfold InOrder seats
    decide +kernel
  exact answersAsOf_iff consistent rfl competing_seats (fun _ _ _ => nofun) inOrder rfl call
    fun _ _ => .inl rfl

end FactStore

end RedArchKM.Facts
