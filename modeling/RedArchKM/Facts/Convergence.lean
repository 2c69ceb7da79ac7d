import RedArchKM.Facts.Insertion

/-!
# The order of insertion

Claims that give one subject different values of a functional predicate compete. Inserted one after
the other they are a register, and never more than one of them is active. The register ends with
the latest one active and all others superseded exactly if they came in the order of their stamps
(`converges_iff_inOrder`): a claim that comes after a later one contradicts it, and both stay so.
-/

namespace RedArchKM.Facts

open List

open Lib (Register.Entry)

namespace FactStore

variable {casefold : String → String} {registry : PredicateRegistry} {store : FactStore}
  {subject predicate : String} {claims : List Claim} {claim : Claim}

/-! ## Competing claims -/

/-- Distinct values of a functional predicate for one subject, all with a date of their own. -/
structure Competing (casefold : String → String) (registry : PredicateRegistry)
    (subject predicate : String) (claims : List Claim) : Prop where
  about : ∀ claim ∈ claims, claim.subjectId = subject ∧ claim.predicate = predicate
  functional : registry.cardinality predicate = .functional
  distinct : (claims.map (Claim.claimId casefold)).Nodup
  dated : ∀ claim ∈ claims, ∃ time, claim.validFrom = some time ∧ time ≠ ""
  comparable : (claims.map Claim.validFrom).Nodup

def dateOf (claim : Claim) : String := claim.validFrom.getD ""

theorem orderingStamp_of_dated {time : String} (dated : claim.validFrom = some time)
    (notEmpty : time ≠ "") : orderingStamp claim = some time := by
  simp [orderingStamp, dated, nonempty, notEmpty]

def newEntry (casefold : String → String) (claim : Claim) : Register.Entry ClaimId String :=
  entryOf (storedAs casefold claim .active)

theorem since_newEntry {time : String} (dated : claim.validFrom = some time)
    (notEmpty : time ≠ "") : (newEntry casefold claim).since = dateOf claim := by
  have stamp : orderingStamp (storedAs casefold claim .active).toClaim = some time :=
    orderingStamp_of_dated dated notEmpty
  simp [newEntry, entryOf, stamp, dateOf, dated]

/-! ## Statuses -/

def statusOf (store : FactStore) (claimId : ClaimId) : Option ClaimStatus :=
  (store.claims.find? fun stored => stored.claimId = claimId).map StoredClaim.status

section

variable (consistent : Consistent casefold store)

include consistent

theorem find_claimId {stored : StoredClaim} (member : stored ∈ store.claims) :
    store.claims.find? (fun other => other.claimId = stored.claimId) = some stored := by
  cases found : store.claims.find? (fun other => other.claimId = stored.claimId) with
  | none => simpa using find?_eq_none.mp found stored member
  | some first =>
    have same : first.claimId = stored.claimId := by simpa using find?_some found
    rw [inj_on_of_nodup_map consistent.unique (mem_of_find?_eq_some found) member same]

theorem statusOf_of_mem {stored : StoredClaim} (member : stored ∈ store.claims) :
    store.statusOf stored.claimId = some stored.status := by
  rw [statusOf, find_claimId consistent member]
  rfl

theorem statusOf_of_mem_entries {entry : Register.Entry ClaimId String}
    (member : entry ∈ store.entries subject predicate) :
    ∃ status, store.statusOf entry.key = some status ∧ standingOf status = entry.standing := by
  obtain ⟨stored, isPeer, rfl⟩ := mem_map.mp member
  exact ⟨stored.status, statusOf_of_mem consistent (mem_filter.mp isPeer).1, rfl⟩

end

section

variable (store : FactStore) (subject predicate : String)

def activeAbout : List StoredClaim :=
  store.claims.filter fun stored => about subject predicate stored && stored.status = .active

theorem length_activeAbout : (store.activeAbout subject predicate).length =
      (Lib.Register.active (store.entries subject predicate)).length := by
  have isActive (stored : StoredClaim) :
      decide ((entryOf stored).standing = .active) = decide (stored.status = .active) := by
    cases status : stored.status <;> simp [entryOf, standingOf, status]
  rw [Lib.Register.active, entries, filter_map, length_map, filter_filter, activeAbout]
  congr 1
  apply filter_congr
  intro stored _
  rw [Function.comp_apply, isActive, Bool.and_comm]

end

/-! ## Runs of insertions -/

section

variable (consistent : Consistent casefold store)

include consistent

theorem Consistent.insertClaims (claims : List Claim) :
    Consistent casefold (insertClaims casefold registry store claims) := by
  induction claims generalizing store with
  | nil => exact consistent
  | cons claim rest ih => exact ih (consistent.applyClaim claim)

theorem Fresh.applyClaim {other : Claim} (fresh : Fresh casefold store other)
    (different : other.claimId casefold ≠ claim.claimId casefold) :
    Fresh casefold (applyClaim casefold registry store claim) other := by
  obtain ⟨change, same, effect⟩ := exists_change registry claim consistent
  have kept : ∀ stored ∈ store.claims.map change, stored.claimId ≠ other.claimId casefold := by
    intro stored member
    obtain ⟨before, isBefore, rfl⟩ := mem_map.mp member
    rw [(same before).claimId]
    exact fresh before isBefore
  intro stored member
  rcases effect with ⟨_, isNext⟩ | ⟨_, status, isNext⟩
  · exact kept stored (isNext ▸ member)
  · rw [isNext] at member
    rcases mem_append.mp member with old | new
    · exact kept stored old
    · obtain rfl := mem_singleton.mp new
      exact different.symm

theorem Fresh.insertClaims {other : Claim} (fresh : Fresh casefold store other)
    (different : ∀ claim ∈ claims, other.claimId casefold ≠ claim.claimId casefold) :
    Fresh casefold (insertClaims casefold registry store claims) other := by
  induction claims generalizing store with
  | nil => exact fresh
  | cons claim rest ih =>
    obtain ⟨here, later⟩ := forall_mem_cons.mp different
    exact ih (consistent.applyClaim claim) (fresh.applyClaim consistent here) later

theorem Stamped.applyClaim (stamped : store.Stamped subject predicate)
    (dated : (orderingStamp claim).isSome) :
    (applyClaim casefold registry store claim).Stamped subject predicate := by
  obtain ⟨change, same, effect⟩ := exists_change registry claim consistent
  have kept : ∀ stored ∈ store.claims.map change, about subject predicate stored →
      (orderingStamp stored.toClaim).isSome := by
    intro stored member isAbout
    obtain ⟨before, isBefore, rfl⟩ := mem_map.mp member
    rw [(same before).about] at isAbout
    rw [(same before).orderingStamp]
    exact stamped before isBefore isAbout
  intro stored member isAbout
  rcases effect with ⟨_, isNext⟩ | ⟨_, status, isNext⟩
  · exact kept stored (isNext ▸ member) isAbout
  · rw [isNext] at member
    rcases mem_append.mp member with old | new
    · exact kept stored old isAbout
    · obtain rfl := mem_singleton.mp new
      exact dated

/-- **Competing claims are entered into their register one after the other.** -/
theorem entries_insertClaims (stamped : store.Stamped subject predicate)
    (competing : Competing casefold registry subject predicate claims)
    (fresh : ∀ claim ∈ claims, Fresh casefold store claim) :
    (insertClaims casefold registry store claims).entries subject predicate =
      Lib.Register.enterAll (store.entries subject predicate) (claims.map (newEntry casefold)) := by
  induction claims generalizing store with
  | nil => rfl
  | cons claim rest ih =>
    obtain ⟨rfl, rfl⟩ := competing.about claim mem_cons_self
    obtain ⟨time, dated, notEmpty⟩ := competing.dated claim mem_cons_self
    have isSome : (orderingStamp claim).isSome := by
      rw [orderingStamp_of_dated dated notEmpty]
      rfl
    obtain ⟨notInRest, restDistinct⟩ := nodup_cons.mp competing.distinct
    have restCompeting : Competing casefold registry claim.subjectId claim.predicate rest :=
      { about := fun other member => competing.about other (mem_cons_of_mem _ member)
        functional := competing.functional
        distinct := restDistinct
        dated := fun other member => competing.dated other (mem_cons_of_mem _ member)
        comparable := (nodup_cons.mp competing.comparable).2 }
    have restFresh : ∀ other ∈ rest,
        Fresh casefold (applyClaim casefold registry store claim) other := by
      intro other member
      refine (fresh other (mem_cons_of_mem _ member)).applyClaim consistent ?_
      intro same
      exact notInRest (same ▸ mem_map_of_mem member)
    have entered := entries_applyClaim consistent (fresh claim mem_cons_self)
      competing.functional isSome stamped
    have later := ih (consistent.applyClaim claim) (stamped.applyClaim consistent isSome)
      restCompeting restFresh
    rw [entered] at later
    exact later

end

/-! ## Convergence -/

/-- At every moment at most one of the claims is active, and in the end the latest one is and all
others are superseded. -/
def Converges (casefold : String → String) (registry : PredicateRegistry) (store : FactStore)
    (subject predicate : String) (claims : List Claim) : Prop :=
  (∀ inserted, inserted <+: claims →
    ((insertClaims casefold registry store inserted).activeAbout subject predicate).length ≤ 1) ∧
  ∀ claim ∈ claims, (insertClaims casefold registry store claims).statusOf
    (claim.claimId casefold) =
      some (if ∀ other ∈ claims, dateOf other ≤ dateOf claim then .active else .superseded)

/-- The claims come in the order of their dates. -/
def InOrder (claims : List Claim) : Prop :=
  claims.Pairwise fun earlier later => dateOf earlier < dateOf later

section

variable (competing : Competing casefold registry subject predicate claims)

include competing

theorem Competing.perm {reordered : List Claim} (perm : claims.Perm reordered) :
    Competing casefold registry subject predicate reordered where
  about claim member := competing.about claim (perm.mem_iff.mpr member)
  functional := competing.functional
  distinct := (perm.map _).nodup_iff.mp competing.distinct
  dated claim member := competing.dated claim (perm.mem_iff.mpr member)
  comparable := (perm.map _).nodup_iff.mp competing.comparable

theorem Competing.eq_of_dateOf_eq {other : Claim} (member : claim ∈ claims)
    (isOther : other ∈ claims) (same : dateOf claim = dateOf other) : claim = other := by
  obtain ⟨date, dated, _⟩ := competing.dated claim member
  obtain ⟨otherDate, otherDated, _⟩ := competing.dated other isOther
  refine inj_on_of_nodup_map competing.comparable member isOther ?_
  rw [dateOf, dateOf, dated, otherDated] at same
  rw [dated, otherDated]
  exact congrArg some same

theorem Competing.since (member : claim ∈ claims) :
    (newEntry casefold claim).since = dateOf claim := by
  obtain ⟨time, dated, notEmpty⟩ := competing.dated claim member
  exact since_newEntry dated notEmpty

theorem ascending_iff :
    Lib.Register.Ascending (claims.map (newEntry casefold)) ↔ InOrder claims := by
  rw [Lib.Register.Ascending, pairwise_map, InOrder]
  refine Pairwise.iff_of_mem fun {earlier later} isEarlier isLater => ?_
  rw [competing.since isEarlier, competing.since isLater]

theorem Competing.initial {inserted : List Claim} (isPrefix : inserted <+: claims) :
    Competing casefold registry subject predicate inserted where
  about claim member := competing.about claim (isPrefix.subset member)
  functional := competing.functional
  distinct := competing.distinct.sublist (isPrefix.sublist.map _)
  dated claim member := competing.dated claim (isPrefix.subset member)
  comparable := competing.comparable.sublist (isPrefix.sublist.map _)

end

theorem stamped_of_noneAbout (noneAbout : store.entries subject predicate = []) :
    store.Stamped subject predicate := by
  intro stored member isAbout
  have isEntry : entryOf stored ∈ store.entries subject predicate :=
    mem_map_of_mem (mem_filter.mpr ⟨member, isAbout⟩)
  rw [noneAbout] at isEntry
  cases isEntry

section Converge

variable (consistent : Consistent casefold store)
  (noneAbout : store.entries subject predicate = [])
  (competing : Competing casefold registry subject predicate claims)
  (fresh : ∀ claim ∈ claims, Fresh casefold store claim)
include consistent noneAbout competing fresh

theorem entries_of_noneAbout {inserted : List Claim} (isPrefix : inserted <+: claims) :
    (insertClaims casefold registry store inserted).entries subject predicate =
      Lib.Register.enterAll [] (inserted.map (newEntry casefold)) := by
  rw [entries_insertClaims consistent (stamped_of_noneAbout noneAbout)
    (competing.initial isPrefix) (fun claim member => fresh claim (isPrefix.subset member)),
    noneAbout]

theorem length_activeAbout_le_one {inserted : List Claim} (isPrefix : inserted <+: claims) :
    ((insertClaims casefold registry store inserted).activeAbout subject predicate).length ≤ 1 := by
  rw [length_activeAbout, entries_of_noneAbout consistent noneAbout competing fresh isPrefix]
  exact Lib.Register.length_active_enterAll (Nat.zero_le _) _

theorem statusOf_of_inOrder (inOrder : InOrder claims) (member : claim ∈ claims) :
    (insertClaims casefold registry store claims).statusOf (claim.claimId casefold) =
      some (if ∀ other ∈ claims, dateOf other ≤ dateOf claim then .active else .superseded) := by
  have ascending := (ascending_iff competing).mpr inOrder
  have consistentNow : Consistent casefold (insertClaims casefold registry store claims) :=
    consistent.insertClaims claims
  obtain ⟨entry, isEntry, sameKey, standing⟩ := Lib.Register.exists_mem_timeline ascending
    (mem_map_of_mem member)
  rw [← Lib.Register.enterAll_of_ascending ascending,
    ← entries_of_noneAbout consistent noneAbout competing fresh prefix_rfl] at isEntry
  obtain ⟨status, isStatus, isStanding⟩ := statusOf_of_mem_entries consistentNow isEntry
  have sameTest : (∀ other ∈ claims.map (newEntry casefold),
      other.since ≤ (newEntry casefold claim).since) ↔
        ∀ other ∈ claims, dateOf other ≤ dateOf claim := by
    rw [forall_mem_map, competing.since member]
    exact forall₂_congr fun other isOther => by rw [competing.since isOther]
  have key : entry.key = claim.claimId casefold := sameKey
  rw [← key, isStatus]
  rw [standing] at isStanding
  congr 1
  apply standingOf_injective
  rw [isStanding]
  by_cases latest : ∀ other ∈ claims, dateOf other ≤ dateOf claim
  · rw [if_pos latest, if_pos (sameTest.mpr latest)]
    rfl
  · rw [if_neg latest, if_neg (mt sameTest.mp latest)]
    rfl

theorem exists_contradicted_claim (disorder : ¬InOrder claims) :
    ∃ claim ∈ claims, (insertClaims casefold registry store claims).statusOf
      (claim.claimId casefold) = some .contradicted := by
  have consistentNow : Consistent casefold (insertClaims casefold registry store claims) :=
    consistent.insertClaims claims
  obtain ⟨entry, member, isContradicted⟩ :=
    Lib.Register.exists_contradicted (mt (ascending_iff competing).mp disorder)
  have isKey : entry.key ∈ claims.map (Claim.claimId casefold) := by
    have inKeys : entry.key ∈ (Lib.Register.enterAll [] (claims.map (newEntry casefold))).map
        Register.Entry.key := mem_map_of_mem member
    rw [Lib.Register.map_key_enterAll, map_nil, nil_append, map_map] at inKeys
    exact inKeys
  obtain ⟨claim, isClaim, sameKey⟩ := mem_map.mp isKey
  rw [← entries_of_noneAbout consistent noneAbout competing fresh prefix_rfl] at member
  obtain ⟨status, isStatus, standing⟩ := statusOf_of_mem_entries consistentNow member
  refine ⟨claim, isClaim, ?_⟩
  rw [sameKey, isStatus]
  congr 1
  apply standingOf_injective
  rw [standing, isContradicted]
  rfl

/-- **Competing claims converge exactly if they are inserted in the order of their dates.** -/
theorem converges_iff_inOrder :
    Converges casefold registry store subject predicate claims ↔ InOrder claims := by
  constructor
  · intro converges
    by_contra disorder
    obtain ⟨claim, member, contradicted⟩ :=
      exists_contradicted_claim consistent noneAbout competing fresh disorder
    rw [converges.2 claim member] at contradicted
    split at contradicted <;> cases contradicted
  · intro inOrder
    exact ⟨fun _ => length_activeAbout_le_one consistent noneAbout competing fresh,
      fun _ => statusOf_of_inOrder consistent noneAbout competing fresh inOrder⟩

end Converge

/-! ## A company that moves -/

/-- Case folding of ASCII text. -/
def asciiCasefold (text : String) : String := String.ofList (text.toList.map Char.toLower)

/-- Where a company has its seat since a date. -/
def seat (city date : String) : Claim where
  subjectId := "acme"
  predicate := "headquartered_in"
  object := .literal .text city
  validFrom := some date
  recordedAt := "2024-06-01T00:00:00+00:00"

theorem competing_seats : Competing asciiCasefold defaultPredicates "acme" "headquartered_in"
    [seat "London" "2010-01-01", seat "Paris" "2020-01-01"] where
  about := by decide
  functional := by decide
  distinct := by decide +kernel
  dated := by
    intro claim member
    rcases mem_cons.mp member with rfl | later
    · exact ⟨_, rfl, by decide⟩
    · obtain rfl := mem_singleton.mp later
      exact ⟨_, rfl, by decide⟩
  comparable := by decide

/-- The older seat, inserted after the newer one, leaves both contradicted. -/
theorem not_converges_seats :
    Competing asciiCasefold defaultPredicates "acme" "headquartered_in"
        [seat "Paris" "2020-01-01", seat "London" "2010-01-01"] ∧
      ¬Converges asciiCasefold defaultPredicates {} "acme" "headquartered_in"
        [seat "Paris" "2020-01-01", seat "London" "2010-01-01"] := by
  refine ⟨competing_seats.perm (Perm.swap _ _ _), fun converges => ?_⟩
  have statuses := converges.2 (seat "Paris" "2020-01-01") (by decide)
  revert statuses
  decide +kernel

theorem converges_iff_inOrder_seats :
    Converges asciiCasefold defaultPredicates {} "acme" "headquartered_in"
        [seat "London" "2010-01-01", seat "Paris" "2020-01-01"] ↔
      InOrder [seat "London" "2010-01-01", seat "Paris" "2020-01-01"] :=
  converges_iff_inOrder Consistent.empty rfl competing_seats fun _ _ _ => nofun

end FactStore

end RedArchKM.Facts
