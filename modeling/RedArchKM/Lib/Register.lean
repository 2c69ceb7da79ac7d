import Mathlib.Data.List.Induction
import Mathlib.Order.Lattice
import Mathlib.Order.Nat

/-!
# Registers with a history

A register holds one current value and keeps those before it. Every value comes with the time since
which it holds. A value that is entered after all active ones supersedes them; one that is not is
entered as contradicted, and so are the active values that it does not come after.

Values that are entered in the order of their times leave a timeline, each value ending where the
next one begins (`enterAll_of_ascending`). Any other order leaves a value contradicted for good
(`exists_contradicted`).
-/

namespace RedArchKM.Lib.Register

open List

/-! ## Entries -/

inductive Standing where
  | active
  | superseded
  | contradicted
  /-- Taken back, whatever it was. -/
  | withdrawn
deriving DecidableEq

/-- A value with the time since which it holds, and the one until which it does, if it has ended. -/
structure Entry (κ τ : Type*) where
  key : κ
  since : τ
  till : Option τ := none
  standing : Standing := .active

variable {κ τ : Type*}

def supersede (new old : Entry κ τ) : Entry κ τ :=
  if old.standing = .active then
    { old with standing := .superseded, till := old.till.or (some new.since) }
  else old

def active (entries : List (Entry κ τ)) : List (Entry κ τ) :=
  entries.filter fun entry => entry.standing = .active

def timeline : List (Entry κ τ) → List (Entry κ τ)
  | [] => []
  | [last] => [{ last with standing := .active }]
  | first :: next :: rest =>
    { first with standing := .superseded, till := first.till.or (some next.since) } ::
      timeline (next :: rest)

section Enter

variable [LinearOrder τ]

def contradict (new old : Entry κ τ) : Entry κ τ :=
  if old.standing = .active ∧ ¬old.since < new.since then { old with standing := .contradicted }
  else old

def enter (entries : List (Entry κ τ)) (new : Entry κ τ) : List (Entry κ τ) :=
  if ∀ old ∈ entries, old.standing = .active → old.since < new.since then
    entries.map (supersede new) ++ [{ new with standing := .active }]
  else entries.map (contradict new) ++ [{ new with standing := .contradicted }]

def enterAll (entries new : List (Entry κ τ)) : List (Entry κ τ) := new.foldl enter entries

@[simp] theorem enterAll_nil (entries : List (Entry κ τ)) : enterAll entries [] = entries := rfl

theorem enterAll_concat (entries new : List (Entry κ τ)) (last : Entry κ τ) :
    enterAll entries (new ++ [last]) = enter (enterAll entries new) last := by
  simp [enterAll]

@[simp] theorem map_key_enter (entries : List (Entry κ τ)) (new : Entry κ τ) :
    (enter entries new).map Entry.key = entries.map Entry.key ++ [new.key] := by
  have superseded (old : Entry κ τ) : (supersede new old).key = old.key := by
    unfold supersede
    split <;> rfl
  have contradicted (old : Entry κ τ) : (contradict new old).key = old.key := by
    unfold contradict
    split <;> rfl
  unfold enter
  split <;> simp [superseded, contradicted]

theorem map_key_enterAll (entries new : List (Entry κ τ)) :
    (enterAll entries new).map Entry.key = entries.map Entry.key ++ new.map Entry.key := by
  induction new generalizing entries with
  | nil => simp
  | cons first rest ih =>
    rw [enterAll, foldl_cons, ← enterAll, ih, map_key_enter]
    simp

end Enter

/-! ## Active entries -/

theorem active_map_supersede (new : Entry κ τ) (entries : List (Entry κ τ)) :
    active (entries.map (supersede new)) = [] := by
  rw [active, filter_eq_nil_iff]
  intro entry member isActive
  obtain ⟨old, _, rfl⟩ := mem_map.mp member
  unfold supersede at isActive
  split at isActive
  · simp at isActive
  · exact absurd (of_decide_eq_true isActive) ‹_›

section Active

variable [LinearOrder τ]

theorem length_active_map_contradict (new : Entry κ τ) (entries : List (Entry κ τ)) :
    (active (entries.map (contradict new))).length ≤ (active entries).length := by
  rw [active, active, filter_map, length_map, ← countP_eq_length_filter, ← countP_eq_length_filter]
  apply countP_mono_left
  intro old _ isActive
  simp only [Function.comp_apply, contradict, decide_eq_true_eq] at isActive ⊢
  split at isActive
  · cases isActive
  · exact of_decide_eq_true isActive

variable {entries : List (Entry κ τ)}

/-- **At most one entry is active.** -/
theorem length_active_enter (few : (active entries).length ≤ 1) (new : Entry κ τ) :
    (active (enter entries new)).length ≤ 1 := by
  unfold enter
  split
  · have none := active_map_supersede new entries
    rw [active] at none
    simp [active, none]
  · have fewer := length_active_map_contradict new entries
    simpa [active] using fewer.trans few

theorem length_active_enterAll (few : (active entries).length ≤ 1) (new : List (Entry κ τ)) :
    (active (enterAll entries new)).length ≤ 1 := by
  induction new generalizing entries with
  | nil => exact few
  | cons first rest ih => exact ih (length_active_enter few first)

/-! ## Contradicted entries -/

theorem mem_enter_of_contradicted {entry : Entry κ τ} (member : entry ∈ entries)
    (isContradicted : entry.standing = .contradicted) (new : Entry κ τ) :
    entry ∈ enter entries new := by
  have notActive : entry.standing ≠ .active := by rw [isContradicted]; decide
  unfold enter
  split
  · refine mem_append_left _ (mem_map.mpr ⟨entry, member, ?_⟩)
    rw [supersede, if_neg notActive]
  · refine mem_append_left _ (mem_map.mpr ⟨entry, member, ?_⟩)
    rw [contradict, if_neg fun both => notActive both.1]

end Active

/-! ## Timelines -/

theorem exists_last_of_active {entries : List (Entry κ τ)} {entry : Entry κ τ}
    (member : entry ∈ timeline entries) (isActive : entry.standing = .active) :
    ∃ before last, entries = before ++ [last] ∧ entry = { last with standing := .active } := by
  induction entries with
  | nil => cases member
  | cons first rest ih =>
    cases rest with
    | nil => exact ⟨[], first, rfl, mem_singleton.mp member⟩
    | cons next rest =>
      rcases mem_cons.mp member with rfl | later
      · cases isActive
      · obtain ⟨before, last, split, same⟩ := ih later
        exact ⟨first :: before, last, congrArg (first :: ·) split, same⟩

theorem last_mem_timeline (before : List (Entry κ τ)) (last : Entry κ τ) :
    { last with standing := .active } ∈ timeline (before ++ [last]) := by
  induction before with
  | nil => exact mem_singleton_self _
  | cons first rest ih =>
    cases rest with
    | nil => exact mem_cons_of_mem _ ih
    | cons next rest => exact mem_cons_of_mem _ ih

theorem timeline_concat (entries : List (Entry κ τ)) (new : Entry κ τ) :
    (timeline entries).map (supersede new) ++ [{ new with standing := .active }] =
      timeline (entries ++ [new]) := by
  induction entries with
  | nil => rfl
  | cons first rest ih =>
    cases rest with
    | nil => rfl
    | cons next rest =>
      exact congrArg _ ih

section Order

variable [LinearOrder τ]

theorem enter_timeline {before : List (Entry κ τ)} {last new : Entry κ τ}
    (later : last.since < new.since) :
    enter (timeline (before ++ [last])) new = timeline (before ++ [last] ++ [new]) := by
  rw [enter, if_pos, timeline_concat]
  intro old member isActive
  obtain ⟨_, last', split, rfl⟩ := exists_last_of_active member isActive
  obtain rfl : last = last' := by simpa using (append_inj' split rfl).2
  exact later

/-! ## The order of entering -/

/-- In the order of their times. -/
def Ascending (entries : List (Entry κ τ)) : Prop :=
  entries.Pairwise fun earlier later => earlier.since < later.since

variable {entries : List (Entry κ τ)}

/-- **Entries in the order of their times leave a timeline.** -/
theorem enterAll_of_ascending (ascending : Ascending entries) :
    enterAll [] entries = timeline entries := by
  induction entries using List.reverseRecOn with
  | nil => rfl
  | append_singleton before new ih =>
    obtain ⟨first, _, earlier⟩ := pairwise_append.mp ascending
    rw [enterAll_concat, ih first]
    rcases eq_nil_or_concat before with rfl | ⟨rest, last, rfl⟩
    · rfl
    · rw [concat_eq_append] at *
      exact enter_timeline (earlier last (by simp) new (by simp))

/-- **Entries in any other order leave one contradicted.** -/
theorem exists_contradicted (disorder : ¬Ascending entries) :
    ∃ entry ∈ enterAll [] entries, entry.standing = .contradicted := by
  induction entries using List.reverseRecOn with
  | nil => exact absurd Pairwise.nil disorder
  | append_singleton before new ih =>
    rw [enterAll_concat]
    by_cases ascending : Ascending before
    · rw [enterAll_of_ascending ascending, enter, if_neg]
      · exact ⟨_, mem_append_right _ (mem_singleton_self _), rfl⟩
      · intro allEarlier
        refine disorder (pairwise_append.mpr ⟨ascending, pairwise_singleton _ _, ?_⟩)
        intro earlier member later isNew
        obtain rfl := mem_singleton.mp isNew
        rcases eq_nil_or_concat before with rfl | ⟨rest, last, rfl⟩
        · cases member
        · rw [concat_eq_append] at *
          have lastEarlier : last.since < later.since :=
            allEarlier { last with standing := .active } (last_mem_timeline rest last) rfl
          rcases mem_append.mp member with old | isLast
          · exact ((pairwise_append.mp ascending).2.2 earlier old last (by simp)).trans lastEarlier
          · obtain rfl := mem_singleton.mp isLast
            exact lastEarlier
    · obtain ⟨entry, member, isContradicted⟩ := ih ascending
      exact ⟨entry, mem_enter_of_contradicted member isContradicted new, isContradicted⟩

theorem exists_mem_timeline (ascending : Ascending entries) {entry : Entry κ τ}
    (member : entry ∈ entries) :
    ∃ past ∈ timeline entries, past.key = entry.key ∧
      past.standing = if ∀ other ∈ entries, other.since ≤ entry.since then .active
        else .superseded := by
  induction entries with
  | nil => cases member
  | cons first rest ih =>
    obtain ⟨earlier, ordered⟩ := pairwise_cons.mp ascending
    cases rest with
    | nil =>
      obtain rfl := mem_singleton.mp member
      refine ⟨{ entry with standing := .active }, mem_singleton_self _, rfl, ?_⟩
      rw [if_pos]
      intro other isEntry
      rw [mem_singleton.mp isEntry]
    | cons next rest =>
      rcases mem_cons.mp member with rfl | later
      · refine ⟨_, mem_cons_self, rfl, ?_⟩
        rw [if_neg]
        intro allEarlier
        exact absurd (allEarlier next (by simp)) (not_le.mpr (earlier next (by simp)))
      · obtain ⟨past, isPast, sameKey, standing⟩ := ih ordered later
        refine ⟨past, mem_cons_of_mem _ isPast, sameKey, standing.trans ?_⟩
        have same : (∀ other ∈ next :: rest, other.since ≤ entry.since) ↔
            ∀ other ∈ first :: next :: rest, other.since ≤ entry.since := by
          constructor
          · intro all other isEntry
            rcases mem_cons.mp isEntry with rfl | isLater
            · exact (earlier entry later).le
            · exact all other isLater
          · exact fun all other isEntry => all other (mem_cons_of_mem _ isEntry)
        simp only [same]

end Order

end RedArchKM.Lib.Register
