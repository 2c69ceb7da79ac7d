import Mathlib.Data.List.Nodup

/-!
# A table with a unique key under concurrent transactions

The table holds the keys of its rows: those committed, and for each session those its open
transaction has inserted, before its savepoint (`kept`) and since (`fresh`). An insert that does
nothing on conflict sees the committed rows and its own; while another transaction holds an
uncommitted row of the same key it waits, which a step function shows by refusing the step. So
no key is ever held twice (`Distinct`), and no row is lost but by a rollback.
-/

namespace RedArchKM.Lib

open List Function

structure UniqueTable (ω κ : Type*) where
  committed : List κ := []
  kept : ω → List κ := fun _ => []
  fresh : ω → List κ := fun _ => []

namespace UniqueTable

variable {ω κ : Type*}

def pending (table : UniqueTable ω κ) (session : ω) : List κ :=
  table.kept session ++ table.fresh session

def seen (table : UniqueTable ω κ) (session : ω) : List κ :=
  table.committed ++ table.pending session

/-- No key is held twice, and no two sessions hold the same one. -/
structure Distinct (table : UniqueTable ω κ) : Prop where
  committed : table.committed.Nodup
  nodup : ∀ session, (table.seen session).Nodup
  apart : ∀ session other, session ≠ other →
    List.Disjoint (table.pending session) (table.pending other)

theorem Distinct.of_sublist {table smaller : UniqueTable ω κ} (distinct : table.Distinct)
    (committed : smaller.committed = table.committed)
    (fewer : ∀ reader, (smaller.pending reader).Sublist (table.pending reader)) :
    smaller.Distinct where
  committed := committed ▸ distinct.committed
  nodup reader := by
    refine (distinct.nodup reader).sublist ?_
    rw [seen, seen, committed]
    exact (Sublist.refl _).append (fewer reader)
  apart reader other different := by
    intro key isReader isOther
    exact distinct.apart reader other different ((fewer reader).subset isReader)
      ((fewer other).subset isOther)

variable [DecidableEq ω]

section Operations

variable (table : UniqueTable ω κ) (session : ω)

/-- Insert a row under a key, or do nothing if there is one. -/
def insertAbsent [DecidableEq κ] (key : κ) : UniqueTable ω κ :=
  if key ∈ table.seen session then table
  else { table with fresh := update table.fresh session (table.fresh session ++ [key]) }

/-- Keep what was inserted since the savepoint. -/
def release : UniqueTable ω κ :=
  { table with
    kept := update table.kept session (table.pending session)
    fresh := update table.fresh session [] }

/-- Undo what was inserted since the savepoint. -/
def rollbackTo : UniqueTable ω κ :=
  { table with fresh := update table.fresh session [] }

/-- End the transaction of the session and forget its rows. -/
def rollback : UniqueTable ω κ :=
  { table with
    kept := update table.kept session []
    fresh := update table.fresh session [] }

/-- End the transaction of the session and keep its rows. -/
def commit : UniqueTable ω κ :=
  { table.rollback session with committed := table.seen session }

end Operations

section Lemmas

variable {table : UniqueTable ω κ} {session other : ω} {key : κ}

@[simp] theorem pending_release : (table.release session).pending = table.pending := by
  funext reader
  by_cases same : reader = session
  · subst same
    simp [pending, release]
  · simp [pending, release, same]

theorem pending_rollbackTo_of_ne (apart : other ≠ session) :
    (table.rollbackTo session).pending other = table.pending other := by
  simp [pending, rollbackTo, apart]

theorem pending_rollback_of_ne (apart : other ≠ session) :
    (table.rollback session).pending other = table.pending other := by
  simp [pending, rollback, apart]

@[simp] theorem pending_rollback_self : (table.rollback session).pending session = [] := by
  simp [pending, rollback]

@[simp] theorem pending_commit : (table.commit session).pending = (table.rollback session).pending :=
  rfl

theorem pending_rollbackTo_sublist (reader : ω) :
    ((table.rollbackTo session).pending reader).Sublist (table.pending reader) := by
  by_cases same : reader = session
  · subst same
    simp [pending, rollbackTo]
  · rw [pending_rollbackTo_of_ne same]

theorem pending_rollback_sublist (reader : ω) :
    ((table.rollback session).pending reader).Sublist (table.pending reader) := by
  by_cases same : reader = session
  · subst same
    simp
  · rw [pending_rollback_of_ne same]

variable [DecidableEq κ]

theorem pending_insertAbsent_of_ne (apart : other ≠ session) :
    (table.insertAbsent session key).pending other = table.pending other := by
  unfold insertAbsent
  split
  · rfl
  · simp [pending, apart]

theorem pending_insertAbsent_self (absent : key ∉ table.seen session) :
    (table.insertAbsent session key).pending session = table.pending session ++ [key] := by
  simp [insertAbsent, absent, pending]

@[simp] theorem committed_insertAbsent :
    (table.insertAbsent session key).committed = table.committed := by
  unfold insertAbsent
  split <;> rfl

@[simp] theorem kept_insertAbsent : (table.insertAbsent session key).kept = table.kept := by
  unfold insertAbsent
  split <;> rfl

theorem mem_seen_insertAbsent : key ∈ (table.insertAbsent session key).seen session := by
  by_cases present : key ∈ table.seen session
  · rwa [insertAbsent, if_pos present]
  · rw [seen, pending_insertAbsent_self present]
    simp

theorem seen_subset_insertAbsent (reader : ω) :
    table.seen reader ⊆ (table.insertAbsent session key).seen reader := by
  intro row sees
  by_cases present : key ∈ table.seen session
  · rwa [insertAbsent, if_pos present]
  · by_cases same : reader = session
    · subst same
      rw [seen, pending_insertAbsent_self present, committed_insertAbsent, ← append_assoc]
      exact mem_append_left _ sees
    · rwa [seen, pending_insertAbsent_of_ne same, committed_insertAbsent]

theorem mem_pending_of_insertAbsent {reader : ω} {row : κ}
    (holds : row ∈ (table.insertAbsent session key).pending reader) :
    row ∈ table.pending reader ∨ row = key := by
  by_cases present : key ∈ table.seen session
  · rw [insertAbsent, if_pos present] at holds
    exact .inl holds
  · by_cases same : reader = session
    · subst same
      rw [pending_insertAbsent_self present] at holds
      exact (mem_append.mp holds).imp_right mem_singleton.mp
    · rw [pending_insertAbsent_of_ne same] at holds
      exact .inl holds

theorem fresh_insertAbsent_of_ne (apart : other ≠ session) :
    (table.insertAbsent session key).fresh other = table.fresh other := by
  unfold insertAbsent
  split
  · rfl
  · exact update_of_ne apart _ _

/-! ## No key twice -/

/-- **An insert that has waited for the others' rows of the key keeps the keys distinct.** -/
theorem Distinct.insertAbsent (distinct : table.Distinct)
    (free : ∀ reader, reader ≠ session → key ∉ table.pending reader) :
    (table.insertAbsent session key).Distinct := by
  by_cases present : key ∈ table.seen session
  · rwa [UniqueTable.insertAbsent, if_pos present]
  · have notCommitted : key ∉ table.committed := fun member =>
      present (mem_append_left _ member)
    have apart : ∀ other, other ≠ session →
        List.Disjoint ((table.insertAbsent session key).pending session)
          ((table.insertAbsent session key).pending other) := by
      intro other different row isSession isOther
      rw [pending_insertAbsent_of_ne different] at isOther
      rw [pending_insertAbsent_self present] at isSession
      rcases mem_append.mp isSession with old | new
      · exact distinct.apart session other (Ne.symm different) old isOther
      · rw [mem_singleton.mp new] at isOther
        exact free other different isOther
    refine ⟨by rw [committed_insertAbsent]; exact distinct.committed, fun reader => ?_,
      fun reader other different => ?_⟩
    · by_cases same : reader = session
      · subst same
        rw [seen, pending_insertAbsent_self present, committed_insertAbsent, ← append_assoc]
        exact nodup_append.mpr ⟨distinct.nodup reader, nodup_singleton key,
          fun row isOld new isNew => by
            rw [mem_singleton.mp isNew]
            rintro rfl
            exact present isOld⟩
      · rw [seen, pending_insertAbsent_of_ne same, committed_insertAbsent]
        exact distinct.nodup reader
    · by_cases first : reader = session
      · subst first
        exact apart other (Ne.symm different)
      · by_cases second : other = session
        · subst second
          exact fun row isReader isOther => apart reader different isOther isReader
        · rw [pending_insertAbsent_of_ne first, pending_insertAbsent_of_ne second]
          exact distinct.apart reader other different

omit [DecidableEq κ] in
theorem Distinct.release (distinct : table.Distinct) : (table.release session).Distinct :=
  distinct.of_sublist rfl fun reader => by rw [pending_release]

omit [DecidableEq κ] in
theorem Distinct.rollbackTo (distinct : table.Distinct) : (table.rollbackTo session).Distinct :=
  distinct.of_sublist rfl pending_rollbackTo_sublist

omit [DecidableEq κ] in
theorem Distinct.rollback (distinct : table.Distinct) : (table.rollback session).Distinct :=
  distinct.of_sublist rfl pending_rollback_sublist

omit [DecidableEq κ] in
theorem Distinct.commit (distinct : table.Distinct) : (table.commit session).Distinct where
  committed := distinct.nodup session
  nodup reader := by
    by_cases same : reader = session
    · subst same
      rw [seen, pending_commit, pending_rollback_self, append_nil]
      exact distinct.nodup reader
    · rw [seen, pending_commit, pending_rollback_of_ne same]
      refine nodup_append.mpr ⟨distinct.nodup session,
        (nodup_append.mp (distinct.nodup reader)).2.1, ?_⟩
      rintro row sees held holds rfl
      rcases mem_append.mp sees with committed | pending
      · exact (nodup_append.mp (distinct.nodup reader)).2.2 row committed row holds rfl
      · exact distinct.apart reader session same holds pending
  apart := distinct.rollback.apart

end Lemmas

end UniqueTable

end RedArchKM.Lib
