import Mathlib.Data.List.Basic

/-!
# Rows under READ COMMITTED

A row has the version that is committed and at most one that a transaction has written and not
yet committed. That transaction holds the row: it reads its own version, and another one that
wants to write waits until the version is committed or rolled back.

Which transaction holds a row is often told by how far the transactions have come (`Owned`): a
step of one of them keeps this by reading, by writing a row that it did not hold, or by releasing
what it holds.
-/

namespace RedArchKM.Lib

open Option

structure Row (α : Type*) where
  committed : α
  /-- The transaction that holds the row, and the version it has written. -/
  draft : Option (Nat × α) := none

namespace Row

variable {α τ : Type*}

section

variable (row : Row α) (index : Nat)

/-- What a transaction reads. -/
def seen : α :=
  match row.draft with
  | some (holder, version) => if holder = index then version else row.committed
  | none => row.committed

/-- The row once a transaction has changed it; nothing while another one holds it. -/
def write (change : α → α) : Option (Row α) :=
  match row.draft with
  | none => some { row with draft := some (index, change row.committed) }
  | some (holder, version) =>
    if holder = index then some { row with draft := some (index, change version) } else none

/-- What the commit of a transaction makes of the row. -/
def commit : Row α :=
  match row.draft with
  | some (holder, version) => if holder = index then { committed := version } else row
  | none => row

/-- What the end of a transaction without a commit makes of the row. -/
def rollback : Row α :=
  match row.draft with
  | some (holder, _) => if holder = index then { committed := row.committed } else row
  | none => row

def heldBy : Bool :=
  match row.draft with
  | some (holder, _) => holder = index
  | none => false

end

variable {row next : Row α} {index : Nat} {change : α → α} {version : α}

theorem heldBy_iff : row.heldBy index = true ↔ ∃ version, row.draft = some (index, version) := by
  unfold heldBy
  cases row.draft with
  | none => simp
  | some held =>
    simp [Prod.ext_iff]

theorem seen_of_not_held (free : row.heldBy index = false) : row.seen index = row.committed := by
  unfold heldBy at free
  unfold seen
  cases held : row.draft with
  | none => rfl
  | some holding =>
    simp only [held, decide_eq_false_iff_not] at free
    exact if_neg free

theorem commit_of_draft (held : row.draft = some (index, version)) :
    row.commit index = { committed := version } := by
  simp [commit, held]

theorem commit_of_not_held (free : row.heldBy index = false) : row.commit index = row := by
  unfold heldBy at free
  unfold commit
  cases held : row.draft with
  | none => rfl
  | some holding =>
    simp only [held, decide_eq_false_iff_not] at free
    exact if_neg free

@[simp] theorem committed_rollback : (row.rollback index).committed = row.committed := by
  unfold rollback
  split
  · split <;> rfl
  · rfl

section

variable (written : row.write index change = some next)

include written

theorem committed_write : next.committed = row.committed := by
  unfold write at written
  split at written
  · cases written
    rfl
  · split at written
    · cases written
      rfl
    · cases written

theorem draft_write (free : row.heldBy index = false) :
    row.draft = none ∧ next = { row with draft := some (index, change row.committed) } := by
  unfold write at written
  unfold heldBy at free
  cases held : row.draft with
  | none =>
    simp only [held] at written
    exact ⟨rfl, (some.inj written).symm⟩
  | some holding =>
    simp only [held, decide_eq_false_iff_not] at written free
    rw [if_neg free] at written
    cases written

theorem exists_draft_write : ∃ version, next.draft = some (index, change version) := by
  unfold write at written
  split at written
  · cases written
    exact ⟨row.committed, rfl⟩
  · split at written
    · cases written
      exact ⟨_, rfl⟩
    · cases written

end

theorem draft_of_rollback {other : Nat} (held : (row.rollback index).draft = some (other, version)) :
    row.draft = some (other, version) := by
  unfold rollback at held
  split at held
  · split at held
    · cases held
    · exact held
  · exact held

theorem draft_of_commit {other : Nat} (held : (row.commit index).draft = some (other, version)) :
    row.draft = some (other, version) := by
  unfold commit at held
  split at held
  · split at held
    · cases held
    · exact held
  · exact held

def Owned (expected : τ → Option α) (row : Row α) (transactions : List τ) : Prop :=
  ∀ index version, row.draft = some (index, version) ↔
    ∃ transaction, transactions[index]? = some transaction ∧ expected transaction = some version

variable {expected : τ → Option α} {transactions : List τ} {before after : τ}

section

variable (owned : Owned expected row transactions) (found : transactions[index]? = some before)

include owned found

theorem Owned.not_held (none : expected before = none) : row.heldBy index = false := by
  refine Bool.eq_false_iff.mpr fun held => ?_
  obtain ⟨version, draft⟩ := heldBy_iff.mp held
  obtain ⟨transaction, here, wrote⟩ := (owned index version).mp draft
  obtain rfl : before = transaction := some.inj (found.symm.trans here)
  rw [none] at wrote
  cases wrote

theorem Owned.draft (wrote : expected before = some version) :
    row.draft = some (index, version) := (owned index version).mpr ⟨before, found, wrote⟩

end

theorem exists_set (found : transactions[index]? = some before) (other : Nat) (version : α) :
    (∃ transaction, (transactions.set index after)[other]? = some transaction ∧
        expected transaction = some version) ↔
      (other = index ∧ expected after = some version) ∨
        (other ≠ index ∧ ∃ transaction, transactions[other]? = some transaction ∧
          expected transaction = some version) := by
  obtain ⟨inside, _⟩ := List.getElem?_eq_some_iff.mp found
  by_cases same : other = index
  · subst same
    rw [List.getElem?_set_self inside]
    simp
  · rw [List.getElem?_set_ne (fun isIndex => same isIndex.symm)]
    simp [same]

section

variable (owned : Owned expected row transactions) (found : transactions[index]? = some before)

include owned found

theorem Owned.keep (same : expected after = expected before) :
    Owned expected row (transactions.set index after) := by
  intro other version
  rw [exists_set found, owned other version]
  constructor
  · rintro ⟨transaction, here, wrote⟩
    by_cases isIndex : other = index
    · subst isIndex
      obtain rfl : before = transaction := some.inj (found.symm.trans here)
      exact .inl ⟨rfl, same ▸ wrote⟩
    · exact .inr ⟨isIndex, transaction, here, wrote⟩
  · rintro (⟨rfl, wrote⟩ | ⟨_, there⟩)
    · exact ⟨before, found, same ▸ wrote⟩
    · exact there

theorem Owned.write (none : expected before = none) (written : row.write index change = some next)
    (wrote : expected after = some (change row.committed)) :
    Owned expected next (transactions.set index after) := by
  obtain ⟨free, rfl⟩ := draft_write written (owned.not_held found none)
  intro other version
  rw [exists_set found]
  constructor
  · intro same
    cases same
    exact .inl ⟨rfl, wrote⟩
  · rintro (⟨rfl, expects⟩ | ⟨_, there⟩)
    · rw [wrote] at expects
      rw [some.inj expects]
    · have held := (owned other version).mpr there
      rw [free] at held
      cases held

theorem Owned.release (none : expected after = none) :
    Owned expected (row.rollback index) (transactions.set index after) := by
  intro other version
  rw [exists_set found]
  unfold rollback
  constructor
  · intro held
    by_cases mine : row.heldBy index = true
    · obtain ⟨written, draft⟩ := heldBy_iff.mp mine
      simp [draft] at held
    · have same : row.rollback index = row := by
        unfold rollback
        cases draft : row.draft with
        | none => rfl
        | some holding =>
          obtain ⟨holder, written⟩ := holding
          refine if_neg fun isIndex => mine (heldBy_iff.mpr ⟨written, ?_⟩)
          rw [draft, isIndex]
      have draft : row.draft = some (other, version) := by
        rwa [← same]
      refine .inr ⟨?_, (owned other version).mp draft⟩
      rintro rfl
      exact mine (heldBy_iff.mpr ⟨version, draft⟩)
  · rintro (⟨rfl, expects⟩ | ⟨differs, there⟩)
    · rw [none] at expects
      cases expects
    · have draft := (owned other version).mpr there
      simp [draft, differs]

theorem Owned.commit (none : expected after = none) :
    Owned expected (row.commit index) (transactions.set index after) := by
  have same : (row.commit index).draft = (row.rollback index).draft := by
    unfold Row.commit rollback
    split
    · split <;> rfl
    · rfl
  intro other version
  rw [same]
  exact owned.release found none other version

end

end Row

end RedArchKM.Lib
