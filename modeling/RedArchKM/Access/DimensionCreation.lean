import RedArchKM.Access.DimensionNumbers
import RedArchKM.Lib.Trace

/-!
# Concurrent creation of dimensions

A creation reads the highest number in use and locks its row, then it inserts a row with the next
number and commits. The lock says nothing about rows that are inserted meanwhile: a creation that
waits for it reads the locked row again, which has not changed, and an empty table has no row to lock.

So the numbers stay apart exactly if no creation commits between the `SELECT` and the `COMMIT` of
another one (`distinctNumbers_iff`).
-/

namespace RedArchKM.Access

open Lib List Option

structure DimensionRow where
  name : String
  permissionNumber : Nat
deriving DecidableEq

section

variable (rows : List DimensionRow)

def numbersOf : List Nat := rows.map (·.permissionNumber)

/-- `last_num` -/
def lastNumber : Nat := (numbersOf rows).foldr max 0

/-- The place of the row that `ORDER BY permission_number DESC LIMIT 1` finds. -/
def highestRow : Option Nat :=
  rows.findIdx? (·.permissionNumber = lastNumber rows)

end

/-- How far a creation has come, with the committed rows that its `SELECT` saw. -/
inductive Progress where
  | idle
  /-- Another creation holds the row that it wants to lock. -/
  | waiting (seen : List DimensionRow)
  | selected (seen : List DimensionRow)
  | inserted (seen : List DimensionRow) (row : DimensionRow)
  | ended
deriving DecidableEq

def Progress.locked : Progress → Option Nat
  | .selected seen => highestRow seen
  | .inserted seen _ => highestRow seen
  | _ => none

def Progress.draft : Progress → Option DimensionRow
  | .inserted _ row => some row
  | _ => none

structure Creation where
  name : String
  progress : Progress := .idle
deriving DecidableEq

/-- The committed rows of a kind in an org, and the creations. -/
structure Creating where
  rows : List DimensionRow
  creations : List Creation
deriving DecidableEq

namespace Creating

inductive Event where
  | select | lock | insert | commit | rollback

def isLocked (state : Creating) (seen : List DimensionRow) : Bool :=
  (highestRow seen).any fun place =>
    state.creations.any fun creation => creation.progress.locked = some place

/-- The insertion of a row. A name that another creation has inserted makes it wait, and a committed
one fails by the only constraint, `UNIQUE (org_id, name)`. -/
def insert (kind : DimensionKind) (state : Creating) (name : String) (seen : List DimensionRow) :
    Option Progress :=
  if lastNumber seen + 1 > kind.wildcard - 1 then some .ended
  else if state.rows.any (·.name = name) then some .ended
  else if state.creations.any fun creation => creation.progress.draft.any (·.name = name) then none
  else some (.inserted seen { name, permissionNumber := lastNumber seen + 1 })

/-- What becomes of a creation at an event other than a commit. -/
def advance (kind : DimensionKind) (state : Creating) (creation : Creation) : Event → Option Progress
  | .select =>
    if creation.progress ≠ .idle then none
    else if state.isLocked state.rows then some (.waiting state.rows)
    else some (.selected state.rows)
  | .lock =>
    match creation.progress with
    | .waiting seen => if state.isLocked seen then none else some (.selected seen)
    | _ => none
  | .insert =>
    match creation.progress with
    | .selected seen => insert kind state creation.name seen
    | _ => none
  | .commit => none
  | .rollback => if creation.progress = .ended then none else some .ended

def put (state : Creating) (index : Nat) (progress : Progress) : Creating :=
  { state with
    creations := state.creations.modify index fun creation => { creation with progress } }

/-- One step of `DimensionRepository.create` and its transaction. -/
def step (kind : DimensionKind) (state : Creating) (event : Nat × Event) : Option Creating :=
  state.creations[event.1]?.bind fun creation =>
    match event.2, creation.progress with
    | .commit, .inserted _ row => some { state.put event.1 .ended with rows := state.rows ++ [row] }
    | other, _ => (advance kind state creation other).map (state.put event.1)

/-- No creation commits between the `SELECT` and the `COMMIT` of another one. -/
def Undisturbed (kind : DimensionKind) : Creating → List (Nat × Event) → Prop
  | _, [] => True
  | state, event :: events =>
    (event.2 = .commit → ∀ creation ∈ state.creations[event.1]?, ∀ seen row,
        creation.progress = .inserted seen row → seen = state.rows) ∧
      ∀ next ∈ step kind state event, Undisturbed kind next events

/-! ## What a step does -/

/-- A creation has seen the rows that were committed at some time, and numbers its row by them. -/
def FollowsFrom (first rows : List DimensionRow) : Progress → Prop
  | .idle | .ended => True
  | .waiting seen | .selected seen => first <+: seen ∧ seen <+: rows
  | .inserted seen row =>
    first <+: seen ∧ seen <+: rows ∧ row.permissionNumber = lastNumber seen + 1

def Sound (first : List DimensionRow) (state : Creating) : Prop :=
  first <+: state.rows ∧
    ∀ creation ∈ state.creations, FollowsFrom first state.rows creation.progress

section Steps

variable {kind : DimensionKind} {first rows : List DimensionRow} {state next final : Creating}
  {index : Nat} {event : Event} {progress : Progress}

theorem FollowsFrom.grow {more : List DimensionRow} (follows : FollowsFrom first rows progress)
    (grows : rows <+: more) : FollowsFrom first more progress := by
  cases progress with
  | idle => trivial
  | ended => trivial
  | waiting => exact ⟨follows.1, follows.2.trans grows⟩
  | selected => exact ⟨follows.1, follows.2.trans grows⟩
  | inserted => exact ⟨follows.1, follows.2.1.trans grows, follows.2.2⟩

theorem followsFrom_advance {creation : Creation} (grown : first <+: state.rows)
    (follows : FollowsFrom first state.rows creation.progress)
    (advanced : advance kind state creation event = some progress) :
    FollowsFrom first state.rows progress := by
  cases event with
  | select =>
    unfold advance at advanced
    dsimp only at advanced
    split at advanced
    · cases advanced
    · split at advanced <;> cases advanced <;> exact ⟨grown, prefix_refl _⟩
  | lock =>
    unfold advance at advanced
    dsimp only at advanced
    split at advanced
    · rename_i waits
      split at advanced <;> cases advanced
      rwa [waits] at follows
    · cases advanced
  | insert =>
    unfold advance insert at advanced
    dsimp only at advanced
    split at advanced
    · rename_i selects
      rw [selects] at follows
      split at advanced
      · cases advanced
        trivial
      · split at advanced
        · cases advanced
          trivial
        · split at advanced <;> cases advanced
          exact ⟨follows.1, follows.2, rfl⟩
    · cases advanced
  | commit => cases advanced
  | rollback =>
    unfold advance at advanced
    dsimp only at advanced
    split at advanced <;> cases advanced
    trivial

theorem sound_put (sound : Sound first state) (follows : FollowsFrom first state.rows progress) :
    Sound first (state.put index progress) := by
  refine ⟨sound.1, fun creation member => ?_⟩
  obtain ⟨place, found⟩ := mem_iff_getElem?.mp member
  unfold put at found
  rw [getElem?_modify] at found
  obtain ⟨old, isOld, rfl⟩ := map_eq_some_iff.mp found
  split
  · exact follows
  · exact sound.2 old (mem_of_getElem? isOld)

/-- **A step commits a row, or leaves the rows alone.** -/
theorem step_cases (sound : Sound first state) (stepped : step kind state (index, event) = some next) :
    (event ≠ .commit ∧ next.rows = state.rows ∧ Sound first next) ∨
    (event = .commit ∧ ∃ creation ∈ state.creations[index]?, ∃ seen row,
      creation.progress = .inserted seen row ∧ first <+: seen ∧ seen <+: state.rows ∧
        row.permissionNumber = lastNumber seen + 1 ∧ next.rows = state.rows ++ [row] ∧
        Sound first next) := by
  obtain ⟨creation, found, moved⟩ := bind_eq_some_iff.mp stepped
  have follows := sound.2 creation (mem_of_getElem? found)
  split at moved
  · rename_i seen row isCommit isInserted
    cases moved
    rw [isInserted] at follows
    have grows : state.rows <+: state.rows ++ [row] := prefix_append ..
    refine .inr ⟨isCommit, creation, found, seen, row, isInserted, follows.1, follows.2.1, follows.2.2,
      rfl, sound.1.trans grows, fun other member => ?_⟩
    exact ((@sound_put first state index .ended sound trivial).2 other member).grow grows
  · rename_i notCommit
    obtain ⟨progress, advanced, rfl⟩ := map_eq_some_iff.mp moved
    refine .inl ⟨fun isCommit => ?_, rfl, sound_put sound (followsFrom_advance sound.1 follows advanced)⟩
    cases isCommit
    cases advanced

theorem rows_run {events : List (Nat × Event)} (sound : Sound first state)
    (ran : Trace.run (step kind) state events = some final) : state.rows <+: final.rows := by
  induction events generalizing state with
  | nil =>
    cases ran
    exact prefix_refl _
  | cons event events ih =>
    obtain ⟨next, stepped, rest⟩ := bind_eq_some_iff.mp ran
    rcases step_cases sound stepped with ⟨-, same, sound⟩ |
      ⟨-, _, -, _, row, -, -, -, -, more, sound⟩
    · exact same ▸ ih sound rest
    · exact (more ▸ prefix_append ..).trans (ih sound rest)

/-! ## Rows numbered one after the other -/

inductive Grown (first : List DimensionRow) : List DimensionRow → Prop
  | refl : Grown first first
  | add {rows : List DimensionRow} {row : DimensionRow} : Grown first rows →
      row.permissionNumber = lastNumber rows + 1 → Grown first (rows ++ [row])

theorem succ_lastNumber_notMem : lastNumber rows + 1 ∉ numbersOf rows := fun used =>
  Nat.not_succ_le_self _ (le_foldr_max used)

theorem Grown.nodup (grown : Grown first rows) (distinct : (numbersOf first).Nodup) :
    (numbersOf rows).Nodup := by
  induction grown with
  | refl => exact distinct
  | add _ isNext ih =>
    have longer := ih.concat (isNext ▸ succ_lastNumber_notMem)
    rw [concat_eq_append] at longer
    rwa [numbersOf, map_append]

/-- What was seen before the last row was added numbers a row that is there already. -/
theorem Grown.succ_mem {seen : List DimensionRow} (grown : Grown first rows) (since : first <+: seen)
    (old : seen <+: rows) (differ : seen ≠ rows) : lastNumber seen + 1 ∈ numbersOf rows := by
  induction grown with
  | refl => exact absurd (old.eq_of_length_le since.length_le) differ
  | @add rows row _ isNext ih =>
    rcases prefix_concat_iff.mp old with same | older
    · exact absurd same differ
    · unfold numbersOf
      rw [map_append]
      by_cases same : seen = rows
      · exact mem_append_right _ (mem_singleton.mpr (same ▸ isNext.symm))
      · exact mem_append_left _ (ih older same)

theorem nodup_iff_undisturbed {events : List (Nat × Event)} (sound : Sound first state)
    (grown : Grown first state.rows) (distinct : (numbersOf first).Nodup)
    (ran : Trace.run (step kind) state events = some final) :
    (numbersOf final.rows).Nodup ↔ Undisturbed kind state events := by
  induction events generalizing state with
  | nil =>
    cases ran
    exact iff_of_true (grown.nodup distinct) trivial
  | cons event events ih =>
    obtain ⟨next, stepped, rest⟩ := bind_eq_some_iff.mp ran
    unfold Undisturbed
    rw [stepped]
    rcases step_cases sound stepped with ⟨noCommit, same, sound'⟩ |
      ⟨isCommit, creation, found, seen, row, isInserted, since, old, isNext, more, sound'⟩
    · rw [ih sound' (same ▸ grown) rest]
      exact ⟨fun later => ⟨fun isCommit => absurd isCommit noCommit, fun _ isNext =>
        some.inj isNext ▸ later⟩, fun both => both.2 next rfl⟩
    · by_cases fresh : seen = state.rows
      · rw [ih sound' (more ▸ grown.add (fresh ▸ isNext)) rest]
        refine ⟨fun later => ⟨fun _ other isOther seen' row' isInserted' => ?_, fun _ isNext =>
          some.inj isNext ▸ later⟩, fun both => both.2 next rfl⟩
        cases found.symm.trans isOther
        cases isInserted.symm.trans isInserted'
        exact fresh
      · refine iff_of_false (fun nodup => ?_) fun both =>
          fresh (both.1 isCommit creation found seen row isInserted)
        have twice : (numbersOf next.rows).Nodup :=
          nodup.sublist ((rows_run sound' rest).sublist.map _)
        rw [more, numbersOf, map_append] at twice
        refine disjoint_of_nodup_append twice (grown.succ_mem since old fresh) ?_
        exact mem_singleton.mpr isNext.symm

end Steps

/-- **Creations give different numbers exactly if none commits between the `SELECT` and the `COMMIT`
of another one.** -/
theorem distinctNumbers_iff (kind : DimensionKind) (rows : List DimensionRow) (names : List String)
    (events : List (Nat × Event)) (final : Creating) (distinct : (numbersOf rows).Nodup)
    (ran : Trace.run (step kind) ⟨rows, names.map ({ name := · })⟩ events = some final) :
    (numbersOf final.rows).Nodup ↔ Undisturbed kind ⟨rows, names.map ({ name := · })⟩ events := by
  have sound : Sound rows ⟨rows, names.map ({ name := · })⟩ := by
    refine ⟨prefix_refl _, fun creation member => ?_⟩
    obtain ⟨name, -, rfl⟩ := mem_map.mp member
    trivial
  exact nodup_iff_undisturbed sound .refl distinct ran

/-- Two creations in an empty table, one after the other's `SELECT`. -/
def twinEvents : List (Nat × Event) :=
  [(0, .select), (1, .select), (0, .insert), (1, .insert), (0, .commit), (1, .commit)]

theorem distinctNumbers_iff_twins :
    (numbersOf [⟨"Auditors", 1⟩, ⟨"Editors", 1⟩]).Nodup ↔
      Undisturbed .role ⟨[], ["Auditors", "Editors"].map ({ name := · })⟩ twinEvents :=
  distinctNumbers_iff .role [] ["Auditors", "Editors"] twinEvents
    ⟨[⟨"Auditors", 1⟩, ⟨"Editors", 1⟩], [⟨"Auditors", .ended⟩, ⟨"Editors", .ended⟩]⟩ nodup_nil
    (by decide +kernel)

/-- Both roles get the number 1. -/
theorem not_distinctNumbers_twins :
    ∃ final, Trace.run (step .role) ⟨[], ["Auditors", "Editors"].map ({ name := · })⟩ twinEvents =
      some final ∧ ¬(numbersOf final.rows).Nodup :=
  ⟨⟨[⟨"Auditors", 1⟩, ⟨"Editors", 1⟩], [⟨"Auditors", .ended⟩, ⟨"Editors", .ended⟩]⟩,
    by decide +kernel, by decide⟩

end Creating

end RedArchKM.Access
