import RedArchKM.Lib.Overlay
import RedArchKM.Lib.Trace

/-!
# Concurrent writers of a run's variables

`set_variables` merges its updates into the stored variables with a raw update and then assigns
the merged in-memory variables to the loaded row, which the flush writes as a whole column. The
raw update locks the row and re-reads its committed value; the flush does not, it writes what
was loaded, overlaid by the updates.

So a commit replaces the stored variables by those its writer loaded, plus its own updates
(`committed_eq_layered`). What survives a trace is the lineage of its last commit: the last
writer to commit, the last to commit before that writer's load, and so on. No key is lost
exactly when every committed writer that adds a new key is in the lineage
(`variables_kept_iff`).
-/

namespace RedArchKM.Workflow.RunVariables

open Lib Lib.Overlay Function

/-! ## Writers, the row and its lock -/

/-- The sub-steps of a writer's transaction. -/
inductive Step where
  | load
  | merge
  | flush
  | commit
  | rollback
deriving DecidableEq

/-- How far a writer's transaction is. -/
inductive Phase where
  | idle
  | loaded
  | merged
  | flushed
  | committed
  | rolledBack
deriving DecidableEq

/-- What a writer's session holds: its phase and the variables of its loaded row. -/
structure Session (κ ν : Type*) where
  phase : Phase
  vars : κ → Option ν

/-- The stored row: the committed variables, the writer that holds the row lock, and the
variables that writer has written and not committed. -/
structure Store (ω κ ν : Type*) where
  committed : κ → Option ν
  holder : Option ω
  pending : κ → Option ν
  session : ω → Session κ ν

section Model

variable {ω κ ν : Type*}

/-- The row before any writer arrives. -/
def start (stored : κ → Option ν) : Store ω κ ν where
  committed := stored
  holder := none
  pending := stored
  session := fun _ => ⟨.idle, fun _ => none⟩

variable [DecidableEq ω]

namespace Store

def setSession (store : Store ω κ ν) (writer : ω) (session : Session κ ν) : Store ω κ ν :=
  { store with session := update store.session writer session }

def release (store : Store ω κ ν) (writer : ω) : Store ω κ ν :=
  { store with holder := if store.holder = some writer then none else store.holder }

variable (store : Store ω κ ν) (writer : ω) (session : Session κ ν)

@[simp] theorem committed_setSession :
    (store.setSession writer session).committed = store.committed := rfl

@[simp] theorem holder_setSession : (store.setSession writer session).holder = store.holder := rfl

@[simp] theorem pending_setSession :
    (store.setSession writer session).pending = store.pending := rfl

@[simp] theorem session_setSession_self :
    (store.setSession writer session).session writer = session := update_self _ _ _

theorem session_setSession_of_ne {other : ω} (different : other ≠ writer) :
    (store.setSession writer session).session other = store.session other :=
  update_of_ne different _ _

@[simp] theorem committed_release : (store.release writer).committed = store.committed := rfl

@[simp] theorem session_release : (store.release writer).session = store.session := rfl

theorem holder_release_self : (store.release writer).holder ≠ some writer := by
  unfold release
  split <;> simp_all

theorem holder_release_of_ne {other : ω} (different : other ≠ writer) :
    (store.release writer).holder = some other ↔ store.holder = some other := by
  unfold release
  split <;> simp_all [Ne.symm different]

end Store

variable [DecidableEq κ] (updates : ω → List (κ × ν))

/-- One sub-step of one writer; none while the row lock or the writer's own phase forbids it. -/
def step (store : Store ω κ ν) : ω × Step → Option (Store ω κ ν)
  | (writer, .load) =>
    match (store.session writer).phase with
    | .idle => some (store.setSession writer ⟨.loaded, store.committed⟩)
    | _ => none
  | (writer, .merge) =>
    let session := store.session writer
    match session.phase with
    | .loaded =>
      -- `set_variables` returns at once when there is nothing to write.
      if updates writer = [] then
        some (store.setSession writer { session with phase := .merged })
      else if store.holder.isSome then none
      else
        some ({ store with
          holder := some writer
          pending := overlay store.committed (updates writer) }.setSession writer
            ⟨.merged, overlay session.vars (updates writer)⟩)
    | _ => none
  | (writer, .flush) =>
    let session := store.session writer
    match session.phase with
    | .merged =>
      -- Only an assigned attribute is written, and it is written whole.
      let pending := if store.holder = some writer then session.vars else store.pending
      some ({ store with pending := pending }.setSession writer
        { session with phase := .flushed })
    | _ => none
  | (writer, .commit) =>
    let session := store.session writer
    match session.phase with
    | .flushed =>
      let committed := if store.holder = some writer then store.pending else store.committed
      some (({ store with committed := committed }.setSession writer
        { session with phase := .committed }).release writer)
    | _ => none
  | (writer, .rollback) =>
    let session := store.session writer
    if session.phase ∈ [.loaded, .merged, .flushed] then
      some ((store.setSession writer { session with phase := .rolledBack }).release writer)
    else none

/-! ## Lineage -/

/-- The writers whose updates the committed variables hold, and those each writer loaded. -/
structure Lineage (ω : Type*) where
  current : List ω
  seen : ω → List ω

/-- A load sees the current lineage; a commit extends the lineage its writer saw. -/
def Lineage.next (lineage : Lineage ω) : ω × Step → Lineage ω
  | (writer, .load) =>
    { lineage with seen := update lineage.seen writer lineage.current }
  | (writer, .commit) =>
    if updates writer = [] then lineage
    else { lineage with current := lineage.seen writer ++ [writer] }
  | _ => lineage

/-- The writers whose updates survive a trace. -/
def lineage (trace : List (ω × Step)) : List ω :=
  (trace.foldl (Lineage.next updates) ⟨[], fun _ => []⟩).current

/-! ## What a trace stores -/

def SessionTracks (stored : κ → Option ν) (store : Store ω κ ν) (record : Lineage ω)
    (writer : ω) : Prop :=
  let loaded := layered updates stored (record.seen writer)
  let session := store.session writer
  match session.phase with
  | .idle | .committed | .rolledBack => store.holder ≠ some writer
  | .loaded => store.holder ≠ some writer ∧ session.vars = loaded
  | .merged =>
    (store.holder = some writer ↔ updates writer ≠ []) ∧
      session.vars = overlay loaded (updates writer)
  | .flushed =>
    (store.holder = some writer ↔ updates writer ≠ []) ∧
      (store.holder = some writer → store.pending = overlay loaded (updates writer))

structure Tracks (stored : κ → Option ν) (store : Store ω κ ν) (record : Lineage ω) :
    Prop where
  committed : store.committed = layered updates stored record.current
  sessions : ∀ writer, SessionTracks updates stored store record writer

variable {updates} {stored : κ → Option ν}

omit [DecidableEq ω] in
theorem tracks_start : Tracks updates stored (start stored) (⟨[], fun _ => []⟩ : Lineage ω) :=
  ⟨rfl, fun _ => by simp [SessionTracks, start]⟩

omit [DecidableEq ω] in
/-- A session tracks its lineage as long as its own record, its lineage and its hold on the row
stay. -/
theorem SessionTracks.congr {store next : Store ω κ ν} {record record' : Lineage ω} {writer : ω}
    (tracks : SessionTracks updates stored store record writer)
    (session : next.session writer = store.session writer)
    (seen : record'.seen writer = record.seen writer)
    (holder : next.holder = some writer ↔ store.holder = some writer)
    (pending : store.holder = some writer → next.pending = store.pending) :
    SessionTracks updates stored next record' writer := by
  unfold SessionTracks at tracks ⊢
  rw [session, seen]
  cases phase : (store.session writer).phase with
  | idle => simpa [phase, holder] using tracks
  | loaded => simpa [phase, holder] using tracks
  | merged => simpa [phase, holder] using tracks
  | flushed =>
    simp only [phase, holder] at tracks ⊢
    exact ⟨tracks.1, fun holds => (pending holds).trans (tracks.2 holds)⟩
  | committed => simpa [phase, holder] using tracks
  | rolledBack => simpa [phase, holder] using tracks

theorem SessionTracks.release {store : Store ω κ ν} {record record' : Lineage ω}
    {writer other : ω} {committed : κ → Option ν} {session : Session κ ν}
    (tracks : SessionTracks updates stored store record other) (different : other ≠ writer)
    (seen : record'.seen other = record.seen other) :
    SessionTracks updates stored
      (({ store with committed := committed }.setSession writer session).release writer) record'
      other :=
  tracks.congr (Store.session_setSession_of_ne _ _ _ different) seen
    (Store.holder_release_of_ne _ _ different) fun _ => rfl

namespace Tracks

variable {store next : Store ω κ ν} {record : Lineage ω} {writer : ω}
  (tracks : Tracks updates stored store record)
include tracks

theorem load (stepped : step updates store (writer, .load) = some next) :
    Tracks updates stored next (record.next updates (writer, .load)) := by
  have own := tracks.sessions writer
  simp only [step] at stepped
  split at stepped
  · rename_i phase
    cases stepped
    simp only [SessionTracks, phase] at own
    refine ⟨tracks.committed, fun other => ?_⟩
    by_cases same : other = writer
    · subst same
      simp [SessionTracks, Lineage.next, own, tracks.committed]
    · exact (tracks.sessions other).congr (Store.session_setSession_of_ne _ _ _ same)
        (update_of_ne same _ _) Iff.rfl fun _ => rfl
  · cases stepped

theorem merge (stepped : step updates store (writer, .merge) = some next) :
    Tracks updates stored next (record.next updates (writer, .merge)) := by
  have own := tracks.sessions writer
  simp only [step] at stepped
  split at stepped
  · rename_i phase
    simp only [SessionTracks, phase] at own
    split at stepped
    · rename_i nothing
      cases stepped
      refine ⟨tracks.committed, fun other => ?_⟩
      by_cases same : other = writer
      · subst same
        simp [SessionTracks, Lineage.next, own, nothing]
      · exact (tracks.sessions other).congr (Store.session_setSession_of_ne _ _ _ same) rfl
          Iff.rfl fun _ => rfl
    · rename_i something
      split at stepped
      · cases stepped
      · rename_i free
        cases stepped
        have unheld : store.holder = none := by simpa using free
        refine ⟨tracks.committed, fun other => ?_⟩
        by_cases same : other = writer
        · subst same
          simp [SessionTracks, Lineage.next, own, something]
        · refine (tracks.sessions other).congr (Store.session_setSession_of_ne _ _ _ same) rfl ?_ ?_
          · simp [unheld, Ne.symm same]
          · simp [unheld]
  · cases stepped

theorem flush (stepped : step updates store (writer, .flush) = some next) :
    Tracks updates stored next (record.next updates (writer, .flush)) := by
  have own := tracks.sessions writer
  simp only [step] at stepped
  split at stepped
  · rename_i phase
    simp only [SessionTracks, phase] at own
    cases stepped
    refine ⟨tracks.committed, fun other => ?_⟩
    by_cases same : other = writer
    · subst same
      simp only [SessionTracks, Lineage.next, Store.session_setSession_self,
        Store.holder_setSession, Store.pending_setSession]
      exact ⟨own.1, fun holds => by rw [if_pos holds, own.2]⟩
    · refine (tracks.sessions other).congr (Store.session_setSession_of_ne _ _ _ same) rfl
        Iff.rfl fun holds => ?_
      have elsewhere : store.holder ≠ some writer := fun holds' =>
        same (Option.some.inj (holds.symm.trans holds'))
      simp [elsewhere]
  · cases stepped

theorem commit (stepped : step updates store (writer, .commit) = some next) :
    Tracks updates stored next (record.next updates (writer, .commit)) := by
  have own := tracks.sessions writer
  simp only [step] at stepped
  split at stepped
  · rename_i phase
    simp only [SessionTracks, phase] at own
    cases stepped
    refine ⟨?_, fun other => ?_⟩
    · by_cases holds : store.holder = some writer
      · simp [Lineage.next, own.1.mp holds, holds, layered_concat, own.2 holds]
      · have nothing : updates writer = [] := by
          by_contra something
          exact holds (own.1.mpr something)
        simpa [Lineage.next, nothing, holds] using tracks.committed
    · by_cases same : other = writer
      · subst same
        simp [SessionTracks, Store.holder_release_self]
      · refine (tracks.sessions other).release same ?_
        by_cases nothing : updates writer = [] <;> simp [Lineage.next, nothing]
  · cases stepped

theorem rollback (stepped : step updates store (writer, .rollback) = some next) :
    Tracks updates stored next (record.next updates (writer, .rollback)) := by
  simp only [step] at stepped
  split at stepped
  · cases stepped
    refine ⟨tracks.committed, fun other => ?_⟩
    by_cases same : other = writer
    · subst same
      simp [SessionTracks, Store.holder_release_self]
    · exact (tracks.sessions other).release same rfl
  · cases stepped

/-- **Every sub-step keeps the committed variables and the sessions on their lineage.** -/
theorem step {event : ω × Step} (stepped : RunVariables.step updates store event = some next) :
    Tracks updates stored next (record.next updates event) := by
  obtain ⟨writer, sub⟩ := event
  cases sub with
  | load => exact tracks.load stepped
  | merge => exact tracks.merge stepped
  | flush => exact tracks.flush stepped
  | commit => exact tracks.commit stepped
  | rollback => exact tracks.rollback stepped

end Tracks

/-- **The committed variables are the initial ones overlaid by the lineage, in order.** -/
theorem committed_eq_layered {trace : List (ω × Step)} {final : Store ω κ ν}
    (ran : Trace.run (step updates) (start stored) trace = some final) :
    final.committed = layered updates stored (lineage updates trace) :=
  (Trace.run_simulation (Lineage.next updates) (Tracks updates stored)
    (fun _ _ _ _ tracks stepped => tracks.step stepped) trace tracks_start ran).committed

/-- No two writers set a common key. -/
def Disjoint (updates : ω → List (κ × ν)) : Prop :=
  ∀ writer other, writer ≠ other → ∀ key ∈ keys (updates writer), key ∉ keys (updates other)

/-- **No key of a committed writer is lost exactly when every committed writer outside the
lineage sets only keys that were stored from the start.** -/
theorem variables_kept_iff (disjoint : Disjoint updates) {trace : List (ω × Step)}
    {final : Store ω κ ν} (ran : Trace.run (step updates) (start stored) trace = some final) :
    (∀ writer, (writer, Step.commit) ∈ trace →
      ∀ key ∈ keys (updates writer), final.committed key ≠ none) ↔
    ∀ writer, (writer, Step.commit) ∈ trace → writer ∉ lineage updates trace →
      ∀ key ∈ keys (updates writer), stored key ≠ none := by
  simp only [committed_eq_layered ran, layered_ne_none_iff]
  constructor
  · intro kept writer committed outside key own
    refine (kept writer committed key own).resolve_right ?_
    rintro ⟨other, survives, theirs⟩
    exact disjoint writer other (fun same => outside (same ▸ survives)) key own theirs
  · intro initial writer committed key own
    by_cases survives : writer ∈ lineage updates trace
    · exact .inr ⟨writer, survives, own⟩
    · exact .inl (initial writer committed survives key own)

end Model

/-! ## Two writers -/

/-- Each of two writers sets a key of its own. -/
def ownKey (writer : Bool) : List (String × Nat) :=
  if writer then [("approved", 1)] else [("amount", 2)]

theorem ownKey_disjoint : Disjoint ownKey := by
  unfold Disjoint
  decide

def transaction (writer : Bool) : List (Bool × Step) :=
  [(writer, .merge), (writer, .flush), (writer, .commit)]

/-- One writer after the other. -/
def serial : List (Bool × Step) :=
  (true, .load) :: transaction true ++ (false, .load) :: transaction false

/-- Both load before either commits. -/
def overlapping : List (Bool × Step) :=
  [(true, .load), (false, .load)] ++ transaction true ++ transaction false

/-- One after the other, both keys are stored. -/
theorem serial_keeps_keys :
    ∃ final, Trace.run (step ownKey) (start fun _ => none) serial = some final ∧
      ∀ writer, (writer, Step.commit) ∈ serial →
        ∀ key ∈ keys (ownKey writer), final.committed key ≠ none :=
  ⟨_, rfl, (variables_kept_iff ownKey_disjoint rfl).mpr (by decide)⟩

/-- The second commit of overlapping writers takes the first writer's key away. -/
theorem overlapping_loses_key :
    Disjoint ownKey ∧
      ∃ final, Trace.run (step ownKey) (start fun _ => none) overlapping = some final ∧
        (true, Step.commit) ∈ overlapping ∧ "approved" ∈ keys (ownKey true) ∧
        final.committed "approved" = none :=
  ⟨ownKey_disjoint, _, rfl, by decide, by decide, rfl⟩

end RedArchKM.Workflow.RunVariables
