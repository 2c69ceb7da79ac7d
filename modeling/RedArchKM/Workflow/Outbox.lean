import Mathlib.Data.Fintype.Basic
import RedArchKM.Lib.Trace
import RedArchKM.Lib.UniqueTable
import RedArchKM.Workflow.Engine

/-!
# Outbox events and the workflows they fire

A change of a record leaves an event in the outbox. The inline pass runs the workflows flagged
for it within the request that wrote the record; sweeps claim pending events and run every
matching workflow. Each pass visits the enabled workflows in the order its query returns them
and creates a run under the key of workflow, event and the event's time, unless there is one.

Sweeps and inline passes interleave here statement by statement. A sweep is one transaction over
its batch with a savepoint for each event, an inline pass is a savepoint in the transaction of
its request. The pass may happen at any time and any number of times, also before the event is
visible; an error may end a pass, and a crash a transaction, after any statement.
-/

namespace RedArchKM.Workflow

open Lib List Function

abbrev EventId := Nat

/-! ## Triggers -/

/-- What an outbox row records of a change. -/
structure OutboxEvent where
  entityDefinitionId : EntityId
  operation : Operation
  recordId : RecordId
  beforeData : Option Fields := none
  afterData : Option Fields := none
  source : ChangeSource := .record
  /-- The depth of the run that made the change: of no run, of an unknown one, or of one found. -/
  origin : Option (Option Nat) := none
  createdAt : Nat := 0

def changedFields (before after : Option Fields) : List String :=
  let before := before.getD []
  let after := after.getD []
  ((before ++ after).map Prod.fst).filter fun key => Fields.get before key != Fields.get after key

def triggerData (definition : WorkflowDefinitionModel) : NodeData :=
  ((definition.nodes.find? fun node => node.type = .trigger).map WorkflowNode.data).getD {}

/-- Whether the trigger asks for another source than the change's. -/
def sourceRefused (required : Option RequiredSource) (source : ChangeSource) : Bool :=
  match required with
  | none | some .any => false
  | some (.only asked) => asked != source
  | some .manual | some .other => true

def triggerMatches (data : NodeData) (operation : Operation) (changed : List String)
    (source : ChangeSource) : Bool :=
  if data.source = some .manual then false
  else if operation ∉ data.operations.getD [.create, .update, .delete] then false
  else if sourceRefused data.source source then false
  else if data.fieldFilter ≠ [] ∧ operation = .update then data.fieldFilter.any (· ∈ changed)
  else true

def activeVersion (db : Db) (workflowId : WorkflowId) : Option WorkflowVersion :=
  ((db.workflows[workflowId]?.bind Workflow.activeVersionId).bind (db.versions[·]?)).filter
    WorkflowVersion.published

def listEnabledForEntity (db : Db) (entityDefinitionId : EntityId) : List WorkflowId :=
  (List.range db.workflows.length).filter fun workflowId =>
    (db.workflows[workflowId]?.any fun workflow =>
      workflow.enabled && workflow.entityDefinitionId = some entityDefinitionId) &&
      (activeVersion db workflowId).isSome

def fires (db : Db) (event : OutboxEvent) (workflowId : WorkflowId) : Bool :=
  (activeVersion db workflowId).any fun version =>
    triggerMatches (triggerData version.definition) event.operation
      (changedFields event.beforeData event.afterData) event.source

def matching (db : Db) (event : OutboxEvent) : List WorkflowId :=
  (listEnabledForEntity db event.entityDefinitionId).filter (fires db event)

def runsInline (db : Db) (workflowId : WorkflowId) : Bool :=
  db.workflows[workflowId]?.any Workflow.runInlineOnChange

/-! ## Passes and transactions -/

inductive OutboxStatus where
  | pending | done | skipped
deriving DecidableEq

/-- The unique key of the runs of events; its time is the event's own. -/
structure RunKey where
  workflowId : WorkflowId
  outboxId : EventId
  createdAt : Nat
deriving DecidableEq

structure Pass where
  event : EventId
  todo : List WorkflowId

/-- An open transaction: a sweep with the events it has claimed and not begun, the statuses it
has written, and the pass it is in, or a request in its inline pass. -/
structure Dispatcher where
  onlyInline : Bool
  claimed : List EventId := []
  settled : List (EventId × OutboxStatus) := []
  pass : Option Pass := none

def Dispatcher.locked (dispatcher : Dispatcher) : List EventId :=
  if dispatcher.onlyInline then []
  else
    dispatcher.claimed ++ (dispatcher.pass.map Pass.event).toList ++
      dispatcher.settled.map Prod.fst

/-- The committed statuses of the outbox rows, the runs, and the sessions with a transaction. A
claimed status is never seen committed by another session, for the claim and what it leads to
commit together. -/
structure OutboxStore (ω : Type*) where
  status : EventId → Option OutboxStatus := fun _ => none
  runs : UniqueTable ω RunKey := {}
  session : ω → Option Dispatcher := fun _ => none

/-- A statement of a session. -/
inductive DispatchAction where
  | inline (event : EventId) (listed : List WorkflowId)
  | claim (chosen : List EventId)
  | begin (listed : List WorkflowId)
  | visit
  | raise
  | finish
  | commit
  | rollback

/-- The row of an event becomes visible, or a session acts. -/
inductive DispatchStep (ω : Type*) where
  | publish (event : EventId)
  | act (session : ω) (action : DispatchAction)

/-- The statuses once those that the transaction has written are committed. -/
def settle (status : EventId → Option OutboxStatus) :
    List (EventId × OutboxStatus) → EventId → Option OutboxStatus
  | [] => status
  | (event, written) :: rest => Function.update (settle status rest) event (some written)

section Model

variable {ω : Type*} [DecidableEq ω] [Fintype ω] (db : Db) (events : EventId → OutboxEvent)

def runKey (event : EventId) (workflowId : WorkflowId) : RunKey :=
  ⟨workflowId, event, (events event).createdAt⟩

/-- The list is a result of the query for the event's workflows, whose order is not fixed. -/
def listedFor (event : EventId) (listed : List WorkflowId) : Prop :=
  listed.Perm (listEnabledForEntity db (events event).entityDefinitionId)

instance (event : EventId) (listed : List WorkflowId) : Decidable (listedFor db events event listed) :=
  inferInstanceAs (Decidable (List.Perm _ _))

def selected (onlyInline : Bool) (event : EventId) (workflowId : WorkflowId) : Bool :=
  (!onlyInline || runsInline db workflowId) && fires db (events event) workflowId

namespace OutboxStore

variable (store : OutboxStore ω)

def setSession (session : ω) (dispatcher : Option Dispatcher) : OutboxStore ω :=
  { store with session := Function.update store.session session dispatcher }

omit [Fintype ω] in
@[simp] theorem session_setSession_self (session : ω) (dispatcher : Option Dispatcher) :
    (store.setSession session dispatcher).session session = dispatcher := update_self ..

omit [Fintype ω] in
theorem session_setSession_of_ne {session other : ω} (different : other ≠ session)
    (dispatcher : Option Dispatcher) :
    (store.setSession session dispatcher).session other = store.session other :=
  update_of_ne different _ _

/-- The event is pending and no open transaction has locked its row. -/
def claimable (event : EventId) : Prop :=
  store.status event = some .pending ∧
    ∀ other, (store.session other).all fun dispatcher => event ∉ dispatcher.locked

instance (event : EventId) : Decidable (store.claimable event) :=
  inferInstanceAs (Decidable (_ ∧ ∀ _, _))

/-- Another transaction has a row of the key in work. -/
def contended (session : ω) (key : RunKey) : Prop :=
  ∃ other, other ≠ session ∧ key ∈ store.runs.pending other

instance (session : ω) (key : RunKey) : Decidable (store.contended session key) :=
  inferInstanceAs (Decidable (∃ _, _ ∧ _))

def openTransaction (session : ω) : DispatchAction → Option (OutboxStore ω)
  | .inline event listed =>
    if listedFor db events event listed then
      some (store.setSession session (some { onlyInline := true, pass := some ⟨event, listed⟩ }))
    else none
  | .claim chosen =>
    if chosen.Nodup ∧ ∀ event ∈ chosen, store.claimable event then
      some (store.setSession session (some { onlyInline := false, claimed := chosen }))
    else none
  | .begin _ | .visit | .raise | .finish | .commit | .rollback => none

/-- The next statement of an open transaction. -/
def continueTransaction (session : ω) (dispatcher : Dispatcher) :
    DispatchAction → Option (OutboxStore ω)
  | .begin listed =>
    match dispatcher.pass, dispatcher.claimed with
    | none, event :: claimed =>
      if listedFor db events event listed then
        some (store.setSession session
          (some { dispatcher with claimed, pass := some ⟨event, listed⟩ }))
      else none
    | _, _ => none
  | .visit =>
    match dispatcher.pass with
    | some ⟨event, workflowId :: todo⟩ =>
      let moved := store.setSession session (some { dispatcher with pass := some ⟨event, todo⟩ })
      let key := runKey events event workflowId
      if !selected db events dispatcher.onlyInline event workflowId then some moved
      else if store.contended session key then none
      else some { moved with runs := store.runs.insertAbsent session key }
    | _ => none
  | .raise =>
    match dispatcher.pass with
    | some ⟨event, _⟩ =>
      let settled := if dispatcher.onlyInline then dispatcher.settled
        else (event, .skipped) :: dispatcher.settled
      some { store.setSession session (some { dispatcher with pass := none, settled }) with
        runs := store.runs.rollbackTo session }
    | none => none
  | .finish =>
    match dispatcher.pass with
    | some ⟨event, []⟩ =>
      let settled := if dispatcher.onlyInline then dispatcher.settled
        else (event, .done) :: dispatcher.settled
      some { store.setSession session (some { dispatcher with pass := none, settled }) with
        runs := store.runs.release session }
    | _ => none
  | .commit =>
    match dispatcher.pass, dispatcher.claimed with
    | none, [] =>
      some { store.setSession session none with
        status := settle store.status dispatcher.settled
        runs := store.runs.commit session }
    | _, _ => none
  | .rollback =>
    some { store.setSession session none with runs := store.runs.rollback session }
  | .inline _ _ | .claim _ => none

/-- One statement; none while the session cannot make it or has to wait. -/
def step (store : OutboxStore ω) : DispatchStep ω → Option (OutboxStore ω)
  | .publish event =>
    if store.status event = none then
      some { store with status := Function.update store.status event (some .pending) }
    else none
  | .act session action =>
    match store.session session with
    | none => store.openTransaction db events session action
    | some dispatcher => store.continueTransaction db events session dispatcher action

end OutboxStore

/-! ## What is promised -/

def isRunOf (event : EventId) (workflowId : WorkflowId) (key : RunKey) : Bool :=
  key.workflowId = workflowId ∧ key.outboxId = event

/-- **Each workflow fires once**: no transaction ever sees two runs of a workflow for one event,
and an event that is done has exactly one of every workflow that matches it. -/
structure FiresOnce (store : OutboxStore ω) : Prop where
  atMostOnce : ∀ session event workflowId,
    (store.runs.seen session).countP (isRunOf event workflowId) ≤ 1
  onceDone : ∀ event, store.status event = some .done → ∀ workflowId ∈ matching db (events event),
    store.runs.committed.countP (isRunOf event workflowId) = 1

/-! ## The invariant -/

/-- What an open transaction sees of the events it has done and of the pass it is in. -/
structure PassSound (committed kept fresh : List RunKey) (dispatcher : Dispatcher) : Prop where
  settled : ∀ event, (event, .done) ∈ dispatcher.settled → ∀ workflowId ∈ matching db (events event),
    runKey events event workflowId ∈ committed ++ kept
  visited : ∀ pass, dispatcher.pass = some pass → dispatcher.onlyInline = false →
    ∀ workflowId ∈ matching db (events pass.event), workflowId ∈ pass.todo ∨
      runKey events pass.event workflowId ∈ committed ++ (kept ++ fresh)

def Stamped (key : RunKey) : Prop := key.createdAt = (events key.outboxId).createdAt

/-- No key is held twice, every row has its event's time, every event that is done has its runs,
and so has every event that an open transaction has done. -/
structure OutboxSound (store : OutboxStore ω) : Prop where
  distinct : store.runs.Distinct
  stamped : ∀ session, ∀ key ∈ store.runs.committed ++ store.runs.pending session,
    Stamped events key
  committed : ∀ key ∈ store.runs.committed, Stamped events key
  done : ∀ event, store.status event = some .done → ∀ workflowId ∈ matching db (events event),
    runKey events event workflowId ∈ store.runs.committed
  passes : ∀ session dispatcher, store.session session = some dispatcher →
    PassSound db events store.runs.committed (store.runs.kept session) (store.runs.fresh session)
      dispatcher

variable {db events}

theorem PassSound.mono {committed committed' kept fresh : List RunKey} {dispatcher : Dispatcher}
    (sound : PassSound db events committed kept fresh dispatcher) (grows : committed ⊆ committed') :
    PassSound db events committed' kept fresh dispatcher where
  settled event done workflowId isMatch := by
    have held := sound.settled event done workflowId isMatch
    simp only [mem_append] at held ⊢
    exact held.imp_left fun old => grows old
  visited pass isPass isSweep workflowId isMatch := by
    have held := sound.visited pass isPass isSweep workflowId isMatch
    simp only [mem_append] at held ⊢
    exact held.imp_right (Or.imp_left fun old => grows old)

theorem mem_matching {event : OutboxEvent} {workflowId : WorkflowId} :
    workflowId ∈ matching db event ↔
      workflowId ∈ listEnabledForEntity db event.entityDefinitionId ∧ fires db event workflowId := by
  rw [matching, mem_filter]

theorem countP_le_one {keys : List RunKey} (distinct : keys.Nodup)
    (stamped : ∀ key ∈ keys, Stamped events key) (event : EventId) (workflowId : WorkflowId) :
    keys.countP (isRunOf event workflowId) ≤ 1 := by
  have only : ∀ key ∈ keys, isRunOf event workflowId key = (key == runKey events event workflowId) := by
    intro key member
    rcases key with ⟨ofWorkflow, ofEvent, time⟩
    have isTime : time = (events ofEvent).createdAt := stamped _ member
    rw [Bool.eq_iff_iff]
    simp only [isRunOf, runKey, decide_eq_true_eq, beq_iff_eq, RunKey.mk.injEq]
    constructor
    · rintro ⟨rfl, rfl⟩
      exact ⟨rfl, rfl, isTime⟩
    · rintro ⟨rfl, rfl, -⟩
      exact ⟨rfl, rfl⟩
  rw [countP_congr fun key member => by rw [only key member]]
  exact nodup_iff_count_le_one.mp distinct _

omit [DecidableEq ω] [Fintype ω] in
theorem OutboxSound.firesOnce {store : OutboxStore ω} (sound : OutboxSound db events store) :
    FiresOnce db events store where
  atMostOnce session event workflowId :=
    countP_le_one (sound.distinct.nodup session) (sound.stamped session) event workflowId
  onceDone event isDone workflowId isMatch := by
    refine Nat.le_antisymm
      (countP_le_one sound.distinct.committed sound.committed event workflowId) ?_
    refine countP_pos_iff.mpr ⟨_, sound.done event isDone workflowId isMatch, ?_⟩
    simp [isRunOf, runKey]

/-! ## What a statement keeps -/

omit [Fintype ω] in
/-- A statement of one session leaves the rows and the passes of the others as they are, but for
rows that it commits. -/
theorem OutboxSound.update {store store' : OutboxStore ω} (sound : OutboxSound db events store)
    (session : ω) (others : ∀ other, other ≠ session → store'.session other = store.session other ∧
      store'.runs.kept other = store.runs.kept other ∧
      store'.runs.fresh other = store.runs.fresh other)
    (grows : store.runs.committed ⊆ store'.runs.committed) (distinct : store'.runs.Distinct)
    (committed : ∀ key ∈ store'.runs.committed, Stamped events key)
    (pending : ∀ key ∈ store'.runs.pending session, Stamped events key)
    (done : ∀ event, store'.status event = some .done →
      ∀ workflowId ∈ matching db (events event), runKey events event workflowId ∈ store'.runs.committed)
    (own : ∀ dispatcher, store'.session session = some dispatcher →
      PassSound db events store'.runs.committed (store'.runs.kept session)
        (store'.runs.fresh session) dispatcher) : OutboxSound db events store' where
  distinct := distinct
  committed := committed
  done := done
  stamped reader key sees := by
    rcases mem_append.mp sees with isCommitted | isPending
    · exact committed key isCommitted
    · by_cases same : reader = session
      · exact pending key (same ▸ isPending)
      · obtain ⟨-, kept, fresh⟩ := others reader same
        rw [UniqueTable.pending, kept, fresh] at isPending
        exact sound.stamped reader key (mem_append_right _ isPending)
  passes reader dispatcher isOpen := by
    by_cases same : reader = session
    · subst same
      exact own dispatcher isOpen
    · obtain ⟨sameSession, kept, fresh⟩ := others reader same
      rw [sameSession] at isOpen
      rw [kept, fresh]
      exact (sound.passes reader dispatcher isOpen).mono grows

section Statements

variable {store next : OutboxStore ω} {session : ω} {dispatcher : Dispatcher}

omit [Fintype ω] in
theorem OutboxSound.setSession (sound : OutboxSound db events store)
    (passSound : PassSound db events store.runs.committed (store.runs.kept session)
      (store.runs.fresh session) dispatcher) :
    OutboxSound db events (store.setSession session (some dispatcher)) := by
  refine sound.update session (fun other different => ⟨?_, rfl, rfl⟩) (Subset.refl _)
    sound.distinct sound.committed ?_ sound.done fun own isOpen => ?_
  · exact store.session_setSession_of_ne different _
  · exact fun key isPending => sound.stamped session key (mem_append_right _ isPending)
  · rw [OutboxStore.session_setSession_self] at isOpen
    cases isOpen
    exact passSound

omit [DecidableEq ω] [Fintype ω] in
theorem OutboxSound.publish (sound : OutboxSound db events store) {event : EventId} :
    OutboxSound db events
      { store with status := Function.update store.status event (some .pending) } where
  distinct := sound.distinct
  stamped := sound.stamped
  committed := sound.committed
  passes := sound.passes
  done other isDone := by
    refine sound.done other ?_
    dsimp only at isDone
    by_cases same : other = event
    · subst same
      rw [update_self] at isDone
      cases isDone
    · rwa [update_of_ne same] at isDone

theorem OutboxSound.openTransaction (sound : OutboxSound db events store) {action : DispatchAction}
    (opens : store.openTransaction db events session action = some next) :
    OutboxSound db events next := by
  cases action with
  | inline event listed =>
    simp only [OutboxStore.openTransaction] at opens
    split at opens
    · cases opens
      exact sound.setSession ⟨nofun, fun pass isPass isSweep => nomatch isSweep⟩
    · cases opens
  | claim chosen =>
    simp only [OutboxStore.openTransaction] at opens
    split at opens
    · cases opens
      exact sound.setSession ⟨nofun, nofun⟩
    · cases opens
  | _ => cases opens

theorem done_of_settle {status : EventId → Option OutboxStatus}
    {settled : List (EventId × OutboxStatus)} {event : EventId}
    (isDone : settle status settled event = some .done) :
    (event, .done) ∈ settled ∨ status event = some .done := by
  induction settled with
  | nil => exact .inr isDone
  | cons entry rest ih =>
    obtain ⟨other, written⟩ := entry
    by_cases same : event = other
    · subst same
      rw [settle, update_self] at isDone
      rw [Option.some.inj isDone]
      exact .inl mem_cons_self
    · rw [settle, update_of_ne same] at isDone
      exact (ih isDone).imp_left (mem_cons_of_mem _)

theorem OutboxSound.visit (sound : OutboxSound db events store)
    (isOpen : store.session session = some dispatcher)
    (moves : store.continueTransaction db events session dispatcher .visit = some next) :
    OutboxSound db events next := by
  have passSound := sound.passes session dispatcher isOpen
  simp only [OutboxStore.continueTransaction] at moves
  split at moves
  · rename_i event workflowId todo isPass
    have settled := passSound.settled
    split at moves
    · rename_i unselected
      cases moves
      refine sound.setSession ⟨settled, fun pass same isSweep other isMatch => ?_⟩
      cases same
      rcases passSound.visited _ isPass isSweep other isMatch with listed | held
      · refine (mem_cons.mp listed).elim (fun same => ?_) .inl
        subst same
        dsimp only at isSweep
        simp only [selected, isSweep, (mem_matching.mp isMatch).2] at unselected
        cases unselected
      · exact .inr held
    · split at moves
      · cases moves
      · rename_i free
        cases moves
        have others : ∀ reader, reader ≠ session →
            runKey events event workflowId ∉ store.runs.pending reader :=
          fun reader different holds => free ⟨reader, different, holds⟩
        refine sound.update session (fun other different => ⟨?_, ?_, ?_⟩) ?_
          (sound.distinct.insertAbsent others) ?_ ?_ ?_ fun own isOwn => ?_
        · exact store.session_setSession_of_ne different _
        · rw [UniqueTable.kept_insertAbsent]
        · exact UniqueTable.fresh_insertAbsent_of_ne different
        · rw [UniqueTable.committed_insertAbsent]
          exact Subset.refl _
        · rw [UniqueTable.committed_insertAbsent]
          exact sound.committed
        · intro key isPending
          rcases UniqueTable.mem_pending_of_insertAbsent isPending with old | rfl
          · exact sound.stamped session key (mem_append_right _ old)
          · rfl
        · rw [UniqueTable.committed_insertAbsent]
          exact sound.done
        · dsimp only at isOwn
          rw [OutboxStore.session_setSession_self] at isOwn
          cases isOwn
          refine ⟨?_, fun pass same isSweep other isMatch => ?_⟩
          · rwa [UniqueTable.committed_insertAbsent, UniqueTable.kept_insertAbsent]
          · cases same
            have sees : store.runs.seen session ⊆
                (store.runs.insertAbsent session (runKey events event workflowId)).seen session :=
              UniqueTable.seen_subset_insertAbsent session
            rcases passSound.visited _ isPass isSweep other isMatch with listed | held
            · refine (mem_cons.mp listed).elim (fun same => ?_) .inl
              subst same
              exact .inr UniqueTable.mem_seen_insertAbsent
            · exact .inr (sees held)
  · cases moves

omit [Fintype ω] in
theorem OutboxSound.settle_runs (sound : OutboxSound db events store) {runs : UniqueTable ω RunKey}
    {own : Option Dispatcher} (distinct : runs.Distinct) (committed : runs.committed = store.runs.committed)
    (others : ∀ other, other ≠ session → runs.kept other = store.runs.kept other ∧
      runs.fresh other = store.runs.fresh other)
    (pending : runs.pending session ⊆ store.runs.pending session)
    (idle : ∀ dispatcher, own = some dispatcher → dispatcher.pass = none ∧
      ∀ event, (event, .done) ∈ dispatcher.settled → ∀ workflowId ∈ matching db (events event),
        runKey events event workflowId ∈ store.runs.committed ++ runs.kept session) :
    OutboxSound db events { store.setSession session own with runs } := by
  refine sound.update session (fun other different => ⟨?_, others other different⟩)
    (committed ▸ Subset.refl _) distinct (committed ▸ sound.committed) ?_
    (by dsimp only [OutboxStore.setSession]; rw [committed]; exact sound.done)
    fun dispatcher isOwn => ?_
  · exact store.session_setSession_of_ne different _
  · exact fun key holds => sound.stamped session key (mem_append_right _ (pending holds))
  · dsimp only at isOwn
    rw [OutboxStore.session_setSession_self] at isOwn
    obtain ⟨noPass, settled⟩ := idle dispatcher isOwn
    rw [committed]
    exact ⟨settled, fun pass isPass => nomatch noPass.symm.trans isPass⟩

theorem OutboxSound.continueTransaction (sound : OutboxSound db events store)
    {action : DispatchAction} (isOpen : store.session session = some dispatcher)
    (moves : store.continueTransaction db events session dispatcher action = some next) :
    OutboxSound db events next := by
  have passSound := sound.passes session dispatcher isOpen
  cases action with
  | begin listed =>
    simp only [OutboxStore.continueTransaction] at moves
    split at moves
    · rename_i event claimed noPass isClaimed
      split at moves
      · rename_i isListed
        cases moves
        refine sound.setSession ⟨passSound.settled, fun pass same _ workflowId isMatch => ?_⟩
        cases same
        exact .inl (isListed.mem_iff.mpr (mem_matching.mp isMatch).1)
      · cases moves
    · cases moves
  | visit => exact sound.visit isOpen moves
  | raise =>
    simp only [OutboxStore.continueTransaction] at moves
    split at moves
    · cases moves
      refine sound.settle_runs sound.distinct.rollbackTo rfl (fun other different => ⟨rfl, ?_⟩)
        (UniqueTable.pending_rollbackTo_sublist session).subset fun own isOwn => ?_
      · exact update_of_ne different _ _
      · cases isOwn
        refine ⟨rfl, fun event isDone => passSound.settled event ?_⟩
        dsimp only at isDone
        split at isDone
        · exact isDone
        · exact (mem_cons.mp isDone).resolve_left (by rintro ⟨⟩)
    · cases moves
  | finish =>
    simp only [OutboxStore.continueTransaction] at moves
    split at moves
    · rename_i event isPass
      cases moves
      have keeps : (store.runs.release session).kept session = store.runs.pending session :=
        update_self ..
      refine sound.settle_runs sound.distinct.release rfl (fun other different => ⟨?_, ?_⟩)
        (by rw [UniqueTable.pending_release]; exact Subset.refl _) fun own isOwn => ?_
      · exact update_of_ne different _ _
      · exact update_of_ne different _ _
      · cases isOwn
        refine ⟨rfl, fun done isDone workflowId isMatch => ?_⟩
        rw [keeps, UniqueTable.pending, ← append_assoc]
        have earlier : (done, .done) ∈ dispatcher.settled →
            runKey events done workflowId ∈
              store.runs.committed ++ store.runs.kept session ++ store.runs.fresh session :=
          fun wasDone => mem_append_left _ (passSound.settled done wasDone workflowId isMatch)
        dsimp only at isDone
        split at isDone
        · exact earlier isDone
        · rename_i isSweep
          refine (mem_cons.mp isDone).elim (fun same => ?_) earlier
          obtain rfl := congrArg Prod.fst same
          rw [append_assoc]
          exact (passSound.visited _ isPass (by simpa using isSweep) workflowId isMatch).resolve_left
            (not_mem_nil)
    · cases moves
  | commit =>
    simp only [OutboxStore.continueTransaction] at moves
    split at moves
    · cases moves
      refine sound.update session (fun other different => ⟨?_, ?_, ?_⟩)
        (subset_append_left _ _) sound.distinct.commit (sound.stamped session) ?_
        (fun event isDone workflowId isMatch => ?_) fun own isOwn => ?_
      · exact store.session_setSession_of_ne different _
      · exact update_of_ne different _ _
      · exact update_of_ne different _ _
      · intro key holds
        rw [UniqueTable.pending_commit, UniqueTable.pending_rollback_self] at holds
        cases holds
      · rcases done_of_settle isDone with written | before
        · have held := passSound.settled event written workflowId isMatch
          refine (append_subset.mpr ⟨subset_append_left _ _, ?_⟩) held
          exact fun key isKept => mem_append_right _ (mem_append_left _ isKept)
        · exact mem_append_left _ (sound.done event before workflowId isMatch)
      · dsimp only at isOwn
        rw [OutboxStore.session_setSession_self] at isOwn
        cases isOwn
    · cases moves
  | rollback =>
    simp only [OutboxStore.continueTransaction] at moves
    cases moves
    refine sound.settle_runs sound.distinct.rollback rfl (fun other different => ⟨?_, ?_⟩)
      (UniqueTable.pending_rollback_sublist session).subset (by rintro _ ⟨⟩)
    · exact update_of_ne different _ _
    · exact update_of_ne different _ _
  | _ => cases moves

end Statements

/-- **Every statement keeps the invariant.** -/
theorem OutboxSound.step {store next : OutboxStore ω} (sound : OutboxSound db events store)
    (event : DispatchStep ω) (moves : store.step db events event = some next) :
    OutboxSound db events next := by
  cases event with
  | publish event =>
    simp only [OutboxStore.step] at moves
    split at moves
    · cases moves
      exact sound.publish
    · cases moves
  | act session action =>
    simp only [OutboxStore.step] at moves
    split at moves
    · exact sound.openTransaction moves
    · rename_i dispatcher isOpen
      exact sound.continueTransaction isOpen moves

omit [DecidableEq ω] [Fintype ω] in
theorem outboxSound_empty : OutboxSound db events ({} : OutboxStore ω) where
  distinct := ⟨nodup_nil, fun _ => nodup_nil, fun _ _ _ => disjoint_nil_left _⟩
  stamped _ _ sees := nomatch sees
  committed _ sees := nomatch sees
  done _ isDone := nomatch isDone
  passes _ _ isOpen := nomatch isOpen

end Model

/-- **Each workflow fires exactly once per event**, whatever sweeps and inline passes do and
however their statements interleave. -/
theorem firesOnce_of_run {ω : Type*} [DecidableEq ω] [Fintype ω] (db : Db)
    (events : EventId → OutboxEvent) (steps : List (DispatchStep ω)) (store : OutboxStore ω)
    (finished : Trace.run (OutboxStore.step db events) {} steps = some store) :
    FiresOnce db events store :=
  (Trace.run_invariant (OutboxSound db events) (fun _ event _ sound moves => sound.step event moves)
    steps outboxSound_empty finished).firesOnce

/-! ## An inline pass and a sweep -/

/-- A trigger that fires on every change. -/
def notifyDefinition : WorkflowDefinitionModel where
  nodes := [{ id := "start", type := .trigger }]
  ids_nodup := by decide
  sources_known := by decide
  targets_known := by decide

def notifyTables : Db where
  workflows := [{ activeVersionId := some 0, entityDefinitionId := some 0, runInlineOnChange := true },
    { activeVersionId := some 0, entityDefinitionId := some 0 }]
  versions := [{ definition := notifyDefinition }]

def notifyEvents (_ : EventId) : OutboxEvent where
  entityDefinitionId := 0
  operation := .update
  recordId := 0

/-- The sweep finds the run of the inline pass and creates the other. -/
def notifySteps : List (DispatchStep (Fin 2)) :=
  [.act 0 (.inline 0 [0, 1]), .act 0 .visit, .act 0 .visit, .act 0 .finish, .act 0 .commit,
    .publish 0, .act 1 (.claim [0]), .act 1 (.begin [1, 0]), .act 1 .visit, .act 1 .visit,
    .act 1 .finish, .act 1 .commit]

theorem firesOnce_notifySteps :
    ∃ store, Trace.run (OutboxStore.step notifyTables notifyEvents) {} notifySteps = some store ∧
      store.status 0 = some .done ∧ FiresOnce notifyTables notifyEvents store := by
  have isDone : (Trace.run (OutboxStore.step notifyTables notifyEvents) {} notifySteps).any fun store =>
      store.status 0 = some .done := by decide
  obtain ⟨store, finished, done⟩ := (Option.any_eq_true ..).mp isDone
  exact ⟨store, finished, of_decide_eq_true done, firesOnce_of_run _ _ _ _ finished⟩

end RedArchKM.Workflow
