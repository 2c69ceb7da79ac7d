import RedArchKM.Agents.Executor
import RedArchKM.Lib.RowVersions
import RedArchKM.Lib.Trace

/-!
# Deciding an approval side by side

Reviewers approve and deny a pending approval, and its run may be cancelled, each in a
transaction of its own under READ COMMITTED. A decision reads the approval, refuses one that is
not pending, and later writes what it decided over whatever the row then holds. A cancellation
asks again in both of its updates.

A decision that commits before anybody else has written what it read finds the approval still
pending (`upToDate_run`). Where all of them do, the first transaction to settle the approval, a
decision or the cancellation, settles it for good: every later decision is refused, and the run is
queued again exactly for an approval of a run that waits (`Orderly.decidedFirst`). If that first one
is a decision, one decision returns (`decidesOnce_of_apart`). Two decisions that both read the
approval before either commits are not kept apart: both return (`not_decidesOnce_sideBySide`).
-/

namespace RedArchKM.Agents.Decisions

open Lib List Option

/-! ## What the calls write -/

def statusName : ApprovalStatus → String
  | .pending => "pending"
  | .approved => "approved"
  | .denied => "denied"
  | .voided => "voided"

/-- A decision as it is flushed: only the columns that differ from what was loaded. -/
def decided (loaded : AgentApproval) (status : ApprovalStatus) (decidedBy : Option ProfileId)
    (current : AgentApproval) : AgentApproval :=
  { current with
    status
    decidedBy := if decidedBy = loaded.decidedBy then current.decidedBy else decidedBy }

def approvedStatus (run : AgentRun) : ApprovalStatus :=
  if run.status.isTerminal then .voided else .approved

/-- The run of an approval, queued again with the tool let through, as it is flushed. -/
def requeued (toolName : String) (loaded current : AgentRun) : AgentRun :=
  let next := Life.requeue (fun resume =>
    { resume with approved := sortedNames (resume.approved ++ [toolName]) }) loaded
  { current with
    status := next.status
    input := next.input
    waitKind := if loaded.waitKind.isNone then current.waitKind else none }

/-- The run of a denied approval. -/
def failed (toolName : String) (run : AgentRun) : AgentRun :=
  run.finalize .error (some s!"approval denied: {toolName}") 0

def cancelled (reason : String) (run : AgentRun) : AgentRun :=
  { run with status := .cancelled, error := some reason, waitKind := none }

/-! ## The transactions -/

inductive Request where
  | approve (decidedBy : Option ProfileId)
  | deny (decidedBy : Option ProfileId)
  | cancel (reason : String)

def Request.isDecision : Request → Bool
  | .approve _ | .deny _ => true
  | .cancel _ => false

/-- How far a transaction has come. -/
inductive Phase where
  | waiting
  /-- A decision has read a pending approval. -/
  | loaded (approval : AgentApproval)
  /-- An approval has read the run; which of the two rows it has flushed. -/
  | checked (approval : AgentApproval) (run : AgentRun) (approvalFlushed runFlushed : Bool)
  /-- A denial has flushed the approval. -/
  | marked (approval : AgentApproval)
  /-- A denial has read the run. -/
  | judged (approval : AgentApproval) (run : AgentRun)
  | voiding
  | ready
  | returned
  /-- `ApprovalAlreadySettledError` -/
  | refused (message : String)
  /-- The database has ended the transaction, as it does with one of two that wait for each
  other. -/
  | aborted

def Phase.isEnded : Phase → Bool
  | .returned | .refused _ | .aborted => true
  | _ => false

structure Transaction where
  request : Request
  phase : Phase := .waiting

/-- A commit that changed the approval or its run, and what is committed after it. -/
structure Settlement where
  transaction : Nat
  approval : AgentApproval
  run : AgentRun
  /-- It queued a run that was not queued. -/
  requeues : Bool

structure System where
  approval : Row AgentApproval
  run : Row AgentRun
  transactions : List Transaction
  commits : List Settlement := []

inductive Act where
  | readApproval
  | readRun
  | writeApproval
  | writeRun
  | commit
  | abort
deriving DecidableEq

structure Action where
  transaction : Nat
  act : Act

section

variable (state : System) (index : Nat) (request : Request)

def System.moved (phase : Phase) : System :=
  { state with transactions := state.transactions.set index ⟨request, phase⟩ }

/-- The end of a transaction that returns. -/
def System.committed : System :=
  let approval := state.approval.commit index
  let run := state.run.commit index
  { approval, run
    transactions := state.transactions.set index ⟨request, .returned⟩
    commits :=
      if state.approval.heldBy index || state.run.heldBy index then
        state.commits ++ [{
          transaction := index
          approval := approval.committed
          run := run.committed
          requeues := state.run.committed.status ≠ .queued ∧ run.committed.status = .queued }]
      else state.commits }

end

section Committed

variable (state : System) (index : Nat) (request : Request)

@[simp] theorem System.transactions_committed : (state.committed index request).transactions =
    state.transactions.set index ⟨request, .returned⟩ := rfl

@[simp] theorem System.approval_committed :
    (state.committed index request).approval = state.approval.commit index := rfl

end Committed

section

variable (state : System) (index : Nat)

/-- `_get` and `_require_pending`. -/
def requirePending (request : Request) : System :=
  let approval := state.approval.seen index
  if approval.status = .pending then state.moved index request (.loaded approval)
  else
    state.moved index request
      (.refused s!"This request was already {statusName approval.status}")

/-- What `approve` does next; its flush writes the two rows in either order. -/
def approveStep (decidedBy : Option ProfileId) : Phase → Act → Option System
  | .waiting, .readApproval => some (requirePending state index (.approve decidedBy))
  | .loaded approval, .readRun =>
    some (state.moved index (.approve decidedBy)
      (.checked approval (state.run.seen index) false false))
  | .checked approval run false runFlushed, .writeApproval =>
    (state.approval.write index (decided approval (approvedStatus run) decidedBy)).map
      fun row =>
        { state.moved index (.approve decidedBy) (.checked approval run true runFlushed) with
          approval := row }
  | .checked approval run approvalFlushed false, .writeRun =>
    if run.status = .waiting then
      (state.run.write index (requeued approval.toolName run)).map fun row =>
        { state.moved index (.approve decidedBy)
            (.checked approval run approvalFlushed true) with run := row }
    else none
  | .checked _ run true runFlushed, .commit =>
    if run.status = .waiting ∧ runFlushed = false then none
    else some (state.committed index (.approve decidedBy))
  | _, _ => none

/-- What `deny` does next. Reading the run flushes the approval first. -/
def denyStep (decidedBy : Option ProfileId) : Phase → Act → Option System
  | .waiting, .readApproval => some (requirePending state index (.deny decidedBy))
  | .loaded approval, .writeApproval =>
    (state.approval.write index (decided approval .denied decidedBy)).map fun row =>
      { state.moved index (.deny decidedBy) (.marked approval) with approval := row }
  | .marked approval, .readRun =>
    some (state.moved index (.deny decidedBy) (.judged approval (state.run.seen index)))
  | .judged approval run, .writeRun =>
    if run.status = .waiting ∧ (state.run.seen index).status.isTerminal = false then
      (state.run.write index (failed approval.toolName)).map fun row =>
        { state.moved index (.deny decidedBy) .ready with run := row }
    else some (state.moved index (.deny decidedBy) .ready)
  | .ready, .commit => some (state.committed index (.deny decidedBy))
  | _, _ => none

/-- What `cancel_run` does next. Both updates ask the row again. -/
def cancelStep (reason : String) : Phase → Act → Option System
  | .waiting, .writeRun =>
    if (state.run.seen index).status.isTerminal then
      some (state.moved index (.cancel reason) .ready)
    else
      (state.run.write index (cancelled reason)).map fun row =>
        { state.moved index (.cancel reason) .voiding with run := row }
  | .voiding, .writeApproval =>
    if (state.approval.seen index).status = .pending then
      (state.approval.write index fun approval => { approval with status := .voided }).map
        fun row => { state.moved index (.cancel reason) .ready with approval := row }
    else some (state.moved index (.cancel reason) .ready)
  | .ready, .commit => some (state.committed index (.cancel reason))
  | _, _ => none

def abortStep (transaction : Transaction) : Option System :=
  if transaction.phase.isEnded then none
  else
    some { state.moved index transaction.request .aborted with
      approval := state.approval.rollback index
      run := state.run.rollback index }

end

/-- One statement of one of the transactions. -/
def step (state : System) (action : Action) : Option System :=
  match state.transactions[action.transaction]? with
  | none => none
  | some transaction =>
    match action.act with
    | .abort => abortStep state action.transaction transaction
    | act =>
      match transaction.request with
      | .approve decidedBy =>
        approveStep state action.transaction decidedBy transaction.phase act
      | .deny decidedBy => denyStep state action.transaction decidedBy transaction.phase act
      | .cancel reason => cancelStep state action.transaction reason transaction.phase act

/-- A pending approval and its run before any of the requests has begun. -/
def begin (approval : AgentApproval) (run : AgentRun) (requests : List Request) : System where
  approval := { committed := { approval with status := .pending } }
  run := { committed := run }
  transactions := requests.map fun request => { request := request }

/-! ## What one step can do -/

/-- A transaction that has nothing left but to commit. -/
inductive CanCommit : Transaction → Prop
  | approve (decidedBy : Option ProfileId) (approval : AgentApproval) (run : AgentRun)
      (runFlushed : Bool) (flushed : run.status = .waiting → runFlushed = true) :
      CanCommit ⟨.approve decidedBy, .checked approval run true runFlushed⟩
  | deny (decidedBy : Option ProfileId) : CanCommit ⟨.deny decidedBy, .ready⟩
  | cancel (reason : String) : CanCommit ⟨.cancel reason, .ready⟩

inductive Moves (state : System) (index : Nat) (act : Act) : Transaction → System → Prop
  | refuse (request : Request) (decision : request.isDecision = true)
      (settled : (state.approval.seen index).status ≠ .pending) (message : String) :
      Moves state index act ⟨request, .waiting⟩ (state.moved index request (.refused message))
  | load (request : Request) (pending : (state.approval.seen index).status = .pending) :
      Moves state index act ⟨request, .waiting⟩
        (state.moved index request (.loaded (state.approval.seen index)))
  | check (decidedBy : Option ProfileId) (approval : AgentApproval) :
      Moves state index act ⟨.approve decidedBy, .loaded approval⟩
        (state.moved index (.approve decidedBy)
          (.checked approval (state.run.seen index) false false))
  | flushApproval (decidedBy : Option ProfileId) (approval : AgentApproval) (run : AgentRun)
      (runFlushed : Bool) (row : Row AgentApproval)
      (written : state.approval.write index (decided approval (approvedStatus run) decidedBy) =
        some row) :
      Moves state index act ⟨.approve decidedBy, .checked approval run false runFlushed⟩
        { state.moved index (.approve decidedBy) (.checked approval run true runFlushed) with
          approval := row }
  | flushRun (decidedBy : Option ProfileId) (approval : AgentApproval) (run : AgentRun)
      (approvalFlushed : Bool) (waits : run.status = .waiting) (row : Row AgentRun)
      (written : state.run.write index (requeued approval.toolName run) = some row) :
      Moves state index act ⟨.approve decidedBy, .checked approval run approvalFlushed false⟩
        { state.moved index (.approve decidedBy) (.checked approval run approvalFlushed true) with
          run := row }
  | mark (decidedBy : Option ProfileId) (approval : AgentApproval) (row : Row AgentApproval)
      (written : state.approval.write index (decided approval .denied decidedBy) = some row) :
      Moves state index act ⟨.deny decidedBy, .loaded approval⟩
        { state.moved index (.deny decidedBy) (.marked approval) with approval := row }
  | judge (decidedBy : Option ProfileId) (approval : AgentApproval) :
      Moves state index act ⟨.deny decidedBy, .marked approval⟩
        (state.moved index (.deny decidedBy) (.judged approval (state.run.seen index)))
  | fail (decidedBy : Option ProfileId) (approval : AgentApproval) (run : AgentRun)
      (waits : run.status = .waiting) (row : Row AgentRun)
      (written : state.run.write index (failed approval.toolName) = some row) :
      Moves state index act ⟨.deny decidedBy, .judged approval run⟩
        { state.moved index (.deny decidedBy) .ready with run := row }
  | pass (decidedBy : Option ProfileId) (approval : AgentApproval) (run : AgentRun)
      (ended : ¬(run.status = .waiting ∧ (state.run.seen index).status.isTerminal = false)) :
      Moves state index act ⟨.deny decidedBy, .judged approval run⟩
        (state.moved index (.deny decidedBy) .ready)
  | lose (reason : String) (ended : (state.run.seen index).status.isTerminal = true) :
      Moves state index act ⟨.cancel reason, .waiting⟩ (state.moved index (.cancel reason) .ready)
  | win (reason : String) (running : (state.run.seen index).status.isTerminal = false)
      (row : Row AgentRun) (written : state.run.write index (cancelled reason) = some row) :
      Moves state index act ⟨.cancel reason, .waiting⟩
        { state.moved index (.cancel reason) .voiding with run := row }
  | void (reason : String) (pending : (state.approval.seen index).status = .pending)
      (row : Row AgentApproval)
      (written : (state.approval.write index fun approval =>
        { approval with status := .voided }) = some row) :
      Moves state index act ⟨.cancel reason, .voiding⟩
        { state.moved index (.cancel reason) .ready with approval := row }
  | leave (reason : String) (settled : (state.approval.seen index).status ≠ .pending) :
      Moves state index act ⟨.cancel reason, .voiding⟩ (state.moved index (.cancel reason) .ready)
  | commit (transaction : Transaction) (can : CanCommit transaction)
      (commits : act = .commit) :
      Moves state index act transaction (state.committed index transaction.request)
  | abort (transaction : Transaction) (running : transaction.phase.isEnded = false) :
      Moves state index act transaction
        { state.moved index transaction.request .aborted with
          approval := state.approval.rollback index
          run := state.run.rollback index }

variable {start state next : System} {index : Nat} {transaction : Transaction} {action : Action}

variable {act : Act}

theorem moves_requirePending (request : Request) (decision : request.isDecision = true) :
    Moves state index act ⟨request, .waiting⟩ (requirePending state index request) := by
  unfold requirePending
  dsimp only
  split
  · next pending => exact .load request pending
  · next settled => exact .refuse request decision settled _

variable {phase : Phase}

theorem moves_of_approveStep {decidedBy : Option ProfileId}
    (stepped : approveStep state index decidedBy phase act = some next) :
    Moves state index act ⟨.approve decidedBy, phase⟩ next := by
  unfold approveStep at stepped
  split at stepped
  · cases stepped
    exact moves_requirePending _ rfl
  · cases stepped
    exact .check _ _
  · obtain ⟨row, written, rfl⟩ := map_eq_some_iff.mp stepped
    exact .flushApproval _ _ _ _ row written
  · split at stepped
    · next waits =>
        obtain ⟨row, written, rfl⟩ := map_eq_some_iff.mp stepped
        exact .flushRun _ _ _ _ waits row written
    · cases stepped
  · split at stepped
    · cases stepped
    · next flushed =>
        cases stepped
        refine .commit _ (.approve _ _ _ _ fun waits => ?_) rfl
        exact Bool.not_eq_false _ ▸ fun unflushed => flushed ⟨waits, unflushed⟩
  · cases stepped

theorem moves_of_denyStep {decidedBy : Option ProfileId}
    (stepped : denyStep state index decidedBy phase act = some next) :
    Moves state index act ⟨.deny decidedBy, phase⟩ next := by
  unfold denyStep at stepped
  split at stepped
  · cases stepped
    exact moves_requirePending _ rfl
  · obtain ⟨row, written, rfl⟩ := map_eq_some_iff.mp stepped
    exact .mark _ _ row written
  · cases stepped
    exact .judge _ _
  · split at stepped
    · next waits =>
        obtain ⟨row, written, rfl⟩ := map_eq_some_iff.mp stepped
        exact .fail _ _ _ waits.1 row written
    · next ended =>
        cases stepped
        exact .pass _ _ _ ended
  · cases stepped
    exact .commit _ (.deny _) rfl
  · cases stepped

theorem moves_of_cancelStep {reason : String}
    (stepped : cancelStep state index reason phase act = some next) :
    Moves state index act ⟨.cancel reason, phase⟩ next := by
  unfold cancelStep at stepped
  split at stepped
  · split at stepped
    · next ended =>
        cases stepped
        exact .lose _ ended
    · next running =>
        obtain ⟨row, written, rfl⟩ := map_eq_some_iff.mp stepped
        exact .win _ (Bool.eq_false_iff.mpr running) row written
  · split at stepped
    · next pending =>
        obtain ⟨row, written, rfl⟩ := map_eq_some_iff.mp stepped
        exact .void _ pending row written
    · next settled =>
        cases stepped
        exact .leave _ settled
  · cases stepped
    exact .commit _ (.cancel _) rfl
  · cases stepped

theorem moves_of_step (stepped : step state action = some next) :
    ∃ transaction, state.transactions[action.transaction]? = some transaction ∧
      Moves state action.transaction action.act transaction next := by
  unfold step at stepped
  cases found : state.transactions[action.transaction]? with
  | none =>
    rw [found] at stepped
    cases stepped
  | some transaction =>
    refine ⟨transaction, rfl, ?_⟩
    obtain ⟨request, phase⟩ := transaction
    simp only [found] at stepped
    split at stepped
    · unfold abortStep at stepped
      split at stepped
      · cases stepped
      · next running =>
          cases stepped
          exact .abort _ (Bool.eq_false_iff.mpr running)
    · cases request with
      | approve decidedBy => exact moves_of_approveStep stepped
      | deny decidedBy => exact moves_of_denyStep stepped
      | cancel reason => exact moves_of_cancelStep stepped

section

variable (moves : Moves state index act transaction next)

include moves

/-- A step moves one transaction on, which has begun then and had not ended. -/
theorem Moves.advances : transaction.phase.isEnded = false ∧ ∃ phase,
      next.transactions = state.transactions.set index ⟨transaction.request, phase⟩ ∧
        phase ≠ .waiting := by
  cases moves with
  | abort transaction running => exact ⟨running, _, rfl, nofun⟩
  | commit transaction can commits =>
    refine ⟨?_, .returned, rfl, nofun⟩
    cases can <;> rfl
  | _ => exact ⟨rfl, _, rfl, nofun⟩

/-- Only the commit of the transaction that holds the approval changes what is committed of it. -/
theorem Moves.committed_approval : next.approval.committed = state.approval.committed ∨
      act = .commit ∧ state.approval.heldBy index = true ∧
        ∃ phase, phase.isEnded = true ∧
          next.transactions = state.transactions.set index ⟨transaction.request, phase⟩ := by
  cases moves with
  | flushApproval _ _ _ _ row written => exact .inl (Row.committed_write written)
  | mark _ _ row written => exact .inl (Row.committed_write written)
  | void _ _ row written => exact .inl (Row.committed_write written)
  | abort transaction running => exact .inl Row.committed_rollback
  | commit transaction can commits =>
    cases held : state.approval.heldBy index with
    | true => exact .inr ⟨commits, rfl, .returned, rfl, rfl⟩
    | false => exact .inl (congrArg Row.committed (Row.commit_of_not_held held))
  | _ => exact .inl rfl

/-- A step gives the approval to nobody but its own transaction. -/
theorem Moves.held_approval {other : Nat} {version : AgentApproval} (differs : other ≠ index)
    (held : next.approval.draft = some (other, version)) :
    state.approval.draft = some (other, version) := by
  have own {change : AgentApproval → AgentApproval} {row : Row AgentApproval}
      (written : state.approval.write index change = some row)
      (held : row.draft = some (other, version)) : False := by
    obtain ⟨_, draft⟩ := Row.exists_draft_write written
    exact differs (Prod.mk.inj (some.inj (held.symm.trans draft))).1
  cases moves with
  | flushApproval _ _ _ _ row written => exact (own written held).elim
  | mark _ _ row written => exact (own written held).elim
  | void _ _ row written => exact (own written held).elim
  | abort transaction running => exact Row.draft_of_rollback held
  | commit transaction can commits => exact Row.draft_of_commit held
  | _ => exact held

end

/-! ## While nothing is settled -/

/-- The approval that a transaction has written on the rows as they were at the start. -/
def approvalVersion (start : System) : Transaction → Option AgentApproval
  | ⟨.approve decidedBy, .checked _ _ true _⟩ =>
    some (decided start.approval.committed (approvedStatus start.run.committed) decidedBy
      start.approval.committed)
  | ⟨.deny decidedBy, .marked _⟩ | ⟨.deny decidedBy, .judged _ _⟩ | ⟨.deny decidedBy, .ready⟩ =>
    some (decided start.approval.committed .denied decidedBy start.approval.committed)
  | ⟨.cancel _, .ready⟩ =>
    if start.run.committed.status.isTerminal then none
    else some { start.approval.committed with status := .voided }
  | _ => none

/-- The run that a transaction has written on the rows as they were at the start. -/
def runVersion (start : System) : Transaction → Option AgentRun
  | ⟨.approve _, .checked _ _ _ true⟩ =>
    some (requeued start.approval.committed.toolName start.run.committed start.run.committed)
  | ⟨.deny _, .ready⟩ =>
    if start.run.committed.status = .waiting then
      some (failed start.approval.committed.toolName start.run.committed)
    else none
  | ⟨.cancel reason, .voiding⟩ => some (cancelled reason start.run.committed)
  | ⟨.cancel reason, .ready⟩ =>
    if start.run.committed.status.isTerminal then none
    else some (cancelled reason start.run.committed)
  | _ => none

theorem approvalVersion_waiting {request : Request} :
    approvalVersion start ⟨request, .waiting⟩ = none := by
  cases request <;> rfl

/-- What a transaction has read are the rows as they were at the start, and no decision has
ended but by an abort. -/
def Agrees (start : System) : Transaction → Prop
  | ⟨_, .loaded approval⟩ | ⟨_, .marked approval⟩ => approval = start.approval.committed
  | ⟨_, .checked approval run _ runFlushed⟩ =>
    approval = start.approval.committed ∧ run = start.run.committed ∧
      (runFlushed = true → start.run.committed.status = .waiting)
  | ⟨_, .judged approval run⟩ =>
    approval = start.approval.committed ∧ run = start.run.committed
  | ⟨_, .voiding⟩ => start.run.committed.status.isTerminal = false
  | ⟨request, .returned⟩ => request.isDecision = false
  | ⟨_, .refused _⟩ => False
  | _ => True

structure Open (start state : System) : Prop where
  approval : state.approval.committed = start.approval.committed
  run : state.run.committed = start.run.committed
  commits : state.commits = []
  approvals : Row.Owned (approvalVersion start) state.approval state.transactions
  runs : Row.Owned (runVersion start) state.run state.transactions
  agrees : ∀ (index : Nat) (transaction : Transaction),
    state.transactions[index]? = some transaction → Agrees start transaction

theorem getElem?_set_cases {transactions : List Transaction} {set found : Transaction}
    {other : Nat} (looked : (transactions.set index set)[other]? = some found) :
    (other = index ∧ found = set) ∨ (other ≠ index ∧ transactions[other]? = some found) := by
  rw [getElem?_set] at looked
  by_cases same : index = other
  · rw [if_pos same] at looked
    split at looked
    · exact .inl ⟨same.symm, (some.inj looked).symm⟩
    · cases looked
  · rw [if_neg same] at looked
    exact .inr ⟨fun isIndex => same isIndex.symm, looked⟩

section

variable (isOpen : Open start state)

include isOpen

theorem Open.seen_approval (found : state.transactions[index]? = some transaction)
    (none : approvalVersion start transaction = none) :
    state.approval.seen index = start.approval.committed :=
  (Row.seen_of_not_held (isOpen.approvals.not_held found none)).trans isOpen.approval

theorem Open.seen_run (found : state.transactions[index]? = some transaction)
    (none : runVersion start transaction = none) : state.run.seen index = start.run.committed :=
  (Row.seen_of_not_held (isOpen.runs.not_held found none)).trans isOpen.run

theorem Open.agrees_set {set : Transaction} (agrees : Agrees start set) (other : Nat)
    (others : Transaction) (looked : (state.transactions.set index set)[other]? = some others) :
    Agrees start others := by
  rcases getElem?_set_cases looked with ⟨rfl, rfl⟩ | ⟨_, here⟩
  · exact agrees
  · exact isOpen.agrees other others here

variable {request : Request}

section

variable (found : state.transactions[index]? = some transaction)

include found

theorem Open.moved
    (approvals : approvalVersion start ⟨request, phase⟩ = approvalVersion start transaction)
    (runs : runVersion start ⟨request, phase⟩ = runVersion start transaction)
    (agrees : Agrees start ⟨request, phase⟩) : Open start (state.moved index request phase) where
  approval := isOpen.approval
  run := isOpen.run
  commits := isOpen.commits
  approvals := isOpen.approvals.keep found approvals
  runs := isOpen.runs.keep found runs
  agrees := isOpen.agrees_set agrees

theorem Open.writesApproval {change : AgentApproval → AgentApproval} {row : Row AgentApproval}
    (written : state.approval.write index change = some row)
    (free : approvalVersion start transaction = none)
    (wrote : approvalVersion start ⟨request, phase⟩ = some (change start.approval.committed))
    (runs : runVersion start ⟨request, phase⟩ = runVersion start transaction)
    (agrees : Agrees start ⟨request, phase⟩) :
    Open start { state.moved index request phase with approval := row } where
  approval := (Row.committed_write written).trans isOpen.approval
  run := isOpen.run
  commits := isOpen.commits
  approvals := isOpen.approvals.write found free written (isOpen.approval ▸ wrote)
  runs := isOpen.runs.keep found runs
  agrees := isOpen.agrees_set agrees

theorem Open.writesRun {change : AgentRun → AgentRun} {row : Row AgentRun}
    (written : state.run.write index change = some row) (free : runVersion start transaction = none)
    (wrote : runVersion start ⟨request, phase⟩ = some (change start.run.committed))
    (approvals : approvalVersion start ⟨request, phase⟩ = approvalVersion start transaction)
    (agrees : Agrees start ⟨request, phase⟩) :
    Open start { state.moved index request phase with run := row } where
  approval := isOpen.approval
  run := (Row.committed_write written).trans isOpen.run
  commits := isOpen.commits
  approvals := isOpen.approvals.keep found approvals
  runs := isOpen.runs.write found free written (isOpen.run ▸ wrote)
  agrees := isOpen.agrees_set agrees

end

end

def Pending (start : System) : Prop := start.approval.committed.status = .pending

theorem Open.moves (pending : Pending start) (isOpen : Open start state)
    (found : state.transactions[index]? = some transaction)
    {act : Act} (moves : Moves state index act transaction next) :
    (act = .commit ∧ CanCommit transaction ∧ next = state.committed index transaction.request) ∨
      Open start next := by
  have agrees := isOpen.agrees index transaction found
  cases moves with
  | commit transaction can commits => exact .inl ⟨commits, can, rfl⟩
  | refuse request decision settled message =>
    rw [isOpen.seen_approval found approvalVersion_waiting] at settled
    exact absurd pending settled
  | load request pending =>
    have same := isOpen.seen_approval found approvalVersion_waiting
    refine .inr (isOpen.moved found ?_ ?_ same) <;> cases request <;> rfl
  | check decidedBy approval =>
    refine .inr (isOpen.moved found rfl rfl ⟨agrees, isOpen.seen_run found rfl, nofun⟩)
  | flushApproval decidedBy approval run runFlushed row written =>
    obtain ⟨rfl, rfl, waits⟩ := agrees
    refine .inr (isOpen.writesApproval found written rfl rfl ?_ ⟨rfl, rfl, waits⟩)
    cases runFlushed <;> rfl
  | flushRun decidedBy approval run approvalFlushed waits row written =>
    obtain ⟨rfl, rfl, _⟩ := agrees
    refine .inr (isOpen.writesRun found written ?_ ?_ ?_ ⟨rfl, rfl, fun _ => waits⟩) <;>
      cases approvalFlushed <;> rfl
  | mark decidedBy approval row written =>
    obtain rfl : approval = start.approval.committed := agrees
    exact .inr (isOpen.writesApproval found written rfl rfl rfl rfl)
  | judge decidedBy approval =>
    exact .inr (isOpen.moved found rfl rfl ⟨agrees, isOpen.seen_run found rfl⟩)
  | fail decidedBy approval run waits row written =>
    obtain ⟨rfl, rfl⟩ := agrees
    exact .inr (isOpen.writesRun found written rfl (if_pos waits) rfl trivial)
  | pass decidedBy approval run ended =>
    obtain ⟨rfl, rfl⟩ := agrees
    rw [isOpen.seen_run found rfl] at ended
    have notWaiting : start.run.committed.status ≠ .waiting := fun waits =>
      ended ⟨waits, by rw [waits]; rfl⟩
    exact .inr (isOpen.moved found rfl (if_neg notWaiting) trivial)
  | lose reason ended =>
    rw [isOpen.seen_run found rfl] at ended
    exact .inr (isOpen.moved found (if_pos ended) (if_pos ended) trivial)
  | win reason running row written =>
    rw [isOpen.seen_run found rfl] at running
    exact .inr (isOpen.writesRun found written rfl rfl rfl running)
  | void reason pending row written =>
    have running : start.run.committed.status.isTerminal = false := agrees
    have alive : ¬start.run.committed.status.isTerminal = true := by simp [running]
    exact .inr (isOpen.writesApproval found written rfl (if_neg alive) (if_neg alive) trivial)
  | leave reason settled =>
    rw [isOpen.seen_approval found rfl] at settled
    exact absurd pending settled
  | abort transaction running =>
    have approvals : approvalVersion start ⟨transaction.request, .aborted⟩ = none := by
      cases transaction.request <;> rfl
    have runs : runVersion start ⟨transaction.request, .aborted⟩ = none := by
      cases transaction.request <;> rfl
    exact .inr
      { approval := Row.committed_rollback.trans isOpen.approval
        run := Row.committed_rollback.trans isOpen.run
        commits := isOpen.commits
        approvals := isOpen.approvals.release found approvals
        runs := isOpen.runs.release found runs
        agrees := isOpen.agrees_set trivial }

/-! ## Once something is settled -/

/-- What the first commit has made of the rows as they were at the start. -/
def SettledBy (start : System) (settlement : Settlement) : Request → Prop
  | .approve decidedBy =>
    settlement.approval = decided start.approval.committed (approvedStatus start.run.committed)
      decidedBy start.approval.committed ∧
    settlement.run = (if start.run.committed.status = .waiting then
      requeued start.approval.committed.toolName start.run.committed start.run.committed
      else start.run.committed) ∧
    settlement.requeues = decide (start.run.committed.status = .waiting)
  | .deny decidedBy =>
    settlement.approval = decided start.approval.committed .denied decidedBy
      start.approval.committed ∧
    settlement.run = (if start.run.committed.status = .waiting then
      failed start.approval.committed.toolName start.run.committed
      else start.run.committed) ∧
    settlement.requeues = false
  | .cancel reason =>
    settlement.approval = { start.approval.committed with status := .voided } ∧
    settlement.run = cancelled reason start.run.committed ∧
    settlement.requeues = false

/-- The first commit has settled the approval, and what came after it was a cancellation. -/
structure Closed (start state : System) (first : Settlement) (rest : List Settlement) : Prop where
  commits : state.commits = first :: rest
  settled : ∃ transaction, state.transactions[first.transaction]? = some transaction ∧
    transaction.phase = .returned ∧ SettledBy start first transaction.request
  approval : state.approval.committed = first.approval
  notPending : first.approval.status ≠ .pending
  later : ∀ settlement ∈ rest, settlement.requeues = false
  others : ∀ (index : Nat) (transaction : Transaction),
    state.transactions[index]? = some transaction → transaction.request.isDecision = true →
      transaction.phase = .returned → index = first.transaction
  drafts : ∀ (index : Nat) (transaction : Transaction) version,
    state.approval.draft = some (index, version) →
      state.transactions[index]? = some transaction → transaction.request.isDecision = true
  runs : ∀ (index : Nat) (transaction : Transaction) version,
    state.run.draft = some (index, version) → state.transactions[index]? = some transaction →
      transaction.request.isDecision = false → version.status = .cancelled

@[simp] theorem status_decided (loaded current : AgentApproval) (status : ApprovalStatus)
    (decidedBy : Option ProfileId) : (decided loaded status decidedBy current).status = status :=
  rfl

theorem status_failed {toolName : String} {run : AgentRun} (waits : run.status = .waiting) :
    (failed toolName run).status = .error := by
  unfold failed AgentRun.finalize
  rw [if_neg (by simp [waits, Workflow.AgentRunStatus.isTerminal])]

def firstSettlement (start : System) (index : Nat) (transaction : Transaction)
    (approval : AgentApproval) : Settlement :=
  let run := (runVersion start transaction).getD start.run.committed
  { transaction := index
    approval, run
    requeues := start.run.committed.status ≠ .queued ∧ run.status = .queued }

theorem settledBy_of_canCommit (index : Nat) (can : CanCommit transaction)
    (agrees : Agrees start transaction)
    {version : AgentApproval} (wrote : approvalVersion start transaction = some version) :
    SettledBy start (firstSettlement start index transaction version) transaction.request ∧
      version.status ≠ .pending := by
  cases can with
  | approve decidedBy approval run runFlushed flushed =>
    obtain ⟨rfl, rfl, waits⟩ := agrees
    cases wrote
    refine ⟨⟨rfl, ?_, ?_⟩, ?_⟩
    · cases runFlushed with
      | true => exact (if_pos (waits rfl)).symm
      | false => exact (if_neg fun waiting => by simpa using flushed waiting).symm
    · cases runFlushed with
      | true => simp [firstSettlement, runVersion, waits rfl, requeued, Life.requeue]
      | false =>
        have notWaiting : start.run.committed.status ≠ .waiting := fun waiting => by
          simpa using flushed waiting
        simp [firstSettlement, runVersion, notWaiting]
    · rw [status_decided]
      unfold approvedStatus
      split <;> exact nofun
  | deny decidedBy =>
    cases wrote
    refine ⟨⟨rfl, ?_, ?_⟩, nofun⟩
    · by_cases waits : start.run.committed.status = .waiting
      · simp [firstSettlement, runVersion, waits]
      · simp [firstSettlement, runVersion, waits]
    · by_cases waits : start.run.committed.status = .waiting
      · simp [firstSettlement, runVersion, waits, status_failed]
      · simp [firstSettlement, runVersion, waits]
  | cancel reason =>
    by_cases ended : start.run.committed.status.isTerminal = true
    · rw [approvalVersion, if_pos ended] at wrote
      cases wrote
    · rw [approvalVersion, if_neg ended] at wrote
      cases wrote
      refine ⟨⟨rfl, ?_, ?_⟩, nofun⟩
      · simp [firstSettlement, runVersion, ended]
      · simp [firstSettlement, runVersion, ended, cancelled]

theorem Open.commit_run (isOpen : Open start state)
    (found : state.transactions[index]? = some transaction) :
    (state.run.commit index).committed =
      (runVersion start transaction).getD start.run.committed := by
  cases wrote : runVersion start transaction with
  | none =>
    rw [Row.commit_of_not_held (isOpen.runs.not_held found wrote)]
    exact isOpen.run
  | some version =>
    rw [Row.commit_of_draft (isOpen.runs.draft found wrote)]
    rfl

theorem status_of_runVersion {version : AgentRun} (wrote : runVersion start transaction = some version)
    (cancels : transaction.request.isDecision = false) : version.status = .cancelled := by
  obtain ⟨request, phase⟩ := transaction
  cases request with
  | approve decidedBy => cases cancels
  | deny decidedBy => cases cancels
  | cancel reason =>
    cases phase with
    | voiding =>
      cases wrote
      rfl
    | ready =>
      rw [runVersion] at wrote
      split at wrote
      · cases wrote
      · cases wrote
        rfl
    | _ => cases wrote

theorem Open.committed (isOpen : Open start state)
    (found : state.transactions[index]? = some transaction) (can : CanCommit transaction) :
    (∃ first, first.transaction = index ∧ state.approval.heldBy index = true ∧
        Closed start (state.committed index transaction.request) first []) ∨
      Open start (state.committed index transaction.request) := by
  have agrees := isOpen.agrees index transaction found
  obtain ⟨inside, _⟩ := List.getElem?_eq_some_iff.mp found
  cases wrote : approvalVersion start transaction with
  | some version =>
    left
    have draft := isOpen.approvals.draft found wrote
    have held : state.approval.heldBy index = true := Row.heldBy_iff.mpr ⟨version, draft⟩
    obtain ⟨settledBy, notPending⟩ := settledBy_of_canCommit index can agrees wrote
    have approval := Row.commit_of_draft draft
    have commits : (state.committed index transaction.request).commits =
        [firstSettlement start index transaction version] := by
      simp only [System.committed, held, Bool.true_or, if_true, isOpen.commits, nil_append,
        approval, isOpen.commit_run found, isOpen.run, firstSettlement]
    have returned : (state.committed index transaction.request).transactions[index]? =
        some ⟨transaction.request, .returned⟩ := by
      rw [System.transactions_committed, getElem?_set_self inside]
    have settled : (state.committed index transaction.request).approval.committed = version := by
      rw [System.approval_committed, approval]
    refine ⟨firstSettlement start index transaction version, rfl, held, commits,
      ⟨_, returned, rfl, settledBy⟩, settled, notPending, forall_mem_nil _, ?_, ?_, ?_⟩
    · intro other others looked decision returned
      rcases getElem?_set_cases looked with ⟨same, _⟩ | ⟨_, here⟩
      · exact same
      · obtain ⟨request, phase⟩ := others
        obtain rfl : phase = .returned := returned
        have agreed : request.isDecision = false := isOpen.agrees other _ here
        exact absurd decision (by simp [agreed])
    · intro other others version held
      rw [System.approval_committed, approval] at held
      cases held
    · intro other others version held looked cancels
      have draft := Row.draft_of_commit held
      obtain ⟨holder, here, wrote⟩ := (isOpen.runs other version).mp draft
      rcases getElem?_set_cases looked with ⟨rfl, rfl⟩ | ⟨_, there⟩
      · obtain rfl : transaction = holder := some.inj (found.symm.trans here)
        exact status_of_runVersion wrote cancels
      · obtain rfl : holder = others := some.inj (here.symm.trans there)
        exact status_of_runVersion wrote cancels
  | none =>
    right
    obtain ⟨cancels, runs⟩ : transaction.request.isDecision = false ∧
        runVersion start transaction = none := by
      cases can with
      | approve decidedBy approval run runFlushed flushed => cases wrote
      | deny decidedBy => cases wrote
      | cancel reason =>
        rw [approvalVersion] at wrote
        split at wrote
        · next ended => exact ⟨rfl, if_pos ended⟩
        · cases wrote
    have freeApproval := isOpen.approvals.not_held found wrote
    have freeRun := isOpen.runs.not_held found runs
    have gone : approvalVersion start ⟨transaction.request, .returned⟩ = none ∧
        runVersion start ⟨transaction.request, .returned⟩ = none := by
      cases transaction.request <;> exact ⟨rfl, rfl⟩
    exact
      { approval := (congrArg Row.committed (Row.commit_of_not_held freeApproval)).trans
          isOpen.approval
        run := (congrArg Row.committed (Row.commit_of_not_held freeRun)).trans isOpen.run
        commits := by simp [System.committed, freeApproval, freeRun, isOpen.commits]
        approvals := isOpen.approvals.commit found gone.1
        runs := isOpen.runs.commit found gone.2
        agrees := isOpen.agrees_set cancels }

section Closed

variable {first : Settlement} {rest : List Settlement}

section

variable (closed : Closed start state first rest)
    (found : state.transactions[index]? = some transaction)

include closed found

theorem Closed.settled_set (running : transaction.phase.isEnded = false) (set : Transaction) :
    ∃ settler, (state.transactions.set index set)[first.transaction]? = some settler ∧
      settler.phase = .returned ∧ SettledBy start first settler.request := by
  obtain ⟨settler, here, returned, settledBy⟩ := closed.settled
  have differs : index ≠ first.transaction := by
    rintro rfl
    obtain rfl : transaction = settler := some.inj (found.symm.trans here)
    rw [returned] at running
    cases running
  exact ⟨settler, by rw [getElem?_set_ne differs]; exact here, returned, settledBy⟩

theorem Closed.moved (running : transaction.phase.isEnded = false) {phase : Phase}
    (unreturned : phase ≠ .returned) (approval : Row AgentApproval) (run : Row AgentRun)
    (approvals : approval.committed = state.approval.committed)
    (drafts : ∀ other version, approval.draft = some (other, version) →
      (∃ version, state.approval.draft = some (other, version)) ∨ (other = index ∧
        transaction.request.isDecision = true))
    (runs : ∀ other version, run.draft = some (other, version) →
      state.run.draft = some (other, version) ∨ (other = index ∧
        (transaction.request.isDecision = false → version.status = .cancelled))) :
    Closed start { state.moved index transaction.request phase with approval, run } first rest where
  commits := closed.commits
  settled := closed.settled_set found running _
  approval := approvals.trans closed.approval
  notPending := closed.notPending
  later := closed.later
  others := by
    intro other others looked decision returned
    rcases getElem?_set_cases looked with ⟨rfl, rfl⟩ | ⟨_, here⟩
    · exact absurd returned unreturned
    · exact closed.others other others here decision returned
  drafts := by
    intro other others version held looked
    rcases getElem?_set_cases looked with ⟨rfl, rfl⟩ | ⟨differs, here⟩
    · rcases drafts other version held with ⟨written, old⟩ | ⟨_, decision⟩
      · exact closed.drafts other transaction written old found
      · exact decision
    · rcases drafts other version held with ⟨written, old⟩ | ⟨same, _⟩
      · exact closed.drafts other others written old here
      · exact absurd same differs
  runs := by
    intro other others version held looked cancels
    rcases getElem?_set_cases looked with ⟨rfl, rfl⟩ | ⟨differs, here⟩
    · rcases runs other version held with old | ⟨_, ends⟩
      · exact closed.runs other transaction version old found cancels
      · exact ends cancels
    · rcases runs other version held with old | ⟨same, _⟩
      · exact closed.runs other others version old here cancels
      · exact absurd same differs

theorem Closed.not_held (cancels : transaction.request.isDecision = false) :
    state.approval.heldBy index = false := by
  refine Bool.eq_false_iff.mpr fun held => ?_
  obtain ⟨version, draft⟩ := Row.heldBy_iff.mp held
  have decision := closed.drafts index transaction version draft found
  cases cancels.symm.trans decision

theorem Closed.committed (running : transaction.phase.isEnded = false)
    (cancels : transaction.request.isDecision = false) :
    ∃ rest, Closed start (state.committed index transaction.request) first rest := by
  have kept := Row.commit_of_not_held (closed.not_held found cancels)
  have quiet : (decide (state.run.committed.status ≠ .queued ∧
      (state.run.commit index).committed.status = .queued)) = false := by
    by_cases held : state.run.heldBy index = true
    · obtain ⟨version, draft⟩ := Row.heldBy_iff.mp held
      have ended := closed.runs index transaction version draft found cancels
      simp [Row.commit_of_draft draft, ended]
    · rw [Row.commit_of_not_held (Bool.eq_false_iff.mpr held)]
      simp
  have commits : ∃ more, (state.committed index transaction.request).commits =
      first :: (rest ++ more) ∧ ∀ settlement ∈ more, settlement.requeues = false := by
    unfold System.committed
    dsimp only
    split
    · refine ⟨[_], by rw [closed.commits, cons_append], fun settlement member => ?_⟩
      rwa [mem_singleton.mp member]
    · exact ⟨[], by rw [closed.commits, append_nil], forall_mem_nil _⟩
  obtain ⟨more, commits, later⟩ := commits
  have settled : (state.committed index transaction.request).approval.committed =
      first.approval := by
    rw [System.approval_committed, kept]
    exact closed.approval
  refine ⟨rest ++ more, commits, ?_, settled, closed.notPending, ?_, ?_, ?_, ?_⟩
  · rw [System.transactions_committed]
    exact closed.settled_set found running _
  · intro settlement member
    rcases mem_append.mp member with old | new
    · exact closed.later settlement old
    · exact later settlement new
  · intro other others looked decision returned
    rcases getElem?_set_cases looked with ⟨rfl, rfl⟩ | ⟨_, here⟩
    · exact absurd (cancels.symm.trans decision) nofun
    · exact closed.others other others here decision returned
  · intro other others version held looked
    have draft := Row.draft_of_commit held
    rcases getElem?_set_cases looked with ⟨rfl, rfl⟩ | ⟨_, here⟩
    · exact closed.drafts other transaction version draft found
    · exact closed.drafts other others version draft here
  · intro other others version held looked cancels
    have draft := Row.draft_of_commit held
    rcases getElem?_set_cases looked with ⟨rfl, rfl⟩ | ⟨_, here⟩
    · exact closed.runs other transaction version draft found cancels
    · exact closed.runs other others version draft here cancels

theorem Closed.seen_cancel (cancels : transaction.request.isDecision = false) :
    (state.approval.seen index).status ≠ .pending := by
  rw [Row.seen_of_not_held (closed.not_held found cancels), closed.approval]
  exact closed.notPending

section

variable (running : transaction.phase.isEnded = false)

include running

theorem Closed.goesOn {phase : Phase} (unreturned : phase ≠ .returned) :
    Closed start (state.moved index transaction.request phase) first rest :=
  closed.moved found running unreturned state.approval state.run rfl
    (fun _ version draft => .inl ⟨version, draft⟩) fun _ _ draft => .inl draft

theorem Closed.writesApproval (phase : Phase) (unreturned : phase ≠ .returned)
    {change : AgentApproval → AgentApproval} {row : Row AgentApproval}
    (written : state.approval.write index change = some row)
    (decision : transaction.request.isDecision = true) :
    Closed start { state.moved index transaction.request phase with approval := row } first rest := by
  obtain ⟨own, draft⟩ := Row.exists_draft_write written
  refine closed.moved found running unreturned row state.run
    (Row.committed_write written) ?_ fun _ _ draft => .inl draft
  intro other version held
  rw [draft] at held
  exact .inr ⟨(Prod.mk.inj (some.inj held)).1.symm, decision⟩

theorem Closed.writesRun (phase : Phase) (unreturned : phase ≠ .returned)
    {change : AgentRun → AgentRun} {row : Row AgentRun}
    (written : state.run.write index change = some row)
    (ends : transaction.request.isDecision = false → ∀ run, (change run).status = .cancelled) :
    Closed start { state.moved index transaction.request phase with run := row } first rest := by
  obtain ⟨own, draft⟩ := Row.exists_draft_write written
  refine closed.moved found running unreturned state.approval row rfl
    (fun _ version draft => .inl ⟨version, draft⟩) ?_
  intro other version held
  rw [draft] at held
  cases held
  exact .inr ⟨rfl, fun cancels => ends cancels own⟩

end

/-- Once the approval is settled, every step but the commit of a decision keeps it so. -/
theorem Closed.moves {act : Act} (moves : Moves state index act transaction next)
    (inTime : act = .commit → transaction.request.isDecision = false) :
    ∃ rest, Closed start next first rest := by
  cases moves with
  | refuse request decision settled message => exact ⟨rest, closed.goesOn found rfl nofun⟩
  | load request pending => exact ⟨rest, closed.goesOn found rfl nofun⟩
  | check decidedBy approval => exact ⟨rest, closed.goesOn found rfl nofun⟩
  | flushApproval decidedBy approval run runFlushed row written =>
    exact ⟨rest, closed.writesApproval found rfl (.checked approval run true runFlushed) nofun written
      rfl⟩
  | flushRun decidedBy approval run approvalFlushed waits row written =>
    exact ⟨rest, closed.writesRun found rfl (.checked approval run approvalFlushed true) nofun written
      nofun⟩
  | mark decidedBy approval row written =>
    exact ⟨rest, closed.writesApproval found rfl (.marked approval) nofun written rfl⟩
  | judge decidedBy approval => exact ⟨rest, closed.goesOn found rfl nofun⟩
  | fail decidedBy approval run waits row written =>
    exact ⟨rest, closed.writesRun found rfl .ready nofun written nofun⟩
  | pass decidedBy approval run ended => exact ⟨rest, closed.goesOn found rfl nofun⟩
  | lose reason ended => exact ⟨rest, closed.goesOn found rfl nofun⟩
  | win reason running row written =>
    exact ⟨rest, closed.writesRun found rfl .voiding nofun written fun _ _ => rfl⟩
  | void reason pending row written =>
    exact absurd pending (closed.seen_cancel found rfl)
  | leave reason settled => exact ⟨rest, closed.goesOn found rfl nofun⟩
  | commit transaction can commits =>
    have running : transaction.phase.isEnded = false := by cases can <;> rfl
    exact closed.committed found running (inTime commits)
  | abort transaction running =>
    refine ⟨rest, closed.moved found running ?_ _ _ Row.committed_rollback ?_ ?_⟩
    · exact nofun
    · exact fun _ version held => .inl ⟨version, Row.draft_of_rollback held⟩
    · exact fun _ _ held => .inl (Row.draft_of_rollback held)

end

end Closed

/-! ## Whole runs -/

/-- Nothing is settled yet, or the first commit has settled the approval. -/
def Orderly (start state : System) : Prop :=
  Open start state ∨ ∃ first rest, Closed start state first rest

def DecisionFirst (state : System) : Prop :=
  ∀ first rest, state.commits = first :: rest → ∃ transaction,
    state.transactions[first.transaction]? = some transaction ∧
      transaction.request.isDecision = true

/-- **A decision that commits in time keeps the first commit the only one**, and where no cancellation
voids the approval that one is a decision. -/
theorem Orderly.step (pending : Pending start) (orderly : Orderly start state)
    (stepped : Decisions.step state action = some next)
    (inTime : ∀ transaction, state.transactions[action.transaction]? = some transaction →
      transaction.request.isDecision = true → action.act = .commit →
        state.approval.committed.status = .pending) :
    Orderly start next ∧ ((∀ transaction,
        state.transactions[action.transaction]? = some transaction →
          transaction.request.isDecision = false → action.act = .commit →
            state.approval.heldBy action.transaction = false) →
      DecisionFirst state → DecisionFirst next) := by
  obtain ⟨transaction, found, moves⟩ := moves_of_step stepped
  have unsettled (isOpen : Open start next) : DecisionFirst next := fun first rest commits => by
    rw [isOpen.commits] at commits
    cases commits
  rcases orderly with isOpen | ⟨first, rest, closed⟩
  · rcases isOpen.moves pending found moves with ⟨isCommit, can, rfl⟩ | isOpen
    · rcases isOpen.committed found can with ⟨first, isIndex, held, closed⟩ | isOpen
      · refine ⟨.inr ⟨first, [], closed⟩, fun spares _ first' rest' commits => ?_⟩
        cases closed.commits.symm.trans commits
        obtain ⟨inside, _⟩ := List.getElem?_eq_some_iff.mp found
        refine ⟨⟨transaction.request, .returned⟩, ?_, ?_⟩
        · rw [isIndex, System.transactions_committed, getElem?_set_self inside]
        · by_contra cancels
          have unheld := spares transaction found (Bool.eq_false_iff.mpr cancels) isCommit
          cases held.symm.trans unheld
      · exact ⟨.inl isOpen, fun _ _ => unsettled isOpen⟩
    · exact ⟨.inl isOpen, fun _ _ => unsettled isOpen⟩
  · obtain ⟨rest', closed'⟩ := closed.moves found moves fun commits => by
      refine Bool.eq_false_iff.mpr fun decision => ?_
      have stillPending := inTime transaction found decision commits
      rw [closed.approval] at stillPending
      exact closed.notPending stillPending
    refine ⟨.inr ⟨first, rest', closed'⟩, fun _ decided first' _ commits => ?_⟩
    cases closed'.commits.symm.trans commits
    obtain ⟨settler, here, decision⟩ := decided first rest closed.commits
    obtain ⟨settler', here', returned, -⟩ := closed.settled
    cases here.symm.trans here'
    obtain ⟨running, phase, set, -⟩ := moves.advances
    have differs : action.transaction ≠ first.transaction := by
      intro same
      rw [same, here] at found
      cases found
      rw [returned] at running
      cases running
    exact ⟨settler, by rw [set, getElem?_set_ne differs]; exact here, decision⟩

section

variable (state : System)

def Ends (index : Nat) (phase : Phase) : Prop :=
  ∃ request, request.isDecision = true ∧ state.transactions[index]? = some ⟨request, phase⟩

/-- There are decisions, and all of them have ended without an error of the database. -/
def Finished : Prop :=
  (∃ index phase, Ends state index phase) ∧
    ∀ index phase, Ends state index phase → phase.isEnded = true ∧ phase ≠ .aborted

def OneReturns : Prop :=
  ∃ index, Ends state index .returned ∧
    ∀ other phase, Ends state other phase → other ≠ index → ∃ message, phase = .refused message

def CancelledFirst : Prop :=
  (∃ first rest transaction, state.commits = first :: rest ∧
      state.transactions[first.transaction]? = some transaction ∧
      transaction.request.isDecision = false) ∧
    ∀ index phase, Ends state index phase → ∃ message, phase = .refused message

end

/-- The rows after the first commit are its own, and the run is queued again exactly for an
approval of a waiting run. -/
structure Obeyed (start state : System) : Prop where
  stored : ∀ first rest, state.commits = first :: rest →
    state.approval.committed = first.approval ∧ ∃ transaction,
      state.transactions[first.transaction]? = some transaction ∧
        transaction.phase = .returned ∧ SettledBy start first transaction.request
  requeued : (∃ settlement ∈ state.commits, settlement.requeues = true) ↔
    ∃ first rest decidedBy phase, state.commits = first :: rest ∧
      state.transactions[first.transaction]? = some ⟨.approve decidedBy, phase⟩ ∧
      start.run.committed.status = .waiting

structure DecidedFirst (start state : System) : Prop where
  winner : ∀ index, Ends state index .returned →
    ∃ first rest, state.commits = first :: rest ∧ first.transaction = index
  one : Finished state → OneReturns state ∨ CancelledFirst state
  obeyed : Obeyed start state

structure DecidedOnce (start state : System) : Prop where
  winner : ∀ index, Ends state index .returned →
    ∃ first rest, state.commits = first :: rest ∧ first.transaction = index
  one : Finished state → OneReturns state
  obeyed : Obeyed start state

theorem Open.decidedFirst (isOpen : Open start state) : DecidedFirst start state where
  winner := by
    rintro index ⟨request, decision, found⟩
    have agreed : request.isDecision = false := isOpen.agrees index _ found
    exact absurd (agreed.symm.trans decision) nofun
  one := by
    rintro ⟨⟨index, phase, request, decision, found⟩, ended⟩
    obtain ⟨isEnded, unaborted⟩ := ended index phase ⟨request, decision, found⟩
    have agreed := isOpen.agrees index _ found
    cases phase with
    | returned => exact absurd ((show request.isDecision = false from agreed).symm.trans decision) nofun
    | refused message => exact agreed.elim
    | aborted => exact absurd rfl unaborted
    | _ => cases isEnded
  obeyed :=
    { stored := fun first rest commits => by simp [isOpen.commits] at commits
      requeued := by simp [isOpen.commits] }

theorem Closed.obeyed {first : Settlement} {rest : List Settlement}
    (closed : Closed start state first rest) : Obeyed start state where
  stored := by
    intro other more commits
    cases closed.commits.symm.trans commits
    exact ⟨closed.approval, closed.settled⟩
  requeued := by
    obtain ⟨⟨request, phase⟩, found, _, settledBy⟩ := closed.settled
    rw [closed.commits]
    constructor
    · rintro ⟨settlement, member, requeues⟩
      rcases mem_cons.mp member with rfl | later
      · cases request with
        | approve decidedBy =>
          rw [settledBy.2.2] at requeues
          exact ⟨settlement, rest, decidedBy, phase, rfl, found, of_decide_eq_true requeues⟩
        | deny decidedBy => exact absurd (settledBy.2.2.symm.trans requeues) nofun
        | cancel reason => exact absurd (settledBy.2.2.symm.trans requeues) nofun
      · exact absurd ((closed.later settlement later).symm.trans requeues) nofun
    · rintro ⟨other, more, decidedBy, ended, commits, here, waits⟩
      cases commits
      obtain ⟨rfl, _⟩ := Transaction.mk.inj (some.inj (found.symm.trans here))
      exact ⟨first, mem_cons_self, settledBy.2.2.trans (decide_eq_true waits)⟩

theorem Closed.decidedFirst {first : Settlement} {rest : List Settlement}
    (closed : Closed start state first rest) : DecidedFirst start state where
  winner := by
    rintro index ⟨request, decision, found⟩
    exact ⟨first, rest, closed.commits, (closed.others index _ found decision rfl).symm⟩
  one := by
    rintro ⟨_, ended⟩
    have refused : ∀ index phase, Ends state index phase → index ≠ first.transaction →
        ∃ message, phase = .refused message := by
      rintro index phase ⟨request, decision, found⟩ differs
      obtain ⟨isEnded, unaborted⟩ := ended index phase ⟨request, decision, found⟩
      cases phase with
      | returned => exact absurd (closed.others index _ found decision rfl) differs
      | refused message => exact ⟨message, rfl⟩
      | aborted => exact absurd rfl unaborted
      | _ => cases isEnded
    obtain ⟨⟨request, phase⟩, found, returned, _⟩ := closed.settled
    obtain rfl : phase = .returned := returned
    by_cases decision : request.isDecision = true
    · exact .inl ⟨first.transaction, ⟨request, decision, found⟩,
        fun index phase ends differs => refused index phase ends differs⟩
    · refine .inr ⟨⟨first, rest, _, closed.commits, found, Bool.eq_false_iff.mpr decision⟩,
        fun index phase ends => refused index phase ends ?_⟩
      rintro rfl
      obtain ⟨other, isDecision, here⟩ := ends
      obtain ⟨rfl, _⟩ := Transaction.mk.inj (some.inj (found.symm.trans here))
      exact decision isDecision
  obeyed := closed.obeyed

theorem Orderly.decidedFirst (orderly : Orderly start state) : DecidedFirst start state := by
  rcases orderly with isOpen | ⟨first, rest, closed⟩
  · exact isOpen.decidedFirst
  · exact closed.decidedFirst

variable {approval : AgentApproval} {run : AgentRun} {requests : List Request}
  {actions : List Action}

theorem pending_begin : Pending (begin approval run requests) := rfl

theorem open_begin : Open (begin approval run requests) (begin approval run requests) := by
  have waiting : ∀ (index : Nat) (transaction : Transaction),
      (begin approval run requests).transactions[index]? = some transaction →
        transaction.phase = .waiting := by
    intro index transaction found
    rw [begin, getElem?_map] at found
    obtain ⟨request, _, rfl⟩ := map_eq_some_iff.mp found
    rfl
  refine ⟨rfl, rfl, rfl, fun index version => ?_, fun index version => ?_, ?_⟩
  iterate 2
    refine iff_of_false nofun ?_
    rintro ⟨⟨request, phase⟩, found, wrote⟩
    obtain rfl : phase = .waiting := waiting index _ found
    cases request <;> cases wrote
  · rintro index ⟨request, phase⟩ found
    obtain rfl : phase = .waiting := waiting index _ found
    trivial

/-! ## Decisions that are not overtaken -/

/-- Since the transaction has read the approval, another one that wrote it has committed. -/
def Overtaken (start : System) (actions : List Action) (index : Nat) : Prop :=
  ∃ before action after state transaction, actions = before ++ action :: after ∧
    Trace.run step start before = some state ∧ action.act = .commit ∧ action.transaction ≠ index ∧
    state.approval.heldBy action.transaction = true ∧
    state.transactions[index]? = some transaction ∧ transaction.phase ≠ .waiting

theorem Overtaken.append (overtaken : Overtaken start actions index) (action : Action) :
    Overtaken start (actions ++ [action]) index := by
  obtain ⟨before, other, after, state, transaction, rfl, rest⟩ := overtaken
  exact ⟨before, other, after ++ [action], state, transaction, by simp, rest⟩

/-- What the decisions that nobody has overtaken have read is still committed. -/
structure UpToDate (start state : System) (actions : List Action) : Prop where
  unheld : ∀ index request, state.transactions[index]? = some ⟨request, .waiting⟩ →
    state.approval.heldBy index = false
  pending : ∀ index transaction, state.transactions[index]? = some transaction →
    transaction.request.isDecision = true → transaction.phase ≠ .waiting →
      transaction.phase.isEnded = false → ¬Overtaken start actions index →
        state.approval.committed.status = .pending

/-- A decision that goes on from its start has found the approval pending. -/
theorem pending_of_begun {request : Request} (unheld : state.approval.heldBy index = false)
    (moves : Moves state index act ⟨request, .waiting⟩ next) (decision : request.isDecision = true)
    (found : next.transactions[index]? = some ⟨request, phase⟩) (running : phase.isEnded = false) :
    state.approval.committed.status = .pending := by
  have ends {phase' : Phase} (isEnded : phase'.isEnded = true)
      (isNext : next.transactions = state.transactions.set index ⟨request, phase'⟩) : False := by
    rw [isNext] at found
    rcases getElem?_set_cases found with ⟨-, same⟩ | ⟨differs, -⟩
    · cases same
      cases isEnded.symm.trans running
    · exact differs rfl
  cases moves with
  | refuse => exact (ends rfl rfl).elim
  | load request pending =>
    rwa [Row.seen_of_not_held unheld] at pending
  | commit transaction can commits => cases can
  | abort => exact (ends rfl rfl).elim
  | lose | win => cases decision

theorem UpToDate.step (upToDate : UpToDate start state actions)
    (ran : Trace.run Decisions.step start actions = some state)
    (stepped : Decisions.step state action = some next) :
    UpToDate start next (actions ++ [action]) := by
  obtain ⟨transaction, found, moves⟩ := moves_of_step stepped
  obtain ⟨running, phase, moved, begun⟩ := moves.advances
  constructor
  · intro index request looked
    rw [moved] at looked
    rcases getElem?_set_cases looked with ⟨-, same⟩ | ⟨differs, here⟩
    · cases same
      exact absurd rfl begun
    · refine Bool.eq_false_iff.mpr fun held => ?_
      obtain ⟨version, draft⟩ := Row.heldBy_iff.mp held
      have before := Row.heldBy_iff.mpr ⟨version, moves.held_approval differs draft⟩
      cases (upToDate.unheld index request here).symm.trans before
  · intro index other looked decision started goesOn calm
    have calmBefore : ¬Overtaken start actions index := fun overtaken =>
      calm (overtaken.append action)
    have wasThere := looked
    rw [moved] at wasThere
    rcases getElem?_set_cases wasThere with ⟨rfl, rfl⟩ | ⟨differs, here⟩
    · rcases moves.committed_approval with same | ⟨-, -, ended, isEnded, movedTo⟩
      · rw [same]
        by_cases waits : transaction.phase = .waiting
        · obtain ⟨request, _⟩ := transaction
          obtain rfl := waits
          exact pending_of_begun (upToDate.unheld _ request found) moves decision looked goesOn
        · exact upToDate.pending _ transaction found decision waits running calmBefore
      · rw [movedTo] at looked
        rcases getElem?_set_cases looked with ⟨-, same⟩ | ⟨differs, -⟩
        · rw [(Transaction.mk.inj same).2, isEnded] at goesOn
          cases goesOn
        · exact absurd rfl differs
    · rcases moves.committed_approval with same | ⟨isCommit, held, -⟩
      · rw [same]
        exact upToDate.pending index other here decision started goesOn calmBefore
      · exact absurd ⟨actions, action, [], state, other, rfl, ran, isCommit, Ne.symm differs, held,
          here, started⟩ calm

theorem UpToDate.begin :
    UpToDate (begin approval run requests) (begin approval run requests) [] := by
  refine ⟨fun _ _ _ => rfl, fun index transaction found _ started => ?_⟩
  rw [Decisions.begin, getElem?_map] at found
  obtain ⟨request, _, rfl⟩ := map_eq_some_iff.mp found
  exact absurd rfl started

/-- **What a decision has read is still so while nobody has overtaken it.** -/
theorem upToDate_run (ran : Trace.run Decisions.step (begin approval run requests) actions =
    some state) : UpToDate (begin approval run requests) state actions := by
  induction actions using List.reverseRecOn generalizing state with
  | nil =>
    cases ran
    exact .begin
  | append_singleton actions action ih =>
    obtain ⟨middle, reached, stepped⟩ := Trace.exists_of_run_concat ran
    exact (ih reached).step reached stepped

theorem begun_of_commit (stepped : step state action = some next) (commits : action.act = .commit)
    (found : state.transactions[action.transaction]? = some transaction) :
    transaction.phase ≠ .waiting := by
  intro waits
  obtain ⟨request, _⟩ := transaction
  obtain rfl := waits
  unfold step at stepped
  simp only [found, commits] at stepped
  cases request <;> cases stepped

/-- The decisions come one after the other, and before a cancellation. -/
structure Apart (start : System) (actions : List Action) : Prop where
  /-- Between what a decision reads and its commit nobody else commits the approval. -/
  decisions : ∀ before action after state transaction, actions = before ++ action :: after →
    Trace.run step start before = some state →
      state.transactions[action.transaction]? = some transaction →
        transaction.request.isDecision = true → action.act = .commit →
          ¬Overtaken start before action.transaction
  /-- No cancellation commits that has voided the approval. -/
  cancellations : ∀ before action after state transaction, actions = before ++ action :: after →
    Trace.run step start before = some state →
      state.transactions[action.transaction]? = some transaction →
        transaction.request.isDecision = false → action.act = .commit →
          state.approval.heldBy action.transaction = false

/-- A decision of such a run commits on an approval that is still pending. -/
theorem Apart.inTime (apart : Apart (begin approval run requests) actions)
    {before after : List Action} (split : actions = before ++ action :: after)
    (ran : Trace.run step (begin approval run requests) before = some state)
    (stepped : step state action = some next)
    (found : state.transactions[action.transaction]? = some transaction)
    (decision : transaction.request.isDecision = true) (commits : action.act = .commit) :
    state.approval.committed.status = .pending := by
  obtain ⟨other, found', moves⟩ := moves_of_step stepped
  cases found.symm.trans found'
  exact (upToDate_run ran).pending _ transaction found decision
    (begun_of_commit stepped commits found) moves.advances.1
    (apart.decisions before action after state transaction split ran found decision commits)

/-- In every state of the run, the first to commit decides, and one decision returns once all have
ended. -/
def DecidesOnce (start : System) (actions : List Action) : Prop :=
  ∀ state, Trace.Passes step start actions state → DecidedOnce start state

/-- **Where no decision is overtaken and no cancellation comes first, an approval is decided once**,
and the run obeys that decision. -/
theorem decidesOnce_of_apart (approval : AgentApproval) (run : AgentRun) (requests : List Request)
    (actions : List Action) (apart : Apart (begin approval run requests) actions) :
    DecidesOnce (begin approval run requests) actions := by
  intro state passes
  have decided : Orderly (begin approval run requests) state ∧ DecisionFirst state := by
    refine passes.invariant
      (fun state => Orderly (begin approval run requests) state ∧ DecisionFirst state)
      ⟨.inl open_begin, fun first rest commits => by cases commits⟩ ?_
    rintro before action after state next split ran stepped ⟨orderly, first⟩
    obtain ⟨keeps, decides⟩ := orderly.step pending_begin stepped
      fun _ found decision commits => apart.inTime split ran stepped found decision commits
    exact ⟨keeps, decides (fun transaction found cancels commits =>
      apart.cancellations before action after state transaction split ran found cancels commits) first⟩
  obtain ⟨winner, one, obeyed⟩ := decided.1.decidedFirst
  refine ⟨winner, fun finished => (one finished).resolve_right ?_, obeyed⟩
  rintro ⟨⟨first, rest, transaction, commits, found, cancels⟩, -⟩
  obtain ⟨settler, found', decision⟩ := decided.2 first rest commits
  cases found.symm.trans found'
  cases cancels.symm.trans decision

/-! ## Two reviewers -/

def parkedRun : AgentRun := { agentId := 0, trigger := .manual, status := .waiting }

def askedApproval : AgentApproval := { runId := 0, toolName := "send_email", arguments := [] }

/-- A reviewer approves, another one who denies after that is refused, and then the run is
cancelled. -/
def oneAfterAnother : List Action :=
  [⟨0, .readApproval⟩, ⟨0, .readRun⟩, ⟨0, .writeRun⟩, ⟨0, .writeApproval⟩, ⟨0, .commit⟩,
    ⟨1, .readApproval⟩, ⟨2, .writeRun⟩, ⟨2, .writeApproval⟩, ⟨2, .commit⟩]

def threeRequests : List Request := [.approve (some 1), .deny (some 2), .cancel "timed out"]

theorem commits_oneAfterAnother {before after : List Action} {action : Action}
    (split : oneAfterAnother = before ++ action :: after) (commits : action.act = .commit) :
    (before.length = 4 ∨ before.length = 8) ∧ before = oneAfterAnother.take before.length ∧
      oneAfterAnother[before.length]? = some action := by
  have here : oneAfterAnother[before.length]? = some action := by simp [split]
  refine ⟨?_, by simp [split], here⟩
  have atCommit : ∀ n < 9, (oneAfterAnother[n]?.any fun action => action.act = .commit) = true →
      n = 4 ∨ n = 8 := by decide
  obtain ⟨inside, _⟩ := List.getElem?_eq_some_iff.mp here
  exact atCommit before.length inside (by simp [here, commits])

theorem decidesOnce_oneAfterAnother :
    (Trace.run step (begin askedApproval parkedRun threeRequests) oneAfterAnother).isSome = true ∧
      DecidesOnce (begin askedApproval parkedRun threeRequests) oneAfterAnother := by
  refine ⟨rfl, decidesOnce_of_apart askedApproval parkedRun threeRequests oneAfterAnother ⟨?_, ?_⟩⟩
  · rintro before action after state transaction split ran found decision commits
      ⟨earlier, other, later, _, _, split', -, commits', -⟩
    -- The one decision that commits is the first transaction to do so.
    obtain ⟨place', -, -⟩ := commits_oneAfterAnother
      (split.trans (by rw [split', append_assoc, cons_append])) commits'
    obtain ⟨place, areBefore, here⟩ := commits_oneAfterAnother split commits
    have shorter : earlier.length < before.length := by simp [split']
    have last : before.length = 8 := by omega
    rw [last] at areBefore here
    subst areBefore
    cases here
    cases ran
    cases found
    cases decision
  · intro before action after state transaction split ran found cancels commits
    obtain ⟨place, areBefore, here⟩ := commits_oneAfterAnother split commits
    rcases place with first | last
    · rw [first] at areBefore here
      subst areBefore
      cases here
      cases ran
      cases found
      cases cancels
    · rw [last] at areBefore here
      subst areBefore
      cases here
      cases ran
      rfl

/-- Two reviewers who both read the approval before either of them commits. -/
def sideBySide : List Action :=
  [⟨0, .readApproval⟩, ⟨1, .readApproval⟩, ⟨0, .readRun⟩, ⟨0, .writeApproval⟩, ⟨0, .writeRun⟩,
    ⟨0, .commit⟩, ⟨1, .writeApproval⟩, ⟨1, .readRun⟩, ⟨1, .writeRun⟩, ⟨1, .commit⟩]

/-- Both return, and the second one's decision is the one that is stored. -/
theorem not_decidesOnce_sideBySide :
    ¬DecidesOnce (begin askedApproval parkedRun [.approve (some 1), .deny (some 2)]) sideBySide := by
  intro decides
  obtain ⟨state, ran, transactions⟩ : ∃ state,
      Trace.run step (begin askedApproval parkedRun [.approve (some 1), .deny (some 2)])
        sideBySide = some state ∧
      state.transactions = [⟨.approve (some 1), .returned⟩, ⟨.deny (some 2), .returned⟩] :=
    ⟨_, rfl, rfl⟩
  have winner := (decides state ⟨sideBySide, [], rfl, ran⟩).winner
  obtain ⟨first, rest, commits, isFirst⟩ := winner 0 ⟨.approve (some 1), rfl, by rw [transactions]; rfl⟩
  obtain ⟨_, _, commits', isSecond⟩ := winner 1 ⟨.deny (some 2), rfl, by rw [transactions]; rfl⟩
  cases commits.symm.trans commits'
  cases isFirst.symm.trans isSecond

end RedArchKM.Agents.Decisions
