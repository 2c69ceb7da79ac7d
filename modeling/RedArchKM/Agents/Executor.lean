import RedArchKM.Agents.Runtime
import Mathlib.Data.List.Sort

/-!
# The life of a worker-driven run

A worker claims a queued run and drives it: the loop once, and once more where the agent stopped
with its work unfinished. The drive ends the run, or parks it on an approval or on questions.
People and other agents approve, deny, answer and decline, which queues the run again; the
canceller and the lease sweep end or queue it from outside.

Each of these is one transaction here, one after the other.
-/

namespace RedArchKM.Agents

open Option

open Workflow (Json Fields AgentId AgentRunId AgentRunStatus)

/-! ## One drive -/

/-- What the worker reads and builds before it drives a run. -/
structure Segment (σ : Type) where
  host : Host σ
  agent : Agent
  specs : List ToolSpec
  autonomy : Posture
  maxIterations : Nat
  opening : List Json
  /-- Why the run cannot be driven: no agent, no provider key, an API key that is gone. -/
  refusal : Option String
  unfinishedWorkNudge : σ → Option String

/-- The approval strategy of the worker: a tool approved before goes through, any other parks. -/
def approvalStrategy (approvedNames : List String) (spec : ToolSpec) (_ : Fields) :
    StrategyAnswer :=
  if approvedNames.contains spec.name then .approved else .park

def workflowNudge : String :=
  "The workflow step is NOT complete. Call complete_task with the required " ++
  "structured fields, or escalate_task with a reason if you cannot."

/-- How the drives of a segment end, and what is banked for them. -/
structure Driven (σ : Type) where
  outcome : LoopOutcome
  usage : Usage
  world : σ
  messages : List Json
  log : List LoopEvent

def Driven.ofLoop {σ : Type} (ended : LoopOutcome × LoopState σ) : Driven σ where
  outcome := ended.1
  usage := ended.2.usage
  world := ended.2.world
  messages := ended.2.messages
  log := ended.2.log

/-- The loop came back, rather than raising. -/
def LoopOutcome.isReturn : LoopOutcome → Bool
  | .returned _ | .truncated => true
  | _ => false

namespace Segment

variable {σ : Type} (segment : Segment σ)

def toDrive (approvedNames : List String) : Drive σ where
  host := segment.host
  agent := segment.agent
  specs := segment.specs
  autonomy := segment.autonomy
  strategy := approvalStrategy approvedNames
  maxIterations := segment.maxIterations

section

variable (run : AgentRun)

def resumeOf : List String × List Json × Option (List ToolCallRequest) × Fields :=
  match run.input.resume with
  | some resume => (resume.approved, resume.messages, some resume.pending, resume.answers)
  | none => ([], segment.opening, none, [])

def firstDrive (world : σ) : Driven σ :=
  let (approvedNames, messages, pending, answers) := segment.resumeOf run
  .ofLoop ((segment.toDrive approvedNames).runAgentLoop messages pending answers world)

/-- The corrective turn after a drive that just stopped. -/
def nudge (first : Driven σ) : Option String :=
  match first.outcome with
  | .returned _ =>
    if run.input.workflowStep then some workflowNudge
    else if run.workOrderId.isSome then segment.unfinishedWorkNudge first.world
    else none
  | _ => none

def secondDrive (first : Driven σ) (text : String) : Driven σ :=
  .ofLoop ((segment.toDrive (segment.resumeOf run).1).runAgentLoop
    (first.messages ++ [userMessage text]) none [] first.world)

/-- The drives of a segment. What the first one spent is added to a second one that comes
back; a second one that raises carries its own. -/
def drive (world : σ) : Driven σ :=
  let first := segment.firstDrive run world
  match segment.nudge run first with
  | none => first
  | some text =>
    let second := segment.secondDrive run first text
    { second with
      usage := if second.outcome.isReturn then second.usage + first.usage else second.usage
      log := first.log ++ second.log }

end

end Segment

/-! ## What a drive writes -/

/-- Compare-and-set terminal transition: a run that has ended stays as it is. -/
def AgentRun.finalize (status : AgentRunStatus) (error : Option String) (usage : Usage)
    (run : AgentRun) : AgentRun :=
  if run.status.isTerminal then run
  else
    { run with
      status, error
      waitKind := none
      promptTokens := run.promptTokens + usage.promptTokens
      completionTokens := run.completionTokens + usage.completionTokens
      totalTokens := run.totalTokens + usage.totalTokens }

def AgentRun.markWaiting (waitKind : RunWaitKind) (usage : Usage) (run : AgentRun) : AgentRun :=
  { run with
    status := .waiting
    waitKind := some waitKind
    promptTokens := run.promptTokens + usage.promptTokens
    completionTokens := run.completionTokens + usage.completionTokens
    totalTokens := run.totalTokens + usage.totalTokens }

def AgentRun.withResume (resume : Option Resume) (run : AgentRun) : AgentRun :=
  { run with input := { run.input with resume } }

/-- `sorted(set(names))` -/
def sortedNames (names : List String) : List String :=
  names.eraseDups.insertionSort (· ≤ ·)

/-- Where a parked run continues: answers of calls that have not run yet are kept. -/
def parkedResume (approvedNames : List String) (messages : List Json)
    (pending : List ToolCallRequest) (answers : Fields) : Resume where
  messages
  pending
  approved := sortedNames approvedNames
  answers := answers.filter fun answer => pending.any fun call => call.id = answer.1

/-- The text an escalated run that just stopped ends with. -/
def stoppedReason : LoopOutcome → String
  | .truncated => "iteration budget exhausted before complete_task"
  | _ => "agent finished without calling complete_task"

def finishReason (payload : Fields) (default : String) : String :=
  match Fields.get payload "reason" with
  | .str "" | .null => default
  | .str reason => reason
  | _ => default

/-- The run's row after its drives, when the transaction commits. -/
def Segment.settle {σ : Type} (segment : Segment σ) (driven : Driven σ) (run : AgentRun) : AgentRun :=
  match driven.outcome with
  | .cancelled => run
  | .failed _ => run.finalize .error (some "execution failed") 0
  | .finished .done _ => (run.withResume none).finalize .done none driven.usage
  | .finished .error payload =>
    (run.withResume none).finalize .error (some (finishReason payload "run stopped")) driven.usage
  | .finished .escalated payload =>
    (run.withResume none).finalize .escalated (some (finishReason payload "agent escalated"))
      driven.usage
  | .parked park pending =>
    let (approvedNames, _, _, answers) := segment.resumeOf run
    (run.withResume (some (parkedResume approvedNames driven.messages pending answers))).markWaiting
      park.waitKind driven.usage
  | outcome =>
    if run.input.workflowStep then
      (run.withResume none).finalize .escalated (some (stoppedReason outcome)) driven.usage
    else (run.withResume none).finalize .done none driven.usage

/-! ## The tables around one run -/

/-- One run, the approvals and questions it is blocked on, and all that its drives did. -/
structure Life (σ : Type) where
  id : AgentRunId
  run : AgentRun
  approvals : List AgentApproval := []
  questions : List AgentQuestion := []
  world : σ
  log : List LoopEvent := []

namespace Life

variable {σ : Type}

def ask (call : Option ToolCallRequest) (draft : QuestionDraft) (life : Life σ) : AgentQuestion where
  runId := life.id
  toolCallId := (call.map ToolCallRequest.id).getD ""
  askedByAgentId := life.run.agentId
  question := draft.question
  audience := draft.audience
  targetAgentId := draft.targetAgentId
  peerRunId := draft.peerRunId
  context := draft.context
  workOrderId := life.run.workOrderId

/-- The rows that a park leaves behind; a handler's questions carry the id of its call. -/
def record (outcome : LoopOutcome) (life : Life σ) : Life σ :=
  match outcome with
  | .parked (.approval (toolName, arguments)) _ =>
    { life with approvals := life.approvals ++ [{ runId := life.id, toolName, arguments }] }
  | .parked (.question draft) pending =>
    { life with questions := life.questions ++ [life.ask pending.head? draft] }
  | .parked (.consult draft others) pending =>
    { life with
      questions := life.questions ++ (draft :: others).map fun draft => life.ask pending.head? draft }
  | _ => life

section

variable (life : Life σ)

/-- The questions of a run that just ended are void: nobody listens for their answers. -/
def settleQuestions : Life σ :=
  if life.run.status.isTerminal then
    { life with
      questions := life.questions.map fun question =>
        if question.status = .pending then { question with status := .voided } else question }
  else life

@[simp] theorem run_settleQuestions : life.settleQuestions.run = life.run := by
  unfold Life.settleQuestions
  split <;> rfl

@[simp] theorem log_settleQuestions : life.settleQuestions.log = life.log := by
  unfold Life.settleQuestions
  split <;> rfl

@[simp] theorem approvals_settleQuestions : life.settleQuestions.approvals = life.approvals := by
  unfold Life.settleQuestions
  split <;> rfl

end

/-- `cancel_run`: the run ends, and what it waited for is void. -/
def cancel (reason : String) (life : Life σ) : Life σ :=
  if life.run.status.isTerminal then life
  else
    { life with
      run := { life.run with status := .cancelled, error := some reason, waitKind := none }
      approvals := life.approvals.map fun approval =>
        if approval.status = .pending then { approval with status := .voided } else approval
      : Life σ }.settleQuestions

/-- What a drive leaves behind. A drive that finds its run ended writes nothing: the row is the
canceller's, whose transaction came in between. -/
def leave (segment : Segment σ) (driven : Driven σ) (life : Life σ) : Life σ :=
  match driven.outcome with
  | .cancelled => life.cancel "cancelled during the drive"
  | outcome => { life.record outcome with run := segment.settle driven life.run }.settleQuestions

/-- `_execute_one` -/
def execute (segment : Segment σ) (life : Life σ) : Life σ :=
  if life.run.status ≠ .running then life
  else
    match segment.refusal with
    | some reason => { life with run := life.run.finalize .error (some reason) 0 }.settleQuestions
    | none =>
      let driven := segment.drive life.run life.world
      { life.leave segment driven with world := driven.world, log := life.log ++ driven.log }

def modifyApproval (id : ApprovalId) (change : AgentApproval → AgentApproval) (life : Life σ) : Life σ :=
  { life with approvals := life.approvals.modify id change }

def requeue (change : Resume → Resume) (run : AgentRun) : AgentRun :=
  { run with
    status := .queued
    waitKind := none
    input := { run.input with resume := some (change (run.input.resume.getD {})) } }

section

variable (id : ApprovalId) (decidedBy : Option ProfileId) (life : Life σ)

/-- `ApprovalService.approve` of a pending approval. -/
def approve : Option (Life σ) := do
  let approval ← life.approvals[id]?
  if approval.status ≠ .pending then none
  else if life.run.status.isTerminal then
    return life.modifyApproval id fun approval => { approval with status := .voided, decidedBy }
  else
    let decided := life.modifyApproval id fun approval => { approval with status := .approved, decidedBy }
    if life.run.status = .waiting then
      return { decided with
        run := requeue (fun resume =>
          { resume with approved := sortedNames (resume.approved ++ [approval.toolName]) }) life.run }
    else return decided

/-- `ApprovalService.deny` of a pending approval. -/
def deny : Option (Life σ) := do
  let approval ← life.approvals[id]?
  if approval.status ≠ .pending then none
  else
    let decided := life.modifyApproval id fun approval => { approval with status := .denied, decidedBy }
    if life.run.status = .waiting then
      return { decided with
        run := life.run.finalize .error
          (some s!"approval denied: {approval.toolName}") 0 }.settleQuestions
    else return decided

end

def siblings (id : QuestionId) (question : AgentQuestion) (life : Life σ) : List AgentQuestion :=
  (life.questions.eraseIdx id).filter fun other => other.toolCallId = question.toolCallId

def answerLine (question : AgentQuestion) (answer : Json) : Json :=
  .obj [("agent_id", match question.targetAgentId with | some agent => .ofId agent | none => .null),
    ("answer", answer), ("declined", .bool (question.status = .declined))]

def textOrNull : Option String → Json
  | some text => .str text
  | none => .null

def reviewNote : String :=
  "Every reviewer has now answered. Their verdicts are NOT recorded until you " ++
  "call the same tool again with your submission — that call is the only thing " ++
  "that moves this forward, and stopping here leaves the work unfinished. " ++
  "Address any objection first; resubmitting unchanged text will not re-open " ++
  "the review. Do not ask a person instead: the tool decides when to involve one."

section

variable (id : QuestionId) (question : AgentQuestion) (payload : Fields) (life : Life σ)

/-- One result with every reviewer's answer, in the order they were asked. -/
def combined : Json :=
  .obj [("answers", .arr ((life.questions.mapIdx fun place other => (place, other)).filterMap
    fun (place, other) =>
      if place = id then some (answerLine other (Fields.get payload "answer"))
      else if other.toolCallId = question.toolCallId then
        some (answerLine other (textOrNull other.answer))
      else none)), ("note", .str reviewNote)]

/-- `_inject_answer`: hand the payload to the parked call and queue the run, where it still
waits and no sibling is pending. -/
def injectAnswer : Option (Life σ) :=
  if life.run.status ≠ .waiting then none
  else
    let siblings := life.siblings id question
    if siblings.any fun other => other.status = .pending then none
    else
      let payload := if siblings.isEmpty then .obj payload else life.combined id question payload
      some { life with run := requeue (fun resume =>
        { resume with answers := Fields.set question.toolCallId payload resume.answers }) life.run }

end

def modifyQuestion (id : QuestionId) (change : AgentQuestion → AgentQuestion) (life : Life σ) : Life σ :=
  { life with questions := life.questions.modify id change }

/-- `record_answer` of a pending question. -/
def recordAnswer (id : QuestionId) (answer answeredBy : String) (life : Life σ) : Option (Life σ) := do
  let question ← life.questions[id]?
  if question.status ≠ .pending then none
  else
    let answered := life.modifyQuestion id fun question =>
      { question with status := .answered, answer := some answer }
    match answered.injectAnswer id question
        [("answered_by", .str answeredBy), ("answer", .str answer)] with
    | some resumed => return resumed
    | none => return answered.modifyQuestion id fun question => { question with status := .voided }

/-- `decline` of a pending question. -/
def decline (id : QuestionId) (reason : Option String) (life : Life σ) : Option (Life σ) := do
  let question ← life.questions[id]?
  if question.status ≠ .pending then none
  else
    let declined := life.modifyQuestion id fun question =>
      { question with status := .declined, answer := reason }
    return (declined.injectAnswer id question [("answered", .bool false),
      ("answer", .str ((reason.filter (· ≠ "")).getD "No answer is available.")),
      ("guidance", .str "Proceed on your own judgement or escalate.")]).getD declined

/-- A worker takes the queued run. -/
def claim (life : Life σ) : Option (Life σ) :=
  if life.run.status = .queued then
    some { life with run := { life.run with status := .running } }
  else none

/-- The lease sweep on a run whose worker is gone: queue it once, then give up. -/
def reclaim (life : Life σ) : Option (Life σ) :=
  if life.run.status ≠ .running then none
  else if life.run.input.leaseRequeues.getD 0 ≥ 1 then
    some { life with
      run := life.run.finalize .error (some "worker lost (lease expired twice)") 0 }.settleQuestions
  else
    some { life with
      run := { life.run with
        status := .queued
        input := { life.run.input with
          leaseRequeues := some (life.run.input.leaseRequeues.getD 0 + 1) } } }

end Life

/-- What can happen to a run. -/
inductive LifeEvent (σ : Type) where
  | claim
  | execute (segment : Segment σ)
  | approve (id : ApprovalId) (decidedBy : Option ProfileId)
  | deny (id : ApprovalId) (decidedBy : Option ProfileId)
  | answer (id : QuestionId) (answer answeredBy : String)
  | decline (id : QuestionId) (reason : Option String)
  | cancel (reason : String)
  | reclaim

def Life.happen {σ : Type} (life : Life σ) : LifeEvent σ → Option (Life σ)
  | .claim => life.claim
  | .execute segment => some (life.execute segment)
  | .approve id decidedBy => life.approve id decidedBy
  | .deny id decidedBy => life.deny id decidedBy
  | .answer id answer answeredBy => life.recordAnswer id answer answeredBy
  | .decline id reason => life.decline id reason
  | .cancel reason => some (life.cancel reason)
  | .reclaim => life.reclaim

/-- What a run becomes between its drives. -/
inductive Life.Becomes {σ : Type} (life : Life σ) : Life σ → Prop where
  | claimed (queued : life.run.status = .queued) :
      life.Becomes { life with run := { life.run with status := .running } }
  | approved {id : ApprovalId} {approval : AgentApproval} {decidedBy : Option ProfileId}
      {status : ApprovalStatus} (found : life.approvals[id]? = some approval)
      (pending : approval.status = .pending) :
      life.Becomes (life.modifyApproval id fun approval => { approval with status, decidedBy })
  | continued {id : ApprovalId} {approval : AgentApproval} {decidedBy : Option ProfileId}
      (found : life.approvals[id]? = some approval) (pending : approval.status = .pending)
      (waiting : life.run.status = .waiting) :
      life.Becomes
        { life.modifyApproval id fun approval => { approval with status := .approved, decidedBy } with
          run := requeue (fun resume =>
            { resume with approved := sortedNames (resume.approved ++ [approval.toolName]) }) life.run }
  | denied {id : ApprovalId} {approval : AgentApproval} {decidedBy : Option ProfileId}
      (found : life.approvals[id]? = some approval) (pending : approval.status = .pending) :
      life.Becomes
        { life.modifyApproval id fun approval => { approval with status := .denied, decidedBy } with
          run := life.run.finalize .error
            (some s!"approval denied: {approval.toolName}") 0 }.settleQuestions
  | asked (questions : List AgentQuestion) : life.Becomes { life with questions := questions }
  | answered (questions : List AgentQuestion) (answers : Fields → Fields)
      (waiting : life.run.status = .waiting) :
      life.Becomes { life with
        questions := questions
        run := requeue (fun resume => { resume with answers := answers resume.answers }) life.run }
  | cancelled (reason : String) : life.Becomes (life.cancel reason)
  | lost (running : life.run.status = .running) :
      life.Becomes { life with
        run := life.run.finalize .error (some "worker lost (lease expired twice)") 0 }.settleQuestions
  | reclaimed (running : life.run.status = .running) :
      life.Becomes { life with
        run := { life.run with
          status := .queued
          input := { life.run.input with
            leaseRequeues := some (life.run.input.leaseRequeues.getD 0 + 1) } } }

namespace Life

variable {σ : Type} {life next : Life σ}

theorem becomes_injectAnswer {id : QuestionId} {question : AgentQuestion} {payload : Fields}
    {change : AgentQuestion → AgentQuestion}
    (injected : (life.modifyQuestion id change).injectAnswer id question payload = some next) :
    life.Becomes next := by
  unfold injectAnswer at injected
  split at injected
  · cases injected
  · rename_i waits
    dsimp only at injected
    split at injected <;> cases injected
    exact .answered _ _ (Decidable.not_not.mp waits)

theorem becomes_getD {resumed : Option (Life σ)} (stays : life.Becomes next)
    (continues : ∀ after, resumed = some after → life.Becomes after) :
    life.Becomes (resumed.getD next) := by
  cases resumed with
  | none => exact stays
  | some after => exact continues after rfl

/-- **What happens to a run**: a drive, or a change between its drives. -/
theorem happen_cases {event : LifeEvent σ} (happened : life.happen event = some next) :
    (∃ segment, event = .execute segment ∧ next = life.execute segment) ∨
      (∀ segment, event ≠ .execute segment) ∧ life.Becomes next := by
  cases event with
  | execute segment => exact .inl ⟨segment, rfl, (some.inj happened).symm⟩
  | claim =>
    simp only [happen, claim] at happened
    split at happened <;> cases happened
    exact .inr ⟨by rintro _ ⟨⟩, .claimed ‹_›⟩
  | approve id decidedBy =>
    obtain ⟨approval, found, decided⟩ := bind_eq_some_iff.mp happened
    split at decided
    · cases decided
    · rename_i isPending
      have pending : approval.status = .pending := Decidable.not_not.mp isPending
      split at decided
      · cases decided
        exact .inr ⟨by rintro _ ⟨⟩, .approved found pending⟩
      · dsimp only at decided
        split at decided <;> cases decided
        · exact .inr ⟨by rintro _ ⟨⟩, .continued found pending ‹_›⟩
        · exact .inr ⟨by rintro _ ⟨⟩, .approved found pending⟩
  | deny id decidedBy =>
    obtain ⟨approval, found, decided⟩ := bind_eq_some_iff.mp happened
    split at decided
    · cases decided
    · rename_i isPending
      have pending : approval.status = .pending := Decidable.not_not.mp isPending
      dsimp only at decided
      split at decided <;> cases decided
      · exact .inr ⟨by rintro _ ⟨⟩, .denied found pending⟩
      · exact .inr ⟨by rintro _ ⟨⟩, .approved found pending⟩
  | answer id answer answeredBy =>
    obtain ⟨question, -, recorded⟩ := bind_eq_some_iff.mp happened
    split at recorded
    · cases recorded
    · dsimp only at recorded
      split at recorded <;> cases recorded
      · exact .inr ⟨by rintro _ ⟨⟩, becomes_injectAnswer ‹_›⟩
      · exact .inr ⟨by rintro _ ⟨⟩, .asked _⟩
  | decline id reason =>
    obtain ⟨question, -, recorded⟩ := bind_eq_some_iff.mp happened
    split at recorded <;> cases recorded
    exact .inr ⟨by rintro _ ⟨⟩, becomes_getD (.asked _) fun _ => becomes_injectAnswer⟩
  | cancel reason =>
    cases happened
    exact .inr ⟨by rintro _ ⟨⟩, .cancelled reason⟩
  | reclaim =>
    simp only [happen, reclaim] at happened
    split at happened
    · cases happened
    · rename_i isRunning
      split at happened <;> cases happened
      · exact .inr ⟨by rintro _ ⟨⟩, .lost (Decidable.not_not.mp isRunning)⟩
      · exact .inr ⟨by rintro _ ⟨⟩, .reclaimed (Decidable.not_not.mp isRunning)⟩

end Life

end RedArchKM.Agents
