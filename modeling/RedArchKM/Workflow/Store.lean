import RedArchKM.Workflow.Definition

/-!
# What the token engine stores

A run keeps its own tokens and steps, and a token is named by its run and its place among the
run's tokens. Every write of the engine is a change of one run, of one token, or of the agent
runs a run started; nothing is ever deleted, so ids stay valid.
-/

namespace RedArchKM.Workflow

structure TokenId where
  run : RunId
  index : Nat
deriving DecidableEq

inductive RunStatus where
  | running | waiting | succeeded | failed | skipped
deriving DecidableEq

def RunStatus.isTerminal : RunStatus → Bool
  | .succeeded | .failed | .skipped => true
  | .running | .waiting => false

def RunStatus.name : RunStatus → String
  | .running => "running"
  | .waiting => "waiting"
  | .succeeded => "succeeded"
  | .failed => "failed"
  | .skipped => "skipped"

inductive TokenStatus where
  | active | running | waiting | completed | dead
deriving DecidableEq

/-- Tokens that could still advance the run. -/
def TokenStatus.isLive : TokenStatus → Bool
  | .active | .running | .waiting => true
  | .completed | .dead => false

inductive WaitKind where
  | join | timer | boundary | retry | userTask | receive | subprocess | agent | eventBased
deriving DecidableEq

inductive AgentRunStatus where
  | queued | running | waiting | done | error | cancelled | escalated
deriving DecidableEq

def AgentRunStatus.isTerminal : AgentRunStatus → Bool
  | .queued | .running | .waiting => false
  | .done | .error | .cancelled | .escalated => true

def AgentRunStatus.name : AgentRunStatus → String
  | .queued => "queued"
  | .running => "running"
  | .waiting => "waiting"
  | .done => "done"
  | .error => "error"
  | .cancelled => "cancelled"
  | .escalated => "escalated"

def Json.ofId (id : Nat) : Json := .str (toString id)

inductive TokenError where
  | timeout (node : NodeId)
  | failure (node : NodeId) (message : Option String) (code : Option String)
  | raised (error : String)

/-- How a linked agent run ended when it did not complete the step. -/
structure AgentFailure where
  status : AgentRunStatus
  error : String
  agentRunId : AgentRunId

def AgentFailure.toJson (failure : AgentFailure) : Json :=
  .obj [("status", .str failure.status.name), ("error", .str failure.error),
    ("agent_run_id", .ofId failure.agentRunId)]

/-- The markers and counters a token carries. -/
structure TokenData where
  completed : Bool := false
  completionOutput : Option Json := none
  armed : Bool := false
  timerArmed : Bool := false
  retries : List (NodeId × Nat) := []
  error : Option TokenError := none
  childRunId : Option RunId := none
  agentRunId : Option AgentRunId := none
  agentResult : Option AgentFailure := none

namespace TokenData

section

variable (data : TokenData) (nodeId : NodeId)

def attemptsSoFar : Nat := (data.retries.lookup nodeId).getD 0

def recordAttempt (attempt : Nat) : TokenData :=
  { data with retries := (nodeId, attempt) :: data.retries.filter fun entry => entry.1 ≠ nodeId }

/-- Drop the node's attempt counter; `none` when there is nothing to clear. -/
def clearAttempts : Option TokenData :=
  if (data.retries.lookup nodeId).isNone then none
  else some { data with retries := data.retries.filter fun entry => entry.1 ≠ nodeId }

end

end TokenData

structure Token where
  nodeId : NodeId
  arrivedFromNodeId : Option NodeId := none
  arrivedViaHandle : Option String := none
  status : TokenStatus := .active
  waitKind : Option WaitKind := none
  resumeAt : Option Nat := none
  correlationKey : Option AgentRunId := none
  depth : Nat := 0
  leasedAt : Option Nat := none
  data : TokenData := {}

inductive StepStatus where
  | running | succeeded | failed | skipped | retrying
deriving DecidableEq

structure RunStep where
  nodeId : NodeId
  stepIndex : Nat
  tokenIndex : Nat
  status : StepStatus
  output : Option Json := none
  error : Option String := none
  attempts : Nat := 0
  maxAttempts : Nat := 3
  nextRetryAt : Option Nat := none

/-- What a run was started with. -/
structure InputSnapshot where
  before : Json := .null
  after : Json := .null
  inputs : Fields := []
  vars : Fields := []

structure Run where
  workflowId : WorkflowId
  versionId : VersionId
  status : RunStatus := .running
  recordId : Option RecordId := none
  inputSnapshot : InputSnapshot := {}
  depth : Nat := 0
  parentToken : Option TokenId := none
  vars : Fields := []
  stepSeq : Nat := 0
  deadLetter : Bool := false
  conditionsMatched : Bool := false
  error : Option String := none
  tokens : List Token := []
  steps : List RunStep := []

set_option linter.dupNamespace false in
structure Workflow where
  activeVersionId : Option VersionId := none
  entityDefinitionId : Option EntityId := none
  enabled : Bool := true
  runInlineOnChange : Bool := false

structure WorkflowVersion where
  definition : WorkflowDefinitionModel
  published : Bool := true

inductive AgentKind where
  | coordinator | advisory | operator
deriving DecidableEq

def AgentKind.name : AgentKind → String
  | .coordinator => "coordinator"
  | .advisory => "advisory"
  | .operator => "operator"

structure Agent where
  enabled : Bool := true
  kind : AgentKind := .operator
  invocableEverywhere : Bool := false
  workflowInvocable : List WorkflowId := []

structure AgentRun where
  agentId : AgentId
  status : AgentRunStatus := .queued
  task : String
  outputSchema : Fields := []
  allowWebResearch : Bool := false
  workflowId : WorkflowId
  workflowNodeId : NodeId
  workflowToken : TokenId
  output : Fields := []
  error : Option String := none

/-- Cancel the run unless it has ended. -/
def AgentRun.cancel (reason : String) (agentRun : AgentRun) : AgentRun :=
  if agentRun.status.isTerminal then agentRun
  else { agentRun with status := .cancelled, error := some reason }

structure HandlerCall where
  runId : RunId
  nodeId : NodeId
  actionType : String
  config : Json
  recordId : Option RecordId
  before : Json
  after : Json
  inputs : Fields
  vars : Fields
  entityDefinitionId : Option EntityId

structure ActionResult where
  ok : Bool
  output : Json := .null
  error : Option String := none

/-- The tables of the engine, the handlers executed so far and the clock. -/
structure Db where
  workflows : List Workflow := []
  versions : List WorkflowVersion := []
  agents : List Agent := []
  runs : List Run := []
  agentRuns : List AgentRun := []
  calls : List HandlerCall := []
  now : Nat := 0

namespace Db

section

variable (db : Db)

def token? (t : TokenId) : Option Token :=
  db.runs[t.run]?.bind fun run => run.tokens[t.index]?

def modifyRun (runId : RunId) (change : Run → Run) : Db :=
  { db with runs := db.runs.modify runId change }

def modifyToken (t : TokenId) (change : Token → Token) : Db :=
  db.modifyRun t.run fun run => { run with tokens := run.tokens.modify t.index change }

/-- Atomically bump the run's step counter and add a step under the new index. -/
def recordStep (t : TokenId) (node : WorkflowNode) (status : StepStatus)
    (output : Option Json := none) (error : Option String := none) : Db :=
  db.modifyRun t.run fun run =>
    { run with
      stepSeq := run.stepSeq + 1
      steps := run.steps ++
        [{ nodeId := node.id, stepIndex := run.stepSeq + 1, tokenIndex := t.index, status,
           output, error }] }

def settleStep (runId : RunId) (change : RunStep → RunStep) : Db :=
  db.modifyRun runId fun run =>
    { run with steps := run.steps.modify (run.steps.length - 1) change }

def setVariables (runId : RunId) (updates : Fields) : Db :=
  db.modifyRun runId fun run => { run with vars := Fields.update run.vars updates }

def setDeadLetter (runId : RunId) : Db :=
  db.modifyRun runId fun run => { run with deadLetter := true }

def killAll (runId : RunId) : Db :=
  db.modifyRun runId fun run =>
    { run with
      tokens := run.tokens.map fun token =>
        if token.status.isLive then { token with status := .dead } else token }

def cancelRunsForWorkflowRun (runId : RunId) (reason : String) : Db :=
  { db with
    agentRuns := db.agentRuns.map fun agentRun =>
      if agentRun.workflowToken.run = runId then AgentRun.cancel reason agentRun
      else agentRun }

def cancelAgentRun (agentRunId : AgentRunId) (reason : String) : Db :=
  { db with agentRuns := db.agentRuns.modify agentRunId (AgentRun.cancel reason) }

end

end Db

end RedArchKM.Workflow
