import RedArchKM.Lib.History
import RedArchKM.Workflow.Store

/-!
# The token engine

A token is advanced one node at a time: `dispatch` decides at its node what becomes of it and
`applyOutcome` writes that down, after which the run is settled. A call activity drives a child
run in the middle of its own advance, so `advanceOne` takes the drive of a child as an argument
and `driveRun` ties the knot; the depth of calls is bounded, which makes the knot a recursion on
the levels of calls still allowed.

The evaluator, the action handlers, template rendering and the two delays come from outside
(`Host`). The evaluator raises, and so does a timer whose delay is no number of seconds or ends
beyond the last moment.
-/

namespace RedArchKM.Workflow

open Lib

def maxTokensPerRun : Nat := 500
def maxTokenDepth : Nat := 32
def maxPasses : Nat := 2000

/-- What the engine calls and does not define. Times are in microseconds. -/
structure Host where
  maxRunSteps : Nat := 200
  jsonLogic : Evaluator
  execute : List HandlerCall → HandlerCall → ActionResult
  resolveValueMap : Fields → Json → Except String Fields
  renderTemplate : String → Json → String
  delaySeconds : NodeData → Json → Except String Nat
  backoff : Nat → RetryPolicy → Nat
  isoformat : Nat → String
  isodate : Nat → String

/-- A plain host for runs worked out by hand: its handlers fail at the given nodes only. -/
def Host.failingAt (nodeIds : List NodeId) : Host where
  jsonLogic expr _ := .ok expr
  execute _ call := { ok := call.nodeId ∉ nodeIds, error := some "handler failed" }
  resolveValueMap fields _ := .ok fields
  renderTemplate template _ := template
  delaySeconds _ _ := .ok 0
  backoff _ _ := 0
  isoformat _ := ""
  isodate _ := ""

def seconds (count : Nat) : Nat := count * 1000000

/-- The last moment that a timer or a suspended run can resume at, in microseconds. -/
def maxDatetime : Nat := 253402300799999999

/-- A token about to be advanced, with its run, the run's graph and the node it is at. -/
structure Site where
  t : TokenId
  token : Token
  run : Run
  model : WorkflowDefinitionModel
  node : WorkflowNode

inductive OutcomeKind where
  | advance | emit | park | noop | complete | terminate | fail
deriving DecidableEq

structure NodeOutcome where
  kind : OutcomeKind
  targets : List (NodeId × Option String) := []
  waitKind : Option WaitKind := none
  resumeAt : Option Nat := none
  correlationKey : Option AgentRunId := none
  tokenData : Option TokenData := none
  vars : Fields := []
  error : Option String := none

inductive Dispatched where
  | outcome (db : Db) (outcome : NodeOutcome)
  | child (db : Db) (childId : RunId)

/-! ## Settling a run -/

def completion (runId : RunId) (run : Run) : Json :=
  .obj [("child_run_id", .ofId runId), ("status", .str run.status.name), ("vars", .obj run.vars)]

/-- Reactivate a token parked on a child; any other token is left alone. -/
def wakeCaller (completion : Json) (token : Token) : Token :=
  if token.status = .waiting ∧ token.waitKind = some .subprocess then
    { token with
      status := .active
      waitKind := none
      leasedAt := none
      data := { token.data with completed := true, completionOutput := some completion } }
  else token

section

variable (db : Db) (runId : RunId)

/-- If this is a child run, reactivate the parked token that called it. -/
def signalParent : Db :=
  match db.runs[runId]? with
  | none => db
  | some run =>
    match run.parentToken with
    | none => db
    | some parentToken => db.modifyToken parentToken (wakeCaller (completion runId run))

def finishRun (status : RunStatus) : Db :=
  signalParent
    (db.modifyRun runId fun run => { run with status := status, conditionsMatched := true }) runId

def failRun (error : String) : Db :=
  signalParent
    ((db.modifyRun runId fun run => { run with status := .failed, error := some error })
      |>.cancelRunsForWorkflowRun runId s!"workflow run failed: {error}") runId

def settleRun : Db :=
  match db.runs[runId]? with
  | none => db
  | some run =>
    if run.status.isTerminal then db
    else if run.tokens.any fun token => token.status = .active ∨ token.status = .running then
      db.modifyRun runId fun run => { run with status := .running }
    else if run.tokens.any fun token => token.status = .waiting then
      db.modifyRun runId fun run => { run with status := .waiting }
    else finishRun db runId .succeeded

def startRun (definition : WorkflowDefinitionModel) : Db :=
  match (normalize definition).triggers with
  | [] => failRun db runId "no trigger node"
  | triggers =>
    db.modifyRun runId fun run =>
      { run with tokens := run.tokens ++ triggers.map fun trigger => { nodeId := trigger.id } }

end

/-! ## Dispatch -/

def exprContext (host : Host) (db : Db) (run : Run) : Json :=
  .obj [("before", run.inputSnapshot.before), ("after", run.inputSnapshot.after),
    ("inputs", .obj run.inputSnapshot.inputs), ("vars", .obj run.vars),
    ("now", .str (host.isoformat db.now)), ("today", .str (host.isodate db.now))]

def captured (node : WorkflowNode) (output : Json) : Fields :=
  match node.capture with
  | some key => [(key, output)]
  | none => []

def Site.outEdges (site : Site) : List (NodeId × Option String) := site.model.outEdges site.node.id

def Site.moveOn (site : Site) (tokenData : Option TokenData := none) (vars : Fields := []) :
    NodeOutcome :=
  { kind := .advance, targets := site.outEdges, tokenData, vars }

def failed (error : String) : NodeOutcome := { kind := .fail, error := some error }

def stepsExceeded (host : Host) : NodeOutcome := failed s!"max run steps {host.maxRunSteps} exceeded"

def deadline (host : Host) (db : Db) (site : Site) (timer : WorkflowNode) : Except String Nat := do
  let delay ← host.delaySeconds timer.data (exprContext host db site.run)
  if maxDatetime < db.now + seconds delay then .error "date value out of range"
  else return db.now + seconds delay

def chooseCase (jsonLogic : Evaluator) (context : Json) :
    List SwitchCase → Except String (Option String)
  | [] => .ok (some "default")
  | case :: cases => do
      match case.expr with
      | none => return case.handle
      | some expr =>
        if (← jsonLogic expr context).truthy then return case.handle
        else chooseCase jsonLogic context cases

def routeTo (outs : List (NodeId × Option String)) (chosen : Option String) : NodeOutcome :=
  let byHandle (handle : Option String) :=
    outs.find? fun out => some (handleOrDefault out.2) = handle
  match (byHandle chosen).or (byHandle (some "default")) with
  | none => { kind := .complete }
  | some target => { kind := .advance, targets := [target] }

def exclusiveRoute (host : Host) (db : Db) (site : Site) : Except String NodeOutcome :=
  let context := exprContext host db site.run
  match site.outEdges, site.node.data.cases, site.node.data.expr with
  | [], _, _ => .ok { kind := .complete }
  | outs, case :: cases, _ => routeTo outs <$> chooseCase host.jsonLogic context (case :: cases)
  | outs, [], some expr => do
      let chosen := if (← host.jsonLogic expr context).truthy then "true" else "false"
      return routeTo outs (some chosen)
  | out :: _, [], none => .ok { kind := .advance, targets := [out] }

def Token.bufferedAt (nodeId : NodeId) (token : Token) : Prop :=
  token.nodeId = nodeId ∧ token.status = .waiting ∧ token.waitKind = some .join

instance (nodeId : NodeId) (token : Token) : Decidable (token.bufferedAt nodeId) :=
  inferInstanceAs (Decidable (_ ∧ _ ∧ _))

def Token.arrival (token : Token) : Option NodeId × Option String :=
  (token.arrivedFromNodeId, token.arrivedViaHandle)

def Token.toBuffer (token : Token) : Token :=
  { token with status := .waiting, waitKind := some .join }

def Token.withStatus (status : TokenStatus) (token : Token) : Token :=
  { token with status := status }

def tokensOf (db : Db) (runId : RunId) : List Token :=
  (db.runs[runId]?.map Run.tokens).getD []

/-- Consume the buffer of a join. -/
def killBuffered (db : Db) (runId : RunId) (nodeId : NodeId) : Db :=
  db.modifyRun runId fun run =>
    { run with
      tokens := run.tokens.map fun token =>
        if token.bufferedAt nodeId then token.withStatus .dead else token }

def joinComplete (incoming : List (NodeId × Option String)) (buffered : List Token) : Bool :=
  incoming.all fun edge => (some edge.1, edge.2) ∈ buffered.map Token.arrival

/-- AND-join: buffer the arriving token; fire once every incoming edge has a buffered token. -/
def parallelJoin (db : Db) (site : Site) (incoming : List (NodeId × Option String)) :
    Db × NodeOutcome :=
  let db := db.modifyToken site.t Token.toBuffer
  let buffered := (tokensOf db site.t.run).filter fun token => token.bufferedAt site.node.id
  if joinComplete incoming buffered then
    (killBuffered db site.t.run site.node.id, { kind := .emit, targets := site.outEdges })
  else (db, { kind := .noop })

def Token.elsewhere (nodeId : NodeId) (token : Token) : Prop :=
  token.status.isLive ∧ ¬ (token.nodeId = nodeId ∧ token.waitKind = some .join)

instance (nodeId : NodeId) (token : Token) : Decidable (token.elsewhere nodeId) :=
  inferInstanceAs (Decidable (_ ∧ ¬ _))

/-- OR-join: buffer the arriving token, then fire once no other live token can reach the join. The
session holds the tokens as their rows are, unless a terminate event has ended the run before. -/
def inclusiveJoin (db : Db) (site : Site) : Db × NodeOutcome :=
  let db := db.modifyToken site.t Token.toBuffer
  let others := (tokensOf db site.t.run).filter fun token => token.elsewhere site.node.id
  if site.node.id ∈ site.model.forwardReachableNodes (others.map Token.nodeId) then
    (db, { kind := .noop })
  else (killBuffered db site.t.run site.node.id, { kind := .emit, targets := site.outEdges })

def dispatchGateway (host : Host) (db : Db) (site : Site) : Except String (Db × NodeOutcome) :=
  let incoming := site.model.incomingEdges site.node.id
  match site.node.gatewayType.getD .exclusive with
  | .inclusive =>
    if 2 ≤ incoming.length then .ok (inclusiveJoin db site) else .ok (db, site.moveOn)
  | .parallel =>
    if 2 ≤ incoming.length then .ok (parallelJoin db site incoming) else .ok (db, site.moveOn)
  | .exclusive | .eventBased | .other => (db, ·) <$> exclusiveRoute host db site

def dispatchEvent (host : Host) (db : Db) (site : Site) : Except String NodeOutcome :=
  let data := site.node.data
  match data.position.getD .intermediate with
  | .endEvent =>
    match (data.endType.or data.eventType).getD .plain with
    | .terminate => .ok { kind := .terminate }
    | .error =>
      let code := match data.errorCode with
        | none | some "" => "error"
        | some code => code
      .ok (failed s!"error end event ({code})")
    | _ => .ok { kind := .complete }
  | .intermediate =>
    match data.eventType with
    | some .timer =>
      if site.token.data.timerArmed then
        .ok (site.moveOn (some { site.token.data with timerArmed := false }))
      else do
        let resumeAt ← deadline host db site site.node
        return { kind := .park, waitKind := some .timer, resumeAt := some resumeAt
                 tokenData := some { site.token.data with timerArmed := true } }
    | some .message | some .signal => .ok { kind := .park, waitKind := some .receive }
    | _ => .ok site.moveOn
  | .boundary | .null | .other => .ok site.moveOn

/-- Past a wait-state task whose completion was signalled. -/
def completeWait (db : Db) (site : Site) : Db × NodeOutcome :=
  let data := site.token.data
  let output := match data.completionOutput with
    | some output => if output.truthy then output else .obj [("completed", .bool true)]
    | none => .obj [("completed", .bool true)]
  (db.recordStep site.t site.node .succeeded (some output),
    site.moveOn
      (some { data with completed := false, completionOutput := none, armed := false })
      (captured site.node output))

section

variable (host : Host) (db : Db) (site : Site)

/-- Park a human or receive task, or escalate one whose timer fired. -/
def dispatchWait (waitKind : WaitKind) : Except String (Db × NodeOutcome) :=
  let data := site.token.data
  match site.model.timerBoundaryFor site.node.id with
  | none => .ok (db, { kind := .park, waitKind := some waitKind })
  | some boundary =>
    if data.armed then
      .ok (db.recordStep site.t site.node .skipped (some (.obj [("timed_out", .bool true)])),
        { kind := .advance, targets := site.model.outEdges boundary.id
          tokenData := some { data with armed := false, error := some (.timeout site.node.id) } })
    else do
      let resumeAt ← deadline host db site boundary
      return (db, { kind := .park, waitKind := some waitKind, resumeAt := some resumeAt
                    tokenData := some { data with armed := true } })

/-- The `inputs` a call activity hands its child run. -/
def resolveCallInputs : Fields :=
  let inherited := site.run.inputSnapshot.inputs
  match site.node.data.callInputs with
  | .obj (entry :: declared) =>
    match host.resolveValueMap (entry :: declared) (exprContext host db site.run) with
    | .ok resolved => Fields.update inherited resolved
    | .error _ => inherited
  | _ => inherited

def childRun (workflowId : WorkflowId) (versionId : VersionId) : Run where
  workflowId
  versionId
  recordId := site.run.recordId
  inputSnapshot :=
    { before := site.run.inputSnapshot.before
      after := site.run.inputSnapshot.after
      inputs := resolveCallInputs host db site
      vars := site.run.vars }
  depth := site.run.depth + 1
  parentToken := some site.t

end

def createRun (db : Db) (run : Run) : Db := { db with runs := db.runs ++ [run] }

/-- Call activity: start a child run, which is then driven inline. -/
def dispatchCall (host : Host) (db : Db) (site : Site) : Dispatched :=
  let refuse (error : String) := Dispatched.outcome db (failed error)
  if maxTokenDepth ≤ site.run.depth then refuse s!"call depth {maxTokenDepth} exceeded"
  else
    match site.node.data.callWorkflowId with
    | none => refuse "call task requires a valid call_workflow_id"
    | some targetId =>
      match db.workflows[targetId]?.bind Workflow.activeVersionId with
      | none => refuse "call target workflow not found or has no published version"
      | some versionId =>
        match db.versions[versionId]? with
        | none => refuse "call target has no published version"
        | some version =>
          if !version.published then refuse "call target has no published version"
          else
            let childId := db.runs.length
            .child (startRun (createRun db (childRun host db site targetId versionId))
              childId version.definition) childId

/-- What a call activity does once its child has been driven. -/
def finishCall (db : Db) (site : Site) (childId : RunId) : Db × NodeOutcome :=
  let childVars := .obj ((db.runs[childId]?.map Run.vars).getD [])
  match (db.runs[childId]?.map Run.status).getD .failed with
  | .succeeded | .skipped =>
    (db.recordStep site.t site.node .succeeded
        (some (.obj [("child_run_id", .ofId childId), ("vars", childVars)])),
      site.moveOn none (captured site.node childVars))
  | .failed =>
    let db := db.recordStep site.t site.node .failed
      (some (.obj [("child_run_id", .ofId childId)]))
    match site.model.errorBoundaryFor site.node.id none with
    | some boundary =>
      (db, { kind := .advance, targets := [(boundary.id, some "boundary")]
             tokenData := some
              { site.token.data with
                error := some (.failure site.node.id (some "child run failed") none) } })
    | none =>
      if site.node.data.continueOnError then (db, site.moveOn)
      else (db.setDeadLetter site.t.run, failed "child run failed")
  | .running | .waiting =>
    (db, { kind := .park, waitKind := some .subprocess
           tokenData := some { site.token.data with childRunId := some childId } })

/-- Route an agent-step failure exactly like a caught task failure. -/
def agentFailureOutcome (site : Site) (tokenData : TokenData) (message errorCode : String) :
    NodeOutcome :=
  match site.model.errorBoundaryFor site.node.id (some errorCode) with
  | some boundary =>
    { kind := .advance, targets := [(boundary.id, some "boundary")]
      tokenData := some
        { tokenData with
          error := some (.failure site.node.id (some message) (some errorCode)) } }
  | none =>
    if site.node.data.continueOnError then site.moveOn (some tokenData) else failed message

/-- A misconfigured agent binding must surface loudly. -/
def agentSetupFailure (db : Db) (site : Site) (message : String) : Db × NodeOutcome :=
  let db := db.recordStep site.t site.node .failed (some (.obj [("error", .str message)]))
  let outcome := agentFailureOutcome site site.token.data message "failed"
  if outcome.kind = .fail then (db.setDeadLetter site.t.run, outcome) else (db, outcome)

def runningStep (site : Site) (run : Run) : Option Nat :=
  (List.range run.steps.length).reverse.find? fun index =>
    match run.steps[index]? with
    | some step =>
      step.nodeId = site.node.id && step.tokenIndex = site.t.index && step.status = .running
    | none => false

section

variable (db : Db) (site : Site)

def finishAgentStep (status : StepStatus) (output : Fields) (error : Option String := none) : Db :=
  match db.runs[site.t.run]?.bind (runningStep site) with
  | none => db.recordStep site.t site.node status (some (.obj output)) error
  | some index =>
    db.modifyRun site.t.run fun run =>
      { run with
        steps := run.steps.modify index fun step =>
          { step with
            status
            output := some (.obj (Fields.update ((step.output.bind Json.fields?).getD []) output))
            error } }

def completeAgent : Db × NodeOutcome :=
  let data := site.token.data
  let output := (data.completionOutput.bind Json.fields?).getD []
  let result := Fields.get output "result"
  (finishAgentStep db site .succeeded output,
    site.moveOn
      (some { data with
        completed := false, completionOutput := none, armed := false, agentRunId := none })
      (captured site.node (if result.truthy then result else .obj [])))

def failAgent (failure : AgentFailure) : Db × NodeOutcome :=
  let cleaned := { site.token.data with agentResult := none, armed := false, agentRunId := none }
  let message :=
    if failure.error = "" then s!"agent run {failure.status.name}" else failure.error
  let errorCode := if failure.status = .escalated then "escalated" else "failed"
  (finishAgentStep db site .failed ((Json.fields? failure.toJson).getD []) (some message),
    agentFailureOutcome site cleaned message errorCode)

/-- A linked agent run and no stamp: the timer fired, or the token was woken for no reason. -/
def resumeAgent (linkedRunId : AgentRunId) : Db × NodeOutcome :=
  let data := site.token.data
  let repark : Db × NodeOutcome :=
    (db, { kind := .park, waitKind := some .agent, correlationKey := some linkedRunId
           tokenData := some data })
  match data.armed, site.model.timerBoundaryFor site.node.id with
  | true, some boundary =>
    let cancelled := (db.agentRuns[linkedRunId]?.map fun agentRun =>
      !agentRun.status.isTerminal).getD false
    let db := db.cancelAgentRun linkedRunId s!"workflow SLA timeout at node {site.node.id}"
    (finishAgentStep db site .skipped
        [("timed_out", .bool true), ("agent_run_id", .ofId linkedRunId),
          ("cancelled", .bool cancelled)],
      { kind := .advance, targets := site.model.outEdges boundary.id
        tokenData := some
          { data with
            armed := false, agentRunId := none, error := some (.timeout site.node.id) } })
  | _, _ => repark

/-- Why the agent of a node cannot take the step, if it cannot. -/
def agentRefusal : Except String AgentId :=
  match site.node.data.agentId with
  | none => .error "agent task requires a valid agent_id"
  | some agentId =>
    match db.agents[agentId]? with
    | none => .error "agent missing or disabled"
    | some agent =>
      if !agent.enabled then .error "agent missing or disabled"
      else if agent.kind ≠ .operator then
        .error s!"agent kind '{agent.kind.name}' is not assignable (operator only)"
      else if !agent.invocableEverywhere ∧ site.run.workflowId ∉ agent.workflowInvocable then
        .error "agent has not opted in to this workflow (workflow_invocable)"
      else if site.node.data.task.trimAscii.isEmpty then
        .error "agent task requires a task prompt"
      else .ok agentId

end

section

variable (host : Host) (db : Db) (site : Site)

/-- First arrival: enqueue an agent run and park on it. -/
def enqueueAgent (agentId : AgentId) : Except String (Db × NodeOutcome) :=
  let agentRunId := db.agentRuns.length
  let agentRun : AgentRun :=
    { agentId
      task := host.renderTemplate site.node.data.task.trimAscii.toString
        (exprContext host db site.run)
      outputSchema := site.node.data.outputSchema
      allowWebResearch := site.node.data.allowWebResearch
      workflowId := site.run.workflowId
      workflowNodeId := site.node.id
      workflowToken := site.t }
  let parkedData := { site.token.data with agentRunId := some agentRunId }
  let written := { db with agentRuns := db.agentRuns ++ [agentRun] }.recordStep site.t site.node
    .running (some (.obj [("agent_run_id", .ofId agentRunId), ("agent_id", .ofId agentId)]))
  match site.model.timerBoundaryFor site.node.id with
  | none =>
    .ok (written, { kind := .park, waitKind := some .agent, correlationKey := some agentRunId
                    tokenData := some parkedData })
  | some boundary => do
    let resumeAt ← deadline host db site boundary
    return (written, { kind := .park, waitKind := some .agent, correlationKey := some agentRunId
                       resumeAt := some resumeAt
                       tokenData := some { parkedData with armed := true } })

def dispatchAgent : Except String (Db × NodeOutcome) :=
  let data := site.token.data
  if data.completed then .ok (completeAgent db site)
  else
    match data.agentResult, data.agentRunId with
    | some failure, _ => .ok (failAgent db site failure)
    | none, some linkedRunId => .ok (resumeAgent db site linkedRunId)
    | none, none =>
      if host.maxRunSteps ≤ site.run.stepSeq then .ok (db, stepsExceeded host)
      else
        match agentRefusal db site with
        | .error message => .ok (agentSetupFailure db site message)
        | .ok agentId => enqueueAgent host db site agentId

/-- A task that derives values and publishes them as run variables. -/
def dispatchDerivation (evaluate : Json → Except String Fields) :
    Except String (Db × NodeOutcome) :=
  if host.maxRunSteps ≤ site.run.stepSeq then .ok (db, stepsExceeded host)
  else do
    let outputs ← evaluate (exprContext host db site.run)
    return (db.recordStep site.t site.node .succeeded (some (.obj outputs)),
      site.moveOn none outputs)

def dispatchDecision : Except String (Db × NodeOutcome) :=
  dispatchDerivation host db site
    (evaluateDecisionTable host.jsonLogic site.node.data.decisionTable)

def dispatchScript : Except String (Db × NodeOutcome) :=
  dispatchDerivation host db site (evaluateTransform host.jsonLogic site.node.data.transform)

end

def handlerCall (db : Db) (site : Site) (actionType : String) : HandlerCall where
  runId := site.t.run
  nodeId := site.node.id
  actionType
  config := site.node.data.config
  recordId := site.run.recordId
  before := site.run.inputSnapshot.before
  after := site.run.inputSnapshot.after
  inputs := site.run.inputSnapshot.inputs
  vars := site.run.vars
  entityDefinitionId := db.workflows[site.run.workflowId]?.bind Workflow.entityDefinitionId

/-- The outcome of a handler that failed for good, once its step is settled. -/
def actionFailed (db : Db) (site : Site) (error : Option String) : Db × NodeOutcome :=
  match site.model.errorBoundaryFor site.node.id none with
  | some boundary =>
    (db, { kind := .advance, targets := [(boundary.id, some "boundary")]
           tokenData := some
            { site.token.data with error := some (.failure site.node.id error none) } })
  | none =>
    if site.node.data.continueOnError then (db, site.moveOn)
    else (db.setDeadLetter site.t.run, { kind := .fail, error })

def dispatchAction (host : Host) (db : Db) (site : Site) (actionType : String) :
    Db × NodeOutcome :=
  if host.maxRunSteps ≤ site.run.stepSeq then (db, stepsExceeded host)
  else
    let call := handlerCall db site actionType
    let result := host.execute db.calls call
    let db := { db.recordStep site.t site.node .running with calls := db.calls ++ [call] }
    if result.ok then
      (db.settleStep site.t.run fun step =>
          { step with status := .succeeded, output := some result.output },
        site.moveOn (site.token.data.clearAttempts site.node.id)
          (captured site.node result.output))
    else
      let policy := readPolicy site.node.data.retry
      let attempt := site.token.data.attemptsSoFar site.node.id
      if attempt + 1 < policy.maxAttempts then
        let resumeAt := db.now + host.backoff attempt policy
        (db.settleStep site.t.run fun step =>
            { step with
              status := .retrying, error := result.error, attempts := attempt + 1
              maxAttempts := policy.maxAttempts, nextRetryAt := some resumeAt },
          { kind := .park, waitKind := some .retry, resumeAt := some resumeAt
            tokenData := some (site.token.data.recordAttempt site.node.id (attempt + 1)) })
      else
        actionFailed
          (db.settleStep site.t.run fun step =>
            { step with
              status := .failed, error := result.error, attempts := attempt + 1
              maxAttempts := policy.maxAttempts })
          site result.error

def skipTask (db : Db) (site : Site) : Db × NodeOutcome :=
  (db.recordStep site.t site.node .skipped
    (some (.obj [("note", .str "task type not yet supported")])), site.moveOn)

def Dispatched.of (result : Db × NodeOutcome) : Dispatched := .outcome result.1 result.2

def dispatchTask (host : Host) (db : Db) (site : Site) : Except String Dispatched :=
  match site.node.taskType with
  | some .user | some .manual =>
    Dispatched.of <$> if site.token.data.completed then .ok (completeWait db site)
      else dispatchWait host db site .userTask
  | some .receive =>
    Dispatched.of <$> if site.token.data.completed then .ok (completeWait db site)
      else dispatchWait host db site .receive
  | some .call | some .subProcess =>
    .ok (if site.token.data.completed then .of (completeWait db site)
      else dispatchCall host db site)
  | some .agent => Dispatched.of <$> dispatchAgent host db site
  | some .businessRule => Dispatched.of <$> dispatchDecision host db site
  | some .script => Dispatched.of <$> dispatchScript host db site
  | some .service | some .send | some .other | none =>
    match site.node.data.actionType with
    | none | some "" => .ok (.of (skipTask db site))
    | some actionType => .ok (.of (dispatchAction host db site actionType))

def dispatch (host : Host) (db : Db) (site : Site) : Except String Dispatched :=
  match site.node.type with
  | .gateway => Dispatched.of <$> dispatchGateway host db site
  | .event => (Dispatched.outcome db ·) <$> dispatchEvent host db site
  | .task => dispatchTask host db site
  | _ => .ok (.outcome db site.moveOn)

/-! ## Applying an outcome -/

/-- Reuse the token for a linear step. -/
def Token.moveTo (source : NodeId) (target : NodeId × Option String)
    (tokenData : Option TokenData) (token : Token) : Token :=
  { token with
    nodeId := target.1
    arrivedFromNodeId := some source
    arrivedViaHandle := target.2
    status := .active
    leasedAt := none
    data := tokenData.getD token.data }

def Token.park (outcome : NodeOutcome) (token : Token) : Token :=
  { token with
    status := .waiting
    waitKind := outcome.waitKind
    resumeAt := outcome.resumeAt
    correlationKey := outcome.correlationKey
    leasedAt := none
    data := outcome.tokenData.getD token.data }

/-- The token a fork or a fired join puts on an edge. -/
def Token.onEdge (source : NodeId) (depth : Nat) (target : NodeId × Option String) : Token where
  nodeId := target.1
  arrivedFromNodeId := some source
  arrivedViaHandle := target.2
  depth := depth

def createTokens (db : Db) (runId : RunId) (tokens : List Token) : Db :=
  db.modifyRun runId fun run => { run with tokens := run.tokens ++ tokens }

def overBudget (db : Db) (runId : RunId) (outcome : NodeOutcome) : Prop :=
  maxTokensPerRun < (tokensOf db runId).length + outcome.targets.length

instance (db : Db) (runId : RunId) (outcome : NodeOutcome) :
    Decidable (overBudget db runId outcome) :=
  inferInstanceAs (Decidable (_ < _))

def branchDepth (token : Token) (outcome : NodeOutcome) : Nat :=
  min (token.depth + if 1 < outcome.targets.length then 1 else 0) maxTokenDepth

section

variable (db : Db) (site : Site) (outcome : NodeOutcome)

def applyTargets : Db :=
  let branches := outcome.targets.map
    (Token.onEdge site.node.id (branchDepth site.token outcome))
  match outcome.kind with
  | .advance =>
    match outcome.targets with
    | [target] => db.modifyToken site.t (Token.moveTo site.node.id target outcome.tokenData)
    | _ =>
      createTokens
        (db.modifyToken site.t fun token =>
          { token with status := .completed, data := outcome.tokenData.getD token.data })
        site.t.run branches
  | _ => createTokens db site.t.run branches

def applyOutcome : Db :=
  let db := db.setVariables site.t.run outcome.vars
  match outcome.kind with
  | .noop => db
  | .park => db.modifyToken site.t (Token.park outcome)
  | .complete => db.modifyToken site.t (Token.withStatus .completed)
  | .fail =>
    failRun (db.modifyToken site.t (Token.withStatus .dead)) site.t.run
      (match outcome.error with
        | none | some "" => "task failed"
        | some error => error)
  | .terminate =>
    finishRun
      (((db.modifyToken site.t (Token.withStatus .completed)).killAll site.t.run)
        |>.cancelRunsForWorkflowRun site.t.run "workflow terminated")
      site.t.run .succeeded
  | .advance | .emit =>
    if overBudget db site.t.run outcome then
      failRun (db.modifyToken site.t (Token.withStatus .dead)) site.t.run
        s!"max tokens per run {maxTokensPerRun} exceeded"
    else applyTargets db site outcome

end

/-! ## Advancing -/

/-- What happens to the store, one event for each advance of a token and each write from
outside. -/
inductive Event where
  | launched (runId : RunId)
  | taken (t : TokenId)
  | claimed (t : TokenId)
  | released (t : TokenId)
  | stranded (t : TokenId)
  | advanced (t : TokenId) (outcome : NodeOutcome)
  | called (t : TokenId) (childId : RunId)
  | returned (t : TokenId) (outcome : NodeOutcome)
  | killed (t : TokenId)
  | resumed (t : TokenId)
  | signaled (t : TokenId)
  | agentEnded (agentRunId : AgentRunId)
  | wiredBack (t : TokenId)
  | retried (runId : RunId)
  | ticked

/-- The store and the moments that led to it. -/
abbrev World := History Event Db

def conclude (db : Db) (site : Site) (outcome : NodeOutcome) : Db :=
  settleRun (applyOutcome db site outcome) site.t.run

/-- Advance a single token one node. -/
def advanceOne (host : Host) (drive : World → RunId → Except String World) (world : World)
    (t : TokenId) : Except String World :=
  match world.now.runs[t.run]?, world.now.token? t with
  | some run, some token =>
    match world.now.versions[run.versionId]? with
    | none =>
      .ok (world.step (.stranded t)
        ((failRun world.now t.run "workflow version missing").modifyToken t
          (Token.withStatus .dead)))
    | some version =>
      let model := normalize version.definition
      match model.nodeById token.nodeId with
      | none =>
        .ok (world.step (.stranded t)
          (settleRun (world.now.modifyToken t (Token.withStatus .dead)) t.run))
      | some node => do
          let site : Site := { t, token, run, model, node }
          match ← dispatch host world.now site with
          | .outcome db outcome =>
            return world.step (.advanced t outcome) (conclude db site outcome)
          | .child db childId =>
            let driven ← drive (world.step (.called t childId) db) childId
            let (db, outcome) := finishCall driven.now site childId
            return driven.step (.returned t outcome) (conclude db site outcome)
  | _, _ => .ok world

def hasStatus (db : Db) (status : TokenStatus) (t : TokenId) : Bool :=
  (db.token? t).any fun token => token.status = status

/-- The run's tokens that a pass lists: the active ones, and those that the session still holds as
active although a terminate event has killed them since. -/
def activeTokens (db : Db) (runId : RunId) (held : List TokenId) : List TokenId :=
  ((List.range (tokensOf db runId).length).map (TokenId.mk runId)).filter fun t =>
    hasStatus db .active t || t ∈ held

/-- One pass: every listed token is set running, whatever it is by then, and advanced. What the
advance leaves active the session holds as active when the next pass lists the tokens: the update of
a terminate event goes past it. -/
def drivePass (advance : World → TokenId → Except String World) :
    List TokenId → World → Except String (World × List TokenId)
  | [], world => .ok (world, [])
  | t :: rest, world => do
      let taken := world.step (.taken t) (world.now.modifyToken t (Token.withStatus .running))
      let advanced ← advance taken t
      let (last, held) ← drivePass advance rest advanced
      return (last, if hasStatus advanced.now .active t then t :: held else held)

def drivePasses (advance : World → TokenId → Except String World) (runId : RunId) :
    Nat → List TokenId → World → Except String World
  | 0, _, world => .ok world
  | passes + 1, held, world =>
    match activeTokens world.now runId held with
    | [] => .ok world
    | active => do
        let (next, held) ← drivePass advance active world
        drivePasses advance runId passes held next

/-- Advance one run's tokens to quiescence. The levels are those of the calls still allowed:
a run at the last level is too deep to start a child. -/
def driveRun (host : Host) : Nat → World → RunId → Except String World
  | 0, world, runId =>
    drivePasses (advanceOne host fun world _ => .ok world) runId maxPasses [] world
  | levels + 1, world, runId =>
    drivePasses (advanceOne host (driveRun host levels)) runId maxPasses [] world

end RedArchKM.Workflow
