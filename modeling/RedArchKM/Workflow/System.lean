import Mathlib.Data.List.Dedup
import RedArchKM.Workflow.Engine

/-!
# The engine at work

The engine's entry points, in any order: runs are launched and driven, the sweep claims and
advances tokens, waits elapse, signals and agent completions arrive, failed runs are retried.
Each is one transaction. An error that escapes a drive rolls the drive back; one that escapes an
advance of the sweep rolls that advance back, kills the token and fails its run.

The environment chooses which tokens a sweep claims or wakes and which runs another worker holds
locked; the engine's own guards decide what becomes of the choice.
-/

namespace RedArchKM.Workflow

open Lib

/-- How long a leased token may run before it is presumed crashed. -/
def leaseTtl : Nat := seconds 300

/-- What a new run is created with. -/
structure Launch where
  workflowId : WorkflowId
  versionId : VersionId
  recordId : Option RecordId := none
  inputSnapshot : InputSnapshot := {}
  depth : Nat := 0

def Launch.run (launch : Launch) : Run where
  workflowId := launch.workflowId
  versionId := launch.versionId
  recordId := launch.recordId
  inputSnapshot := launch.inputSnapshot
  depth := launch.depth

inductive Action where
  | launch (launch : Launch)
  | drive (runId : RunId)
  | sweep (claimed : List TokenId) (locked : List RunId)
  | resumeDue (chosen : List TokenId)
  | signal (runId : RunId) (nodeId : Option NodeId) (correlationKey : Option AgentRunId)
      (vars output : Fields)
  | finishAgent (agentRunId : AgentRunId) (status : AgentRunStatus) (output : Fields)
      (error : Option String)
  | cancelAgent (agentRunId : AgentRunId) (reason : String)
  | reconcile (t : TokenId)
  | retry (runId : RunId)
  | tick (elapsed : Nat)

/-! ## The sweep -/

def Token.lease (now : Nat) (token : Token) : Token :=
  { token with status := .running, leasedAt := some now }

def Token.release (token : Token) : Token := { token with status := .active, leasedAt := none }

def killToken (db : Db) (t : TokenId) (error : String) : Db :=
  ((db.modifyToken t fun token =>
      { token with status := .dead, data := { token.data with error := some (.raised error) } })
    |>.modifyRun t.run fun run =>
      if run.status = .succeeded ∨ run.status = .skipped then run
      else { run with status := .failed, error := some error })
    |>.cancelRunsForWorkflowRun t.run s!"workflow run failed: {error}"

def claimTokens : List TokenId → World → World
  | [], world => world
  | t :: rest, world =>
    claimTokens rest
      (world.step (.claimed t) (world.now.modifyToken t (Token.lease world.now.now)))

def advanceClaimed (host : Host) (locked : List RunId) : List TokenId → World → World
  | [], world => world
  | t :: rest, world =>
    advanceClaimed host locked rest
      (if t.run ∈ locked then
        world.step (.released t) (world.now.modifyToken t Token.release)
      else if !hasStatus world.now .running t then world
      else
        match advanceOne host (driveRun host maxTokenDepth) world t with
        | .ok world => world
        | .error _ => world.step (.killed t) (killToken world.now t "advance error"))

def advanceTokens (host : Host) (chosen : List TokenId) (locked : List RunId) (world : World) :
    World :=
  let claimed := chosen.dedup.filter (hasStatus world.now .active)
  advanceClaimed host locked claimed (claimTokens claimed world)

/-! ## Wake-ups -/

def timedKinds : List WaitKind := [.timer, .boundary, .retry, .userTask, .receive, .agent]

/-- The wait kinds a signal may resume. -/
def signalableKinds : List WaitKind := [.userTask, .receive, .subprocess, .eventBased]

/-- A parked token whose wait elapsed, or a lease past its time. -/
def Token.isDue (now : Nat) (token : Token) : Bool :=
  (token.status = .waiting && token.waitKind.any (· ∈ timedKinds) &&
      token.resumeAt.any (· ≤ now)) ||
    (token.status = .running && token.leasedAt.any (· + leaseTtl < now))

def resumeDueTokens : List TokenId → World → World
  | [], world => world
  | t :: rest, world =>
    resumeDueTokens rest
      (if (world.now.token? t).any (Token.isDue world.now.now) then
        world.step (.resumed t) (world.now.modifyToken t Token.release)
      else world)

/-- Stamp a completion on a parked token and reactivate it. -/
def Token.complete (output : Json) (token : Token) : Token :=
  { token with
    status := .active
    waitKind := none
    leasedAt := none
    data := { token.data with completed := true, completionOutput := some output } }

def Token.isSignalable (nodeId : Option NodeId) (correlationKey : Option AgentRunId)
    (token : Token) : Bool :=
  token.status = .waiting && token.waitKind.any (· ∈ signalableKinds) &&
    nodeId.all (· = token.nodeId) && correlationKey.all (some · = token.correlationKey)

def signalTarget (db : Db) (runId : RunId) (nodeId : Option NodeId)
    (correlationKey : Option AgentRunId) : Option TokenId :=
  ((List.range (tokensOf db runId).length).map (TokenId.mk runId)).find? fun t =>
    (db.token? t).any (Token.isSignalable nodeId correlationKey)

def signalToken (world : World) (runId : RunId) (nodeId : Option NodeId)
    (correlationKey : Option AgentRunId) (vars output : Fields) : World :=
  match signalTarget world.now runId nodeId correlationKey with
  | none => world
  | some t =>
    world.step (.signaled t)
      ((world.now.setVariables runId vars).modifyToken t (Token.complete (.obj output)))

/-- The stamp of a linked agent run that ended. -/
def AgentRun.stamp (agentRunId : AgentRunId) (agentRun : AgentRun) (data : TokenData) : TokenData :=
  if agentRun.status = .done then
    { data with
      completed := true
      completionOutput := some (.obj [("result", .obj agentRun.output),
        ("agent_run_id", .ofId agentRunId), ("agent_id", .ofId agentRun.agentId),
        ("status", .str agentRun.status.name)]) }
  else
    { data with
      agentResult := some { status := agentRun.status, error := agentRun.error.getD "", agentRunId } }

def Token.isParkedOn (agentRunId : AgentRunId) (token : Token) : Bool :=
  token.status = .waiting && token.waitKind = some .agent && token.correlationKey = some agentRunId

/-- Reactivate the token parked on an agent run that ended; a late signal does nothing. -/
def resumeTokenForRun (world : World) (t : TokenId) (agentRunId : AgentRunId)
    (agentRun : AgentRun) : World :=
  if (world.now.token? t).any (Token.isParkedOn agentRunId) then
    world.step (.wiredBack t)
      (world.now.modifyToken t fun token =>
        { token with
          status := .active
          waitKind := none
          resumeAt := none
          leasedAt := none
          data := agentRun.stamp agentRunId token.data })
  else world

/-- An agent run ends, and its wire-back follows in the same transaction. -/
def finishAgentRun (world : World) (agentRunId : AgentRunId) (status : AgentRunStatus)
    (output : Fields) (error : Option String) : World :=
  match world.now.agentRuns[agentRunId]? with
  | none => world
  | some agentRun =>
    if agentRun.status.isTerminal ∨ !status.isTerminal then world
    else
      let ended := { agentRun with status, output, error }
      resumeTokenForRun
        (world.step (.agentEnded agentRunId)
          { world.now with agentRuns := world.now.agentRuns.set agentRunId ended })
        agentRun.workflowToken agentRunId ended

/-- The crash backstop: stamp a token parked on an agent run that has already ended. -/
def reconcileAgentToken (world : World) (t : TokenId) : World :=
  match (world.now.token? t).bind Token.correlationKey with
  | none => world
  | some agentRunId =>
    match world.now.agentRuns[agentRunId]? with
    | none => world
    | some agentRun =>
      if agentRun.status.isTerminal then resumeTokenForRun world t agentRunId agentRun
      else world

/-! ## Starting and retrying runs -/

def launchRun (world : World) (launch : Launch) : World :=
  match world.now.versions[launch.versionId]? with
  | none => world
  | some version =>
    let runId := world.now.runs.length
    world.step (.launched runId)
      (startRun (createRun world.now launch.run) runId version.definition)

/-- A drive is one transaction: an error that escapes it leaves nothing behind. -/
def drive (host : Host) (world : World) (runId : RunId) : World :=
  match driveRun host maxTokenDepth world runId with
  | .ok driven => driven
  | .error _ => world

def reactivateDead (db : Db) (runId : RunId) : Db :=
  db.modifyRun runId fun run =>
    { run with
      status := .running
      error := none
      tokens := run.tokens.map fun token =>
        if token.status = .dead then
          { token with status := .active, leasedAt := none, resumeAt := none }
        else token }

/-- Only a failed run with a dead token can be retried. -/
def retryRun (host : Host) (world : World) (runId : RunId) : World :=
  let dead := (tokensOf world.now runId).any fun token => token.status = .dead
  if dead ∧ world.now.runs[runId]?.any fun run => run.status = .failed then
    let reopened := world.step (.retried runId) (reactivateDead world.now runId)
    match driveRun host maxTokenDepth reopened runId with
    | .ok driven => driven
    | .error _ => world
  else world

/-! ## Runs of the system -/

def perform (host : Host) (world : World) : Action → World
  | .launch launch => launchRun world launch
  | .drive runId => drive host world runId
  | .sweep chosen locked => advanceTokens host chosen locked world
  | .resumeDue chosen => resumeDueTokens chosen world
  | .signal runId nodeId correlationKey vars output =>
    signalToken world runId nodeId correlationKey vars output
  | .finishAgent agentRunId status output error =>
    finishAgentRun world agentRunId status output error
  | .cancelAgent agentRunId reason =>
    world.step (.agentEnded agentRunId) (world.now.cancelAgentRun agentRunId reason)
  | .reconcile t => reconcileAgentToken world t
  | .retry runId => retryRun host world runId
  | .tick elapsed => world.step .ticked { world.now with now := world.now.now + elapsed }

def execute (host : Host) (db : Db) (actions : List Action) : World :=
  actions.foldl (perform host) { now := db }

end RedArchKM.Workflow
