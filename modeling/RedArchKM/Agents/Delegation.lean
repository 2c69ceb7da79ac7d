import RedArchKM.Agents.Records

/-!
# Delegation, escalation and consultation

Three tool handlers queue a run for another agent: `delegate_task` for a direct report,
`escalate` for the supervisor, `consult_peer` for an advisory agent, whose answer the asking run
waits for. Every run they queue has the calling run as its parent.
-/

namespace RedArchKM.Agents

open Workflow (Json Fields AgentId AgentRunId AgentRunStatus)

/-- The tables the handlers read and write. -/
structure World where
  agents : List Agent
  runs : List AgentRun
  questions : List AgentQuestion := []
  notifications : List AgentNotification := []
  entries : List WorkOrderEntry := []

/-- What a handler is given besides its arguments. -/
structure ToolContext where
  agent : Agent
  runId : Option AgentRunId
  workOrderId : Option WorkOrderId
  actorUserId : Option ProfileId
  viaApiKey : Bool
  apiKeyId : Option ApiKeyId
  toolCallId : Option String

/-- The arguments of a call: `str(args.get(key) or "").strip()` under each key. -/
abbrev Args := String → String

/-- A control signal that a handler raises instead of returning. -/
inductive ControlSignal where
  | parked (waitKind : RunWaitKind) (payload : Fields)
  | finished (status : AgentRunStatus) (payload : Fields)

abbrev ToolResult := Except ControlSignal Fields

def readId (text : String) : Option Nat :=
  if text.toList.isEmpty || !text.toList.all Char.isDigit then none
  else some (text.toList.foldl (fun n digit => 10 * n + (digit.toNat - '0'.toNat)) 0)

namespace World

def run? (world : World) (id : AgentRunId) : Option AgentRun := world.runs[id]?

/-- `AgentRepository.get` -/
def agent? (world : World) (id : AgentId) : Option Agent := world.agents.find? fun agent => agent.id = id

def resolveAgent (world : World) (ref : String) : Option Agent :=
  match readId ref with
  | some id => world.agent? id
  | none => world.agents.find? fun agent => agent.name = ref

def byName (agents : List Agent) : List Agent := agents.mergeSort fun a b => decide (a.name ≤ b.name)

def listDirectReports (world : World) (supervisorId : AgentId) : List Agent :=
  byName (world.agents.filter fun agent => agent.supervisorId = some supervisorId)

def listConsultable (world : World) (excludeId : AgentId) : List Agent :=
  byName (world.agents.filter fun agent =>
    agent.kind = .advisory && agent.enabled && agent.id != excludeId)

/-- `AgentRunRepository.create_run`: the row and its id. -/
def createRun (run : AgentRun) (world : World) : World × AgentRunId :=
  ({ world with runs := world.runs ++ [run] }, world.runs.length)

def createQuestion (question : AgentQuestion) (world : World) : World × QuestionId :=
  ({ world with questions := world.questions ++ [question] }, world.questions.length)

def createNotification (notification : AgentNotification) (world : World) : World :=
  { world with notifications := world.notifications ++ [notification] }

/-- `_diary`: a line on the order, where the run has one. -/
def diary (ctx : ToolContext) (text : String) (world : World) : World :=
  match ctx.workOrderId with
  | none => world
  | some workOrderId =>
    { world with
      entries := world.entries ++
        [{ workOrderId, agentId := some ctx.agent.id, agentRunId := ctx.runId,
           role := ctx.agent.name, text }] }

end World

/-- What the executor gives the handlers of a run. -/
def contextOf (id : AgentRunId) (run : AgentRun) (agent : Agent) (toolCallId : String) :
    ToolContext where
  agent
  runId := some id
  workOrderId := run.workOrderId
  actorUserId := run.actorUserId
  viaApiKey := run.viaApiKey
  apiKeyId := run.apiKeyId
  toolCallId := some toolCallId

def World.context? (world : World) (id : AgentRunId) (toolCallId : String) : Option ToolContext := do
  let run ← world.run? id
  let agent ← world.agent? run.agentId
  return contextOf id run agent toolCallId

def takeChars (n : Nat) (text : String) : String := String.ofList (text.toList.take n)

/-- How many names a routing error lists before it truncates. -/
def hintNameCap : Nat := 20

/-- How far an escalation may travel up the chart before it asks a person instead. -/
def maxEscalationHops : Nat := 4

def nameList (agents : List Agent) : String :=
  let names := agents.map Agent.name
  if names.length ≤ hintNameCap then ", ".intercalate names
  else
    let listed := ", ".intercalate (names.take hintNameCap)
    s!"{listed}, and {names.length - hintNameCap} more"

def consultableHint (world : World) (caller : Agent) : String :=
  match world.listConsultable caller.id with
  | [] => "There are no advisory agents in this organization to consult."
  | peers => s!"Advisory agents you can consult: {nameList peers}."

def reportsHint (world : World) (caller : Agent) : String :=
  match world.listDirectReports caller.id with
  | [] => s!"'{caller.name}' has no direct reports to delegate to."
  | reports => s!"Direct reports of '{caller.name}': {nameList reports}."

def toolError (text : String) : ToolResult := .ok [("error", .str text)]

/-- The run that a handler queues for `target` on behalf of its own. -/
def childRun (ctx : ToolContext) (target : Agent) (trigger : RunTrigger) (input : RunInput)
    (label : String) : AgentRun where
  agentId := target.id
  trigger
  input
  parentRunId := ctx.runId
  workOrderId := ctx.workOrderId
  actorUserId := ctx.actorUserId
  viaApiKey := ctx.viaApiKey
  apiKeyId := ctx.apiKeyId
  status := .queued
  label

def delegate (ctx : ToolContext) (targetRef task : String) (world : World) :
    Except String (World × AgentRunId) :=
  match world.resolveAgent targetRef with
  | none => .error s!"Unknown target agent: {targetRef}. {reportsHint world ctx.agent}"
  | some target =>
    if target.supervisorId ≠ some ctx.agent.id then
      .error (s!"'{ctx.agent.name}' may only delegate to its direct reports. " ++
        reportsHint world ctx.agent)
    else .ok (world.createRun (childRun ctx target .delegation { task }
      s!"Delegated: {takeChars 80 task}"))

/-- The handler of `delegate_task`. -/
def delegateTask (ctx : ToolContext) (args : Args) (world : World) : World × ToolResult :=
  let target := args "agent"
  let task := args "task"
  if target.isEmpty || task.isEmpty then
    (world, toolError "Both 'agent' and 'task' are required")
  else
    match delegate ctx target task world with
    | .error text => (world, toolError text)
    | .ok (world, run) =>
      (world.diary ctx s!"Delegated to {target}: {task}",
        .ok [("delegated_to", .str target), ("child_run_id", .ofId run), ("status", .str "queued")])

def supervisor (ctx : ToolContext) (world : World) : Option Agent :=
  ctx.agent.supervisorId.bind world.agent?

def escalationBrief (reporter reason context : String) : String :=
  s!"{reporter} has escalated a blocker to you.\n\nBLOCKER: {reason}\n" ++
    (if context.isEmpty then "" else s!"\nCONTEXT FROM {reporter}: {context}\n") ++
    "\nThis is now yours to resolve. " ++
    s!"{reporter} could not get past it, so repeating their approach will fail the same way. " ++
    "Either delegate the work to a report whose tools can actually do it, find another route " ++
    "to the same outcome, or — if nothing you can reach will work — escalate to your own " ++
    "supervisor or ask a human, naming exactly what you need."

section

variable (ctx : ToolContext)

/-- How many escalations the run says it is downstream of. -/
def escalationHops (world : World) : Nat :=
  match ctx.runId.bind world.run? with
  | none => 0
  | some run => run.input.escalationHops.getD 0

/-- The supervisor who will handle the escalation: enabled, and below the hop limit. -/
def escalationHandler (world : World) : Option Agent :=
  (supervisor ctx world).filter fun agent =>
    agent.enabled && decide (escalationHops ctx world < maxEscalationHops)

/-- The reason as it travels: at the hop limit it says that it stopped climbing. -/
def escalationReason (world : World) (reason : String) : String :=
  if (supervisor ctx world).any Agent.enabled && maxEscalationHops ≤ escalationHops ctx world then
    s!"{reason}\n\n(Escalated {escalationHops ctx world} times without resolution; stopping here and asking a person.)"
  else reason

/-- The notice of an escalation: for the admins only when no agent picks it up. -/
def escalationNotice (reason : String) (handler : Option Agent) : AgentNotification where
  kind := "escalation"
  title := s!"Escalation from {ctx.agent.name}"
  body := reason
  runId := ctx.runId
  workOrderId := ctx.workOrderId
  recipientRole := if handler.isSome then none else some "org_admin"

/-- The handler of `escalate`. -/
def escalate (args : Args) (world : World) : World × ToolResult :=
  if (args "reason").isEmpty then (world, toolError "'reason' is required")
  else
    let reason := escalationReason ctx world (args "reason")
    match escalationHandler ctx world with
    | some handler =>
      let (world, child) := world.createRun (childRun ctx handler .escalation
        { task := escalationBrief ctx.agent.name reason (args "context"),
          escalationHops := some (escalationHops ctx world + 1) }
        s!"Escalation from {ctx.agent.name}: {takeChars 60 reason}")
      let world := world.createNotification (escalationNotice ctx reason (some handler))
      (world.diary ctx s!"Escalated to {handler.name}: {reason}",
        .ok [("escalated_to", .str handler.name), ("status", .str "queued"),
          ("supervisor_run_id", .ofId child)])
    | none =>
      let world := world.createNotification (escalationNotice ctx reason none)
      (world.diary ctx s!"Escalated to a human: {reason}",
        .ok [("escalated_to", .str "human reviewer"), ("status", .str "notified")])

end

def consultBrief (asker question : String) : String :=
  s!"{asker} has consulted you.\n\nQUESTION: {question}\n\n" ++
    "Answer from your own area of expertise, researching first if you need to. " ++
    "When you have an answer, call reply_to_peer with it — that is the only way " ++
    s!"{asker} receives it, and it ends your run. Your answer is advice: " ++
    s!"{asker} decides what to do with it."

/-- Why `consult_peer` refuses its target, if it does. -/
def consultRefusal (ctx : ToolContext) (target : String) (peer : Option Agent) (world : World) :
    Option String :=
  match peer with
  | none => some s!"Unknown peer: {target}. {consultableHint world ctx.agent}"
  | some peer =>
    if peer.id = ctx.agent.id then some "You cannot consult yourself"
    else if peer.kind ≠ .advisory then
      some (s!"'{peer.name}' is a {peer.kind.name} agent; you may only consult advisory agents. " ++
        consultableHint world ctx.agent)
    else if !peer.enabled then some s!"{peer.name} is not currently enabled"
    else none

/-- The handler of `consult_peer`: it parks the calling run. -/
def consultPeer (ctx : ToolContext) (args : Args) (world : World) : World × ToolResult :=
  let target := args "agent"
  let question := args "question"
  if target.isEmpty || question.isEmpty then
    (world, toolError "Both 'agent' and 'question' are required")
  else
    let peer := world.resolveAgent target
    match consultRefusal ctx target peer world, peer, ctx.runId, ctx.toolCallId with
    | some text, _, _, _ => (world, toolError text)
    | none, some peer, some runId, some toolCallId =>
      if (world.run? runId).any fun run => run.trigger = .consult then
        (world, toolError "A consult may not itself consult. Answer from what you know, or escalate.")
      else
        let (world, peerRun) := world.createRun (childRun ctx peer .consult
          { task := consultBrief ctx.agent.name question }
          s!"Consult from {ctx.agent.name}: {takeChars 60 question}")
        let (world, row) := world.createQuestion
          { runId, toolCallId, askedByAgentId := ctx.agent.id, question, audience := .agent,
            targetAgentId := some peer.id, peerRunId := some peerRun,
            workOrderId := ctx.workOrderId }
        (world.diary ctx s!"Consulted {peer.name}: {question}",
          .error (.parked .consult [("question_id", .ofId row), ("peer", .str peer.name),
            ("peer_run_id", .ofId peerRun)]))
    | none, _, _, _ => (world, toolError "consult_peer is only available inside an agent run")

end RedArchKM.Agents
