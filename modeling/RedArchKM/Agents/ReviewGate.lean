import RedArchKM.Agents.Delegation
import RedArchKM.Agents.Authority
import RedArchKM.Agents.ReviewBoard

/-!
# Convening a review board

`submit_plan` and `request_review` put a submission past a board before a person sees it. A gate
that has not cleared the submission convenes the board: one reviewer run for each staffed seat,
all of them asked by the same tool call. The reviewers' verdicts go into the diary as they reply,
and the author's next call reads them back from there.

Unicode's letters and the hash behind a fingerprint are the platform's.
-/

namespace RedArchKM.Agents

open Workflow (Json Fields AgentRunId)

structure Platform where
  /-- The characters outside ASCII that `\w` matches. -/
  letter : Char → Bool
  hash : String → Digest

/-- `" ".join(text.split())` -/
def joinWords (text : String) : String :=
  " ".intercalate (((text.toList.splitOnP isSpace).filter fun word => !word.isEmpty).map String.ofList)

/-- A short digest of what was submitted. -/
def Platform.fingerprint (platform : Platform) (text : String) : Digest :=
  platform.hash (joinWords text)

structure WorkOrder where
  title : String
  mode : WorkOrderMode

namespace World

/-- The texts of an order's diary. -/
def texts (world : World) (order : WorkOrderId) : List String :=
  (world.entries.filter fun entry => entry.workOrderId = order).map WorkOrderEntry.text

/-- Each seat with its agent, without the seats that the org does not staff. -/
def seatAgents (world : World) (seats : List Seat) : List (Seat × Agent) :=
  seats.filterMap fun seat =>
    (world.agents.find? fun agent => agent.name = seat.agent && agent.enabled).map (seat, ·)

/-- `_mark`: a line of the review in the order's diary. -/
def mark (order : WorkOrderId) (text : String) (world : World) : World :=
  { world with entries := world.entries ++ [{ workOrderId := order, role := "review", text }] }

end World

def reviewRun (ctx : ToolContext) (order : WorkOrderId) (title : String) (gate : Gate)
    (submission tasks : String) (seat : Seat) (agent : Agent) : AgentRun where
  agentId := agent.id
  trigger := .consult
  input := { task := reviewBrief gate seat title submission tasks }
  parentRunId := ctx.runId
  workOrderId := some order
  actorUserId := ctx.actorUserId
  viaApiKey := ctx.viaApiKey
  apiKeyId := ctx.apiKeyId
  status := .queued
  label := "Review (" ++ gate.name ++ "): " ++ agent.name

section

variable (ctx : ToolContext) (runId : AgentRunId) (order : WorkOrderId) (title : String)
    (gate : Gate)

def reviewQuestion (agent : Agent) (peerRun : AgentRunId) : AgentQuestion where
  runId
  toolCallId := ctx.toolCallId.getD ""
  askedByAgentId := ctx.agent.id
  question := "Review the " ++ gate.name ++ " for “" ++ title ++ "” through your lens."
  audience := .agent
  targetAgentId := some agent.id
  peerRunId := some peerRun
  workOrderId := some order

def seatReviewer (submission tasks : String) (world : World) (staffed : Seat × Agent) : World :=
  let (world, peerRun) := world.createRun
    (reviewRun ctx order title gate submission tasks staffed.1 staffed.2)
  (world.createQuestion (reviewQuestion ctx runId order title gate staffed.2 peerRun)).1

end

/-- Create one reviewer run for each staffed seat and park the author on all of them; nothing
where no seat is staffed. -/
def convene (platform : Platform) (ctx : ToolContext) (runId : AgentRunId) (order : WorkOrderId)
    (title : String) (gate : Gate) (submission tasks : String) (seats : List Seat) (world : World) :
    Option (World × ControlSignal) :=
  match world.seatAgents seats with
  | [] => none
  | staffed =>
    let world := staffed.foldl (seatReviewer ctx runId order title gate submission tasks) world
    some (world.mark order (conveneMarker gate (platform.fingerprint submission)
        (staffed.map Prod.fst)),
      .parked .consult [("review", .str gate.name),
        ("board", .arr (staffed.map fun seat => .str seat.2.name))])

/-- Write one reviewer's verdict into the diary as it replies: only for a question to an agent
about a work order. -/
def recordVerdict (platform : Platform) (ctx : ToolContext) (question : AgentQuestion)
    (answer : String) (world : World) : World :=
  match question.workOrderId, question.audience with
  | some order, .agent =>
    { world with
      entries := world.entries ++
        [{ workOrderId := order, agentId := some ctx.agent.id, agentRunId := ctx.runId,
           role := "review",
           text := verdictMarker ctx.agent.name (parseVerdict platform.letter answer)
             (takeChars 1500 (String.ofList (strip answer.toList))) }] }
  | _, _ => world

inductive GateAnswer where
  | cleared
  | changes (fields : Fields)
  | parked (signal : ControlSignal)

def jsonNames (names : List String) : Json := .arr (names.map .str)

def jsonVerdicts (verdicts : List (String × Verdict)) : Json :=
  .obj (verdicts.map fun entry => (entry.1, .str entry.2.name))

/-- What the author is told where the board wants changes. -/
def requestedChanges (gate : Gate) (outcome : BoardOutcome) (rounds : Nat) : Fields :=
  let base := [("review", .str "changes requested"), ("failed", jsonNames outcome.failed),
    ("findings", jsonVerdicts outcome.verdicts)]
  match gate with
  | .plan =>
    base ++ [("review_rounds_remaining", .num (maxRounds - rounds : Nat)),
      ("note", .str ("Address these and call submit_plan again with a revised summary; " ++
        "resubmitting the same text will not re-open the review. " ++
        s!"{maxRounds - rounds} review round(s) remain, after which this goes to a person " ++
        "with any unresolved objections attached."))]
  | .delivery =>
    base ++ [("note", .str ("Your reviewers are not satisfied. Address this and call " ++
      "request_review again with a revised summary of what you delivered."))]

/-- The line a gate writes where its board let the submission through. -/
def clearingLine (gate : Gate) (digest : Digest) (outcome : BoardOutcome) : String :=
  let reviewers := ", ".intercalate (outcome.verdicts.map Prod.fst)
  match gate, outcome.approved with
  | .plan, true => clearedMarker passedTag .plan digest reviewers
  | .plan, false =>
    clearedMarker releasedTag .plan digest ("unresolved: " ++ ", ".intercalate outcome.failed)
  | .delivery, approved =>
    clearedMarker (if approved then passedTag else releasedTag) .delivery digest
      (if reviewers.isEmpty then "no verdicts" else reviewers)

/-- `_clear_the_board` of a plan and `_peer_review_delivery`: run a submission past its board. -/
def clearTheBoard (platform : Platform) (ctx : ToolContext) (runId : AgentRunId)
    (order : WorkOrderId) (title : String) (gate : Gate) (submission tasks : String)
    (seats : List Seat) (world : World) : World × GateAnswer :=
  let digest := platform.fingerprint submission
  let texts := world.texts order
  if hasPassed texts gate digest then (world, .cleared)
  else if seats.isEmpty then (world, .cleared)
  else
    let outcome := outcome platform.letter texts gate
    let rounds := roundsRun texts gate
    if lastDigest texts gate = some digest.text && outcome.settled then
      if outcome.approved || maxRounds ≤ rounds then
        (world.mark order (clearingLine gate digest outcome), .cleared)
      else (world, .changes (requestedChanges gate outcome rounds))
    else
      match convene platform ctx runId order title gate submission tasks seats world with
      | some (world, signal) => (world, .parked signal)
      | none => (world, .cleared)

/-- A platform without letters outside ASCII, where every submission has the same fingerprint. -/
def plainPlatform : Platform where
  letter _ := false
  hash _ := ⟨"0000000000000000", rfl, List.all_eq_true.mp rfl⟩

def clerk : Agent := { id := 0, name := "clerk" }

end RedArchKM.Agents
