import RedArchKM.Agents.Authority
import Mathlib.Algebra.BigOperators.Group.List.Basic

/-!
# The tool-calling loop

The loop asks the model for a turn, gates every call of the turn before any of them runs, runs
the calls and feeds the results back, until the model stops calling tools or the iterations run
out. A call that needs a person parks the run before anything ran; a handler that waits for an
answer parks it with the calls that have not run yet.

The model, the database and the handlers are the host's. What the loop does with them is in its
log, in the order it happened.
-/

namespace RedArchKM.Agents

open Workflow (Json Fields AgentId AgentRunId)

/-! ## Tokens -/

@[ext] structure Usage where
  promptTokens : Nat := 0
  completionTokens : Nat := 0
  totalTokens : Nat := 0
deriving DecidableEq

namespace Usage

instance : Zero Usage := ⟨{}⟩

instance : Add Usage where
  add a b :=
    { promptTokens := a.promptTokens + b.promptTokens
      completionTokens := a.completionTokens + b.completionTokens
      totalTokens := a.totalTokens + b.totalTokens }

@[simp] theorem promptTokens_zero : (0 : Usage).promptTokens = 0 := rfl

@[simp] theorem completionTokens_zero : (0 : Usage).completionTokens = 0 := rfl

@[simp] theorem totalTokens_zero : (0 : Usage).totalTokens = 0 := rfl

@[simp] theorem promptTokens_add (a b : Usage) :
    (a + b).promptTokens = a.promptTokens + b.promptTokens := rfl

@[simp] theorem completionTokens_add (a b : Usage) :
    (a + b).completionTokens = a.completionTokens + b.completionTokens := rfl

@[simp] theorem totalTokens_add (a b : Usage) :
    (a + b).totalTokens = a.totalTokens + b.totalTokens := rfl

instance : AddCommMonoid Usage where
  add_assoc a b c := by ext <;> simp [Nat.add_assoc]
  zero_add a := by ext <;> simp
  add_zero a := by ext <;> simp
  add_comm a b := by ext <;> simp [Nat.add_comm]
  nsmul := nsmulRec

theorem add_eq_left_iff {a b : Usage} : a = a + b ↔ b = 0 := by
  simp [Usage.ext_iff]

theorem add_eq_zero_iff {a b : Usage} : a + b = 0 ↔ a = 0 ∧ b = 0 := by
  simp only [Usage.ext_iff, promptTokens_add, completionTokens_add, totalTokens_add,
    promptTokens_zero, completionTokens_zero, totalTokens_zero]
  omega

theorem sum_eq_zero_iff {list : List Usage} : list.sum = 0 ↔ ∀ usage ∈ list, usage = 0 := by
  induction list with
  | nil => simp
  | cons first rest ih => rw [List.sum_cons, add_eq_zero_iff, ih, List.forall_mem_cons]

end Usage

/-! ## What the loop deals with -/

/-- One turn of the model. -/
structure Completion where
  content : String := ""
  toolCalls : List ToolCallRequest := []
  usage : Option Usage := none

/-- The status a terminal tool ends a run with. -/
inductive FinishStatus where
  | done | error | escalated

/-- What a person is asked to approve: a tool and its arguments. -/
abbrev Ask := String × Fields

/-- A question as its handler writes it. -/
structure QuestionDraft where
  question : String
  audience : Audience
  targetAgentId : Option AgentId := none
  peerRunId : Option AgentRunId := none
  context : Option String := none

inductive Park where
  | approval (ask : Ask)
  | question (draft : QuestionDraft)
  | consult (draft : QuestionDraft) (others : List QuestionDraft)

def Park.waitKind : Park → RunWaitKind
  | .approval _ => .approval
  | .question _ => .question
  | .consult _ _ => .consult

inductive HandlerOutcome where
  | output (output : Json)
  | finished (status : FinishStatus) (payload : Fields)
  | parked (park : Park)

inductive PlanAction where
  | preset (output : Json)
  | run (spec : ToolSpec)

structure Plan where
  call : ToolCallRequest
  terminal : Bool
  action : PlanAction

/-- What an approval strategy makes of a call that needs a person. -/
inductive StrategyAnswer where
  | approved | denied | park

/-- What the loop did: what the model returned, what it emitted, which handlers it invoked. -/
inductive LoopEvent where
  | completion (usage : Option Usage) (calls : List ToolCallRequest)
  | summary (usage : Option Usage)
  | handler (spec : ToolSpec) (call : ToolCallRequest) (verdict : Decision)
  | handlerAsk (ask : Ask)
  | toolCall (call : ToolCallRequest)
  | approvalRequired (call : ToolCallRequest)
  | toolResult (call : ToolCallRequest) (output : Json)
  | steer (text : String)
  | compaction (summary : String)
  | done (truncated : Bool)

/-- The outside of the loop: the run's row, the person steering, the model and the handlers. -/
structure Host (σ : Type) where
  continueCheck : σ → Bool × σ
  steer : σ → List String × σ
  transcriptBudget : Nat
  transcriptChars : List Json → Nat
  complete : List Json → σ → Option Completion × σ
  foldOldTurns : String → List Json → List Json
  stream : List Json → σ → Except String Completion × σ
  keyRefusal : ToolSpec → σ → Option (Bool × String)
  handler : ToolSpec → ToolCallRequest → σ → Except String HandlerOutcome × σ
  toolMessage : ToolCallRequest → Json → Json

/-- What stays the same during one drive. -/
structure Drive (σ : Type) where
  host : Host σ
  agent : Agent
  specs : List ToolSpec
  autonomy : Posture
  strategy : ToolSpec → Fields → StrategyAnswer
  maxIterations : Nat

structure LoopState (σ : Type) where
  world : σ
  messages : List Json
  usage : Usage := 0
  toolCalls : Nat := 0
  log : List LoopEvent := []

/-- How a drive ends. -/
inductive LoopOutcome where
  | returned (content : String)
  | truncated
  | cancelled
  | finished (status : FinishStatus) (payload : Fields)
  | parked (park : Park) (pending : List ToolCallRequest)
  | failed (error : String)

namespace LoopState

variable {σ : Type}

def emit (events : List LoopEvent) (state : LoopState σ) : LoopState σ :=
  { state with log := state.log ++ events }

def say (message : Json) (state : LoopState σ) : LoopState σ :=
  { state with messages := state.messages ++ [message] }

section

variable (events : List LoopEvent) (state : LoopState σ)

@[simp] theorem usage_emit : (state.emit events).usage = state.usage := rfl

@[simp] theorem log_emit : (state.emit events).log = state.log ++ events := rfl

end

@[simp] theorem usage_say (message : Json) (state : LoopState σ) :
    (state.say message).usage = state.usage := rfl

@[simp] theorem log_say (message : Json) (state : LoopState σ) :
    (state.say message).log = state.log := rfl

end LoopState

/-- Whether a tool result is owed: the last message is an assistant's with tool calls. -/
def awaitsToolResults (messages : List Json) : Bool :=
  match messages.getLast? with
  | some (.obj last) =>
    (match Fields.get last "role" with | .str role => role == "assistant" | _ => false) &&
      (Fields.get last "tool_calls").truthy
  | _ => false

def ToolCallRequest.toJson (call : ToolCallRequest) : Json :=
  .obj [("id", .str call.id), ("type", .str "function"),
    ("function", .obj [("name", .str call.name), ("arguments", .obj call.arguments)])]

def assistantMessage (completion : Completion) : Json :=
  .obj ([("role", .str "assistant"), ("content", .str completion.content)] ++
    if completion.toolCalls.isEmpty then []
    else [("tool_calls", .arr (completion.toolCalls.map ToolCallRequest.toJson))])

def userMessage (text : String) : Json := .obj [("role", .str "user"), ("content", .str text)]

def errorOutput (text : String) : Json := .obj [("error", .str text)]

namespace Drive

variable {σ : Type} (drive : Drive σ)

def specByName (name : String) : Option ToolSpec :=
  drive.specs.findRev? fun spec => spec.name = name

section

variable (state : LoopState σ)

/-- What a person queued for the run, as user turns; never where a tool result is owed. -/
def interject : LoopState σ :=
  if awaitsToolResults state.messages then state
  else
    let (texts, world) := drive.host.steer state.world
    texts.foldl (fun state text => (state.say (userMessage text)).emit [.steer text])
      { state with world }

/-- Fold the middle of an over-budget transcript into one summary. -/
def compactIfNeeded : LoopState σ :=
  if drive.host.transcriptChars state.messages ≤ drive.host.transcriptBudget then state
  else
    match drive.host.complete state.messages state.world with
    | (none, world) => { state with world }
    | (some completion, world) =>
      let state := { state with world }.emit [.summary completion.usage]
      let summary := completion.content.trimAscii.toString
      let folded := drive.host.foldOldTurns summary state.messages
      if summary.isEmpty || state.messages.length ≤ folded.length then state
      else { state with messages := folded }.emit [.compaction summary]

/-- Ask the model for a turn: its calls, or how the drive ends. -/
def requestTurn : Except LoopOutcome (List ToolCallRequest) × LoopState σ :=
  let state := drive.compactIfNeeded (drive.interject state)
  match drive.host.stream state.messages state.world with
  | (.error error, world) => (.error (.failed error), { state with world })
  | (.ok completion, world) =>
    let state := ({ state with world, usage := state.usage + completion.usage.getD 0 }.emit
      [.completion completion.usage completion.toolCalls]).say (assistantMessage completion)
    if completion.toolCalls.isEmpty then
      (.error (.returned completion.content), state.emit [.done false])
    else (.ok completion.toolCalls, state)

end

def gateTool (answers : Fields) (call : ToolCallRequest) :
    Except Ask Plan × List LoopEvent :=
  match answers.lookup call.id, drive.specByName call.name with
  | some answer, spec =>
    (.ok ⟨call, spec.any ToolSpec.terminal, .preset answer⟩, [.toolCall call])
  | none, none =>
    (.ok ⟨call, false, .preset (errorOutput s!"Unknown tool: {call.name}")⟩, [.toolCall call])
  | none, some spec =>
    let verdict := decideCall drive.agent spec drive.autonomy
    match verdict.decision with
    | .deny =>
      (.ok ⟨call, spec.terminal, .preset (errorOutput s!"Not permitted: {verdict.reason}")⟩,
        [.toolCall call])
    | .allow => (.ok ⟨call, spec.terminal, .run spec⟩, [.toolCall call])
    | .ask =>
      match drive.strategy spec call.arguments with
      | .approved =>
        (.ok ⟨call, spec.terminal, .run spec⟩, [.toolCall call, .approvalRequired call])
      | .denied =>
        (.ok ⟨call, spec.terminal, .preset (errorOutput "Denied by human reviewer")⟩,
          [.toolCall call, .approvalRequired call])
      | .park => (.error (spec.name, call.arguments), [.toolCall call, .approvalRequired call])

/-- Gate every call before any runs; the first that needs a person ends the gating. -/
def gateTools (answers : Fields) :
    List ToolCallRequest → Except Ask (List Plan) × List LoopEvent
  | [] => (.ok [], [])
  | call :: rest =>
    match drive.gateTool answers call with
    | (.error ask, events) => (.error ask, events)
    | (.ok plan, events) =>
      match gateTools answers rest with
      | (.error ask, later) => (.error ask, events ++ later)
      | (.ok plans, later) => (.ok (plan :: plans), events ++ later)

def invocation (spec : ToolSpec) (call : ToolCallRequest) (outcome : HandlerOutcome) :
    List LoopEvent :=
  let invoked := LoopEvent.handler spec call (decideCall drive.agent spec drive.autonomy).decision
  match outcome with
  | .parked (.approval ask) => [invoked, .handlerAsk ask]
  | _ => [invoked]

/-- Run one tool: a key that is gone ends the run, a key that may not call it refuses, and an
exception of the handler is its output. -/
def runTool (spec : ToolSpec) (call : ToolCallRequest) (state : LoopState σ) :
    HandlerOutcome × LoopState σ :=
  match drive.host.keyRefusal spec state.world with
  | some (true, reason) => (.finished .error [("reason", .str reason)], state)
  | some (false, reason) => (.output (errorOutput reason), state)
  | none =>
    let (result, world) := drive.host.handler spec call state.world
    let outcome := match result with
      | .ok outcome => outcome
      | .error error => .output (errorOutput s!"Tool '{call.name}' failed: {error}")
    (outcome, { state with world }.emit (drive.invocation spec call outcome))

/-- Terminal tools run last. -/
def sortPlans (plans : List Plan) : List Plan :=
  (plans.filter fun plan => !plan.terminal) ++ plans.filter Plan.terminal

def takeAction (plan : Plan) (state : LoopState σ) : HandlerOutcome × LoopState σ :=
  match plan.action with
  | .preset output => (.output output, state)
  | .run spec => drive.runTool spec plan.call state

/-- Run the plans in order; how the drive ends, where one of them ends it. -/
def executePlans : List Plan → LoopState σ → Except LoopOutcome Unit × LoopState σ
  | [], state => (.ok (), state)
  | plan :: rest, state =>
    match drive.takeAction plan { state with toolCalls := state.toolCalls + 1 } with
    | (.parked park, state) => (.error (.parked park ((plan :: rest).map Plan.call)), state)
    | (.finished status payload, state) => (.error (.finished status payload), state)
    | (.output output, state) =>
      executePlans rest ((state.emit [.toolResult plan.call output]).say
        (drive.host.toolMessage plan.call output))

/-- Gate a batch, look once more whether the run goes on, and run it. -/
def runBatch (answers : Fields) (calls : List ToolCallRequest) (state : LoopState σ) :
    Except LoopOutcome Unit × LoopState σ :=
  match drive.gateTools answers calls with
  | (.error ask, events) => (.error (.parked (.approval ask) calls), state.emit events)
  | (.ok plans, events) =>
    let state := state.emit events
    match drive.host.continueCheck state.world with
    | (false, world) => (.error .cancelled, { state with world })
    | (true, world) => drive.executePlans (sortPlans plans) { state with world }

def nextCalls (pending : Option (List ToolCallRequest)) (state : LoopState σ) :
    Except LoopOutcome (List ToolCallRequest) × LoopState σ :=
  match pending with
  | some calls => (.ok calls, state)
  | none => drive.requestTurn state

/-- The loop. The answers of a parked turn are for its first batch only. -/
def loop : Nat → Option (List ToolCallRequest) → Fields → LoopState σ →
    LoopOutcome × LoopState σ
  | 0, _, _, state => (.truncated, state.emit [.done true])
  | iterations + 1, pending, answers, state =>
    match drive.host.continueCheck state.world with
    | (false, world) => (.cancelled, { state with world })
    | (true, world) =>
      match drive.nextCalls pending { state with world } with
      | (.error outcome, state) => (outcome, state)
      | (.ok calls, state) =>
        match drive.runBatch answers calls state with
        | (.error outcome, state) => (outcome, state)
        | (.ok (), state) => loop iterations none [] state

def runAgentLoop (messages : List Json) (pending : Option (List ToolCallRequest))
    (answers : Fields) (world : σ) : LoopOutcome × LoopState σ :=
  drive.loop drive.maxIterations pending answers { world, messages }

end Drive

end RedArchKM.Agents
