import RedArchKM.Agents.Executor
import RedArchKM.Lib.History
import Mathlib.Tactic.Abel

/-!
# Every token a run spends

A drive counts the completions of its turns from zero, and every end of a drive banks its count.
Two kinds of completions get lost: the summaries that shrink a long transcript, which no counter
sees, and the turns before a corrective drive that raises instead of coming back
(`spent_driven`). A run's row holds what the provider returned exactly when none of these cost
anything (`accounted_iff`).
-/

namespace RedArchKM.Agents

open List

open Workflow (Json Fields AgentRunStatus)
open Lib (Moment History)

/-! ## What a log says was spent -/

def LoopEvent.turnUsage : LoopEvent → Usage
  | .completion usage _ => usage.getD 0
  | _ => 0

def LoopEvent.summaryUsage : LoopEvent → Usage
  | .summary usage => usage.getD 0
  | _ => 0

section

variable (log : List LoopEvent)

def turnsOf : Usage := (log.map LoopEvent.turnUsage).sum

def summariesOf : Usage := (log.map LoopEvent.summaryUsage).sum

/-- All completions the provider returned. -/
def spentOn : Usage := turnsOf log + summariesOf log

end

@[simp] theorem turnsOf_append (log log' : List LoopEvent) :
    turnsOf (log ++ log') = turnsOf log + turnsOf log' := by
  simp [turnsOf]

@[simp] theorem summariesOf_append (log log' : List LoopEvent) :
    summariesOf (log ++ log') = summariesOf log + summariesOf log' := by
  simp [summariesOf]

theorem turnsOf_eq_zero_iff {log : List LoopEvent} :
    turnsOf log = 0 ↔ ∀ event ∈ log, event.turnUsage = 0 := by
  rw [turnsOf, Usage.sum_eq_zero_iff, forall_mem_map]

theorem summariesOf_eq_zero_iff {log : List LoopEvent} :
    summariesOf log = 0 ↔ ∀ event ∈ log, event.summaryUsage = 0 := by
  rw [summariesOf, Usage.sum_eq_zero_iff, forall_mem_map]

/-! ## A drive counts its turns -/

/-- The count of a drive is what its turns cost so far. -/
def Balanced {σ : Type} (state : LoopState σ) : Prop := state.usage = turnsOf state.log

section Drive

variable {σ : Type} {drive : Drive σ} {state : LoopState σ}

section

variable (balanced : Balanced state)

include balanced

theorem Balanced.emit {events : List LoopEvent} (free : turnsOf events = 0) :
    Balanced (state.emit events) := by
  unfold Balanced
  rwa [LoopState.usage_emit, LoopState.log_emit, turnsOf_append, free, add_zero]

theorem Balanced.interject : Balanced (drive.interject state) := by
  unfold Drive.interject
  split
  · exact balanced
  · dsimp only
    generalize (drive.host.steer state.world).1 = texts
    have start : Balanced { state with world := (drive.host.steer state.world).2 } := balanced
    revert start
    generalize { state with world := (drive.host.steer state.world).2 } = current
    intro start
    induction texts generalizing current with
    | nil => exact start
    | cons text texts ih =>
      have said : Balanced (current.say (userMessage text)) := start
      exact ih _ (said.emit rfl)

theorem Balanced.compactIfNeeded : Balanced (drive.compactIfNeeded state) := by
  unfold Drive.compactIfNeeded
  split
  · exact balanced
  · split
    · exact balanced
    · rename_i completion world _
      have moved : Balanced { state with world } := balanced
      have summed : Balanced (LoopState.emit [.summary completion.usage] { state with world }) :=
        moved.emit (by simp [turnsOf, LoopEvent.turnUsage])
      dsimp only
      split
      · exact summed
      · have free : turnsOf [.compaction completion.content.trimAscii.toString] = 0 := rfl
        exact Balanced.emit summed free

theorem Balanced.requestTurn : Balanced (drive.requestTurn state).2 := by
  unfold Drive.requestTurn
  dsimp only
  have ready : Balanced (drive.compactIfNeeded (drive.interject state)) :=
    balanced.interject.compactIfNeeded
  generalize drive.compactIfNeeded (drive.interject state) = current at ready
  split
  · exact ready
  · rename_i completion world _
    have counted : Balanced ((LoopState.emit [.completion completion.usage completion.toolCalls]
        { current with world, usage := current.usage + completion.usage.getD 0 }).say
          (assistantMessage completion)) := by
      simp only [Balanced, LoopState.usage_say, LoopState.usage_emit, LoopState.log_say,
        LoopState.log_emit, turnsOf_append]
      rw [show current.usage = turnsOf current.log from ready]
      simp [turnsOf, LoopEvent.turnUsage]
    split
    · exact counted.emit rfl
    · exact counted

end

theorem turnsOf_gateTool (drive : Drive σ) (answers : Fields) (call : ToolCallRequest) :
    turnsOf (drive.gateTool answers call).2 = 0 := by
  unfold Drive.gateTool
  split
  · rfl
  · rfl
  · dsimp only
    split
    · rfl
    · rfl
    · split <;> rfl

theorem turnsOf_gateTools (drive : Drive σ) (answers : Fields) (calls : List ToolCallRequest) :
    turnsOf (drive.gateTools answers calls).2 = 0 := by
  induction calls with
  | nil => rfl
  | cons call rest ih =>
    have first := turnsOf_gateTool drive answers call
    unfold Drive.gateTools
    split
    · rename_i gated
      rwa [gated] at first
    · rename_i gated
      rw [gated] at first
      split
      · rename_i later
        rw [later] at ih
        simp [first, ih]
      · rename_i later
        rw [later] at ih
        simp [first, ih]

theorem turnsOf_invocation (drive : Drive σ) (spec : ToolSpec) (call : ToolCallRequest)
    (outcome : HandlerOutcome) : turnsOf (drive.invocation spec call outcome) = 0 := by
  unfold Drive.invocation
  split <;> rfl

section

variable (balanced : Balanced state)

include balanced

theorem Balanced.runTool {spec : ToolSpec} {call : ToolCallRequest} :
    Balanced (drive.runTool spec call state).2 := by
  unfold Drive.runTool
  split
  · exact balanced
  · exact balanced
  · have moved : Balanced { state with world := (drive.host.handler spec call state.world).2 } :=
      balanced
    exact moved.emit (turnsOf_invocation drive spec call _)

theorem Balanced.takeAction {plan : Plan} : Balanced (drive.takeAction plan state).2 := by
  unfold Drive.takeAction
  split
  · exact balanced
  · exact balanced.runTool

theorem Balanced.executePlans {plans : List Plan} :
    Balanced (drive.executePlans plans state).2 := by
  induction plans generalizing state with
  | nil => exact balanced
  | cons plan rest ih =>
    have counted : Balanced { state with toolCalls := state.toolCalls + 1 } := balanced
    have taken : Balanced (drive.takeAction plan { state with toolCalls := state.toolCalls + 1 }).2 :=
      counted.takeAction
    unfold Drive.executePlans
    split
    · rename_i acted
      rwa [acted] at taken
    · rename_i acted
      rwa [acted] at taken
    · rename_i output current acted
      rw [acted] at taken
      have told : Balanced (current.emit [.toolResult plan.call output]) := taken.emit rfl
      exact ih told

theorem Balanced.runBatch {answers : Fields} {calls : List ToolCallRequest} :
    Balanced (drive.runBatch answers calls state).2 := by
  have free := turnsOf_gateTools drive answers calls
  unfold Drive.runBatch
  split
  · rename_i gated
    rw [gated] at free
    exact balanced.emit free
  · rename_i plans events gated
    rw [gated] at free
    have emitted := balanced.emit free
    dsimp only
    split
    · exact emitted
    · rename_i world _
      have moved : Balanced { state.emit events with world } := emitted
      exact moved.executePlans

/-- **A drive counts what its turns cost**, however it ends. -/
theorem Balanced.loop {iterations : Nat} {pending : Option (List ToolCallRequest)}
    {answers : Fields} : Balanced (drive.loop iterations pending answers state).2 := by
  induction iterations generalizing pending answers state with
  | zero => exact balanced.emit rfl
  | succ iterations ih =>
    unfold Drive.loop
    split
    · exact balanced
    · rename_i world _
      have moved : Balanced { state with world } := balanced
      have requested : Balanced (drive.nextCalls pending { state with world }).2 := by
        unfold Drive.nextCalls
        split
        · exact moved
        · exact moved.requestTurn
      split
      · rename_i next
        rwa [next] at requested
      · rename_i calls current next
        rw [next] at requested
        have ran : Balanced (drive.runBatch answers calls current).2 := requested.runBatch
        split
        · rename_i batch
          rwa [batch] at ran
        · rename_i batch
          rw [batch] at ran
          exact ih ran

end

end Drive

/-! ## What a segment banks -/

section Segment

variable {σ : Type} (segment : Segment σ) (run : AgentRun) (world : σ)

/-- The drives of a segment that no row remembers: what a corrective drive that raises leaves
behind. -/
def Segment.forgotten : Usage :=
  let first := segment.firstDrive run world
  match segment.nudge run first with
  | none => 0
  | some text =>
    if (segment.secondDrive run first text).outcome.isReturn then 0 else turnsOf first.log

theorem usage_firstDrive :
    (segment.firstDrive run world).usage = turnsOf (segment.firstDrive run world).log := by
  have fresh : ∀ messages, Balanced ({ world, messages } : LoopState σ) := fun _ => rfl
  exact (fresh _).loop

theorem usage_secondDrive (first : Driven σ) (text : String) :
    (segment.secondDrive run first text).usage =
      turnsOf (segment.secondDrive run first text).log := by
  have fresh : ∀ messages, Balanced ({ world := first.world, messages } : LoopState σ) :=
    fun _ => rfl
  exact (fresh _).loop

/-- **What a segment banks, what it forgets and its summaries are all that was spent.** -/
theorem spent_driven :
    spentOn (segment.drive run world).log =
      (segment.drive run world).usage +
        (segment.forgotten run world + summariesOf (segment.drive run world).log) := by
  unfold Segment.drive Segment.forgotten spentOn
  dsimp only
  cases nudged : segment.nudge run (segment.firstDrive run world) with
  | none => simp [usage_firstDrive]
  | some text =>
    simp only [turnsOf_append, usage_secondDrive]
    split
    · rw [usage_firstDrive]
      abel
    · abel

end Segment

/-! ## What the row holds -/

def AgentRun.tokens (run : AgentRun) : Usage where
  promptTokens := run.promptTokens
  completionTokens := run.completionTokens
  totalTokens := run.totalTokens

theorem tokens_finalize {run : AgentRun} (live : run.status.isTerminal = false)
    (status : AgentRunStatus) (error : Option String) (usage : Usage) :
    (run.finalize status error usage).tokens = run.tokens + usage := by
  unfold AgentRun.finalize
  rw [live]
  rfl

theorem tokens_finalize_zero (run : AgentRun) (status : AgentRunStatus) (error : Option String) :
    (run.finalize status error 0).tokens = run.tokens := by
  unfold AgentRun.finalize
  split <;> rfl

/-- The loop's own ends: not those that a canceller or an exception makes. -/
def LoopOutcome.isOwn : LoopOutcome → Bool
  | .cancelled | .failed _ => false
  | _ => true

theorem tokens_settle {σ : Type} (segment : Segment σ) {driven : Driven σ} {run : AgentRun}
    (live : run.status.isTerminal = false) (own : driven.outcome.isOwn) :
    (segment.settle driven run).tokens = run.tokens + driven.usage := by
  have live' : (run.withResume none).status.isTerminal = false := live
  unfold Segment.settle
  split
  · rename_i outcome
    rw [outcome] at own
    cases own
  · rename_i outcome
    rw [outcome] at own
    cases own
  · exact tokens_finalize live' _ _ _
  · exact tokens_finalize live' _ _ _
  · exact tokens_finalize live' _ _ _
  · rfl
  · split
    · exact tokens_finalize live' _ _ _
    · exact tokens_finalize live' _ _ _

section Life

variable {σ : Type} {life next : Life σ}

/-- The row's counts and the log stay. -/
def SameSpending (life next : Life σ) : Prop :=
  next.run.tokens = life.run.tokens ∧ next.log = life.log

theorem run_leave {segment : Segment σ} {driven : Driven σ} (own : driven.outcome.isOwn) :
    (life.leave segment driven).run = segment.settle driven life.run := by
  unfold Life.leave
  split
  · rename_i cancelled
    rw [cancelled] at own
    cases own
  · exact Life.run_settleQuestions _

/-- **Nothing but a drive changes what a run has spent.** -/
theorem sameSpending_becomes (becomes : life.Becomes next) : SameSpending life next := by
  cases becomes with
  | denied => exact ⟨by simp [tokens_finalize_zero], by simp [Life.modifyApproval]⟩
  | lost => exact ⟨by simp [tokens_finalize_zero], by simp⟩
  | cancelled =>
    unfold Life.cancel
    split
    · exact ⟨rfl, rfl⟩
    · exact ⟨by simp [AgentRun.tokens], by simp⟩
  | _ => exact ⟨rfl, rfl⟩

end Life

/-! ## Runs -/

section Runs

variable {σ : Type}

def Happens (life : Life σ) (event : LifeEvent σ) (next : Life σ) : Prop :=
  life.happen event = some next

/-- The history of a run from the moment its row was created. -/
structure FromCreation (history : History (LifeEvent σ) (Life σ)) : Prop where
  start : ∃ life : Life σ, life.run.tokens = 0 ∧ life.log = [] ∧
    History.Steps Happens { now := life } history

def Drives (segment : Segment σ) (moment : Moment (LifeEvent σ) (Life σ)) : Prop :=
  moment.event = .execute segment ∧ moment.before.run.status = .running ∧ segment.refusal = none

section

variable (history : History (LifeEvent σ) (Life σ))

/-- All drives of the run ended by themselves: they came back, parked, or met a terminal tool. -/
def EndsByItself : Prop :=
  ∀ moment ∈ history.past, ∀ segment, Drives segment moment →
    (segment.drive moment.before.run moment.before.world).outcome.isOwn

/-- **Every token spent is recorded.** -/
def Accounted : Prop :=
  history.now.run.tokens = spentOn history.now.log

end

/-- No drive of the moment spends what no counter banks: its summaries are free, and so are the
turns before a corrective drive that raises. -/
def Banks (moment : Moment (LifeEvent σ) (Life σ)) : Prop :=
  ∀ segment, Drives segment moment →
    let first := segment.firstDrive moment.before.run moment.before.world
    (∀ event ∈ (segment.drive moment.before.run moment.before.world).log, event.summaryUsage = 0) ∧
      ∀ text, segment.nudge moment.before.run first = some text →
        (segment.secondDrive moment.before.run first text).outcome.isReturn = false →
        ∀ event ∈ first.log, event.turnUsage = 0

/-- What the moment spends and no counter banks. -/
def lostAt (moment : Moment (LifeEvent σ) (Life σ)) : Usage :=
  match moment.event with
  | .execute segment =>
    if moment.before.run.status = .running ∧ segment.refusal = none then
      segment.forgotten moment.before.run moment.before.world +
        summariesOf (segment.drive moment.before.run moment.before.world).log
    else 0
  | _ => 0

theorem forgotten_eq_zero_iff (segment : Segment σ) (run : AgentRun) (world : σ) :
    segment.forgotten run world = 0 ↔
      ∀ text, segment.nudge run (segment.firstDrive run world) = some text →
        (segment.secondDrive run (segment.firstDrive run world) text).outcome.isReturn = false →
        ∀ event ∈ (segment.firstDrive run world).log, event.turnUsage = 0 := by
  unfold Segment.forgotten
  dsimp only
  cases segment.nudge run (segment.firstDrive run world) with
  | none => simp
  | some text =>
    dsimp only
    cases came : (segment.secondDrive run (segment.firstDrive run world) text).outcome.isReturn with
    | true =>
      refine ⟨fun _ text' same raised => ?_, fun _ => rfl⟩
      cases same
      rw [came] at raised
      cases raised
    | false =>
      simp only [Bool.false_eq_true, if_false, turnsOf_eq_zero_iff]
      constructor
      · exact fun free text' _ _ => free
      · exact fun free => free text rfl came

theorem lostAt_eq_zero_iff (moment : Moment (LifeEvent σ) (Life σ)) :
    lostAt moment = 0 ↔ Banks moment := by
  obtain ⟨event, before⟩ := moment
  unfold lostAt Banks Drives
  cases event with
  | execute segment =>
    dsimp only
    split
    · rename_i driven
      rw [Usage.add_eq_zero_iff, forgotten_eq_zero_iff, summariesOf_eq_zero_iff]
      constructor
      · rintro ⟨forgets, summarizes⟩ segment' ⟨same, -, -⟩
        cases same
        exact ⟨summarizes, forgets⟩
      · intro banks
        exact (banks segment ⟨rfl, driven.1, driven.2⟩).symm
    · rename_i idle
      refine ⟨fun _ segment' drives => ?_, fun _ => rfl⟩
      cases drives.1
      exact absurd drives.2 idle
  | _ => simp

/-- **What one moment adds to the row, and what it loses.** -/
theorem spentOn_happens {moment : Moment (LifeEvent σ) (Life σ)} {next : Life σ}
    (happens : Happens moment.before moment.event next)
    (own : ∀ segment, Drives segment moment →
      (segment.drive moment.before.run moment.before.world).outcome.isOwn) {lost : Usage}
    (so : spentOn moment.before.log = moment.before.run.tokens + lost) :
    spentOn next.log = next.run.tokens + (lost + lostAt moment) := by
  obtain ⟨event, before⟩ := moment
  rcases Life.happen_cases happens with ⟨segment, rfl, rfl⟩ | ⟨other, becomes⟩
  · unfold Life.execute lostAt
    dsimp only
    by_cases running : before.run.status = .running
    · cases refused : segment.refusal with
      | some reason => simp [running, so, tokens_finalize_zero]
      | none =>
        have live : before.run.status.isTerminal = false := by rw [running]; rfl
        have ended := own segment ⟨rfl, running, refused⟩
        have parts := spent_driven segment before.run before.world
        have appended : spentOn (before.log ++ (segment.drive before.run before.world).log) =
            spentOn before.log + spentOn (segment.drive before.run before.world).log := by
          simp only [spentOn, turnsOf_append, summariesOf_append]
          abel
        simp only [running, ne_eq, not_true_eq_false, if_false, and_self, if_true,
          run_leave ended, tokens_settle segment live ended, appended, so, parts]
        abel
    · simp [running, so]
  · obtain ⟨sameTokens, sameLog⟩ := sameSpending_becomes becomes
    have nothing : lostAt ⟨event, before⟩ = 0 := by
      unfold lostAt
      dsimp only
      split
      · exact absurd rfl (other _)
      · rfl
    rw [sameLog, sameTokens, so, nothing, add_zero]

theorem spentOn_steps {first last : History (LifeEvent σ) (Life σ)}
    (steps : History.Steps Happens first last) (start : first.past = [])
    (fresh : first.now.run.tokens = 0) (empty : first.now.log = []) (own : EndsByItself last) :
    spentOn last.now.log = last.now.run.tokens + (last.past.map lostAt).sum := by
  induction steps with
  | refl => simp [start, fresh, empty, spentOn, turnsOf, summariesOf]
  | tail steps step ih =>
    have before := ih fun moment member => own moment (mem_append_left _ member)
    rw [History.now_step, History.past_step, map_append, sum_append, map_singleton, sum_singleton]
    exact spentOn_happens step (own _ (by simp)) before

/-- **A run that ends by itself has recorded every token exactly when each of its drives banks
what it spends.** -/
theorem accounted_iff (history : History (LifeEvent σ) (Life σ))
    (fromCreation : FromCreation history) (own : EndsByItself history) :
    Accounted history ↔ ∀ moment ∈ history.past, Banks moment := by
  obtain ⟨life, fresh, empty, steps⟩ := fromCreation.start
  rw [Accounted, spentOn_steps steps rfl fresh empty own, Usage.add_eq_left_iff,
    Usage.sum_eq_zero_iff, forall_mem_map]
  exact forall₂_congr fun moment _ => lostAt_eq_zero_iff moment

end Runs

/-! ## A workflow step -/

/-- A model that stops at first, and completes its step when it is told to. The world counts its
turns. -/
def completingHost : Host Nat where
  continueCheck turn := (true, turn)
  steer turn := ([], turn)
  transcriptBudget := 0
  transcriptChars _ := 0
  complete _ turn := (none, turn)
  foldOldTurns _ messages := messages
  stream _ turn :=
    match turn with
    | 0 => (.ok { content := "Finished.", usage := some ⟨5, 3, 8⟩ }, 1)
    | turn =>
      (.ok { toolCalls := [⟨"c", "complete_task", []⟩], usage := some ⟨7, 2, 9⟩ }, turn + 1)
  keyRefusal _ _ := none
  handler _ _ turn := (.ok (.finished .done []), turn)
  toolMessage _ _ := .null

def completingSegment : Segment Nat where
  host := completingHost
  agent := { id := 0, name := "clerk" }
  specs := [{ name := "complete_task", category := .plan, terminal := true }]
  autonomy := .highTouch
  maxIterations := 4
  opening := []
  refusal := none
  unfinishedWorkNudge _ := none

def stepLife (turn : Nat) : Life Nat where
  id := 0
  run := { agentId := 0, trigger := .workflow, status := .queued, input := { workflowStep := true } }
  world := turn

theorem fromCreation_step {turn : Nat} {events : List (LifeEvent Nat)}
    {history : History (LifeEvent Nat) (Life Nat)}
    (played : History.play Life.happen { now := stepLife turn } events = some history) :
    FromCreation history :=
  ⟨stepLife turn, rfl, rfl, History.steps_of_play played⟩

/-- **A step that completes at once** has every token recorded. -/
theorem accounted_step :
    ∃ history, History.play Life.happen { now := stepLife 1 } [.claim, .execute completingSegment] =
      some history ∧ history.now.run.status = .done ∧ Accounted history := by
  refine History.exists_play rfl fun history played => ?_
  have isLast := Option.some.inj played
  have own : EndsByItself history := by
    subst isLast
    intro moment member segment drives
    rcases mem_cons.mp member with rfl | member
    · cases drives.1
    · obtain rfl := mem_singleton.mp member
      cases drives.1
      rfl
  refine ⟨by subst isLast; rfl,
    (accounted_iff history (fromCreation_step played) own).mpr ?_⟩
  subst isLast
  intro moment member segment drives
  rcases mem_cons.mp member with rfl | member
  · cases drives.1
  · obtain rfl := mem_singleton.mp member
    cases drives.1
    refine ⟨summariesOf_eq_zero_iff.mp (by decide), fun text nudged => ?_⟩
    cases nudged

/-- **A step completed in the corrective turn** has lost what the first turn cost. -/
theorem not_accounted_step :
    ∃ history, History.play Life.happen { now := stepLife 0 } [.claim, .execute completingSegment] =
      some history ∧ FromCreation history ∧ EndsByItself history ∧ ¬ Accounted history := by
  refine History.exists_play rfl fun history played => ?_
  have isLast := Option.some.inj played
  refine ⟨fromCreation_step played, ?_, ?_⟩
  · subst isLast
    intro moment member segment drives
    rcases mem_cons.mp member with rfl | member
    · cases drives.1
    · obtain rfl := mem_singleton.mp member
      cases drives.1
      rfl
  · subst isLast
    unfold Accounted
    decide

end RedArchKM.Agents
