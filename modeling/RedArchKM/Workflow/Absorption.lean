import RedArchKM.Workflow.Execution

/-!
# Runs that have ended

An ended run should rest: no handler is executed for it, its status stays, and the tokens killed
in it stay dead, until it is retried. Nothing that happens to other runs disturbs it, and neither
does a wake-up, a claim or a rollback of its own (`EngineStep.absorbed`). What does is the
engine working on one of its tokens: a pass sets every token of its list running, and an advance
goes by the token alone, although the run may have ended since. Runs rest in every history
without such a moment (`absorbing_of_undisturbed`), and a fork with a failing branch has one.
-/

namespace RedArchKM.Workflow

open Lib Lib.History List Option

/-- The handlers executed for the run, in order. -/
def callsOf (db : Db) (runId : RunId) : List HandlerCall :=
  db.calls.filter fun call => call.runId = runId

structure Rests (before after : Run) : Prop where
  status : after.status = before.status
  dead : ∀ (index : Nat) (token : Token), before.tokens[index]? = some token →
    token.status = .dead → ∃ token', after.tokens[index]? = some token' ∧ token'.status = .dead

/-- If the run has ended, it rests and no handler is executed for it. -/
def Absorbed (runId : RunId) (before after : Db) : Prop :=
  ∀ run, before.runs[runId]? = some run → run.status.isTerminal →
    (∃ run', after.runs[runId]? = some run' ∧ Rests run run') ∧
      callsOf after runId = callsOf before runId

/-- **Ended runs are absorbing**: between any two states of the history without a retry of the
run in between. -/
def Absorbing (world : World) : Prop :=
  ∀ (runId : RunId) (i j : Nat) (earlier later : Db), i ≤ j →
    world.states[i]? = some earlier → world.states[j]? = some later →
    (∀ k moment, i ≤ k → k < j → world.past[k]? = some moment →
      moment.event ≠ .retried runId) →
    Absorbed runId earlier later

def Event.worksOn : Event → Option TokenId
  | .taken t | .stranded t | .advanced t _ | .called t _ | .returned t _ => some t
  | .launched _ | .claimed _ | .released _ | .killed _ | .resumed _ | .signaled _ | .agentEnded _
  | .wiredBack _ | .retried _ | .ticked => none

/-- The engine works on a token of a run that has ended. -/
def Disturbs (moment : Moment Event Db) : Prop :=
  (moment.event.worksOn.bind fun t => moment.before.runs[t.run]?).any fun run =>
    run.status.isTerminal

instance (moment : Moment Event Db) : Decidable (Disturbs moment) :=
  inferInstanceAs (Decidable (_ = true))

theorem disturbs_of_worksOn {event : Event} {db : Db} {t : TokenId} {run : Run}
    (works : event.worksOn = some t) (found : db.runs[t.run]? = some run)
    (ended : run.status.isTerminal) : Disturbs ⟨event, db⟩ := by
  rwa [Disturbs, works, bind_some, found]

/-! ## What leaves an ended run at rest -/

namespace Rests

variable {before after : Run}

theorem refl (run : Run) : Rests run run := ⟨rfl, fun _ token found dead => ⟨token, found, dead⟩⟩

theorem trans {third : Run} (left : Rests before after) (right : Rests after third) :
    Rests before third := by
  refine ⟨right.status.trans left.status, fun index token found dead => ?_⟩
  obtain ⟨token', found', dead'⟩ := left.dead index token found dead
  exact right.dead index token' found' dead'

theorem of_stirred (stirred : Stirred before after) : Rests before after := by
  refine ⟨stirred.status, fun index token found dead => ?_⟩
  obtain ⟨token', found', woken⟩ := stirred.tokens.token index token found
  have awake : ¬ token.onChild := fun parked => absurd (dead.symm.trans parked.1) nofun
  exact ⟨token', found', by rwa [woken.eq awake]⟩

theorem modify (run : Run) {index : Nat} {token : Token} (found : run.tokens[index]? = some token)
    (alive : token.status ≠ .dead) (change : Token → Token) :
    Rests run { run with tokens := run.tokens.modify index change } := by
  refine ⟨rfl, fun place other placed dead => ?_⟩
  have elsewhere : index ≠ place := by
    rintro rfl
    cases found.symm.trans placed
    exact alive dead
  exact ⟨other, by rw [getElem?_modify_ne _ _ elsewhere, placed], dead⟩

end Rests

theorem Absorbed.refl (runId : RunId) (db : Db) : Absorbed runId db db :=
  fun run found _ => ⟨⟨run, found, .refl run⟩, rfl⟩

theorem Absorbed.trans {runId : RunId} {first second third : Db}
    (left : Absorbed runId first second) (right : Absorbed runId second third) :
    Absorbed runId first third := by
  intro run found ended
  obtain ⟨⟨run', found', rests⟩, calls⟩ := left run found ended
  obtain ⟨⟨run'', found'', rests'⟩, calls'⟩ := right run' found' (by rwa [rests.status])
  exact ⟨⟨run'', found'', rests.trans rests'⟩, calls'.trans calls⟩

section Step

variable {host : Host} {db db' : Db} {runId : RunId}

theorem callsOf_append {new : List HandlerCall} (appended : db'.calls = db.calls ++ new)
    (others : ∀ call ∈ new, call.runId ≠ runId) : callsOf db' runId = callsOf db runId := by
  have none : new.filter (fun call => call.runId = runId) = [] := by
    rw [filter_eq_nil_iff]
    intro call member
    simpa using others call member
  rw [callsOf, appended, filter_append, none, append_nil, callsOf]

theorem Absorbed.of_touches {own : RunId → Prop} (touches : Touches own db db')
    (other : ¬ own runId) : Absorbed runId db db' := by
  intro run found _
  obtain ⟨run', found', stirred⟩ := touches.stirred other found
  obtain ⟨new, appended, owned⟩ := touches.calls
  refine ⟨⟨run', found', .of_stirred stirred⟩, callsOf_append appended fun call member same => ?_⟩
  exact other (same ▸ owned call member)

theorem Absorbed.modifyRun {change : Run → Run}
    (rests : ∀ run, db.runs[runId]? = some run → run.status.isTerminal → Rests run (change run)) :
    Absorbed runId db (db.modifyRun runId change) :=
  fun run found ended => ⟨⟨change run, by simp [found], rests run found ended⟩, rfl⟩

theorem Absorbed.modifyToken {t : TokenId} (alive : ¬ hasStatus db .dead t)
    (change : Token → Token) : Absorbed t.run db (db.modifyToken t change) := by
  refine .modifyRun fun run found _ => ?_
  cases placed : run.tokens[t.index]? with
  | none =>
    rw [modify_eq_self (getElem?_eq_none_iff.mp placed)]
    exact .refl run
  | some token =>
    refine .modify run placed (fun dead => alive ?_) change
    simp [hasStatus, Db.token?, found, placed, dead]

theorem not_dead_of_hasStatus {status : TokenStatus} {t : TokenId} (has : hasStatus db status t)
    (alive : status ≠ .dead) : ¬ hasStatus db .dead t := by
  intro dead
  obtain ⟨token, found, isStatus⟩ := token?_of_hasStatus has
  obtain ⟨token', found', isDead⟩ := token?_of_hasStatus dead
  cases found.symm.trans found'
  exact alive (isStatus.symm.trans isDead)

theorem not_dead_of_any {t : TokenId} {guard : Token → Bool} (passes : (db.token? t).any guard)
    (live : ∀ token, guard token → token.status ≠ .dead) : ¬ hasStatus db .dead t := by
  intro dead
  obtain ⟨token, found, isDead⟩ := token?_of_hasStatus dead
  rw [found, any_some] at passes
  exact live token passes isDead

theorem token?_setVariables (updates : Fields) (t : TokenId) :
    (db.setVariables runId updates).token? t = db.token? t := by
  rw [Db.token?, Db.setVariables, runs_modifyRun, Db.token?]
  split
  · cases db.runs[t.run]? <;> rfl
  · rfl

theorem Token.isDue.alive {now : Nat} {token : Token} (due : token.isDue now) :
    token.status ≠ .dead := by
  intro dead
  simp [Token.isDue, dead] at due

theorem Token.isSignalable.alive {nodeId : Option NodeId} {correlationKey : Option AgentRunId}
    {token : Token} (signalable : token.isSignalable nodeId correlationKey) :
    token.status ≠ .dead := by
  intro dead
  simp [Token.isSignalable, dead] at signalable

theorem Token.isParkedOn.alive {agentRunId : AgentRunId} {token : Token}
    (parked : token.isParkedOn agentRunId) : token.status ≠ .dead := by
  intro dead
  simp [Token.isParkedOn, dead] at parked

theorem Absorbed.killToken {t : TokenId} {error : String} (running : hasStatus db .running t) :
    Absorbed t.run db (killToken db t error) := by
  have cancels : ∀ db : Db, Absorbed t.run db
      (db.cancelRunsForWorkflowRun t.run s!"workflow run failed: {error}") := fun db =>
    have touches : Touches (fun _ => False) db
        (db.cancelRunsForWorkflowRun t.run s!"workflow run failed: {error}") := touches_cancelRuns
    .of_touches touches id
  refine (Absorbed.modifyToken (not_dead_of_hasStatus running nofun) _).trans
    (.trans (.modifyRun fun run _ ended => ?_) (cancels _))
  split
  · exact .refl run
  · rename_i other
    -- An ended run that is neither succeeded nor skipped has failed already.
    have isFailed : run.status = .failed := by
      cases status : run.status <;> simp_all [RunStatus.isTerminal]
    exact ⟨isFailed.symm, fun _ token found dead => ⟨token, found, dead⟩⟩

/-- **A step that disturbs no ended run** leaves each of them at rest, unless it retries it. -/
theorem EngineStep.absorbed {event : Event} (step : EngineStep host db event db')
    (undisturbed : ¬ Disturbs ⟨event, db⟩) (notRetried : event ≠ .retried runId) :
    Absorbed runId db db' := by
  intro run found ended
  suffices absorbed : Absorbed runId db db' from absorbed run found ended
  have inside : runId < db.runs.length := (List.getElem?_eq_some_iff.mp found).1
  by_cases own : event.run? = some runId
  · have idle : ∀ t, event.worksOn = some t → t.run ≠ runId := by
      intro t works same
      exact undisturbed (disturbs_of_worksOn works (by rw [same]; exact found) ended)
    cases step with
    | launched => exact absurd (some.inj own) (Nat.ne_of_gt inside)
    | taken | unversioned | misplaced | advanced | called | returned =>
      exact absurd (some.inj own) (idle _ rfl)
    | claimed active =>
      cases own
      exact .modifyToken (not_dead_of_hasStatus active nofun) _
    | released running =>
      cases own
      exact .modifyToken (not_dead_of_hasStatus running nofun) _
    | killed running =>
      cases own
      exact .killToken running
    | resumed due =>
      cases own
      exact .modifyToken (not_dead_of_any due fun _ => Token.isDue.alive) _
    | @signaled signaledRun nodeId correlationKey t vars output target =>
      cases own
      obtain rfl := run_of_signalTarget target
      have alive : ¬ hasStatus (db.setVariables t.run vars) .dead t := by
        rw [hasStatus, token?_setVariables]
        have signalable : (db.token? t).any (Token.isSignalable nodeId correlationKey) :=
          find?_some (p := fun t => (db.token? t).any _) target
        exact not_dead_of_any signalable fun _ => Token.isSignalable.alive
      have published : Absorbed t.run db (db.setVariables t.run vars) :=
        .modifyRun fun run _ _ => ⟨rfl, fun _ token found dead => ⟨token, found, dead⟩⟩
      exact published.trans (.modifyToken alive _)
    | wiredBack parked =>
      cases own
      exact .modifyToken (not_dead_of_any parked fun _ => Token.isParkedOn.alive) _
    | retried => exact absurd (congrArg Event.retried (some.inj own)) notRetried
    | agentEnded | ticked => cases own
  · exact .of_touches step.touches fun either =>
      either.elim own (not_le.mpr inside)

end Step

/-- **Ended runs are absorbing in every history in which the engine works on no token of an
ended run.** -/
theorem absorbing_of_undisturbed (host : Host) (db : Db) (actions : List Action)
    (undisturbed : ∀ moment ∈ (execute host db actions).past, ¬ Disturbs moment) :
    Absorbing (execute host db actions) := by
  intro runId i j earlier later ordered earlierAt laterAt notRetried
  refine (execute_steps host db actions).relates
    (fun moment => ¬ Disturbs moment ∧ moment.event ≠ .retried runId) (Absorbed.refl runId)
    (fun _ _ _ => Absorbed.trans) (fun _ _ _ step allowed => step.absorbed allowed.1 allowed.2)
    (Nat.zero_le i) ordered earlierAt laterAt fun k moment low high found => ?_
  exact ⟨undisturbed moment (mem_of_getElem? found), notRetried k moment low high found⟩

/-! ## A fork with a failing branch -/

def forkDefinition : WorkflowDefinitionModel where
  schemaVersion := 2
  nodes := [{ id := "start", type := .trigger },
    { id := "notify", type := .task
      data := { taskType := some .send, actionType := some "send_email" } },
    { id := "archive", type := .task
      data := { taskType := some .service, actionType := some "update_record" } }]
  edges := [{ source := "start", target := "notify" }, { source := "start", target := "archive" }]
  ids_nodup := by decide
  sources_known := by decide
  targets_known := by decide

/-- One run of the fork, launched and driven. -/
def forkWorld (failing : List NodeId) : World :=
  execute (.failingAt failing)
    { workflows := [{}], versions := [{ definition := forkDefinition }] }
    [.launch { workflowId := 0, versionId := 0 }, .drive 0, .signal 0 none none [] [], .drive 0]

/-- With no failing branch the run ends when its last token does, and rests. -/
theorem absorbing_forkWorld : Absorbing (forkWorld []) :=
  absorbing_of_undisturbed _ _ _ (by decide)

theorem not_absorbing {world : World} {runId : RunId} {i j : Nat} (ordered : i ≤ j)
    (inside : j < world.states.length)
    (ended : (world.states[i]?.bind fun db => db.runs[runId]?).any fun run =>
      run.status.isTerminal)
    (executed : (world.states[j]?.map fun db => (callsOf db runId).length) ≠
      world.states[i]?.map fun db => (callsOf db runId).length)
    (works : ∀ moment ∈ world.past.drop i, moment.event.worksOn.isSome) : ¬ Absorbing world := by
  intro absorbing
  have earlierAt := getElem?_eq_getElem (lt_of_le_of_lt ordered inside)
  have laterAt := getElem?_eq_getElem inside
  rw [earlierAt, bind_some] at ended
  rw [earlierAt, laterAt] at executed
  obtain ⟨run, found, isTerminal⟩ := (Option.any_eq_true ..).mp ended
  have unretried : ∀ k moment, i ≤ k → k < j → world.past[k]? = some moment →
      moment.event ≠ .retried runId := by
    intro k moment low _ found retried
    have member : moment ∈ world.past.drop i :=
      mem_iff_getElem?.mpr ⟨k - i, by rw [getElem?_drop, Nat.add_sub_cancel' low, found]⟩
    have isWork := works moment member
    rw [retried] at isWork
    cases isWork
  have rests := absorbing runId i j _ _ ordered earlierAt laterAt unretried run found isTerminal
  exact executed (by rw [map_some, map_some, rests.2])

/-- The first branch fails the run, and the pass goes on to execute the handler of the second. -/
theorem not_absorbing_forkWorld : ¬ Absorbing (forkWorld ["notify"]) :=
  not_absorbing (by decide : 5 ≤ 7) (by decide)
    (by decide : ((forkWorld ["notify"]).states[5]?.bind fun db => db.runs[0]?).any fun run =>
      run.status.isTerminal)
    (by decide) (by decide)

end RedArchKM.Workflow
