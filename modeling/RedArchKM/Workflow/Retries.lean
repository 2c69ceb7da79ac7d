import RedArchKM.Workflow.Completions
import RedArchKM.Workflow.ParkedCalls

/-!
# Retries

A retry returns every dead token of a failed run to active, with the data it died with. Dead are
the tokens whose node failed, and also those that a join consumed, a terminate end event or a
budget killed, or that had no node to be at (`DiesBy`). A dead token lies where it died until a
pass or a retry sets it going (`LiesDead`), and a token that a retry set going stays at its node
until its turn comes (`AwaitsTurn`).

A retry redoes the failed work when no token of the run died but by its node's failure and no
dead token carries the marks of its last attempt (`redoesFailedWork_of_clean`): the stamp of a
failed agent run makes the retry replay the failure, and attempts counted before it are attempts
less after it.
-/

namespace RedArchKM.Workflow

open Lib Lib.History List Option

/-! ## What is promised -/

def WorkflowNode.action? (node : WorkflowNode) : Option String :=
  if node.type = .task then
    match node.taskType with
    | some .service | some .send | some .other | none => node.data.actionType.filter (· ≠ "")
    | some .script | some .businessRule | some .user | some .receive | some .call
    | some .subProcess | some .manual | some .agent => none
  else none

def TokenData.unlinked (data : TokenData) : Prop :=
  data.completed = false ∧ data.agentResult.isNone ∧ data.agentRunId.isNone

instance (data : TokenData) : Decidable data.unlinked := inferInstanceAs (Decidable (_ ∧ _ ∧ _))

/-- The dispatch asks for a step of the run's budget before anything else. -/
def Site.asksForStep (site : Site) : Prop :=
  site.node.action?.isSome ∨ site.node.taskType = some .businessRule ∨
    site.node.taskType = some .script ∨ (site.node.taskType = some .agent ∧ site.token.data.unlinked)

instance (site : Site) : Decidable site.asksForStep := inferInstanceAs (Decidable (_ ∨ _ ∨ _ ∨ _))

instance (node : WorkflowNode) : Decidable node.IsCall := inferInstanceAs (Decidable (_ ∨ _))

def BudgetSpent (host : Host) (site : Site) : Prop :=
  (site.asksForStep ∧ host.maxRunSteps ≤ site.run.stepSeq) ∨
    (site.node.IsCall ∧ site.token.data.completed = false ∧ maxTokenDepth ≤ site.run.depth)

instance (host : Host) (site : Site) : Decidable (BudgetSpent host site) :=
  inferInstanceAs (Decidable (_ ∨ _))

def Event.stranded? : Event → Option TokenId
  | .stranded t => some t
  | .launched _ | .taken _ | .claimed _ | .released _ | .advanced _ _ | .called _ _ | .returned _ _
  | .killed _ | .resumed _ | .signaled _ | .agentEnded _ | .wiredBack _ | .retried _
  | .ticked => none

def Event.retried? : Event → Option RunId
  | .retried runId => some runId
  | .launched _ | .taken _ | .claimed _ | .released _ | .stranded _ | .advanced _ _ | .called _ _
  | .returned _ _ | .killed _ | .resumed _ | .signaled _ | .agentEnded _ | .wiredBack _
  | .ticked => none

def Event.dispatches? : Event → Option TokenId
  | .stranded t | .advanced t _ | .called t _ => some t
  | .launched _ | .taken _ | .claimed _ | .released _ | .returned _ _ | .killed _ | .resumed _
  | .signaled _ | .agentEnded _ | .wiredBack _ | .retried _ | .ticked => none

def Event.revives (t : TokenId) (event : Event) : Prop :=
  event.touched? = some t ∨ event.retried? = some t.run

/-- The token dies because its node failed: the node's outcome says so and no budget is to blame,
or the advance raised. -/
def NodeFailed (host : Host) (t : TokenId) (moment : Moment Event Db) : Prop :=
  moment.event.killed? = some t ∨
    ∃ outcome, moment.event.concluded? = some (t, outcome) ∧ outcome.kind = .fail ∧
      ¬ (siteOf moment.before t).any fun site => BudgetSpent host site

/-- By the given moment the token has died of a failure of the node, and nothing has set it going
since. -/
def DiedOfFailure (host : Host) (world : World) (k : Nat) (t : TokenId) (nodeId : NodeId) : Prop :=
  ∃ (m : Nat) (moment : Moment Event Db), m < k ∧ world.past[m]? = some moment ∧
    NodeFailed host t moment ∧ (moment.before.token? t).any (fun token => token.nodeId = nodeId) ∧
    ∀ (j : Nat) (later : Moment Event Db), m < j → j < k → world.past[j]? = some later →
      ¬ later.event.revives t

/-- The first time after the given moment that the token is handed to its node. -/
structure NextDispatch (world : World) (k : Nat) (t : TokenId) (m : Nat)
    (moment : Moment Event Db) : Prop where
  after : k < m
  found : world.past[m]? = some moment
  dispatches : moment.event.dispatches? = some t
  first : ∀ (j : Nat) (between : Moment Event Db), k < j → j < m →
    world.past[j]? = some between → between.event.advances? ≠ some t

/-- The node does its work anew: an action is executed, and if it fails all but one of the
attempts are left; an agent that can take the step gets a run; a call starts a child. -/
structure DoesItsWork (host : Host) (db : Db) (site : Site) (result : Dispatched) : Prop where
  acts : ∀ actionType, site.node.action? = some actionType →
    ∃ db' outcome, result = .outcome db' outcome ∧
      db'.calls = db.calls ++ [handlerCall db site actionType] ∧
      ((host.execute db.calls (handlerCall db site actionType)).ok = false →
        1 < (readPolicy site.node.data.retry).maxAttempts →
        outcome.kind = .park ∧ outcome.waitKind = some .retry ∧
          outcome.tokenData.map (TokenData.attemptsSoFar · site.node.id) = some 1)
  enqueues : site.node.taskType = some .agent → ∀ agentId, agentRefusal db site = .ok agentId →
    ∃ enqueued, enqueueAgent host db site agentId = .ok enqueued ∧ result = .of enqueued
  starts : site.node.IsCall → result = dispatchCall host db site

def ExecutesAnew (host : Host) (site : Site) (moment : Moment Event Db) : Prop :=
  ∃ result, dispatch host moment.before site = .ok result ∧
    moment.event = (match result with
      | .outcome _ outcome => .advanced site.t outcome
      | .child _ childId => .called site.t childId) ∧
    DoesItsWork host moment.before site result

/-- **A retry redoes exactly the failed work**: it sets going the tokens that died of a failure,
each at the node that failed, and the node of each does its work anew. -/
structure RedoesFailedWork (host : Host) (world : World) (k : Nat) (runId : RunId)
    (before : Db) : Prop where
  reactivates : ∀ t token, t.run = runId → before.token? t = some token →
    ∃ next, world.states[k + 1]? = some next ∧ next.token? t = some token.reactivate ∧
      (token.status = .dead ↔ DiedOfFailure host world k t token.nodeId)
  redoes : ∀ t token, t.run = runId → before.token? t = some token → token.status = .dead →
    ∀ m moment, NextDispatch world k t m moment →
      ∃ site, siteOf moment.before t = some site ∧ site.node.id = token.nodeId ∧
        ExecutesAnew host site moment

/-! ## When it holds -/

/-- The outcome kills tokens for another reason than the failure of their node. -/
def KillsBeside (host : Host) (db : Db) (u : TokenId) (outcome : NodeOutcome) : Prop :=
  outcome.kind = .emit ∨
    (outcome.kind = .terminate ∧ ∃ index ∈ List.range (tokensOf db u.run).length,
      index ≠ u.index ∧ (db.token? ⟨u.run, index⟩).any fun token => token.status.isLive) ∨
    (outcome.kind = .advance ∧
      maxTokensPerRun < (tokensOf db u.run).length + outcome.targets.length) ∨
    (outcome.kind = .fail ∧ (siteOf db u).any fun site => BudgetSpent host site)

instance (host : Host) (db : Db) (u : TokenId) (outcome : NodeOutcome) :
    Decidable (KillsBeside host db u outcome) :=
  inferInstanceAs (Decidable (_ ∨ (_ ∧ ∃ _ ∈ _, _ ∧ _) ∨ (_ ∧ _) ∨ (_ ∧ _)))

/-- In the run the moment kills a token for another reason than the failure of its node: it has
no node, a join consumes it, or a terminate end event or a budget kills it. -/
def Bystanders (host : Host) (runId : RunId) (moment : Moment Event Db) : Prop :=
  (moment.event.stranded?.any fun t => t.run = runId) ∨
    moment.event.concluded?.any fun conclusion => conclusion.1.run = runId ∧
      KillsBeside host moment.before conclusion.1 conclusion.2

instance (host : Host) (runId : RunId) (moment : Moment Event Db) :
    Decidable (Bystanders host runId moment) := inferInstanceAs (Decidable (_ ∨ _))

/-- The token carries no mark of an earlier attempt at its node. -/
def Token.unmarked (token : Token) : Prop :=
  token.data.unlinked ∧ token.data.attemptsSoFar token.nodeId = 0

instance (token : Token) : Decidable token.unmarked := inferInstanceAs (Decidable (_ ∧ _))

/-- The dead tokens of the run died by the failure of their node, carry no mark of it, and will
find a step left in the run's budget. -/
structure CleanRetry (host : Host) (world : World) (k : Nat) (runId : RunId) (before : Db) :
    Prop where
  noBystanders : ∀ m moment, m < k → world.past[m]? = some moment →
    ¬ Bystanders host runId moment
  unmarked : ∀ token ∈ tokensOf before runId, token.status = .dead → token.unmarked
  stepsLeft : ∀ t token m moment, t.run = runId → before.token? t = some token →
    token.status = .dead → NextDispatch world k t m moment →
    moment.before.runs[runId]?.any fun run => run.stepSeq < host.maxRunSteps

/-! ## How tokens die -/

/-- The ways a step has to kill a token. -/
inductive DiesBy (db : Db) (event : Event) (t : TokenId) : Prop where
  | failed {outcome : NodeOutcome} (concludes : event.concluded? = some (t, outcome))
      (fails : outcome.kind = .fail)
  | raised (isKilled : event.killed? = some t)
  | stranded (isStranded : event.stranded? = some t)
  | consumed {u : TokenId} {outcome : NodeOutcome}
      (concludes : event.concluded? = some (u, outcome)) (sameRun : u.run = t.run)
      (fires : outcome.kind = .emit)
  | terminated {u : TokenId} {outcome : NodeOutcome}
      (concludes : event.concluded? = some (u, outcome)) (sameRun : u.run = t.run)
      (other : t.index ≠ u.index) (terminates : outcome.kind = .terminate)
      (live : (db.token? t).any fun token => token.status.isLive)
  | exceeded {outcome : NodeOutcome} (concludes : event.concluded? = some (t, outcome))
      (advances : outcome.kind = .advance)
      (exceeds : maxTokensPerRun < (tokensOf db t.run).length + outcome.targets.length)

section Death

variable {site : Site} {outcome : NodeOutcome} {tokens handled : List Token} {index : Nat}
  {token : Token}

theorem Wakes.getElem?_of_not_active {before after : List Token} (wakes : Wakes before after)
    (placed : after[index]? = some token) (awake : token.status ≠ .active) :
    before[index]? = some token := by
  obtain ⟨token', placed', woken⟩ := wakes.token_before placed
  rcases woken with same | ⟨completion, same⟩
  · rwa [same]
  · unfold wakeCaller at same
    split at same
    · exact absurd (by rw [same]) awake
    · rwa [same]

theorem getElem?_modify_cases {place : Nat} {change : Token → Token}
    (placed : (tokens.modify place change)[index]? = some token) :
    (place = index ∧ ∃ before, tokens[index]? = some before ∧ token = change before) ∨
      (place ≠ index ∧ tokens[index]? = some token) := by
  rw [getElem?_modify] at placed
  by_cases here : place = index
  · obtain ⟨before, isBefore, rfl⟩ := map_eq_some_iff.mp placed
    rw [if_pos here]
    exact .inl ⟨here, before, isBefore, rfl⟩
  · simp only [if_neg here, Option.map_eq_map, Option.map_id'] at placed
    exact .inr ⟨here, placed⟩

theorem getElem?_append_cases {more : List Token} (placed : (tokens ++ more)[index]? = some token) :
    tokens[index]? = some token ∨ token ∈ more := by
  by_cases inside : index < tokens.length
  · exact .inl (by rwa [getElem?_append_left inside] at placed)
  · rw [getElem?_append_right (not_lt.mp inside)] at placed
    exact .inr (mem_of_getElem? placed)

theorem dead_tokensAfter (placed : (tokensAfter site outcome tokens)[index]? = some token)
    (dead : token.status = .dead) :
    tokens[index]? = some token ∨ (index = site.t.index ∧ outcome.kind = .fail) ∨
      (index ≠ site.t.index ∧ outcome.kind = .terminate ∧
        tokens[index]?.any fun token => token.status.isLive) ∨
      (index = site.t.index ∧ outcome.kind = .advance ∧
        maxTokensPerRun < tokens.length + outcome.targets.length) ∨ outcome.kind = .emit := by
  have unchanged : ∀ (status : TokenStatus) {change : Token → Token}, status ≠ .dead →
      (∀ token, (change token).status = status) →
      (tokens.modify site.t.index change)[index]? = some token → tokens[index]? = some token := by
    intro status change alive becomes placed
    rcases getElem?_modify_cases placed with ⟨-, before, -, rfl⟩ | ⟨-, same⟩
    · exact absurd ((becomes before).symm.trans dead) alive
    · exact same
  unfold tokensAfter at placed
  split at placed
  · exact .inl placed
  · exact .inl (unchanged .waiting (by rintro ⟨⟩) (fun _ => rfl) placed)
  · exact .inl (unchanged .completed (by rintro ⟨⟩) (fun _ => rfl) placed)
  · rename_i kind
    rcases getElem?_modify_cases placed with ⟨here, -⟩ | ⟨-, same⟩
    · exact .inr (.inl ⟨here.symm, kind⟩)
    · exact .inl same
  · rename_i kind
    rw [getElem?_map] at placed
    obtain ⟨before, isBefore, rfl⟩ := map_eq_some_iff.mp placed
    rcases getElem?_modify_cases isBefore with ⟨-, ended, -, rfl⟩ | ⟨other, same⟩
    · cases dead
    · unfold Token.kill
      split
      · rename_i live
        exact .inr (.inr (.inl ⟨Ne.symm other, kind, by rw [same]; exact live⟩))
      · exact .inl same
  · rename_i kind
    split at placed
    · rename_i exceeds
      rcases getElem?_modify_cases placed with ⟨here, -⟩ | ⟨-, same⟩
      · exact .inr (.inr (.inr (.inl ⟨here.symm, kind, exceeds⟩)))
      · exact .inl same
    · refine .inl ?_
      simp only [tokensMoved, kind] at placed
      split at placed
      · exact unchanged .active (by rintro ⟨⟩) (fun _ => rfl) placed
      · rcases getElem?_append_cases placed with ended | branched
        · exact unchanged .completed (by rintro ⟨⟩) (fun _ => rfl) ended
        · obtain ⟨target, -, rfl⟩ := mem_map.mp branched
          cases dead
  · rename_i kind
    exact .inr (.inr (.inr (.inr kind)))

theorem Handled.dead (handles : Handled site outcome handled)
    (placed : handled[index]? = some token) (dead : token.status = .dead) :
    site.run.tokens[index]? = some token ∨ outcome.kind = .emit := by
  have arrives : (arrived site site.run.tokens)[index]? = some token →
      site.run.tokens[index]? = some token := by
    intro placed
    rcases getElem?_modify_cases placed with ⟨-, before, -, rfl⟩ | ⟨-, same⟩
    · cases dead
    · exact same
  cases handles with
  | plain => exact .inl placed
  | parallelWaits | inclusiveWaits => exact .inl (arrives placed)
  | parallelFires _ fires | inclusiveFires _ fires => exact .inr (by rw [fires])

theorem Handled.eq_of_kind (handles : Handled site outcome handled)
    (other : outcome.kind ≠ .emit ∧ outcome.kind ≠ .noop) : handled = site.run.tokens := by
  cases handles with
  | plain => rfl
  | parallelWaits _ waits | inclusiveWaits _ waits => exact absurd (by rw [waits]) other.2
  | parallelFires _ fires | inclusiveFires _ fires => exact absurd (by rw [fires]) other.1

end Death

section Deaths

variable {host : Host} {db db' : Db} {event : Event} {t : TokenId} {run : Run} {token : Token}
  {tokens : List Token}

variable {u : TokenId}

theorem eq_of_same (sameRun : u.run = t.run) (sameIndex : u.index = t.index) : u = t := by
  rcases u with ⟨_, _⟩
  simp_all

theorem Event.diesBy_of_died (dies : event.died? = some t) : DiesBy db event t := by
  cases event with
  | stranded => exact .stranded dies
  | killed => exact .raised dies
  | _ => cases dies

theorem Event.run?_of_touched (touches : event.touched? = some u) : event.run? = some u.run := by
  cases event <;> first | (cases touches; rfl) | cases touches

theorem Event.run?_of_died (dies : event.died? = some u) : event.run? = some u.run := by
  cases event <;> first | (cases dies; rfl) | cases dies

theorem Event.eq_of_retried {runId : RunId} (retries : event.retried? = some runId) :
    event = .retried runId := by
  cases event <;> first | (cases retries; rfl) | cases retries

theorem Event.died?_of_touched (touches : event.touched? = some u) : event.died? = none := by
  cases event <;> first | rfl | cases touches

theorem Event.concluded?_of_touched (touches : event.touched? = some u) :
    event.concluded? = none := by
  cases event <;> first | rfl | cases touches

section

variable (step : TokensStep db run event tokens)

include step

/-- **A token that is dead after a step** of its run was dead before, or the step killed it. -/
theorem TokensStep.dead (own : event.run? = some t.run) (found : db.runs[t.run]? = some run)
    (placed : tokens[t.index]? = some token) (dead : token.status = .dead) :
    run.tokens[t.index]? = some token ∨ DiesBy db event t := by
  have asleep : token.status ≠ .active := fun active => by
    cases active.symm.trans dead
  cases step with
  | touched touches placed' touched =>
    rcases getElem?_modify_cases placed with ⟨here, before, isBefore, rfl⟩ | ⟨-, same⟩
    · rw [← here, placed'] at isBefore
      cases isBefore
      rcases touched.awake with active | running
      · cases active.symm.trans dead
      · cases running.symm.trans dead
    · exact .inl same
  | @died _ u dying change woken tokens dies placed' running dies' left right =>
    rcases getElem?_modify_cases (right.getElem?_of_not_active placed asleep) with
      ⟨here, -⟩ | ⟨-, same⟩
    · have sameRun : u.run = t.run :=
        some.inj ((Event.run?_of_died dies).symm.trans own)
      exact .inr (Event.diesBy_of_died (dies.trans (congrArg some (eq_of_same sameRun here))))
    · exact .inl (left.getElem?_of_not_active same asleep)
  | called wakes => exact .inl (wakes.getElem?_of_not_active placed asleep)
  | retried =>
    rw [getElem?_map] at placed
    obtain ⟨before, -, rfl⟩ := map_eq_some_iff.mp placed
    unfold Token.reactivate at dead
    split at dead
    · cases dead
    · rename_i alive
      exact absurd dead alive
  | @concluded _ site outcome handled tokens concludes located same running handles wakes =>
    subst same
    have sameRun : site.t.run = t.run :=
      some.inj ((Event.run?_of_concluded concludes).symm.trans own)
    have itself : t.index = site.t.index → event.concluded? = some (t, outcome) := by
      intro here
      rw [concludes, eq_of_same sameRun here.symm]
    have unhandled : outcome.kind ≠ .emit → outcome.kind ≠ .noop →
        handled = site.run.tokens := fun notEmit notNoop => handles.eq_of_kind ⟨notEmit, notNoop⟩
    rcases dead_tokensAfter (wakes.getElem?_of_not_active placed asleep) dead with
      old | ⟨here, fails⟩ | ⟨other, terminates, live⟩ | ⟨here, advances, exceeds⟩ | fires
    · exact (handles.dead old dead).imp id fun fires => .consumed concludes sameRun fires
    · exact .inr (.failed (itself here) fails)
    · rw [unhandled (by rw [terminates]; rintro ⟨⟩) (by rw [terminates]; rintro ⟨⟩)] at live
      exact .inr (.terminated concludes sameRun other terminates
        (by rw [Db.token?, found]; exact live))
    · rw [unhandled (by rw [advances]; rintro ⟨⟩) (by rw [advances]; rintro ⟨⟩)] at exceeds
      exact .inr (.exceeded (itself here) advances (by rw [tokensOf_eq found]; exact exceeds))
    · exact .inr (.consumed concludes sameRun fires)

theorem TokensStep.not_dead_of_revives (revives : event.revives t)
    (placed : tokens[t.index]? = some token) : token.status ≠ .dead := by
  intro dead
  cases step with
  | @touched _ u before change touches placed' touched =>
    rcases revives with sets | retries
    · cases touches.symm.trans sets
      rcases getElem?_modify_cases placed with ⟨-, old, isOld, rfl⟩ | ⟨other, -⟩
      · cases placed'.symm.trans isOld
        rcases touched.awake with active | running
        · cases active.symm.trans dead
        · cases running.symm.trans dead
      · exact other rfl
    · rw [Event.eq_of_retried retries] at touches
      cases touches
  | died dies =>
    rcases revives with sets | retries
    · cases (Event.died?_of_touched sets).symm.trans dies
    · rw [Event.eq_of_retried retries] at dies
      cases dies
  | called wakes => rcases revives with sets | retries <;> contradiction
  | retried =>
    rw [getElem?_map] at placed
    obtain ⟨before, -, rfl⟩ := map_eq_some_iff.mp placed
    unfold Token.reactivate at dead
    split at dead
    · cases dead
    · rename_i alive
      exact alive dead
  | concluded concludes =>
    rcases revives with sets | retries
    · cases (Event.concluded?_of_touched sets).symm.trans concludes
    · rw [Event.eq_of_retried retries] at concludes
      cases concludes

/-- **A dead token stays as it is** until it is set going. -/
theorem TokensStep.staysDead (own : event.run? = some t.run)
    (placed : run.tokens[t.index]? = some token) (dead : token.status = .dead)
    (lies : ¬ event.revives t) : tokens[t.index]? = some token := by
  have notOnChild : ¬ token.onChild := fun parked => nomatch dead.symm.trans parked.1
  have kept : ∀ {before after : List Token}, Wakes before after → before[t.index]? = some token →
      after[t.index]? = some token := by
    intro before after wakes here
    obtain ⟨token', placed', woken⟩ := wakes.token t.index token here
    rw [placed', woken.eq notOnChild]
  have modified : ∀ {place : Nat} {change : Token → Token} {tokens : List Token},
      place ≠ t.index → tokens[t.index]? = some token →
      (tokens.modify place change)[t.index]? = some token := fun other here => by
    rw [getElem?_modify_ne _ _ other, here]
  cases step with
  | @touched _ u before change touches placed' touched =>
    refine modified (fun here => lies (.inl ?_)) placed
    rw [touches, eq_of_same (some.inj ((Event.run?_of_touched touches).symm.trans own)) here]
  | @died _ u dying change woken tokens dies placed' running dies' left right =>
    refine kept right (modified (fun here => ?_) (kept left placed))
    rw [here, placed] at placed'
    cases placed'
    cases running.symm.trans dead
  | called wakes => exact kept wakes placed
  | retried => exact absurd (.inr own) lies
  | @concluded _ site outcome handled tokens concludes located same running handles wakes =>
    subst same
    have other : site.t.index ≠ t.index := by
      intro here
      rw [← here, located.token] at placed
      cases placed
      cases running.symm.trans dead
    have arrives : (arrived site site.run.tokens)[t.index]? = some token :=
      getElem?_arrived_of_ne placed other
    have consumes : (consumed site.node.id (arrived site site.run.tokens))[t.index]? =
        some token :=
      getElem?_consumed_of_not_bufferedAt arrives fun buffered =>
        nomatch dead.symm.trans buffered.2.1
    have handledAt : handled[t.index]? = some token := by
      cases handles with
      | plain => exact placed
      | parallelWaits | inclusiveWaits => exact arrives
      | parallelFires | inclusiveFires => exact consumes
    refine kept wakes ?_
    by_cases terminates : outcome.kind = .terminate
    · simp only [tokensAfter, terminates]
      rw [getElem?_map, modified other handledAt, map_some, Token.kill, dead]
      rfl
    · exact getElem?_tokensAfter_of_ne handledAt other terminates

theorem TokensStep.dead_of_fails {outcome : NodeOutcome}
    (concludes : event.concluded? = some (t, outcome)) (fails : outcome.kind = .fail) :
    ∃ site token', siteOf db t = some site ∧ tokens[t.index]? = some token' ∧
      token'.status = .dead ∧ token'.nodeId = site.token.nodeId := by
  cases step with
  | touched touches => cases (Event.concluded?_of_touched touches).symm.trans concludes
  | died dies => cases (Event.concluded?_of_died dies).symm.trans concludes
  | called wakes => cases concludes
  | retried => cases concludes
  | @concluded _ site outcome' handled tokens concludes' located same running handles wakes =>
    obtain ⟨rfl, rfl⟩ := Prod.mk.inj (some.inj (concludes'.symm.trans concludes))
    have untouched : handled = site.run.tokens :=
      handles.eq_of_kind ⟨by rw [fails]; rintro ⟨⟩, by rw [fails]; rintro ⟨⟩⟩
    have failedAt : (tokensAfter site outcome' handled)[site.t.index]? =
        some (site.token.withStatus .dead) := by
      simp only [tokensAfter, fails, untouched]
      simp [located.token]
    obtain ⟨token', placed', woken⟩ := wakes.token _ _ failedAt
    have same : token' = site.token.withStatus .dead := woken.eq (by rintro ⟨⟨⟩, -⟩)
    exact ⟨site, token', siteOf_of_at located, placed', by rw [same]; rfl, by rw [same]; rfl⟩

end

theorem EngineStep.dead (step : EngineStep host db event db') (found' : db'.token? t = some token)
    (dead : token.status = .dead) : db.token? t = some token ∨ DiesBy db event t := by
  obtain ⟨run', foundRun', placed'⟩ := Option.bind_eq_some_iff.mp found'
  rcases step.run_cases foundRun' with
    ⟨run, found, own, -, tokens⟩ | ⟨run, found, -, stirred⟩ | ⟨-, started⟩
  · refine (tokens.dead own found placed' dead).imp (fun placed => ?_) id
    rwa [Db.token?, found]
  · refine .inl ?_
    rw [Db.token?, found]
    exact stirred.tokens.getElem?_of_not_active placed' fun active => by
      cases active.symm.trans dead
  · obtain ⟨version, -, tokens⟩ := started.version
    rw [tokens] at placed'
    obtain ⟨trigger, -, rfl⟩ := mem_map.mp (mem_of_getElem? placed')
    cases dead

theorem Event.run?_of_revives (revives : event.revives t) : event.run? = some t.run := by
  rcases revives with sets | retries
  · exact Event.run?_of_touched sets
  · rw [Event.eq_of_retried retries]
    rfl

section

variable (step : EngineStep host db event db')

include step

theorem EngineStep.not_dead_of_revives (revives : event.revives t)
    (found' : db'.token? t = some token) : token.status ≠ .dead := by
  obtain ⟨run', foundRun', placed'⟩ := Option.bind_eq_some_iff.mp found'
  rcases step.run_cases foundRun' with
    ⟨run, found, own, -, tokens⟩ | ⟨run, found, other, -⟩ | ⟨-, started⟩
  · exact tokens.not_dead_of_revives revives placed'
  · exact absurd (Event.run?_of_revives revives) other
  · obtain ⟨version, -, tokens⟩ := started.version
    rw [tokens] at placed'
    obtain ⟨trigger, -, rfl⟩ := mem_map.mp (mem_of_getElem? placed')
    exact nofun

theorem EngineStep.staysDead (found : db.token? t = some token) (dead : token.status = .dead)
    (lies : ¬ event.revives t) : db'.token? t = some token := by
  obtain ⟨run, foundRun, placed⟩ := Option.bind_eq_some_iff.mp found
  obtain ⟨run', foundRun', -, stirred⟩ := step.touches.runs t.run run foundRun
  rw [Db.token?, foundRun', bind_some]
  by_cases own : event.run? = some t.run
  · exact (step.tokens_cases own foundRun foundRun').staysDead own placed dead lies
  · have inside := (List.getElem?_eq_some_iff.mp foundRun).1
    have isStirred : Stirred run run' := stirred fun either => either.elim own (not_le.mpr inside)
    obtain ⟨token', placed', woken⟩ := isStirred.tokens.token t.index token placed
    rw [placed', woken.eq fun parked => by cases dead.symm.trans parked.1]

/-- **A token whose node failed is dead at that node.** -/
theorem EngineStep.dead_of_nodeFailed (fails : NodeFailed host t ⟨event, db⟩) :
    ∃ site token', siteOf db t = some site ∧ db'.token? t = some token' ∧
      token'.status = .dead ∧ token'.nodeId = site.token.nodeId := by
  rcases fails with isKilled | ⟨outcome, concludes, isFail, -⟩
  · cases step with
    | @killed u running raises =>
      obtain rfl : u = t := some.inj isKilled
      obtain ⟨site, located, rfl⟩ := raises
      have sameTokens : ∀ run : Run, (if run.status = .succeeded ∨ run.status = .skipped then run
          else { run with status := .failed, error := some "advance error" }).tokens =
            run.tokens := by
        intro run
        split <;> rfl
      refine ⟨site, { site.token with
          status := .dead
          data := { site.token.data with error := some (.raised "advance error") } },
        siteOf_of_at located, ?_, rfl, rfl⟩
      change (Db.modifyRun _ _ _).token? site.t = _
      rw [token?_modifyRun sameTokens, token?_modifyToken, if_pos rfl, located.token?]
      rfl
    | _ => cases isKilled
  · have own : event.run? = some t.run := Event.run?_of_concluded concludes
    have advances : event.advances? = some t := Event.advances?_of_concluded concludes
    obtain ⟨placed, found, -⟩ := token?_of_hasStatus (step.running_of_advances advances)
    obtain ⟨run, foundRun, -⟩ := Option.bind_eq_some_iff.mp found
    obtain ⟨run', foundRun', -⟩ := step.touches.runs t.run run foundRun
    obtain ⟨site, token', isSite, placed', dead, sameNode⟩ :=
      (step.tokens_cases own foundRun foundRun').dead_of_fails concludes isFail
    exact ⟨site, token', isSite, by rw [Db.token?, foundRun']; exact placed', dead, sameNode⟩

end

end Deaths

/-! ## From the failure to the retry -/

section Lying

variable {host : Host} {db db' : Db} {event : Event} {t : TokenId}

def LiesDead (t : TokenId) (before after : Db) : Prop :=
  ∀ site, siteOf before t = some site → site.token.status = .dead →
    ∃ site', siteOf after t = some site' ∧ site'.node = site.node ∧ site'.token = site.token

theorem LiesDead.refl (t : TokenId) (db : Db) : LiesDead t db db :=
  fun site isSite _ => ⟨site, isSite, rfl, rfl⟩

theorem LiesDead.trans {first second third : Db} (left : LiesDead t first second)
    (right : LiesDead t second third) : LiesDead t first third := by
  intro site isSite dead
  obtain ⟨site', isSite', node, token⟩ := left site isSite dead
  obtain ⟨site'', isSite'', node', token'⟩ := right site' isSite' (by rw [token, dead])
  exact ⟨site'', isSite'', node'.trans node, token'.trans token⟩

theorem EngineStep.liesDead (step : EngineStep host db event db') (lies : ¬ event.revives t) :
    LiesDead t db db' := by
  intro site isSite dead
  obtain ⟨rfl, located⟩ := at_of_siteOf isSite
  have found' : db'.token? site.t = some site.token := step.staysDead located.token? dead lies
  obtain ⟨site', isSite', -, node, token⟩ := step.siteOf_of_nodeId isSite found' rfl
  exact ⟨site', isSite', node, token⟩

variable {world : World} {k : Nat} {state : Db}

/-- **A dead token has died**, in one of the ways there are, and nothing has set it going since. -/
theorem diesBy_of_dead (steps : Continues host { now := db } world) (empty : db.runs = [])
    (passed : world.states[k]? = some state) {token : Token} (found : state.token? t = some token)
    (dead : token.status = .dead) :
    ∃ (m : Nat) (moment : Moment Event Db), m < k ∧ world.past[m]? = some moment ∧
      DiesBy moment.before moment.event t ∧
      ∀ (j : Nat) (later : Moment Event Db), m < j → j < k → world.past[j]? = some later →
        ¬ later.event.revives t := by
  induction k generalizing state with
  | zero =>
    cases (steps.getElem?_states_zero rfl).symm.trans passed
    rw [Db.token?, empty] at found
    cases found
  | succ k ih =>
    have inside := (List.getElem?_eq_some_iff.mp passed).1
    rw [length_states, Nat.add_lt_add_iff_right] at inside
    have isMoment : world.past[k]? = some world.past[k] := List.getElem?_eq_getElem inside
    obtain ⟨before, next, isNext, step⟩ := steps.stepAt (Nat.zero_le k) isMoment
    cases isNext.symm.trans passed
    rcases step.dead found dead with old | dies
    · obtain ⟨m, moment, earlier, isPast, dies, lies⟩ := ih before old
      refine ⟨m, moment, Nat.lt_succ_of_lt earlier, isPast, dies, ?_⟩
      intro j later low high isLater revives
      rcases Nat.lt_succ_iff_lt_or_eq.mp high with sooner | rfl
      · exact lies j later low sooner isLater revives
      · cases isMoment.symm.trans isLater
        exact step.not_dead_of_revives revives found dead
    · refine ⟨k, _, Nat.lt_succ_self k, isMoment, dies, ?_⟩
      intro j later low high
      exact absurd (Nat.lt_of_lt_of_le low (Nat.lt_succ_iff.mp high)) (lt_irrefl k)

theorem nodeFailed_of_diesBy {moment : Moment Event Db} (dies : DiesBy moment.before moment.event t)
    (spared : ¬ Bystanders host t.run moment) : NodeFailed host t moment := by
  have beside : ∀ {u : TokenId} {outcome : NodeOutcome},
      moment.event.concluded? = some (u, outcome) → u.run = t.run →
      ¬ KillsBeside host moment.before u outcome := by
    intro u outcome concludes sameRun kills
    exact spared (.inr (by rw [concludes]; exact decide_eq_true ⟨sameRun, kills⟩))
  cases dies with
  | failed concludes fails =>
    exact .inr ⟨_, concludes, fails, fun spent =>
      beside concludes rfl (.inr (.inr (.inr ⟨fails, spent⟩)))⟩
  | raised isKilled => exact .inl isKilled
  | stranded isStranded =>
    exact absurd (.inl (by rw [isStranded]; exact decide_eq_true rfl)) spared
  | consumed concludes sameRun fires => exact absurd (.inl fires) (beside concludes sameRun)
  | @terminated u outcome concludes sameRun other terminates live =>
    refine absurd (.inr (.inl ⟨terminates, t.index, ?_, other, ?_⟩)) (beside concludes sameRun)
    · obtain ⟨token, found, -⟩ := (Option.any_eq_true ..).mp live
      obtain ⟨run, foundRun, placed⟩ := Option.bind_eq_some_iff.mp found
      rw [sameRun, tokensOf_eq foundRun]
      exact List.mem_range.mpr (List.getElem?_eq_some_iff.mp placed).1
    · rwa [sameRun]
  | exceeded concludes advances exceeds =>
    exact absurd (.inr (.inr (.inl ⟨advances, exceeds⟩))) (beside concludes rfl)

theorem dead_of_diedOfFailure (steps : Continues host { now := db } world)
    (passed : world.states[k]? = some state) {m : Nat} {moment : Moment Event Db} (earlier : m < k)
    (isPast : world.past[m]? = some moment) (fails : NodeFailed host t moment)
    (lies : ∀ (j : Nat) (later : Moment Event Db), m < j → j < k → world.past[j]? = some later →
      ¬ later.event.revives t) :
    ∃ site site', siteOf moment.before t = some site ∧ siteOf state t = some site' ∧
      site'.token.status = .dead ∧ site'.token.nodeId = site.token.nodeId := by
  obtain ⟨-, next, isNext, step⟩ := steps.stepAt (Nat.zero_le m) isPast
  obtain ⟨site, token', isSite, found', dead, sameNode⟩ := step.dead_of_nodeFailed fails
  obtain ⟨site', isSite', -, -, rfl⟩ := step.siteOf_of_nodeId isSite found' sameNode
  have lying : LiesDead t next state :=
    steps.relates (fun moment => ¬ moment.event.revives t) (LiesDead.refl t)
      (fun _ _ _ => LiesDead.trans) (fun _ _ _ step lies => step.liesDead lies)
      (Nat.zero_le (m + 1)) (Nat.succ_le_of_lt earlier) isNext passed
      fun j later low high isLater => lies j later (Nat.lt_of_succ_le low) high isLater
  obtain ⟨site'', isSite'', -, token⟩ := lying site' isSite' dead
  exact ⟨site, site'', isSite, isSite'', by rw [token, dead], by rw [token, sameNode]⟩

end Lying

/-! ## From the retry to the next dispatch -/

section Turn

variable {host : Host} {db db' : Db} {event : Event} {t : TokenId}

theorem EngineStep.retried_at (step : EngineStep host db event db') {runId : RunId}
    (retries : event.retried? = some runId) {token : Token} (sameRun : t.run = runId)
    (found : db.token? t = some token) : db'.token? t = some token.reactivate := by
  cases step with
  | retried isFailed =>
    cases retries
    obtain ⟨run, foundRun, placed⟩ := Option.bind_eq_some_iff.mp found
    rw [← sameRun, reactivateDead, Db.token?, runs_modifyRun_self, foundRun, map_some, bind_some]
    change (run.tokens.map Token.reactivate)[t.index]? = _
    rw [getElem?_map, placed, map_some]
  | _ => cases retries

def AwaitsTurn (t : TokenId) (before after : Db) : Prop :=
  ∀ site, siteOf before t = some site → site.token.unparked →
    ∃ site', siteOf after t = some site' ∧ site'.node = site.node ∧ site'.token.unparked ∧
      site'.token.data = { site.token.data with error := site'.token.data.error }

theorem AwaitsTurn.refl (t : TokenId) (db : Db) : AwaitsTurn t db db :=
  fun site isSite unparked => ⟨site, isSite, rfl, unparked, rfl⟩

theorem AwaitsTurn.trans {first second third : Db} (left : AwaitsTurn t first second)
    (right : AwaitsTurn t second third) : AwaitsTurn t first third := by
  intro site isSite unparked
  obtain ⟨site', isSite', node, unparked', data⟩ := left site isSite unparked
  obtain ⟨site'', isSite'', node', unparked'', data'⟩ := right site' isSite' unparked'
  exact ⟨site'', isSite'', node'.trans node, unparked'', by rw [data', data]⟩

theorem EngineStep.awaitsTurn (step : EngineStep host db event db')
    (elsewhere : event.advances? ≠ some t) : AwaitsTurn t db db' := by
  intro site isSite unparked
  obtain ⟨rfl, located⟩ := at_of_siteOf isSite
  obtain ⟨token', found', visit⟩ := step.sameVisit located.token? elsewhere
  obtain ⟨site', isSite', -, node, rfl⟩ := step.siteOf_of_nodeId isSite found' visit.nodeId
  obtain ⟨unparked', data⟩ := visit.unparked unparked
  exact ⟨site', isSite', node, unparked', data⟩

/-- **A token handed to its node is dispatched at its site.** -/
theorem EngineStep.dispatches_at (step : EngineStep host db event db')
    (dispatches : event.dispatches? = some t) {site : Site} (isSite : siteOf db t = some site) :
    ∃ result, dispatch host db site = .ok result ∧
      event = (match result with
        | .outcome _ outcome => .advanced site.t outcome
        | .child _ childId => .called site.t childId) := by
  obtain ⟨sameT, located⟩ := at_of_siteOf isSite
  cases step with
  | @unversioned u run found running missing =>
    obtain rfl : u = t := some.inj dispatches
    obtain ⟨version, versioned, -⟩ := located.version
    rw [← sameT] at found
    cases located.run.symm.trans found
    cases versioned.symm.trans missing
  | @misplaced u run token version found placed running versioned missing =>
    obtain rfl : u = t := some.inj dispatches
    obtain ⟨version', versioned', model⟩ := located.version
    subst sameT
    cases located.run.symm.trans found
    cases located.token.symm.trans placed
    cases versioned'.symm.trans versioned
    rw [← model] at missing
    cases located.node.symm.trans missing
  | @advanced db' site' outcome located' running dispatched =>
    obtain rfl : site'.t = t := some.inj dispatches
    cases (siteOf_of_at located').symm.trans isSite
    exact ⟨_, dispatched, rfl⟩
  | @called db' site' childId located' running dispatched =>
    obtain rfl : site'.t = t := some.inj dispatches
    cases (siteOf_of_at located').symm.trans isSite
    exact ⟨_, dispatched, rfl⟩
  | _ => cases dispatches

end Turn

/-! ## A dispatch without marks -/

section Anew

variable {host : Host} {db : Db} {site : Site}

theorem dispatch_of_action? {actionType : String} (acts : site.node.action? = some actionType) :
    dispatch host db site = .ok (.of (dispatchAction host db site actionType)) := by
  unfold WorkflowNode.action? at acts
  split at acts
  · rename_i isTask
    split at acts
    all_goals first | cases acts | skip
    all_goals
      rename_i isType
      obtain ⟨wired, named⟩ := filter_eq_some_iff.mp acts
      have notEmpty : actionType ≠ "" := of_decide_eq_true named
      simp only [dispatch, isTask, dispatchTask, isType, wired]
  · cases acts

theorem attemptsSoFar_recordAttempt (data : TokenData) (nodeId : NodeId) (attempt : Nat) :
    (data.recordAttempt nodeId attempt).attemptsSoFar nodeId = attempt := by
  simp [TokenData.attemptsSoFar, TokenData.recordAttempt]

theorem dispatchAction_anew {actionType : String} (left : site.run.stepSeq < host.maxRunSteps)
    (fresh : site.token.data.attemptsSoFar site.node.id = 0) :
    (dispatchAction host db site actionType).1.calls =
        db.calls ++ [handlerCall db site actionType] ∧
      ((host.execute db.calls (handlerCall db site actionType)).ok = false →
        1 < (readPolicy site.node.data.retry).maxAttempts →
        (dispatchAction host db site actionType).2.kind = .park ∧
          (dispatchAction host db site actionType).2.waitKind = some .retry ∧
          (dispatchAction host db site actionType).2.tokenData.map
            (TokenData.attemptsSoFar · site.node.id) = some 1) := by
  unfold dispatchAction
  rw [if_neg (not_le.mpr left)]
  dsimp only
  split
  · rename_i succeeds
    refine ⟨rfl, fun fails => ?_⟩
    rw [fails] at succeeds
    cases succeeds
  · rw [fresh]
    split
    · exact ⟨rfl, fun _ _ => ⟨rfl, rfl, congrArg some (attemptsSoFar_recordAttempt ..)⟩⟩
    · rename_i exhausted
      refine ⟨?_, fun _ several => absurd several exhausted⟩
      unfold actionFailed
      split
      · rfl
      · split <;> rfl

/-- **A token without marks makes its node do its work anew.** -/
theorem doesItsWork_of_unmarked {result : Dispatched} (dispatched : dispatch host db site = .ok result)
    (left : site.run.stepSeq < host.maxRunSteps) (unlinked : site.token.data.unlinked)
    (fresh : site.token.data.attemptsSoFar site.node.id = 0) : DoesItsWork host db site result where
  acts actionType acts := by
    cases (dispatch_of_action? acts).symm.trans dispatched
    exact ⟨_, _, rfl, dispatchAction_anew left fresh⟩
  enqueues isAgent agentId binds := by
    obtain ⟨uncompleted, noResult, noRun⟩ := unlinked
    rw [isNone_iff_eq_none] at noResult noRun
    simp only [dispatch, isTask_of_taskType isAgent, dispatchTask, isAgent, dispatchAgent,
      uncompleted, noResult, noRun, if_neg (not_le.mpr left), binds] at dispatched
    obtain ⟨enqueued, isEnqueued, rfl⟩ := Fallible.map_eq_ok.mp dispatched
    exact ⟨enqueued, isEnqueued, rfl⟩
  starts isCall := by
    refine Except.ok.inj (dispatched.symm.trans ?_)
    rcases isCall with call | call <;>
      simp [dispatch, isTask_of_taskType call, dispatchTask, call, unlinked.1]

end Anew

/-! ## A clean retry -/

section Clean

variable {host : Host} {db : Db} {world : World} {k : Nat} {runId : RunId} {moment : Moment Event Db}
  {t : TokenId} {token : Token}

theorem mem_tokensOf {state : Db} (found : state.token? t = some token) :
    token ∈ tokensOf state t.run := by
  obtain ⟨run, foundRun, placed⟩ := Option.bind_eq_some_iff.mp found
  rw [tokensOf_eq foundRun]
  exact mem_of_getElem? placed

theorem CleanRetry.diedOfFailure_of_dead (clean : CleanRetry host world k t.run moment.before)
    (steps : Continues host { now := db } world) (empty : db.runs = [])
    (passed : world.states[k]? = some moment.before) (found : moment.before.token? t = some token)
    (dead : token.status = .dead) : DiedOfFailure host world k t token.nodeId := by
  obtain ⟨m, death, earlier, isPast, dies, lies⟩ := diesBy_of_dead steps empty passed found dead
  have fails : NodeFailed host t death :=
    nodeFailed_of_diesBy dies (clean.noBystanders m death earlier isPast)
  obtain ⟨site, site', isSite, isSite', -, sameNode⟩ :=
    dead_of_diedOfFailure steps passed earlier isPast fails lies
  obtain ⟨rfl, located⟩ := at_of_siteOf isSite
  obtain ⟨sameT, located'⟩ := at_of_siteOf isSite'
  rw [← sameT] at found
  cases located'.token?.symm.trans found
  refine ⟨m, death, earlier, isPast, fails, ?_, lies⟩
  rw [located.token?, sameNode]
  exact decide_eq_true rfl

theorem DiedOfFailure.dead {nodeId : NodeId} (died : DiedOfFailure host world k t nodeId)
    (steps : Continues host { now := db } world) (passed : world.states[k]? = some moment.before)
    (found : moment.before.token? t = some token) :
    token.status = .dead ∧ ∃ site, siteOf moment.before t = some site ∧ site.token = token := by
  obtain ⟨m, death, earlier, isPast, fails, -, lies⟩ := died
  obtain ⟨site, site', -, isSite', dead, -⟩ :=
    dead_of_diedOfFailure steps passed earlier isPast fails lies
  obtain ⟨rfl, located⟩ := at_of_siteOf isSite'
  cases located.token?.symm.trans found
  exact ⟨dead, site', isSite', rfl⟩

theorem CleanRetry.executesAnew (clean : CleanRetry host world k t.run moment.before)
    (steps : Continues host { now := db } world) (isPast : world.past[k]? = some moment)
    (retries : moment.event.retried? = some t.run) (found : moment.before.token? t = some token)
    (dead : token.status = .dead) {site : Site} (isSite : siteOf moment.before t = some site)
    (isToken : site.token = token) {m : Nat} {turn : Moment Event Db}
    (next : NextDispatch world k t m turn) :
    ∃ site', siteOf turn.before t = some site' ∧ site'.node.id = token.nodeId ∧
      ExecutesAnew host site' turn := by
  subst isToken
  obtain ⟨-, after, isAfter, step⟩ := steps.stepAt (Nat.zero_le k) isPast
  have reactivated : after.token? t = some site.token.reactivate :=
    step.retried_at retries rfl found
  have active : site.token.reactivate =
      { site.token with status := .active, leasedAt := none, resumeAt := none } := if_pos dead
  obtain ⟨site₁, isSite₁, -, node₁, token₁⟩ :=
    step.siteOf_of_nodeId isSite reactivated (by rw [active])
  obtain ⟨turnAt, _, _, turnStep⟩ := steps.stepAt (Nat.zero_le m) next.found
  have waits : AwaitsTurn t after turn.before :=
    steps.relates (fun moment => moment.event.advances? ≠ some t) (AwaitsTurn.refl t)
      (fun _ _ _ => AwaitsTurn.trans) (fun _ _ _ step elsewhere => step.awaitsTurn elsewhere)
      (Nat.zero_le (k + 1)) (Nat.succ_le_of_lt next.after) isAfter turnAt
      fun j between low high => next.first j between (Nat.lt_of_succ_le low) high
  obtain ⟨site₂, isSite₂, node₂, -, data⟩ := waits site₁ isSite₁
    (by rw [token₁, active]; exact ⟨nofun, nofun⟩)
  rw [token₁, active] at data
  have sameNode : site₂.node = site.node := node₂.trans node₁
  obtain ⟨-, located⟩ := at_of_siteOf isSite
  obtain ⟨unlinked, fresh⟩ := clean.unmarked site.token (mem_tokensOf found) dead
  obtain ⟨result, dispatched, isEvent⟩ := turnStep.dispatches_at next.dispatches isSite₂
  refine ⟨site₂, isSite₂, by rw [sameNode, located.nodeId], result, dispatched, isEvent, ?_⟩
  refine doesItsWork_of_unmarked dispatched ?_ (by rw [data]; exact unlinked) ?_
  · have left := clean.stepsLeft t site.token m turn rfl found dead next
    obtain ⟨sameT, located₂⟩ := at_of_siteOf isSite₂
    rw [← sameT, located₂.run] at left
    exact of_decide_eq_true left
  · rwa [data, sameNode, ← located.nodeId]

end Clean

/-- **A retry redoes exactly the failed work** when every dead token of its run died by the
failure of its node, carries no mark of it, and finds a step left. -/
theorem redoesFailedWork_of_clean (host : Host) (db : Db) (actions : List Action)
    (empty : db.runs = []) (k : Nat) (moment : Moment Event Db) (runId : RunId)
    (isPast : (execute host db actions).past[k]? = some moment)
    (retries : moment.event.retried? = some runId)
    (clean : CleanRetry host (execute host db actions) k runId moment.before) :
    RedoesFailedWork host (execute host db actions) k runId moment.before := by
  have steps : Continues host { now := db } (execute host db actions) := execute_steps ..
  obtain ⟨passed, next, isNext, step⟩ := steps.stepAt (Nat.zero_le k) isPast
  refine ⟨?_, ?_⟩
  · rintro t token rfl found
    refine ⟨next, isNext, step.retried_at retries rfl found, ?_, ?_⟩
    · exact clean.diedOfFailure_of_dead steps empty passed found
    · exact fun died => (died.dead steps passed found).1
  · rintro t token rfl found dead m turn turns
    have died := clean.diedOfFailure_of_dead steps empty passed found dead
    obtain ⟨-, site, isSite, isToken⟩ := died.dead steps passed found
    exact clean.executesAnew steps isPast retries found dead isSite isToken turns

/-! ## A charge that fails -/

/-- A charge, after a fork and a join or at once. -/
def chargeDefinition (joins : Bool) : WorkflowDefinitionModel where
  schemaVersion := 2
  nodes := [{ id := "start", type := .trigger },
    { id := "join", type := .gateway, data := { gatewayType := some .parallel } },
    { id := "charge", type := .task
      data := { taskType := some .service, actionType := some "charge" } }]
  edges :=
    if joins then
      [{ source := "start", target := "join" },
        { source := "start", target := "join", sourceHandle := some "again" },
        { source := "join", target := "charge" }]
    else [{ source := "start", target := "charge" }]
  ids_nodup := by decide
  sources_known := by cases joins <;> decide
  targets_known := by cases joins <;> decide

/-- The charge fails, and its run is retried. -/
def chargeWorld (joins : Bool) : World :=
  execute (.failingAt ["charge"]) { versions := [{ definition := chargeDefinition joins }] }
    [.launch { workflowId := 0, versionId := 0 }, .drive 0, .retry 0]

/-- The charge alone is redone. -/
theorem redoesFailedWork_chargeWorld :
    ∃ moment, (chargeWorld false).past[5]? = some moment ∧ moment.event.retried? = some 0 ∧
      RedoesFailedWork (.failingAt ["charge"]) (chargeWorld false) 5 0 moment.before := by
  have retry : (chargeWorld false).past[5]?.any fun moment =>
      moment.event.retried? = some 0 ∧
        ∀ token ∈ tokensOf moment.before 0, token.status = .dead → token.unmarked := by decide
  have spared : ∀ moment ∈ (chargeWorld false).past,
      ¬ Bystanders (.failingAt ["charge"]) 0 moment := by decide
  have left : ∀ moment ∈ (chargeWorld false).past.drop 1,
      moment.before.runs[0]?.any fun run => run.stepSeq < 200 := by decide
  obtain ⟨moment, isPast, isRetry⟩ := (Option.any_eq_true ..).mp retry
  obtain ⟨retries, unmarked⟩ := of_decide_eq_true isRetry
  refine ⟨moment, isPast, retries, redoesFailedWork_of_clean _ _ _ rfl 5 moment 0 isPast retries ?_⟩
  refine ⟨fun m earlier _ found => spared earlier (mem_of_getElem? found), unmarked, ?_⟩
  intro t token m turn _ _ _ next
  refine left turn (mem_of_getElem? (i := m - 1) ?_)
  rw [getElem?_drop, Nat.add_sub_cancel' (Nat.one_le_of_lt next.after)]
  exact next.found

/-- After a join the tokens it consumed come back too. -/
theorem not_redoesFailedWork_chargeWorld :
    ∃ moment, (chargeWorld true).past[9]? = some moment ∧ moment.event.retried? = some 0 ∧
      ¬ RedoesFailedWork (.failingAt ["charge"]) (chargeWorld true) 9 0 moment.before := by
  have retry : (chargeWorld true).past[9]?.any fun moment =>
      moment.event.retried? = some 0 ∧
        (moment.before.token? ⟨0, 1⟩).any fun token => token.status = .dead := by decide
  have unfailed : ∀ moment ∈ (chargeWorld true).past, moment.event.killed? ≠ some ⟨0, 1⟩ ∧
      ∀ conclusion ∈ moment.event.concluded?, conclusion.1 = ⟨0, 1⟩ →
        conclusion.2.kind ≠ .fail := by decide
  obtain ⟨moment, isPast, isRetry⟩ := (Option.any_eq_true ..).mp retry
  obtain ⟨retries, lies⟩ := of_decide_eq_true isRetry
  obtain ⟨token, found, dead⟩ := (Option.any_eq_true ..).mp lies
  refine ⟨moment, isPast, retries, fun redoes => ?_⟩
  obtain ⟨_, _, _, died⟩ := redoes.reactivates ⟨0, 1⟩ token rfl found
  obtain ⟨m, death, _, isDeath, fails, _⟩ := died.mp (of_decide_eq_true dead)
  obtain ⟨unkilled, unfails⟩ := unfailed death (mem_of_getElem? isDeath)
  rcases fails with isKilled | ⟨outcome, concludes, isFail, _⟩
  · exact unkilled isKilled
  · exact unfails _ concludes rfl isFail

end RedArchKM.Workflow
