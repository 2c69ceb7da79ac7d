import RedArchKM.Workflow.Execution

/-!
# What a step does to the tokens of a run

A step changes the tokens of the run it works on in one of a few ways (`TokensStep`): it sets a
token that is in no buffer active or running, it kills one, it retries the dead ones, or it
handles one at its node and moves it on. Tokens of other runs are woken at most, and a new run
starts with one token at each trigger (`EngineStep.run_cases`). What holds of the tokens of a
run is therefore proved against `TokensStep` alone.
-/

namespace RedArchKM.Workflow

open Lib List Option

/-! ## Runs are added by starts only -/

section Length

variable {db : Db} {runId : RunId}

@[simp] theorem length_modifyRun (change : Run → Run) :
    (db.modifyRun runId change).runs.length = db.runs.length := length_modify ..

@[simp] theorem length_modifyToken (t : TokenId) (change : Token → Token) :
    (db.modifyToken t change).runs.length = db.runs.length := length_modifyRun _

@[simp] theorem length_signalParent : (signalParent db runId).runs.length = db.runs.length := by
  unfold signalParent
  split
  · rfl
  · split <;> simp

@[simp] theorem length_finishRun (status : RunStatus) :
    (finishRun db runId status).runs.length = db.runs.length := by simp [finishRun]

@[simp] theorem length_failRun (error : String) :
    (failRun db runId error).runs.length = db.runs.length := by
  simp [failRun, Db.cancelRunsForWorkflowRun]

@[simp] theorem length_settleRun : (settleRun db runId).runs.length = db.runs.length := by
  unfold settleRun
  split
  · rfl
  · split
    · rfl
    · split
      · simp
      · split <;> simp

@[simp] theorem length_applyOutcome (site : Site) (outcome : NodeOutcome) :
    (applyOutcome db site outcome).runs.length = db.runs.length := by
  simp only [applyOutcome]
  split
  · simp [Db.setVariables]
  · simp [Db.setVariables]
  · simp [Db.setVariables]
  · simp [Db.setVariables]
  · simp [Db.setVariables, Db.cancelRunsForWorkflowRun, Db.killAll]
  all_goals
    split
    · simp [Db.setVariables]
    · unfold applyTargets
      split
      · split <;> simp [Db.setVariables, createTokens]
      · simp [Db.setVariables, createTokens]

@[simp] theorem length_conclude (site : Site) (outcome : NodeOutcome) :
    (conclude db site outcome).runs.length = db.runs.length := by simp [conclude]

theorem DispatchedBy.length {site : Site} {result : Db × NodeOutcome}
    (how : DispatchedBy db site result) : result.1.runs.length = db.runs.length := by
  cases how with
  | ordinary ordinary => exact ordinary.books.length
  | parallel _ fired =>
    subst fired
    simp only [parallelJoin]
    split <;> simp [killBuffered]
  | inclusive _ fired =>
    subst fired
    simp only [inclusiveJoin]
    split <;> simp [killBuffered]

@[simp] theorem length_startRun (definition : WorkflowDefinitionModel) :
    (startRun db runId definition).runs.length = db.runs.length := by
  unfold startRun
  split <;> simp

end Length

/-- A run as it is started: one active token at each trigger of its version. -/
structure Started (db : Db) (run : Run) : Prop where
  version : ∃ version, db.versions[run.versionId]? = some version ∧
    run.tokens = (normalize version.definition).triggers.map fun trigger =>
      { nodeId := trigger.id }
  stepSeq : run.stepSeq = 0

theorem run_failRun {db : Db} {runId : RunId} {run : Run} (found : db.runs[runId]? = some run)
    (error : String) :
    ∃ run', (failRun db runId error).runs[runId]? = some run' ∧
      Stirred { run with status := .failed, error := some error } run' := by
  have touches : Touches (fun _ => False)
      ((db.modifyRun runId fun run => { run with status := .failed, error := some error })
        |>.cancelRunsForWorkflowRun runId s!"workflow run failed: {error}")
      (failRun db runId error) := touches_signalParent
  refine touches.stirred id ?_
  rw [Db.cancelRunsForWorkflowRun, runs_modifyRun_self, found]
  rfl

theorem startRun_createRun {db : Db} {run : Run} {version : WorkflowVersion}
    (empty : run.tokens = []) (unstepped : run.stepSeq = 0)
    (versioned : db.versions[run.versionId]? = some version) :
    ∃ run', (startRun (createRun db run) db.runs.length version.definition).runs[db.runs.length]? =
      some run' ∧ Kept run run' ∧ Started db run' := by
  have created : (createRun db run).runs[db.runs.length]? = some run := by simp [createRun]
  unfold startRun
  split
  · rename_i noTrigger
    obtain ⟨run', found, stirred⟩ := run_failRun created "no trigger node"
    have marked : Kept run { run with status := .failed, error := some "no trigger node" } :=
      ⟨rfl, rfl, rfl, rfl, rfl, rfl, le_rfl, le_rfl⟩
    have kept : Kept run run' := marked.trans stirred.kept
    have noTokens : run'.tokens = [] := by
      have length := stirred.tokens.length
      rw [empty] at length
      exact length_eq_zero_iff.mp length
    exact ⟨run', found, kept, ⟨version, by rw [kept.versionId, versioned],
      by rw [noTokens, noTrigger, map_nil]⟩, by rw [stirred.stepSeq, unstepped]⟩
  · refine ⟨{ run with
        tokens := run.tokens ++ (normalize version.definition).triggers.map fun trigger =>
          { nodeId := trigger.id } }, by rw [runs_modifyRun_self, created]; rfl,
      kept_tokens (by simp), ⟨version, versioned, ?_⟩, unstepped⟩
    rw [empty, nil_append]

/-! ## The tokens after a dispatch -/

def Token.buffered (token : Token) : Prop :=
  token.status = .waiting ∧ token.waitKind = some .join

variable {token : Token}

theorem unbuffered_of_status (status : TokenStatus) (is : token.status = status)
    (other : status ≠ .waiting) : ¬ token.buffered :=
  fun buffered => other (is.symm.trans buffered.1)

/-- The tokens of the run once the node has handled its token, and before the outcome is
applied. -/
inductive Handled (site : Site) (outcome : NodeOutcome) : List Token → Prop where
  | plain (plain : Plain outcome)
      (node : ∀ gatewayType ∈ [GatewayType.parallel, .inclusive], ¬ site.joins gatewayType) :
      Handled site outcome site.run.tokens
  | parallelWaits (joins : site.joins .parallel) (waits : outcome = { kind := .noop })
      (incomplete : joinComplete (site.model.incomingEdges site.node.id)
        ((arrived site site.run.tokens).filter fun token => token.bufferedAt site.node.id) =
          false) :
      Handled site outcome (arrived site site.run.tokens)
  | parallelFires (joins : site.joins .parallel)
      (fires : outcome = { kind := .emit, targets := site.outEdges })
      (complete : joinComplete (site.model.incomingEdges site.node.id)
        ((arrived site site.run.tokens).filter fun token => token.bufferedAt site.node.id) =
          true) :
      Handled site outcome (consumed site.node.id (arrived site site.run.tokens))
  | inclusiveWaits (joins : site.joins .inclusive) (waits : outcome = { kind := .noop })
      (awaited : ∃ token ∈ arrived site site.run.tokens, token.elsewhere site.node.id ∧
        Reach.Reaches site.model.adjacency token.nodeId site.node.id) :
      Handled site outcome (arrived site site.run.tokens)
  | inclusiveFires (joins : site.joins .inclusive)
      (fires : outcome = { kind := .emit, targets := site.outEdges }) :
      Handled site outcome (consumed site.node.id (arrived site site.run.tokens))

theorem DispatchedBy.handled {db : Db} {site : Site} {result : Db × NodeOutcome}
    (how : DispatchedBy db site result) (found : db.runs[site.t.run]? = some site.run) :
    ∃ run', result.1.runs[site.t.run]? = some run' ∧ Handled site result.2 run'.tokens := by
  cases how with
  | ordinary ordinary node =>
    obtain ⟨run', found', same, -⟩ := ordinary.books.run found
    exact ⟨run', found', by rw [same.tokens]; exact .plain ordinary.plain node⟩
  | parallel joins fired =>
    subst fired
    rcases parallelJoin_cases found _ with ⟨complete, found', fires⟩ | ⟨waiting, found', waits⟩
    · exact ⟨_, found', .parallelFires joins fires complete⟩
    · exact ⟨_, found', .parallelWaits joins waits waiting⟩
  | inclusive joins fired =>
    subst fired
    rcases inclusiveJoin_cases found with ⟨-, found', fires⟩ | ⟨awaited, found', waits⟩
    · exact ⟨_, found', .inclusiveFires joins fires⟩
    · exact ⟨_, found', .inclusiveWaits joins waits awaited⟩

/-! ## Where the tokens of the run end up -/

section After

variable {site : Site} {outcome : NodeOutcome} {tokens : List Token} {index : Nat} {token : Token}

theorem getElem?_tokensAfter_of_ne (found : tokens[index]? = some token)
    (other : site.t.index ≠ index) (goesOn : outcome.kind ≠ .terminate) :
    (tokensAfter site outcome tokens)[index]? = some token := by
  have modified : ∀ change : Token → Token,
      (tokens.modify site.t.index change)[index]? = some token := fun change => by
    rw [getElem?_modify_ne _ _ other, found]
  have appended : ∀ (kept more : List Token), kept[index]? = some token →
      (kept ++ more)[index]? = some token := fun kept more kept_at => by
    rw [List.getElem?_append_left (List.getElem?_eq_some_iff.mp kept_at).1, kept_at]
  unfold tokensAfter
  split
  · exact found
  · exact modified _
  · exact modified _
  · exact modified _
  · rename_i terminates
    exact absurd terminates goesOn
  all_goals
    split
    · exact modified _
    · unfold tokensMoved
      split
      · split
        · exact modified _
        · exact appended _ _ (modified _)
      · exact appended _ _ found

theorem exists_target_tokensAfter (moves : outcome.kind = .advance ∨ outcome.kind = .emit)
    (within : tokens.length + outcome.targets.length ≤ maxTokensPerRun)
    (placed : tokens[site.t.index]? = some token) {target : NodeId × Option String}
    (member : target ∈ outcome.targets) :
    ∃ moved ∈ tokensAfter site outcome tokens, moved.nodeId = target.1 ∧ moved.status = .active := by
  have branch : Token.onEdge site.node.id (branchDepth site.token outcome) target ∈
      branches site outcome := mem_map_of_mem member
  rcases moves with kind | kind
  · simp only [tokensAfter, tokensMoved, kind, if_neg (not_lt.mpr within)]
    split
    · rename_i only targets
      rw [targets] at member
      obtain rfl := mem_singleton.mp member
      refine ⟨Token.moveTo site.node.id target outcome.tokenData token, ?_, rfl, rfl⟩
      exact List.mem_of_getElem? (i := site.t.index) (by simp [placed])
    · exact ⟨_, mem_append_right _ branch, rfl, rfl⟩
  · simp only [tokensAfter, tokensMoved, kind, if_neg (not_lt.mpr within)]
    exact ⟨_, mem_append_right _ branch, rfl, rfl⟩

theorem status_kill (token : Token) : token.kill.status ≠ .waiting := by
  intro waiting
  unfold Token.kill at waiting
  split at waiting
  · cases waiting
  · rename_i ended
    rw [waiting] at ended
    exact absurd rfl ended

/-- An outcome parks the token it is about at most; the others that wait did so before. -/
theorem mem_of_waiting_tokensAfter (member : token ∈ tokensAfter site outcome tokens)
    (waiting : token.status = .waiting) :
    token ∈ tokens ∨ outcome.kind = .park ∧ ∃ before, tokens[site.t.index]? = some before ∧
      token = before.park outcome := by
  have modified : ∀ {change : Token → Token}, token ∈ tokens.modify site.t.index change →
      token ∈ tokens ∨ ∃ before, tokens[site.t.index]? = some before ∧ token = change before := by
    intro change member
    obtain ⟨place, found⟩ := mem_iff_getElem?.mp member
    rw [getElem?_modify] at found
    by_cases here : site.t.index = place
    · subst here
      obtain ⟨before, isBefore, rfl⟩ := map_eq_some_iff.mp found
      rw [if_pos rfl]
      exact .inr ⟨before, isBefore, rfl⟩
    · simp only [if_neg here, Option.map_eq_map, Option.map_id'] at found
      exact .inl (List.mem_of_getElem? found)
  have awake : ∀ (status : TokenStatus) {change : Token → Token}, status ≠ .waiting →
      (∀ token, (change token).status = status) →
      token ∈ tokens.modify site.t.index change → token ∈ tokens := by
    intro status change other becomes member
    rcases modified member with old | ⟨before, -, rfl⟩
    · exact old
    · exact absurd ((becomes before).symm.trans waiting) other
  have branched : token ∉ branches site outcome := by
    intro isBranch
    obtain ⟨target, -, rfl⟩ := mem_map.mp isBranch
    cases waiting
  unfold tokensAfter at member
  split at member
  · exact .inl member
  · rename_i kind
    exact (modified member).imp id fun parked => ⟨kind, parked⟩
  · exact .inl (awake .completed nofun (fun _ => rfl) member)
  · exact .inl (awake .dead nofun (fun _ => rfl) member)
  · obtain ⟨before, -, rfl⟩ := mem_map.mp member
    exact absurd waiting (status_kill before)
  all_goals
    refine .inl ?_
    split at member
    · exact awake .dead nofun (fun _ => rfl) member
    · unfold tokensMoved at member
      split at member
      · split at member
        · exact awake .active nofun (fun _ => rfl) member
        · refine (mem_append.mp member).elim ?_ fun new => absurd new branched
          exact awake .completed nofun fun _ => rfl
      · exact (mem_append.mp member).resolve_right branched

theorem mem_of_buffered_tokensAfter (parks : outcome.kind = .park → outcome.waitKind ≠ some .join)
    (member : token ∈ tokensAfter site outcome tokens) (buffered : token.buffered) :
    token ∈ tokens := by
  rcases mem_of_waiting_tokensAfter member buffered.1 with old | ⟨kind, before, -, rfl⟩
  · exact old
  · exact absurd buffered.2 (parks kind)

theorem not_buffered_of_terminate (terminates : outcome.kind = .terminate)
    (member : token ∈ tokensAfter site outcome tokens) : ¬ token.buffered := by
  intro buffered
  simp only [tokensAfter, terminates] at member
  obtain ⟨before, -, rfl⟩ := mem_map.mp member
  exact status_kill before buffered.1

theorem getElem?_arrived_of_ne (found : tokens[index]? = some token)
    (other : site.t.index ≠ index) : (arrived site tokens)[index]? = some token := by
  rw [arrived, getElem?_modify_ne _ _ other, found]

theorem getElem?_consumed_of_not_bufferedAt {nodeId : NodeId} (found : tokens[index]? = some token)
    (outside : ¬ token.bufferedAt nodeId) : (consumed nodeId tokens)[index]? = some token := by
  rw [consumed, getElem?_map, found, map_some, if_neg outside]

theorem mem_of_buffered_consumed {nodeId : NodeId} (member : token ∈ consumed nodeId tokens)
    (buffered : token.buffered) : token ∈ tokens ∧ token.nodeId ≠ nodeId := by
  obtain ⟨before, isBefore, rfl⟩ := mem_map.mp member
  by_cases here : before.bufferedAt nodeId
  · rw [if_pos here] at buffered
    exact absurd buffered (unbuffered_of_status .dead rfl nofun)
  · rw [if_neg here] at buffered ⊢
    exact ⟨isBefore, fun same => here ⟨same, buffered⟩⟩

theorem mem_of_buffered_arrived (member : token ∈ arrived site tokens)
    (placed : tokens[site.t.index]? = some site.token) :
    token ∈ tokens ∨ token = site.token.toBuffer := by
  obtain ⟨place, found⟩ := mem_iff_getElem?.mp member
  rw [arrived, getElem?_modify] at found
  by_cases here : site.t.index = place
  · subst here
    rw [placed] at found
    simp only [if_true] at found
    exact .inr (Option.some.inj found).symm
  · simp only [if_neg here, Option.map_eq_map, Option.map_id'] at found
    exact .inl (List.mem_of_getElem? found)

theorem getElem?_arrived_self (placed : tokens[site.t.index]? = some site.token) :
    (arrived site tokens)[site.t.index]? = some site.token.toBuffer := by
  rw [arrived, getElem?_modify, placed]
  simp

end After

/-! ## The cases of a step -/

def Event.touched? : Event → Option TokenId
  | .taken t | .claimed t | .released t | .resumed t | .signaled t | .wiredBack t => some t
  | .launched _ | .stranded _ | .advanced _ _ | .called _ _ | .returned _ _ | .killed _
  | .agentEnded _ | .retried _ | .ticked => none

def Event.died? : Event → Option TokenId
  | .stranded t | .killed t => some t
  | .launched _ | .taken _ | .claimed _ | .released _ | .advanced _ _ | .called _ _
  | .returned _ _ | .resumed _ | .signaled _ | .wiredBack _ | .agentEnded _ | .retried _
  | .ticked => none

def Event.concluded? : Event → Option (TokenId × NodeOutcome)
  | .advanced t outcome | .returned t outcome => some (t, outcome)
  | .launched _ | .taken _ | .claimed _ | .released _ | .stranded _ | .called _ _ | .killed _
  | .resumed _ | .signaled _ | .wiredBack _ | .agentEnded _ | .retried _ | .ticked => none

theorem Event.run?_of_concluded {event : Event} {t : TokenId} {outcome : NodeOutcome}
    (concludes : event.concluded? = some (t, outcome)) : event.run? = some t.run := by
  cases event <;> first | (cases concludes; rfl) | cases concludes

/-- The data is the same but for the stamps of a completion or of a linked agent run, and no
completion is taken back. -/
structure Restamped (before after : TokenData) : Prop where
  same : after = { before with
    completed := after.completed
    completionOutput := after.completionOutput
    agentResult := after.agentResult }
  completed : before.completed = true → after.completed = true

theorem Restamped.refl (data : TokenData) : Restamped data data := ⟨rfl, id⟩

theorem AgentRun.restamped_stamp (agentRunId : AgentRunId) (agentRun : AgentRun)
    (data : TokenData) : Restamped data (agentRun.stamp agentRunId data) := by
  unfold AgentRun.stamp
  split
  · exact ⟨rfl, fun _ => rfl⟩
  · exact ⟨rfl, id⟩

/-- A token that is neither buffered nor at its end is set active or running where it is. -/
structure Touched (before after : Token) : Prop where
  nodeId : after.nodeId = before.nodeId
  unbuffered : ¬ before.buffered
  unfinished : before.status ≠ .completed
  awake : after.status = .active ∨ after.status = .running
  data : Restamped before.data after.data
  unstamped : before.status ≠ .waiting → after.data = before.data
  depth : after.depth = before.depth

structure Died (before after : Token) : Prop where
  nodeId : after.nodeId = before.nodeId
  status : after.status = .dead
  data : after.data = { before.data with error := after.data.error }
  depth : after.depth = before.depth

theorem died_withStatus (token : Token) : Died token (token.withStatus .dead) :=
  ⟨rfl, rfl, rfl, rfl⟩

def Token.reactivate (token : Token) : Token :=
  if token.status = .dead then { token with status := .active, leasedAt := none, resumeAt := none }
  else token

/-- What a step does to the tokens of the run it works on. -/
inductive TokensStep (db : Db) (run : Run) : Event → List Token → Prop where
  | touched {event : Event} {t : TokenId} {token : Token} {change : Token → Token}
      (touches : event.touched? = some t) (placed : run.tokens[t.index]? = some token)
      (touched : Touched token (change token)) :
      TokensStep db run event (run.tokens.modify t.index change)
  | died {event : Event} {t : TokenId} {token : Token} {change : Token → Token}
      {woken tokens : List Token} (dies : event.died? = some t)
      (placed : run.tokens[t.index]? = some token) (running : token.status = .running)
      (dead : ∀ token, Died token (change token)) (left : Wakes run.tokens woken)
      (right : Wakes (woken.modify t.index change) tokens) : TokensStep db run event tokens
  | called {t : TokenId} {childId : RunId} {tokens : List Token} (wakes : Wakes run.tokens tokens) :
      TokensStep db run (.called t childId) tokens
  | retried {runId : RunId} : TokensStep db run (.retried runId) (run.tokens.map Token.reactivate)
  | concluded {event : Event} {site : Site} {outcome : NodeOutcome} {handled tokens : List Token}
      (concludes : event.concluded? = some (site.t, outcome)) (located : site.At db)
      (same : site.run = run) (running : site.token.status = .running)
      (handles : Handled site outcome handled)
      (wakes : Wakes (tokensAfter site outcome handled) tokens) : TokensStep db run event tokens

section Cases

variable {host : Host} {db db' : Db} {event : Event}

theorem IsIdle.any {t : TokenId} (idle : IsIdle db t) :
    (db.token? t).any fun token => token.status = .active ∨ token.status = .dead := by
  unfold IsIdle hasStatus at idle
  cases found : db.token? t with
  | none => simp [found] at idle
  | some token => simpa [found] using idle

theorem placed_of_any {t : TokenId} {guard : Token → Bool} {run : Run}
    (passes : (db.token? t).any guard) (found : db.runs[t.run]? = some run) :
    ∃ token, run.tokens[t.index]? = some token ∧ guard token := by
  rw [Db.token?, found, Option.bind_some] at passes
  exact (Option.any_eq_true ..).mp passes

variable {token : Token} {correlationKey : Option AgentRunId} {agentRunId : AgentRunId}

theorem Token.isDue.unbuffered {now : Nat} (due : token.isDue now) : ¬ token.buffered := by
  rintro ⟨waiting, join⟩
  simp [Token.isDue, waiting, join, timedKinds] at due

variable {nodeId : Option NodeId}

theorem Token.isSignalable.unbuffered (signalable : token.isSignalable nodeId correlationKey) :
    ¬ token.buffered := by
  rintro ⟨waiting, join⟩
  simp [Token.isSignalable, waiting, join, signalableKinds] at signalable

theorem Token.isParkedOn.unbuffered (parked : token.isParkedOn agentRunId) : ¬ token.buffered := by
  rintro ⟨waiting, join⟩
  simp [Token.isParkedOn, waiting, join] at parked

theorem Token.isDue.unfinished {now : Nat} (due : token.isDue now) : token.status ≠ .completed := by
  intro completed
  simp [Token.isDue, completed] at due

theorem Token.isSignalable.unfinished (signalable : token.isSignalable nodeId correlationKey) :
    token.status ≠ .completed := by
  intro completed
  simp [Token.isSignalable, completed] at signalable

theorem Token.isParkedOn.unfinished (parked : token.isParkedOn agentRunId) :
    token.status ≠ .completed := by
  intro completed
  simp [Token.isParkedOn, completed] at parked

theorem Token.isSignalable.waiting (signalable : token.isSignalable nodeId correlationKey) :
    token.status = .waiting := by
  by_contra awake
  simp [Token.isSignalable, awake] at signalable

theorem Token.isParkedOn.waiting (parked : token.isParkedOn agentRunId) :
    token.status = .waiting := by
  by_contra awake
  simp [Token.isParkedOn, awake] at parked

theorem touched_of_status {after : Token} {status : TokenStatus} (is : token.status = status)
    (waits : status ≠ .waiting) (completed : status ≠ .completed)
    (awake : after.status = .active ∨ after.status = .running)
    (nodeId : after.nodeId = token.nodeId := by rfl) (data : after.data = token.data := by rfl)
    (depth : after.depth = token.depth := by rfl) : Touched token after where
  nodeId := nodeId
  unbuffered := unbuffered_of_status status is waits
  unfinished same := completed (is.symm.trans same)
  awake := awake
  data := data ▸ .refl _
  unstamped _ := data
  depth := depth

section

variable (step : EngineStep host db event db')

include step

/-- An event that moves a token on has handled it at its node. -/
theorem EngineStep.concludes {t : TokenId} {outcome : NodeOutcome}
    (concluded : event.concluded? = some (t, outcome)) :
    ∃ site between handled, site.t = t ∧ site.At db ∧ site.token.status = .running ∧
      between.runs[t.run]? = some handled ∧ Handled site outcome handled.tokens ∧
      db' = conclude between site outcome := by
  cases step with
  | @advanced between site _ located running dispatched =>
    cases concluded
    rcases dispatch_cases dispatched with ⟨_, _, same, how⟩ | ⟨_, _, same, _⟩
    · cases same
      obtain ⟨handled, found, handles⟩ := how.handled located.run
      exact ⟨site, between, handled, rfl, located, running, found, handles, rfl⟩
    · cases same
  | @returned site childId located running isCall =>
    cases concluded
    have finished : Ordinary site db (finishCall db site childId) := ordinary_finishCall
    obtain ⟨handled, found, same, -⟩ := finished.books.run located.run
    have notGateway : ∀ gatewayType ∈ [GatewayType.parallel, .inclusive],
        ¬ site.joins gatewayType := by
      intro gatewayType _ joins
      have noTask : site.node.taskType = none := by
        rw [WorkflowNode.taskType, joins.1]
        rfl
      rcases isCall with isCall | isCall <;> cases noTask.symm.trans isCall
    refine ⟨site, _, handled, rfl, located, running, found, ?_, rfl⟩
    rw [same.tokens]
    exact .plain finished.plain notGateway
  | _ => cases concluded

/-- **What a step does to the tokens of the run it works on.** -/
theorem EngineStep.tokens_cases {runId : RunId} {run run' : Run} (own : event.run? = some runId)
    (found : db.runs[runId]? = some run) (found' : db'.runs[runId]? = some run') :
    TokensStep db run event run'.tokens := by
  have modified : ∀ {t : TokenId} {change : Token → Token}, t.run = runId →
      db' = db.modifyToken t change → run'.tokens = run.tokens.modify t.index change := by
    rintro t change rfl rfl
    rw [run_modifyToken found] at found'
    cases found'
    rfl
  have guarded : ∀ {t : TokenId} (guard : Token → Bool) {change : Token → Token},
      t.run = runId → event.touched? = some t → (db.token? t).any guard →
      db' = db.modifyToken t change → (∀ token, guard token → Touched token (change token)) →
      TokensStep db run event run'.tokens := by
    intro t guard change sameRun touches passes becomes touched
    obtain ⟨token, placed, isGuarded⟩ := placed_of_any passes (by rw [sameRun]; exact found)
    rw [modified sameRun becomes]
    exact .touched touches placed (touched token isGuarded)
  cases concludes : event.concluded? with
  | some conclusion =>
    obtain ⟨t, outcome⟩ := conclusion
    obtain ⟨site, between, handled, rfl, located, running, foundHandled, handles, rfl⟩ :=
      step.concludes concludes
    obtain rfl : site.t.run = runId :=
      Option.some.inj ((Event.run?_of_concluded concludes).symm.trans own)
    obtain ⟨settled, foundSettled, wakes⟩ : HoldsTokens (conclude between site outcome) _ _ :=
      tokens_conclude foundHandled
    cases foundSettled.symm.trans found'
    exact .concluded concludes located (Option.some.inj (located.run.symm.trans found)) running
      handles wakes
  | none =>
    cases step with
    | launched =>
      cases own
      exact absurd (List.getElem?_eq_some_iff.mp found).1 (lt_irrefl _)
    | taken idle =>
      refine guarded _ (Option.some.inj own) rfl idle.any rfl fun token isIdle => ?_
      rcases of_decide_eq_true isIdle with active | dead
      · exact touched_of_status active nofun nofun (.inr rfl)
      · exact touched_of_status dead nofun nofun (.inr rfl)
    | claimed active =>
      exact guarded _ (Option.some.inj own) rfl active rfl fun token isActive =>
        touched_of_status (of_decide_eq_true isActive) nofun nofun (.inr rfl)
    | released running =>
      exact guarded _ (Option.some.inj own) rfl running rfl fun token isRunning =>
        touched_of_status (of_decide_eq_true isRunning) nofun nofun (.inl rfl)
    | resumed due =>
      exact guarded _ (Option.some.inj own) rfl due rfl fun token isDue =>
        ⟨rfl, Token.isDue.unbuffered isDue, Token.isDue.unfinished isDue, .inl rfl, .refl _,
          fun _ => rfl, rfl⟩
    | wiredBack parked =>
      exact guarded _ (Option.some.inj own) rfl parked rfl fun token isParked =>
        ⟨rfl, Token.isParkedOn.unbuffered isParked, Token.isParkedOn.unfinished isParked, .inl rfl,
          AgentRun.restamped_stamp ..,
          fun other => absurd (Token.isParkedOn.waiting isParked) other, rfl⟩
    | @signaled signaledRun nodeId correlationKey t vars output target =>
      obtain rfl : t.run = runId := Option.some.inj own
      obtain rfl := run_of_signalTarget target
      have signalable : (db.token? t).any (Token.isSignalable nodeId correlationKey) :=
        find?_some (p := fun t => (db.token? t).any _) target
      obtain ⟨token, placed, passes⟩ := placed_of_any signalable found
      have published : (db.setVariables t.run vars).runs[t.run]? =
          some { run with vars := Fields.update run.vars vars } := by
        rw [Db.setVariables, runs_modifyRun_self, found]
        rfl
      rw [run_modifyToken published] at found'
      cases found'
      exact .touched rfl placed ⟨rfl, Token.isSignalable.unbuffered passes,
        Token.isSignalable.unfinished passes, .inl rfl, ⟨rfl, fun _ => rfl⟩,
        fun other => absurd (Token.isSignalable.waiting passes) other, rfl⟩
    | @unversioned t owner foundOwner running missing =>
      obtain rfl : t.run = runId := Option.some.inj own
      obtain ⟨token, placed, isRunning⟩ := placed_of_any running found
      obtain ⟨failedRun, foundFailed, stirred⟩ := run_failRun found "workflow version missing"
      rw [run_modifyToken foundFailed] at found'
      cases found'
      exact .died rfl placed (of_decide_eq_true isRunning) died_withStatus stirred.tokens (.refl _)
    | @misplaced t owner token version foundOwner placed running versioned missing =>
      obtain rfl : t.run = runId := Option.some.inj own
      cases foundOwner.symm.trans found
      have holds : HoldsTokens (db.modifyToken t (Token.withStatus .dead)) t.run _ :=
        ⟨_, run_modifyToken found _, .refl _⟩
      obtain ⟨settled, foundSettled, wakes⟩ := holds.settleRun
      cases foundSettled.symm.trans found'
      exact .died rfl placed running died_withStatus (.refl _) wakes
    | @killed t running =>
      obtain rfl : t.run = runId := Option.some.inj own
      obtain ⟨token, placed, isRunning⟩ := placed_of_any running found
      have sameTokens : run'.tokens = run.tokens.modify t.index fun token =>
          { token with
            status := .dead
            data := { token.data with error := some (.raised "advance error") } } := by
        rw [killToken, Db.cancelRunsForWorkflowRun, runs_modifyRun_self, run_modifyToken found,
          map_some] at found'
        rw [← Option.some.inj found']
        split <;> rfl
      have dies : ∀ token : Token, Died token
          { token with
            status := .dead
            data := { token.data with error := some (.raised "advance error") } } :=
        fun _ => ⟨rfl, rfl, rfl, rfl⟩
      rw [sameTokens]
      exact .died rfl placed (of_decide_eq_true isRunning) dies (.refl _) (.refl _)
    | @called db' site childId located running dispatched =>
      obtain rfl : site.t.run = runId := Option.some.inj own
      rcases dispatch_cases dispatched with ⟨_, _, same, _⟩ | ⟨_, _, same, starts⟩
      · cases same
      · cases same
        obtain ⟨stirredRun, foundStirred, stirred⟩ := starts.touches.stirred
          (not_le.mpr (List.getElem?_eq_some_iff.mp found).1) found
        cases foundStirred.symm.trans found'
        exact .called stirred.tokens
    | retried isFailed =>
      cases own
      have sameTokens : run'.tokens = run.tokens.map Token.reactivate := by
        rw [reactivateDead, runs_modifyRun_self, found, map_some] at found'
        rw [← Option.some.inj found']
        rfl
      rw [sameTokens]
      exact .retried
    | agentEnded | ticked => cases own
    | advanced | returned => cases concludes

theorem EngineStep.length (starts : ∀ runId, event ≠ .launched runId)
    (calls : ∀ t runId, event ≠ .called t runId) : db'.runs.length = db.runs.length := by
  cases step with
  | launched => exact absurd rfl (starts _)
  | called => exact absurd rfl (calls _ _)
  | advanced located running dispatched =>
    rcases dispatch_cases dispatched with ⟨_, _, same, how⟩ | ⟨_, _, same, _⟩
    · cases same
      rw [length_conclude, how.length]
    · cases same
  | @returned site childId located running isCall =>
    have finished : Ordinary site db (finishCall db site childId) := ordinary_finishCall
    rw [length_conclude, finished.books.length]
  | killed => simp [killToken, Db.cancelRunsForWorkflowRun]
  | signaled => simp [Db.setVariables]
  | retried => simp [reactivateDead]
  | taken | claimed | released | unversioned | misplaced | resumed | wiredBack | agentEnded
  | ticked => simp

/-- **What a step does to a run**: the one it works on has its tokens changed, another one is
stirred at most, and a run that is new has just been started. -/
theorem EngineStep.run_cases {runId : RunId} {run' : Run} (found' : db'.runs[runId]? = some run') :
    (∃ run, db.runs[runId]? = some run ∧ event.run? = some runId ∧ Kept run run' ∧
        TokensStep db run event run'.tokens) ∨
      (∃ run, db.runs[runId]? = some run ∧ event.run? ≠ some runId ∧ Stirred run run') ∨
      (db.runs[runId]? = none ∧ Started db run') := by
  cases found : db.runs[runId]? with
  | some run =>
    obtain ⟨after, foundAfter, kept, stirred⟩ := step.touches.runs runId run found
    cases foundAfter.symm.trans found'
    by_cases own : event.run? = some runId
    · exact .inl ⟨run, rfl, own, kept, step.tokens_cases own found found'⟩
    · have inside := (List.getElem?_eq_some_iff.mp found).1
      refine .inr (.inl ⟨run, rfl, own, stirred ?_⟩)
      exact fun either => either.elim own (not_le.mpr inside)
  | none =>
    refine .inr (.inr ⟨rfl, ?_⟩)
    have outside := List.getElem?_eq_none_iff.mp found
    have inside := (List.getElem?_eq_some_iff.mp found').1
    have started : ∀ {run : Run} {version : WorkflowVersion}, run.tokens = [] →
        run.stepSeq = 0 → db.versions[run.versionId]? = some version →
        db' = startRun (createRun db run) db.runs.length version.definition →
        Started db run' := by
      rintro run version empty unstepped versioned rfl
      obtain ⟨first, foundFirst, -, isStarted⟩ := startRun_createRun empty unstepped versioned
      have last : runId = db.runs.length := by
        rw [length_startRun, createRun, length_append, length_singleton] at inside
        exact Nat.le_antisymm (Nat.lt_succ_iff.mp inside) outside
      subst last
      cases foundFirst.symm.trans found'
      exact isStarted
    have length := step.length
    cases step with
    | launched versioned => exact started rfl rfl versioned rfl
    | called located running dispatched =>
      rcases dispatch_cases dispatched with ⟨_, _, same, _⟩ | ⟨_, _, same, starts⟩
      · cases same
      · cases same
        obtain ⟨targetId, versionId, version, -, -, versioned, rfl⟩ := starts.started
        exact started rfl rfl versioned (by rw [starts.fresh])
    | _ =>
      have same := length (by rintro _ ⟨⟩) (by rintro _ _ ⟨⟩)
      rw [same] at inside
      exact absurd inside (not_lt.mpr outside)

end

end Cases


/-! ## A token between its advances -/

def Event.advances? : Event → Option TokenId
  | .stranded t | .advanced t _ | .called t _ | .returned t _ => some t
  | .launched _ | .taken _ | .claimed _ | .released _ | .killed _ | .resumed _ | .signaled _
  | .agentEnded _ | .wiredBack _ | .retried _ | .ticked => none

section Events

variable {event : Event} {t u : TokenId}

theorem Event.run?_of_advances (advances : event.advances? = some t) : event.run? = some t.run := by
  cases event <;> first | (cases advances; rfl) | cases advances

theorem Event.advances?_of_concluded {outcome : NodeOutcome}
    (concludes : event.concluded? = some (t, outcome)) : event.advances? = some t := by
  cases event <;> first | (cases concludes; rfl) | cases concludes

theorem Event.touched?_of_advances (advances : event.advances? = some t) :
    event.touched? = none := by
  cases event <;> first | rfl | cases advances

theorem Event.died?_of_advances (advances : event.advances? = some t)
    (dies : event.died? = some u) : u = t := by
  cases event with
  | stranded => exact Option.some.inj (dies.symm.trans advances)
  | killed => cases advances
  | _ => cases dies

theorem Event.concluded?_of_died (dies : event.died? = some t) : event.concluded? = none := by
  cases event <;> first | rfl | cases dies

end Events

/-- The token is neither parked nor at its end: it is active, running or dead. -/
def Token.unparked (token : Token) : Prop := token.status ≠ .waiting ∧ token.status ≠ .completed

theorem unparked_of_status {status : TokenStatus} (is : token.status = status)
    (waits : status ≠ .waiting) (completed : status ≠ .completed) : token.unparked :=
  ⟨fun waiting => waits (is.symm.trans waiting), fun ended => completed (is.symm.trans ended)⟩

/-- The token is still where it was. Stamps may have come in, but no completion was taken back,
and a token at its end is at its end. A token that is not parked gets no stamp but that of an
error. -/
structure SameVisit (before after : Token) : Prop where
  nodeId : after.nodeId = before.nodeId
  data : after.data = { before.data with
    completed := after.data.completed
    completionOutput := after.data.completionOutput
    agentResult := after.data.agentResult
    error := after.data.error }
  completed : before.data.completed = true → after.data.completed = true
  finished : before.status = .completed → after.status = .completed
  unparked : before.unparked → after.unparked ∧
    after.data = { before.data with error := after.data.error }

theorem SameVisit.refl (token : Token) : SameVisit token token :=
  ⟨rfl, rfl, id, id, fun unparked => ⟨unparked, rfl⟩⟩

theorem SameVisit.trans {first second third : Token} (left : SameVisit first second)
    (right : SameVisit second third) : SameVisit first third where
  nodeId := right.nodeId.trans left.nodeId
  data := by rw [right.data, left.data]
  completed := right.completed ∘ left.completed
  finished := right.finished ∘ left.finished
  unparked is := by
    obtain ⟨still, same⟩ := left.unparked is
    obtain ⟨stays, same'⟩ := right.unparked still
    exact ⟨stays, by rw [same', same]⟩

variable {before : Token}

theorem Touched.sameVisit {after : Token} (touched : Touched before after) :
    SameVisit before after where
  nodeId := touched.nodeId
  data := by rw [touched.data.same]
  completed := touched.data.completed
  finished finished := absurd finished touched.unfinished
  unparked is := by
    refine ⟨?_, by rw [touched.unstamped is.1]⟩
    rcases touched.awake with active | running
    · exact unparked_of_status active nofun nofun
    · exact unparked_of_status running nofun nofun

theorem Died.sameVisit {after : Token} (died : Died before after)
    (unfinished : before.status ≠ .completed) : SameVisit before after where
  nodeId := died.nodeId
  data := by rw [died.data]
  completed completed := by rw [died.data]; exact completed
  finished finished := absurd finished unfinished
  unparked _ := ⟨unparked_of_status died.status nofun nofun, died.data⟩

theorem Woken.sameVisit {after : Token} (woken : Woken before after) : SameVisit before after := by
  rcases woken with rfl | ⟨completion, rfl⟩
  · exact .refl _
  · unfold wakeCaller
    split
    · rename_i parked
      exact ⟨rfl, rfl, fun _ => rfl, fun finished => (nomatch finished.symm.trans parked.1),
        fun unparked => absurd parked.1 unparked.1⟩
    · exact .refl _

theorem Token.consume_sameVisit (waiting : token.status = .waiting) :
    SameVisit token (token.withStatus .dead) :=
  ⟨rfl, rfl, id, fun finished => (nomatch finished.symm.trans waiting),
    fun unparked => absurd waiting unparked.1⟩

theorem Token.kill_sameVisit (token : Token) : SameVisit token token.kill := by
  unfold Token.kill
  split
  · rename_i live
    refine ⟨rfl, rfl, id, fun finished => ?_, fun _ => ⟨⟨nofun, nofun⟩, rfl⟩⟩
    rw [finished] at live
    cases live
  · exact .refl token

theorem Token.reactivate_sameVisit (token : Token) : SameVisit token token.reactivate := by
  unfold Token.reactivate
  split
  · rename_i dead
    exact ⟨rfl, rfl, id, fun finished => (nomatch finished.symm.trans dead),
      fun _ => ⟨⟨nofun, nofun⟩, rfl⟩⟩
  · exact .refl token

section Visit

variable {db : Db} {run : Run} {event : Event} {index : Nat}

/-- The token at the place is where it was. -/
def StaysAt (index : Nat) (token : Token) (tokens : List Token) : Prop :=
  ∃ token', tokens[index]? = some token' ∧ SameVisit token token'

namespace StaysAt

variable {token : Token} {tokens : List Token}

theorem of_getElem? (placed : tokens[index]? = some token) : StaysAt index token tokens :=
  ⟨token, placed, .refl token⟩

section

variable (stays : StaysAt index token tokens)

include stays

theorem map {change : Token → Token} (same : ∀ token, SameVisit token (change token)) :
    StaysAt index token (tokens.map change) := by
  obtain ⟨token', placed, visit⟩ := stays
  exact ⟨change token', by rw [getElem?_map, placed]; rfl, visit.trans (same token')⟩

theorem wakes {tokens' : List Token} (woken : Wakes tokens tokens') :
    StaysAt index token tokens' := by
  obtain ⟨token', placed, visit⟩ := stays
  obtain ⟨token'', placed', isWoken⟩ := woken.token index token' placed
  exact ⟨token'', placed', visit.trans isWoken.sameVisit⟩

theorem modify {place : Nat} {change : Token → Token}
    (here : ∀ token', place = index → tokens[index]? = some token' → SameVisit token' (change token')) :
    StaysAt index token (tokens.modify place change) := by
  obtain ⟨token', placed, visit⟩ := stays
  by_cases same : place = index
  · exact ⟨change token', by simp [same, placed], visit.trans (here token' same placed)⟩
  · exact ⟨token', by rw [getElem?_modify_ne _ _ same, placed], visit⟩

theorem consumed {nodeId : NodeId} : StaysAt index token (consumed nodeId tokens) := by
  apply stays.map
  intro token'
  split
  · rename_i buffered
    exact Token.consume_sameVisit buffered.2.1
  · exact .refl token'

end

theorem handled {site : Site} {outcome : NodeOutcome} (handles : Handled site outcome tokens)
    (placed : site.run.tokens[index]? = some token) (other : site.t.index ≠ index) :
    StaysAt index token tokens := by
  have arrives : StaysAt index token (arrived site site.run.tokens) :=
    (of_getElem? placed).modify fun _ same => absurd same other
  cases handles with
  | plain => exact of_getElem? placed
  | parallelWaits | inclusiveWaits => exact arrives
  | parallelFires | inclusiveFires => exact arrives.consumed

theorem tokensAfter {site : Site} {outcome : NodeOutcome} (stays : StaysAt index token tokens)
    (other : site.t.index ≠ index) : StaysAt index token (tokensAfter site outcome tokens) := by
  by_cases terminates : outcome.kind = .terminate
  · simp only [RedArchKM.Workflow.tokensAfter, terminates]
    have completes : StaysAt index token
        (tokens.modify site.t.index (Token.withStatus .completed)) :=
      stays.modify fun _ same => absurd same other
    exact completes.map Token.kill_sameVisit
  · obtain ⟨token', placed, visit⟩ := stays
    exact ⟨token', getElem?_tokensAfter_of_ne placed other terminates, visit⟩

end StaysAt

/-- **A step leaves a token it does not advance where it is.** -/
theorem TokensStep.staysAt {tokens : List Token} {token : Token}
    (step : TokensStep db run event tokens) (placed : run.tokens[index]? = some token)
    (elsewhere : ∀ t, event.advances? = some t → t.index ≠ index) :
    StaysAt index token tokens := by
  have stays : StaysAt index token run.tokens := .of_getElem? placed
  cases step with
  | @touched _ t touchedToken change touches placed' touched =>
    refine stays.modify fun token' same isToken => ?_
    rw [← same, placed'] at isToken
    cases isToken
    exact touched.sameVisit
  | @died _ t dying change woken tokens dies placed' running dead left right =>
    refine StaysAt.wakes (StaysAt.modify (stays.wakes left) fun token' same isToken => ?_) right
    obtain ⟨woke, isWoke, isWoken⟩ := left.token t.index dying placed'
    rw [← same, isWoke] at isToken
    cases isToken
    have awake : ¬ dying.onChild := fun parked => nomatch running.symm.trans parked.1
    rw [isWoken.eq awake]
    exact (dead dying).sameVisit fun finished => nomatch running.symm.trans finished
  | called wakes => exact stays.wakes wakes
  | retried => exact stays.map Token.reactivate_sameVisit
  | @concluded _ site outcome handled tokens concludes located same running handles wakes =>
    subst same
    have other : site.t.index ≠ index := elsewhere _ (Event.advances?_of_concluded concludes)
    exact ((StaysAt.handled handles placed other).tokensAfter other).wakes wakes

end Visit

/-- **Between its advances a token stays where it is.** -/
theorem EngineStep.sameVisit {host : Host} {db db' : Db} {event : Event}
    (step : EngineStep host db event db') {t : TokenId} (found : db.token? t = some token)
    (elsewhere : event.advances? ≠ some t) :
    ∃ token', db'.token? t = some token' ∧ SameVisit token token' := by
  obtain ⟨run, foundRun, placed⟩ := bind_eq_some_iff.mp found
  obtain ⟨run', found', kept, stirred⟩ := step.touches.runs t.run run foundRun
  suffices stays : StaysAt t.index token run'.tokens by
    obtain ⟨token', placed', visit⟩ := stays
    exact ⟨token', by rw [Db.token?, found']; exact placed', visit⟩
  by_cases own : event.run? = some t.run
  · refine (step.tokens_cases own foundRun found').staysAt placed fun u advances same => ?_
    have sameRun : event.run? = some u.run := Event.run?_of_advances advances
    rcases u with ⟨_, _⟩
    simp_all
  · have inside := (List.getElem?_eq_some_iff.mp foundRun).1
    have isStirred : Stirred run run' := stirred fun either => either.elim own (not_le.mpr inside)
    exact (StaysAt.of_getElem? placed).wakes isStirred.tokens

end RedArchKM.Workflow
