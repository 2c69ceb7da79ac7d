import RedArchKM.Workflow.TokenSteps

/-!
# The token budget

Tokens are never deleted, so a run that forks in a loop would grow without end but for the check
made before an outcome creates any. A step either leaves the rows of the run as they are, moves
one, or adds some within the budget (`TokensStep.within`), and a run is started with one row at
each trigger. Over the budget no row is added and the run fails (`EngineStep.refuses`).
-/

namespace RedArchKM.Workflow

open Lib Lib.History List

def rowLimit (definition : WorkflowDefinitionModel) : Nat :=
  max maxTokensPerRun (normalize definition).triggers.length

/-- At most so many tokens, none of them too deep. -/
structure Within (limit : Nat) (tokens : List Token) : Prop where
  length : tokens.length ≤ limit
  depth : ∀ token ∈ tokens, token.depth ≤ maxTokenDepth

def WithinBudget (versions : List WorkflowVersion) (run : Run) : Prop :=
  ∃ version, versions[run.versionId]? = some version ∧
    Within (rowLimit version.definition) run.tokens

def Token.row (token : Token) : NodeId × Nat := (token.nodeId, token.depth)

/-- An outcome whose targets would exceed the budget creates no token and moves none, and the
run fails. -/
def Refuses (moment : Moment Event Db) (after : Db) : Prop :=
  ∀ t outcome run, moment.event.concluded? = some (t, outcome) →
    outcome.kind = .advance ∨ outcome.kind = .emit → moment.before.runs[t.run]? = some run →
    maxTokensPerRun < run.tokens.length + outcome.targets.length →
    ∃ run', after.runs[t.run]? = some run' ∧ run'.status = .failed ∧
      run'.tokens.map Token.row = run.tokens.map Token.row

/-- **The token budget is a true bound**: every run is within it in every state, and what would
exceed it is refused. -/
structure TokensBounded (world : World) : Prop where
  within : ∀ state ∈ world.states, ∀ run ∈ state.runs, WithinBudget state.versions run
  refuses : ∀ (k : Nat) (moment : Moment Event Db) (after : Db), world.past[k]? = some moment →
    world.states[k + 1]? = some after → Refuses moment after

/-! ## What leaves the rows alone -/

section Rows

variable {tokens tokens' : List Token} {limit : Nat}

theorem Within.of_depths (within : Within limit tokens)
    (same : tokens'.map Token.depth = tokens.map Token.depth) : Within limit tokens' where
  length := by
    have length := congrArg List.length same
    rw [length_map, length_map] at length
    exact length.trans_le within.length
  depth token member := by
    have isDepth : token.depth ∈ tokens.map Token.depth := same ▸ mem_map_of_mem member
    obtain ⟨before, isBefore, sameDepth⟩ := mem_map.mp isDepth
    exact sameDepth ▸ within.depth before isBefore

theorem Within.of_rows (within : Within limit tokens)
    (same : tokens'.map Token.row = tokens.map Token.row) : Within limit tokens' := by
  refine within.of_depths ?_
  have depths := congrArg (List.map Prod.snd) same
  rwa [map_map, map_map] at depths

theorem map_modify {β : Type} {view : Token → β} {index : Nat} {change : Token → Token}
    (same : ∀ token, tokens[index]? = some token → view (change token) = view token) :
    (tokens.modify index change).map view = tokens.map view := by
  refine ext_getElem? fun place => ?_
  rw [getElem?_map, getElem?_map, getElem?_modify]
  by_cases here : index = place
  · subst here
    cases placed : tokens[index]? with
    | none => simp
    | some token => simp [same token placed]
  · simp [here]

theorem rows_map {change : Token → Token} (same : ∀ token, (change token).row = token.row) :
    (tokens.map change).map Token.row = tokens.map Token.row := by
  rw [map_map]
  exact map_congr_left fun token _ => same token

theorem Wakes.rows (wakes : Wakes tokens tokens') :
    tokens'.map Token.row = tokens.map Token.row := by
  refine ext_getElem? fun place => ?_
  rw [getElem?_map, getElem?_map]
  cases placed : tokens'[place]? with
  | none =>
    have outside := getElem?_eq_none_iff.mp placed
    rw [wakes.length] at outside
    rw [getElem?_eq_none outside]
  | some token =>
    obtain ⟨before, placedBefore, woken⟩ := wakes.token_before placed
    rw [placedBefore, Option.map_some, Option.map_some]
    rcases woken with rfl | ⟨completion, rfl⟩
    · rfl
    · unfold wakeCaller
      split <;> rfl

theorem Token.row_kill (token : Token) : token.kill.row = token.row := by
  unfold Token.kill
  split <;> rfl

theorem Token.row_reactivate (token : Token) : token.reactivate.row = token.row := by
  unfold Token.reactivate
  split <;> rfl

variable {site : Site} {outcome : NodeOutcome}

theorem Handled.rows (handles : Handled site outcome tokens) :
    tokens.map Token.row = site.run.tokens.map Token.row := by
  have arrives : (arrived site site.run.tokens).map Token.row = site.run.tokens.map Token.row :=
    map_modify fun _ _ => rfl
  have fires : (consumed site.node.id (arrived site site.run.tokens)).map Token.row =
      site.run.tokens.map Token.row :=
    (rows_map fun token => by split <;> rfl).trans arrives
  cases handles with
  | plain => rfl
  | parallelWaits | inclusiveWaits => exact arrives
  | parallelFires | inclusiveFires => exact fires

end Rows

/-! ## What an outcome adds -/

section Outcomes

variable {site : Site} {outcome : NodeOutcome} {tokens : List Token} {limit : Nat}

theorem rows_tokensAfter_of_over (moves : outcome.kind = .advance ∨ outcome.kind = .emit)
    (excess : maxTokensPerRun < tokens.length + outcome.targets.length) :
    (tokensAfter site outcome tokens).map Token.row = tokens.map Token.row := by
  have kills : (tokens.modify site.t.index (Token.withStatus .dead)).map Token.row =
      tokens.map Token.row := map_modify fun _ _ => rfl
  rcases moves with kind | kind
  · simpa only [tokensAfter, kind, if_pos excess] using kills
  · simpa only [tokensAfter, kind, if_pos excess] using kills

theorem Within.branches (within : Within limit tokens)
    (fits : tokens.length + outcome.targets.length ≤ limit) :
    Within limit (tokens ++ branches site outcome) where
  length := by
    rwa [length_append, RedArchKM.Workflow.branches, length_map]
  depth token member := by
    rcases mem_append.mp member with old | new
    · exact within.depth token old
    · obtain ⟨target, -, rfl⟩ := mem_map.mp new
      exact min_le_right ..

theorem Within.tokensAfter (within : Within limit tokens) (enough : maxTokensPerRun ≤ limit) :
    Within limit (tokensAfter site outcome tokens) := by
  have modified : ∀ (change : Token → Token), (∀ token, (change token).depth = token.depth) →
      Within limit (tokens.modify site.t.index change) := fun _ same =>
    within.of_depths (map_modify fun token _ => same token)
  unfold RedArchKM.Workflow.tokensAfter
  split
  · exact within
  · exact modified _ fun _ => rfl
  · exact modified _ fun _ => rfl
  · exact modified _ fun _ => rfl
  · exact (modified (Token.withStatus .completed) fun _ => rfl).of_rows (rows_map Token.row_kill)
  all_goals
    split
    · exact modified _ fun _ => rfl
    · rename_i fits
      have room : tokens.length + outcome.targets.length ≤ limit :=
        (Nat.le_of_not_lt fits).trans enough
      unfold tokensMoved
      split
      · split
        · exact modified _ fun _ => rfl
        · refine Within.branches (modified _ fun _ => rfl) ?_
          rwa [length_modify]
      · exact within.branches room

theorem failed_conclude_of_over {db : Db} {run : Run} (found : db.runs[site.t.run]? = some run)
    (moves : outcome.kind = .advance ∨ outcome.kind = .emit)
    (excess : maxTokensPerRun < run.tokens.length + outcome.targets.length) :
    (conclude db site outcome).runs[site.t.run]?.any fun run => run.status = .failed := by
  have published : (db.setVariables site.t.run outcome.vars).runs[site.t.run]? =
      some { run with vars := Fields.update run.vars outcome.vars } := by
    rw [Db.setVariables, runs_modifyRun_self, found]
    rfl
  have exceeds : overBudget (db.setVariables site.t.run outcome.vars) site.t.run outcome := by
    rwa [overBudget, tokensOf_eq published]
  obtain ⟨run', found', stirred⟩ := run_failRun
    (run_modifyToken published (Token.withStatus .dead))
    s!"max tokens per run {maxTokensPerRun} exceeded"
  have fails : applyOutcome db site outcome =
      failRun ((db.setVariables site.t.run outcome.vars).modifyToken site.t
        (Token.withStatus .dead)) site.t.run s!"max tokens per run {maxTokensPerRun} exceeded" := by
    rcases moves with kind | kind
    · simp only [applyOutcome, kind, if_pos exceeds]
    · simp only [applyOutcome, kind, if_pos exceeds]
  -- A run that has failed is settled already.
  have isFailed : run'.status = .failed := stirred.status
  have settled : settleRun (applyOutcome db site outcome) site.t.run =
      applyOutcome db site outcome := by
    simp only [settleRun, fails, found', isFailed, RunStatus.isTerminal, if_true]
  rw [conclude, settled, fails, found']
  exact decide_eq_true isFailed

end Outcomes

/-! ## What a step does -/

section Steps

variable {host : Host} {db db' : Db} {event : Event}

/-- **A step adds rows within the budget only.** -/
theorem TokensStep.within {run : Run} {tokens : List Token} {limit : Nat}
    (step : TokensStep db run event tokens) (enough : maxTokensPerRun ≤ limit)
    (within : Within limit run.tokens) : Within limit tokens := by
  cases step with
  | @touched _ t token change _ placed touched =>
    refine within.of_depths (map_modify fun token' placed' => ?_)
    cases placed.symm.trans placed'
    exact touched.depth
  | @died _ t _ change woken _ _ _ _ dead left right =>
    have dying : Within limit (woken.modify t.index change) :=
      (within.of_rows left.rows).of_depths (map_modify fun token _ => (dead token).depth)
    exact dying.of_rows right.rows
  | called wakes => exact within.of_rows wakes.rows
  | retried => exact within.of_rows (rows_map Token.row_reactivate)
  | concluded _ _ same _ handles wakes =>
    subst same
    exact ((within.of_rows handles.rows).tokensAfter enough).of_rows wakes.rows

theorem Started.withinBudget {run : Run} (started : Started db run) :
    WithinBudget db.versions run := by
  obtain ⟨version, versioned, tokens⟩ := started.version
  refine ⟨version, versioned, ?_, fun token member => ?_⟩
  · rw [tokens, length_map]
    exact le_max_right ..
  · rw [tokens] at member
    obtain ⟨trigger, -, rfl⟩ := mem_map.mp member
    exact Nat.zero_le _

theorem EngineStep.withinBudget (step : EngineStep host db event db')
    (within : ∀ run ∈ db.runs, WithinBudget db.versions run) :
    ∀ run ∈ db'.runs, WithinBudget db'.versions run := by
  intro run' member
  obtain ⟨runId, found'⟩ := mem_iff_getElem?.mp member
  rw [step.touches.versions]
  rcases step.run_cases found' with
    ⟨run, found, -, kept, tokens⟩ | ⟨run, found, -, stirred⟩ | ⟨-, started⟩
  · obtain ⟨version, versioned, before⟩ := within run (mem_of_getElem? found)
    exact ⟨version, by rw [kept.versionId, versioned], tokens.within (le_max_left ..) before⟩
  · obtain ⟨version, versioned, before⟩ := within run (mem_of_getElem? found)
    exact ⟨version, by rw [stirred.kept.versionId, versioned], before.of_rows stirred.tokens.rows⟩
  · exact started.withinBudget

/-- **What would exceed the budget is refused.** -/
theorem EngineStep.refuses (step : EngineStep host db event db') : Refuses ⟨event, db⟩ db' := by
  intro t outcome run concludes moves found excess
  obtain ⟨site, between, handled, rfl, located, -, foundHandled, handles, rfl⟩ :=
    step.concludes concludes
  cases located.run.symm.trans found
  have sameLength : handled.tokens.length = site.run.tokens.length := by
    simpa using congrArg List.length handles.rows
  rw [← sameLength] at excess
  obtain ⟨run', found', wakes⟩ : HoldsTokens (conclude between site outcome) _ _ :=
    tokens_conclude foundHandled
  refine ⟨run', found', ?_, ?_⟩
  · have fails := failed_conclude_of_over foundHandled moves excess
    rw [found'] at fails
    exact of_decide_eq_true fails
  · rw [wakes.rows, rows_tokensAfter_of_over moves excess, handles.rows]

end Steps

/-- **Every run stays within the token budget**, whatever the engine is asked to do. -/
theorem tokensBounded (host : Host) (db : Db) (actions : List Action) (empty : db.runs = []) :
    TokensBounded (execute host db actions) := by
  have steps : Continues host { now := db } (execute host db actions) := execute_steps ..
  refine ⟨?_, fun k moment after found foundAfter => ?_⟩
  · refine steps.invariant (fun _ => True) (fun _ _ _ step _ => step.withinBudget)
      (fun _ _ => trivial) fun state isFirst => ?_
    obtain rfl := mem_singleton.mp isFirst
    intro run member
    rw [empty] at member
    cases member
  · obtain ⟨-, next, foundNext, step⟩ := steps.stepAt (Nat.zero_le k) found
    cases foundNext.symm.trans foundAfter
    exact step.refuses

/-- A node with two edges back to itself: every pass doubles the tokens. -/
def doublingDefinition : WorkflowDefinitionModel where
  schemaVersion := 2
  nodes := [{ id := "start", type := .trigger }, { id := "again", type := .event }]
  edges := [{ source := "start", target := "again" }, { source := "again", target := "again" },
    { source := "again", target := "again" }]
  ids_nodup := by decide
  sources_known := by decide
  targets_known := by decide

theorem tokensBounded_loop :
    TokensBounded (execute (.failingAt []) { versions := [{ definition := doublingDefinition }] }
      [.launch { workflowId := 0, versionId := 0 }, .drive 0]) :=
  tokensBounded _ _ _ rfl

end RedArchKM.Workflow
