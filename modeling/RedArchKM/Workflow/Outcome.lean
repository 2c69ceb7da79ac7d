import RedArchKM.Workflow.Dispatch

/-!
# What an outcome does to the tokens of its run

`tokensAfter` says it on the list of tokens; the store ends up with these tokens, up to wakes by
the signal of the run itself (`tokens_conclude`). The other tokens of the run stay as they are,
unless they are consumed by a join or killed with the run.
-/

namespace RedArchKM.Workflow

open Lib

/-- The token as a terminate end event leaves it. -/
def Token.kill (token : Token) : Token :=
  if token.status.isLive then { token with status := .dead } else token

section

variable (site : Site) (outcome : NodeOutcome)

def branches : List Token :=
  outcome.targets.map (Token.onEdge site.node.id (branchDepth site.token outcome))

def tokensMoved (tokens : List Token) : List Token :=
  match outcome.kind with
  | .advance =>
    match outcome.targets with
    | [target] => tokens.modify site.t.index (Token.moveTo site.node.id target outcome.tokenData)
    | _ =>
      (tokens.modify site.t.index fun token =>
        { token with status := .completed, data := outcome.tokenData.getD token.data }) ++
        branches site outcome
  | _ => tokens ++ branches site outcome

def tokensAfter (tokens : List Token) : List Token :=
  match outcome.kind with
  | .noop => tokens
  | .park => tokens.modify site.t.index (Token.park outcome)
  | .complete => tokens.modify site.t.index (Token.withStatus .completed)
  | .fail => tokens.modify site.t.index (Token.withStatus .dead)
  | .terminate => (tokens.modify site.t.index (Token.withStatus .completed)).map Token.kill
  | .advance | .emit =>
    if maxTokensPerRun < tokens.length + outcome.targets.length then
      tokens.modify site.t.index (Token.withStatus .dead)
    else tokensMoved site outcome tokens

end

def HoldsTokens (db : Db) (runId : RunId) (tokens : List Token) : Prop :=
  ∃ run, db.runs[runId]? = some run ∧ Wakes tokens run.tokens

section Tokens

variable {db : Db} {runId : RunId} {run : Run} {site : Site} {outcome : NodeOutcome}

theorem HoldsTokens.stirred {db' : Db} {tokens : List Token} (holds : HoldsTokens db runId tokens)
    (touches : Touches (fun _ => False) db db') : HoldsTokens db' runId tokens := by
  obtain ⟨run, found, wakes⟩ := holds
  obtain ⟨run', found', stirred⟩ := touches.stirred id found
  exact ⟨run', found', wakes.trans stirred.tokens⟩

theorem HoldsTokens.modifyRun {tokens : List Token} (holds : HoldsTokens db runId tokens)
    {change : Run → Run} (same : ∀ run, (change run).tokens = run.tokens) :
    HoldsTokens (db.modifyRun runId change) runId tokens := by
  obtain ⟨run, found, wakes⟩ := holds
  exact ⟨change run, by simp [found], by rwa [same run]⟩

theorem HoldsTokens.finishRun {tokens : List Token} (holds : HoldsTokens db runId tokens)
    {status : RunStatus} : HoldsTokens (finishRun db runId status) runId tokens := by
  refine HoldsTokens.stirred ?_ touches_signalParent
  exact holds.modifyRun fun _ => rfl

theorem HoldsTokens.failRun {tokens : List Token} (holds : HoldsTokens db runId tokens)
    {error : String} : HoldsTokens (failRun db runId error) runId tokens := by
  refine (HoldsTokens.stirred ?_ touches_cancelRuns).stirred touches_signalParent
  exact holds.modifyRun fun _ => rfl

theorem HoldsTokens.settleRun {tokens : List Token} (holds : HoldsTokens db runId tokens) :
    HoldsTokens (settleRun db runId) runId tokens := by
  unfold RedArchKM.Workflow.settleRun
  split
  · exact holds
  · split
    · exact holds
    · split
      · exact holds.modifyRun fun _ => rfl
      · split
        · exact holds.modifyRun fun _ => rfl
        · exact holds.finishRun

theorem holdsTokens_modifyToken (found : db.runs[site.t.run]? = some run) (change : Token → Token) :
    HoldsTokens (db.modifyToken site.t change) site.t.run (run.tokens.modify site.t.index change) :=
  ⟨_, by rw [Db.modifyToken, runs_modifyRun_self, found]; rfl, .refl _⟩

theorem tokensOf_eq (found : db.runs[runId]? = some run) : tokensOf db runId = run.tokens := by
  rw [tokensOf, found]
  rfl

section

variable (found : db.runs[site.t.run]? = some run)

include found

theorem holdsTokens_applyTargets :
    HoldsTokens (applyTargets db site outcome) site.t.run (tokensMoved site outcome run.tokens) := by
  have grown : ∀ {db : Db} {run : Run} (_ : db.runs[site.t.run]? = some run) (tokens : List Token),
      HoldsTokens (createTokens db site.t.run tokens) site.t.run (run.tokens ++ tokens) :=
    fun found tokens => ⟨_, by rw [createTokens, runs_modifyRun_self, found]; rfl, .refl _⟩
  have modified : ∀ change : Token → Token, (db.modifyToken site.t change).runs[site.t.run]? =
      some { run with tokens := run.tokens.modify site.t.index change } := fun change => by
    rw [Db.modifyToken, runs_modifyRun_self, found]
    rfl
  unfold applyTargets tokensMoved branches
  cases outcome.kind with
  | advance =>
    rcases outcome.targets with _ | ⟨target, _ | ⟨second, rest⟩⟩
    · exact grown (modified _) _
    · exact holdsTokens_modifyToken found _
    · exact grown (modified _) _
  | _ => exact grown found _

theorem holdsTokens_applyOutcome : HoldsTokens (applyOutcome db site outcome) site.t.run
      (tokensAfter site outcome run.tokens) := by
  have withVars : (db.setVariables site.t.run outcome.vars).runs[site.t.run]? =
      some { run with vars := Fields.update run.vars outcome.vars } := by
    rw [Db.setVariables, runs_modifyRun_self, found]
    rfl
  have within : overBudget (db.setVariables site.t.run outcome.vars) site.t.run outcome ↔
      maxTokensPerRun < run.tokens.length + outcome.targets.length := by
    rw [overBudget, tokensOf_eq withVars]
  simp only [applyOutcome, tokensAfter]
  cases outcome.kind with
  | noop => exact ⟨_, withVars, .refl _⟩
  | park => exact holdsTokens_modifyToken withVars _
  | complete => exact holdsTokens_modifyToken withVars _
  | fail => exact (holdsTokens_modifyToken withVars _).failRun
  | terminate =>
    refine (HoldsTokens.stirred ?_ touches_cancelRuns).finishRun
    exact ⟨_, by
      rw [Db.killAll, runs_modifyRun_self, Db.modifyToken, runs_modifyRun_self, withVars]
      rfl, .refl _⟩
  | advance | emit =>
    simp only [within]
    split
    · exact (holdsTokens_modifyToken withVars _).failRun
    · have moved : HoldsTokens _ _ (tokensMoved site outcome _) :=
        holdsTokens_applyTargets withVars
      exact moved

/-- **The tokens of the run after its outcome is applied and the run is settled.** -/
theorem tokens_conclude :
    HoldsTokens (conclude db site outcome) site.t.run (tokensAfter site outcome run.tokens) :=
  (holdsTokens_applyOutcome found).settleRun

end

/-! ## The joins -/

def arrived (site : Site) (tokens : List Token) : List Token :=
  tokens.modify site.t.index Token.toBuffer

def consumed (nodeId : NodeId) (tokens : List Token) : List Token :=
  tokens.map fun token => if token.bufferedAt nodeId then token.withStatus .dead else token

theorem run_modifyToken {t : TokenId} (found : db.runs[t.run]? = some run) (change : Token → Token) :
    (db.modifyToken t change).runs[t.run]? =
      some { run with tokens := run.tokens.modify t.index change } := by
  rw [Db.modifyToken, runs_modifyRun_self, found]
  rfl

section

variable (found : db.runs[site.t.run]? = some run)

include found

theorem run_killBuffered (nodeId : NodeId) : (killBuffered db site.t.run nodeId).runs[site.t.run]? =
      some { run with tokens := consumed nodeId run.tokens } := by
  rw [killBuffered, runs_modifyRun_self, found]
  rfl

theorem parallelJoin_cases (incoming : List (NodeId × Option String)) : (joinComplete incoming
          ((arrived site run.tokens).filter fun token => token.bufferedAt site.node.id) = true ∧
        (parallelJoin db site incoming).1.runs[site.t.run]? =
          some { run with tokens := consumed site.node.id (arrived site run.tokens) } ∧
        (parallelJoin db site incoming).2 = { kind := .emit, targets := site.outEdges }) ∨
      (joinComplete incoming
          ((arrived site run.tokens).filter fun token => token.bufferedAt site.node.id) = false ∧
        (parallelJoin db site incoming).1.runs[site.t.run]? =
          some { run with tokens := arrived site run.tokens } ∧
        (parallelJoin db site incoming).2 = { kind := .noop }) := by
  have buffered := run_modifyToken found Token.toBuffer
  simp only [parallelJoin, tokensOf_eq buffered]
  split
  · rename_i complete
    exact .inl ⟨complete, run_killBuffered buffered _, rfl⟩
  · rename_i incomplete
    exact .inr ⟨eq_false_of_ne_true incomplete, buffered, rfl⟩

theorem inclusiveJoin_cases : ((∀ token ∈ arrived site run.tokens, token.elsewhere site.node.id →
          ¬ Reach.Reaches site.model.adjacency token.nodeId site.node.id) ∧
        (inclusiveJoin db site).1.runs[site.t.run]? =
          some { run with tokens := consumed site.node.id (arrived site run.tokens) } ∧
        (inclusiveJoin db site).2 = { kind := .emit, targets := site.outEdges }) ∨
      ((∃ token ∈ arrived site run.tokens, token.elsewhere site.node.id ∧
          Reach.Reaches site.model.adjacency token.nodeId site.node.id) ∧
        (inclusiveJoin db site).1.runs[site.t.run]? =
          some { run with tokens := arrived site run.tokens } ∧
        (inclusiveJoin db site).2 = { kind := .noop }) := by
  have buffered := run_modifyToken found Token.toBuffer
  have reached : site.node.id ∈ site.model.forwardReachableNodes
      (((arrived site run.tokens).filter fun token => token.elsewhere site.node.id).map
        Token.nodeId) ↔
      ∃ token ∈ arrived site run.tokens, token.elsewhere site.node.id ∧
        Reach.Reaches site.model.adjacency token.nodeId site.node.id := by
    rw [WorkflowDefinitionModel.forwardReachableNodes, Reach.mem_reachable]
    simp [and_assoc]
  simp only [inclusiveJoin, tokensOf_eq buffered]
  split
  · rename_i reaches
    exact .inr ⟨reached.mp reaches, buffered, rfl⟩
  · rename_i unreached
    refine .inl ⟨fun token member elsewhere reaches => ?_, run_killBuffered buffered _, rfl⟩
    exact unreached (reached.mpr ⟨token, member, elsewhere, reaches⟩)

end

end Tokens

end RedArchKM.Workflow
