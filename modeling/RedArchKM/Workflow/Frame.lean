import RedArchKM.Workflow.Engine

/-!
# What a write of the engine leaves alone

Advancing a token of one run changes that run. Of any other run it can only wake tokens parked
on a child (`Stirred`), and of no run does it change what the run was created with (`Kept`).
`Touches` says this of a whole transition of the store; it composes, and every write of the
engine satisfies it. The handlers executed on the way are executed for the runs the transition
owns.
-/

namespace RedArchKM.Workflow

open Lib List

/-! ## Woken tokens -/

def Woken (before after : Token) : Prop :=
  after = before ∨ ∃ completion, after = wakeCaller completion before

def Token.onChild (token : Token) : Prop :=
  token.status = .waiting ∧ token.waitKind = some .subprocess

theorem wakeCaller_of_not_onChild {token : Token} (other : ¬ token.onChild) (completion : Json) :
    wakeCaller completion token = token := if_neg other

variable {before : Token}

theorem Woken.eq {after : Token} (woken : Woken before after) (other : ¬ before.onChild) :
    after = before := by
  rcases woken with same | ⟨completion, rfl⟩
  · exact same
  · exact wakeCaller_of_not_onChild other completion

theorem Woken.trans {first second third : Token} (left : Woken first second)
    (right : Woken second third) : Woken first third := by
  rcases left with rfl | ⟨completion, rfl⟩
  · exact right
  · by_cases parked : first.onChild
    · -- Once woken the token is active, so a second wake does nothing.
      have awake : ¬ (wakeCaller completion first).onChild := by
        simp [wakeCaller, parked.1, parked.2, Token.onChild]
      exact .inr ⟨completion, right.eq awake⟩
    · rwa [wakeCaller_of_not_onChild parked] at right

theorem Woken.nodeId {after : Token} (woken : Woken before after) :
    after.nodeId = before.nodeId := by
  rcases woken with rfl | ⟨completion, rfl⟩
  · rfl
  · unfold wakeCaller
    split <;> rfl

theorem Woken.isLive {after : Token} (woken : Woken before after) :
    after.status.isLive = before.status.isLive := by
  rcases woken with rfl | ⟨completion, rfl⟩
  · rfl
  · unfold wakeCaller
    split
    · rename_i parked
      rw [parked.1]
      rfl
    · rfl

structure Wakes (before after : List Token) : Prop where
  length : after.length = before.length
  token : ∀ (index : Nat) (token : Token), before[index]? = some token →
    ∃ token', after[index]? = some token' ∧ Woken token token'

namespace Wakes

variable {before after : List Token}

theorem refl (tokens : List Token) : Wakes tokens tokens :=
  ⟨rfl, fun _ token found => ⟨token, found, .inl rfl⟩⟩

theorem trans {third : List Token} (left : Wakes before after) (right : Wakes after third) :
    Wakes before third := by
  refine ⟨right.length.trans left.length, fun index token found => ?_⟩
  obtain ⟨token', found', woken⟩ := left.token index token found
  obtain ⟨token'', found'', woken'⟩ := right.token index token' found'
  exact ⟨token'', found'', woken.trans woken'⟩

theorem token_before (wakes : Wakes before after) {index : Nat} {token : Token}
    (placed : after[index]? = some token) :
    ∃ token', before[index]? = some token' ∧ Woken token' token := by
  have inside : index < before.length := by
    rw [← wakes.length]
    exact (List.getElem?_eq_some_iff.mp placed).1
  obtain ⟨token', placed', woken⟩ := wakes.token index _ (List.getElem?_eq_getElem inside)
  cases placed'.symm.trans placed
  exact ⟨_, List.getElem?_eq_getElem inside, woken⟩

theorem modify (tokens : List Token) (index : Nat) (completion : Json) :
    Wakes tokens (tokens.modify index (wakeCaller completion)) := by
  refine ⟨length_modify .., fun place token found => ?_⟩
  rw [getElem?_modify, found]
  by_cases here : index = place
  · exact ⟨wakeCaller completion token, by simp [here], .inr ⟨completion, rfl⟩⟩
  · exact ⟨token, by simp [here], .inl rfl⟩

end Wakes

/-! ## Runs -/

/-- What no write changes of a run once it is created. -/
structure Kept (before after : Run) : Prop where
  workflowId : after.workflowId = before.workflowId
  versionId : after.versionId = before.versionId
  recordId : after.recordId = before.recordId
  inputSnapshot : after.inputSnapshot = before.inputSnapshot
  depth : after.depth = before.depth
  parentToken : after.parentToken = before.parentToken
  stepSeq : before.stepSeq ≤ after.stepSeq
  tokens : before.tokens.length ≤ after.tokens.length

theorem Kept.refl (run : Run) : Kept run run := ⟨rfl, rfl, rfl, rfl, rfl, rfl, le_rfl, le_rfl⟩

theorem Kept.trans {first second third : Run} (left : Kept first second)
    (right : Kept second third) : Kept first third where
  workflowId := right.workflowId.trans left.workflowId
  versionId := right.versionId.trans left.versionId
  recordId := right.recordId.trans left.recordId
  inputSnapshot := right.inputSnapshot.trans left.inputSnapshot
  depth := right.depth.trans left.depth
  parentToken := right.parentToken.trans left.parentToken
  stepSeq := left.stepSeq.trans right.stepSeq
  tokens := left.tokens.trans right.tokens

/-- At most its parked tokens were woken by children. -/
structure Stirred (before after : Run) : Prop where
  same : after = { before with tokens := after.tokens }
  tokens : Wakes before.tokens after.tokens

namespace Stirred

variable {before after : Run}

theorem refl (run : Run) : Stirred run run := ⟨rfl, .refl _⟩

theorem trans {third : Run} (left : Stirred before after) (right : Stirred after third) :
    Stirred before third := by
  refine ⟨?_, left.tokens.trans right.tokens⟩
  rw [right.same, left.same]

theorem kept (stirred : Stirred before after) : Kept before after := by
  rw [stirred.same]
  exact ⟨rfl, rfl, rfl, rfl, rfl, rfl, le_rfl, stirred.tokens.length.ge⟩

theorem status (stirred : Stirred before after) : after.status = before.status := by
  rw [stirred.same]

theorem stepSeq (stirred : Stirred before after) : after.stepSeq = before.stepSeq := by
  rw [stirred.same]

end Stirred

/-! ## Transitions of the store -/

/-- A transition that changes only runs it owns, apart from waking tokens parked on a child. -/
structure Touches (own : RunId → Prop) (before after : Db) : Prop where
  runs : ∀ runId run, before.runs[runId]? = some run →
    ∃ run', after.runs[runId]? = some run' ∧ Kept run run' ∧ (¬ own runId → Stirred run run')
  calls : ∃ new, after.calls = before.calls ++ new ∧ ∀ call ∈ new, own call.runId
  workflows : after.workflows = before.workflows
  versions : after.versions = before.versions

namespace Touches

variable {own : RunId → Prop} {before after : Db}

theorem refl (db : Db) : Touches own db db where
  runs _ run found := ⟨run, found, .refl run, fun _ => .refl run⟩
  calls := ⟨[], by simp⟩
  workflows := rfl
  versions := rfl

theorem trans {third : Db} (left : Touches own before after) (right : Touches own after third) :
    Touches own before third where
  runs runId run found := by
    obtain ⟨run', found', kept, stirred⟩ := left.runs runId run found
    obtain ⟨run'', found'', kept', stirred'⟩ := right.runs runId run' found'
    exact ⟨run'', found'', kept.trans kept', fun other =>
      (stirred other).trans (stirred' other)⟩
  calls := by
    obtain ⟨new, appended, owned⟩ := left.calls
    obtain ⟨new', appended', owned'⟩ := right.calls
    refine ⟨new ++ new', by rw [appended', appended, append_assoc], fun call member => ?_⟩
    exact (mem_append.mp member).elim (owned call) (owned' call)
  workflows := right.workflows.trans left.workflows
  versions := right.versions.trans left.versions

section

variable (touches : Touches own before after)

include touches

theorem mono {own' : RunId → Prop} (wider : ∀ runId, own runId → own' runId) :
    Touches own' before after where
  runs runId run found := by
    obtain ⟨run', found', kept, stirred⟩ := touches.runs runId run found
    exact ⟨run', found', kept, fun other => stirred fun owned => other (wider runId owned)⟩
  calls := by
    obtain ⟨new, appended, owned⟩ := touches.calls
    exact ⟨new, appended, fun call member => wider _ (owned call member)⟩
  workflows := touches.workflows
  versions := touches.versions

theorem length_le : before.runs.length ≤ after.runs.length := by
  by_contra shorter
  have inside : after.runs.length < before.runs.length := not_le.mp shorter
  obtain ⟨run', found, -⟩ :=
    touches.runs after.runs.length _ (List.getElem?_eq_getElem inside)
  exact absurd (List.getElem?_eq_some_iff.mp found).1 (lt_irrefl _)

theorem stirred {runId : RunId} (other : ¬ own runId) {run : Run}
    (found : before.runs[runId]? = some run) :
    ∃ run', after.runs[runId]? = some run' ∧ Stirred run run' := by
  obtain ⟨run', found', -, stirred⟩ := touches.runs runId run found
  exact ⟨run', found', stirred other⟩

end

end Touches

theorem runs_modifyRun (db : Db) (runId other : RunId) (change : Run → Run) :
    (db.modifyRun runId change).runs[other]? =
      if runId = other then db.runs[other]?.map change else db.runs[other]? := by
  rw [Db.modifyRun, getElem?_modify]
  split <;> simp

@[simp] theorem runs_modifyRun_self (db : Db) (runId : RunId) (change : Run → Run) :
    (db.modifyRun runId change).runs[runId]? = db.runs[runId]?.map change := by
  rw [runs_modifyRun, if_pos rfl]

section Writes

variable {own : RunId → Prop} {db : Db} {runId : RunId}

theorem touches_modifyRun (owned : own runId) {change : Run → Run}
    (keeps : ∀ run, Kept run (change run)) : Touches own db (db.modifyRun runId change) where
  runs other run found := by
    rw [runs_modifyRun, found]
    by_cases here : runId = other
    · subst here
      exact ⟨change run, by simp, keeps run, fun absent => absurd owned absent⟩
    · exact ⟨run, by simp [here], .refl run, fun _ => .refl run⟩
  calls := ⟨[], by simp [Db.modifyRun]⟩
  workflows := rfl
  versions := rfl

theorem touches_agentRuns (agentRuns : List AgentRun) :
    Touches own db { db with agentRuns := agentRuns } where
  runs _ run found := ⟨run, found, .refl run, fun _ => .refl run⟩
  calls := ⟨[], by simp⟩
  workflows := rfl
  versions := rfl

theorem touches_createRun (run : Run) : Touches own db (createRun db run) where
  runs other existing found := by
    have inside := (List.getElem?_eq_some_iff.mp found).1
    refine ⟨existing, ?_, .refl _, fun _ => .refl _⟩
    rw [createRun, List.getElem?_append_left inside, found]
  calls := ⟨[], by simp [createRun]⟩
  workflows := rfl
  versions := rfl

theorem kept_tokens {run : Run} {tokens : List Token} (longer : run.tokens.length ≤ tokens.length) :
    Kept run { run with tokens := tokens } := ⟨rfl, rfl, rfl, rfl, rfl, rfl, le_rfl, longer⟩

theorem touches_modifyToken {t : TokenId} (owned : own t.run) {change : Token → Token} :
    Touches own db (db.modifyToken t change) :=
  touches_modifyRun owned fun _ => kept_tokens (length_modify ..).ge

theorem touches_setVariables (owned : own runId) {updates : Fields} :
    Touches own db (db.setVariables runId updates) :=
  touches_modifyRun owned fun _ => ⟨rfl, rfl, rfl, rfl, rfl, rfl, le_rfl, le_rfl⟩

theorem touches_killAll (owned : own runId) : Touches own db (db.killAll runId) :=
  touches_modifyRun owned fun _ => kept_tokens (length_map ..).ge

theorem touches_killBuffered (owned : own runId) {nodeId : NodeId} :
    Touches own db (killBuffered db runId nodeId) :=
  touches_modifyRun owned fun _ => kept_tokens (length_map ..).ge

theorem touches_createTokens (owned : own runId) {tokens : List Token} :
    Touches own db (createTokens db runId tokens) :=
  touches_modifyRun owned fun _ => kept_tokens (by simp)

theorem touches_cancelRuns {reason : String} :
    Touches own db (db.cancelRunsForWorkflowRun runId reason) := touches_agentRuns _

theorem touches_signalParent : Touches own db (signalParent db runId) := by
  unfold signalParent
  split
  · exact .refl db
  · split
    · exact .refl db
    · rename_i run _ _ parentToken _
      refine ⟨fun other existing found => ?_, ⟨[], by simp [Db.modifyToken, Db.modifyRun]⟩, rfl,
        rfl⟩
      rw [Db.modifyToken, runs_modifyRun, found]
      by_cases here : parentToken.run = other
      · have stirred : Stirred existing { existing with
            tokens := existing.tokens.modify parentToken.index
              (wakeCaller (completion runId run)) } := ⟨rfl, .modify ..⟩
        exact ⟨_, by simp [here], stirred.kept, fun _ => stirred⟩
      · exact ⟨existing, by simp [here], .refl _, fun _ => .refl _⟩

theorem touches_finishRun (owned : own runId) {status : RunStatus} :
    Touches own db (finishRun db runId status) := by
  refine .trans ?_ touches_signalParent
  exact touches_modifyRun owned fun _ => ⟨rfl, rfl, rfl, rfl, rfl, rfl, le_rfl, le_rfl⟩

theorem touches_failRun (owned : own runId) {error : String} :
    Touches own db (failRun db runId error) := by
  refine .trans (.trans ?_ touches_cancelRuns) touches_signalParent
  exact touches_modifyRun owned fun _ => ⟨rfl, rfl, rfl, rfl, rfl, rfl, le_rfl, le_rfl⟩

theorem touches_settleRun (owned : own runId) : Touches own db (settleRun db runId) := by
  unfold settleRun
  split
  · exact .refl db
  · split
    · exact .refl db
    · split
      · exact touches_modifyRun owned fun _ => ⟨rfl, rfl, rfl, rfl, rfl, rfl, le_rfl, le_rfl⟩
      · split
        · exact touches_modifyRun owned fun _ => ⟨rfl, rfl, rfl, rfl, rfl, rfl, le_rfl, le_rfl⟩
        · exact touches_finishRun owned

theorem touches_startRun (owned : own runId) {definition : WorkflowDefinitionModel} :
    Touches own db (startRun db runId definition) := by
  unfold startRun
  split
  · exact touches_failRun owned
  · exact touches_modifyRun owned fun _ => kept_tokens (by simp)

variable {outcome : NodeOutcome}

theorem touches_applyTargets {site : Site} (owned : own site.t.run) :
    Touches own db (applyTargets db site outcome) := by
  unfold applyTargets
  split
  · split
    · exact touches_modifyToken owned
    · exact (touches_modifyToken owned).trans (touches_createTokens owned)
  · exact touches_createTokens owned

theorem touches_applyOutcome {site : Site} (owned : own site.t.run) :
    Touches own db (applyOutcome db site outcome) := by
  refine (touches_setVariables owned).trans (?_ : Touches own (db.setVariables _ outcome.vars) _)
  simp only [applyOutcome]
  split
  · exact .refl _
  · exact touches_modifyToken owned
  · exact touches_modifyToken owned
  · exact (touches_modifyToken owned).trans (touches_failRun owned)
  · exact (((touches_modifyToken owned).trans (touches_killAll owned)).trans
      touches_cancelRuns).trans (touches_finishRun owned)
  all_goals
    split
    · exact (touches_modifyToken owned).trans (touches_failRun owned)
    · exact touches_applyTargets owned

theorem touches_conclude {site : Site} (owned : own site.t.run) :
    Touches own db (conclude db site outcome) :=
  (touches_applyOutcome owned).trans (touches_settleRun owned)

end Writes

end RedArchKM.Workflow
