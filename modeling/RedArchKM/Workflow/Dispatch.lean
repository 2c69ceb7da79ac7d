import RedArchKM.Lib.Fallible
import RedArchKM.Workflow.Frame

/-!
# What a dispatch can do

Apart from the two joins and from the start of a child run, a dispatch keeps books only: steps,
the step counter, the dead-letter flag, agent runs and the handlers executed. It touches neither
a token nor the status of a run, it neither fires nor buffers, and it never parks a token as if
it were buffered at a join (`Ordinary`, `dispatch_cases`).
-/

namespace RedArchKM.Workflow

open Lib Lib.Fallible List

structure SameCourse (before after : Run) : Prop where
  same : after =
    { before with steps := after.steps, stepSeq := after.stepSeq, deadLetter := after.deadLetter }
  stepSeq : before.stepSeq ≤ after.stepSeq

theorem SameCourse.refl (run : Run) : SameCourse run run := ⟨rfl, le_rfl⟩

theorem SameCourse.trans {first second third : Run} (left : SameCourse first second)
    (right : SameCourse second third) : SameCourse first third := by
  refine ⟨?_, left.stepSeq.trans right.stepSeq⟩
  rw [right.same, left.same]

theorem SameCourse.kept {before after : Run} (same : SameCourse before after) :
    Kept before after := by
  rw [same.same]
  exact ⟨rfl, rfl, rfl, rfl, rfl, rfl, same.stepSeq, le_rfl⟩

theorem SameCourse.tokens {before after : Run} (same : SameCourse before after) :
    after.tokens = before.tokens := by rw [same.same]

theorem SameCourse.status {before after : Run} (same : SameCourse before after) :
    after.status = before.status := by rw [same.same]

structure MadeAt (site : Site) (call : HandlerCall) : Prop where
  runId : call.runId = site.t.run
  before : call.before = site.run.inputSnapshot.before
  after : call.after = site.run.inputSnapshot.after

structure Books (site : Site) (before after : Db) : Prop where
  runs : ∃ change, after.runs = before.runs.modify site.t.run change ∧
    ∀ run, SameCourse run (change run)
  calls : ∃ new, after.calls = before.calls ++ new ∧ ∀ call ∈ new, MadeAt site call
  workflows : after.workflows = before.workflows
  versions : after.versions = before.versions

namespace Books

variable {site : Site} {before after : Db}

theorem refl (db : Db) : Books site db db where
  runs := ⟨id, by simp, fun run => .refl run⟩
  calls := ⟨[], by simp⟩
  workflows := rfl
  versions := rfl

theorem trans {third : Db} (left : Books site before after) (right : Books site after third) :
    Books site before third where
  runs := by
    obtain ⟨change, runs, same⟩ := left.runs
    obtain ⟨change', runs', same'⟩ := right.runs
    exact ⟨change' ∘ change, by rw [runs', runs, modify_modify_eq],
      fun run => (same run).trans (same' _)⟩
  calls := by
    obtain ⟨new, appended, made⟩ := left.calls
    obtain ⟨new', appended', made'⟩ := right.calls
    refine ⟨new ++ new', by rw [appended', appended, append_assoc], fun call member => ?_⟩
    exact (mem_append.mp member).elim (made call) (made' call)
  workflows := right.workflows.trans left.workflows
  versions := right.versions.trans left.versions

section

variable (db : Db)

theorem modifyRun {change : Run → Run} (same : ∀ run, SameCourse run (change run)) :
    Books site db (db.modifyRun site.t.run change) where
  runs := ⟨change, rfl, same⟩
  calls := ⟨[], by simp [Db.modifyRun]⟩
  workflows := rfl
  versions := rfl

theorem recordStep {node : WorkflowNode} {status : StepStatus} {output : Option Json}
    {error : Option String} : Books site db (db.recordStep site.t node status output error) :=
  modifyRun db fun _ => ⟨rfl, Nat.le_succ _⟩

theorem settleStep {change : RunStep → RunStep} : Books site db (db.settleStep site.t.run change) :=
  modifyRun db fun _ => ⟨rfl, le_rfl⟩

theorem setDeadLetter : Books site db (db.setDeadLetter site.t.run) :=
  modifyRun db fun _ => ⟨rfl, le_rfl⟩

theorem agentRuns (agentRuns : List AgentRun) :
    Books site db { db with agentRuns := agentRuns } where
  runs := ⟨id, by simp, fun run => .refl run⟩
  calls := ⟨[], by simp⟩
  workflows := rfl
  versions := rfl

theorem call {call : HandlerCall} (made : MadeAt site call) :
    Books site db { db with calls := db.calls ++ [call] } where
  runs := ⟨id, by simp, fun run => .refl run⟩
  calls := ⟨[call], rfl, fun _ member => by rwa [mem_singleton.mp member]⟩
  workflows := rfl
  versions := rfl

theorem finishAgentStep {status : StepStatus} {output : Fields} {error : Option String} :
    Books site db (RedArchKM.Workflow.finishAgentStep db site status output error) := by
  unfold RedArchKM.Workflow.finishAgentStep
  split
  · exact recordStep db
  · exact modifyRun db fun _ => ⟨rfl, le_rfl⟩

end

section

variable (books : Books site before after)

include books

theorem run {runId : RunId} {run : Run} (found : before.runs[runId]? = some run) :
    ∃ run', after.runs[runId]? = some run' ∧ SameCourse run run' ∧
      (runId ≠ site.t.run → run' = run) := by
  obtain ⟨change, runs, same⟩ := books.runs
  rw [runs, getElem?_modify, found]
  by_cases here : site.t.run = runId
  · exact ⟨change run, by simp [here], same run, fun other => absurd here.symm other⟩
  · exact ⟨run, by simp [here], .refl run, fun _ => rfl⟩

theorem length : after.runs.length = before.runs.length := by
  obtain ⟨change, runs, -⟩ := books.runs
  rw [runs, length_modify]

theorem touches {own : RunId → Prop} (owned : own site.t.run) : Touches own before after where
  runs runId run found := by
    obtain ⟨run', found', same, others⟩ := books.run found
    refine ⟨run', found', same.kept, fun other => ?_⟩
    obtain rfl := others fun here => other (here ▸ owned)
    exact .refl _
  calls := by
    obtain ⟨new, appended, made⟩ := books.calls
    exact ⟨new, appended, fun call member => (made call member).runId ▸ owned⟩
  workflows := books.workflows
  versions := books.versions

end

end Books

/-- An outcome that neither fires nor buffers at a join. -/
structure Plain (outcome : NodeOutcome) : Prop where
  noop : outcome.kind ≠ .noop
  emit : outcome.kind ≠ .emit
  park : outcome.kind = .park → outcome.waitKind ≠ some .join

structure Ordinary (site : Site) (db : Db) (result : Db × NodeOutcome) : Prop where
  books : Books site db result.1
  plain : Plain result.2

theorem plain_moveOn {site : Site} {tokenData : Option TokenData} {vars : Fields} :
    Plain (site.moveOn tokenData vars) := ⟨nofun, nofun, nofun⟩

theorem plain_failed {error : String} : Plain (failed error) := ⟨nofun, nofun, nofun⟩

section Nodes

variable {host : Host} {db : Db} {site : Site}

theorem kind_routeTo {outs : List (NodeId × Option String)} {chosen : Option String} :
    (routeTo outs chosen).kind = .advance ∨ (routeTo outs chosen).kind = .complete := by
  simp only [routeTo]
  split
  · exact .inr rfl
  · exact .inl rfl

theorem kind_exclusiveRoute {outcome : NodeOutcome}
    (routed : exclusiveRoute host db site = .ok outcome) :
    outcome.kind = .advance ∨ outcome.kind = .complete := by
  simp only [exclusiveRoute] at routed
  split at routed
  · cases routed
    exact .inr rfl
  · rename_i case cases _ _
    cases chosen : chooseCase host.jsonLogic (exprContext host db site.run) (case :: cases) with
    | error message =>
      rw [chosen] at routed
      cases routed
    | ok handle =>
      rw [chosen] at routed
      cases routed
      exact kind_routeTo
  · rename_i expr _ _ _
    cases value : host.jsonLogic expr (exprContext host db site.run) with
    | error message =>
      rw [value] at routed
      cases routed
    | ok result =>
      rw [value] at routed
      cases routed
      exact kind_routeTo
  · cases routed
    exact .inl rfl

theorem plain_exclusiveRoute {outcome : NodeOutcome}
    (routed : exclusiveRoute host db site = .ok outcome) : Plain outcome := by
  rcases kind_exclusiveRoute routed with kind | kind
  all_goals
    refine ⟨?_, ?_, ?_⟩ <;> rw [kind] <;> exact nofun

theorem plain_dispatchEvent : Ensures Plain (dispatchEvent host db site) := by
  unfold dispatchEvent
  dsimp only
  split
  · split <;> exact .pure ⟨nofun, nofun, nofun⟩
  · split
    · split
      · exact .pure plain_moveOn
      · exact .bind fun _ _ => .pure ⟨nofun, nofun, fun _ => nofun⟩
    · exact .pure ⟨nofun, nofun, fun _ => nofun⟩
    · exact .pure ⟨nofun, nofun, fun _ => nofun⟩
    · exact .pure plain_moveOn
  all_goals exact .pure plain_moveOn

theorem ordinary_completeWait : Ordinary site db (completeWait db site) :=
  ⟨.recordStep db, plain_moveOn⟩

theorem ordinary_dispatchWait {waitKind : WaitKind} (other : waitKind ≠ .join) :
    Ensures (Ordinary site db) (dispatchWait host db site waitKind) := by
  have parks : some waitKind ≠ some WaitKind.join := fun same => other (Option.some.inj same)
  unfold dispatchWait
  dsimp only
  split
  · exact .pure ⟨.refl db, nofun, nofun, fun _ => parks⟩
  · split
    · exact .pure ⟨.recordStep db, nofun, nofun, nofun⟩
    · exact .bind fun _ _ => .pure ⟨.refl db, nofun, nofun, fun _ => parks⟩

theorem ordinary_finishCall {childId : RunId} : Ordinary site db (finishCall db site childId) := by
  simp only [finishCall]
  split
  · exact ⟨.recordStep db, plain_moveOn⟩
  · exact ⟨.recordStep db, plain_moveOn⟩
  · split
    · exact ⟨.recordStep db, nofun, nofun, nofun⟩
    · split
      · exact ⟨.recordStep db, plain_moveOn⟩
      · exact ⟨(Books.recordStep db).trans (.setDeadLetter _), plain_failed⟩
  all_goals exact ⟨.refl db, nofun, nofun, fun _ => nofun⟩

theorem plain_agentFailureOutcome {tokenData : TokenData} {message errorCode : String} :
    Plain (agentFailureOutcome site tokenData message errorCode) := by
  unfold agentFailureOutcome
  split
  · exact ⟨nofun, nofun, nofun⟩
  · split
    · exact plain_moveOn
    · exact plain_failed

theorem ordinary_agentSetupFailure {message : String} :
    Ordinary site db (agentSetupFailure db site message) := by
  simp only [agentSetupFailure]
  split
  · exact ⟨(Books.recordStep db).trans (.setDeadLetter _), plain_agentFailureOutcome⟩
  · exact ⟨.recordStep db, plain_agentFailureOutcome⟩

theorem ordinary_resumeAgent {linkedRunId : AgentRunId} :
    Ordinary site db (resumeAgent db site linkedRunId) := by
  simp only [resumeAgent]
  split
  · exact ⟨(Books.agentRuns db _).trans (.finishAgentStep _), nofun, nofun, nofun⟩
  · exact ⟨.refl db, nofun, nofun, fun _ => nofun⟩

theorem ordinary_enqueueAgent {agentId : AgentId} :
    Ensures (Ordinary site db) (enqueueAgent host db site agentId) := by
  unfold enqueueAgent
  dsimp only
  split
  · exact .pure ⟨(Books.agentRuns db _).trans (.recordStep _), nofun, nofun, fun _ => nofun⟩
  · exact .bind fun _ _ =>
      .pure ⟨(Books.agentRuns db _).trans (.recordStep _), nofun, nofun, fun _ => nofun⟩

theorem ordinary_dispatchAgent : Ensures (Ordinary site db) (dispatchAgent host db site) := by
  unfold dispatchAgent
  dsimp only
  split
  · exact .pure ⟨.finishAgentStep db, plain_moveOn⟩
  · split
    · exact .pure ⟨.finishAgentStep db, plain_agentFailureOutcome⟩
    · exact .pure ordinary_resumeAgent
    · split
      · exact .pure ⟨.refl db, plain_failed⟩
      · split
        · exact .pure ordinary_agentSetupFailure
        · exact ordinary_enqueueAgent

theorem ordinary_dispatchDerivation {evaluate : Json → Except String Fields}
    {result : Db × NodeOutcome}
    (dispatched : dispatchDerivation host db site evaluate = .ok result) :
    Ordinary site db result := by
  unfold dispatchDerivation at dispatched
  split at dispatched
  · cases dispatched
    exact ⟨.refl db, plain_failed⟩
  · cases evaluated : evaluate (exprContext host db site.run) with
    | error message =>
      rw [evaluated] at dispatched
      cases dispatched
    | ok outputs =>
      rw [evaluated] at dispatched
      cases dispatched
      exact ⟨.recordStep db, plain_moveOn⟩

theorem ordinary_actionFailed {error : Option String} :
    Ordinary site db (actionFailed db site error) := by
  unfold actionFailed
  split
  · exact ⟨.refl db, nofun, nofun, nofun⟩
  · split
    · exact ⟨.refl db, plain_moveOn⟩
    · exact ⟨.setDeadLetter db, nofun, nofun, nofun⟩

theorem Ordinary.after {db' : Db} {result : Db × NodeOutcome} (ordinary : Ordinary site db' result)
    (books : Books site db db') : Ordinary site db result :=
  ⟨books.trans ordinary.books, ordinary.plain⟩

theorem ordinary_dispatchAction {actionType : String} :
    Ordinary site db (dispatchAction host db site actionType) := by
  simp only [dispatchAction]
  split
  · exact ⟨.refl db, plain_failed⟩
  · have executed : Books site db { db.recordStep site.t site.node .running with
        calls := db.calls ++ [handlerCall db site actionType] } :=
      (Books.recordStep db).trans (.call _ ⟨rfl, rfl, rfl⟩)
    split
    · exact ⟨executed.trans (.settleStep _), plain_moveOn⟩
    · split
      · exact ⟨executed.trans (.settleStep _), nofun, nofun, fun _ => nofun⟩
      · exact ordinary_actionFailed.after (executed.trans (.settleStep _))

structure StartsChild (host : Host) (db : Db) (site : Site) (db' : Db) (childId : RunId) :
    Prop where
  isCall : site.node.taskType = some .call ∨ site.node.taskType = some .subProcess
  notCompleted : site.token.data.completed = false
  depth : site.run.depth < maxTokenDepth
  fresh : childId = db.runs.length
  started : ∃ targetId versionId version,
    site.node.data.callWorkflowId = some targetId ∧
    db.workflows[targetId]?.bind Workflow.activeVersionId = some versionId ∧
    db.versions[versionId]? = some version ∧
    db' = startRun (createRun db (childRun host db site targetId versionId)) childId
      version.definition

theorem dispatchCall_cases {dispatched : Dispatched}
    (isCall : site.node.taskType = some .call ∨ site.node.taskType = some .subProcess)
    (notCompleted : site.token.data.completed = false)
    (result : dispatchCall host db site = dispatched) :
    (∃ outcome, dispatched = .outcome db outcome ∧ Plain outcome) ∨
      ∃ db' childId, dispatched = .child db' childId ∧
        StartsChild host db site db' childId := by
  subst result
  simp only [dispatchCall]
  split
  · exact .inl ⟨_, rfl, plain_failed⟩
  · rename_i shallow
    split
    · exact .inl ⟨_, rfl, plain_failed⟩
    · rename_i targetId names
      split
      · exact .inl ⟨_, rfl, plain_failed⟩
      · rename_i versionId active
        split
        · exact .inl ⟨_, rfl, plain_failed⟩
        · rename_i version found
          split
          · exact .inl ⟨_, rfl, plain_failed⟩
          · exact .inr ⟨_, _, rfl, isCall, notCompleted, not_le.mp shallow, rfl, targetId,
              versionId, version, names, active, found, rfl⟩

end Nodes

def Site.joins (site : Site) (gatewayType : GatewayType) : Prop :=
  site.node.type = .gateway ∧ site.node.gatewayType = some gatewayType ∧
    2 ≤ (site.model.incomingEdges site.node.id).length

/-- How a dispatch that ends with an outcome came to it. -/
inductive DispatchedBy (db : Db) (site : Site) (result : Db × NodeOutcome) : Prop where
  | ordinary (ordinary : Ordinary site db result)
      (node : ∀ gatewayType ∈ [GatewayType.parallel, .inclusive], ¬ site.joins gatewayType)
  | parallel (joins : site.joins .parallel)
      (fired : result = parallelJoin db site (site.model.incomingEdges site.node.id))
  | inclusive (joins : site.joins .inclusive) (fired : result = inclusiveJoin db site)

section Cases

variable {host : Host} {db : Db} {site : Site}

theorem gateway_joins {gatewayType read : GatewayType}
    (kind : site.node.gatewayType.getD .exclusive = read) (joins : site.joins gatewayType) :
    read = gatewayType := by
  rw [joins.2.1] at kind
  exact kind.symm

theorem dispatchGateway_cases {result : Db × NodeOutcome} (isGateway : site.node.type = .gateway)
    (dispatched : dispatchGateway host db site = .ok result) : DispatchedBy db site result := by
  have named : ∀ {kind : GatewayType}, site.node.gatewayType.getD .exclusive = kind →
      kind ≠ .exclusive → site.node.gatewayType = some kind := by
    intro kind read other
    cases written : site.node.gatewayType with
    | none =>
      rw [written] at read
      exact absurd read.symm other
    | some kind' =>
      rw [written] at read
      exact congrArg some read
  simp only [dispatchGateway] at dispatched
  split at dispatched
  · rename_i kind
    split at dispatched
    · rename_i converges
      cases dispatched
      exact .inclusive ⟨isGateway, named kind nofun, converges⟩ rfl
    · rename_i diverges
      cases dispatched
      exact .ordinary ⟨.refl db, plain_moveOn⟩ fun _ _ joins => diverges joins.2.2
  · rename_i kind
    split at dispatched
    · rename_i converges
      cases dispatched
      exact .parallel ⟨isGateway, named kind nofun, converges⟩ rfl
    · rename_i diverges
      cases dispatched
      exact .ordinary ⟨.refl db, plain_moveOn⟩ fun _ _ joins => diverges joins.2.2
  all_goals
    rename_i kind
    cases routed : exclusiveRoute host db site with
    | error message =>
      rw [routed] at dispatched
      cases dispatched
    | ok outcome =>
      rw [routed] at dispatched
      cases dispatched
      refine .ordinary ⟨.refl db, plain_exclusiveRoute routed⟩ fun gatewayType forks joins => ?_
      obtain rfl := gateway_joins kind joins
      simp at forks

theorem not_joins_of_type {type : NodeType} (isType : site.node.type = type)
    (other : type ≠ .gateway) {gatewayType : GatewayType} : ¬ site.joins gatewayType :=
  fun joins => other (isType.symm.trans joins.1)

/-- **The cases of a dispatch.** -/
theorem dispatch_cases {dispatched : Dispatched} (result : dispatch host db site = .ok dispatched) :
    (∃ db' outcome, dispatched = .outcome db' outcome ∧ DispatchedBy db site (db', outcome)) ∨
      ∃ db' childId, dispatched = .child db' childId ∧ StartsChild host db site db' childId := by
  have task : ∀ {result : Db × NodeOutcome}, site.node.type = .task → Ordinary site db result →
      ∃ db' outcome, Dispatched.of result = .outcome db' outcome ∧
        DispatchedBy db site (db', outcome) := fun isTask ordinary =>
    ⟨_, _, rfl, .ordinary ordinary fun _ _ => not_joins_of_type isTask nofun⟩
  unfold dispatch at result
  split at result
  · rename_i isGateway
    cases routed : dispatchGateway host db site with
    | error message =>
      rw [routed] at result
      cases result
    | ok outcome =>
      rw [routed] at result
      cases result
      exact .inl ⟨_, _, rfl, dispatchGateway_cases isGateway routed⟩
  · rename_i isEvent
    obtain ⟨outcome, decided, rfl⟩ := map_eq_ok.mp result
    exact .inl ⟨_, _, rfl, .ordinary ⟨.refl db, plain_dispatchEvent outcome decided⟩
      fun _ _ => not_joins_of_type isEvent nofun⟩
  · rename_i isTask
    have handled : ∀ {computed : Except String (Db × NodeOutcome)},
        Ensures (Ordinary site db) computed → Dispatched.of <$> computed = .ok dispatched →
        ∃ db' outcome, dispatched = .outcome db' outcome ∧
          DispatchedBy db site (db', outcome) := by
      intro computed ordinary same
      obtain ⟨outcome, decided, rfl⟩ := map_eq_ok.mp same
      exact task isTask (ordinary outcome decided)
    have waits : ∀ waitKind : WaitKind, waitKind ≠ .join →
        Ensures (Ordinary site db) (if site.token.data.completed then .ok (completeWait db site)
          else dispatchWait host db site waitKind) := by
      intro waitKind other
      split
      · exact .pure ordinary_completeWait
      · exact ordinary_dispatchWait other
    have calls : site.node.taskType = some .call ∨ site.node.taskType = some .subProcess →
        (∃ db' outcome, (if site.token.data.completed then Dispatched.of (completeWait db site)
            else dispatchCall host db site) = .outcome db' outcome ∧
          DispatchedBy db site (db', outcome)) ∨
        ∃ db' childId, (if site.token.data.completed then Dispatched.of (completeWait db site)
            else dispatchCall host db site) = .child db' childId ∧
          StartsChild host db site db' childId := by
      intro isCall
      split
      · exact .inl (task isTask ordinary_completeWait)
      · rename_i pending
        have notCompleted : site.token.data.completed = false := by simpa using pending
        rcases dispatchCall_cases isCall notCompleted (rfl : dispatchCall host db site = _)
          with ⟨outcome, same, plain⟩ | child
        · rw [same]
          exact .inl ⟨_, _, rfl, .ordinary ⟨.refl db, plain⟩
            fun _ _ => not_joins_of_type isTask nofun⟩
        · exact .inr child
    unfold dispatchTask at result
    split at result
    · exact .inl (handled (waits .userTask nofun) result)
    · exact .inl (handled (waits .userTask nofun) result)
    · exact .inl (handled (waits .receive nofun) result)
    · rename_i isCall
      cases result
      exact calls (.inl isCall)
    · rename_i isCall
      cases result
      exact calls (.inr isCall)
    · exact .inl (handled ordinary_dispatchAgent result)
    · exact .inl (handled (fun _ => ordinary_dispatchDerivation) result)
    · exact .inl (handled (fun _ => ordinary_dispatchDerivation) result)
    all_goals
      split at result
      · cases result
        exact .inl (task isTask ⟨.recordStep db, plain_moveOn⟩)
      · cases result
        exact .inl (task isTask ⟨.recordStep db, plain_moveOn⟩)
      · cases result
        exact .inl (task isTask ordinary_dispatchAction)
  · rename_i notGateway _ _
    cases result
    exact .inl ⟨_, _, rfl, .ordinary ⟨.refl db, plain_moveOn⟩ fun _ _ joins => notGateway joins.1⟩

def WorkflowNode.passiveWait (node : WorkflowNode) : Option WaitKind :=
  match node.taskType with
  | some .user | some .manual => some .userTask
  | some .receive => some .receive
  | _ => none

def WorkflowNode.IsCall (node : WorkflowNode) : Prop :=
  node.taskType = some .call ∨ node.taskType = some .subProcess

/-- The part of the engine that an outcome comes from. -/
inductive ProducedBy (host : Host) (db : Db) (site : Site) : Db × NodeOutcome → Prop where
  | gateway {result : Db × NodeOutcome} (isGateway : site.node.type = .gateway)
      (routed : dispatchGateway host db site = .ok result) : ProducedBy host db site result
  | event {outcome : NodeOutcome} (isEvent : site.node.type = .event)
      (decided : dispatchEvent host db site = .ok outcome) : ProducedBy host db site (db, outcome)
  | completed (waits : site.node.passiveWait.isSome ∨ site.node.IsCall)
      (completed : site.token.data.completed = true) :
      ProducedBy host db site (completeWait db site)
  | waits {waitKind : WaitKind} {result : Db × NodeOutcome}
      (waits : site.node.passiveWait = some waitKind)
      (uncompleted : site.token.data.completed = false)
      (decided : dispatchWait host db site waitKind = .ok result) : ProducedBy host db site result
  | refused {error : String} (isCall : site.node.IsCall)
      (uncompleted : site.token.data.completed = false) :
      ProducedBy host db site (db, failed error)
  | agent {result : Db × NodeOutcome} (isAgent : site.node.taskType = some .agent)
      (decided : dispatchAgent host db site = .ok result) : ProducedBy host db site result
  | derived {evaluate : Json → Except String Fields} {result : Db × NodeOutcome}
      (derives : site.node.taskType = some .businessRule ∨ site.node.taskType = some .script)
      (derived : dispatchDerivation host db site evaluate = .ok result) :
      ProducedBy host db site result
  | skipped (isTask : site.node.type = .task) (unwired : (site.node.data.actionType.getD "") = "") :
      ProducedBy host db site (skipTask db site)
  | acted {actionType : String} (isTask : site.node.type = .task)
      (wired : site.node.data.actionType = some actionType) :
      ProducedBy host db site (dispatchAction host db site actionType)
  | forwarded (other : site.node.type ∉ [NodeType.gateway, .event, .task]) :
      ProducedBy host db site (db, site.moveOn)

variable {outcome : NodeOutcome}

theorem dispatchCall_refused {db' : Db} (refused : dispatchCall host db site = .outcome db' outcome) :
    db' = db ∧ ∃ error, outcome = failed error := by
  simp only [dispatchCall] at refused
  repeat' split at refused
  all_goals cases refused
  all_goals exact ⟨rfl, _, rfl⟩

theorem dispatchTask_producedBy {db' : Db} (isTask : site.node.type = .task)
    (dispatched : dispatchTask host db site = .ok (.outcome db' outcome)) :
    ProducedBy host db site (db', outcome) := by
  have arises : ∀ {result : Db × NodeOutcome}, ProducedBy host db site result →
      Dispatched.of result = .outcome db' outcome → ProducedBy host db site (db', outcome) := by
    rintro ⟨_, _⟩ produced same
    cases same
    exact produced
  have computes : ∀ {computed : Except String (Db × NodeOutcome)},
      Ensures (ProducedBy host db site) computed →
      Dispatched.of <$> computed = .ok (.outcome db' outcome) →
      ProducedBy host db site (db', outcome) := by
    intro computed produced same
    obtain ⟨result, decided, same⟩ := map_eq_ok.mp same
    exact arises (produced result decided) same
  have waits : ∀ {waitKind : WaitKind}, site.node.passiveWait = some waitKind →
      Ensures (ProducedBy host db site) (if site.token.data.completed then
        .ok (completeWait db site) else dispatchWait host db site waitKind) := by
    intro waitKind waits
    split
    · rename_i isCompleted
      exact .pure (.completed (.inl (by rw [waits]; rfl)) isCompleted)
    · rename_i pending
      exact fun _ => .waits waits (by simpa using pending)
  have calls : site.node.IsCall →
      (if site.token.data.completed then Dispatched.of (completeWait db site)
        else dispatchCall host db site) = .outcome db' outcome →
      ProducedBy host db site (db', outcome) := by
    intro isCall same
    split at same
    · rename_i isCompleted
      exact arises (.completed (.inr isCall) isCompleted) same
    · rename_i pending
      obtain ⟨rfl, error, rfl⟩ := dispatchCall_refused same
      exact .refused isCall (by simpa using pending)
  unfold dispatchTask at dispatched
  split at dispatched
  · rename_i user
    exact computes (waits (by rw [WorkflowNode.passiveWait, user])) dispatched
  · rename_i manual
    exact computes (waits (by rw [WorkflowNode.passiveWait, manual])) dispatched
  · rename_i receive
    exact computes (waits (by rw [WorkflowNode.passiveWait, receive])) dispatched
  · rename_i call
    exact calls (.inl call) (Except.ok.inj dispatched)
  · rename_i call
    exact calls (.inr call) (Except.ok.inj dispatched)
  · rename_i isAgent
    exact computes (fun _ => .agent isAgent) dispatched
  · rename_i rule
    exact computes (fun _ => .derived (.inl rule)) dispatched
  · rename_i script
    exact computes (fun _ => .derived (.inr script)) dispatched
  all_goals
    split at dispatched
    · rename_i unwired
      exact arises (.skipped isTask (by rw [unwired]; rfl)) (Except.ok.inj dispatched)
    · rename_i unwired
      exact arises (.skipped isTask (by rw [unwired]; rfl)) (Except.ok.inj dispatched)
    · rename_i actionType wired
      exact arises (.acted isTask wired) (Except.ok.inj dispatched)

/-- **Where the outcome of a dispatch comes from.** -/
theorem dispatch_producedBy {db' : Db}
    (dispatched : dispatch host db site = .ok (.outcome db' outcome)) :
    ProducedBy host db site (db', outcome) := by
  unfold dispatch at dispatched
  split at dispatched
  · rename_i isGateway
    cases routed : dispatchGateway host db site with
    | error message =>
      rw [routed] at dispatched
      cases dispatched
    | ok result =>
      rw [routed] at dispatched
      cases dispatched
      exact .gateway isGateway routed
  · rename_i isEvent
    obtain ⟨outcome, decided, same⟩ := map_eq_ok.mp dispatched
    cases same
    exact .event isEvent decided
  · rename_i isTask
    exact dispatchTask_producedBy isTask dispatched
  · rename_i notGateway notEvent notTask
    cases dispatched
    exact .forwarded (by simpa using ⟨notGateway, notEvent, notTask⟩)

theorem isTask_of_taskType {node : WorkflowNode} {taskType : TaskType}
    (is : node.taskType = some taskType) : node.type = .task := by
  by_contra other
  rw [WorkflowNode.taskType, if_neg other] at is
  cases is

theorem dispatch_completed (waits : site.node.passiveWait.isSome ∨ site.node.IsCall)
    (completed : site.token.data.completed = true) :
    dispatch host db site = .ok (.of (completeWait db site)) := by
  have passes : ∀ {taskType : TaskType}, site.node.taskType = some taskType →
      taskType ∈ [TaskType.user, .manual, .receive, .call, .subProcess] →
      dispatch host db site = .ok (.of (completeWait db site)) := by
    intro taskType is waits
    simp only [mem_cons, not_mem_nil, or_false] at waits
    rcases waits with rfl | rfl | rfl | rfl | rfl <;>
      simp [dispatch, isTask_of_taskType is, dispatchTask, is, completed]
  rcases waits with passive | isCall
  · unfold WorkflowNode.passiveWait at passive
    split at passive
    · rename_i user
      exact passes user (by simp)
    · rename_i manual
      exact passes manual (by simp)
    · rename_i receive
      exact passes receive (by simp)
    · cases passive
  · rcases isCall with call | call
    · exact passes call (by simp)
    · exact passes call (by simp)

def WorkflowNode.Catches (node : WorkflowNode) : Prop :=
  node.type = .event ∧ node.data.position.getD .intermediate = .intermediate ∧
    (node.data.eventType = some .message ∨ node.data.eventType = some .signal)

theorem kind_dispatchGateway {result : Db × NodeOutcome}
    (dispatched : dispatchGateway host db site = .ok result) : result.2.kind ≠ .park := by
  have moves : ∀ {outcome : NodeOutcome}, outcome.kind = .advance ∨ outcome.kind = .complete →
      outcome.kind ≠ .park := by
    intro outcome either parks
    rcases either with kind | kind <;> exact nomatch kind.symm.trans parks
  simp only [dispatchGateway] at dispatched
  split at dispatched
  · split at dispatched
    · cases dispatched
      simp only [inclusiveJoin]
      split <;> exact nofun
    · cases dispatched
      exact moves (.inl rfl)
  · split at dispatched
    · cases dispatched
      simp only [parallelJoin]
      split <;> exact nofun
    · cases dispatched
      exact moves (.inl rfl)
  all_goals
    cases routed : exclusiveRoute host db site with
    | error message =>
      rw [routed] at dispatched
      cases dispatched
    | ok outcome =>
      rw [routed] at dispatched
      cases dispatched
      exact moves (kind_exclusiveRoute routed)

theorem kind_agentFailureOutcome {tokenData : TokenData} {message errorCode : String} :
    (agentFailureOutcome site tokenData message errorCode).kind ≠ .park := by
  unfold agentFailureOutcome
  split
  · exact nofun
  · split <;> exact nofun

theorem parks_dispatchAgent : Ensures (fun result => result.2.kind = .park →
    result.2.waitKind = some .agent) (dispatchAgent host db site) := by
  unfold dispatchAgent
  dsimp only
  split
  · exact .pure nofun
  · split
    · exact .pure fun parks => absurd parks kind_agentFailureOutcome
    · refine .pure ?_
      unfold resumeAgent
      dsimp only
      split
      · exact nofun
      · exact fun _ => rfl
    · split
      · exact .pure nofun
      · split
        · refine .pure ?_
          unfold agentSetupFailure
          dsimp only
          split <;> exact fun parks => absurd parks kind_agentFailureOutcome
        · unfold enqueueAgent
          dsimp only
          split
          · exact .pure fun _ => rfl
          · exact .bind fun _ _ => .pure fun _ => rfl

theorem parks_dispatchEvent (isEvent : site.node.type = .event) :
    Ensures (fun outcome => outcome.kind = .park → outcome.waitKind = some .timer ∨
      site.node.Catches ∧ outcome.waitKind = some .receive) (dispatchEvent host db site) := by
  unfold dispatchEvent
  dsimp only
  split
  · split <;> exact .pure nofun
  · rename_i position
    split
    · split
      · exact .pure nofun
      · exact .bind fun _ _ => .pure fun _ => .inl rfl
    · rename_i message
      exact .pure fun _ => .inr ⟨⟨isEvent, position, .inl message⟩, rfl⟩
    · rename_i signal
      exact .pure fun _ => .inr ⟨⟨isEvent, position, .inr signal⟩, rfl⟩
    · exact .pure nofun
  all_goals exact .pure nofun

theorem parks_dispatchWait {waitKind : WaitKind} :
    Ensures (fun result => result.2.kind = .park → result.2.waitKind = some waitKind)
      (dispatchWait host db site waitKind) := by
  unfold dispatchWait
  dsimp only
  split
  · exact .pure fun _ => rfl
  · split
    · exact .pure nofun
    · exact .bind fun _ _ => .pure fun _ => rfl

theorem parks_dispatchAction {actionType : String} :
    (dispatchAction host db site actionType).2.kind = .park →
      (dispatchAction host db site actionType).2.waitKind = some .retry := by
  simp only [dispatchAction]
  split
  · exact nofun
  · split
    · exact nofun
    · split
      · exact fun _ => rfl
      · simp only [actionFailed]
        split
        · exact nofun
        · split <;> exact nofun

/-- **What a token that parks waits for.** -/
theorem ProducedBy.parks {result : Db × NodeOutcome} (produced : ProducedBy host db site result)
    (parks : result.2.kind = .park) :
    result.2.waitKind ∈ [some WaitKind.timer, some .agent, some .retry] ∨
      (site.node.Catches ∧ result.2.waitKind = some .receive) ∨
      ∃ waitKind, site.node.passiveWait = some waitKind ∧ site.token.data.completed = false ∧
        result.2.waitKind = some waitKind := by
  cases produced with
  | gateway isGateway routed => exact absurd parks (kind_dispatchGateway routed)
  | event isEvent decided =>
    rcases parks_dispatchEvent isEvent _ decided parks with timer | caught
    · exact .inl (by simp [timer])
    · exact .inr (.inl caught)
  | @waits waitKind _ waits uncompleted decided =>
    exact .inr (.inr ⟨waitKind, waits, uncompleted, parks_dispatchWait _ decided parks⟩)
  | agent _ decided => exact .inl (by simp [parks_dispatchAgent _ decided parks])
  | acted => exact .inl (by simp [parks_dispatchAction parks])
  | @derived evaluate result derives derived =>
    unfold dispatchDerivation at derived
    split at derived
    · cases derived
      cases parks
    · cases evaluated : evaluate (exprContext host db site.run) with
      | error message =>
        rw [evaluated] at derived
        cases derived
      | ok outputs =>
        rw [evaluated] at derived
        cases derived
        cases parks
  | completed | refused | skipped | forwarded => cases parks

end Cases

end RedArchKM.Workflow
