import RedArchKM.Lib.Fallible
import RedArchKM.Workflow.TokenSteps

/-!
# Two drives of one run

A drive of a run reads its own run and the runs it started, the definitions of the workflows they
run and the answers of the handlers. Two stores that agree on these are twins: driven in either,
the run ends alike, or the drive raises in both.

Everything an advance writes and most of what it reads is in the `core` of a store, which leaves
out the definitions and the calls executed before.
-/

namespace RedArchKM.Workflow

open Lib Lib.History Lib.Fallible List

/-- The store without its workflows, their definitions and the calls so far. -/
def Db.core (db : Db) : Db := { db with workflows := [], versions := [], calls := [] }

def coreOf (result : Db × NodeOutcome) : Db × NodeOutcome := (result.1.core, result.2)

def Dispatched.core : Dispatched → Dispatched
  | .outcome db decided => .outcome db.core decided
  | .child db childId => .child db.core childId

/-! ## What reads and writes the core only -/

section Core

variable (db : Db) (runId : RunId) (t : TokenId) (host : Host) (site : Site)

@[simp] theorem runs_core : db.core.runs = db.runs := rfl

@[simp] theorem core_modifyRun (change : Run → Run) :
    (db.modifyRun runId change).core = db.core.modifyRun runId change := rfl

@[simp] theorem core_modifyToken (change : Token → Token) :
    (db.modifyToken t change).core = db.core.modifyToken t change := rfl

@[simp] theorem core_setVariables (updates : Fields) :
    (db.setVariables runId updates).core = db.core.setVariables runId updates := rfl

@[simp] theorem core_killAll : (db.killAll runId).core = db.core.killAll runId := rfl

@[simp] theorem core_cancelRuns (reason : String) :
    (db.cancelRunsForWorkflowRun runId reason).core = db.core.cancelRunsForWorkflowRun runId reason :=
  rfl

@[simp] theorem core_createRun (run : Run) : (createRun db run).core = createRun db.core run := rfl

@[simp] theorem core_signalParent : (signalParent db runId).core = signalParent db.core runId := by
  unfold signalParent
  rw [runs_core]
  split
  · rfl
  · split <;> rfl

@[simp] theorem core_finishRun (status : RunStatus) :
    (finishRun db runId status).core = finishRun db.core runId status := by
  simp [finishRun]

@[simp] theorem core_failRun (error : String) :
    (failRun db runId error).core = failRun db.core runId error := by
  simp [failRun]

@[simp] theorem core_settleRun : (settleRun db runId).core = settleRun db.core runId := by
  unfold settleRun
  rw [runs_core]
  split
  · rfl
  · split
    · rfl
    · split
      · rfl
      · split
        · rfl
        · exact core_finishRun ..

theorem core_startRun (definition : WorkflowDefinitionModel) :
    (startRun db runId definition).core = startRun db.core runId definition := by
  unfold startRun
  split
  · exact core_failRun ..
  · rfl

section

variable (outcome : NodeOutcome)

theorem core_applyTargets :
    (applyTargets db site outcome).core = applyTargets db.core site outcome := by
  unfold applyTargets
  split
  · split <;> rfl
  · rfl

theorem core_applyOutcome :
    (applyOutcome db site outcome).core = applyOutcome db.core site outcome := by
  unfold applyOutcome
  split
  · rfl
  · rfl
  · rfl
  · simp
  · simp
  all_goals
    rw [apply_ite Db.core, core_failRun, core_applyTargets]
    rfl

theorem core_conclude : (conclude db site outcome).core = conclude db.core site outcome := by
  rw [conclude, core_settleRun, core_applyOutcome]
  rfl

end

/-! ### Dispatch -/

@[simp] theorem exprContext_core (run : Run) :
    exprContext host db.core run = exprContext host db run := rfl

@[simp] theorem exclusiveRoute_core :
    exclusiveRoute host db.core site = exclusiveRoute host db site := rfl

theorem core_parallelJoin (incoming : List (NodeId × Option String)) :
    coreOf (parallelJoin db site incoming) = parallelJoin db.core site incoming := by
  exact apply_ite coreOf ..

theorem core_inclusiveJoin : coreOf (inclusiveJoin db site) = inclusiveJoin db.core site := by
  exact apply_ite coreOf ..

theorem core_dispatchGateway :
    coreOf <$> dispatchGateway host db site = dispatchGateway host db.core site := by
  unfold dispatchGateway
  dsimp only
  split
  · split
    · exact congrArg Except.ok (core_inclusiveJoin db site)
    · rfl
  · split
    · exact congrArg Except.ok (core_parallelJoin db site _)
    · rfl
  all_goals
    rw [exclusiveRoute_core]
    cases exclusiveRoute host db site <;> rfl

theorem dispatchEvent_core : dispatchEvent host db.core site = dispatchEvent host db site := rfl

theorem core_completeWait : coreOf (completeWait db site) = completeWait db.core site := rfl

theorem deadline_core (timer : WorkflowNode) :
    deadline host db.core site timer = deadline host db site timer := rfl

theorem core_dispatchWait (waitKind : WaitKind) :
    coreOf <$> dispatchWait host db site waitKind = dispatchWait host db.core site waitKind := by
  unfold dispatchWait
  dsimp only
  split
  · rfl
  · split
    · rfl
    · rw [deadline_core]
      cases deadline host db site _ <;> rfl

theorem core_finishCall (childId : RunId) :
    coreOf (finishCall db site childId) = finishCall db.core site childId := by
  unfold finishCall
  rw [runs_core]
  split
  · rfl
  · rfl
  · split
    · rfl
    · split <;> rfl
  · rfl
  · rfl

theorem core_agentSetupFailure (message : String) :
    coreOf (agentSetupFailure db site message) = agentSetupFailure db.core site message := by
  exact apply_ite coreOf ..

theorem core_finishAgentStep (status : StepStatus) (output : Fields) (error : Option String) :
    (finishAgentStep db site status output error).core =
      finishAgentStep db.core site status output error := by
  unfold finishAgentStep
  rw [runs_core]
  split <;> rfl

theorem core_resumeAgent (linkedRunId : AgentRunId) :
    coreOf (resumeAgent db site linkedRunId) = resumeAgent db.core site linkedRunId := by
  unfold resumeAgent
  dsimp only
  split
  · exact Prod.ext (core_finishAgentStep ..) rfl
  · rfl

theorem core_enqueueAgent (agentId : AgentId) :
    coreOf <$> enqueueAgent host db site agentId = enqueueAgent host db.core site agentId := by
  unfold enqueueAgent
  dsimp only
  split
  · rfl
  · rw [deadline_core]
    cases deadline host db site _ <;> rfl

theorem core_dispatchAgent :
    coreOf <$> dispatchAgent host db site = dispatchAgent host db.core site := by
  unfold dispatchAgent
  dsimp only
  split
  · exact congrArg Except.ok (Prod.ext (core_finishAgentStep ..) rfl)
  · split
    · exact congrArg Except.ok (Prod.ext (core_finishAgentStep ..) rfl)
    · exact congrArg Except.ok (core_resumeAgent ..)
    · split
      · rfl
      · have sameRefusal : agentRefusal db.core site = agentRefusal db site := rfl
        rw [sameRefusal]
        split
        · exact congrArg Except.ok (core_agentSetupFailure ..)
        · exact core_enqueueAgent ..

theorem core_dispatchDerivation (evaluate : Json → Except String Fields) :
    coreOf <$> dispatchDerivation host db site evaluate =
      dispatchDerivation host db.core site evaluate := by
  unfold dispatchDerivation
  split
  · rfl
  · rw [exprContext_core]
    cases evaluate (exprContext host db site.run) <;> rfl

theorem core_actionFailed (error : Option String) :
    coreOf (actionFailed db site error) = actionFailed db.core site error := by
  unfold actionFailed
  split
  · rfl
  · split <;> rfl

end Core

/-! ## Twin stores -/

/-- The handlers answer a call alike whatever was called before. -/
def Host.Steady (host : Host) : Prop :=
  ∀ earlier earlier' call, host.execute earlier call = host.execute earlier' call

def Db.activeVersionId (db : Db) (workflowId : WorkflowId) : Option VersionId :=
  db.workflows[workflowId]?.bind Workflow.activeVersionId

/-- What the workflows are and run, and which others they call, is the same in both stores. -/
structure Shares (own : WorkflowId → Prop) (db db' : Db) : Prop where
  workflows : ∀ workflowId, own workflowId → db'.workflows[workflowId]? = db.workflows[workflowId]?
  versions : ∀ workflowId versionId, own workflowId → db.activeVersionId workflowId = some versionId →
    db'.versions[versionId]? = db.versions[versionId]?
  calls : ∀ workflowId versionId version, own workflowId →
    db.activeVersionId workflowId = some versionId → db.versions[versionId]? = some version →
    ∀ node ∈ version.definition.nodes, ∀ called, node.data.callWorkflowId = some called → own called

/-- Two stores with the same core, whose runs are of workflows that both share. -/
structure Twin (own : WorkflowId → Prop) (db db' : Db) : Prop where
  core : db'.core = db.core
  shares : Shares own db db'
  runs : ∀ run ∈ db.runs, own run.workflowId ∧ db.activeVersionId run.workflowId = some run.versionId

section Twin

variable {own : WorkflowId → Prop} {db db' : Db} {host : Host} {site : Site}

theorem Shares.activeVersionId (shares : Shares own db db') {workflowId : WorkflowId}
    (owned : own workflowId) : db'.activeVersionId workflowId = db.activeVersionId workflowId := by
  rw [Db.activeVersionId, Db.activeVersionId, shares.workflows workflowId owned]

theorem eq_of_core (same : db'.core = db.core) :
    db' = { db with
      workflows := db'.workflows, versions := db'.versions, calls := db'.calls } := by
  cases db'
  simp only [Db.core, Db.mk.injEq] at same ⊢
  simp [same]

theorem twin_dispatchAction (steady : host.Steady) (same : db'.core = db.core)
    (entity : db'.workflows[site.run.workflowId]? = db.workflows[site.run.workflowId]?)
    (actionType : String) :
    coreOf (dispatchAction host db' site actionType) =
      coreOf (dispatchAction host db site actionType) := by
  have sameCall : handlerCall db' site actionType = handlerCall db site actionType := by
    rw [handlerCall, handlerCall, entity]
  have isTwin := eq_of_core same
  generalize db'.workflows = workflows, db'.versions = versions, db'.calls = calls at isTwin
  unfold dispatchAction
  rw [sameCall]
  dsimp only
  rw [steady db'.calls db.calls, isTwin]
  split
  · rfl
  · split
    · rfl
    · split
      · rfl
      · rw [core_actionFailed, core_actionFailed]
        rfl

def CallShared (own : WorkflowId → Prop) (node : WorkflowNode) : Prop :=
  ∀ called, node.data.callWorkflowId = some called → own called

theorem twin_dispatchCall (same : db'.core = db.core) (shares : Shares own db db')
    (called : CallShared own site.node) :
    (dispatchCall host db' site).core = (dispatchCall host db site).core := by
  unfold dispatchCall
  split
  · exact congrArg (Dispatched.outcome · _) same
  · split
    · exact congrArg (Dispatched.outcome · _) same
    · rename_i targetId isTarget
      have owned := called targetId isTarget
      have sameVersion := shares.activeVersionId owned
      unfold Db.activeVersionId at sameVersion
      rw [sameVersion]
      split
      · exact congrArg (Dispatched.outcome · _) same
      · rename_i versionId isActive
        rw [shares.versions targetId versionId owned isActive]
        split
        · exact congrArg (Dispatched.outcome · _) same
        · split
          · exact congrArg (Dispatched.outcome · _) same
          · have sameRuns : db'.runs = db.runs := by
              rw [← runs_core db', same, runs_core]
            have sameContext : ∀ run, exprContext host db' run = exprContext host db run := by
              intro run
              rw [← exprContext_core db', same, exprContext_core]
            have sameChild : childRun host db' site targetId versionId =
                childRun host db site targetId versionId := by
              unfold childRun resolveCallInputs
              rw [sameContext]
            simp only [Dispatched.core, core_startRun, core_createRun, same, sameRuns, sameChild]

theorem twin_dispatch (steady : host.Steady) (same : db'.core = db.core)
    (shares : Shares own db db') (owned : own site.run.workflowId)
    (called : CallShared own site.node) :
    Dispatched.core <$> dispatch host db' site = Dispatched.core <$> dispatch host db site := by
  have ofPair : ∀ {result result' : Except String (Db × NodeOutcome)},
      coreOf <$> result' = coreOf <$> result →
        Dispatched.core <$> Dispatched.of <$> result' =
          Dispatched.core <$> Dispatched.of <$> result := by
    intro result result' agree
    have lift : ∀ result : Except String (Db × NodeOutcome),
        Dispatched.core <$> Dispatched.of <$> result = Dispatched.of <$> coreOf <$> result := by
      intro result
      cases result <;> rfl
    rw [lift, lift, agree]
  have single : ∀ {result result' : Db × NodeOutcome}, coreOf result' = coreOf result →
      Dispatched.core <$> (.ok (.of result') : Except String Dispatched) =
        Dispatched.core <$> .ok (.of result) := by
    intro result result' agree
    exact congrArg (fun result => (.ok (.of result) : Except String Dispatched)) agree
  have waits : ∀ waitKind,
      coreOf <$> (if site.token.data.completed then .ok (completeWait db' site)
        else dispatchWait host db' site waitKind) =
      coreOf <$> (if site.token.data.completed then .ok (completeWait db site)
        else dispatchWait host db site waitKind) := by
    intro waitKind
    split
    · exact congrArg Except.ok (by rw [core_completeWait, core_completeWait, same])
    · rw [core_dispatchWait, core_dispatchWait, same]
  have calls : (if site.token.data.completed then Dispatched.of (completeWait db' site)
        else dispatchCall host db' site).core =
      (if site.token.data.completed then Dispatched.of (completeWait db site)
        else dispatchCall host db site).core := by
    split
    · exact congrArg Dispatched.of
        (by rw [core_completeWait, core_completeWait, same] :
          coreOf (completeWait db' site) = coreOf (completeWait db site))
    · exact twin_dispatchCall same shares called
  unfold dispatch
  split
  · exact ofPair (by rw [core_dispatchGateway, core_dispatchGateway, same])
  · rw [← dispatchEvent_core db', same, dispatchEvent_core]
    cases dispatchEvent host db site with
    | error message => rfl
    | ok outcome =>
      exact congrArg (fun core => (.ok (.outcome core outcome) : Except String Dispatched)) same
  · unfold dispatchTask
    split
    · exact ofPair (waits .userTask)
    · exact ofPair (waits .userTask)
    · exact ofPair (waits .receive)
    · exact congrArg Except.ok calls
    · exact congrArg Except.ok calls
    · exact ofPair (by rw [core_dispatchAgent, core_dispatchAgent, same])
    · exact ofPair (by rw [dispatchDecision, dispatchDecision, core_dispatchDerivation,
        core_dispatchDerivation, same])
    · exact ofPair (by rw [dispatchScript, dispatchScript, core_dispatchDerivation,
        core_dispatchDerivation, same])
    all_goals
      split
      · exact single (congrArg (fun core => skipTask core site) same)
      · exact single (congrArg (fun core => skipTask core site) same)
      · exact single (twin_dispatchAction steady same (shares.workflows _ owned) _)
  · exact congrArg (fun core => (.ok (.outcome core site.moveOn) : Except String Dispatched)) same

/-! ## Twins stay twins -/

theorem Twin.runs_eq (twin : Twin own db db') : db'.runs = db.runs := by
  rw [← runs_core db', twin.core, runs_core]

variable {after after' : Db}

theorem Shares.of_tables (shares : Shares own db db') (workflows : after.workflows = db.workflows)
    (versions : after.versions = db.versions) (workflows' : after'.workflows = db'.workflows)
    (versions' : after'.versions = db'.versions) : Shares own after after' := by
  have sameActive : ∀ workflowId, after.activeVersionId workflowId = db.activeVersionId workflowId := by
    intro workflowId
    rw [Db.activeVersionId, Db.activeVersionId, workflows]
  constructor
  · rw [workflows, workflows']
    exact shares.workflows
  · intro workflowId versionId owned active
    rw [versions, versions']
    exact shares.versions workflowId versionId owned (sameActive _ ▸ active)
  · intro workflowId versionId version owned active found
    exact shares.calls workflowId versionId version owned (sameActive _ ▸ active) (versions ▸ found)

theorem Twin.changed (twin : Twin own db db') {changed changed' : RunId → Prop}
    (core : after'.core = after.core) (touches : Touches changed db after)
    (touches' : Touches changed' db' after') (length : after.runs.length = db.runs.length) :
    Twin own after after' where
  core := core
  shares := twin.shares.of_tables touches.workflows touches.versions touches'.workflows
    touches'.versions
  runs run member := by
    obtain ⟨runId, found⟩ := List.getElem?_of_mem member
    have inside := (List.getElem?_eq_some_iff.mp found).1
    rw [length] at inside
    obtain ⟨run', found', kept, -⟩ := touches.runs runId _ (List.getElem?_eq_getElem inside)
    cases found.symm.trans found'
    obtain ⟨owned, active⟩ := twin.runs _ (getElem_mem inside)
    rw [kept.workflowId, kept.versionId, Db.activeVersionId, touches.workflows]
    exact ⟨owned, active⟩

theorem Twin.started (twin : Twin own db db') (called : CallShared own site.node) {childId : RunId}
    (core : after'.core = after.core) (starts : StartsChild host db site after childId)
    (starts' : StartsChild host db' site after' childId) : Twin own after after' where
  core := core
  shares := twin.shares.of_tables starts.touches.workflows starts.touches.versions
    starts'.touches.workflows starts'.touches.versions
  runs run member := by
    obtain ⟨targetId, versionId, version, isTarget, active, found, rfl⟩ := starts.started
    have fromStart : Touches (fun _ => True)
        (createRun db (childRun host db site targetId versionId))
        (startRun (createRun db (childRun host db site targetId versionId)) childId
          version.definition) := touches_startRun trivial
    obtain ⟨runId, placed⟩ := List.getElem?_of_mem member
    have inside := (List.getElem?_eq_some_iff.mp placed).1
    rw [length_startRun] at inside
    obtain ⟨run', placed', kept, -⟩ := fromStart.runs runId _ (List.getElem?_eq_getElem inside)
    cases placed.symm.trans placed'
    rw [kept.workflowId, kept.versionId, Db.activeVersionId, starts.touches.workflows]
    rcases mem_append.mp (getElem_mem inside) with old | new
    · exact twin.runs _ old
    · rw [mem_singleton.mp new]
      exact ⟨called targetId isTarget, active⟩

theorem Twin.callShared (twin : Twin own db db') {run : Run} (member : run ∈ db.runs)
    {version : WorkflowVersion} (found : db.versions[run.versionId]? = some version)
    {node : WorkflowNode} (ofModel : node ∈ (normalize version.definition).nodes) :
    CallShared own node := by
  obtain ⟨owned, active⟩ := twin.runs run member
  have original : ∃ written ∈ version.definition.nodes,
      node.data.callWorkflowId = written.data.callWorkflowId := by
    unfold normalize at ofModel
    split at ofModel
    · exact ⟨node, ofModel, rfl⟩
    · obtain ⟨written, isNode, rfl⟩ := mem_map.mp ofModel
      refine ⟨written, isNode, ?_⟩
      unfold normalizeNode
      split <;> rfl
  obtain ⟨written, isNode, same⟩ := original
  intro called calls
  exact twin.shares.calls _ _ version owned active found written isNode called (same ▸ calls)

/-! ## Twin drives -/

def TwinWorlds (own : WorkflowId → Prop) (world world' : World) : Prop := Twin own world.now world'.now

variable {drive drive' : World → RunId → Except String World} {world world' : World}

def DrivesAgree (own : WorkflowId → Prop) (drive drive' : World → RunId → Except String World) :
    Prop :=
  ∀ world world' runId, TwinWorlds own world world' →
    Agree (TwinWorlds own) (drive world runId) (drive' world' runId)

theorem twin_dispatched {dispatched : Dispatched}
    (same : Dispatched.core <$> dispatch host db' site = Dispatched.core <$> dispatch host db site)
    (isDispatched : dispatch host db site = .ok dispatched) :
    ∃ dispatched', dispatch host db' site = .ok dispatched' ∧ dispatched'.core = dispatched.core := by
  rw [isDispatched] at same
  cases isDispatched' : dispatch host db' site with
  | error message =>
    rw [isDispatched'] at same
    cases same
  | ok dispatched' =>
    rw [isDispatched'] at same
    exact ⟨dispatched', rfl, Except.ok.inj same⟩

theorem twin_conclude (twin : Twin own db db') {changed changed' : RunId → Prop}
    (core : after'.core = after.core) (touches : Touches changed db after)
    (touches' : Touches changed' db' after') (length : after.runs.length = db.runs.length)
    (outcome : NodeOutcome) :
    Twin own (conclude after site outcome) (conclude after' site outcome) := by
  have concludes : ∀ {changed : RunId → Prop} {db after : Db}, Touches changed db after →
      Touches (fun _ => True) db (conclude after site outcome) := fun touches =>
    (touches.mono fun _ _ => trivial).trans (touches_conclude trivial)
  refine twin.changed ?_ (concludes touches) (concludes touches') ?_
  · rw [core_conclude, core_conclude, core]
  · rw [length_conclude, length]

def concludeDispatched (drive : World → RunId → Except String World) (world : World) (site : Site) :
    Dispatched → Except String World
  | .outcome db outcome => return world.step (.advanced site.t outcome) (conclude db site outcome)
  | .child db childId => do
      let driven ← drive (world.step (.called site.t childId) db) childId
      let (db, outcome) := finishCall driven.now site childId
      return driven.step (.returned site.t outcome) (conclude db site outcome)

theorem twin_concluded (drives : DrivesAgree own drive drive') (twin : TwinWorlds own world world')
    (called : CallShared own site.node) {dispatched dispatched' : Dispatched}
    (isDispatched : dispatch host world.now site = .ok dispatched)
    (isDispatched' : dispatch host world'.now site = .ok dispatched')
    (same : dispatched'.core = dispatched.core) :
    Agree (TwinWorlds own) (concludeDispatched drive world site dispatched)
      (concludeDispatched drive' world' site dispatched') := by
  rcases dispatch_cases isDispatched with ⟨db, outcome, rfl, how⟩ | ⟨db, childId, rfl, starts⟩
  · rcases dispatch_cases isDispatched' with ⟨db', outcome', rfl, how'⟩ | ⟨db', childId', rfl, _⟩
    · obtain ⟨core, rfl⟩ := Dispatched.outcome.inj same
      exact .ok (twin_conclude twin core (how.touches rfl) (how'.touches rfl) how.length _)
    · cases same
  · rcases dispatch_cases isDispatched' with ⟨db', outcome', rfl, _⟩ | ⟨db', childId', rfl, starts'⟩
    · cases same
    · obtain ⟨core, rfl⟩ := Dispatched.child.inj same
      have begun : TwinWorlds own (world.step (.called site.t childId') db)
          (world'.step (.called site.t childId') db') := twin.started called core starts starts'
      refine (drives _ _ childId' begun).bind fun driven driven' twin' => ?_
      have sameResult : coreOf (finishCall driven'.now site childId') =
          coreOf (finishCall driven.now site childId') := by
        rw [core_finishCall, core_finishCall, twin'.core]
      obtain ⟨sameCore, sameOutcome⟩ := Prod.mk.inj sameResult
      have finished : ∀ db : Db, Ordinary site db (finishCall db site childId') := fun db =>
        ordinary_finishCall
      refine .ok (?_ : Twin own
        (conclude (finishCall driven.now site childId').1 site (finishCall driven.now site childId').2)
        (conclude (finishCall driven'.now site childId').1 site
          (finishCall driven'.now site childId').2))
      rw [sameOutcome]
      exact twin_conclude twin' sameCore ((finished _).books.touches rfl)
        ((finished _).books.touches rfl) (finished _).books.length _

section

variable (steady : host.Steady) (drives : DrivesAgree own drive drive')

include steady drives

theorem twin_advanceOne (twin : TwinWorlds own world world') (t : TokenId) :
    Agree (TwinWorlds own) (advanceOne host drive world t) (advanceOne host drive' world' t) := by
  have sameRuns := twin.runs_eq
  have sameToken : world'.now.token? t = world.now.token? t := by
    rw [Db.token?, sameRuns, Db.token?]
  unfold advanceOne
  rw [sameRuns, sameToken]
  cases foundRun : world.now.runs[t.run]? with
  | none => exact .ok twin
  | some run =>
    cases foundToken : world.now.token? t with
    | none => exact .ok twin
    | some token =>
      have member : run ∈ world.now.runs := mem_of_getElem? foundRun
      obtain ⟨owned, active⟩ := twin.runs run member
      have sameVersion := twin.shares.versions _ _ owned active
      dsimp only
      rw [sameVersion]
      cases foundVersion : world.now.versions[run.versionId]? with
      | none =>
        have fails : ∀ db : Db, Touches (fun _ => True) db
            ((failRun db t.run "workflow version missing").modifyToken t
              (Token.withStatus .dead)) := fun db =>
          (touches_failRun trivial).trans (touches_modifyToken trivial)
        refine .ok (twin.changed ?_ (fails _) (fails _) (by simp))
        rw [now_step, now_step, core_modifyToken, core_modifyToken, core_failRun, core_failRun,
          twin.core]
      | some version =>
        dsimp only
        cases foundNode : (normalize version.definition).nodeById token.nodeId with
        | none =>
          have strands : ∀ db : Db, Touches (fun _ => True) db
              (settleRun (db.modifyToken t (Token.withStatus .dead)) t.run) := fun db =>
            (touches_modifyToken trivial).trans (touches_settleRun trivial)
          refine .ok (twin.changed ?_ (strands _) (strands _) (by simp))
          rw [now_step, now_step, core_settleRun, core_settleRun, core_modifyToken,
            core_modifyToken, twin.core]
        | some node =>
          obtain ⟨site, isSite⟩ : ∃ site : Site, site =
            { t, token, run, model := normalize version.definition, node } := ⟨_, rfl⟩
          have ofModel := (WorkflowDefinitionModel.mem_of_nodeById foundNode).1
          have called : CallShared own site.node := by
            rw [isSite]
            exact twin.callShared member foundVersion ofModel
          have ownsSite : own site.run.workflowId := by
            rwa [isSite]
          have same := twin_dispatch steady twin.core twin.shares ownsSite called
          dsimp only
          rw [← isSite]
          cases isDispatched : dispatch host world.now site with
          | error message =>
            rw [isDispatched] at same
            cases isDispatched' : dispatch host world'.now site with
            | error message' =>
              rw [isDispatched'] at same
              obtain rfl := Except.error.inj same
              exact .error message'
            | ok dispatched' =>
              rw [isDispatched'] at same
              cases same
          | ok dispatched =>
            obtain ⟨dispatched', isDispatched', sameCore⟩ :=
              twin_dispatched same isDispatched
            have isAt : t = site.t := by rw [isSite]
            rw [isDispatched', isAt]
            exact twin_concluded drives twin called isDispatched isDispatched' sameCore

/-- The two sessions hold the same tokens as active. -/
def TwinPasses (own : WorkflowId → Prop) (passed passed' : World × List TokenId) : Prop :=
  TwinWorlds own passed.1 passed'.1 ∧ passed'.2 = passed.2

theorem twin_drivePass (twin : TwinWorlds own world world') (listed : List TokenId) :
    Agree (TwinPasses own) (drivePass (advanceOne host drive) listed world)
      (drivePass (advanceOne host drive') listed world') := by
  induction listed generalizing world world' with
  | nil => exact .ok ⟨twin, rfl⟩
  | cons t rest ih =>
    have takes : ∀ db : Db, Touches (fun _ => True) db
        (db.modifyToken t (Token.withStatus .running)) := fun db => touches_modifyToken trivial
    have taken : TwinWorlds own
        (world.step (.taken t) (world.now.modifyToken t (Token.withStatus .running)))
        (world'.step (.taken t) (world'.now.modifyToken t (Token.withStatus .running))) := by
      refine twin.changed ?_ (takes _) (takes _) (by simp)
      rw [now_step, now_step, core_modifyToken, core_modifyToken, twin.core]
    refine (twin_advanceOne steady drives taken t).bind fun advanced advanced' twin' => ?_
    refine (ih twin').bind fun passed passed' ⟨twin'', sameHeld⟩ => .ok ⟨twin'', ?_⟩
    have sameStatus : hasStatus advanced'.now .active t = hasStatus advanced.now .active t := by
      rw [hasStatus, Db.token?, twin'.runs_eq, hasStatus, Db.token?]
    rw [sameStatus, sameHeld]

theorem twin_drivePasses (runId : RunId) (twin : TwinWorlds own world world') (passes : Nat)
    (held : List TokenId) :
    Agree (TwinWorlds own) (drivePasses (advanceOne host drive) runId passes held world)
      (drivePasses (advanceOne host drive') runId passes held world') := by
  induction passes generalizing world world' held with
  | zero => exact .ok twin
  | succ passes ih =>
    have sameActive : activeTokens world'.now runId held = activeTokens world.now runId held := by
      have sameRuns := twin.runs_eq
      unfold activeTokens hasStatus tokensOf Db.token?
      rw [sameRuns]
    unfold drivePasses
    rw [sameActive]
    split
    · exact .ok twin
    · refine (twin_drivePass steady drives twin _).bind ?_
      rintro ⟨next, held⟩ ⟨next', held'⟩ ⟨twin', sameHeld⟩
      obtain rfl : held' = held := sameHeld
      exact ih twin' _

end

/-- **Drives of twins agree**, by induction on the levels of calls. -/
theorem drivesAgree (steady : host.Steady) (levels : Nat) :
    DrivesAgree own (driveRun host levels) (driveRun host levels) := by
  induction levels with
  | zero =>
    intro world world' runId twin
    exact twin_drivePasses steady (fun _ _ _ twin => .ok twin) runId twin maxPasses []
  | succ levels ih =>
    intro world world' runId twin
    exact twin_drivePasses steady ih runId twin maxPasses []

end Twin

end RedArchKM.Workflow
