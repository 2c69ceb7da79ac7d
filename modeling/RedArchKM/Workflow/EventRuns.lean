import RedArchKM.Workflow.LegacyWalker
import RedArchKM.Workflow.Outbox
import RedArchKM.Workflow.TwinDrives

/-!
# The runs of an outbox event

A pending event is worked off in one savepoint: each workflow it fires gets its run, which the
token engine drives or the legacy walker executes. The walker turns an expression that raises
into a failed run. The engine lets it pass, and then the savepoint takes back the runs of every
workflow of the event.

The rows of a run are kept together with those of the runs its call tasks start: no other run of
the event reads or writes them. What the runs share are the tables of workflows, versions and
agents and whatever the handlers change, which `calls` stands for.
-/

namespace RedArchKM.Workflow

open Lib Lib.Fallible List Function Option

/-! ## One workflow -/

structure DispatchSettings where
  maxDepth : Nat := 8
  tokenEngineEnabled : Bool := true

/-- A run that an event made, as run 0 of its rows, and where and when its walk resumes. -/
structure EventRun where
  db : Db
  resume : Option (NodeId × Nat) := none

namespace EventRun

def status? (eventRun : EventRun) : Option RunStatus := eventRun.db.runs[0]?.map Run.status

def steps (eventRun : EventRun) : List RunStep := (eventRun.db.runs[0]?.map Run.steps).getD []

end EventRun

def depthFor (event : OutboxEvent) : Nat :=
  match event.origin with
  | none => 0
  | some depth => depth.getD 0 + 1

def useTokenEngine (settings : DispatchSettings) (definition : WorkflowDefinitionModel) : Bool :=
  settings.tokenEngineEnabled && definition.isV2

def nullable : Option Fields → Json
  | none => .null
  | some fields => .obj fields

def eventRow (event : OutboxEvent) (workflowId : WorkflowId) (versionId : VersionId) : Run where
  workflowId := workflowId
  versionId := versionId
  recordId := some event.recordId
  inputSnapshot := { before := nullable event.beforeData, after := nullable event.afterData }
  depth := depthFor event

/-- The tables and the row of a new run. -/
def createEventRun (db : Db) (calls : List HandlerCall) (run : Run) : Db :=
  { db with runs := [run], agentRuns := [], calls }

def finishEventRun (db : Db) (status : RunStatus) (error : Option String := none)
    (matched : Option Bool := none) : Db :=
  db.modifyRun 0 fun run =>
    { run with
      status := status
      error := error.or run.error
      conditionsMatched := matched.getD run.conditionsMatched }

def walkerCall (event : OutboxEvent) (run : Run) (node : WorkflowNode) : HandlerCall where
  runId := 0
  nodeId := node.id
  actionType := node.data.actionType.getD ""
  config := node.data.config
  recordId := some event.recordId
  before := nullable event.beforeData
  after := nullable event.afterData
  inputs := []
  vars := run.vars
  entityDefinitionId := some event.entityDefinitionId

def walkerStep (index : Nat) (node : WorkflowNode) (result : ActionResult) : RunStep where
  nodeId := node.id
  stepIndex := index
  tokenIndex := 0
  status := if result.ok then .succeeded else .failed
  output := if result.ok then some result.output else none
  error := if result.ok then none else result.error

def runActions (host : Host) (event : OutboxEvent) (run : Run) :
    Nat → List WorkflowNode → Db → Db × Bool
  | _, [], db => (db, true)
  | index, node :: rest, db =>
    let call := walkerCall event run node
    let result := host.execute db.calls call
    let db := { db.modifyRun 0 fun run =>
        { run with steps := run.steps ++ [walkerStep index node result] } with
      calls := db.calls ++ [call] }
    if !result.ok && !node.data.continueOnError then (db, false)
    else runActions host event run (index + 1) rest db

/-- After the actions of a walk: fail, suspend at a delay, or succeed. A wait beyond the last
moment raises. -/
def settleEventRun (result : GraphEvaluation) (db : Db) (ok : Bool) : Except String EventRun :=
  if !ok then .ok { db := finishEventRun db .failed none (some true) }
  else
    match result.paused, result.resumeNodeId with
    | true, some resumeNodeId =>
      let resumeAt := db.now + seconds result.delaySeconds.toNat
      if maxDatetime < resumeAt then .error "date value out of range"
      else
        .ok { db := finishEventRun db .waiting none (some true)
              resume := some (resumeNodeId, resumeAt) }
    | _, _ => .ok { db := finishEventRun db .succeeded none (some true) }

def runWalker (host : Host) (event : OutboxEvent) (run : Run) (definition : WorkflowDefinitionModel)
    (db : Db) : Except String EventRun :=
  let context : Json := .obj [("before", nullable event.beforeData), ("after", nullable event.afterData)]
  let result := evaluateGraph host.jsonLogic definition context
  match result.error with
  | some error => .ok { db := finishEventRun db .failed (some error) (some false) }
  | none =>
    if !result.matched then .ok { db := finishEventRun db .skipped none (some false) }
    else
      let (db, ok) := runActions host event run 0 result.actions db
      settleEventRun result db ok

def runTokenEngine (host : Host) (definition : WorkflowDefinitionModel) (db : Db) :
    Except String EventRun := do
  let driven ← driveRun host maxTokenDepth { now := startRun db 0 definition } 0
  return { db := driven.now }

def runWorkflow (host : Host) (settings : DispatchSettings) (db : Db) (event : OutboxEvent)
    (calls : List HandlerCall) (workflowId : WorkflowId) (versionId : VersionId)
    (version : WorkflowVersion) : Except String EventRun :=
  let run := eventRow event workflowId versionId
  let created := createEventRun db calls run
  if settings.maxDepth < run.depth then
    .ok { db := finishEventRun created .skipped (some s!"max depth {settings.maxDepth} exceeded") }
  else if useTokenEngine settings version.definition then
    runTokenEngine host version.definition created
  else runWalker host event run version.definition created

/-! ## All workflows of an event -/

structure EventStore where
  runs : WorkflowId → Option EventRun := fun _ => none
  calls : List HandlerCall := []

def firedVersion (db : Db) (event : OutboxEvent) (runs : WorkflowId → Option EventRun)
    (workflowId : WorkflowId) : Option (VersionId × WorkflowVersion) :=
  if fires db event workflowId && (runs workflowId).isNone then
    (db.activeVersionId workflowId).bind fun versionId =>
      (activeVersion db workflowId).map fun version => (versionId, version)
  else none

def processEvent (host : Host) (settings : DispatchSettings) (db : Db) (event : OutboxEvent) :
    List WorkflowId → EventStore → Except String EventStore
  | [], store => .ok store
  | workflowId :: listed, store =>
    match firedVersion db event store.runs workflowId with
    | none => processEvent host settings db event listed store
    | some (versionId, version) => do
        let eventRun ← runWorkflow host settings db event store.calls workflowId versionId version
        processEvent host settings db event listed
          { runs := update store.runs workflowId (some eventRun)
            calls := eventRun.db.calls }

/-- Work off a pending event in its savepoint: its runs afterwards, and its status. -/
def processPending (host : Host) (settings : DispatchSettings) (db : Db) (event : OutboxEvent)
    (listed : List WorkflowId) (store : EventStore) :
    (WorkflowId → Option EventRun) × OutboxStatus :=
  match processEvent host settings db event listed store with
  | .ok processed => (processed.runs, .done)
  | .error _ => (store.runs, .skipped)

/-! ## What is promised -/

/-- The runs ended with the same status and the same steps. -/
def Alike (eventRun eventRun' : EventRun) : Prop :=
  eventRun'.status? = eventRun.status? ∧ eventRun'.steps = eventRun.steps

/-- **One broken workflow does not suppress another**: whatever else an event fires, the workflow
has its run afterwards, and the run ended alike. -/
def Unaffected (after after' : WorkflowId → Option EventRun) (workflowId : WorkflowId) : Prop :=
  ∃ eventRun eventRun', after workflowId = some eventRun ∧ after' workflowId = some eventRun' ∧
    Alike eventRun eventRun'

section

variable (host : Host) (settings : DispatchSettings) (db : Db) (event : OutboxEvent)

/-- The run of the workflow raises when it is executed, also with nothing called before. -/
def Raises (started : WorkflowId × VersionId × WorkflowVersion) : Prop :=
  ∃ message, runWorkflow host settings db event [] started.1 started.2.1 started.2.2 =
    .error message

def NoneRaises (runs : WorkflowId → Option EventRun) (listed : List WorkflowId) : Prop :=
  ∀ workflowId ∈ listed, ∀ started, firedVersion db event runs workflowId = some started →
    ¬ Raises host settings db event (workflowId, started)

end

/-! ## One run in two stores -/

section Twins

variable {host : Host} {settings : DispatchSettings} {event : OutboxEvent}
  {own : WorkflowId → Prop} {db db' : Db}

theorem alike_of_runs {eventRun eventRun' : EventRun} (same : eventRun'.db.runs = eventRun.db.runs) :
    Alike eventRun eventRun' := by
  unfold Alike EventRun.status? EventRun.steps
  rw [same]
  exact ⟨rfl, rfl⟩

/-- The tables of both stores have the same agents and the same clock. -/
structure SameSetting (db db' : Db) : Prop where
  agents : db'.agents = db.agents
  now : db'.now = db.now

theorem core_createEventRun (same : SameSetting db db') (calls calls' : List HandlerCall) (run : Run) :
    (createEventRun db' calls' run).core = (createEventRun db calls run).core := by
  unfold createEventRun Db.core
  rw [same.agents, same.now]

theorem alike_runTokenEngine (steady : host.Steady) (twin : Twin own db db')
    (definition : WorkflowDefinitionModel) :
    Agree Alike (runTokenEngine host definition db) (runTokenEngine host definition db') := by
  have starts : ∀ db : Db, Touches (fun _ => True) db (startRun db 0 definition) := fun db =>
    touches_startRun trivial
  have begun : TwinWorlds own { now := startRun db 0 definition } { now := startRun db' 0 definition } := by
    refine twin.changed ?_ (starts _) (starts _) (by simp)
    rw [core_startRun, core_startRun, twin.core]
  refine (drivesAgree steady maxTokenDepth _ _ 0 begun).bind fun driven driven' twin' => ?_
  exact .ok (alike_of_runs twin'.runs_eq)

theorem core_runActions (steady : host.Steady) (run : Run) (actions : List WorkflowNode) (index : Nat)
    (same : db'.core = db.core) :
    (runActions host event run index actions db').1.core =
        (runActions host event run index actions db).1.core ∧
      (runActions host event run index actions db').2 =
        (runActions host event run index actions db).2 := by
  induction actions generalizing index db db' with
  | nil => exact ⟨same, rfl⟩
  | cons node rest ih =>
    have written : ∀ change calls calls',
        { db'.modifyRun 0 change with calls := calls' }.core =
          { db.modifyRun 0 change with calls := calls }.core := fun change _ _ =>
      congrArg (fun core : Db => core.modifyRun 0 change) same
    unfold runActions
    dsimp only
    rw [steady db'.calls db.calls]
    split
    · exact ⟨written _ _ _, rfl⟩
    · exact ih (index + 1) (written _ _ _)

theorem core_finishEventRun (same : db'.core = db.core) (status : RunStatus) (error : Option String)
    (matched : Option Bool) :
    (finishEventRun db' status error matched).runs =
      (finishEventRun db status error matched).runs := by
  have ofCore : ∀ db : Db, (finishEventRun db status error matched).runs =
      (finishEventRun db.core status error matched).runs := fun _ => rfl
  rw [ofCore db', same, ← ofCore db]

theorem alike_settleEventRun (same : db'.core = db.core) (result : GraphEvaluation) (ok : Bool) :
    Agree Alike (settleEventRun result db ok) (settleEventRun result db' ok) := by
  have ofCore : ∀ db : Db, db.now = db.core.now := fun _ => rfl
  have sameClock : db'.now = db.now := by rw [ofCore db', same, ← ofCore db]
  have finished : ∀ status error matched resume resume',
      Alike { db := finishEventRun db status error matched, resume := resume }
        { db := finishEventRun db' status error matched, resume := resume' } :=
    fun _ _ _ _ _ => alike_of_runs (core_finishEventRun same _ _ _)
  unfold settleEventRun
  dsimp only
  rw [sameClock]
  split
  · exact .ok (finished _ _ _ _ _)
  · split
    · split
      · exact .error _
      · exact .ok (finished _ _ _ _ _)
    · exact .ok (finished _ _ _ _ _)

theorem alike_runWalker (steady : host.Steady) (same : db'.core = db.core) (run : Run)
    (definition : WorkflowDefinitionModel) :
    Agree Alike (runWalker host event run definition db) (runWalker host event run definition db') := by
  unfold runWalker
  dsimp only
  split
  · exact .ok (alike_of_runs (core_finishEventRun same _ _ _))
  · split
    · exact .ok (alike_of_runs (core_finishEventRun same _ _ _))
    · let actions := (evaluateGraph host.jsonLogic definition
        (.obj [("before", nullable event.beforeData), ("after", nullable event.afterData)])).actions
      obtain ⟨sameCore, sameOk⟩ : (runActions host event run 0 actions db').1.core =
          (runActions host event run 0 actions db).1.core ∧
          (runActions host event run 0 actions db').2 = (runActions host event run 0 actions db).2 :=
        core_runActions steady run actions 0 same
      rw [sameOk]
      exact alike_settleEventRun sameCore _ _

/-- **A run ends alike in two stores** that share its workflow and those it calls, whatever was
called before it. -/
theorem alike_runWorkflow (steady : host.Steady) (setting : SameSetting db db')
    (shares : Shares own db db') {workflowId : WorkflowId} {versionId : VersionId}
    (owned : own workflowId) (active : db.activeVersionId workflowId = some versionId)
    (version : WorkflowVersion) (calls calls' : List HandlerCall) :
    Agree Alike (runWorkflow host settings db event calls workflowId versionId version)
      (runWorkflow host settings db' event calls' workflowId versionId version) := by
  have core := core_createEventRun setting calls calls' (eventRow event workflowId versionId)
  unfold runWorkflow
  dsimp only
  split
  · exact .ok (alike_of_runs (core_finishEventRun core _ _ _))
  · split
    · have twin : Twin own (createEventRun db calls (eventRow event workflowId versionId))
          (createEventRun db' calls' (eventRow event workflowId versionId)) := by
        refine ⟨core, shares.of_tables rfl rfl rfl rfl, fun run member => ?_⟩
        obtain rfl := mem_singleton.mp member
        exact ⟨owned, active⟩
      exact alike_runTokenEngine steady twin _
    · exact alike_runWalker steady core _ _

end Twins

/-! ## The runs of an event -/

section Process

variable {host : Host} {settings : DispatchSettings} {event : OutboxEvent} {db db' : Db}
  {listed listed' : List WorkflowId} {store store' processed : EventStore} {workflowId : WorkflowId}
  {started : VersionId × WorkflowVersion}

theorem SameSetting.refl (db : Db) : SameSetting db db := ⟨rfl, rfl⟩

theorem Shares.refl (db : Db) : Shares (fun _ => True) db db :=
  ⟨fun _ _ => rfl, fun _ _ _ _ => rfl, fun _ _ _ _ _ _ _ _ _ _ => trivial⟩

theorem activeVersionId_of_fired {runs : WorkflowId → Option EventRun}
    (fired : firedVersion db event runs workflowId = some started) :
    db.activeVersionId workflowId = some started.1 := by
  unfold firedVersion at fired
  split at fired
  · obtain ⟨versionId, active, found⟩ := bind_eq_some_iff.mp fired
    obtain ⟨version, -, rfl⟩ := map_eq_some_iff.mp found
    exact active
  · cases fired

theorem exists_ok_iff_not_raises (steady : host.Steady)
    (active : db.activeVersionId workflowId = some started.1) (calls : List HandlerCall) :
    (∃ eventRun, runWorkflow host settings db event calls workflowId started.1 started.2 =
        .ok eventRun) ↔
      ¬ Raises host settings db event (workflowId, started) := by
  have agree : Agree Alike
      (runWorkflow host settings db event [] workflowId started.1 started.2)
      (runWorkflow host settings db event calls workflowId started.1 started.2) :=
    alike_runWorkflow steady (.refl db) (Shares.refl db) trivial active started.2 [] calls
  rw [← agree.exists_ok_iff, Raises]
  cases runWorkflow host settings db event [] workflowId started.1 started.2 with
  | error message => exact ⟨nofun, fun absent => absurd ⟨message, rfl⟩ absent⟩
  | ok eventRun => exact ⟨fun _ => nofun, fun _ => ⟨eventRun, rfl⟩⟩

theorem firedVersion_update_of_ne {visited : WorkflowId} (eventRun : EventRun)
    (different : workflowId ≠ visited) :
    firedVersion db event (update store.runs visited (some eventRun)) workflowId =
      firedVersion db event store.runs workflowId := by
  unfold firedVersion
  rw [update_of_ne different]

theorem noneRaises_update (eventRun : EventRun) {rest : List WorkflowId}
    (harmless : ∀ started, firedVersion db event store.runs workflowId = some started →
      ¬ Raises host settings db event (workflowId, started)) :
    NoneRaises host settings db event (update store.runs workflowId (some eventRun)) rest ↔
      NoneRaises host settings db event store.runs rest := by
  have self : firedVersion db event (update store.runs workflowId (some eventRun))
      workflowId = none := by
    unfold firedVersion
    simp
  constructor
  · intro none' visited member started fired
    by_cases same : visited = workflowId
    · subst same
      exact harmless started fired
    · exact none' visited member started ((firedVersion_update_of_ne eventRun same).trans fired)
  · intro none' visited member started fired
    by_cases same : visited = workflowId
    · subst same
      rw [self] at fired
      cases fired
    · exact none' visited member started ((firedVersion_update_of_ne eventRun same).symm.trans fired)

/-- **The savepoint of an event is kept exactly when no run of it raises.** -/
theorem processEvent_ok_iff (steady : host.Steady) :
    (∃ processed, processEvent host settings db event listed store = .ok processed) ↔
      NoneRaises host settings db event store.runs listed := by
  induction listed generalizing store with
  | nil => exact ⟨fun _ => nofun, fun _ => ⟨store, rfl⟩⟩
  | cons workflowId rest ih =>
    have split : NoneRaises host settings db event store.runs (workflowId :: rest) ↔
        (∀ started, firedVersion db event store.runs workflowId = some started →
          ¬ Raises host settings db event (workflowId, started)) ∧
        NoneRaises host settings db event store.runs rest := forall_mem_cons
    rw [split]
    unfold processEvent
    cases fired : firedVersion db event store.runs workflowId with
    | none =>
      rw [← ih]
      exact ⟨fun done => ⟨nofun, done⟩, And.right⟩
    | some started =>
      have alone : (∃ eventRun, runWorkflow host settings db event store.calls workflowId
          started.1 started.2 = .ok eventRun) ↔
            ¬ Raises host settings db event (workflowId, started) :=
        exists_ok_iff_not_raises steady (activeVersionId_of_fired fired) store.calls
      simp only [some.injEq, forall_eq']
      rw [← alone]
      cases ran : runWorkflow host settings db event store.calls workflowId started.1 started.2 with
      | error message => exact ⟨nofun, nofun⟩
      | ok eventRun =>
        have harmless : ∀ started, firedVersion db event store.runs workflowId = some started →
            ¬ Raises host settings db event (workflowId, started) := by
          rw [fired]
          rintro _ ⟨⟩
          exact alone.mp ⟨eventRun, ran⟩
        have onward := @ih
        rw [← noneRaises_update eventRun harmless]
        exact ⟨fun done => ⟨⟨eventRun, rfl⟩, onward.mp done⟩, fun both => onward.mpr both.2⟩

theorem processPending_done_iff (steady : host.Steady) :
    (processPending host settings db event listed store).2 = .done ↔
      NoneRaises host settings db event store.runs listed := by
  rw [← processEvent_ok_iff steady]
  unfold processPending
  cases processEvent host settings db event listed store with
  | error message => exact ⟨nofun, nofun⟩
  | ok processed => exact ⟨fun _ => ⟨processed, rfl⟩, fun _ => rfl⟩

theorem runs_of_present {eventRun : EventRun} (present : store.runs workflowId = some eventRun)
    (processes : processEvent host settings db event listed store = .ok processed) :
    processed.runs workflowId = some eventRun := by
  induction listed generalizing store with
  | nil => exact Except.ok.inj processes ▸ present
  | cons visited rest ih =>
    unfold processEvent at processes
    cases fired : firedVersion db event store.runs visited with
    | none =>
      rw [fired] at processes
      exact ih present processes
    | some started =>
      rw [fired] at processes
      obtain ⟨created, -, processes⟩ := bind_eq_ok.mp processes
      refine ih ?_ processes
      have other : workflowId ≠ visited := by
        rintro rfl
        simp [firedVersion, present] at fired
      exact (update_of_ne other _ _).trans present

/-- Once the event is worked off, a workflow that it fired has the run it was given. -/
theorem runs_of_fired (fired : firedVersion db event store.runs workflowId = some started)
    (member : workflowId ∈ listed)
    (processes : processEvent host settings db event listed store = .ok processed) :
    ∃ eventRun calls, processed.runs workflowId = some eventRun ∧
      runWorkflow host settings db event calls workflowId started.1 started.2 = .ok eventRun := by
  induction listed generalizing store with
  | nil => cases member
  | cons visited rest ih =>
    unfold processEvent at processes
    by_cases here : visited = workflowId
    · subst here
      rw [fired] at processes
      obtain ⟨eventRun, ran, processes⟩ := bind_eq_ok.mp processes
      exact ⟨eventRun, store.calls, runs_of_present (update_self ..) processes, ran⟩
    · have later : workflowId ∈ rest :=
        (mem_cons.mp member).resolve_left fun same => here same.symm
      cases firedHere : firedVersion db event store.runs visited with
      | none =>
        rw [firedHere] at processes
        exact ih fired later processes
      | some startedHere =>
        rw [firedHere] at processes
        obtain ⟨created, -, processes⟩ := bind_eq_ok.mp processes
        refine ih ?_ later processes
        exact (firedVersion_update_of_ne created fun same => here same.symm).trans fired

theorem firedVersion_shared {own : WorkflowId → Prop} (shares : Shares own db db')
    (owned : own workflowId) (sameRun : store'.runs workflowId = store.runs workflowId) :
    firedVersion db' event store'.runs workflowId = firedVersion db event store.runs workflowId := by
  have sameActive := shares.activeVersionId owned
  have sameVersion : activeVersion db' workflowId = activeVersion db workflowId := by
    have bound : ∀ db : Db, activeVersion db workflowId =
        ((db.activeVersionId workflowId).bind (db.versions[·]?)).filter WorkflowVersion.published :=
      fun _ => rfl
    rw [bound, bound, sameActive]
    cases active : db.activeVersionId workflowId with
    | none => rfl
    | some versionId =>
      rw [bind_some, bind_some, shares.versions workflowId versionId owned active]
  unfold firedVersion fires
  rw [sameActive, sameVersion, sameRun]

theorem firedVersion_of_matching (isMatch : workflowId ∈ matching db event)
    (absent : store.runs workflowId = none) :
    ∃ started, firedVersion db event store.runs workflowId = some started := by
  obtain ⟨isListed, isFired⟩ := mem_matching.mp isMatch
  have isActive := (mem_filter.mp isListed).2
  simp only [Bool.and_eq_true] at isActive
  obtain ⟨version, found⟩ := isSome_iff_exists.mp isActive.2
  have hasVersion := found
  obtain ⟨bound, -⟩ := filter_eq_some_iff.mp hasVersion
  obtain ⟨versionId, active, -⟩ := bind_eq_some_iff.mp bound
  have active' : db.activeVersionId workflowId = some versionId := active
  simp [firedVersion, isFired, absent, active', found]

end Process

/-! ## A mail and a check on one change -/

def mailDefinition : WorkflowDefinitionModel where
  nodes := [{ id := "change", type := .trigger },
    { id := "mail", type := .action, data := { actionType := some "send_email" } }]
  edges := [{ source := "change", target := "mail" }]
  ids_nodup := by decide
  sources_known := by decide
  targets_known := by decide

def gateDefinition (condition : Json) : WorkflowDefinitionModel where
  schemaVersion := 2
  nodes := [{ id := "change", type := .trigger },
    { id := "gate", type := .gateway
      data := { gatewayType := some .exclusive, expr := some condition } },
    { id := "end", type := .event, data := { position := some .endEvent } }]
  edges := [{ source := "change", target := "gate" }, { source := "gate", target := "end" }]
  ids_nodup := by simp
  sources_known := by simp
  targets_known := by simp

/-- Operators are not supported, literals are. -/
def literalHost : Host :=
  { Host.failingAt [] with
    jsonLogic := fun expr _ => match expr with
      | .obj _ => .error "unsupported operator"
      | literal => .ok literal }

def mailDb (condition : Json) : Db where
  workflows := [{ activeVersionId := some 0, entityDefinitionId := some 0 },
    { activeVersionId := some 1, entityDefinitionId := some 0 }]
  versions := [{ definition := mailDefinition }, { definition := gateDefinition condition }]

def recordCreated : OutboxEvent := { entityDefinitionId := 0, operation := .create, recordId := 0 }

theorem shares_mailDb (condition condition' : Json) :
    Shares (· = 0) (mailDb condition) (mailDb condition') where
  workflows := by
    rintro _ rfl
    rfl
  versions := by
    rintro _ _ rfl ⟨⟩
    rfl
  calls := by
    rintro _ _ _ rfl ⟨⟩ ⟨⟩ node member called isCall
    simp only [mailDefinition, mem_cons, not_mem_nil, or_false] at member
    rcases member with rfl | rfl <;> cases isCall

end RedArchKM.Workflow
