import RedArchKM.Workflow.Execution

/-!
# Call activities, inline and parked

A call activity sees the end of its child in one of two ways. If the child ends while it is
driven inline, `finishCall` routes on its status. If the child parks first, the caller parks too,
the child's signal stamps a completion on it, and the next dispatch goes past it as past any
other completed wait.

The second way looks at neither the status in the stamp nor at what the first way publishes: a
child that failed counts as completed, and a capture holds the stamp in place of the child's
variables. The two ways agree for a child that did not fail under a task that captures nothing
(`routesAlike_iff`).
-/

namespace RedArchKM.Workflow

open Option

def siteOf (db : Db) (t : TokenId) : Option Site := do
  let run ← db.runs[t.run]?
  let token ← db.token? t
  let version ← db.versions[run.versionId]?
  let node ← (normalize version.definition).nodeById token.nodeId
  return { t, token, run, model := normalize version.definition, node }

theorem siteOf_of_at {site : Site} {db : Db} (located : site.At db) :
    siteOf db site.t = some site := by
  obtain ⟨version, versioned, model⟩ := located.version
  simp [siteOf, located.run, located.token?, versioned, ← model, located.node]

theorem at_of_siteOf {site : Site} {db : Db} {t : TokenId} (found : siteOf db t = some site) :
    site.t = t ∧ site.At db := by
  simp only [siteOf, bind_eq_bind, bind_eq_some_iff, pure_def, some.injEq] at found
  obtain ⟨run, isRun, token, isToken, version, isVersion, node, isNode, rfl⟩ := found
  refine ⟨rfl, isRun, ?_, ⟨version, isVersion, rfl⟩, isNode⟩
  rw [Db.token?, isRun] at isToken
  exact isToken

/-- How a call routes its caller: the move, the step it records, what it publishes and whether
the caller's run goes to the dead letters. -/
structure Routing where
  kind : OutcomeKind
  targets : List (NodeId × Option String)
  published : Fields
  stepStatus : Option StepStatus
  deadLetter : Bool

def routing (runId : RunId) (result : Db × NodeOutcome) : Routing where
  kind := result.2.kind
  targets := result.2.targets
  published := result.2.vars
  stepStatus := result.1.runs[runId]?.bind fun run => run.steps.getLast?.map RunStep.status
  deadLetter := result.1.runs[runId]?.any Run.deadLetter

def parkOnChild (site : Site) (childId : RunId) : NodeOutcome where
  kind := .park
  waitKind := some .subprocess
  tokenData := some { site.token.data with childRunId := some childId }

theorem finishCall_of_unfinished {db : Db} {site : Site} {childId : RunId} {child : Run}
    (found : db.runs[childId]? = some child) (unfinished : child.status.isTerminal = false) :
    finishCall db site childId = (db, parkOnChild site childId) := by
  cases status : child.status with
  | running | waiting => simp [finishCall, found, status, parkOnChild]
  | succeeded | failed | skipped =>
    rw [status] at unfinished
    cases unfinished

/-- The store once a call that had parked is taken up again: its child has ended and signalled. -/
def resumedCall (db : Db) (site : Site) (childId : RunId) : Db :=
  (signalParent (db.modifyToken site.t (Token.park (parkOnChild site childId))) childId).modifyToken
    site.t (Token.withStatus .running)

section

variable (host : Host) (db : Db) (site : Site) (childId : RunId)

def redispatch : Option (Except String Dispatched) :=
  (siteOf (resumedCall db site childId) site.t).map (dispatch host (resumedCall db site childId))

/-- **The two ways agree** on how the call routes its caller. -/
def RoutesAlike : Prop :=
  ∃ result, redispatch host db site childId = some (.ok (.of result)) ∧
    routing site.t.run result = routing site.t.run (finishCall db site childId)

end

/-- A token at a call whose child has ended. -/
structure EndedCall (db : Db) (site : Site) (childId : RunId) (child : Run) : Prop where
  located : site.At db
  isCall : site.node.taskType = some .call ∨ site.node.taskType = some .subProcess
  found : db.runs[childId]? = some child
  ended : child.status.isTerminal
  caller : child.parentToken = some site.t

/-! ## The parked call, taken up again -/

def resumedToken (site : Site) (childId : RunId) (child : Run) : Token :=
  (wakeCaller (completion childId child) (site.token.park (parkOnChild site childId))).withStatus
    .running

theorem modifyToken_modifyToken (db : Db) (t : TokenId) (first second : Token → Token) :
    (db.modifyToken t first).modifyToken t second = db.modifyToken t (second ∘ first) := by
  simp [Db.modifyToken, Db.modifyRun, List.modify_modify_eq, Function.comp_def]

section Resumed

variable {host : Host} {db : Db} {site : Site} {childId : RunId} {child : Run}

theorem signalParent_modifyToken {t : TokenId} {change : Token → Token}
    (found : db.runs[childId]? = some child) (caller : child.parentToken = some t) :
    signalParent (db.modifyToken t change) childId =
      (db.modifyToken t change).modifyToken t (wakeCaller (completion childId child)) := by
  have foundNow : ∃ child', (db.modifyToken t change).runs[childId]? = some child' ∧
      child'.parentToken = some t ∧ completion childId child' = completion childId child := by
    rw [Db.modifyToken, runs_modifyRun, found]
    split
    · exact ⟨_, rfl, caller, rfl⟩
    · exact ⟨child, rfl, caller, rfl⟩
  obtain ⟨child', found', caller', same⟩ := foundNow
  simp only [signalParent, found', caller', same]

theorem resumedCall_eq (call : EndedCall db site childId child) :
    resumedCall db site childId = db.modifyToken site.t (fun token =>
      (wakeCaller (completion childId child) (token.park (parkOnChild site childId))).withStatus
        .running) := by
  rw [resumedCall, signalParent_modifyToken call.found call.caller, modifyToken_modifyToken,
    modifyToken_modifyToken]
  rfl

/-- The call's site when it is dispatched again. -/
def resumedSite (site : Site) (childId : RunId) (child : Run) : Site where
  t := site.t
  token := resumedToken site childId child
  run := { site.run with
    tokens := site.run.tokens.modify site.t.index fun token =>
      (wakeCaller (completion childId child) (token.park (parkOnChild site childId))).withStatus
        .running }
  model := site.model
  node := site.node

theorem resumedSite_at (call : EndedCall db site childId child) :
    (resumedSite site childId child).At (resumedCall db site childId) := by
  obtain ⟨run, token, version, node⟩ := call.located
  rw [resumedCall_eq call]
  exact ⟨run_modifyToken run _, by simp [resumedSite, token, resumedToken], version, node⟩

theorem redispatch_eq (call : EndedCall db site childId child) :
    redispatch host db site childId = some (.ok (.of
      (completeWait (resumedCall db site childId) (resumedSite site childId child)))) := by
  have located : siteOf (resumedCall db site childId) site.t =
      some (resumedSite site childId child) := siteOf_of_at (resumedSite_at call)
  rw [redispatch, located, map_some]
  exact congrArg some (dispatch_completed (.inr call.isCall) rfl)

/-! ## Where the two ways differ -/

theorem routing_recordStep {run : Run} {node : WorkflowNode} {status : StepStatus}
    {output : Option Json} (found : db.runs[site.t.run]? = some run) (outcome : NodeOutcome) :
    routing site.t.run (db.recordStep site.t node status output, outcome) =
      { kind := outcome.kind, targets := outcome.targets, published := outcome.vars
        stepStatus := some status, deadLetter := run.deadLetter } := by
  simp [routing, Db.recordStep, found]

section

variable (call : EndedCall db site childId child)

include call

/-- Taken up again, a call goes on as if its child had succeeded, and publishes the stamp. -/
theorem routing_resumed : routing site.t.run
        (completeWait (resumedCall db site childId) (resumedSite site childId child)) =
      { kind := .advance, targets := site.outEdges
        published := captured site.node (completion childId child)
        stepStatus := some .succeeded, deadLetter := site.run.deadLetter } := by
  exact routing_recordStep (resumedSite_at call).run _

/-- Inline, a call goes on past a child that did not fail and publishes its variables. -/
theorem routing_inline (passed : child.status ≠ .failed) :
    routing site.t.run (finishCall db site childId) =
      { kind := .advance, targets := site.outEdges
        published := captured site.node (.obj child.vars)
        stepStatus := some .succeeded, deadLetter := site.run.deadLetter } := by
  have ended := call.ended
  cases status : child.status with
  | succeeded | skipped =>
    simp only [finishCall, call.found, map_some, getD_some, status]
    exact routing_recordStep call.located.run _
  | failed => exact absurd status passed
  | running | waiting =>
    rw [status] at ended
    cases ended

theorem stepStatus_inline_of_failed (isFailed : child.status = .failed) :
    (routing site.t.run (finishCall db site childId)).stepStatus = some .failed := by
  simp only [finishCall, call.found, map_some, getD_some, isFailed]
  split
  · rw [routing_recordStep call.located.run]
  · split
    · rw [routing_recordStep call.located.run]
    · simp [routing, Db.setDeadLetter, Db.recordStep, call.located.run]

end

theorem completion_ne_vars (childId : RunId) (child : Run) :
    completion childId child ≠ .obj child.vars := by
  intro same
  have fields := Json.obj.inj same
  have size := congrArg sizeOf fields
  simp at size
  omega

theorem captured_stamp_iff (childId : RunId) (child : Run) (node : WorkflowNode) :
    captured node (completion childId child) = captured node (.obj child.vars) ↔
      node.capture = none := by
  unfold captured
  cases node.capture with
  | none => simp
  | some key => simpa using completion_ne_vars childId child

/-- The next dispatch of the call takes it up, so the two ways are compared on its result. -/
theorem routesAlike_iff_routing (host : Host) (call : EndedCall db site childId child) :
    RoutesAlike host db site childId ↔
      routing site.t.run
          (completeWait (resumedCall db site childId) (resumedSite site childId child)) =
        routing site.t.run (finishCall db site childId) := by
  rw [RoutesAlike, redispatch_eq call]
  constructor
  · rintro ⟨⟨db', outcome⟩, same, alike⟩
    cases same
    exact alike
  · exact fun alike => ⟨_, rfl, alike⟩

/-- **The two ways route alike exactly when the child did not fail and the task captures
nothing.** -/
theorem routesAlike_iff (host : Host) (call : EndedCall db site childId child) :
    RoutesAlike host db site childId ↔ child.status ≠ .failed ∧ site.node.capture = none := by
  rw [routesAlike_iff_routing host call, routing_resumed call]
  constructor
  · intro alike
    have passed : child.status ≠ .failed := by
      intro isFailed
      have steps := congrArg Routing.stepStatus alike
      rw [stepStatus_inline_of_failed call isFailed] at steps
      cases steps
    rw [routing_inline call passed] at alike
    exact ⟨passed, (captured_stamp_iff ..).mp (congrArg Routing.published alike)⟩
  · rintro ⟨passed, uncaptured⟩
    rw [routing_inline call passed, (captured_stamp_iff ..).mpr uncaptured]

end Resumed

/-! ## A parent and its child -/

def callNode : WorkflowNode where
  id := "call"
  type := .task
  data := { taskType := some .call, callWorkflowId := some 1 }

def callerDefinition : WorkflowDefinitionModel where
  schemaVersion := 2
  nodes := [{ id := "start", type := .trigger }, callNode]
  edges := [{ source := "start", target := "call" }]
  ids_nodup := by decide
  sources_known := by decide
  targets_known := by decide

/-- A parent at its call, and its child as it ended. -/
def callDb (status : RunStatus) : Db where
  versions := [{ definition := callerDefinition }]
  runs := [{ workflowId := 0, versionId := 0, tokens := [{ nodeId := "call", status := .running }] },
    { workflowId := 1, versionId := 1, depth := 1, parentToken := some ⟨0, 0⟩, status }]

def callSite : Site where
  t := ⟨0, 0⟩
  token := { nodeId := "call", status := .running }
  run := { workflowId := 0, versionId := 0, tokens := [{ nodeId := "call", status := .running }] }
  model := normalize callerDefinition
  node := callNode

theorem endedCall_callDb {status : RunStatus} (ended : status.isTerminal) :
    EndedCall (callDb status) callSite 1
      { workflowId := 1, versionId := 1, depth := 1, parentToken := some ⟨0, 0⟩, status } where
  located := ⟨rfl, rfl, ⟨_, rfl, rfl⟩, rfl⟩
  isCall := .inl rfl
  found := rfl
  ended := ended
  caller := rfl

theorem routesAlike_of_succeeded : RoutesAlike (.failingAt []) (callDb .succeeded) callSite 1 :=
  (routesAlike_iff _ (endedCall_callDb rfl)).mpr ⟨nofun, rfl⟩

/-- A child that failed inline fails its caller; one that parked before it failed does not. -/
theorem not_routesAlike_of_failed : ¬ RoutesAlike (.failingAt []) (callDb .failed) callSite 1 := by
  have call : EndedCall (callDb .failed) callSite 1 _ := endedCall_callDb rfl
  rw [routesAlike_iff_routing _ call, routing_resumed call]
  intro alike
  have steps := congrArg Routing.stepStatus alike
  cases steps

end RedArchKM.Workflow
