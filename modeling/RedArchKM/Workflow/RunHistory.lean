import RedArchKM.Workflow.TokenBudget

/-!
# What a run keeps

A later state has every run of an earlier one, started from the same things, and its external calls
first; a run that nothing worked on in between has had its parked tokens woken at most
(`keepsItsPast`). Calls are nested: a run that was called is younger than its caller, one level
deeper and for the same record (`callsNested`).
-/

namespace RedArchKM.Workflow

open Lib List

variable {host : Host} {db db' : Db} {event : Event}

/-- What two states of an execution have in common. -/
structure KeepsItsPast (world : World) : Prop where
  kept : ∀ {i j : Nat} {earlier later : Db}, i ≤ j → world.states[i]? = some earlier →
    world.states[j]? = some later → Touches (fun _ => True) earlier later
  isolated : ∀ {i j : Nat} {earlier later : Db} {runId : RunId} {run : Run}, i ≤ j →
    world.states[i]? = some earlier → world.states[j]? = some later →
    earlier.runs[runId]? = some run →
    (∀ k moment, i ≤ k → k < j → world.past[k]? = some moment → moment.event.run? ≠ some runId) →
    ∃ run', later.runs[runId]? = some run' ∧ Stirred run run'

/-- **Runs and external calls are kept, and runs stay apart**, whatever the engine is asked to
do. -/
theorem keepsItsPast (host : Host) (db : Db) (actions : List Action) :
    KeepsItsPast (execute host db actions) where
  kept ordered earlierAt laterAt :=
    (execute_steps host db actions).relates (fun _ => True) .refl (fun _ _ _ => .trans)
      (fun _ _ _ step _ => step.touches.mono fun _ _ => trivial) (Nat.zero_le _) ordered earlierAt
      laterAt fun _ _ _ _ _ => trivial
  isolated {i j earlier later runId run} ordered earlierAt laterAt found apart := by
    have stirs : ∀ run, earlier.runs[runId]? = some run →
        ∃ run', later.runs[runId]? = some run' ∧ Stirred run run' := by
      refine (execute_steps host db actions).relates
        (R := fun before after => ∀ run, before.runs[runId]? = some run →
          ∃ run', after.runs[runId]? = some run' ∧ Stirred run run')
        (fun moment => moment.event.run? ≠ some runId) (fun _ run found => ⟨run, found, .refl run⟩)
        ?_ ?_ (Nat.zero_le _) ordered earlierAt laterAt apart
      · intro _ _ _ left right run found
        obtain ⟨run', found', stirred⟩ := left run found
        obtain ⟨run'', found'', stirred'⟩ := right run' found'
        exact ⟨run'', found'', stirred.trans stirred'⟩
      · intro before event after step other run found
        have inside := (List.getElem?_eq_some_iff.mp found).1
        exact step.touches.stirred (fun own => own.elim other (not_le.mpr inside)) found
    exact stirs run found

/-! ## Calls -/

def CallsNested (db : Db) : Prop :=
  ∀ (runId : RunId) (run : Run) (t : TokenId), db.runs[runId]? = some run →
    run.parentToken = some t → t.run < runId ∧ ∃ caller, db.runs[t.run]? = some caller ∧
      t.index < caller.tokens.length ∧ run.depth = caller.depth + 1 ∧ run.depth ≤ maxTokenDepth ∧
      run.recordId = caller.recordId

theorem EngineStep.nestsCalls (step : EngineStep host db event db') (nested : CallsNested db) :
    CallsNested db' := by
  intro runId run' t found' called
  cases found : db.runs[runId]? with
  | some run =>
    obtain ⟨_, foundAfter, kept, -⟩ := step.touches.runs runId run found
    cases foundAfter.symm.trans found'
    obtain ⟨younger, caller, foundCaller, inside, deeper, bounded, record⟩ :=
      nested runId run t found (kept.parentToken ▸ called)
    obtain ⟨caller', foundCaller', kept', -⟩ := step.touches.runs t.run caller foundCaller
    refine ⟨younger, caller', foundCaller', inside.trans_le kept'.tokens, ?_, ?_, ?_⟩
    · rw [kept.depth, kept'.depth, deeper]
    · rwa [kept.depth]
    · rw [kept.recordId, kept'.recordId, record]
  | none =>
    have outside := List.getElem?_eq_none_iff.mp found
    have inside := (List.getElem?_eq_some_iff.mp found').1
    -- A run that is new is the last one, as it was created.
    have created : ∀ {run : Run} {version : WorkflowVersion}, run.tokens = [] → run.stepSeq = 0 →
        db.versions[run.versionId]? = some version →
        db' = startRun (createRun db run) db.runs.length version.definition →
        runId = db.runs.length ∧ Kept run run' := by
      rintro run version empty unstepped versioned rfl
      obtain ⟨first, foundFirst, kept, -⟩ := startRun_createRun empty unstepped versioned
      have last : runId = db.runs.length := by
        rw [length_startRun, createRun, length_append, length_singleton] at inside
        exact Nat.le_antisymm (Nat.lt_succ_iff.mp inside) outside
      subst last
      cases foundFirst.symm.trans found'
      exact ⟨rfl, kept⟩
    have length := step.length
    have touches := step.touches
    cases step with
    | launched versioned =>
      obtain ⟨-, kept⟩ := created rfl rfl versioned rfl
      cases kept.parentToken.symm.trans called
    | called located running dispatched =>
      rcases dispatch_cases dispatched with ⟨_, _, same, _⟩ | ⟨_, _, same, starts⟩
      · cases same
      · cases same
        obtain ⟨targetId, versionId, version, -, -, versioned, becomes⟩ := starts.started
        obtain ⟨rfl, kept⟩ := created rfl rfl versioned (by rw [becomes, starts.fresh])
        cases kept.parentToken.symm.trans called
        obtain ⟨caller, foundCaller, keptCaller, -⟩ := touches.runs _ _ located.run
        refine ⟨(List.getElem?_eq_some_iff.mp located.run).1, caller, foundCaller,
          (List.getElem?_eq_some_iff.mp located.token).1.trans_le keptCaller.tokens, ?_, ?_, ?_⟩
        · rw [kept.depth, keptCaller.depth]
          rfl
        · rw [kept.depth]
          exact starts.depth
        · rw [kept.recordId, keptCaller.recordId]
          rfl
    | _ =>
      rw [length (by rintro _ ⟨⟩) (by rintro _ _ ⟨⟩)] at inside
      exact absurd inside (not_lt.mpr outside)

/-- Calls are nested in every state passed. -/
def NestsCalls (world : World) : Prop := ∀ state ∈ world.states, CallsNested state

/-- **Calls are nested, and never too deep**, whatever the engine is asked to do. -/
theorem callsNested (host : Host) (db : Db) (actions : List Action) (empty : db.runs = []) :
    NestsCalls (execute host db actions) := by
  have steps : Continues host { now := db } (execute host db actions) := execute_steps ..
  refine steps.invariant (fun _ => True) (fun _ _ _ step _ => step.nestsCalls)
    (fun _ _ => trivial) fun state isFirst => ?_
  obtain rfl := mem_singleton.mp isFirst
  intro runId run t found
  rw [empty] at found
  cases found

def selfCallingDb : Db where
  workflows := [{ activeVersionId := some 0 }]
  versions := [{
    definition := {
      schemaVersion := 2
      nodes := [{ id := "start", type := .trigger },
        { id := "call", type := .task, data := { taskType := some .call, callWorkflowId := some 0 } }]
      edges := [{ source := "start", target := "call" }]
      ids_nodup := by decide
      sources_known := by decide
      targets_known := by decide } }]

def selfCalls : World :=
  execute (.failingAt []) selfCallingDb [.launch { workflowId := 0, versionId := 0 }, .drive 0]

/-- The workflow calls itself until the limit is reached. -/
theorem callsNested_loop :
    NestsCalls selfCalls ∧ (selfCalls.now.runs.map (·.depth)).getLast? = some maxTokenDepth :=
  ⟨callsNested _ _ _ rfl, by decide +kernel⟩

end RedArchKM.Workflow
