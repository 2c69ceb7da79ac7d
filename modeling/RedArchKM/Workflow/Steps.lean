import RedArchKM.Workflow.Outcome
import RedArchKM.Workflow.System

/-!
# The steps of the engine

`EngineStep` says of every event in which state of the store it can happen and what it leads to.
Everything the engine does is a chain of these steps (`execute_steps`), so a property of all
runs of the engine follows from what one step preserves.

A drive holds two facts across the work of others. A token that a pass listed is still active or
has died when its turn comes, for its siblings can only kill it. And a token whose node calls a
child is still running at that node when the child has been driven, for a drive stirs older runs
at most.
-/

namespace RedArchKM.Workflow

open Lib Lib.History List

structure Site.At (site : Site) (db : Db) : Prop where
  run : db.runs[site.t.run]? = some site.run
  token : site.run.tokens[site.t.index]? = some site.token
  version : ∃ version, db.versions[site.run.versionId]? = some version ∧
    site.model = normalize version.definition
  node : site.model.nodeById site.token.nodeId = some site.node

theorem Site.At.token? {site : Site} {db : Db} (located : site.At db) :
    db.token? site.t = some site.token := by
  rw [Db.token?, located.run]
  exact located.token

theorem Site.At.nodeId {site : Site} {db : Db} (located : site.At db) :
    site.token.nodeId = site.node.id :=
  (WorkflowDefinitionModel.mem_of_nodeById located.node).2.symm

/-- Active, or killed since it was. -/
def IsIdle (db : Db) (t : TokenId) : Prop := hasStatus db .active t ∨ hasStatus db .dead t

/-- The engine's steps. -/
inductive EngineStep (host : Host) : Db → Event → Db → Prop where
  | launched {db : Db} {launch : Launch} {version : WorkflowVersion}
      (found : db.versions[launch.versionId]? = some version) :
      EngineStep host db (.launched db.runs.length)
        (startRun (createRun db launch.run) db.runs.length version.definition)
  | taken {db : Db} {t : TokenId} (idle : IsIdle db t) :
      EngineStep host db (.taken t) (db.modifyToken t (Token.withStatus .running))
  | claimed {db : Db} {t : TokenId} (active : hasStatus db .active t) :
      EngineStep host db (.claimed t) (db.modifyToken t (Token.lease db.now))
  | released {db : Db} {t : TokenId} (running : hasStatus db .running t) :
      EngineStep host db (.released t) (db.modifyToken t Token.release)
  | unversioned {db : Db} {t : TokenId} {run : Run} (found : db.runs[t.run]? = some run)
      (running : hasStatus db .running t) (missing : db.versions[run.versionId]? = none) :
      EngineStep host db (.stranded t)
        ((failRun db t.run "workflow version missing").modifyToken t (Token.withStatus .dead))
  | misplaced {db : Db} {t : TokenId} {run : Run} {token : Token} {version : WorkflowVersion}
      (found : db.runs[t.run]? = some run) (placed : run.tokens[t.index]? = some token)
      (running : token.status = .running)
      (versioned : db.versions[run.versionId]? = some version)
      (missing : (normalize version.definition).nodeById token.nodeId = none) :
      EngineStep host db (.stranded t)
        (settleRun (db.modifyToken t (Token.withStatus .dead)) t.run)
  | advanced {db db' : Db} {site : Site} {outcome : NodeOutcome} (located : site.At db)
      (running : site.token.status = .running)
      (dispatched : dispatch host db site = .ok (.outcome db' outcome)) :
      EngineStep host db (.advanced site.t outcome) (conclude db' site outcome)
  | called {db db' : Db} {site : Site} {childId : RunId} (located : site.At db)
      (running : site.token.status = .running)
      (dispatched : dispatch host db site = .ok (.child db' childId)) :
      EngineStep host db (.called site.t childId) db'
  | returned {db : Db} {site : Site} {childId : RunId} (located : site.At db)
      (running : site.token.status = .running)
      (isCall : site.node.taskType = some .call ∨ site.node.taskType = some .subProcess)
      (uncompleted : site.token.data.completed = false)
      (caller : ∃ child, db.runs[childId]? = some child ∧ child.parentToken = some site.t) :
      EngineStep host db (.returned site.t (finishCall db site childId).2)
        (conclude (finishCall db site childId).1 site (finishCall db site childId).2)
  | killed {db : Db} {t : TokenId} (running : hasStatus db .running t)
      (raises : ∃ site : Site, site.At db ∧ site.t = t) :
      EngineStep host db (.killed t) (killToken db t "advance error")
  | resumed {db : Db} {t : TokenId} (due : (db.token? t).any (Token.isDue db.now)) :
      EngineStep host db (.resumed t) (db.modifyToken t Token.release)
  | signaled {db : Db} {runId : RunId} {nodeId : Option NodeId}
      {correlationKey : Option AgentRunId} {t : TokenId} {vars output : Fields}
      (target : signalTarget db runId nodeId correlationKey = some t) :
      EngineStep host db (.signaled t)
        ((db.setVariables runId vars).modifyToken t (Token.complete (.obj output)))
  | agentEnded {db : Db} {agentRunId : AgentRunId} (agentRuns : List AgentRun) :
      EngineStep host db (.agentEnded agentRunId) { db with agentRuns := agentRuns }
  | wiredBack {db : Db} {t : TokenId} {agentRunId : AgentRunId} {agentRun : AgentRun}
      (parked : (db.token? t).any (Token.isParkedOn agentRunId)) :
      EngineStep host db (.wiredBack t)
        (db.modifyToken t fun token =>
          { token with
            status := .active
            waitKind := none
            resumeAt := none
            leasedAt := none
            data := agentRun.stamp agentRunId token.data })
  | retried {db : Db} {runId : RunId} (isFailed : db.runs[runId]?.any fun run => run.status = .failed) :
      EngineStep host db (.retried runId) (reactivateDead db runId)
  | ticked {db : Db} (now : Nat) : EngineStep host db .ticked { db with now := now }

abbrev Continues (host : Host) : World → World → Prop := Steps (EngineStep host)

/-! ## What a dispatch leaves alone -/

section Dispatch

variable {host : Host} {db : Db} {site : Site} {own : RunId → Prop}

theorem DispatchedBy.touches {result : Db × NodeOutcome} (how : DispatchedBy db site result)
    (owned : own site.t.run) : Touches own db result.1 := by
  cases how with
  | ordinary ordinary => exact ordinary.books.touches owned
  | parallel _ fired =>
    subst fired
    simp only [parallelJoin]
    split
    · exact (touches_modifyToken owned).trans (touches_killBuffered owned)
    · exact touches_modifyToken owned
  | inclusive _ fired =>
    subst fired
    simp only [inclusiveJoin]
    split
    · exact touches_modifyToken owned
    · exact (touches_modifyToken owned).trans (touches_killBuffered owned)

variable {childId : RunId}

theorem StartsChild.touches {db' : Db} (starts : StartsChild host db site db' childId) :
    Touches (fun runId => db.runs.length ≤ runId) db db' := by
  obtain ⟨targetId, versionId, version, -, -, -, rfl⟩ := starts.started
  exact (touches_createRun _).trans (touches_startRun starts.fresh.ge)

theorem StartsChild.caller {db' : Db} (starts : StartsChild host db site db' childId) :
    ∃ child, db'.runs[childId]? = some child ∧ child.parentToken = some site.t := by
  obtain ⟨targetId, versionId, version, -, -, -, rfl⟩ := starts.started
  have created : (createRun db (childRun host db site targetId versionId)).runs[childId]? =
      some (childRun host db site targetId versionId) := by
    rw [starts.fresh, createRun, getElem?_append_right le_rfl, Nat.sub_self]
    rfl
  have kept : Touches (fun _ => True) (createRun db (childRun host db site targetId versionId))
      (startRun (createRun db (childRun host db site targetId versionId)) childId
        version.definition) := touches_startRun trivial
  obtain ⟨child, found, same, -⟩ := kept.runs childId _ created
  exact ⟨child, found, same.parentToken⟩

theorem StartsChild.length_lt {db' : Db} (starts : StartsChild host db site db' childId) :
    db.runs.length < db'.runs.length := by
  obtain ⟨child, found, -⟩ := starts.caller
  rw [← starts.fresh]
  exact (List.getElem?_eq_some_iff.mp found).1

def Event.run? : Event → Option RunId
  | .launched runId | .retried runId => some runId
  | .taken t | .claimed t | .released t | .stranded t | .advanced t _ | .called t _
  | .returned t _ | .killed t | .resumed t | .signaled t | .wiredBack t => some t.run
  | .agentEnded _ | .ticked => none

theorem touches_killToken {t : TokenId} {error : String} (owned : own t.run) :
    Touches own db (killToken db t error) := by
  refine ((touches_modifyToken owned).trans (touches_modifyRun owned fun run => ?_)).trans
    touches_cancelRuns
  split
  · exact .refl run
  · exact ⟨rfl, rfl, rfl, rfl, rfl, rfl, le_rfl, le_rfl⟩

theorem run_of_signalTarget {runId : RunId} {nodeId : Option NodeId}
    {correlationKey : Option AgentRunId} {t : TokenId}
    (target : signalTarget db runId nodeId correlationKey = some t) : t.run = runId := by
  obtain ⟨index, -, rfl⟩ := mem_map.mp (mem_of_find?_eq_some target)
  rfl

/-- **A step changes the run it works on and new runs**, and stirs the others at most. -/
theorem EngineStep.touches {event : Event} {db' : Db} (step : EngineStep host db event db') :
    Touches (fun runId => event.run? = some runId ∨ db.runs.length ≤ runId) db db' := by
  cases step with
  | launched found => exact (touches_createRun _).trans (touches_startRun (.inl rfl))
  | unversioned found running missing =>
    exact (touches_failRun (.inl rfl)).trans (touches_modifyToken (.inl rfl))
  | misplaced found placed running versioned missing =>
    exact (touches_modifyToken (.inl rfl)).trans (touches_settleRun (.inl rfl))
  | advanced located running dispatched =>
    rcases dispatch_cases dispatched with ⟨db', outcome, same, how⟩ | ⟨_, _, same, _⟩
    · cases same
      exact (how.touches (.inl rfl)).trans (touches_conclude (.inl rfl))
    · cases same
  | called located running dispatched =>
    rcases dispatch_cases dispatched with ⟨_, _, same, _⟩ | ⟨db', childId, same, starts⟩
    · cases same
    · cases same
      exact starts.touches.mono fun runId => .inr
  | returned located running isCall =>
    exact (ordinary_finishCall.books.touches (.inl rfl)).trans (touches_conclude (.inl rfl))
  | killed running => exact touches_killToken (.inl rfl)
  | signaled target =>
    have sameRun := run_of_signalTarget target
    exact (touches_setVariables (.inl (congrArg some sameRun))).trans
      (touches_modifyToken (.inl rfl))
  | agentEnded agentRuns => exact touches_agentRuns agentRuns
  | retried isFailed =>
    exact touches_modifyRun (.inl rfl) fun run =>
      ⟨rfl, rfl, rfl, rfl, rfl, rfl, le_rfl, (length_map ..).ge⟩
  | ticked now =>
    exact ⟨fun _ run found => ⟨run, found, .refl run, fun _ => .refl run⟩, ⟨[], by simp⟩, rfl,
      rfl⟩
  | taken | claimed | released | resumed | wiredBack => exact touches_modifyToken (.inl rfl)

end Dispatch

/-! ## Idle tokens -/

def IdleAt (tokens : List Token) (index : Nat) : Prop :=
  ∃ token, tokens[index]? = some token ∧ (token.status = .active ∨ token.status = .dead)

theorem isIdle_iff {db : Db} {t : TokenId} {run : Run} (found : db.runs[t.run]? = some run) :
    IsIdle db t ↔ IdleAt run.tokens t.index := by
  simp only [IsIdle, hasStatus, Db.token?, found, Option.bind_some, IdleAt]
  cases run.tokens[t.index]? <;> simp

namespace IdleAt

variable {tokens : List Token} {index place : Nat}

section

variable (idle : IdleAt tokens index)

include idle

theorem modify (other : place ≠ index) (change : Token → Token) :
    IdleAt (tokens.modify place change) index := by
  obtain ⟨token, found, status⟩ := idle
  exact ⟨token, by rw [getElem?_modify_ne _ _ other, found], status⟩

theorem map {change : Token → Token}
    (kills : ∀ token, change token = token ∨ (change token).status = .dead) :
    IdleAt (tokens.map change) index := by
  obtain ⟨token, found, status⟩ := idle
  refine ⟨change token, by rw [getElem?_map, found]; rfl, ?_⟩
  rcases kills token with same | dead
  · rwa [same]
  · exact .inr dead

theorem append (more : List Token) : IdleAt (tokens ++ more) index := by
  obtain ⟨token, found, status⟩ := idle
  have inside := (List.getElem?_eq_some_iff.mp found).1
  exact ⟨token, by rw [List.getElem?_append_left inside, found], status⟩

theorem wakes {tokens' : List Token} (woken : Wakes tokens tokens') : IdleAt tokens' index := by
  obtain ⟨token, found, status⟩ := idle
  obtain ⟨token', found', woke⟩ := woken.token index token found
  have awake : ¬ token.onChild := fun parked => by
    rcases status with active | dead
    · exact absurd (active.symm.trans parked.1) nofun
    · exact absurd (dead.symm.trans parked.1) nofun
  exact ⟨token', found', by rwa [woke.eq awake]⟩

end

end IdleAt

theorem kill_eq_or_dead (token : Token) : token.kill = token ∨ token.kill.status = .dead := by
  unfold Token.kill
  split
  · exact .inr rfl
  · exact .inl rfl

section Siblings

variable {db : Db} {site : Site} {index : Nat}

theorem IdleAt.tokensAfter {tokens : List Token} (idle : IdleAt tokens index)
    (other : site.t.index ≠ index) (outcome : NodeOutcome) :
    IdleAt (tokensAfter site outcome tokens) index := by
  unfold RedArchKM.Workflow.tokensAfter
  split
  · exact idle
  · exact idle.modify other _
  · exact idle.modify other _
  · exact idle.modify other _
  · exact (idle.modify other _).map kill_eq_or_dead
  all_goals
    split
    · exact idle.modify other _
    · unfold tokensMoved
      split
      · split
        · exact idle.modify other _
        · exact (idle.modify other _).append _
      · exact idle.append _

theorem idleAt_consumed {tokens : List Token} {nodeId : NodeId} (idle : IdleAt tokens index) :
    IdleAt (consumed nodeId tokens) index :=
  idle.map fun token => by
    split
    · exact .inr rfl
    · exact .inl rfl

theorem IdleAt.dispatched {result : Db × NodeOutcome} (how : DispatchedBy db site result)
    {run : Run} (found : db.runs[site.t.run]? = some run) (idle : IdleAt run.tokens index)
    (other : site.t.index ≠ index) :
    ∃ run', result.1.runs[site.t.run]? = some run' ∧ IdleAt run'.tokens index := by
  cases how with
  | ordinary ordinary =>
    obtain ⟨run', found', same, -⟩ := ordinary.books.run found
    exact ⟨run', found', by rwa [same.tokens]⟩
  | parallel _ fired =>
    subst fired
    rcases parallelJoin_cases found _ with ⟨-, found', -⟩ | ⟨-, found', -⟩
    · exact ⟨_, found', idleAt_consumed (idle.modify other _)⟩
    · exact ⟨_, found', idle.modify other _⟩
  | inclusive _ fired =>
    subst fired
    rcases inclusiveJoin_cases found with ⟨-, found', -⟩ | ⟨-, found', -⟩
    · exact ⟨_, found', idleAt_consumed (idle.modify other _)⟩
    · exact ⟨_, found', idle.modify other _⟩

theorem idleAt_conclude {run : Run} (found : db.runs[site.t.run]? = some run)
    (idle : IdleAt run.tokens index) (other : site.t.index ≠ index) (outcome : NodeOutcome) :
    ∃ run', (conclude db site outcome).runs[site.t.run]? = some run' ∧
      IdleAt run'.tokens index := by
  obtain ⟨run', found', wakes⟩ : HoldsTokens (conclude db site outcome) _ _ :=
    tokens_conclude found
  exact ⟨run', found', (idle.tokensAfter other outcome).wakes wakes⟩

end Siblings

end RedArchKM.Workflow
