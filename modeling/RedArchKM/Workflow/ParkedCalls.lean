import RedArchKM.Workflow.CallActivity

/-!
# Callers parked on their children

A call whose child parks is parked on the child, and the child wakes it when it ends. So no
caller should be parked on a child that has ended. What carries this is that a caller is parked
on a child of its own that is still going (`Linked`). A run that ends through `finishRun` or
`failRun` signals its caller in the same write, which restores the link; every other write of the
engine keeps it (`Keeps`).

One write ends a run and signals nobody: a sweep that kills a token after its advance was rolled
back fails the run in plain SQL. The invariant holds in all states exactly when this never
happens to a run that a caller is parked on (`parentsAwaken_iff`).
-/

namespace RedArchKM.Workflow

open Lib Lib.History List Option

def Token.awaits (childId : RunId) (token : Token) : Prop :=
  token.status = .waiting ∧ token.waitKind = some .subprocess ∧ token.data.childRunId = some childId

instance (childId : RunId) (token : Token) : Decidable (token.awaits childId) :=
  inferInstanceAs (Decidable (_ ∧ _ ∧ _))

theorem Token.awaits.onChild {childId : RunId} {token : Token} (awaits : token.awaits childId) :
    token.onChild := ⟨awaits.1, awaits.2.1⟩

/-- **No token is parked on a child that has ended.** -/
def NeverWaitsOnFinished (db : Db) : Prop :=
  ∀ (t : TokenId) (token : Token) (childId : RunId) (child : Run), db.token? t = some token →
    token.awaits childId → db.runs[childId]? = some child → child.status.isTerminal = false

/-- No state of the history has a parent that waits on a finished child. -/
def ParentsAwaken (world : World) : Prop := ∀ db ∈ world.states, NeverWaitsOnFinished db

def IsAwaited (db : Db) (childId : RunId) : Prop :=
  ∃ run ∈ db.runs, ∃ token ∈ run.tokens, token.awaits childId

instance (db : Db) (childId : RunId) : Decidable (IsAwaited db childId) :=
  inferInstanceAs (Decidable (∃ run ∈ db.runs, ∃ token ∈ run.tokens, _))

theorem isAwaited_iff {db : Db} {childId : RunId} :
    IsAwaited db childId ↔ ∃ t token, db.token? t = some token ∧ token.awaits childId := by
  constructor
  · rintro ⟨run, isRun, token, isToken, awaits⟩
    obtain ⟨runId, found⟩ := mem_iff_getElem?.mp isRun
    obtain ⟨index, placed⟩ := mem_iff_getElem?.mp isToken
    exact ⟨⟨runId, index⟩, token, by rw [Db.token?, found]; exact placed, awaits⟩
  · rintro ⟨t, token, found, awaits⟩
    obtain ⟨run, foundRun, placed⟩ := bind_eq_some_iff.mp found
    exact ⟨run, mem_of_getElem? foundRun, token, mem_of_getElem? placed, awaits⟩

def Event.killed? : Event → Option TokenId
  | .killed t => some t
  | .launched _ | .taken _ | .claimed _ | .released _ | .stranded _ | .advanced _ _ | .called _ _
  | .returned _ _ | .resumed _ | .signaled _ | .agentEnded _ | .wiredBack _ | .retried _
  | .ticked => none

/-- A token is killed in a run that a caller is parked on. -/
def Orphans (moment : Moment Event Db) : Prop :=
  ∃ t ∈ moment.event.killed?, IsAwaited moment.before t.run

instance (moment : Moment Event Db) : Decidable (Orphans moment) :=
  decidable_of_iff (moment.event.killed?.any fun t => IsAwaited moment.before t.run) (by
    cases killed : moment.event.killed? with
    | none => simp [Orphans, killed]
    | some t => simp [Orphans, killed])

/-! ## Callers are linked to children that are going -/

/-- Every parked caller is the caller of its child, and only a child let off may have ended. -/
structure LinkedBut (letOff : RunId → Prop) (db : Db) : Prop where
  child : ∀ (t : TokenId) (token : Token) (childId : RunId), db.token? t = some token →
    token.awaits childId → ∃ child, db.runs[childId]? = some child ∧ child.parentToken = some t ∧
      (¬ letOff childId → child.status.isTerminal = false)

/-- **Every parked caller is the caller of its child, which is still going.** -/
abbrev Linked : Db → Prop := LinkedBut fun _ => False

theorem Linked.neverWaitsOnFinished {db : Db} (linked : Linked db) : NeverWaitsOnFinished db := by
  intro t token childId child found awaits foundChild
  obtain ⟨child', found', -, going⟩ := linked.child t token childId found awaits
  cases found'.symm.trans foundChild
  exact going id

/-- Nobody is parked on anything but what was parked on before, and what was going still is. -/
structure Keeps (before after : Db) : Prop where
  parked : ∀ (t : TokenId) (token : Token), after.token? t = some token → token.onChild →
    before.token? t = some token
  going : ∀ (runId : RunId) (run : Run), before.runs[runId]? = some run →
    ∃ run', after.runs[runId]? = some run' ∧ run'.parentToken = run.parentToken ∧
      (run.status.isTerminal = false → run'.status.isTerminal = false)

theorem LinkedBut.keep {letOff : RunId → Prop} {before after : Db}
    (linked : LinkedBut letOff before) (keeps : Keeps before after) : LinkedBut letOff after := by
  refine ⟨fun t token childId found awaits => ?_⟩
  obtain ⟨child, foundChild, caller, going⟩ :=
    linked.child t token childId (keeps.parked t token found awaits.onChild) awaits
  obtain ⟨child', found', sameCaller, stillGoing⟩ := keeps.going childId child foundChild
  exact ⟨child', found', sameCaller.trans caller, fun counts => stillGoing (going counts)⟩

namespace Keeps

theorem refl (db : Db) : Keeps db db :=
  ⟨fun _ _ found _ => found, fun _ run found => ⟨run, found, rfl, id⟩⟩

theorem trans {first second third : Db} (left : Keeps first second) (right : Keeps second third) :
    Keeps first third where
  parked t token found parked := left.parked t token (right.parked t token found parked) parked
  going runId run found := by
    obtain ⟨run', found', caller, going⟩ := left.going runId run found
    obtain ⟨run'', found'', caller', going'⟩ := right.going runId run' found'
    exact ⟨run'', found'', caller'.trans caller, going' ∘ going⟩

end Keeps

section Writes

variable {db : Db} {runId : RunId}

variable {change : Run → Run}

theorem keeps_modifyRun
    (parked : ∀ run, db.runs[runId]? = some run → ∀ (index : Nat) (token : Token),
      (change run).tokens[index]? = some token → token.onChild → run.tokens[index]? = some token)
    (caller : ∀ run, (change run).parentToken = run.parentToken)
    (going : ∀ run, run.status.isTerminal = false → (change run).status.isTerminal = false) :
    Keeps db (db.modifyRun runId change) where
  parked t token found isParked := by
    rw [Db.token?, runs_modifyRun] at found
    split at found
    · rename_i same
      subst same
      obtain ⟨changed, foundRun, placed⟩ := bind_eq_some_iff.mp found
      obtain ⟨run, isRun, rfl⟩ := map_eq_some_iff.mp foundRun
      rw [Db.token?, isRun]
      exact parked run isRun t.index token placed isParked
    · exact found
  going other run found := by
    rw [runs_modifyRun, found]
    split
    · exact ⟨change run, rfl, caller run, going run⟩
    · exact ⟨run, rfl, rfl, id⟩

theorem keeps_mapTokens {change : Token → Token}
    (parked : ∀ token, (change token).onChild → change token = token) :
    Keeps db (db.modifyRun runId fun run => { run with tokens := run.tokens.map change }) := by
  apply keeps_modifyRun
  · intro run _ index token found isParked
    rw [getElem?_map] at found
    obtain ⟨before, isBefore, rfl⟩ := map_eq_some_iff.mp found
    rw [parked before isParked, isBefore]
  · exact fun _ => rfl
  · exact fun _ => id

theorem keeps_modifyToken {t : TokenId} {change : Token → Token}
    (awake : ∀ token, ¬ (change token).onChild) : Keeps db (db.modifyToken t change) := by
  apply keeps_modifyRun
  · intro run _ index token found isParked
    rw [getElem?_modify] at found
    split at found
    · obtain ⟨before, -, rfl⟩ := map_eq_some_iff.mp found
      exact absurd isParked (awake before)
    · simpa using found
  · exact fun _ => rfl
  · exact fun _ => id

theorem keeps_bookkeeping
    (same : ∀ run, (change run).tokens = run.tokens ∧ (change run).status = run.status ∧
      (change run).parentToken = run.parentToken) : Keeps db (db.modifyRun runId change) := by
  apply keeps_modifyRun
  · intro run _ index token found _
    rwa [(same run).1] at found
  · exact fun run => (same run).2.2
  · intro run going
    rwa [(same run).2.1]

theorem keeps_setVariables {updates : Fields} : Keeps db (db.setVariables runId updates) :=
  keeps_bookkeeping fun _ => ⟨rfl, rfl, rfl⟩

theorem keeps_agentRuns (agentRuns : List AgentRun) : Keeps db { db with agentRuns := agentRuns } :=
  ⟨fun _ _ found _ => found, fun _ run found => ⟨run, found, rfl, id⟩⟩

theorem keeps_createTokens {tokens : List Token} (awake : ∀ token ∈ tokens, ¬ token.onChild) :
    Keeps db (createTokens db runId tokens) := by
  apply keeps_modifyRun
  · intro run _ index token found isParked
    by_cases inside : index < run.tokens.length
    · rwa [List.getElem?_append_left inside] at found
    · rw [getElem?_append_right (not_lt.mp inside)] at found
      exact absurd isParked (awake token (mem_of_getElem? found))
  · exact fun _ => rfl
  · exact fun _ => id

theorem keeps_createRun {run : Run} (empty : run.tokens = []) : Keeps db (createRun db run) where
  parked t token found _ := by
    rw [Db.token?, createRun] at found
    obtain ⟨owner, foundRun, placed⟩ := bind_eq_some_iff.mp found
    rcases Nat.lt_or_ge t.run db.runs.length with inside | outside
    · rw [List.getElem?_append_left inside] at foundRun
      rwa [Db.token?, foundRun]
    · rw [getElem?_append_right outside] at foundRun
      obtain rfl := mem_singleton.mp (mem_of_getElem? foundRun)
      rw [empty] at placed
      cases placed
  going other existing found := by
    have inside := (List.getElem?_eq_some_iff.mp found).1
    exact ⟨existing, by rw [createRun, List.getElem?_append_left inside, found],
      rfl, id⟩

theorem not_onChild_wakeCaller (completion : Json) (token : Token) :
    ¬ (wakeCaller completion token).onChild := by
  intro parked
  unfold wakeCaller at parked
  split at parked
  · cases parked.1
  · rename_i other
    exact other parked

theorem keeps_signalParent : Keeps db (signalParent db runId) := by
  unfold signalParent
  split
  · exact .refl db
  · split
    · exact .refl db
    · exact keeps_modifyToken (not_onChild_wakeCaller _)

theorem keeps_books {site : Site} {before after : Db} (books : Books site before after) :
    Keeps before after := by
  obtain ⟨change, runs, same⟩ := books.runs
  have kept : Keeps before (before.modifyRun site.t.run change) :=
    keeps_bookkeeping fun run => ⟨(same run).tokens, (same run).status, (same run).kept.parentToken⟩
  constructor
  · intro t token found
    rw [Db.token?, runs] at found
    exact kept.parked t token found
  · intro runId run found
    rw [runs]
    exact kept.going runId run found

theorem token?_modifyRun (same : ∀ run, (change run).tokens = run.tokens) (t : TokenId) :
    (db.modifyRun runId change).token? t = db.token? t := by
  rw [Db.token?, runs_modifyRun, Db.token?]
  split
  · cases db.runs[t.run]? with
    | none => rfl
    | some run => exact congrArg (·[t.index]?) (same run)
  · rfl

theorem Linked.letOff (linked : Linked db)
    (same : ∀ run, (change run).tokens = run.tokens ∧ (change run).parentToken = run.parentToken) :
    LinkedBut (fun childId => childId = runId) (db.modifyRun runId change) := by
  refine ⟨fun t token childId found awaits => ?_⟩
  rw [token?_modifyRun fun run => (same run).1] at found
  obtain ⟨child, foundChild, caller, going⟩ := linked.child t token childId found awaits
  rw [runs_modifyRun, foundChild]
  split
  · rename_i here
    exact ⟨change child, rfl, (same child).2.trans caller, fun other => absurd here.symm other⟩
  · exact ⟨child, rfl, caller, fun _ => going id⟩

theorem LinkedBut.unawaited (linked : LinkedBut (fun childId => childId = runId) db)
    (unawaited : ¬ IsAwaited db runId) : Linked db := by
  refine ⟨fun t token childId found awaits => ?_⟩
  obtain ⟨child, foundChild, caller, going⟩ := linked.child t token childId found awaits
  refine ⟨child, foundChild, caller, fun _ => going ?_⟩
  rintro rfl
  exact unawaited (isAwaited_iff.mpr ⟨t, token, found, awaits⟩)

theorem linked_signalParent (linked : LinkedBut (fun childId => childId = runId) db) :
    Linked (signalParent db runId) := by
  refine ⟨fun t token childId found awaits => ?_⟩
  have keeps : Keeps db (signalParent db runId) := keeps_signalParent
  have before : db.token? t = some token := keeps.parked t token found awaits.onChild
  obtain ⟨child, foundChild, caller, going⟩ := linked.child t token childId before awaits
  have other : childId ≠ runId := by
    rintro rfl
    simp only [signalParent, foundChild, caller] at found
    rw [token?_modifyToken, if_pos rfl, before] at found
    have woken : wakeCaller (completion childId child) token = token := some.inj found
    exact not_onChild_wakeCaller (completion childId child) token (woken.symm ▸ awaits.onChild)
  obtain ⟨child', found', sameCaller, stillGoing⟩ := keeps.going childId child foundChild
  exact ⟨child', found', sameCaller.trans caller, fun _ => stillGoing (going other)⟩

section

variable (linked : Linked db)

include linked

theorem linked_finishRun {status : RunStatus} : Linked (finishRun db runId status) :=
  linked_signalParent (linked.letOff fun _ => ⟨rfl, rfl⟩)

theorem linked_failRun {error : String} : Linked (failRun db runId error) := by
  have marked : LinkedBut (fun childId => childId = runId)
      (db.modifyRun runId fun run => { run with status := .failed, error := some error }) :=
    linked.letOff fun _ => ⟨rfl, rfl⟩
  exact linked_signalParent (marked.keep (keeps_agentRuns _))

theorem linked_settleRun : Linked (settleRun db runId) := by
  have goesOn : ∀ {status : RunStatus}, status.isTerminal = false →
      Linked (db.modifyRun runId fun run => { run with status := status }) := by
    intro status going
    apply linked.keep
    apply keeps_modifyRun
    · exact fun _ _ _ _ found _ => found
    · exact fun _ => rfl
    · exact fun _ _ => going
  unfold settleRun
  split
  · exact linked
  · split
    · exact linked
    · split
      · exact goesOn rfl
      · split
        · exact goesOn rfl
        · exact linked_finishRun linked

theorem linked_startRun (definition : WorkflowDefinitionModel) :
    Linked (startRun db runId definition) := by
  unfold startRun
  split
  · exact linked_failRun linked
  · refine linked.keep (keeps_createTokens fun token member parked => ?_)
    obtain ⟨trigger, -, rfl⟩ := mem_map.mp member
    cases parked.1

theorem linked_startCreated {run : Run} (empty : run.tokens = [])
    (definition : WorkflowDefinitionModel) :
    Linked (startRun (createRun db run) runId definition) := by
  have created : Linked (createRun db run) := linked.keep (keeps_createRun empty)
  exact linked_startRun created definition

end

theorem keeps_withStatus {t : TokenId} {status : TokenStatus} (awake : status ≠ .waiting) :
    Keeps db (db.modifyToken t (Token.withStatus status)) :=
  keeps_modifyToken fun _ parked => awake parked.1

theorem keeps_killAll : Keeps db (db.killAll runId) := by
  apply keeps_mapTokens
  intro token parked
  split at parked
  · cases parked.1
  · rename_i ended
    rw [if_neg ended]

theorem keeps_killBuffered {nodeId : NodeId} : Keeps db (killBuffered db runId nodeId) := by
  apply keeps_mapTokens
  intro token parked
  split at parked
  · cases parked.1
  · rename_i outside
    rw [if_neg outside]

theorem keeps_reactivateDead : Keeps db (reactivateDead db runId) := by
  apply keeps_modifyRun
  · intro run _ index token found parked
    rw [getElem?_map] at found
    obtain ⟨before, isBefore, rfl⟩ := map_eq_some_iff.mp found
    split at parked
    · cases parked.1
    · rename_i alive
      rw [if_neg alive, isBefore]
  · exact fun _ => rfl
  · exact fun _ _ => rfl

variable {site : Site} {outcome : NodeOutcome}

theorem not_onChild_branches {token : Token} (member : token ∈ branches site outcome) :
    ¬ token.onChild := by
  obtain ⟨target, -, rfl⟩ := mem_map.mp member
  intro parked
  cases parked.1

theorem keeps_applyTargets : Keeps db (applyTargets db site outcome) := by
  unfold applyTargets
  split
  · split
    · refine keeps_modifyToken fun _ parked => ?_
      cases parked.1
    · refine .trans (keeps_modifyToken fun _ parked => ?_)
        (keeps_createTokens fun _ member => not_onChild_branches member)
      cases parked.1
  · exact keeps_createTokens fun _ member => not_onChild_branches member

section

variable (linked : Linked db) (parks : outcome.kind = .park → outcome.waitKind ≠ some .subprocess)

include linked parks

theorem linked_applyOutcome : Linked (applyOutcome db site outcome) := by
  have published : Linked (db.setVariables site.t.run outcome.vars) :=
    linked.keep keeps_setVariables
  have died : Linked ((db.setVariables site.t.run outcome.vars).modifyToken site.t
      (Token.withStatus .dead)) := published.keep (keeps_withStatus nofun)
  unfold applyOutcome
  cases kind : outcome.kind with
  | noop => exact published
  | park =>
    refine published.keep (keeps_modifyToken fun token parked => ?_)
    exact parks kind parked.2
  | complete => exact published.keep (keeps_withStatus nofun)
  | fail => exact linked_failRun died
  | terminate =>
    have completed : Linked ((db.setVariables site.t.run outcome.vars).modifyToken site.t
        (Token.withStatus .completed)) := published.keep (keeps_withStatus nofun)
    have killed : Linked (((db.setVariables site.t.run outcome.vars).modifyToken site.t
        (Token.withStatus .completed)).killAll site.t.run) := completed.keep keeps_killAll
    exact linked_finishRun (killed.keep (keeps_agentRuns _))
  | advance | emit =>
    simp only
    split
    · exact linked_failRun died
    · exact published.keep keeps_applyTargets

theorem linked_conclude :
    Linked (conclude db site outcome) := linked_settleRun (linked_applyOutcome linked parks)

end

end Writes

/-! ## The steps of the engine -/

theorem ProducedBy.parks_not_onChild {host : Host} {db : Db} {site : Site}
    {result : Db × NodeOutcome} (produced : ProducedBy host db site result) :
    result.2.kind = .park → result.2.waitKind ≠ some .subprocess := by
  intro parks onChild
  rcases produced.parks parks with scheduled | ⟨-, caught⟩ | ⟨waitKind, waits, -, isKind⟩
  · rw [onChild] at scheduled
    simp at scheduled
  · cases onChild.symm.trans caught
  · obtain rfl : waitKind = .subprocess := some.inj (isKind.symm.trans onChild)
    unfold WorkflowNode.passiveWait at waits
    split at waits <;> cases waits

section Steps

variable {host : Host} {db db' : Db}

theorem keeps_dispatched {site : Site} {result : Db × NodeOutcome}
    (how : DispatchedBy db site result) : Keeps db result.1 := by
  have buffers : Keeps db (db.modifyToken site.t Token.toBuffer) :=
    keeps_modifyToken fun _ parked => nomatch parked.2
  cases how with
  | ordinary ordinary => exact keeps_books ordinary.books
  | parallel _ fired =>
    subst fired
    simp only [parallelJoin]
    split
    · exact buffers.trans keeps_killBuffered
    · exact buffers
  | inclusive _ fired =>
    subst fired
    simp only [inclusiveJoin]
    split
    · exact buffers
    · exact buffers.trans keeps_killBuffered

theorem linked_parkOnChild (linked : Linked db) {site : Site} {childId : RunId} {child : Run}
    (found : db.runs[childId]? = some child) (caller : child.parentToken = some site.t)
    (going : child.status.isTerminal = false) :
    Linked (applyOutcome db site (parkOnChild site childId)) := by
  have sameRun : ∀ {other : RunId} {run : Run}, db.runs[other]? = some run →
      ∃ run', (applyOutcome db site (parkOnChild site childId)).runs[other]? =
        some run' ∧ run'.parentToken = run.parentToken ∧ run'.status = run.status := by
    intro other run isRun
    change ∃ run', ((db.setVariables site.t.run []).modifyToken site.t _).runs[other]? = _ ∧ _
    rw [Db.modifyToken, runs_modifyRun, Db.setVariables, runs_modifyRun, isRun]
    split <;> exact ⟨_, rfl, rfl, rfl⟩
  refine ⟨fun t token awaitedId foundToken awaits => ?_⟩
  change ((db.setVariables site.t.run []).modifyToken site.t _).token? t = _ at foundToken
  have unchanged : (db.setVariables site.t.run []).token? t = db.token? t :=
    token?_modifyRun (fun _ => rfl) t
  rw [token?_modifyToken, unchanged] at foundToken
  split at foundToken
  · rename_i here
    obtain ⟨before, -, rfl⟩ := map_eq_some_iff.mp foundToken
    obtain rfl : childId = awaitedId := some.inj awaits.2.2
    obtain ⟨child', found', sameCaller, sameStatus⟩ := sameRun found
    exact ⟨child', found', by rw [sameCaller, caller, here], fun _ => sameStatus ▸ going⟩
  · obtain ⟨other, foundOther, isCaller, stillGoing⟩ :=
      linked.child t token awaitedId foundToken awaits
    obtain ⟨child', found', sameCaller, sameStatus⟩ := sameRun foundOther
    exact ⟨child', found', sameCaller.trans isCaller, fun counts =>
      sameStatus ▸ stillGoing counts⟩

/-- A call that returns parks on a child that is still going, or not on a child at all. -/
theorem linked_returned (linked : Linked db) {site : Site} {childId : RunId}
    (caller : ∃ child, db.runs[childId]? = some child ∧ child.parentToken = some site.t) :
    Linked (conclude (finishCall db site childId).1 site (finishCall db site childId).2) := by
  obtain ⟨child, found, isCaller⟩ := caller
  cases unfinished : child.status.isTerminal with
  | true =>
    have books : Books site db (finishCall db site childId).1 := ordinary_finishCall.books
    refine linked_conclude (linked.keep (keeps_books books)) ?_
    simp only [finishCall, found, map_some, getD_some]
    split
    · rintro ⟨⟩
    · rintro ⟨⟩
    · split
      · rintro ⟨⟩
      · split <;> rintro ⟨⟩
    all_goals
      rename_i going
      rw [going] at unfinished
      cases unfinished
  | false =>
    rw [finishCall_of_unfinished found unfinished]
    exact linked_settleRun (linked_parkOnChild linked found isCaller unfinished)

theorem linked_killToken (linked : Linked db) {t : TokenId} {error : String}
    (unawaited : ¬ IsAwaited db t.run) : Linked (killToken db t error) := by
  have died : Keeps db (db.modifyToken t fun token =>
      { token with status := .dead, data := { token.data with error := some (.raised error) } }) :=
    keeps_modifyToken fun _ parked => nomatch parked.1
  have failing : ∀ run : Run,
      (if run.status = .succeeded ∨ run.status = .skipped then run
        else { run with status := .failed, error := some error }).tokens = run.tokens ∧
      (if run.status = .succeeded ∨ run.status = .skipped then run
        else { run with status := .failed, error := some error }).parentToken =
          run.parentToken := by
    intro run
    split <;> exact ⟨rfl, rfl⟩
  refine LinkedBut.keep (LinkedBut.unawaited (Linked.letOff (linked.keep died) failing) ?_)
    (keeps_agentRuns _)
  intro awaited
  obtain ⟨u, token, found, awaits⟩ := isAwaited_iff.mp awaited
  rw [token?_modifyRun fun run => (failing run).1] at found
  exact unawaited (isAwaited_iff.mpr ⟨u, token, died.parked u token found awaits.onChild, awaits⟩)

theorem EngineStep.linked {event : Event} (step : EngineStep host db event db')
    (kept : ¬ Orphans ⟨event, db⟩) (linked : Linked db) : Linked db' := by
  cases step with
  | launched found => exact linked_startCreated linked rfl _
  | taken idle => exact linked.keep (keeps_withStatus nofun)
  | claimed active => exact linked.keep (keeps_modifyToken fun _ parked => nomatch parked.1)
  | released running => exact linked.keep (keeps_modifyToken fun _ parked => nomatch parked.1)
  | unversioned found running missing => exact (linked_failRun linked).keep (keeps_withStatus nofun)
  | misplaced found placed running versioned missing =>
    exact linked_settleRun (linked.keep (keeps_withStatus nofun))
  | advanced located running dispatched =>
    rcases dispatch_cases dispatched with ⟨_, _, same, how⟩ | ⟨_, _, same, _⟩
    · cases same
      exact linked_conclude (linked.keep (keeps_dispatched how))
        (dispatch_producedBy dispatched).parks_not_onChild
    · cases same
  | called located running dispatched =>
    rcases dispatch_cases dispatched with ⟨_, _, same, _⟩ | ⟨_, _, same, starts⟩
    · cases same
    · cases same
      obtain ⟨targetId, versionId, version, -, -, -, rfl⟩ := starts.started
      exact linked_startCreated linked rfl _
  | returned located running isCall uncompleted caller => exact linked_returned linked caller
  | @killed t running =>
    exact linked_killToken linked fun awaited => kept ⟨t, rfl, awaited⟩
  | resumed due => exact linked.keep (keeps_modifyToken fun _ parked => nomatch parked.1)
  | @signaled runId nodeId correlationKey t vars output target =>
    have published : Linked (db.setVariables runId vars) := linked.keep keeps_setVariables
    exact published.keep (keeps_modifyToken fun _ parked => nomatch parked.1)
  | agentEnded agentRuns => exact linked.keep (keeps_agentRuns _)
  | wiredBack parked => exact linked.keep (keeps_modifyToken fun _ parked => nomatch parked.1)
  | retried isFailed => exact linked.keep keeps_reactivateDead
  | ticked now =>
    exact linked.keep ⟨fun _ _ found _ => found, fun _ run found => ⟨run, found, rfl, id⟩⟩

theorem run_killToken {t : TokenId} {run : Run} {error : String}
    (found : db.runs[t.run]? = some run) :
    ∃ run', (killToken db t error).runs[t.run]? = some run' ∧ run'.status.isTerminal := by
  rw [killToken, Db.cancelRunsForWorkflowRun, runs_modifyRun_self, run_modifyToken found]
  refine ⟨_, rfl, ?_⟩
  dsimp only
  split
  · rename_i passed
    rcases passed with succeeded | skipped
    · rw [succeeded]
      rfl
    · rw [skipped]
      rfl
  · rfl

/-- A token killed in a run that a caller is parked on leaves the caller parked on a finished
child. -/
theorem EngineStep.not_neverWaitsOnFinished {event : Event} (step : EngineStep host db event db')
    (orphans : Orphans ⟨event, db⟩) : ¬ NeverWaitsOnFinished db' := by
  intro never
  obtain ⟨t, isKilled, awaited⟩ := orphans
  obtain ⟨u, token, found, awaits⟩ := isAwaited_iff.mp awaited
  cases step with
  | @killed killedToken running =>
    obtain rfl : killedToken = t := some.inj isKilled
    obtain ⟨run, token', foundRun, placed, isRunning⟩ := exists_of_hasStatus running
    have other : killedToken ≠ u := by
      rintro rfl
      rw [Db.token?, foundRun, bind_some, placed] at found
      cases found
      cases isRunning.symm.trans awaits.1
    obtain ⟨ended, foundEnded, isTerminal⟩ := run_killToken foundRun
    refine absurd isTerminal (Bool.eq_false_iff.mp
      (never u token killedToken.run ended ?_ awaits foundEnded))
    have sameTokens : ∀ run : Run, (if run.status = .succeeded ∨ run.status = .skipped then run
        else { run with status := .failed, error := some "advance error" }).tokens =
          run.tokens := by
      intro run
      split <;> rfl
    change (Db.modifyRun _ _ _).token? u = _
    rw [token?_modifyRun sameTokens, token?_modifyToken, if_neg other, found]
  | _ => cases isKilled

end Steps

/-- **No parent ever waits on a finished child exactly when no token is killed in a run that a
caller is parked on.** -/
theorem parentsAwaken_iff (host : Host) (db : Db) (actions : List Action) (empty : db.runs = []) :
    ParentsAwaken (execute host db actions) ↔
      ∀ moment ∈ (execute host db actions).past, ¬ Orphans moment := by
  have steps : Continues host { now := db } (execute host db actions) := execute_steps ..
  constructor
  · intro awaken moment member orphans
    obtain ⟨k, found⟩ := mem_iff_getElem?.mp member
    obtain ⟨-, next, passed, step⟩ := steps.stepAt (Nat.zero_le k) found
    exact step.not_neverWaitsOnFinished orphans (awaken next (mem_of_getElem? passed))
  · intro kept state passed
    have start : Linked db := by
      refine ⟨fun t token childId found _ => ?_⟩
      rw [Db.token?, empty] at found
      cases found
    have linked : ∀ state ∈ (execute host db actions).states, Linked state :=
      steps.invariant (fun moment => ¬ Orphans moment)
        (fun _ _ _ step orphans linked => step.linked orphans linked) kept
        fun state isFirst => (mem_singleton.mp isFirst) ▸ start
    exact (linked state passed).neverWaitsOnFinished

/-! ## A child that raises after its caller has parked -/

def reviewDefinition : WorkflowDefinitionModel where
  schemaVersion := 2
  nodes := [{ id := "start", type := .trigger },
    { id := "review", type := .task, data := { taskType := some .user } },
    { id := "route", type := .gateway
      data := { gatewayType := some .exclusive, expr := some (.bool true) } },
    { id := "end", type := .event, data := { position := some .endEvent } }]
  edges := [{ source := "start", target := "review" }, { source := "review", target := "route" },
    { source := "route", target := "end", sourceHandle := some "true" }]
  ids_nodup := by decide
  sources_known := by decide
  targets_known := by decide

/-- The evaluator raises on every expression. -/
def raisingHost : Host := { Host.failingAt [] with jsonLogic := fun _ _ => .error "unknown operator" }

/-- A parent calls the review; the review is completed and its child swept on. -/
def reviewWorld (host : Host) : World :=
  execute host
    { workflows := [{}, { activeVersionId := some 1 }]
      versions := [{ definition := callerDefinition }, { definition := reviewDefinition }] }
    [.launch { workflowId := 0, versionId := 0 }, .drive 0, .signal 1 none none [] [],
      .sweep [⟨1, 0⟩] [], .sweep [⟨1, 0⟩] [], .sweep [⟨1, 0⟩] []]

/-- Without an error the child ends and wakes its parent. -/
theorem parentsAwaken_reviewWorld : ParentsAwaken (reviewWorld (.failingAt [])) :=
  (parentsAwaken_iff _ _ _ rfl).mpr (by decide)

/-- The gateway raises, the sweep kills the child's token, and the parent waits for ever. -/
theorem not_parentsAwaken_reviewWorld : ¬ ParentsAwaken (reviewWorld raisingHost) := by
  intro awaken
  have waits : ((reviewWorld raisingHost).now.token? ⟨0, 0⟩).any (Token.awaits 1 ·) := by decide
  have ended : (reviewWorld raisingHost).now.runs[1]?.any fun run => run.status.isTerminal := by
    decide
  obtain ⟨token, found, awaits⟩ := (Option.any_eq_true ..).mp waits
  obtain ⟨child, foundChild, isTerminal⟩ := (Option.any_eq_true ..).mp ended
  have going := awaken _ (History.now_mem_states _) ⟨0, 0⟩ token 1 child found
    (of_decide_eq_true awaits) foundChild
  rw [going] at isTerminal
  cases isTerminal

end RedArchKM.Workflow
