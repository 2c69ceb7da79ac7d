import RedArchKM.Workflow.TokenSteps

/-!
# Inclusive joins and the tokens they wait for

An inclusive join that keeps a token in its buffer should always have someone to wait for: a
live token outside the buffer that can still reach it. An arrival that is buffered sees to that,
and so does every fork and every step towards the join. But the join looks again only when a
token arrives. When the last token it waits for ends, dies or is routed away, nothing fires it
and the run waits for ever.

`Relieved` says of one moment that no token leaves a join so, and none comes to one late. In every
history of such moments no inclusive join is ever stranded (`neverStranded_of_relieved`).
-/

namespace RedArchKM.Workflow

open Lib Lib.History List

/-- A live token outside the buffer of the join that can still reach it. -/
structure Token.Supports (model : WorkflowDefinitionModel) (joinId : NodeId) (token : Token) :
    Prop where
  live : token.status.isLive
  outside : ¬ token.bufferedAt joinId
  reaches : Reach.Reaches model.adjacency token.nodeId joinId

def IsInclusive (model : WorkflowDefinitionModel) (nodeId : NodeId) : Prop :=
  (model.nodeById nodeId).any fun node => node.gatewayType = some .inclusive

def Awaited (model : WorkflowDefinitionModel) (tokens : List Token) : Prop :=
  ∀ joinId, IsInclusive model joinId → (∃ token ∈ tokens, token.bufferedAt joinId) →
    ∃ token ∈ tokens, token.Supports model joinId

def Quiescent (run : Run) : Prop :=
  ∀ token ∈ run.tokens, token.status ≠ .active ∧ token.status ≠ .running

/-- **No run is quiescent with a stranded inclusive join.** -/
def NeverStranded (world : World) : Prop :=
  ∀ db ∈ world.states, ∀ (runId : RunId) (run : Run) (version : WorkflowVersion),
    db.runs[runId]? = some run → db.versions[run.versionId]? = some version → Quiescent run →
    Awaited (normalize version.definition) run.tokens

/-! ## When a token leaves a join -/

/-- The outcome ends the token, or moves it where the join is out of its reach. -/
def NodeOutcome.Departs (outcome : NodeOutcome) (model : WorkflowDefinitionModel) (run : Run)
    (nodeId joinId : NodeId) : Prop :=
  outcome.kind = .complete ∨ outcome.kind = .fail ∨
    (outcome.kind = .advance ∧
      (maxTokensPerRun < run.tokens.length + outcome.targets.length ∨
        ∀ target ∈ outcome.targets, ¬ Reach.Reaches model.adjacency target.1 joinId)) ∨
    (outcome.kind = .emit ∧ nodeId ≠ joinId ∧
      maxTokensPerRun < run.tokens.length + outcome.targets.length)

def Event.leaver? (event : Event) : Option TokenId :=
  event.died?.or (event.concluded?.map Prod.fst)

def Event.Departs (event : Event) (model : WorkflowDefinitionModel) (run : Run)
    (nodeId joinId : NodeId) : Prop :=
  event.died?.isSome ∨
    ∃ concluded ∈ event.concluded?, concluded.2.Departs model run nodeId joinId

def LeavesAnother (moment : Moment Event Db) : Prop :=
  ∀ t ∈ moment.event.leaver?, ∀ run ∈ moment.before.runs[t.run]?,
    ∀ version ∈ moment.before.versions[run.versionId]?, ∀ token ∈ run.tokens[t.index]?,
      ∀ waiting ∈ run.tokens, waiting.bufferedAt waiting.nodeId →
        IsInclusive (normalize version.definition) waiting.nodeId →
        token.Supports (normalize version.definition) waiting.nodeId →
        moment.event.Departs (normalize version.definition) run token.nodeId waiting.nodeId →
        ∃ other ∈ run.tokens.eraseIdx t.index, ¬ other.bufferedAt token.nodeId ∧
          other.Supports (normalize version.definition) waiting.nodeId

/-- A token comes to an inclusive join although its run has ended. A terminate event may have killed
the tokens of the run by then; a drive's session still holds them as they were, and the join would
wait for them. -/
def ArrivesLate (moment : Moment Event Db) : Prop :=
  ∃ concluded ∈ moment.event.concluded?, ∃ run ∈ moment.before.runs[concluded.1.run]?,
    run.status.isTerminal ∧ ∃ version ∈ moment.before.versions[run.versionId]?,
      ∃ token ∈ run.tokens[concluded.1.index]?,
        IsInclusive (normalize version.definition) token.nodeId

structure Relieved (moment : Moment Event Db) : Prop where
  another : LeavesAnother moment
  inTime : ¬ ArrivesLate moment

section Decidable

instance (model : WorkflowDefinitionModel) (from' joinId : NodeId) :
    Decidable (Reach.Reaches model.adjacency from' joinId) :=
  decidable_of_iff (joinId ∈ model.forwardReachableNodes [from'])
    (by simp [WorkflowDefinitionModel.forwardReachableNodes, Reach.mem_reachable])

instance (model : WorkflowDefinitionModel) (joinId : NodeId) (token : Token) :
    Decidable (token.Supports model joinId) :=
  decidable_of_iff (token.status.isLive ∧ ¬ token.bufferedAt joinId ∧
      Reach.Reaches model.adjacency token.nodeId joinId)
    ⟨fun all => ⟨all.1, all.2.1, all.2.2⟩, fun all => ⟨all.live, all.outside, all.reaches⟩⟩

instance (model : WorkflowDefinitionModel) (nodeId : NodeId) :
    Decidable (IsInclusive model nodeId) := inferInstanceAs (Decidable (_ = true))

instance (outcome : NodeOutcome) (model : WorkflowDefinitionModel) (run : Run)
    (nodeId joinId : NodeId) : Decidable (outcome.Departs model run nodeId joinId) :=
  inferInstanceAs (Decidable (_ ∨ _ ∨ (_ ∧ (_ ∨ _)) ∨ (_ ∧ _ ∧ _)))

instance (event : Event) (model : WorkflowDefinitionModel) (run : Run) (nodeId joinId : NodeId) :
    Decidable (event.Departs model run nodeId joinId) :=
  inferInstanceAs (Decidable (_ ∨ ∃ concluded ∈ event.concluded?, _))

instance (moment : Moment Event Db) : Decidable (LeavesAnother moment) :=
  inferInstanceAs (Decidable (∀ t ∈ _, _))

instance (moment : Moment Event Db) : Decidable (ArrivesLate moment) :=
  inferInstanceAs (Decidable (∃ concluded ∈ _, _))

instance (moment : Moment Event Db) : Decidable (Relieved moment) :=
  decidable_of_iff (LeavesAnother moment ∧ ¬ ArrivesLate moment)
    ⟨fun both => ⟨both.1, both.2⟩, fun relieved => ⟨relieved.another, relieved.inTime⟩⟩

end Decidable

/-! ## What the moves of a token do to the joins -/

section Moves

variable {model : WorkflowDefinitionModel} {joinId : NodeId} {tokens tokens' : List Token}

def HasBuffer (joinId : NodeId) (tokens : List Token) : Prop :=
  ∃ token ∈ tokens, token.bufferedAt joinId

def Supported (model : WorkflowDefinitionModel) (joinId : NodeId) (tokens : List Token) : Prop :=
  ∃ token ∈ tokens, token.Supports model joinId

theorem Woken.supports {token token' : Token} (woken : Woken token token')
    (supports : token.Supports model joinId) : token'.Supports model joinId := by
  refine ⟨by rw [woken.isLive]; exact supports.live, fun buffered => ?_,
    by rw [woken.nodeId]; exact supports.reaches⟩
  by_cases parked : token.onChild
  · rcases woken with rfl | ⟨completion, rfl⟩
    · exact supports.outside buffered
    · simp [wakeCaller, parked.1, parked.2, Token.bufferedAt] at buffered
  · exact supports.outside (woken.eq parked ▸ buffered)

theorem Wakes.hasBuffer (wakes : Wakes tokens tokens') (buffer : HasBuffer joinId tokens') :
    HasBuffer joinId tokens := by
  obtain ⟨token', member, buffered⟩ := buffer
  obtain ⟨index, found'⟩ := mem_iff_getElem?.mp member
  have inside : index < tokens.length := by
    rw [← wakes.length]
    exact (List.getElem?_eq_some_iff.mp found').1
  obtain ⟨token'', found'', woken⟩ := wakes.token index _ (List.getElem?_eq_getElem inside)
  cases found'.symm.trans found''
  refine ⟨tokens[index], getElem_mem inside, ?_⟩
  by_cases parked : tokens[index].onChild
  · rcases woken with same | ⟨completion, rfl⟩
    · rwa [← same]
    · simp [wakeCaller, parked.1, parked.2, Token.bufferedAt] at buffered
  · rwa [← woken.eq parked]

theorem Wakes.supported (wakes : Wakes tokens tokens') (supported : Supported model joinId tokens) :
    Supported model joinId tokens' := by
  obtain ⟨token, member, supports⟩ := supported
  obtain ⟨index, found⟩ := mem_iff_getElem?.mp member
  obtain ⟨token', found', woken⟩ := wakes.token index token found
  exact ⟨token', mem_of_getElem? found', woken.supports supports⟩

variable {token : Token}

theorem mem_modify_of_ne {index place : Nat} (found : tokens[index]? = some token)
    (other : place ≠ index) (change : Token → Token) : token ∈ tokens.modify place change :=
  mem_of_getElem? (by rw [getElem?_modify_ne _ _ other, found])

theorem mem_modify_self {index : Nat} (found : tokens[index]? = some token) (change : Token → Token) :
    change token ∈ tokens.modify index change :=
  mem_of_getElem? (by rw [getElem?_modify, found]; simp)

theorem hasBuffer_of_modify {index : Nat} {change : Token → Token}
    (unbuffered : ∀ token, tokens[index]? = some token → ¬ (change token).bufferedAt joinId)
    (buffer : HasBuffer joinId (tokens.modify index change)) : HasBuffer joinId tokens := by
  obtain ⟨token, member, buffered⟩ := buffer
  obtain ⟨place, found⟩ := mem_iff_getElem?.mp member
  rw [getElem?_modify] at found
  by_cases here : index = place
  · subst here
    obtain ⟨before, foundBefore, rfl⟩ := Option.map_eq_some_iff.mp found
    rw [if_pos rfl] at buffered
    exact absurd buffered (unbuffered before foundBefore)
  · simp only [if_neg here, Option.map_eq_map, Option.map_id'] at found
    exact ⟨token, mem_of_getElem? found, buffered⟩

theorem Token.elsewhere.supports (elsewhere : token.elsewhere joinId)
    (reaches : Reach.Reaches model.adjacency token.nodeId joinId) : token.Supports model joinId :=
  ⟨elsewhere.1, fun buffered => elsewhere.2 ⟨buffered.1, buffered.2.2⟩, reaches⟩

theorem supports_of_awake (awake : token.status = .active ∨ token.status = .running)
    (reaches : Reach.Reaches model.adjacency token.nodeId joinId) :
    token.Supports model joinId := by
  refine ⟨?_, fun buffered => ?_, reaches⟩
  · rcases awake with active | running
    · rw [active]
      rfl
    · rw [running]
      rfl
  · rcases awake with active | running
    · exact absurd (active.symm.trans buffered.2.1) nofun
    · exact absurd (running.symm.trans buffered.2.1) nofun

theorem exists_outEdge_reaches {nodeId : NodeId} (other : nodeId ≠ joinId)
    (reaches : Reach.Reaches model.adjacency nodeId joinId) :
    ∃ target ∈ model.outEdges nodeId, Reach.Reaches model.adjacency target.1 joinId := by
  rcases Relation.ReflTransGen.cases_head reaches with same | ⟨next, edge, onward⟩
  · exact absurd same other
  · obtain ⟨workflowEdge, member, same⟩ := mem_map.mp edge
    cases same
    refine ⟨(workflowEdge.target, workflowEdge.sourceHandle), ?_, onward⟩
    exact mem_map.mpr ⟨workflowEdge, mem_filter.mpr ⟨member, by simp⟩, rfl⟩

end Moves

/-! ## One step -/

section Step

variable {host : Host} {db db' : Db} {event : Event} {joinId : NodeId}

/-- The run holds another token to wait for: not the token of the site, nor in the buffer of its
node. -/
def HasOther (site : Site) (joinId : NodeId) : Prop :=
  ∃ (index : Nat) (token : Token), site.t.index ≠ index ∧ site.run.tokens[index]? = some token ∧
    ¬ token.bufferedAt site.node.id ∧ token.Supports site.model joinId

section Site

variable {site : Site} {outcome : NodeOutcome} {handled : List Token}

theorem length_handled (handles : Handled site outcome handled) :
    handled.length = site.run.tokens.length := by
  cases handles <;> simp [consumed, arrived]

theorem HasOther.supported (hasOther : HasOther site joinId)
    (handles : Handled site outcome handled) (goesOn : outcome.kind ≠ .terminate) :
    Supported site.model joinId (tokensAfter site outcome handled) := by
  obtain ⟨index, token, other, found, outside, supports⟩ := hasOther
  have kept : handled[index]? = some token := by
    cases handles with
    | plain => exact found
    | parallelWaits | inclusiveWaits => exact getElem?_arrived_of_ne found other
    | parallelFires | inclusiveFires =>
      exact getElem?_consumed_of_not_bufferedAt (getElem?_arrived_of_ne found other) outside
  exact ⟨token, mem_of_getElem? (getElem?_tokensAfter_of_ne kept other goesOn), supports⟩

section

variable (located : site.At db)

include located

/-- A supporter is another token, or the token of the site could reach the join as well. -/
theorem hasOther_or_reaches (supported : Supported site.model joinId site.run.tokens) :
    HasOther site joinId ∨ Reach.Reaches site.model.adjacency site.node.id joinId := by
  obtain ⟨token, member, supports⟩ := supported
  obtain ⟨index, found⟩ := mem_iff_getElem?.mp member
  by_cases here : site.t.index = index
  · subst here
    cases located.token.symm.trans found
    exact .inr (located.nodeId ▸ supports.reaches)
  · by_cases inside : token.bufferedAt site.node.id
    · exact .inr (inside.1 ▸ supports.reaches)
    · exact .inl ⟨index, token, here, found, inside, supports⟩

theorem parallel_ne_inclusive (joins : site.joins .parallel)
    (inclusive : IsInclusive site.model joinId) : site.node.id ≠ joinId := by
  rintro rfl
  have node : site.model.nodeById site.node.id = some site.node := located.nodeId ▸ located.node
  rw [IsInclusive, node, Option.any_some, joins.2.1] at inclusive
  simp at inclusive

theorem supported_of_waits (other : site.node.id ≠ joinId)
    (awaited : HasBuffer joinId site.run.tokens → Supported site.model joinId site.run.tokens)
    (buffer : HasBuffer joinId (arrived site site.run.tokens)) :
    Supported site.model joinId (arrived site site.run.tokens) := by
  have arrivedAt := getElem?_arrived_self located.token
  have before : HasBuffer joinId site.run.tokens := by
    obtain ⟨token, member, buffered⟩ := buffer
    rcases mem_of_buffered_arrived member located.token with old | rfl
    · exact ⟨token, old, buffered⟩
    · exact absurd (located.nodeId.symm.trans buffered.1) other
  rcases hasOther_or_reaches located (awaited before) with hasOther | reaches
  · obtain ⟨index, token, elsewhere, found, -, supports⟩ := hasOther
    exact ⟨token, mem_of_getElem? (getElem?_arrived_of_ne found elsewhere), supports⟩
  · refine ⟨site.token.toBuffer, mem_of_getElem? arrivedAt, rfl, fun buffered => ?_,
      located.nodeId ▸ reaches⟩
    exact other (located.nodeId.symm.trans buffered.1)

/-- A firing at another node than the join, within the token budget or with others to wait for. -/
theorem supported_of_fires (other : site.node.id ≠ joinId) (running : site.token.status = .running)
    {fired : List Token} (fires : outcome = { kind := .emit, targets := site.outEdges })
    (handles : Handled site outcome fired)
    (awaited : HasBuffer joinId site.run.tokens → Supported site.model joinId site.run.tokens)
    (relieved : site.token.Supports site.model joinId →
      outcome.Departs site.model site.run site.token.nodeId joinId → HasOther site joinId)
    (before : HasBuffer joinId site.run.tokens) :
    Supported site.model joinId (tokensAfter site outcome fired) := by
  have goesOn : outcome.kind ≠ .terminate := by rw [fires]; nofun
  rcases hasOther_or_reaches located (awaited before) with hasOther | reaches
  · exact hasOther.supported handles goesOn
  · have nodeReaches : Reach.Reaches site.model.adjacency site.token.nodeId joinId :=
      located.nodeId ▸ reaches
    have isEmit : outcome.kind = .emit := by rw [fires]
    by_cases exceeds : maxTokensPerRun < site.run.tokens.length + outcome.targets.length
    · refine (relieved (supports_of_awake (.inr running) nodeReaches) ?_).supported handles goesOn
      exact .inr (.inr (.inr ⟨isEmit, located.nodeId ▸ other, exceeds⟩))
    · obtain ⟨target, isEdge, onward⟩ := exists_outEdge_reaches other reaches
      have inside : site.t.index < fired.length := by
        rw [length_handled handles]
        exact (List.getElem?_eq_some_iff.mp located.token).1
      have within : fired.length + outcome.targets.length ≤ maxTokensPerRun := by
        rw [length_handled handles]
        exact not_lt.mp exceeds
      have isTarget : target ∈ outcome.targets := by
        rwa [fires]
      obtain ⟨moved, member, atTarget, active⟩ := exists_target_tokensAfter (.inr isEmit) within
        (List.getElem?_eq_getElem inside) isTarget
      exact ⟨moved, member, supports_of_awake (.inl active) (by rwa [atTarget])⟩

/-- **Moving a token on keeps the joins awaited**, if it leaves each of them another token. -/
theorem awaited_tokensAfter (running : site.token.status = .running)
    (handles : Handled site outcome handled) (awaited : Awaited site.model site.run.tokens)
    (relieved : ∀ joinId, IsInclusive site.model joinId → HasBuffer joinId site.run.tokens →
      site.token.Supports site.model joinId →
        outcome.Departs site.model site.run site.token.nodeId joinId → HasOther site joinId) :
    Awaited site.model (tokensAfter site outcome handled) := by
  intro joinId inclusive buffer
  have parks : outcome.kind = .park → outcome.waitKind ≠ some .join := by
    cases handles with
    | plain plain => exact plain.park
    | parallelWaits _ same | parallelFires _ same | inclusiveWaits _ same
    | inclusiveFires _ same => rw [same]; nofun
  have onHandled : HasBuffer joinId handled := by
    obtain ⟨token, member, buffered⟩ := buffer
    exact ⟨token, mem_of_buffered_tokensAfter parks member buffered.2, buffered⟩
  have goesOn : outcome.kind ≠ .terminate := by
    intro terminates
    obtain ⟨token, member, buffered⟩ := buffer
    exact not_buffered_of_terminate terminates member buffered.2
  -- What a firing leaves in the join's buffer was there before.
  have beforeFiring : handled = consumed site.node.id (arrived site site.run.tokens) →
      site.node.id ≠ joinId ∧ HasBuffer joinId site.run.tokens := by
    rintro rfl
    obtain ⟨token, member, buffered⟩ := onHandled
    obtain ⟨isArrived, elsewhere⟩ := mem_of_buffered_consumed member buffered.2
    refine ⟨fun same => elsewhere (buffered.1.trans same.symm), token, ?_, buffered⟩
    refine (mem_of_buffered_arrived isArrived located.token).resolve_right ?_
    rintro rfl
    exact elsewhere located.nodeId
  have noop : outcome.kind = .noop → tokensAfter site outcome handled = handled := by
    intro kind
    rw [tokensAfter, kind]
  cases handles with
  | parallelWaits joins waits =>
    rw [noop (by rw [waits])]
    exact supported_of_waits located (parallel_ne_inclusive located joins inclusive)
      (awaited joinId inclusive) onHandled
  | inclusiveWaits joins waits others =>
    rw [noop (by rw [waits])]
    by_cases here : site.node.id = joinId
    · subst here
      obtain ⟨token, member, elsewhere, reaches⟩ := others
      exact ⟨token, member, elsewhere.supports reaches⟩
    · exact supported_of_waits located here (awaited joinId inclusive) onHandled
  | parallelFires joins fires complete =>
    obtain ⟨other, before⟩ := beforeFiring rfl
    exact supported_of_fires located other running fires (.parallelFires joins fires complete)
      (awaited joinId inclusive) (relieved joinId inclusive before) before
  | inclusiveFires joins fires =>
    obtain ⟨other, before⟩ := beforeFiring rfl
    exact supported_of_fires located other running fires (.inclusiveFires joins fires)
      (awaited joinId inclusive) (relieved joinId inclusive before) before
  | plain plain node =>
    rcases hasOther_or_reaches located (awaited joinId inclusive onHandled) with
      hasOther | reaches
    · exact hasOther.supported (.plain plain node) goesOn
    · have nodeReaches : Reach.Reaches site.model.adjacency site.token.nodeId joinId :=
        located.nodeId ▸ reaches
      have departs : outcome.Departs site.model site.run site.token.nodeId joinId →
          Supported site.model joinId (tokensAfter site outcome site.run.tokens) :=
        fun departs => (relieved joinId inclusive onHandled
          (supports_of_awake (.inr running) nodeReaches) departs).supported
            (.plain plain node) goesOn
      cases kind : outcome.kind with
      | noop => exact absurd kind plain.noop
      | emit => exact absurd kind plain.emit
      | terminate => exact absurd kind goesOn
      | complete => exact departs (.inl kind)
      | fail => exact departs (.inr (.inl kind))
      | park =>
        refine ⟨site.token.park outcome, ?_, rfl, fun buffered => ?_, nodeReaches⟩
        · rw [tokensAfter, kind]
          exact mem_modify_self located.token _
        · exact plain.park kind buffered.2.2
      | advance =>
        by_cases exceeds : maxTokensPerRun < site.run.tokens.length + outcome.targets.length
        · exact departs (.inr (.inr (.inl ⟨kind, .inl exceeds⟩)))
        · by_cases onward : ∃ target ∈ outcome.targets,
              Reach.Reaches site.model.adjacency target.1 joinId
          · obtain ⟨target, isTarget, targetReaches⟩ := onward
            obtain ⟨moved, member, atTarget, active⟩ := exists_target_tokensAfter (.inl kind)
              (not_lt.mp exceeds) located.token isTarget
            exact ⟨moved, member, supports_of_awake (.inl active) (by rwa [atTarget])⟩
          · refine departs (.inr (.inr (.inl ⟨kind, .inr fun target isTarget leads => ?_⟩)))
            exact onward ⟨target, isTarget, leads⟩

end

end Site

theorem Relieved.other (relieved : Relieved ⟨event, db⟩) {t : TokenId} {run : Run}
    {version : WorkflowVersion} {token : Token} (leaves : event.leaver? = some t)
    (found : db.runs[t.run]? = some run) (versioned : db.versions[run.versionId]? = some version)
    (placed : run.tokens[t.index]? = some token)
    (inclusive : IsInclusive (normalize version.definition) joinId)
    (buffer : HasBuffer joinId run.tokens)
    (supports : token.Supports (normalize version.definition) joinId)
    (departs : event.Departs (normalize version.definition) run token.nodeId joinId) :
    ∃ (index : Nat) (other : Token), t.index ≠ index ∧ run.tokens[index]? = some other ∧
      ¬ other.bufferedAt token.nodeId ∧ other.Supports (normalize version.definition) joinId := by
  obtain ⟨waiting, member, rfl, buffered⟩ := buffer
  obtain ⟨other, kept, outside, otherSupports⟩ := relieved.another t leaves run found version
    versioned token placed waiting member ⟨rfl, buffered⟩ inclusive supports departs
  obtain ⟨index, elsewhere, foundOther⟩ := mem_eraseIdx_iff_getElem?.mp kept
  exact ⟨index, other, elsewhere.symm, foundOther, outside, otherSupports⟩

theorem Event.run?_of_leaver {t : TokenId} (leaves : event.leaver? = some t) :
    event.run? = some t.run := by
  cases event <;> first | (cases leaves; rfl) | cases leaves

theorem awaited_of_touched {model : WorkflowDefinitionModel} {tokens : List Token} {index : Nat}
    {token : Token} {change : Token → Token} (placed : tokens[index]? = some token)
    (touched : Touched token (change token)) (awaited : Awaited model tokens) :
    Awaited model (tokens.modify index change) := by
  intro joinId inclusive buffer
  have unbuffered : ∀ before, tokens[index]? = some before →
      ¬ (change before).bufferedAt joinId := by
    intro before foundBefore buffered
    cases placed.symm.trans foundBefore
    rcases touched.awake with active | running
    · exact unbuffered_of_status _ active nofun buffered.2
    · exact unbuffered_of_status _ running nofun buffered.2
  obtain ⟨other, member, supports⟩ :=
    awaited joinId inclusive (hasBuffer_of_modify unbuffered buffer)
  obtain ⟨place, found⟩ := mem_iff_getElem?.mp member
  by_cases here : index = place
  · subst here
    cases placed.symm.trans found
    exact ⟨_, mem_modify_self placed change,
      supports_of_awake touched.awake (touched.nodeId ▸ supports.reaches)⟩
  · exact ⟨other, mem_modify_of_ne found here change, supports⟩

theorem awaited_of_retried {model : WorkflowDefinitionModel} {tokens : List Token}
    (awaited : Awaited model tokens) : Awaited model (tokens.map Token.reactivate) := by
  intro joinId inclusive buffer
  have before : HasBuffer joinId tokens := by
    obtain ⟨token, member, buffered⟩ := buffer
    obtain ⟨old, isOld, rfl⟩ := mem_map.mp member
    by_cases dead : old.status = .dead
    · rw [Token.reactivate, if_pos dead] at buffered
      exact absurd buffered.2 (unbuffered_of_status .active rfl nofun)
    · rw [Token.reactivate, if_neg dead] at buffered
      exact ⟨old, isOld, buffered⟩
  obtain ⟨token, member, supports⟩ := awaited joinId inclusive before
  refine ⟨token, mem_map.mpr ⟨token, member, if_neg fun dead => ?_⟩, supports⟩
  have live := supports.live
  rw [dead] at live
  cases live

/-- **A step keeps the joins of the run it works on awaited**, if it relieves them. -/
theorem TokensStep.awaited {runId : RunId} {run : Run} {version : WorkflowVersion}
    {tokens : List Token} (step : TokensStep db run event tokens) (own : event.run? = some runId)
    (found : db.runs[runId]? = some run) (versioned : db.versions[run.versionId]? = some version)
    (relieved : Relieved ⟨event, db⟩) (awaited : Awaited (normalize version.definition) run.tokens) :
    Awaited (normalize version.definition) tokens := by
  have ownRun : ∀ {t : TokenId}, event.leaver? = some t → db.runs[t.run]? = some run := by
    intro t leaves
    have same := (Event.run?_of_leaver leaves).symm.trans own
    rwa [Option.some.inj same]
  cases step with
  | touched touches placed touched => exact awaited_of_touched placed touched awaited
  | called wakes =>
    exact fun joinId inclusive buffer =>
      wakes.supported (awaited joinId inclusive (wakes.hasBuffer buffer))
  | retried => exact awaited_of_retried awaited
  | @died _ t token change woken _ dies placed running dead left right =>
    intro joinId inclusive buffer
    have before : HasBuffer joinId run.tokens :=
      left.hasBuffer (hasBuffer_of_modify (fun _ _ buffered =>
        unbuffered_of_status .dead (dead _).status nofun buffered.2) (right.hasBuffer buffer))
    have other : ∃ (index : Nat) (other : Token), t.index ≠ index ∧
        run.tokens[index]? = some other ∧
        other.Supports (normalize version.definition) joinId := by
      obtain ⟨other, member, supports⟩ := awaited joinId inclusive before
      obtain ⟨index, foundOther⟩ := mem_iff_getElem?.mp member
      by_cases here : t.index = index
      · subst here
        cases placed.symm.trans foundOther
        have leaves : event.leaver? = some t := by rw [Event.leaver?, dies]; rfl
        obtain ⟨index, another, elsewhere, foundAnother, -, anotherSupports⟩ :=
          relieved.other leaves (ownRun leaves) versioned placed inclusive before supports
            (.inl (by rw [dies]; rfl))
        exact ⟨index, another, elsewhere, foundAnother, anotherSupports⟩
      · exact ⟨index, other, here, foundOther, supports⟩
    obtain ⟨index, other, elsewhere, foundOther, supports⟩ := other
    obtain ⟨woke, foundWoke, isWoken⟩ := left.token index other foundOther
    exact right.supported ⟨woke, mem_modify_of_ne foundWoke elsewhere change,
      isWoken.supports supports⟩
  | @concluded _ site outcome handled _ concludes located same running handles wakes =>
    subst same
    obtain ⟨version', versioned', model⟩ := located.version
    cases versioned.symm.trans versioned'
    have leaves : event.leaver? = some site.t := by
      cases event <;> first | (cases concludes; rfl) | cases concludes
    have moved : Awaited site.model (tokensAfter site outcome handled) := by
      refine awaited_tokensAfter located running handles (model ▸ awaited) ?_
      intro joinId inclusive buffer supports departs
      obtain ⟨index, other, elsewhere, foundOther, outside, otherSupports⟩ :=
        relieved.other leaves (ownRun leaves) versioned located.token (model ▸ inclusive) buffer
          (model ▸ supports) (.inr ⟨_, concludes, model ▸ departs⟩)
      exact ⟨index, other, elsewhere, foundOther, located.nodeId ▸ outside, model ▸ otherSupports⟩
    rw [← model]
    exact fun joinId inclusive buffer =>
      wakes.supported (moved joinId inclusive (wakes.hasBuffer buffer))

def JoinsAwaited (db : Db) : Prop :=
  ∀ (runId : RunId) (run : Run) (version : WorkflowVersion), db.runs[runId]? = some run →
    db.versions[run.versionId]? = some version →
    Awaited (normalize version.definition) run.tokens

/-- **A step that relieves the joins keeps them awaited** in every run. -/
theorem EngineStep.joinsAwaited (step : EngineStep host db event db')
    (relieved : Relieved ⟨event, db⟩) (awaited : JoinsAwaited db) : JoinsAwaited db' := by
  intro runId run' version found' versioned
  rw [step.touches.versions] at versioned
  rcases step.run_cases found' with ⟨run, found, own, kept, tokens⟩ | ⟨run, found, -, stirred⟩ |
    ⟨-, started⟩
  · rw [kept.versionId] at versioned
    exact tokens.awaited own found versioned relieved (awaited runId run version found versioned)
  · rw [stirred.kept.versionId] at versioned
    exact fun joinId inclusive buffer => stirred.tokens.supported
      (awaited runId run version found versioned joinId inclusive (stirred.tokens.hasBuffer buffer))
  · rintro joinId - ⟨token, member, buffered⟩
    obtain ⟨_, -, tokens⟩ := started.version
    rw [tokens] at member
    obtain ⟨trigger, -, rfl⟩ := mem_map.mp member
    exact absurd buffered.2 (unbuffered_of_status .active rfl nofun)

end Step

/-- **No inclusive join is ever stranded** where every token that leaves one leaves it another
token to wait for, and none comes late. -/
theorem neverStranded_of_relieved (host : Host) (db : Db) (actions : List Action)
    (empty : db.runs = []) (relieved : ∀ moment ∈ (execute host db actions).past, Relieved moment) :
    NeverStranded (execute host db actions) := by
  have start : JoinsAwaited db := by
    intro runId run _ found
    rw [empty] at found
    cases found
  intro state member runId run version found versioned _
  have awaited : ∀ state ∈ (execute host db actions).states, JoinsAwaited state :=
    (execute_steps host db actions).invariant Relieved
      (fun _ _ _ step relieves awaited => step.joinsAwaited relieves awaited) relieved
      fun state isFirst => (mem_singleton.mp isFirst) ▸ start
  exact awaited state member runId run version found versioned

/-! ## A fork whose second branch chooses -/

/-- One branch goes to the join at once, the other chooses between the join and an end. -/
def choiceDefinition (toJoin : Bool) : WorkflowDefinitionModel where
  schemaVersion := 2
  nodes := [{ id := "start", type := .trigger },
    { id := "choice", type := .gateway
      data := { gatewayType := some .exclusive, expr := some (.bool toJoin) } },
    { id := "join", type := .gateway, data := { gatewayType := some .inclusive } },
    { id := "end", type := .event, data := { position := some .endEvent } }]
  edges := [{ source := "start", target := "join" }, { source := "start", target := "choice" },
    { source := "choice", target := "join", sourceHandle := some "true" },
    { source := "choice", target := "end", sourceHandle := some "false" },
    { source := "join", target := "end" }]
  ids_nodup := by cases toJoin <;> decide
  sources_known := by cases toJoin <;> decide
  targets_known := by cases toJoin <;> decide

def choiceWorld (toJoin : Bool) : World :=
  execute (.failingAt []) { versions := [{ definition := choiceDefinition toJoin }] }
    [.launch { workflowId := 0, versionId := 0 }, .drive 0]

/-- The second branch arrives and the join fires. -/
theorem neverStranded_choiceWorld : NeverStranded (choiceWorld true) :=
  neverStranded_of_relieved _ _ _ rfl (by decide)

/-- The second branch ends elsewhere, and the first waits at the join for nobody. -/
theorem not_neverStranded_choiceWorld : ¬ NeverStranded (choiceWorld false) := by
  intro never
  have run : (choiceWorld false).now.runs[0]?.isSome := by decide
  obtain ⟨run, found⟩ := Option.isSome_iff_exists.mp run
  have quiescent : ∀ run ∈ (choiceWorld false).now.runs[0]?, Quiescent run := by
    unfold Quiescent
    decide
  have waits : ∀ run ∈ (choiceWorld false).now.runs[0]?,
      run.versionId = 0 ∧ (∃ token ∈ run.tokens, token.bufferedAt "join") ∧
        ∀ token ∈ run.tokens, ¬ token.Supports (normalize (choiceDefinition false)) "join" := by
    decide
  obtain ⟨versionId, buffer, unsupported⟩ := waits run found
  obtain ⟨token, member, supports⟩ := never _ (History.now_mem_states _) 0 run
    { definition := choiceDefinition false } found (by rw [versionId]; rfl) (quiescent run found)
    "join" (by decide) buffer
  exact unsupported token member supports

end RedArchKM.Workflow
