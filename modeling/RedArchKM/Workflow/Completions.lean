import RedArchKM.Workflow.CallActivity
import RedArchKM.Workflow.TokenSteps

/-!
# Completed and timed-out waits

A token that waits for a signal is reactivated in one of two ways: a signal stamps a completion
on it, or its timer elapses. The next advance reads the stamp first, so a completion wins over a
timer that fires later and over a lease that is reclaimed. Between two advances nothing takes the
stamp away and nothing moves the token (`EngineStep.sameVisit`), so what the next advance does is
settled when the signal comes, and one arrival leaves its node once (`onePath`).

The nodes that park for a signal are passive tasks, calls and intermediate catch events
(`WaitsExpected`). A catch event does not read the stamp: signalled, it parks again. Waits are
settled in every history without such a signal (`waitsSettled_of_uncaught`).
-/

namespace RedArchKM.Workflow

open Lib Lib.History List Option

/-! ## What is promised -/

def Event.signaled? : Event → Option TokenId
  | .signaled t => some t
  | .launched _ | .taken _ | .claimed _ | .released _ | .stranded _ | .advanced _ _ | .called _ _
  | .returned _ _ | .killed _ | .resumed _ | .agentEnded _ | .wiredBack _ | .retried _
  | .ticked => none

theorem Event.advances?_of_signaled {event : Event} {t : TokenId}
    (isSignal : event.signaled? = some t) : event.advances? = none := by
  cases event <;> first | rfl | cases isSignal

def LeavesByItsEdges (t : TokenId) (site : Site) (moment : Moment Event Db) : Prop :=
  ∃ outcome, moment.event = .advanced t outcome ∧ outcome.kind = .advance ∧
    outcome.targets = site.outEdges

/-- **A completion is final**: the next advance of a signalled token takes it from the node it
was signalled at along the node's own out-edges. -/
def CompletionIsFinal (world : World) : Prop :=
  ∀ (t : TokenId) (i j : Nat) (signal next : Moment Event Db), i < j →
    world.past[i]? = some signal → signal.event.signaled? = some t →
    world.past[j]? = some next → next.event.advances? = some t →
    (∀ k moment, i < k → k < j → world.past[k]? = some moment →
      moment.event.advances? ≠ some t) →
    ∃ site site', siteOf signal.before t = some site ∧ siteOf next.before t = some site' ∧
      site'.node = site.node ∧ LeavesByItsEdges t site' next

section

variable (nodeId : NodeId) (t : TokenId) (moment : Moment Event Db)

/-- The token leaves the node: it is advanced to a node's out-edges, those of the node, of its
timer boundary or of its error boundary, and the token budget allows it. -/
def TakesPathFrom : Prop :=
  (moment.before.token? t).any (fun token => token.nodeId = nodeId) ∧
    ∃ outcome, moment.event.concluded? = some (t, outcome) ∧ outcome.kind = .advance ∧
      (tokensOf moment.before t.run).length + outcome.targets.length ≤ maxTokensPerRun

def ArrivesAt : Prop :=
  ∃ outcome handle, moment.event.concluded? = some (t, outcome) ∧ outcome.kind = .advance ∧
    outcome.targets = [(nodeId, handle)]

end

/-- **One arrival takes one path**: between two departures of a token from a node it has arrived
there anew. -/
def OnePathAnArrival (world : World) : Prop :=
  ∀ (nodeId : NodeId) (t : TokenId) (i j : Nat) (first second : Moment Event Db), i < j →
    world.past[i]? = some first → TakesPathFrom nodeId t first →
    world.past[j]? = some second → TakesPathFrom nodeId t second →
    ∃ k moment, i ≤ k ∧ k < j ∧ world.past[k]? = some moment ∧ ArrivesAt nodeId t moment

/-- Completion and timeout exclude each other, and a completion is final. -/
structure WaitsSettled (world : World) : Prop where
  onePath : OnePathAnArrival world
  final : CompletionIsFinal world

instance (node : WorkflowNode) : Decidable node.Catches :=
  inferInstanceAs (Decidable (_ ∧ _ ∧ (_ ∨ _)))

/-- A signal completes a token at an intermediate catch event. -/
def SignalsCatch (moment : Moment Event Db) : Prop :=
  (moment.event.signaled?.bind (siteOf moment.before)).any fun site => site.node.Catches

instance (moment : Moment Event Db) : Decidable (SignalsCatch moment) :=
  inferInstanceAs (Decidable (_ = true))

/-! ## Where tokens wait for signals -/

def WorkflowNode.Expects (waitKind : WaitKind) (node : WorkflowNode) : Prop :=
  node.passiveWait = some waitKind ∨ (node.Catches ∧ waitKind = .receive) ∨
    (node.IsCall ∧ waitKind = .subprocess)

def ExpectedAt (db : Db) (run : Run) (token : Token) (waitKind : WaitKind) : Prop :=
  ∃ version node, db.versions[run.versionId]? = some version ∧
    (normalize version.definition).nodeById token.nodeId = some node ∧ node.Expects waitKind

/-- **Tokens wait for signals only at nodes that park for them.** -/
def WaitsExpected (db : Db) : Prop :=
  ∀ run ∈ db.runs, ∀ token ∈ run.tokens, token.status = .waiting →
    ∀ waitKind ∈ signalableKinds, token.waitKind = some waitKind →
      ExpectedAt db run token waitKind

section Expected

variable {host : Host} {db db' : Db} {event : Event}

variable {token : Token} {waitKind : WaitKind}

theorem Wakes.mem_of_waiting {before after : List Token} (wakes : Wakes before after)
    (member : token ∈ after) (waiting : token.status = .waiting) : token ∈ before := by
  obtain ⟨index, placed⟩ := mem_iff_getElem?.mp member
  obtain ⟨token', placed', woken⟩ := wakes.token_before placed
  rcases woken with same | ⟨completion, same⟩
  · rw [same]
    exact List.mem_of_getElem? placed'
  · unfold wakeCaller at same
    split at same
    · rw [same] at waiting
      cases waiting
    · rw [same]
      exact List.mem_of_getElem? placed'

theorem mem_of_waiting_consumed {nodeId : NodeId} {tokens : List Token}
    (member : token ∈ consumed nodeId tokens) (waiting : token.status = .waiting) :
    token ∈ tokens := by
  obtain ⟨before, isBefore, rfl⟩ := mem_map.mp member
  split at waiting
  · cases waiting
  · rename_i outside
    rwa [if_neg outside]

theorem Handled.mem_of_waiting {site : Site} {outcome : NodeOutcome} {handled : List Token}
    (handles : Handled site outcome handled)
    (placed : site.run.tokens[site.t.index]? = some site.token) (member : token ∈ handled)
    (waiting : token.status = .waiting) (other : token.waitKind ≠ some .join) :
    token ∈ site.run.tokens := by
  have arrives : token ∈ arrived site site.run.tokens → token ∈ site.run.tokens := by
    intro arrived
    rcases mem_of_buffered_arrived arrived placed with old | rfl
    · exact old
    · exact absurd rfl other
  cases handles with
  | plain => exact member
  | parallelWaits | inclusiveWaits => exact arrives member
  | parallelFires | inclusiveFires => exact arrives (mem_of_waiting_consumed member waiting)

/-- **A token that waits after a step** waited before it, or is buffered at a join, or has been
parked by the step. -/
theorem TokensStep.waiting {run : Run} {tokens : List Token} (step : TokensStep db run event tokens)
    {token : Token} (member : token ∈ tokens) (waits : token.status = .waiting)
    (other : token.waitKind ≠ some .join) :
    token ∈ run.tokens ∨ ∃ (site : Site) (outcome : NodeOutcome),
      event.concluded? = some (site.t, outcome) ∧ site.At db ∧ site.run = run ∧
        outcome.kind = .park ∧ token.waitKind = outcome.waitKind ∧
      token.nodeId = site.node.id := by
  have unmodified : ∀ {index : Nat} {change : Token → Token} {tokens : List Token},
      (∀ before, tokens[index]? = some before → (change before).status ≠ .waiting) →
      token ∈ tokens.modify index change → token ∈ tokens := by
    intro index change tokens awake member
    obtain ⟨place, found⟩ := mem_iff_getElem?.mp member
    rw [getElem?_modify] at found
    by_cases here : index = place
    · subst here
      obtain ⟨before, isBefore, rfl⟩ := map_eq_some_iff.mp found
      rw [if_pos rfl] at waits
      exact absurd waits (awake before isBefore)
    · simp only [if_neg here, Option.map_eq_map, Option.map_id'] at found
      exact List.mem_of_getElem? found
  cases step with
  | touched touches placed touched =>
    refine .inl (unmodified (fun before isBefore waiting => ?_) member)
    cases placed.symm.trans isBefore
    rcases touched.awake with active | running
    · cases active.symm.trans waiting
    · cases running.symm.trans waiting
  | died dies placed running dead left right =>
    refine .inl (left.mem_of_waiting (unmodified (fun before _ waiting => ?_)
      (right.mem_of_waiting member waits)) waits)
    cases (dead before).status.symm.trans waiting
  | called wakes => exact .inl (wakes.mem_of_waiting member waits)
  | retried =>
    obtain ⟨before, isBefore, rfl⟩ := mem_map.mp member
    unfold Token.reactivate at waits ⊢
    split at waits
    · cases waits
    · rename_i alive
      rw [if_neg alive]
      exact .inl isBefore
  | @concluded _ site outcome handled tokens concludes located same running handles wakes =>
    subst same
    rcases mem_of_waiting_tokensAfter (wakes.mem_of_waiting member waits) waits with
      old | ⟨kind, before, isBefore, rfl⟩
    · exact .inl (handles.mem_of_waiting located.token old waits other)
    · refine .inr ⟨site, outcome, concludes, located, rfl, kind, rfl, ?_⟩
      have isSite : before = site.token := by
        cases handles with
        | plain => exact some.inj (isBefore.symm.trans located.token)
        | parallelWaits _ waits | inclusiveWaits _ waits =>
          rw [waits] at kind
          cases kind
        | parallelFires _ fires | inclusiveFires _ fires =>
          rw [fires] at kind
          cases kind
      rw [isSite]
      exact located.nodeId

theorem parks_finishCall {site : Site} {childId : RunId} :
    (finishCall db site childId).2.kind = .park →
      (finishCall db site childId).2.waitKind = some .subprocess := by
  simp only [finishCall]
  split
  · rintro ⟨⟩
  · rintro ⟨⟩
  · split
    · rintro ⟨⟩
    · split <;> rintro ⟨⟩
  all_goals exact fun _ => rfl

theorem EngineStep.parks_expects (step : EngineStep host db event db') {t : TokenId}
    {outcome : NodeOutcome} (concludes : event.concluded? = some (t, outcome))
    (parks : outcome.kind = .park) (isKind : outcome.waitKind = some waitKind)
    (signalable : waitKind ∈ signalableKinds) :
    ∃ site, siteOf db t = some site ∧ site.node.Expects waitKind := by
  cases step with
  | @advanced db' site outcome located running dispatched =>
    cases concludes
    refine ⟨site, siteOf_of_at located, ?_⟩
    rcases (dispatch_producedBy dispatched).parks parks with
      scheduled | ⟨catches, receive⟩ | ⟨kind, waits, -, isWait⟩
    · rw [isKind] at scheduled
      cases waitKind <;> simp [signalableKinds] at scheduled signalable
    · cases isKind.symm.trans receive
      exact .inr (.inl ⟨catches, rfl⟩)
    · cases isKind.symm.trans isWait
      exact .inl waits
  | @returned site childId located running isCall =>
    cases concludes
    refine ⟨site, siteOf_of_at located, ?_⟩
    cases isKind.symm.trans (parks_finishCall parks)
    exact .inr (.inr ⟨isCall, rfl⟩)
  | _ => cases concludes

theorem expectedAt_of_siteOf {site : Site} {t : TokenId} (found : siteOf db t = some site)
    (expects : site.node.Expects waitKind) : ExpectedAt db site.run site.token waitKind := by
  obtain ⟨-, located⟩ := at_of_siteOf found
  obtain ⟨version, versioned, model⟩ := located.version
  exact ⟨version, site.node, versioned, model ▸ located.node, expects⟩

theorem ExpectedAt.of_same {run run' : Run} {token' : Token}
    (expected : ExpectedAt db run token waitKind) (versions : db'.versions = db.versions)
    (versionId : run'.versionId = run.versionId) (nodeId : token'.nodeId = token.nodeId) :
    ExpectedAt db' run' token' waitKind := by
  obtain ⟨version, node, versioned, located, expects⟩ := expected
  exact ⟨version, node, by rw [versions, versionId, versioned], by rw [nodeId, located], expects⟩

/-- **Every step** leaves tokens waiting for signals only where they are expected to. -/
theorem EngineStep.waitsExpected (step : EngineStep host db event db')
    (expected : WaitsExpected db) : WaitsExpected db' := by
  intro run' isRun token member waiting waitKind signalable isKind
  obtain ⟨runId, found'⟩ := mem_iff_getElem?.mp isRun
  have versions : db'.versions = db.versions := step.touches.versions
  rcases step.run_cases found' with
    ⟨run, found, own, kept, tokens⟩ | ⟨run, found, -, stirred⟩ | ⟨-, started⟩
  · have unbuffered : token.waitKind ≠ some .join := by
      intro join
      cases isKind.symm.trans join
      simp [signalableKinds] at signalable
    rcases tokens.waiting member waiting unbuffered with
      old | ⟨site, outcome, concludes, located, rfl, parks, parkKind, nodeId⟩
    · exact (expected run (List.mem_of_getElem? found) token old waiting waitKind signalable
        isKind).of_same versions kept.versionId rfl
    · obtain ⟨site', isSite, expects⟩ :=
        step.parks_expects concludes parks (parkKind ▸ isKind) signalable
      cases (siteOf_of_at located).symm.trans isSite
      exact (expectedAt_of_siteOf isSite expects).of_same versions kept.versionId
        (nodeId.trans located.nodeId.symm)
  · have old : token ∈ run.tokens := stirred.tokens.mem_of_waiting member waiting
    exact (expected run (List.mem_of_getElem? found) token old waiting waitKind signalable
      isKind).of_same versions stirred.kept.versionId rfl
  · obtain ⟨version, versioned, tokens⟩ := started.version
    rw [tokens] at member
    obtain ⟨trigger, -, rfl⟩ := mem_map.mp member
    cases waiting

end Expected

/-! ## From a signal to the next advance -/

section Completed

variable {host : Host} {db db' : Db} {event : Event}

structure SameSite (before after : Site) : Prop where
  model : after.model = before.model
  node : after.node = before.node
  completed : before.token.data.completed = true → after.token.data.completed = true

def KeepsSite (t : TokenId) (before after : Db) : Prop :=
  ∀ site, siteOf before t = some site → ∃ site', siteOf after t = some site' ∧ SameSite site site'

theorem KeepsSite.refl (t : TokenId) (db : Db) : KeepsSite t db db :=
  fun site found => ⟨site, found, rfl, rfl, id⟩

theorem KeepsSite.trans {t : TokenId} {first second third : Db} (left : KeepsSite t first second)
    (right : KeepsSite t second third) : KeepsSite t first third := by
  intro site found
  obtain ⟨site', found', same⟩ := left site found
  obtain ⟨site'', found'', same'⟩ := right site' found'
  exact ⟨site'', found'', same'.model.trans same.model, same'.node.trans same.node,
    same'.completed ∘ same.completed⟩

section

variable (step : EngineStep host db event db')

include step

theorem EngineStep.siteOf_of_nodeId {t : TokenId} {site : Site} (isSite : siteOf db t = some site)
    {token' : Token} (found' : db'.token? t = some token')
    (sameNode : token'.nodeId = site.token.nodeId) :
    ∃ site', siteOf db' t = some site' ∧ site'.model = site.model ∧ site'.node = site.node ∧
      site'.token = token' := by
  obtain ⟨rfl, located⟩ := at_of_siteOf isSite
  obtain ⟨version, versioned, model⟩ := located.version
  obtain ⟨run', foundRun', kept, -⟩ := step.touches.runs _ _ located.run
  have placed' : run'.tokens[site.t.index]? = some token' := by
    rw [Db.token?, foundRun'] at found'
    exact found'
  have versioned' : db'.versions[run'.versionId]? = some version := by
    rw [step.touches.versions, kept.versionId, versioned]
  have isAt : Site.At { site with token := token', run := run' } db' :=
    ⟨foundRun', placed', ⟨version, versioned', model⟩, by
      rw [sameNode, located.node]⟩
  have isSite' : siteOf db' site.t = some { site with token := token', run := run' } :=
    siteOf_of_at isAt
  exact ⟨_, isSite', rfl, rfl, rfl⟩

theorem EngineStep.keepsSite {t : TokenId} (elsewhere : event.advances? ≠ some t) :
    KeepsSite t db db' := by
  intro site isSite
  obtain ⟨rfl, located⟩ := at_of_siteOf isSite
  obtain ⟨token', found', visit⟩ := step.sameVisit located.token? elsewhere
  obtain ⟨site', isSite', model, node, rfl⟩ := step.siteOf_of_nodeId isSite found' visit.nodeId
  exact ⟨site', isSite', model, node, visit.completed⟩

/-- **A completed wait is passed by its next advance.** -/
theorem EngineStep.leavesByItsEdges {t : TokenId} (advances : event.advances? = some t)
    {site : Site} (isSite : siteOf db t = some site)
    (waits : site.node.passiveWait.isSome ∨ site.node.IsCall)
    (completed : site.token.data.completed = true) : LeavesByItsEdges t site ⟨event, db⟩ := by
  obtain ⟨sameT, located⟩ := at_of_siteOf isSite
  cases step with
  | @unversioned t' run found running missing =>
    obtain rfl : t' = t := some.inj advances
    obtain ⟨version, versioned, -⟩ := located.version
    rw [← sameT] at found
    cases located.run.symm.trans found
    exact nomatch versioned.symm.trans missing
  | @misplaced t' run token version found placed running versioned missing =>
    obtain rfl : t' = t := some.inj advances
    obtain ⟨version', versioned', model⟩ := located.version
    subst sameT
    cases located.run.symm.trans found
    cases located.token.symm.trans placed
    cases versioned'.symm.trans versioned
    rw [← model] at missing
    exact nomatch located.node.symm.trans missing
  | @advanced db' site' outcome located' running dispatched =>
    obtain rfl : site'.t = t := some.inj advances
    cases (siteOf_of_at located').symm.trans isSite
    rw [dispatch_completed waits completed] at dispatched
    obtain ⟨-, rfl⟩ := Dispatched.outcome.inj (Except.ok.inj dispatched)
    exact ⟨_, rfl, rfl, rfl⟩
  | @called db' site' childId located' running dispatched =>
    obtain rfl : site'.t = t := some.inj advances
    cases (siteOf_of_at located').symm.trans isSite
    rw [dispatch_completed waits completed] at dispatched
    cases dispatched
  | @returned site' childId located' running isCall uncompleted =>
    obtain rfl : site'.t = t := some.inj advances
    cases (siteOf_of_at located').symm.trans isSite
    exact nomatch uncompleted.symm.trans completed
  | _ => cases advances

theorem EngineStep.signaled_at {t : TokenId} (isSignal : event.signaled? = some t)
    (expected : WaitsExpected db) : ∃ site, siteOf db t = some site ∧
      (site.node.passiveWait.isSome ∨ site.node.Catches ∨ site.node.IsCall) ∧
      ∀ site', siteOf db' t = some site' → site'.token.data.completed = true := by
  cases step with
  | @signaled runId nodeId correlationKey target' vars output target =>
    obtain rfl : target' = t := some.inj isSignal
    have signalable : (db.token? target').any (Token.isSignalable nodeId correlationKey) :=
      List.find?_some (p := fun t => (db.token? t).any _) target
    obtain ⟨token, found, passes⟩ := (Option.any_eq_true ..).mp signalable
    obtain ⟨run, foundRun, placed⟩ := Option.bind_eq_some_iff.mp found
    have waits : token.status = .waiting ∧ token.waitKind.any (· ∈ signalableKinds) := by
      simp only [Token.isSignalable, Bool.and_eq_true, decide_eq_true_eq] at passes
      exact ⟨passes.1.1.1, passes.1.1.2⟩
    obtain ⟨waitKind, isKind, among⟩ := (Option.any_eq_true ..).mp waits.2
    obtain ⟨version, node, versioned, located, expects⟩ :=
      expected run (List.mem_of_getElem? foundRun) token (List.mem_of_getElem? placed) waits.1
        waitKind (of_decide_eq_true among) isKind
    have isAt : Site.At ⟨target', token, run, normalize version.definition, node⟩ db :=
      ⟨foundRun, placed, ⟨version, versioned, rfl⟩, located⟩
    have isSite : siteOf db target' =
        some ⟨target', token, run, normalize version.definition, node⟩ := siteOf_of_at isAt
    refine ⟨_, isSite, ?_, ?_⟩
    · rcases expects with passive | ⟨catches, -⟩ | ⟨isCall, -⟩
      · exact .inl (by rw [passive]; rfl)
      · exact .inr (.inl catches)
      · exact .inr (.inr isCall)
    · intro site' isSite'
      obtain ⟨sameT, located'⟩ := at_of_siteOf isSite'
      have stamped := located'.token?
      rw [sameT, token?_modifyToken, if_pos rfl] at stamped
      obtain ⟨before, -, same⟩ := map_eq_some_iff.mp stamped
      rw [← same]
      rfl
  | _ => cases isSignal

end

end Completed

/-! ## One path an arrival -/

section Paths

variable {host : Host} {db db' : Db} {event : Event} {nodeId : NodeId} {t : TokenId}

/-- The token is not at the node, or it has ended there. -/
def Gone (nodeId : NodeId) (t : TokenId) (db : Db) : Prop :=
  ∃ token, db.token? t = some token ∧ (token.status = .completed ∨ token.nodeId ≠ nodeId)

/-- The token an outcome is about stays at its node, and ends there if it leaves it by other than
one edge, or it moves to its only target. -/
theorem getElem?_tokensAfter_self {site : Site} {outcome : NodeOutcome} {tokens : List Token}
    {token : Token} (placed : tokens[site.t.index]? = some token) :
    ∃ token', (tokensAfter site outcome tokens)[site.t.index]? = some token' ∧
      ((token'.nodeId = token.nodeId ∧ (outcome.kind = .advance →
          tokens.length + outcome.targets.length ≤ maxTokensPerRun → token'.status = .completed)) ∨
        outcome.kind = .advance ∧ ∃ target, outcome.targets = [target] ∧
          token' = token.moveTo site.node.id target outcome.tokenData) := by
  have modified : ∀ change : Token → Token,
      (tokens.modify site.t.index change)[site.t.index]? = some (change token) := by
    simp [placed]
  have grown : ∀ {kept : List Token} {token' : Token} (more : List Token),
      kept[site.t.index]? = some token' → (kept ++ more)[site.t.index]? = some token' := by
    intro kept token' more found
    rw [List.getElem?_append_left (List.getElem?_eq_some_iff.mp found).1, found]
  unfold tokensAfter
  split
  · rename_i kind
    exact ⟨token, placed, .inl ⟨rfl, fun advance => nomatch kind.symm.trans advance⟩⟩
  · rename_i kind
    exact ⟨_, modified _, .inl ⟨rfl, fun advance => nomatch kind.symm.trans advance⟩⟩
  · exact ⟨_, modified _, .inl ⟨rfl, fun _ _ => rfl⟩⟩
  · rename_i kind
    exact ⟨_, modified _, .inl ⟨rfl, fun advance => nomatch kind.symm.trans advance⟩⟩
  · rename_i kind
    refine ⟨(token.withStatus .completed).kill, ?_, .inl ⟨rfl, fun _ _ => rfl⟩⟩
    rw [getElem?_map, modified]
    rfl
  · rename_i kind
    split
    · rename_i exceeded
      exact ⟨_, modified _, .inl ⟨rfl, fun _ within => absurd exceeded (not_lt.mpr within)⟩⟩
    · unfold tokensMoved
      simp only [kind]
      split
      · rename_i target only
        exact ⟨_, modified _, .inr ⟨trivial, target, only, rfl⟩⟩
      · exact ⟨_, grown _ (modified _), .inl ⟨rfl, fun _ _ => rfl⟩⟩
  · rename_i kind
    have other : outcome.kind ≠ .advance := fun advance => nomatch kind.symm.trans advance
    split
    · exact ⟨_, modified _, .inl ⟨rfl, fun advance => absurd advance other⟩⟩
    · unfold tokensMoved
      simp only [kind]
      exact ⟨_, grown _ placed, .inl ⟨rfl, nofun⟩⟩

theorem getElem?_handled_self {site : Site} {outcome : NodeOutcome} {handled : List Token}
    (handles : Handled site outcome handled)
    (placed : site.run.tokens[site.t.index]? = some site.token) :
    ∃ token', handled[site.t.index]? = some token' ∧ token'.nodeId = site.token.nodeId := by
  have arrives : (arrived site site.run.tokens)[site.t.index]? = some site.token.toBuffer :=
    getElem?_arrived_self placed
  have consumes : ∃ token', (consumed site.node.id (arrived site site.run.tokens))[site.t.index]? =
      some token' ∧ token'.nodeId = site.token.nodeId := by
    rw [consumed, getElem?_map, arrives]
    refine ⟨_, rfl, ?_⟩
    dsimp only
    split <;> rfl
  cases handles with
  | plain => exact ⟨site.token, placed, rfl⟩
  | parallelWaits | inclusiveWaits => exact ⟨_, arrives, rfl⟩
  | parallelFires | inclusiveFires => exact consumes

theorem EngineStep.running_of_advances (step : EngineStep host db event db')
    (advances : event.advances? = some t) : hasStatus db .running t := by
  have placed : ∀ {site : Site}, site.At db → site.token.status = .running →
      hasStatus db .running site.t := by
    intro site located running
    simp [hasStatus, located.token?, running]
  cases step with
  | unversioned found running missing =>
    cases advances
    exact running
  | misplaced found placed running versioned missing =>
    cases advances
    simp [hasStatus, Db.token?, found, placed, running]
  | advanced located running | called located running | returned located running =>
    cases advances
    exact placed located running
  | _ => cases advances

/-- Where an advance leaves its own token: at its node, and ended there if it left it by other
than one edge, or at its only target. -/
structure Moved (db : Db) (event : Event) (t : TokenId) (before after : Token) : Prop where
  place : after.nodeId = before.nodeId ∨ ArrivesAt after.nodeId t ⟨event, db⟩
  ended : TakesPathFrom before.nodeId t ⟨event, db⟩ →
    after.status = .completed ∨ ArrivesAt after.nodeId t ⟨event, db⟩

theorem TokensStep.moved {run : Run} {tokens : List Token} {token : Token}
    (step : TokensStep db run event tokens) (foundRun : db.runs[t.run]? = some run)
    (placed : run.tokens[t.index]? = some token) (advances : event.advances? = some t) :
    ∃ token', tokens[t.index]? = some token' ∧ Moved db event t token token' := by
  cases step with
  | touched touches => exact nomatch (Event.touched?_of_advances advances).symm.trans touches
  | @died _ u dying change woken tokens dies placed' running dead left right =>
    obtain rfl : u = t := Event.died?_of_advances advances dies
    obtain ⟨woke, isWoke, isWoken⟩ := left.token u.index token placed
    obtain ⟨last, isLast, wokenLast⟩ := right.token u.index (change woke) (by simp [isWoke])
    refine ⟨last, isLast, .inl ?_, ?_⟩
    · rw [wokenLast.nodeId, (dead woke).nodeId, isWoken.nodeId]
    · rintro ⟨-, outcome, concludes, -⟩
      exact nomatch (Event.concluded?_of_died dies).symm.trans concludes
  | called wakes =>
    obtain ⟨token', placed', woken⟩ := wakes.token t.index token placed
    refine ⟨token', placed', .inl woken.nodeId, ?_⟩
    rintro ⟨-, outcome, concludes, -⟩
    cases concludes
  | retried => cases advances
  | @concluded _ site outcome handled tokens concludes located same running handles wakes =>
    subst same
    obtain rfl : site.t = t :=
      some.inj ((Event.advances?_of_concluded concludes).symm.trans advances)
    cases located.token.symm.trans placed
    obtain ⟨held, isHeld, heldAt⟩ := getElem?_handled_self handles located.token
    obtain ⟨after, isAfter, becomes⟩ := getElem?_tokensAfter_self isHeld
    obtain ⟨last, isLast, woken⟩ := wakes.token _ after isAfter
    have visit : SameVisit after last := woken.sameVisit
    have arrives : outcome.kind = .advance → (∃ target, outcome.targets = [target] ∧
        after = held.moveTo site.node.id target outcome.tokenData) →
        ArrivesAt last.nodeId site.t ⟨event, db⟩ := by
      rintro advance ⟨target, only, rfl⟩
      exact ⟨outcome, target.2, concludes, advance, by rw [visit.nodeId, only]; rfl⟩
    refine ⟨last, isLast, ?_, ?_⟩
    · rcases becomes with ⟨stays, -⟩ | ⟨advance, only⟩
      · exact .inl (by rw [visit.nodeId, stays, heldAt])
      · exact .inr (arrives advance only)
    · rintro ⟨-, outcome', concludes', advance', within⟩
      obtain ⟨-, rfl⟩ := Prod.mk.inj (some.inj (concludes.symm.trans concludes'))
      rcases becomes with ⟨-, ends⟩ | ⟨advance, only⟩
      · refine .inl (visit.finished (ends advance' ?_))
        cases handles with
        | plain => rwa [tokensOf_eq located.run] at within
        | parallelWaits _ waits | inclusiveWaits _ waits =>
          rw [waits] at advance'
          cases advance'
        | parallelFires _ fires | inclusiveFires _ fires =>
          rw [fires] at advance'
          cases advance'
      · exact .inr (arrives advance only)

section

variable (step : EngineStep host db event db')

include step

theorem EngineStep.moved {token : Token} (advances : event.advances? = some t)
    (found : db.token? t = some token) :
    ∃ token', db'.token? t = some token' ∧ Moved db event t token token' := by
  obtain ⟨run, foundRun, placed⟩ := Option.bind_eq_some_iff.mp found
  obtain ⟨run', foundRun', -⟩ := step.touches.runs t.run run foundRun
  obtain ⟨token', placed', moved⟩ :=
    (step.tokens_cases (Event.run?_of_advances advances) foundRun foundRun').moved foundRun placed advances
  exact ⟨token', by rw [Db.token?, foundRun']; exact placed', moved⟩

/-- A token that took a path is gone from the node, unless that path led back to it. -/
theorem EngineStep.gone_of_takesPath (takes : TakesPathFrom nodeId t ⟨event, db⟩)
    (noArrival : ¬ ArrivesAt nodeId t ⟨event, db⟩) : Gone nodeId t db' := by
  obtain ⟨token, found, isAt⟩ := (Option.any_eq_true ..).mp takes.1
  obtain rfl : token.nodeId = nodeId := of_decide_eq_true isAt
  obtain ⟨outcome, concludes, -⟩ := takes.2
  have advances : event.advances? = some t := Event.advances?_of_concluded concludes
  obtain ⟨token', found', moved⟩ := step.moved advances found
  refine ⟨token', found', (moved.ended takes).imp id fun arrives same => ?_⟩
  exact noArrival (same ▸ arrives)

theorem EngineStep.gone (gone : Gone nodeId t db) (noArrival : ¬ ArrivesAt nodeId t ⟨event, db⟩) :
    Gone nodeId t db' := by
  obtain ⟨token, found, isGone⟩ := gone
  by_cases advances : event.advances? = some t
  · obtain ⟨running, foundRunning, isRunning⟩ :=
      token?_of_hasStatus (step.running_of_advances advances)
    cases found.symm.trans foundRunning
    have elsewhere : token.nodeId ≠ nodeId :=
      isGone.resolve_left fun ended => nomatch ended.symm.trans isRunning
    obtain ⟨token', found', moved⟩ := step.moved advances found
    refine ⟨token', found', .inr fun here => ?_⟩
    rcases moved.place with stays | arrives
    · exact elsewhere (stays.symm.trans here)
    · exact noArrival (here ▸ arrives)
  · obtain ⟨token', found', visit⟩ := step.sameVisit found advances
    exact ⟨token', found', isGone.imp visit.finished fun other => by rwa [visit.nodeId]⟩

end

end Paths

section

variable (host : Host) (db : Db) (actions : List Action)

/-- **One arrival takes one path**, in every history of the engine. -/
theorem onePath : OnePathAnArrival (execute host db actions) := by
  have steps : Continues host { now := db } (execute host db actions) := execute_steps ..
  intro nodeId t i j first second ordered firstAt takesFirst secondAt takesSecond
  by_contra noArrival
  have never : ∀ k moment, i ≤ k → k < j → (execute host db actions).past[k]? = some moment →
      ¬ ArrivesAt nodeId t moment :=
    fun k moment low high found arrives => noArrival ⟨k, moment, low, high, found, arrives⟩
  obtain ⟨-, after, afterAt, step⟩ := steps.stepAt (Nat.zero_le i) firstAt
  obtain ⟨secondBefore, _, _, secondStep⟩ := steps.stepAt (Nat.zero_le j) secondAt
  have gone : Gone nodeId t after :=
    step.gone_of_takesPath takesFirst (never i first le_rfl ordered firstAt)
  have stillGone : Gone nodeId t after → Gone nodeId t second.before :=
    @Steps.relates _ _ _ _ _ (fun before after => Gone nodeId t before → Gone nodeId t after)
      (fun moment => ¬ ArrivesAt nodeId t moment) (fun _ => id)
      (fun _ _ _ left right => right ∘ left) (fun _ _ _ step never gone => step.gone gone never)
      steps _ _ _ _ (Nat.zero_le (i + 1)) (Nat.succ_le_of_lt ordered) afterAt secondBefore
      fun k moment low high found => never k moment (Nat.le_of_succ_le low) high found
  obtain ⟨token, found, isGone⟩ := stillGone gone
  obtain ⟨isAt, outcome, concludes, -⟩ := takesSecond
  have advances : second.event.advances? = some t := Event.advances?_of_concluded concludes
  obtain ⟨running, foundRunning, isRunning⟩ :=
    token?_of_hasStatus (secondStep.running_of_advances advances)
  cases found.symm.trans foundRunning
  rw [found] at isAt
  rcases isGone with ended | elsewhere
  · cases ended.symm.trans isRunning
  · exact elsewhere (of_decide_eq_true isAt)

theorem completionIsFinal (empty : db.runs = [])
    (uncaught : ∀ moment ∈ (execute host db actions).past, ¬ SignalsCatch moment) :
    CompletionIsFinal (execute host db actions) := by
  have steps : Continues host { now := db } (execute host db actions) := execute_steps ..
  have expected : ∀ state ∈ (execute host db actions).states, WaitsExpected state := by
    refine steps.invariant (fun _ => True) (fun _ _ _ step _ => step.waitsExpected)
      (fun _ _ => trivial) fun state isFirst => ?_
    obtain rfl := mem_singleton.mp isFirst
    intro run member
    rw [empty] at member
    cases member
  intro t i j signal next ordered signalAt isSignal nextAt advances between
  obtain ⟨beforeAt, after, afterAt, signalStep⟩ := steps.stepAt (Nat.zero_le i) signalAt
  obtain ⟨nextBeforeAt, _, _, nextStep⟩ := steps.stepAt (Nat.zero_le j) nextAt
  obtain ⟨site, isSite, waits, completes⟩ :=
    signalStep.signaled_at isSignal (expected _ (List.mem_of_getElem? beforeAt))
  have signalled : KeepsSite t signal.before after :=
    signalStep.keepsSite (by rw [Event.advances?_of_signaled isSignal]; exact nofun)
  have meanwhile : KeepsSite t after next.before :=
    steps.relates (fun moment => moment.event.advances? ≠ some t) (KeepsSite.refl t)
      (fun _ _ _ => KeepsSite.trans) (fun _ _ _ step elsewhere => step.keepsSite elsewhere)
      (Nat.zero_le (i + 1)) (Nat.succ_le_of_lt ordered) afterAt nextBeforeAt
      fun k moment low high found => between k moment (Nat.lt_of_succ_le low) high found
  obtain ⟨siteAfter, isSiteAfter, sameAfter⟩ := signalled site isSite
  obtain ⟨site', isSite', same⟩ := meanwhile siteAfter isSiteAfter
  have sameNode : site'.node = site.node := same.node.trans sameAfter.node
  refine ⟨site, site', isSite, isSite', sameNode, ?_⟩
  have catchesNot : ¬ site.node.Catches := by
    intro catches
    refine uncaught signal (List.mem_of_getElem? signalAt) ?_
    rw [SignalsCatch, isSignal, bind_some, isSite]
    exact decide_eq_true catches
  refine nextStep.leavesByItsEdges advances isSite' ?_
    (same.completed (completes siteAfter isSiteAfter))
  rw [sameNode]
  rcases waits with passive | catches | isCall
  · exact .inl passive
  · exact absurd catches catchesNot
  · exact .inr isCall

end

/-- A person's task with a deadline, or a catch event in its place. -/
def waitNode (catches : Bool) : WorkflowNode :=
  if catches then
    { id := "wait", type := .event
      data := { position := some .intermediate, eventType := some .message } }
  else { id := "wait", type := .task, data := { taskType := some .user } }

def waitDefinition (catches : Bool) : WorkflowDefinitionModel where
  schemaVersion := 2
  nodes := [{ id := "start", type := .trigger }, waitNode catches,
    { id := "late", type := .event
      data := { position := some .boundary, eventType := some .timer, attachedTo := some "wait" } },
    { id := "end", type := .event, data := { position := some .endEvent } }]
  edges := [{ source := "start", target := "wait" }, { source := "wait", target := "end" },
    { source := "late", target := "end" }]
  ids_nodup := by cases catches <;> decide
  sources_known := by cases catches <;> decide
  targets_known := by cases catches <;> decide

/-- The deadline has passed when the signal comes. -/
def waitWorld (catches : Bool) : World :=
  execute (.failingAt []) { versions := [{ definition := waitDefinition catches }] }
    [.launch { workflowId := 0, versionId := 0 }, .drive 0, .tick 1, .signal 0 none none [] [],
      .resumeDue [⟨0, 0⟩], .drive 0]

end RedArchKM.Workflow
