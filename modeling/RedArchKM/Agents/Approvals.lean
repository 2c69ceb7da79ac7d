import RedArchKM.Agents.Traces
import RedArchKM.Agents.Accounting
import Mathlib.Data.List.Perm.Subperm

/-!
# Calls that need a person

The gate asks a person about a tool and its arguments. What the answer leaves with the run is
the name of the tool, which every later drive lets through.

A log tells for every moment which tools were asked for in earlier turns, which calls the model
requested in the present one and which of them were asked for (`Standing`). While the gate asks
about a tool once (`AsksOnce`), the name stands for the one call that the approval was asked for
(`Sound`), and so every call that needed a person runs on an approval of its own
(`executesAsApproved_of_asksOnce`).
-/

namespace RedArchKM.Agents

open List Option

open Workflow (Json Fields AgentRunStatus)
open Lib (Moment History)

/-! ## Where a log stands -/

/-- Where a log stands: the tools asked for in earlier turns, the calls of the present turn and
the tools asked for in it. -/
structure Standing where
  asked : List String := []
  calls : List ToolCallRequest := []
  asking : List String := []

def Standing.next (standing : Standing) : LoopEvent → Standing
  | .completion _ calls => { asked := standing.asked ++ standing.asking, calls }
  | .approvalRequired call => { standing with asking := standing.asking ++ [call.name] }
  | _ => standing

def standing (log : List LoopEvent) : Standing := log.foldl Standing.next {}

def askInvocation : LoopEvent → Option Ask
  | .handler _ call .ask => some (call.name, call.arguments)
  | _ => none

/-- The calls whose verdict was ASK and whose handler was invoked. -/
def askInvocations (log : List LoopEvent) : List Ask := log.filterMap askInvocation

def handlerAsk : LoopEvent → Option String
  | .handlerAsk ask => some ask.1
  | _ => none

def handlerAsks (log : List LoopEvent) : List String := log.filterMap handlerAsk

def AgentApproval.ask (approval : AgentApproval) : Ask := (approval.toolName, approval.arguments)

def approvedAsks (approvals : List AgentApproval) : List Ask :=
  (approvals.filter fun approval => approval.status = .approved).map AgentApproval.ask

def LoopEvent.isTurn : LoopEvent → Bool
  | .completion _ _ => true
  | _ => false

section Standing

variable {log events : List LoopEvent}

section

variable (log events : List LoopEvent)

@[simp] theorem standing_append :
    standing (log ++ events) = events.foldl Standing.next (standing log) := by
  simp [standing]

@[simp] theorem askInvocations_append :
    askInvocations (log ++ events) = askInvocations log ++ askInvocations events := by
  simp [askInvocations]

@[simp] theorem handlerAsks_append :
    handlerAsks (log ++ events) = handlerAsks log ++ handlerAsks events := by
  simp [handlerAsks]

end

theorem foldl_next_of_noTurn (events : List LoopEvent) (noTurn : ∀ event ∈ events, event.isTurn = false)
    (start : Standing) : (events.foldl Standing.next start).calls = start.calls ∧
      (events.foldl Standing.next start).asked = start.asked ∧
      start.asking ⊆ (events.foldl Standing.next start).asking := by
  induction events generalizing start with
  | nil => exact ⟨rfl, rfl, Subset.refl _⟩
  | cons event rest ih =>
    rw [forall_mem_cons] at noTurn
    obtain ⟨calls, asked, asking⟩ := ih noTurn.2 (start.next event)
    have step : (start.next event).calls = start.calls ∧ (start.next event).asked = start.asked ∧
        start.asking ⊆ (start.next event).asking := by
      cases event <;> first
        | exact ⟨rfl, rfl, Subset.refl _⟩
        | exact ⟨rfl, rfl, subset_append_left _ _⟩
        | cases noTurn.1
    exact ⟨calls.trans step.1, asked.trans step.2.1, Subset.trans step.2.2 asking⟩

theorem mem_asking_of_mem {call : ToolCallRequest} (events : List LoopEvent)
    (noTurn : ∀ event ∈ events, event.isTurn = false) (member : .approvalRequired call ∈ events)
    (start : Standing) : call.name ∈ (events.foldl Standing.next start).asking := by
  induction events generalizing start with
  | nil => cases member
  | cons event rest ih =>
    rw [forall_mem_cons] at noTurn
    rcases mem_cons.mp member with rfl | later
    · exact (foldl_next_of_noTurn rest noTurn.2 _).2.2 (by simp [Standing.next])
    · exact ih noTurn.2 later (start.next event)

/-- An ask goes back to a call of the present turn, to an earlier turn, or to a handler. -/
def Traced (log : List LoopEvent) (ask : Ask) : Prop :=
  ask.1 ∈ (standing log).asked ∨ ask.1 ∈ handlerAsks log ∨
    ask.1 ∈ (standing log).asking ∧
      ∃ call ∈ (standing log).calls, (call.name, call.arguments) = ask

theorem Traced.append {ask : Ask} (traced : Traced log ask) (events : List LoopEvent) :
    Traced (log ++ events) ask := by
  induction events generalizing log with
  | nil => rwa [append_nil]
  | cons event rest ih =>
    rw [← singleton_append, ← append_assoc]
    apply ih
    unfold Traced at traced ⊢
    rw [standing_append, handlerAsks_append]
    rcases traced with asked | byHandler | ⟨asking, call⟩
    · left
      cases event <;> first
        | exact asked
        | exact mem_append_left _ asked
    · exact .inr (.inl (mem_append_left _ byHandler))
    · cases event <;> first
        | exact .inr (.inr ⟨asking, call⟩)
        | exact .inl (mem_append_right _ asking)
        | exact .inr (.inr ⟨mem_append_left _ asking, call⟩)

end Standing

/-! ## Asking about a tool once -/

/-- The gate asks about the call at this moment of the log: no other call of the turn names the
tool, no earlier turn asked for it, its handler has not been invoked for a call that asked, and
no handler has itself asked a person to approve it. -/
structure AskedOnce (log : List LoopEvent) (call : ToolCallRequest) : Prop where
  alone : (standing log).calls.countP (fun other => other.name = call.name) ≤ 1
  new : call.name ∉ (standing log).asked
  idle : call.name ∉ (askInvocations log).map Prod.fst
  unasked : call.name ∉ handlerAsks log

/-- Whenever the gate asks about a call, it does so once. -/
def AsksOnce (log : List LoopEvent) : Prop :=
  ∀ before call after, log = before ++ .approvalRequired call :: after → AskedOnce before call

instance (log : List LoopEvent) (call : ToolCallRequest) : Decidable (AskedOnce log call) :=
  decidable_of_iff
    ((standing log).calls.countP (fun other => other.name = call.name) ≤ 1 ∧
      call.name ∉ (standing log).asked ∧ call.name ∉ (askInvocations log).map Prod.fst ∧
      call.name ∉ handlerAsks log)
    ⟨fun ⟨alone, new, idle, unasked⟩ => ⟨alone, new, idle, unasked⟩,
      fun ⟨alone, new, idle, unasked⟩ => ⟨alone, new, idle, unasked⟩⟩

theorem asksOnce_iff {log : List LoopEvent} : AsksOnce log ↔ ∀ place < log.length,
    match log[place]? with
    | some (.approvalRequired call) => AskedOnce (log.take place) call
    | _ => True := by
  constructor
  · intro once place inside
    split
    · rename_i call found
      obtain ⟨_, at_⟩ := List.getElem?_eq_some_iff.mp found
      apply once (log.take place) call (log.drop (place + 1))
      rw [← at_, ← List.drop_eq_getElem_cons, List.take_append_drop]
    · trivial
  · rintro each before call after rfl
    have here := each before.length (by simp)
    rwa [getElem?_append_right (Nat.le_refl _), Nat.sub_self, take_left] at here

instance (log : List LoopEvent) : Decidable (AsksOnce log) :=
  decidable_of_iff
    (∀ place < log.length,
      (match log[place]? with
        | some (.approvalRequired call) => decide (AskedOnce (log.take place) call)
        | _ => true) = true)
    (by
      rw [asksOnce_iff]
      refine forall₂_congr fun place _ => ?_
      split <;> simp)

theorem AsksOnce.of_append {log events : List LoopEvent} (once : AsksOnce (log ++ events)) :
    AsksOnce log := by
  intro before call after split
  apply once before call (after ++ events)
  rw [split, append_assoc, cons_append]

section Quiet

variable {events : List LoopEvent} {calls : List ToolCallRequest}

section

variable (gate : ∀ event ∈ events, GateEvent calls event)

include gate

theorem noTurn_of_gate : ∀ event ∈ events, event.isTurn = false := by
  intro event member
  obtain ⟨call, -, rfl | rfl⟩ := gate event member <;> rfl

theorem askInvocations_of_gate : askInvocations events = [] := by
  apply filterMap_eq_nil_iff.mpr
  intro event member
  obtain ⟨call, -, rfl | rfl⟩ := gate event member <;> rfl

theorem handlerAsks_of_gate : handlerAsks events = [] := by
  apply filterMap_eq_nil_iff.mpr
  intro event member
  obtain ⟨call, -, rfl | rfl⟩ := gate event member <;> rfl

end

theorem askInvocations_of_quiet (quiet : ∀ event ∈ events, event.isQuiet) :
    askInvocations events = [] := by
  apply filterMap_eq_nil_iff.mpr
  intro event member
  have isQuiet := quiet event member
  cases event <;> first | rfl | cases isQuiet

theorem AsksOnce.atGate {log gated : List LoopEvent} {call : ToolCallRequest}
    (once : AsksOnce (log ++ gated)) (gate : ∀ event ∈ gated, GateEvent calls event)
    (asked : .approvalRequired call ∈ gated) : AskedOnce log call := by
  obtain ⟨before, after, rfl⟩ := append_of_mem asked
  have inBefore : ∀ event ∈ before, GateEvent calls event := fun event member =>
    gate event (mem_append_left _ member)
  obtain ⟨alone, new, idle, unasked⟩ := once (log ++ before) call after (by simp)
  obtain ⟨sameCalls, sameAsked, -⟩ :=
    foldl_next_of_noTurn before (noTurn_of_gate inBefore) (standing log)
  rw [standing_append, sameCalls] at alone
  rw [standing_append, sameAsked] at new
  rw [askInvocations_append, askInvocations_of_gate inBefore, append_nil] at idle
  rw [handlerAsks_append, handlerAsks_of_gate inBefore, append_nil] at unasked
  exact ⟨alone, new, idle, unasked⟩

end Quiet

theorem eq_of_countP_le_one {α : Type*} {p : α → Bool} {list : List α} (single : list.countP p ≤ 1)
    {a b : α} (memberA : a ∈ list) (memberB : b ∈ list) (passA : p a) (passB : p b) : a = b := by
  rw [countP_eq_length_filter] at single
  have inA : a ∈ list.filter p := mem_filter.mpr ⟨memberA, passA⟩
  have inB : b ∈ list.filter p := mem_filter.mpr ⟨memberB, passB⟩
  match listed : list.filter p with
  | [] => rw [listed] at inA; cases inA
  | [c] =>
    rw [listed] at inA inB
    rw [mem_singleton.mp inA, mem_singleton.mp inB]
  | c :: d :: rest => rw [listed] at single; simp at single

/-! ## One batch -/

/-- Each call that needed a person ran on an approval of its own, and every ask is accounted
for. -/
structure Sound (approvals : List AgentApproval) (log : List LoopEvent) : Prop where
  nodup : ((askInvocations log).map Prod.fst).Nodup
  covered : ∀ ask ∈ askInvocations log, ask ∈ approvedAsks approvals
  traced : ∀ approval ∈ approvals, Traced log approval.ask

def NamesApproved (approvals : List AgentApproval) (names : List String) : Prop :=
  ∀ name ∈ names, ∃ ask ∈ approvedAsks approvals, ask.1 = name

section Batch

variable {σ : Type} {drive : Drive σ} {approvals : List AgentApproval}
  {log events : List LoopEvent} {calls : List ToolCallRequest} {answers : Fields}

/-- **An approved name stands for the call that was asked about.** -/
theorem Sound.ask_mem {call : ToolCallRequest} (sound : Sound approvals log)
    (named : ∃ ask ∈ approvedAsks approvals, ask.1 = call.name)
    (inTurn : call ∈ (standing log).calls) (once : AskedOnce log call) :
    (call.name, call.arguments) ∈ approvedAsks approvals := by
  obtain ⟨ask, approved, isName⟩ := named
  obtain ⟨approval, inTable, rfl⟩ := mem_map.mp approved
  have traced := sound.traced approval (mem_filter.mp inTable).1
  unfold Traced at traced
  rw [isName] at traced
  rcases traced with asked | byHandler | ⟨-, call', inTurn', same⟩
  · exact absurd asked once.new
  · exact absurd byHandler once.unasked
  · have sameName : call'.name = call.name := by
      rw [← isName, ← same]
    obtain rfl := eq_of_countP_le_one once.alone inTurn' inTurn (by simpa using sameName) (by simp)
    rwa [same]

def askPlan (drive : Drive σ) (plan : Plan) : Option Ask :=
  match plan.action with
  | .run spec =>
    if (decideCall drive.agent spec drive.autonomy).decision = .ask then
      some (plan.call.name, plan.call.arguments)
    else none
  | .preset _ => none

theorem askInvocations_planTrace {plan : Plan} {outcome : HandlerOutcome}
    (trace : PlanTrace drive plan events outcome) :
    (askInvocations events).Sublist (askPlan drive plan).toList := by
  cases trace with
  | preset => exact nil_sublist _
  | refused => exact nil_sublist _
  | @invoked call terminal spec outcome =>
    unfold askPlan Drive.invocation
    dsimp only
    cases verdict : (decideCall drive.agent spec drive.autonomy).decision with
    | ask => split <;> exact Sublist.refl _
    | allow => split <;> exact nil_sublist _
    | deny => split <;> exact nil_sublist _

variable {plans : List Plan} {result : Except LoopOutcome Unit}

/-- **Only plans run.** -/
theorem askInvocations_plansTrace (trace : PlansTrace drive plans events result) :
    (askInvocations events).Sublist (plans.filterMap (askPlan drive)) := by
  have grow : ∀ {plan : Plan} {rest : List Plan},
      (plan :: rest).filterMap (askPlan drive) =
        (askPlan drive plan).toList ++ rest.filterMap (askPlan drive) := by
    intro plan rest
    rw [filterMap_cons]
    cases askPlan drive plan <;> rfl
  induction trace with
  | done => exact Sublist.refl _
  | parked first =>
    rw [grow]
    exact (askInvocations_planTrace first).trans (sublist_append_left _ _)
  | finished first =>
    rw [grow]
    exact (askInvocations_planTrace first).trans (sublist_append_left _ _)
  | next first others ih =>
    rw [grow, askInvocations_append]
    exact (askInvocations_planTrace first).append ih

theorem noTurn_planTrace {plan : Plan} {outcome : HandlerOutcome}
    (trace : PlanTrace drive plan events outcome) : ∀ event ∈ events, event.isTurn = false := by
  cases trace with
  | preset => simp
  | refused => simp
  | invoked outcome =>
    unfold Drive.invocation
    split <;> simp [LoopEvent.isTurn]

theorem noTurn_plansTrace (trace : PlansTrace drive plans events result) :
    ∀ event ∈ events, event.isTurn = false := by
  induction trace with
  | done => simp
  | parked first => exact noTurn_planTrace first
  | finished first => exact noTurn_planTrace first
  | next first others ih =>
    intro event member
    rcases mem_append.mp member with inFirst | inOthers
    · exact noTurn_planTrace first event inFirst
    · rcases mem_cons.mp inOthers with rfl | later
      · rfl
      · exact ih event later

/-- A handler that parks on an approval has asked for it, and what stays pending is the rest. -/
theorem PlansTrace.parks {plans : List Plan} {result : Except LoopOutcome Unit}
    (trace : PlansTrace drive plans events result) {park : Park}
    {pending : List ToolCallRequest} (parks : result = .error (.parked park pending)) :
    pending.Sublist (plans.map Plan.call) ∧
      ∀ ask, park = .approval ask → ask.1 ∈ handlerAsks events := by
  induction trace with
  | done => cases parks
  | @parked plan rest events park' first =>
    cases Except.error.inj parks
    refine ⟨Sublist.refl _, fun ask isAsk => ?_⟩
    subst isAsk
    cases first with
    | refused never => exact absurd rfl (never _)
    | invoked => simp [Drive.invocation, handlerAsks, handlerAsk]
  | finished first => cases parks
  | next first others ih =>
    obtain ⟨sub, asks⟩ := ih parks
    refine ⟨sub.trans (sublist_cons_self _ _), fun ask isAsk => ?_⟩
    rw [handlerAsks_append]
    exact mem_append_right _ (asks ask isAsk)

theorem Sound.gated (sound : Sound approvals log) (gate : ∀ event ∈ events, GateEvent calls event) :
    Sound approvals (log ++ events) := by
  have none_ran := askInvocations_of_gate gate
  exact ⟨by simpa [none_ran] using sound.nodup, by simpa [none_ran] using sound.covered,
    fun approval member => (sound.traced approval member).append events⟩

theorem nodup_askPlans (passed : ∀ ask ∈ plans.filterMap (askPlan drive),
    (plans.map Plan.call).countP (fun call => call.name = ask.1) ≤ 1) :
    ((plans.filterMap (askPlan drive)).map Prod.fst).Nodup := by
  apply nodup_iff_count_le_one.mpr
  intro name
  have sub : ((plans.filterMap (askPlan drive)).map Prod.fst).Sublist
      ((plans.map Plan.call).map ToolCallRequest.name) := by
    clear passed
    induction plans with
    | nil => exact Sublist.refl _
    | cons plan rest ih =>
      rw [filterMap_cons]
      cases asks : askPlan drive plan with
      | none => exact ih.cons _
      | some ask =>
        have isName : ask.1 = plan.call.name := by
          unfold askPlan at asks
          split at asks
          · split at asks
            · rw [← some.inj asks]
            · cases asks
          · cases asks
        simpa [isName] using ih
  by_cases listed : name ∈ (plans.filterMap (askPlan drive)).map Prod.fst
  · obtain ⟨ask, member, rfl⟩ := mem_map.mp listed
    calc List.count ask.1 ((plans.filterMap (askPlan drive)).map Prod.fst)
        ≤ List.count ask.1 ((plans.map Plan.call).map ToolCallRequest.name) := sub.count_le _
      _ = (plans.map Plan.call).countP fun call => call.name = ask.1 := by
          rw [List.count, countP_map]
          apply countP_congr
          simp
      _ ≤ 1 := passed ask member
  · rw [count_eq_zero_of_not_mem listed]
    exact Nat.zero_le 1

theorem sortPlans_perm (plans : List Plan) : (Drive.sortPlans plans).Perm plans := by
  exact (perm_append_comm).trans (filter_append_perm _ plans)

/-- A call that asks and runs was let through by its name, and the gate asked about it. -/
theorem exists_call_of_askPlan {gated : List LoopEvent}
    (passed : ∀ plan ∈ plans, Passed drive gated plan) {ask : Ask}
    (member : ask ∈ plans.filterMap (askPlan drive)) :
    ∃ call ∈ plans.map Plan.call, ask = (call.name, call.arguments) ∧
      .approvalRequired call ∈ gated ∧
      ∃ spec, spec.name = call.name ∧ drive.strategy spec call.arguments = .approved := by
  obtain ⟨plan, inPlans, asks⟩ := mem_filterMap.mp member
  unfold askPlan at asks
  split at asks
  · rename_i spec run
    split at asks
    · rename_i verdict
      obtain ⟨-, named, allowed | ⟨-, approved, asked⟩⟩ := passed plan inPlans spec run
      · rw [verdict] at allowed
        cases allowed
      · exact ⟨plan.call, mem_map_of_mem inPlans, (some.inj asks).symm, asked, spec,
          named, approved⟩
    · cases asks
  · cases asks

def ParkTraced (log : List LoopEvent) (outcome : LoopOutcome) : Prop :=
  ∀ park pending, outcome = .parked park pending →
    pending.Subperm (standing log).calls ∧ ∀ ask, park = .approval ask → Traced log ask

/-- **A batch that asks about its tools once stays sound.** -/
theorem Sound.batch {names : List String} (sound : Sound approvals log)
    (inside : calls.Subperm (standing log).calls) (approved : NamesApproved approvals names)
    (strategy : drive.strategy = approvalStrategy names)
    (trace : BatchTrace drive answers calls events result) (once : AsksOnce (log ++ events)) :
    Sound approvals (log ++ events) ∧
      (standing (log ++ events)).calls = (standing log).calls ∧
      ∀ outcome, result = .error outcome → ParkTraced (log ++ events) outcome := by
  cases trace with
  | @parked ask gated asks =>
    obtain ⟨⟨call, member, isCall, asked⟩, gate⟩ := gateTools_error asks
    obtain ⟨sameCalls, -, -⟩ := foldl_next_of_noTurn _ (noTurn_of_gate gate) (standing log)
    rw [standing_append]
    refine ⟨sound.gated gate, sameCalls, ?_⟩
    rintro outcome isOutcome park pending parks
    cases isOutcome
    cases parks
    rw [standing_append, sameCalls]
    refine ⟨inside, fun ask' isAsk => ?_⟩
    cases isAsk
    refine .inr (.inr ⟨?_, call, ?_, isCall.symm⟩)
    · rw [standing_append, isCall]
      exact mem_asking_of_mem _ (noTurn_of_gate gate) asked _
    · rw [standing_append, sameCalls]
      exact inside.subset member
  | cancelled passes =>
    obtain ⟨-, -, gate⟩ := gateTools_ok passes
    obtain ⟨sameCalls, -, -⟩ := foldl_next_of_noTurn _ (noTurn_of_gate gate) (standing log)
    rw [standing_append]
    refine ⟨sound.gated gate, sameCalls, ?_⟩
    rintro outcome isOutcome park pending parks
    cases isOutcome
    cases parks
  | @ran plans gated ran _ passes runs =>
    obtain ⟨areCalls, passed, gate⟩ := gateTools_ok passes
    have noTurn : ∀ event ∈ gated ++ ran, event.isTurn = false := by
      intro event member
      rcases mem_append.mp member with inGate | inRun
      · exact noTurn_of_gate gate event inGate
      · exact noTurn_plansTrace runs event inRun
    obtain ⟨sameCalls, -, -⟩ := foldl_next_of_noTurn _ noTurn (standing log)
    have onceGate : AsksOnce (log ++ gated) := by
      rw [← append_assoc] at once
      exact once.of_append
    -- What the plans may run: each on its own approval, none twice, none that ran before.
    have ask_spec : ∀ ask ∈ plans.filterMap (askPlan drive), ∃ call ∈ calls,
        ask = (call.name, call.arguments) ∧ AskedOnce log call ∧ ask ∈ approvedAsks approvals := by
      intro ask member
      obtain ⟨call, inCalls, isCall, asked, spec, named, through⟩ :=
        exists_call_of_askPlan passed member
      rw [areCalls] at inCalls
      have atGate := onceGate.atGate gate asked
      have inNames : call.name ∈ names := by
        rw [strategy] at through
        unfold approvalStrategy at through
        split at through
        · rename_i contained
          rw [named] at contained
          simpa using contained
        · cases through
      rw [isCall]
      exact ⟨call, inCalls, rfl, atGate,
        sound.ask_mem (approved _ inNames) (inside.subset inCalls) atGate⟩
    have sub : (askInvocations ran).Sublist ((Drive.sortPlans plans).filterMap (askPlan drive)) :=
      askInvocations_plansTrace runs
    have perm := (sortPlans_perm plans).filterMap (askPlan drive)
    have inPlans : ∀ ask ∈ askInvocations ran, ask ∈ plans.filterMap (askPlan drive) :=
      fun ask member => perm.mem_iff.mp (sub.subset member)
    have nodup : ((askInvocations ran).map Prod.fst).Nodup := by
      apply (sub.map Prod.fst).nodup
      apply (perm.map Prod.fst).nodup_iff.mpr
      apply nodup_askPlans
      intro ask member
      obtain ⟨call, inCalls, rfl, atGate, -⟩ := ask_spec ask member
      rw [areCalls]
      exact Nat.le_trans (inside.countP_le _) atGate.alone
    refine ⟨⟨?_, ?_, ?_⟩, by rw [standing_append, sameCalls], ?_⟩
    · rw [askInvocations_append, askInvocations_append, askInvocations_of_gate gate,
        nil_append, map_append]
      refine nodup_append.mpr ⟨sound.nodup, nodup, ?_⟩
      rintro name before _ ran' rfl
      obtain ⟨ask, member, rfl⟩ := mem_map.mp ran'
      obtain ⟨call, -, rfl, atGate, -⟩ := ask_spec ask (inPlans ask member)
      exact atGate.idle before
    · rw [askInvocations_append, askInvocations_append, askInvocations_of_gate gate, nil_append]
      intro ask member
      rcases mem_append.mp member with before | now
      · exact sound.covered ask before
      · obtain ⟨-, -, -, -, approved⟩ := ask_spec ask (inPlans ask now)
        exact approved
    · exact fun approval member => (sound.traced approval member).append _
    · rintro outcome isOutcome park pending rfl
      obtain ⟨pendingSub, asks⟩ := runs.parks isOutcome
      rw [standing_append, sameCalls]
      constructor
      · have inCalls := (sortPlans_perm plans).map Plan.call
        rw [areCalls] at inCalls
        exact (pendingSub.subperm.trans inCalls.subperm).trans inside
      · intro ask isAsk
        refine .inr (.inl ?_)
        rw [handlerAsks_append, handlerAsks_append]
        exact mem_append_right _ (mem_append_right _ (asks ask isAsk))

/-- **A drive that asks about its tools once stays sound.** -/
theorem Sound.loop {names : List String} {pending : Option (List ToolCallRequest)}
    {outcome : LoopOutcome} (sound : Sound approvals log)
    (inside : ∀ calls, pending = some calls → calls.Subperm (standing log).calls)
    (approved : NamesApproved approvals names) (strategy : drive.strategy = approvalStrategy names)
    (trace : LoopTrace drive pending answers events outcome) (once : AsksOnce (log ++ events)) :
    Sound approvals (log ++ events) ∧ ParkTraced (log ++ events) outcome := by
  have quietSound : ∀ {log quiet : List LoopEvent}, (∀ event ∈ quiet, event.isQuiet) →
      Sound approvals log → Sound approvals (log ++ quiet) := by
    intro log quiet isQuiet sound
    have none_ran := askInvocations_of_quiet isQuiet
    exact ⟨by simpa [none_ran] using sound.nodup, by simpa [none_ran] using sound.covered,
      fun approval member => (sound.traced approval member).append quiet⟩
  have turnSound : ∀ {log : List LoopEvent} (usage : Option Usage) (calls : List ToolCallRequest),
      Sound approvals log → Sound approvals (log ++ [.completion usage calls]) := by
    intro log usage calls sound
    have none_ran : askInvocations [.completion usage calls] = [] := rfl
    exact ⟨by simpa [none_ran] using sound.nodup, by simpa [none_ran] using sound.covered,
      fun approval member => (sound.traced approval member).append _⟩
  have requested : ∀ {log turn : List LoopEvent} {pending : Option (List ToolCallRequest)}
      {calls : List ToolCallRequest}, TurnTrace pending turn calls → Sound approvals log →
      (∀ calls, pending = some calls → calls.Subperm (standing log).calls) →
      Sound approvals (log ++ turn) ∧ calls.Subperm (standing (log ++ turn)).calls := by
    intro log turn pending calls asked sound inside
    cases asked with
    | pending => exact ⟨by simpa using sound, by simpa using inside calls rfl⟩
    | @requested quiet isQuiet usage =>
      rw [← append_assoc]
      refine ⟨turnSound usage calls (quietSound isQuiet sound), ?_⟩
      rw [standing_append]
      exact List.Subperm.refl _
  induction trace generalizing log with
  | @stops pending answers events outcome stop =>
    have noPark : ∀ park calls, outcome ≠ .parked park calls := by
      cases stop <;> simp
    refine ⟨?_, fun park calls parks => absurd parks (noPark park calls)⟩
    cases stop with
    | truncated => exact quietSound (by simp [LoopEvent.isQuiet]) sound
    | cancelled => exact quietSound (by simp) sound
    | failed isQuiet => exact quietSound isQuiet sound
    | returned isQuiet usage =>
      rw [← singleton_append, ← append_assoc, ← append_assoc]
      exact quietSound (by simp [LoopEvent.isQuiet]) (turnSound usage [] (quietSound isQuiet sound))
  | ends asked ended =>
    obtain ⟨soundTurn, insideTurn⟩ := requested asked sound inside
    rw [← append_assoc] at once ⊢
    obtain ⟨soundBatch, -, parks⟩ := soundTurn.batch insideTurn approved strategy ended once
    exact ⟨soundBatch, parks _ rfl⟩
  | goesOn asked ran rest ih =>
    obtain ⟨soundTurn, insideTurn⟩ := requested asked sound inside
    rw [← append_assoc, ← append_assoc] at once ⊢
    obtain ⟨soundBatch, -, -⟩ := soundTurn.batch insideTurn approved strategy ran once.of_append
    exact ih soundBatch (fun calls none_ => by cases none_) once

end Batch

/-! ## Whole runs -/

section Tables

variable {approvals approvals' : List AgentApproval}

theorem mem_approvedAsks {ask : Ask} : ask ∈ approvedAsks approvals ↔
    ∃ approval ∈ approvals, approval.status = .approved ∧ approval.ask = ask := by
  simp [approvedAsks, and_assoc]

theorem NamesApproved.mono {names : List String} (named : NamesApproved approvals names)
    (subset : approvedAsks approvals ⊆ approvedAsks approvals') : NamesApproved approvals' names :=
  fun name member => (named name member).imp fun _ ask => ⟨subset ask.1, ask.2⟩

theorem mem_of_mem_sortedNames {names : List String} {name : String}
    (member : name ∈ sortedNames names) : name ∈ names := by
  unfold sortedNames at member
  rw [mem_insertionSort] at member
  exact mem_eraseDups.mp member

theorem mem_or_eq_of_mem_modify {α : Type*} {table : List α} {id : Nat} {change : α → α} {row : α}
    (member : row ∈ table.modify id change) :
    row ∈ table ∨ ∃ old, table[id]? = some old ∧ row = change old := by
  obtain ⟨place, at_⟩ := mem_iff_getElem?.mp member
  rw [getElem?_modify] at at_
  obtain ⟨old, found, isRow⟩ := map_eq_some_iff.mp at_
  by_cases same : id = place
  · subst same
    exact .inr ⟨old, found, by simpa using isRow.symm⟩
  · rw [if_neg same] at isRow
    exact .inl (isRow ▸ mem_of_getElem? found)

theorem approvedAsks_subset_modify {id : ApprovalId} {approval : AgentApproval}
    (found : approvals[id]? = some approval) (pending : approval.status = .pending)
    (change : AgentApproval → AgentApproval) :
    approvedAsks approvals ⊆ approvedAsks (approvals.modify id change) := by
  intro ask member
  obtain ⟨row, inTable, approved, isAsk⟩ := mem_approvedAsks.mp member
  obtain ⟨place, at_⟩ := mem_iff_getElem?.mp inTable
  have other : id ≠ place := by
    rintro rfl
    cases found.symm.trans at_
    rw [pending] at approved
    cases approved
  refine mem_approvedAsks.mpr ⟨row, mem_of_getElem? (i := place) ?_, approved, isAsk⟩
  rw [getElem?_modify, at_]
  simp [other]

def voidPending (approval : AgentApproval) : AgentApproval :=
  if approval.status = .pending then { approval with status := .voided } else approval

@[simp] theorem ask_voidPending (approval : AgentApproval) :
    (voidPending approval).ask = approval.ask := by
  unfold voidPending
  split <;> rfl

theorem approvedAsks_subset_voidPending (approvals : List AgentApproval) :
    approvedAsks approvals ⊆ approvedAsks (approvals.map voidPending) := by
  intro ask member
  obtain ⟨row, inTable, approved, isAsk⟩ := mem_approvedAsks.mp member
  have kept : voidPending row = row := by simp [voidPending, approved]
  exact mem_approvedAsks.mpr ⟨row, kept ▸ mem_map_of_mem inTable, approved, isAsk⟩

theorem Sound.of_table {log : List LoopEvent} (sound : Sound approvals log)
    (subset : approvedAsks approvals ⊆ approvedAsks approvals')
    (traced : ∀ approval ∈ approvals', Traced log approval.ask) : Sound approvals' log :=
  ⟨sound.nodup, fun ask member => subset (sound.covered ask member), traced⟩

theorem asks_modify {id : ApprovalId} {change : AgentApproval → AgentApproval}
    (same : ∀ row : AgentApproval, (change row).ask = row.ask) :
    ∀ approval ∈ approvals.modify id change, ∃ old ∈ approvals, approval.ask = old.ask := by
  intro row member
  rcases mem_or_eq_of_mem_modify member with old | ⟨old, found, rfl⟩
  · exact ⟨row, old, rfl⟩
  · exact ⟨old, mem_of_getElem? found, same old⟩

theorem asks_voidPending :
    ∀ approval ∈ approvals.map voidPending, ∃ old ∈ approvals, approval.ask = old.ask := by
  intro row member
  obtain ⟨old, inTable, rfl⟩ := mem_map.mp member
  exact ⟨old, inTable, ask_voidPending old⟩

end Tables

section Segment

variable {σ : Type} {segment : Segment σ} {run : AgentRun} {world : σ}
  {approvals : List AgentApproval} {log : List LoopEvent}

/-- Where a run continues belongs to its last turn, and its names were approved. -/
def Continues (approvals : List AgentApproval) (log : List LoopEvent) (run : AgentRun) : Prop :=
  ∀ resume, run.input.resume = some resume →
    resume.pending.Subperm (standing log).calls ∧ NamesApproved approvals resume.approved

theorem Continues.resumeOf (continues : Continues approvals log run) (segment : Segment σ) :
    NamesApproved approvals (segment.resumeOf run).1 ∧
      ∀ calls, (segment.resumeOf run).2.2.1 = some calls → calls.Subperm (standing log).calls := by
  unfold Segment.resumeOf
  cases resumed : run.input.resume with
  | none =>
    constructor
    · intro name member
      cases member
    · intro calls pending
      cases pending
  | some resume =>
    refine ⟨(continues resume resumed).2, fun calls pending => ?_⟩
    cases pending
    exact (continues resume resumed).1

/-- **The drives of a segment that ask about their tools once stay sound.** -/
theorem Sound.drive (sound : Sound approvals log) (continues : Continues approvals log run)
    (once : AsksOnce (log ++ (segment.drive run world).log)) :
    Sound approvals (log ++ (segment.drive run world).log) ∧
      ParkTraced (log ++ (segment.drive run world).log) (segment.drive run world).outcome := by
  obtain ⟨named, inside⟩ := continues.resumeOf segment
  have firstDrive : ∃ events, (segment.firstDrive run world).log = events ∧
      LoopTrace (segment.toDrive (segment.resumeOf run).1) (segment.resumeOf run).2.2.1
        (segment.resumeOf run).2.2.2 events (segment.firstDrive run world).outcome := by
    obtain ⟨events, trace, adds⟩ := loop_trace (segment.toDrive (segment.resumeOf run).1)
      { world, messages := (segment.resumeOf run).2.1 } segment.maxIterations
      (segment.resumeOf run).2.2.1 (segment.resumeOf run).2.2.2
    exact ⟨events, adds, trace⟩
  obtain ⟨events, isLog, trace⟩ := firstDrive
  unfold Segment.drive at once ⊢
  dsimp only at once ⊢
  cases nudged : segment.nudge run (segment.firstDrive run world) with
  | none =>
    rw [nudged] at once
    rw [isLog] at once ⊢
    exact sound.loop inside named rfl trace once
  | some text =>
    rw [nudged] at once
    dsimp only at once ⊢
    obtain ⟨later, laterTrace, laterAdds⟩ := loop_trace
      (segment.toDrive (segment.resumeOf run).1)
      { world := (segment.firstDrive run world).world
        messages := (segment.firstDrive run world).messages ++ [userMessage text] }
      segment.maxIterations none []
    have isLater : (segment.secondDrive run (segment.firstDrive run world) text).log = later :=
      laterAdds
    rw [isLog, isLater, ← append_assoc] at once ⊢
    obtain ⟨soundFirst, -⟩ := sound.loop inside named rfl trace once.of_append
    exact soundFirst.loop (fun calls none_ => by cases none_) named rfl laterTrace once

end Segment

section Life

variable {σ : Type} {life next : Life σ}

/-- What anything but a drive does to a run: its approvals stay or are decided, and where it
continues stays, but for a name that was just approved. -/
structure Settles (life next : Life σ) : Prop where
  log : next.log = life.log
  approved : approvedAsks life.approvals ⊆ approvedAsks next.approvals
  asks : ∀ approval ∈ next.approvals, ∃ old ∈ life.approvals, approval.ask = old.ask
  resume : next.run.status.isTerminal = false → life.run.status.isTerminal = false ∧
    ∀ resume, next.run.input.resume = some resume →
      resume.pending = (life.run.input.resume.getD {}).pending ∧
      ∀ name ∈ resume.approved, name ∈ (life.run.input.resume.getD {}).approved ∨
        ∃ ask ∈ approvedAsks next.approvals, ask.1 = name

theorem settles_of_same (sameApprovals : next.approvals = life.approvals)
    (sameLog : next.log = life.log) (live : next.run.status.isTerminal = false →
      life.run.status.isTerminal = false ∧ next.run.input.resume = life.run.input.resume) :
    Settles life next where
  log := sameLog
  approved := by rw [sameApprovals]; exact Subset.refl _
  asks := by
    rw [sameApprovals]
    exact fun approval member => ⟨approval, member, rfl⟩
  resume := by
    intro alive
    obtain ⟨alive', same⟩ := live alive
    refine ⟨alive', fun resume resumed => ?_⟩
    rw [← same, resumed]
    exact ⟨rfl, fun name member => .inl member⟩

theorem settles_of_ended {decided : List AgentApproval} (isDecided : next.approvals = decided)
    (sameLog : next.log = life.log) (ended : next.run.status.isTerminal)
    (approved : approvedAsks life.approvals ⊆ approvedAsks decided)
    (asks : ∀ approval ∈ decided, ∃ old ∈ life.approvals, approval.ask = old.ask) :
    Settles life next where
  log := sameLog
  approved := by rw [isDecided]; exact approved
  asks := by rw [isDecided]; exact asks
  resume := by
    intro alive
    rw [ended] at alive
    cases alive

theorem isTerminal_finalize {run : AgentRun} {status : AgentRunStatus} (ends : status.isTerminal)
    (error : Option String) (usage : Usage) : (run.finalize status error usage).status.isTerminal := by
  unfold AgentRun.finalize
  split
  · assumption
  · exact ends

theorem settles_cancel (life : Life σ) (reason : String) : Settles life (life.cancel reason) := by
  unfold Life.cancel
  split
  · exact settles_of_same rfl rfl fun alive => ⟨alive, rfl⟩
  · exact settles_of_ended (Life.approvals_settleQuestions _) (Life.log_settleQuestions _)
      (by rw [Life.run_settleQuestions]; rfl) (approvedAsks_subset_voidPending _) asks_voidPending

/-- **What happens to a run between its drives.** -/
theorem settles_becomes (becomes : life.Becomes next) : Settles life next := by
  cases becomes with
  | claimed queued => exact settles_of_same rfl rfl fun _ => ⟨by rw [queued]; rfl, rfl⟩
  | approved found pending =>
    refine ⟨rfl, approvedAsks_subset_modify found pending _, asks_modify fun row => rfl,
      fun alive => ⟨alive, fun resume resumed => ?_⟩⟩
    rw [show life.run.input.resume = some resume from resumed]
    exact ⟨rfl, fun name member => .inl member⟩
  | @continued id approval decidedBy found pending waiting =>
    refine ⟨rfl, approvedAsks_subset_modify found pending _, asks_modify fun row => rfl,
      fun _ => ⟨by rw [waiting]; rfl, fun resume resumed => ?_⟩⟩
    cases resumed
    refine ⟨rfl, fun name member => ?_⟩
    rcases mem_append.mp (mem_of_mem_sortedNames member) with old | new
    · exact .inl old
    · -- The name that was just approved.
      obtain rfl := mem_singleton.mp new
      refine .inr ⟨approval.ask, mem_approvedAsks.mpr
        ⟨{ approval with status := .approved, decidedBy }, ?_, rfl, rfl⟩, rfl⟩
      refine mem_of_getElem? (i := id) ?_
      simp [Life.modifyApproval, found]
  | denied found pending =>
    exact settles_of_ended (Life.approvals_settleQuestions _) (Life.log_settleQuestions _)
      (by rw [Life.run_settleQuestions]; exact isTerminal_finalize rfl _ _)
      (approvedAsks_subset_modify found pending _) (asks_modify fun row => rfl)
  | asked => exact settles_of_same rfl rfl fun alive => ⟨alive, rfl⟩
  | answered _ _ waiting =>
    refine ⟨rfl, Subset.refl _, fun approval member => ⟨approval, member, rfl⟩,
      fun _ => ⟨by rw [waiting]; rfl, fun resume resumed => ?_⟩⟩
    cases resumed
    exact ⟨rfl, fun name member => .inl member⟩
  | cancelled reason => exact settles_cancel life reason
  | lost =>
    refine settles_of_same (by simp) (by simp) fun alive => ?_
    rw [Life.run_settleQuestions, isTerminal_finalize rfl] at alive
    cases alive
  | reclaimed running => exact settles_of_same rfl rfl fun _ => ⟨by rw [running]; rfl, rfl⟩

theorem approvals_record (life : Life σ) (outcome : LoopOutcome) :
    (life.record outcome).approvals = life.approvals ∨ ∃ approval pending,
      outcome = .parked (.approval approval.ask) pending ∧
        (life.record outcome).approvals = life.approvals ++ [approval] := by
  unfold Life.record
  split
  · rename_i toolName arguments pending
    exact .inr ⟨{ runId := life.id, toolName, arguments }, pending, rfl, rfl⟩
  · exact .inl rfl
  · exact .inl rfl
  · exact .inl rfl

theorem settle_alive {segment : Segment σ} {driven : Driven σ} {run : AgentRun}
    (own : driven.outcome ≠ .cancelled)
    (alive : (segment.settle driven run).status.isTerminal = false) :
    ∃ park pending, driven.outcome = .parked park pending ∧
      ∃ messages answers, (segment.settle driven run).input.resume =
        some ⟨messages, pending, sortedNames (segment.resumeOf run).1, answers⟩ := by
  have ended : ∀ {row : AgentRun} {status : AgentRunStatus} {error : Option String} {usage : Usage},
      status.isTerminal → (row.finalize status error usage).status.isTerminal = false → False := by
    intro row status error usage ends live
    rw [isTerminal_finalize ends] at live
    cases live
  unfold Segment.settle at alive ⊢
  split at alive
  · rename_i cancelled
    exact absurd cancelled own
  · exact (ended rfl alive).elim
  · exact (ended rfl alive).elim
  · exact (ended rfl alive).elim
  · exact (ended rfl alive).elim
  · rename_i park pending parked
    rw [parked]
    exact ⟨park, pending, rfl, _, _, rfl⟩
  · split at alive
    · exact (ended rfl alive).elim
    · exact (ended rfl alive).elim

/-- What a drive does to a run: it adds to the log, its park may ask for an approval, and a run
it leaves alive continues with what is pending and the names it had. -/
structure Drove (segment : Segment σ) (life next : Life σ) : Prop where
  running : life.run.status = .running
  admitted : segment.refusal = none
  log : next.log = life.log ++ (segment.drive life.run life.world).log
  approved : approvedAsks life.approvals ⊆ approvedAsks next.approvals
  asks : ∀ approval ∈ next.approvals, (∃ old ∈ life.approvals, approval.ask = old.ask) ∨
    ∃ pending, (segment.drive life.run life.world).outcome = .parked (.approval approval.ask) pending
  resume : next.run.status.isTerminal = false → ∃ park pending,
    (segment.drive life.run life.world).outcome = .parked park pending ∧
    ∀ resume, next.run.input.resume = some resume →
      resume.pending = pending ∧ ∀ name ∈ resume.approved, name ∈ (segment.resumeOf life.run).1

/-- **A run is driven, or stays out of its worker's hands.** -/
theorem drove_or_settles (segment : Segment σ) (life : Life σ) :
    Drove segment life (life.execute segment) ∨ Settles life (life.execute segment) := by
  unfold Life.execute
  split
  · exact .inr (settles_of_same rfl rfl fun alive => ⟨alive, rfl⟩)
  · rename_i claimed
    have running : life.run.status = .running := by simpa using claimed
    have live : life.run.status.isTerminal = false := by rw [running]; rfl
    split
    · refine .inr (settles_of_same (by simp) (by simp) fun alive => ?_)
      rw [Life.run_settleQuestions, isTerminal_finalize rfl] at alive
      cases alive
    · rename_i admitted
      left
      dsimp only
      by_cases own : (segment.drive life.run life.world).outcome = .cancelled
      · have settles := settles_cancel life "cancelled during the drive"
        unfold Life.leave
        rw [own]
        refine ⟨running, admitted, rfl, settles.approved, fun approval member =>
          .inl (settles.asks approval member), fun alive => ?_⟩
        unfold Life.cancel at alive
        rw [live] at alive
        cases alive
      · have left : (life.leave segment (segment.drive life.run life.world)) =
            Life.settleQuestions { life.record (segment.drive life.run life.world).outcome with
              run := segment.settle (segment.drive life.run life.world) life.run } := by
          unfold Life.leave
          split
          · exact absurd (by assumption) own
          · rfl
        rw [left]
        have recorded := approvals_record life (segment.drive life.run life.world).outcome
        refine ⟨running, admitted, rfl, ?_, ?_, fun alive => ?_⟩
        · rw [Life.approvals_settleQuestions]
          rcases recorded with same | ⟨approval, pending, -, grown⟩
          · rw [same]
            exact Subset.refl _
          · rw [grown]
            intro ask member
            unfold approvedAsks at member ⊢
            rw [filter_append, map_append]
            exact mem_append_left _ member
        · rw [Life.approvals_settleQuestions]
          rcases recorded with same | ⟨row, pending, parked, grown⟩
          · rw [same]
            exact fun approval member => .inl ⟨approval, member, rfl⟩
          · rw [grown]
            intro approval member
            rcases mem_append.mp member with old | new
            · exact .inl ⟨approval, old, rfl⟩
            · obtain rfl := mem_singleton.mp new
              exact .inr ⟨pending, parked⟩
        · rw [Life.run_settleQuestions] at alive
          obtain ⟨park, pending, parked, messages, answers, isResume⟩ := settle_alive own alive
          refine ⟨park, pending, parked, fun resume resumed => ?_⟩
          rw [Life.run_settleQuestions] at resumed
          cases isResume.symm.trans resumed
          exact ⟨rfl, fun name member => mem_of_mem_sortedNames member⟩

structure Life.Sound (life : Life σ) : Prop where
  base : Agents.Sound life.approvals life.log
  continues : life.run.status.isTerminal = false → Continues life.approvals life.log life.run

theorem Life.Sound.settles (sound : life.Sound) (settles : Settles life next) : next.Sound := by
  constructor
  · rw [settles.log]
    apply sound.base.of_table settles.approved
    intro approval member
    obtain ⟨old, inTable, same⟩ := settles.asks approval member
    rw [same]
    exact sound.base.traced old inTable
  · intro alive resume resumed
    obtain ⟨live, same⟩ := settles.resume alive
    obtain ⟨samePending, names⟩ := same resume resumed
    rw [samePending, settles.log]
    cases before : life.run.input.resume with
    | none =>
      rw [before] at names
      exact ⟨nil_subperm, fun name member => (names name member).resolve_left not_mem_nil⟩
    | some old =>
      obtain ⟨inside, named⟩ := sound.continues live old before
      rw [before] at names
      refine ⟨inside, fun name member => ?_⟩
      rcases names name member with before | new
      · exact named.mono settles.approved name before
      · exact new

theorem Life.Sound.drove {segment : Segment σ} (sound : life.Sound) (drove : Drove segment life next)
    (once : AsksOnce next.log) : next.Sound := by
  have live : life.run.status.isTerminal = false := by rw [drove.running]; rfl
  have continues := sound.continues live
  rw [drove.log] at once
  obtain ⟨now, parks⟩ := sound.base.drive continues once
  constructor
  · rw [drove.log]
    apply now.of_table drove.approved
    intro approval member
    rcases drove.asks approval member with ⟨old, inTable, same⟩ | ⟨pending, parked⟩
    · rw [same]
      exact now.traced old inTable
    · exact (parks _ _ parked).2 _ rfl
  · intro alive resume resumed
    obtain ⟨park, pending, parked, same⟩ := drove.resume alive
    obtain ⟨samePending, names⟩ := same resume resumed
    rw [samePending, drove.log]
    exact ⟨(parks park pending parked).1, fun name member =>
      (continues.resumeOf segment).1.mono drove.approved name (names name member)⟩

/-- **Whatever happens to a run that asks about its tools once, it stays sound.** -/
theorem Life.Sound.happen {event : LifeEvent σ} (sound : life.Sound)
    (happened : life.happen event = some next) (once : AsksOnce next.log) : next.Sound := by
  rcases Life.happen_cases happened with ⟨segment, -, rfl⟩ | ⟨-, becomes⟩
  · rcases drove_or_settles segment life with drove | settles
    · exact sound.drove drove once
    · exact sound.settles settles
  · exact sound.settles (settles_becomes becomes)

end Life

/-! ## Histories -/

section Histories

variable {σ : Type}

/-- The history of a run from its first drive on: nobody was asked anything yet. -/
structure Unasked (history : History (LifeEvent σ) (Life σ)) : Prop where
  start : ∃ life : Life σ, life.approvals = [] ∧ life.log = [] ∧ life.run.input.resume = none ∧
    History.Steps Happens { now := life } history

/-- **Every call that needed a person ran on an approval of its own**: what was invoked is, each
invocation counted, part of what was approved. -/
def ExecutesAsApproved (life : Life σ) : Prop :=
  (askInvocations life.log).Subperm (approvedAsks life.approvals)

theorem Life.Sound.executesAsApproved {life : Life σ} (sound : life.Sound) :
    ExecutesAsApproved life :=
  (Nodup.of_map Prod.fst sound.base.nodup).subperm sound.base.covered

theorem log_happens {life next : Life σ} {event : LifeEvent σ} (happens : Happens life event next) :
    ∃ events, next.log = life.log ++ events := by
  rcases Life.happen_cases happens with ⟨segment, -, rfl⟩ | ⟨-, becomes⟩
  · unfold Life.execute
    split
    · exact ⟨[], by simp⟩
    · split
      · exact ⟨[], by simp⟩
      · exact ⟨_, rfl⟩
  · exact ⟨[], by simp [(sameSpending_becomes becomes).2]⟩

theorem sound_steps {first last : History (LifeEvent σ) (Life σ)}
    (steps : History.Steps Happens first last) (sound : ∀ life ∈ first.states, life.Sound)
    (once : AsksOnce last.now.log) : ∀ life ∈ last.states, life.Sound := by
  induction steps with
  | refl => exact sound
  | @tail last event next _ step ih =>
    rw [History.now_step] at once
    obtain ⟨events, grown⟩ := log_happens step
    have before := ih (by rw [grown] at once; exact once.of_append)
    intro life member
    rw [History.states_step] at member
    rcases mem_append.mp member with old | new
    · exact before life old
    · obtain rfl := mem_singleton.mp new
      exact (before _ last.now_mem_states).happen step once

/-- **A run that asks about each of its tools once executes only what was approved**, in every
state of its history. -/
theorem executesAsApproved_of_asksOnce (history : History (LifeEvent σ) (Life σ))
    (unasked : Unasked history) (once : AsksOnce history.now.log) :
    ∀ life ∈ history.states, ExecutesAsApproved life := by
  obtain ⟨fresh, noApprovals, noLog, noResume, steps⟩ := unasked.start
  have start : fresh.Sound := by
    constructor
    · rw [noApprovals, noLog]
      exact ⟨nodup_nil, by simp [askInvocations], by simp⟩
    · intro _ resume resumed
      rw [noResume] at resumed
      cases resumed
  have sound := sound_steps steps (by simpa [History.states] using start) once
  exact fun life member => (sound life member).executesAsApproved

end Histories

/-! ## Two mails -/

/-- A model that writes to one address after the other, a mail a turn. The world counts its
turns. -/
def mailingHost (addresses : List String) : Host Nat where
  continueCheck turn := (true, turn)
  steer turn := ([], turn)
  transcriptBudget := 0
  transcriptChars _ := 0
  complete _ turn := (none, turn)
  foldOldTurns _ messages := messages
  stream _ turn :=
    match addresses[turn]? with
    | some address =>
      (.ok { toolCalls := [⟨"mail", "send_email", [("to", .str address)]⟩] }, turn + 1)
    | none => (.ok { content := "Sent." }, turn)
  keyRefusal _ _ := none
  handler _ _ turn := (.ok (.output .null), turn)
  toolMessage _ _ := .null

def mailingSegment (addresses : List String) : Segment Nat where
  host := mailingHost addresses
  agent := { id := 0, name := "clerk", grants := { tools := ["send_email"] } }
  specs := [{ name := "send_email", category := .execute, sideEffecting := true }]
  autonomy := .highTouch
  maxIterations := 4
  opening := []
  refusal := none
  unfinishedWorkNudge _ := none

def mailingLife : Life Nat where
  id := 0
  run := { agentId := 0, trigger := .manual, status := .queued }
  world := 0

/-- The run asks a person about its first mail, who approves it. -/
def mailingEvents (addresses : List String) : List (LifeEvent Nat) :=
  [.claim, .execute (mailingSegment addresses), .approve 0 none, .claim,
    .execute (mailingSegment addresses)]

theorem unasked_mailing {events : List (LifeEvent Nat)}
    {history : History (LifeEvent Nat) (Life Nat)}
    (played : History.play Life.happen { now := mailingLife } events = some history) :
    Unasked history :=
  ⟨mailingLife, rfl, rfl, rfl, History.steps_of_play played⟩

/-- **One mail** is sent as it was approved. -/
theorem executesAsApproved_mail :
    ∃ history, History.play Life.happen { now := mailingLife } (mailingEvents ["a"]) = some history ∧
      askInvocations history.now.log ≠ [] ∧ ∀ life ∈ history.states, ExecutesAsApproved life := by
  refine History.exists_play rfl fun history played => ?_
  have isLast := some.inj played
  refine ⟨?_, executesAsApproved_of_asksOnce history (unasked_mailing played) ?_⟩
  · subst isLast
    exact cons_ne_nil _ _
  · subst isLast
    decide

/-- **A second mail**, to another address, is sent on the approval of the first. -/
theorem not_executesAsApproved_mails :
    ∃ history, History.play Life.happen { now := mailingLife } (mailingEvents ["a", "b"]) =
      some history ∧ Unasked history ∧ ¬ ExecutesAsApproved history.now := by
  refine History.exists_play rfl fun history played => ?_
  have isLast := some.inj played
  refine ⟨unasked_mailing played, fun asApproved => ?_⟩
  have fewer := asApproved.length_le
  subst isLast
  exact absurd fewer (by decide)

end RedArchKM.Agents
