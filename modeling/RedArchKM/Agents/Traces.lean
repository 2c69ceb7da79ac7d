import RedArchKM.Agents.Executor

/-!
# What a drive can have done

The log of a drive, told as a grammar: how a plan, a batch and the loop can end and which events
they leave behind, whatever the model, the handlers and the world do. Every drive follows it.
-/

namespace RedArchKM.Agents

open List

open Workflow (Json Fields)

variable {σ : Type} (drive : Drive σ)

/-- An event between two turns that asks for nothing and runs nothing. -/
def LoopEvent.isQuiet : LoopEvent → Bool
  | .summary _ | .steer _ | .compaction _ | .done _ => true
  | _ => false

/-- What one plan leaves behind. -/
inductive PlanTrace : Plan → List LoopEvent → HandlerOutcome → Prop
  | preset {call : ToolCallRequest} {terminal : Bool} (output : Json) :
      PlanTrace ⟨call, terminal, .preset output⟩ [] (.output output)
  | refused {call : ToolCallRequest} {terminal : Bool} {spec : ToolSpec} {outcome : HandlerOutcome}
      (parks : ∀ park, outcome ≠ .parked park) :
      PlanTrace ⟨call, terminal, .run spec⟩ [] outcome
  | invoked {call : ToolCallRequest} {terminal : Bool} {spec : ToolSpec}
      (outcome : HandlerOutcome) :
      PlanTrace ⟨call, terminal, .run spec⟩ (drive.invocation spec call outcome) outcome

/-- What the plans of a batch leave behind, in order. -/
inductive PlansTrace : List Plan → List LoopEvent → Except LoopOutcome Unit → Prop
  | done : PlansTrace [] [] (.ok ())
  | parked {plan : Plan} {rest : List Plan} {events : List LoopEvent} {park : Park}
      (first : PlanTrace drive plan events (.parked park)) :
      PlansTrace (plan :: rest) events (.error (.parked park ((plan :: rest).map Plan.call)))
  | finished {plan : Plan} {rest : List Plan} {events : List LoopEvent} {status : FinishStatus}
      {payload : Fields} (first : PlanTrace drive plan events (.finished status payload)) :
      PlansTrace (plan :: rest) events (.error (.finished status payload))
  | next {plan : Plan} {rest : List Plan} {events later : List LoopEvent} {output : Json}
      {result : Except LoopOutcome Unit} (first : PlanTrace drive plan events (.output output))
      (others : PlansTrace rest later result) :
      PlansTrace (plan :: rest) (events ++ .toolResult plan.call output :: later) result

/-- What a batch leaves behind: it is gated, and then it is cancelled or it runs. -/
inductive BatchTrace (answers : Fields) (calls : List ToolCallRequest) :
    List LoopEvent → Except LoopOutcome Unit → Prop
  | parked {ask : Ask} {gated : List LoopEvent}
      (asks : drive.gateTools answers calls = (.error ask, gated)) :
      BatchTrace answers calls gated (.error (.parked (.approval ask) calls))
  | cancelled {plans : List Plan} {gated : List LoopEvent}
      (passes : drive.gateTools answers calls = (.ok plans, gated)) :
      BatchTrace answers calls gated (.error .cancelled)
  | ran {plans : List Plan} {gated ran : List LoopEvent} {result : Except LoopOutcome Unit}
      (passes : drive.gateTools answers calls = (.ok plans, gated))
      (runs : PlansTrace drive (Drive.sortPlans plans) ran result) :
      BatchTrace answers calls (gated ++ ran) result

inductive TurnTrace : Option (List ToolCallRequest) → List LoopEvent → List ToolCallRequest → Prop
  | pending (calls : List ToolCallRequest) : TurnTrace (some calls) [] calls
  | requested {quiet : List LoopEvent} (isQuiet : ∀ event ∈ quiet, event.isQuiet)
      (usage : Option Usage) (calls : List ToolCallRequest) :
      TurnTrace none (quiet ++ [.completion usage calls]) calls

/-- How a drive that ends without a batch ends. -/
inductive StopTrace : Option (List ToolCallRequest) → List LoopEvent → LoopOutcome → Prop
  | truncated (pending : Option (List ToolCallRequest)) : StopTrace pending [.done true] .truncated
  | cancelled (pending : Option (List ToolCallRequest)) : StopTrace pending [] .cancelled
  | failed {quiet : List LoopEvent} (isQuiet : ∀ event ∈ quiet, event.isQuiet) (error : String) :
      StopTrace none quiet (.failed error)
  | returned {quiet : List LoopEvent} (isQuiet : ∀ event ∈ quiet, event.isQuiet)
      (usage : Option Usage) (content : String) :
      StopTrace none (quiet ++ [.completion usage [], .done false]) (.returned content)

/-- What a drive leaves behind. -/
inductive LoopTrace : Option (List ToolCallRequest) → Fields → List LoopEvent → LoopOutcome → Prop
  | stops {pending : Option (List ToolCallRequest)} {answers : Fields} {events : List LoopEvent}
      {outcome : LoopOutcome} (stop : StopTrace pending events outcome) :
      LoopTrace pending answers events outcome
  | ends {pending : Option (List ToolCallRequest)} {answers : Fields}
      {turn batch : List LoopEvent} {calls : List ToolCallRequest} {outcome : LoopOutcome}
      (asked : TurnTrace pending turn calls)
      (ended : BatchTrace drive answers calls batch (.error outcome)) :
      LoopTrace pending answers (turn ++ batch) outcome
  | goesOn {pending : Option (List ToolCallRequest)} {answers : Fields}
      {turn batch later : List LoopEvent} {calls : List ToolCallRequest} {outcome : LoopOutcome}
      (asked : TurnTrace pending turn calls)
      (ran : BatchTrace drive answers calls batch (.ok ()))
      (rest : LoopTrace none [] later outcome) :
      LoopTrace pending answers (turn ++ batch ++ later) outcome

/-! ## Every drive follows the grammar -/

variable (state : LoopState σ)

def Adds (events : List LoopEvent) (state next : LoopState σ) : Prop := next.log = state.log ++ events

theorem steered_adds (texts : List String) (current : LoopState σ) :
    ∃ quiet, (∀ event ∈ quiet, event.isQuiet) ∧ Adds quiet current (texts.foldl
      (fun state text => (state.say (userMessage text)).emit [.steer text]) current) := by
  induction texts generalizing current with
  | nil => exact ⟨[], by simp, by simp [Adds]⟩
  | cons text texts ih =>
    obtain ⟨quiet, isQuiet, adds⟩ := ih ((current.say (userMessage text)).emit [.steer text])
    refine ⟨.steer text :: quiet, forall_mem_cons.mpr ⟨rfl, isQuiet⟩, ?_⟩
    rw [foldl_cons, Adds, show _ = _ from adds]
    simp

theorem interject_adds : ∃ quiet, (∀ event ∈ quiet, event.isQuiet) ∧
    Adds quiet state (drive.interject state) := by
  unfold Drive.interject
  split
  · exact ⟨[], by simp, by simp [Adds]⟩
  · exact steered_adds _ _

theorem compactIfNeeded_adds : ∃ quiet, (∀ event ∈ quiet, event.isQuiet) ∧
    Adds quiet state (drive.compactIfNeeded state) := by
  unfold Drive.compactIfNeeded
  split
  · exact ⟨[], by simp, by simp [Adds]⟩
  · split
    · exact ⟨[], by simp, by simp [Adds]⟩
    · rename_i completion world _
      dsimp only
      split
      · exact ⟨[.summary completion.usage], by simp [LoopEvent.isQuiet], rfl⟩
      · exact ⟨[.summary completion.usage, .compaction completion.content.trimAscii.toString],
          by simp [LoopEvent.isQuiet], by simp [Adds, LoopState.emit]⟩

theorem requestTurn_trace :
    (∃ events calls current, drive.requestTurn state = (.ok calls, current) ∧
        TurnTrace none events calls ∧ Adds events state current) ∨
      ∃ events outcome current, drive.requestTurn state = (.error outcome, current) ∧
        StopTrace none events outcome ∧ Adds events state current := by
  obtain ⟨steered, steeredQuiet, steeredAdds⟩ := interject_adds drive state
  obtain ⟨folded, foldedQuiet, foldedAdds⟩ :=
    compactIfNeeded_adds drive (drive.interject state)
  have quiet : ∀ event ∈ steered ++ folded, event.isQuiet := by
    intro event member
    rcases mem_append.mp member with first | second
    · exact steeredQuiet event first
    · exact foldedQuiet event second
  have ready : Adds (steered ++ folded) state (drive.compactIfNeeded (drive.interject state)) := by
    rw [Adds, show _ = _ from foldedAdds, show (drive.interject state).log = _ from steeredAdds,
      append_assoc]
  unfold Drive.requestTurn
  dsimp only
  generalize drive.compactIfNeeded (drive.interject state) = current at ready
  have readyLog : current.log = state.log ++ (steered ++ folded) := ready
  split
  · rename_i error world _
    exact .inr ⟨_, _, _, rfl, .failed quiet error, ready⟩
  · rename_i completion world _
    split
    · rename_i none
      refine .inr ⟨_, _, _, rfl, .returned quiet completion.usage completion.content, ?_⟩
      have isNil : completion.toolCalls = [] := isEmpty_iff.mp none
      simp [Adds, readyLog, isNil]
    · refine .inl ⟨_, _, _, rfl, .requested quiet completion.usage completion.toolCalls, ?_⟩
      simp [Adds, readyLog]

theorem takeAction_trace (plan : Plan) : ∃ events,
    PlanTrace drive plan events (drive.takeAction plan state).1 ∧
      Adds events state (drive.takeAction plan state).2 := by
  obtain ⟨call, terminal, action⟩ := plan
  cases action with
  | preset output => exact ⟨[], .preset output, by simp [Adds, Drive.takeAction]⟩
  | run spec =>
    unfold Drive.takeAction Drive.runTool
    dsimp only
    split
    · exact ⟨[], .refused (by simp), by simp [Adds]⟩
    · exact ⟨[], .refused (by simp), by simp [Adds]⟩
    · exact ⟨_, .invoked _, rfl⟩

theorem executePlans_trace (plans : List Plan) : ∃ events,
    PlansTrace drive plans events (drive.executePlans plans state).1 ∧
      Adds events state (drive.executePlans plans state).2 := by
  induction plans generalizing state with
  | nil => exact ⟨[], .done, by simp [Adds, Drive.executePlans]⟩
  | cons plan rest ih =>
    obtain ⟨events, trace, adds⟩ :=
      takeAction_trace drive { state with toolCalls := state.toolCalls + 1 } plan
    unfold Drive.executePlans
    split
    · rename_i acted
      rw [acted] at trace adds
      exact ⟨events, .parked trace, adds⟩
    · rename_i acted
      rw [acted] at trace adds
      exact ⟨events, .finished trace, adds⟩
    · rename_i output current acted
      rw [acted] at trace adds
      obtain ⟨later, others, addsLater⟩ := ih ((current.emit
        [.toolResult plan.call output]).say (drive.host.toolMessage plan.call output))
      refine ⟨_, .next trace others, ?_⟩
      have addsFirst : current.log = state.log ++ events := adds
      rw [Adds, show _ = _ from addsLater]
      simp [addsFirst]

theorem runBatch_trace (answers : Fields) (calls : List ToolCallRequest) : ∃ events,
    BatchTrace drive answers calls events (drive.runBatch answers calls state).1 ∧
      Adds events state (drive.runBatch answers calls state).2 := by
  unfold Drive.runBatch
  split
  · rename_i asks
    exact ⟨_, .parked asks, rfl⟩
  · rename_i plans gated passes
    dsimp only
    split
    · exact ⟨_, .cancelled passes, rfl⟩
    · rename_i world _
      obtain ⟨ran, runs, adds⟩ := executePlans_trace drive { state.emit gated with world }
        (Drive.sortPlans plans)
      refine ⟨gated ++ ran, .ran passes runs, ?_⟩
      rw [Adds, show _ = _ from adds]
      simp [LoopState.emit]

/-- **Every drive follows the grammar.** -/
theorem loop_trace (iterations : Nat) (pending : Option (List ToolCallRequest)) (answers : Fields) :
    ∃ events, LoopTrace drive pending answers events (drive.loop iterations pending answers state).1 ∧
      Adds events state (drive.loop iterations pending answers state).2 := by
  induction iterations generalizing pending answers state with
  | zero => exact ⟨_, .stops (.truncated pending), rfl⟩
  | succ iterations ih =>
    unfold Drive.loop
    split
    · exact ⟨[], .stops (.cancelled pending), by simp [Adds]⟩
    · rename_i world _
      have asked : (∃ events calls current, drive.nextCalls pending { state with world } =
            (.ok calls, current) ∧ TurnTrace pending events calls ∧ Adds events state current) ∨
          ∃ events outcome current, drive.nextCalls pending { state with world } =
            (.error outcome, current) ∧ StopTrace pending events outcome ∧
              Adds events state current := by
        cases pending with
        | some calls => exact .inl ⟨_, _, _, rfl, .pending calls, by simp [Adds]⟩
        | none => exact requestTurn_trace drive { state with world }
      rcases asked with ⟨turn, calls, current, next, asked, adds⟩ |
        ⟨events, outcome, current, next, stop, adds⟩
      · rw [next]
        dsimp only
        obtain ⟨batch, trace, addsBatch⟩ :=
          runBatch_trace drive current answers calls
        have turnLog : current.log = state.log ++ turn := adds
        split
        · rename_i batchEnds
          rw [batchEnds] at trace addsBatch
          refine ⟨_, .ends asked trace, ?_⟩
          rw [Adds, show _ = _ from addsBatch, turnLog, append_assoc]
        · rename_i after batchEnds
          rw [batchEnds] at trace addsBatch
          obtain ⟨later, rest, addsRest⟩ := ih after none []
          refine ⟨_, .goesOn asked trace rest, ?_⟩
          rw [Adds, show _ = _ from addsRest, show after.log = _ from addsBatch, turnLog]
          simp
      · rw [next]
        exact ⟨events, .stops stop, adds⟩

/-! ## What the gate lets through -/

section Gate

variable {σ : Type} {drive : Drive σ} {answers : Fields}

def GateEvent (calls : List ToolCallRequest) (event : LoopEvent) : Prop :=
  ∃ call ∈ calls, event = .toolCall call ∨ event = .approvalRequired call

def Passed (drive : Drive σ) (gated : List LoopEvent) (plan : Plan) : Prop :=
  ∀ spec, plan.action = .run spec →
    spec ∈ drive.specs ∧ spec.name = plan.call.name ∧
      ((decideCall drive.agent spec drive.autonomy).decision = .allow ∨
        (decideCall drive.agent spec drive.autonomy).decision = .ask ∧
          drive.strategy spec plan.call.arguments = .approved ∧
          .approvalRequired plan.call ∈ gated)

variable {call : ToolCallRequest} {gated events : List LoopEvent} {calls : List ToolCallRequest}

theorem passed_preset {terminal : Bool} {output : Json} :
    Passed drive gated ⟨call, terminal, .preset output⟩ := by
  intro spec run
  cases run

theorem mem_specByName {name : String} {spec : ToolSpec} (found : drive.specByName name = some spec) :
    spec ∈ drive.specs ∧ spec.name = name := by
  unfold Drive.specByName at found
  rw [findRev?_eq_find?_reverse] at found
  exact ⟨mem_reverse.mp (mem_of_find?_eq_some found), by simpa using find?_some found⟩

theorem gateTool_ok {plan : Plan} (passes : drive.gateTool answers call = (.ok plan, events)) :
    plan.call = call ∧ Passed drive events plan ∧ ∀ event ∈ events, GateEvent [call] event := by
  unfold Drive.gateTool at passes
  split at passes
  · obtain ⟨isPlan, rfl⟩ := Prod.mk.inj passes
    cases isPlan
    exact ⟨rfl, passed_preset, by simp [GateEvent]⟩
  · obtain ⟨isPlan, rfl⟩ := Prod.mk.inj passes
    cases isPlan
    exact ⟨rfl, passed_preset, by simp [GateEvent]⟩
  · rename_i spec _ found
    obtain ⟨offered, named⟩ := mem_specByName found
    dsimp only at passes
    split at passes
    · obtain ⟨isPlan, rfl⟩ := Prod.mk.inj passes
      cases isPlan
      exact ⟨rfl, passed_preset, by simp [GateEvent]⟩
    · rename_i allowed
      obtain ⟨isPlan, rfl⟩ := Prod.mk.inj passes
      cases isPlan
      refine ⟨rfl, fun spec' run => ?_, by simp [GateEvent]⟩
      cases run
      exact ⟨offered, named, .inl allowed⟩
    · rename_i asks
      split at passes
      · rename_i approved
        obtain ⟨isPlan, rfl⟩ := Prod.mk.inj passes
        cases isPlan
        refine ⟨rfl, fun spec' run => ?_, by simp [GateEvent]⟩
        cases run
        exact ⟨offered, named, .inr ⟨asks, approved, by simp⟩⟩
      · obtain ⟨isPlan, rfl⟩ := Prod.mk.inj passes
        cases isPlan
        exact ⟨rfl, passed_preset, by simp [GateEvent]⟩
      · cases (Prod.mk.inj passes).1

theorem gateTool_error {ask : Ask} (asks : drive.gateTool answers call = (.error ask, events)) :
    ask = (call.name, call.arguments) ∧ .approvalRequired call ∈ events ∧
      ∀ event ∈ events, GateEvent [call] event := by
  unfold Drive.gateTool at asks
  split at asks
  · cases (Prod.mk.inj asks).1
  · cases (Prod.mk.inj asks).1
  · rename_i spec _ found
    dsimp only at asks
    split at asks
    · cases (Prod.mk.inj asks).1
    · cases (Prod.mk.inj asks).1
    · split at asks
      · cases (Prod.mk.inj asks).1
      · cases (Prod.mk.inj asks).1
      · obtain ⟨isAsk, rfl⟩ := Prod.mk.inj asks
        cases isAsk
        exact ⟨by rw [(mem_specByName found).2], by simp, by simp [GateEvent]⟩

variable {event : LoopEvent}

theorem GateEvent.mono {calls' : List ToolCallRequest} (subset : calls ⊆ calls')
    (gate : GateEvent calls event) : GateEvent calls' event :=
  gate.imp fun _ call => ⟨subset call.1, call.2⟩

theorem gateEvent_append {rest : List ToolCallRequest} {later : List LoopEvent}
    (first : ∀ event ∈ events, GateEvent [call] event)
    (others : ∀ event ∈ later, GateEvent rest event) :
    ∀ event ∈ events ++ later, GateEvent (call :: rest) event := by
  intro event member
  rcases mem_append.mp member with inFirst | inOthers
  · exact (first event inFirst).mono (by simp)
  · exact (others event inOthers).mono (subset_cons_self _ _)

/-- **What passes the gate**: a plan for each call, and every tool to run was let through. -/
theorem gateTools_ok {plans : List Plan}
    (passes : drive.gateTools answers calls = (.ok plans, gated)) :
    plans.map Plan.call = calls ∧ (∀ plan ∈ plans, Passed drive gated plan) ∧
      ∀ event ∈ gated, GateEvent calls event := by
  induction calls generalizing plans gated with
  | nil =>
    obtain ⟨isPlans, rfl⟩ := Prod.mk.inj passes
    cases isPlans
    simp
  | cons call rest ih =>
    unfold Drive.gateTools at passes
    split at passes
    · cases (Prod.mk.inj passes).1
    · rename_i plan events first
      split at passes
      · cases (Prod.mk.inj passes).1
      · rename_i plans later others
        obtain ⟨isPlans, rfl⟩ := Prod.mk.inj passes
        cases isPlans
        obtain ⟨isCall, passed, gateFirst⟩ := gateTool_ok first
        obtain ⟨areCalls, passedAll, gateOthers⟩ := ih others
        refine ⟨by rw [map_cons, isCall, areCalls], ?_, gateEvent_append gateFirst gateOthers⟩
        have widen : ∀ {part : List LoopEvent}, part ⊆ events ++ later → ∀ {plan : Plan},
            Passed drive part plan → Passed drive (events ++ later) plan :=
          fun subset _ passed spec run => (passed spec run).imp_right <| And.imp_right <|
            Or.imp_right <| And.imp_right <| And.imp_right (subset ·)
        rw [forall_mem_cons]
        exact ⟨widen (subset_append_left _ _) passed,
          fun plan member => widen (subset_append_right _ _) (passedAll plan member)⟩

/-- **What the gate stops at**: a call of the batch, and the gate asked about it. -/
theorem gateTools_error {ask : Ask} (asks : drive.gateTools answers calls = (.error ask, gated)) :
    (∃ call ∈ calls, ask = (call.name, call.arguments) ∧ .approvalRequired call ∈ gated) ∧
      ∀ event ∈ gated, GateEvent calls event := by
  induction calls generalizing ask gated with
  | nil => cases (Prod.mk.inj asks).1
  | cons call rest ih =>
    unfold Drive.gateTools at asks
    split at asks
    · rename_i first
      obtain ⟨isAsk, rfl⟩ := Prod.mk.inj asks
      cases isAsk
      obtain ⟨isCall, asked, gate⟩ := gateTool_error first
      exact ⟨⟨call, mem_cons_self, isCall, asked⟩,
        fun event member => (gate event member).mono (by simp)⟩
    · rename_i plan events first
      split at asks
      · rename_i later others
        obtain ⟨isAsk, rfl⟩ := Prod.mk.inj asks
        cases isAsk
        obtain ⟨⟨call', member, isCall, asked⟩, gate⟩ := ih others
        exact ⟨⟨call', mem_cons_of_mem _ member, isCall, mem_append_right _ asked⟩,
          gateEvent_append (gateTool_ok first).2.2 gate⟩
      · cases (Prod.mk.inj asks).1

def Admitted (drive : Drive σ) (event : LoopEvent) : Prop :=
  ∀ spec call verdict, event = .handler spec call verdict →
    spec ∈ drive.specs ∧ verdict = (decideCall drive.agent spec drive.autonomy).decision ∧
      (verdict = .allow ∨ verdict = .ask ∧ drive.strategy spec call.arguments = .approved)

theorem admitted_planTrace {plan : Plan} {outcome : HandlerOutcome}
    (trace : PlanTrace drive plan events outcome) (passed : Passed drive gated plan) :
    ∀ event ∈ events, Admitted drive event := by
  cases trace with
  | preset => simp
  | refused => simp
  | @invoked call terminal spec outcome =>
    obtain ⟨offered, -, verdict⟩ := passed spec rfl
    have first : Admitted drive
        (.handler spec call (decideCall drive.agent spec drive.autonomy).decision) := by
      intro spec' call' verdict' same
      cases same
      exact ⟨offered, rfl, verdict.imp_right fun asks => ⟨asks.1, asks.2.1⟩⟩
    unfold Drive.invocation
    intro event member
    split at member
    · rcases mem_cons.mp member with rfl | member
      · exact first
      · obtain rfl := mem_singleton.mp member
        intro _ _ _ same
        cases same
    · obtain rfl := mem_singleton.mp member
      exact first

theorem admitted_plansTrace {plans : List Plan} {result : Except LoopOutcome Unit}
    (trace : PlansTrace drive plans events result)
    (passed : ∀ plan ∈ plans, Passed drive gated plan) :
    ∀ event ∈ events, Admitted drive event := by
  induction trace with
  | done => simp
  | parked first => exact admitted_planTrace first (passed _ mem_cons_self)
  | finished first => exact admitted_planTrace first (passed _ mem_cons_self)
  | next first others ih =>
    intro event member
    rcases mem_append.mp member with inFirst | inOthers
    · exact admitted_planTrace first (passed _ mem_cons_self) event inFirst
    · rcases mem_cons.mp inOthers with rfl | later
      · intro _ _ _ same
        cases same
      · exact ih (fun plan rest => passed plan (mem_cons_of_mem _ rest)) event later

theorem admitted_of_gate (gate : GateEvent calls event) : Admitted drive event := by
  obtain ⟨call, -, rfl | rfl⟩ := gate <;>
    · intro _ _ _ same
      cases same

theorem admitted_of_quiet (quiet : event.isQuiet) : Admitted drive event := by
  intro _ _ _ same
  rw [same] at quiet
  cases quiet

theorem admitted_batchTrace {result : Except LoopOutcome Unit}
    (trace : BatchTrace drive answers calls events result) :
    ∀ event ∈ events, Admitted drive event := by
  cases trace with
  | parked asks => exact fun event member => admitted_of_gate ((gateTools_error asks).2 event member)
  | cancelled passes =>
    exact fun event member => admitted_of_gate ((gateTools_ok passes).2.2 event member)
  | @ran plans gated ran _ passes runs =>
    obtain ⟨-, passed, gate⟩ := gateTools_ok passes
    have sorted : ∀ plan ∈ Drive.sortPlans plans, Passed drive gated plan := by
      intro plan member
      rcases mem_append.mp member with first | last
      · exact passed plan (mem_filter.mp first).1
      · exact passed plan (mem_filter.mp last).1
    intro event member
    rcases mem_append.mp member with inGate | inRun
    · exact admitted_of_gate (gate event inGate)
    · exact admitted_plansTrace runs sorted event inRun

/-- **A drive invokes what its gate admits.** -/
theorem admitted_loopTrace {pending : Option (List ToolCallRequest)} {outcome : LoopOutcome}
    (trace : LoopTrace drive pending answers events outcome) :
    ∀ event ∈ events, Admitted drive event := by
  have turn : ∀ {pending : Option (List ToolCallRequest)} {turn : List LoopEvent}
      {calls : List ToolCallRequest}, TurnTrace pending turn calls →
      ∀ event ∈ turn, Admitted drive event := by
    intro pending turn calls asked event member
    cases asked with
    | pending => cases member
    | requested isQuiet =>
      rcases mem_append.mp member with inQuiet | last
      · exact admitted_of_quiet (isQuiet event inQuiet)
      · obtain rfl := mem_singleton.mp last
        intro _ _ _ same
        cases same
  induction trace with
  | stops stop =>
    intro event member
    cases stop with
    | truncated => exact admitted_of_quiet (by simp_all [LoopEvent.isQuiet])
    | cancelled => cases member
    | failed isQuiet => exact admitted_of_quiet (isQuiet event member)
    | returned isQuiet =>
      rcases mem_append.mp member with inQuiet | last
      · exact admitted_of_quiet (isQuiet event inQuiet)
      · intro _ _ _ same
        subst same
        simp at last
  | ends asked ended =>
    intro event member
    rcases mem_append.mp member with inTurn | inBatch
    · exact turn asked event inTurn
    · exact admitted_batchTrace ended event inBatch
  | goesOn asked ran rest ih =>
    intro event member
    rcases mem_append.mp member with first | later
    · rcases mem_append.mp first with inTurn | inBatch
      · exact turn asked event inTurn
      · exact admitted_batchTrace ran event inBatch
    · exact ih event later

end Gate

end RedArchKM.Agents
