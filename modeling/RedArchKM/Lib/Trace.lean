import Mathlib.Data.List.Basic
import Mathlib.Data.List.Induction

/-!
# Traces of a partial step function

A trace is a list of events, run from a state by a step function that may refuse an event.
A ghost folded over the same trace records what the state does not. What every step keeps
between a state and its ghost, every run keeps (`run_simulation`); what the steps of one run keep
holds in every state that it passes (`Passes.invariant`).
-/

namespace RedArchKM.Lib.Trace

open List Option

variable {σ ι τ : Type*}

/-- Run a trace; a refused event ends the run without a result. -/
def run (step : σ → ι → Option σ) : σ → List ι → Option σ
  | state, [] => some state
  | state, event :: events => (step state event).bind fun next => run step next events

theorem run_append (step : σ → ι → Option σ) (first second : List ι) (state : σ) :
    run step state (first ++ second) =
      (run step state first).bind fun middle => run step middle second := by
  induction first generalizing state with
  | nil => rfl
  | cons event first ih =>
    simp only [cons_append, run, bind_assoc]
    exact congrArg _ (funext ih)

variable {events : List ι} {final state : σ} {step : σ → ι → Option σ}

variable {event : ι} {start : σ}

theorem exists_of_run_concat (finished : run step state (events ++ [event]) = some final) :
    ∃ middle, run step state events = some middle ∧ step middle event = some final := by
  rw [run_append] at finished
  obtain ⟨middle, first, last⟩ := bind_eq_some_iff.mp finished
  obtain ⟨reached, stepped, done⟩ := bind_eq_some_iff.mp last
  cases done
  exact ⟨middle, first, stepped⟩

theorem run_concat {middle : σ} (ran : run step state events = some middle)
    (stepped : step middle event = some final) :
    run step state (events ++ [event]) = some final := by
  rw [run_append, ran]
  simp [run, stepped]

/-- The run of a trace passes a state. -/
def Passes (step : σ → ι → Option σ) (start : σ) (events : List ι) (state : σ) : Prop :=
  ∃ before after, events = before ++ after ∧ run step start before = some state

theorem Passes.next {before after : List ι} (split : events = before ++ event :: after)
    (ran : run step start before = some state) (stepped : step state event = some final) :
    Passes step start events final :=
  ⟨before ++ [event], after, by rw [split, append_assoc, singleton_append], run_concat ran stepped⟩

theorem passes_cons :
    Passes step start (event :: events) state ↔
      state = start ∨ ∃ next, step start event = some next ∧ Passes step next events state := by
  constructor
  · rintro ⟨before, after, split, ran⟩
    cases before with
    | nil => exact .inl (some.inj ran).symm
    | cons first before =>
      cases split
      obtain ⟨next, stepped, rest⟩ := bind_eq_some_iff.mp ran
      exact .inr ⟨next, stepped, before, after, rfl, rest⟩
  · rintro (rfl | ⟨next, stepped, before, after, rfl, ran⟩)
    · exact ⟨[], event :: events, rfl, rfl⟩
    · exact ⟨event :: before, after, rfl, by rw [run, stepped, bind_some, ran]⟩

theorem passes_nil : Passes step start [] state ↔ state = start := by
  constructor
  · rintro ⟨before, after, split, ran⟩
    obtain ⟨rfl, rfl⟩ := append_eq_nil_iff.mp split.symm
    exact (some.inj ran).symm
  · rintro rfl
    exact ⟨[], [], rfl, rfl⟩

/-- **What the steps of a run keep holds in every state that it passes.** -/
theorem Passes.invariant (holds : σ → Prop) (first : holds start)
    (keeps : ∀ before event after state next, events = before ++ event :: after →
      run step start before = some state → step state event = some next → holds state →
      holds next) (passes : Passes step start events state) : holds state := by
  obtain ⟨before, after, split, ran⟩ := passes
  induction before using List.reverseRecOn generalizing state after with
  | nil =>
    cases ran
    exact first
  | append_singleton before event ih =>
    obtain ⟨middle, reached, stepped⟩ := exists_of_run_concat ran
    have rest : events = before ++ event :: after := by
      rw [split, append_assoc, singleton_append]
    exact keeps before event after middle state rest reached stepped
      (ih (event :: after) rest reached)

/-- **A relation that every step keeps is kept by every run.** -/
theorem run_simulation {step : σ → ι → Option σ} (ghost : τ → ι → τ) (related : σ → τ → Prop)
    (keeps : ∀ state record event next, related state record → step state event = some next →
      related next (ghost record event)) :
    ∀ (events : List ι) {state final : σ} {record : τ}, related state record →
      run step state events = some final → related final (events.foldl ghost record)
  | [], _, _, _, start, finished => some.inj finished ▸ start
  | event :: events, state, final, record, start, finished => by
    obtain ⟨next, stepped, rest⟩ := bind_eq_some_iff.mp finished
    exact run_simulation ghost related keeps events (keeps state record event next start stepped) rest

/-- **A property that the events of a trace keep is kept by its run.** -/
theorem run_invariant_mem (holds : σ → Prop)
    (keeps : ∀ state, ∀ event ∈ events, ∀ next, holds state → step state event = some next →
      holds next) (start : holds state) (finished : run step state events = some final) :
    holds final := by
  induction events generalizing state with
  | nil =>
    cases finished
    exact start
  | cons event events ih =>
    obtain ⟨next, stepped, rest⟩ := bind_eq_some_iff.mp finished
    exact ih (fun state event member => keeps state event (mem_cons_of_mem _ member))
      (keeps state event mem_cons_self next start stepped) rest

/-- **A run enlarges what it is watched by exactly if one of its events does at the start.** An event
that does not fire leaves the view alone, and whether an event fires is seen in the view. -/
theorem run_same_or_larger {ν : Type*} (view : σ → ν) (size : ν → Nat) (fires : σ → ι → Prop)
    (seen : ∀ state other event, view state = view other → (fires state event ↔ fires other event))
    (steps : ∀ state event next, step state event = some next →
      (¬fires state event ∧ view next = view state) ∨
        (fires state event ∧ size (view state) < size (view next))) (events : List ι)
    (finished : run step state events = some final) :
    ((∀ event ∈ events, ¬fires state event) ∧ view final = view state) ∨
      ((∃ event ∈ events, fires state event) ∧ size (view state) < size (view final)) := by
  induction events generalizing state with
  | nil =>
    cases finished
    exact .inl ⟨nofun, rfl⟩
  | cons event events ih =>
    obtain ⟨next, stepped, rest⟩ := bind_eq_some_iff.mp finished
    have later := ih rest
    have notSmaller : size (view next) ≤ size (view final) := by
      rcases later with ⟨_, same⟩ | ⟨_, larger⟩
      · exact Nat.le_of_eq (congrArg size same.symm)
      · exact Nat.le_of_lt larger
    rcases steps state event next stepped with ⟨quiet, same⟩ | ⟨fired, larger⟩
    · rcases later with ⟨quietLater, unchanged⟩ | ⟨⟨other, member, fired⟩, larger⟩
      · refine .inl ⟨?_, unchanged.trans same⟩
        intro other member
        rcases mem_cons.mp member with rfl | later
        · exact quiet
        · exact fun fired => quietLater other later ((seen state next other same.symm).mp fired)
      · refine .inr ⟨⟨other, mem_cons_of_mem _ member, ?_⟩, same ▸ larger⟩
        exact (seen next state other same).mp fired
    · exact .inr ⟨⟨event, mem_cons_self, fired⟩, Nat.lt_of_lt_of_le larger notSmaller⟩

/-- **A property that every step keeps is kept by every run.** -/
theorem run_invariant (holds : σ → Prop)
    (keeps : ∀ state event next, holds state → step state event = some next → holds next)
    (events : List ι) (start : holds state) (finished : run step state events = some final) :
    holds final :=
  run_invariant_mem holds (fun state event _ => keeps state event) start finished

end RedArchKM.Lib.Trace
