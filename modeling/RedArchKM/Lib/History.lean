import Mathlib.Data.List.Induction
import Mathlib.Order.Nat

/-!
# Histories of a labelled transition system

A history is a state together with the moments that led to it: every event and the state it
happened in. A relation says which events may happen in which state and what they lead to, and
`Steps` chains them.

Two rules carry facts along a chain whose moments are all allowed: an invariant that every
allowed step keeps holds in every state passed (`Steps.invariant`), and a preorder that every
allowed step respects relates the earlier to the later of two states passed (`Steps.relates`).
A third one carries a fact about the moments since some state along a stretch of the chain
(`Steps.stretch`).
-/

namespace RedArchKM.Lib

open List Option

/-- An event and the state it happened in. -/
structure Moment (ε σ : Type*) where
  event : ε
  before : σ

/-- A state and the moments that led to it. -/
structure History (ε σ : Type*) where
  now : σ
  past : List (Moment ε σ) := []

namespace History

variable {ε σ : Type*}

section

variable (history : History ε σ) (event : ε) (next : σ)

/-- The history after one more event. -/
def step : History ε σ where
  now := next
  past := history.past ++ [⟨event, history.now⟩]

@[simp] theorem now_step : (history.step event next).now = next := rfl

@[simp] theorem past_step :
    (history.step event next).past = history.past ++ [⟨event, history.now⟩] := rfl

end

/-- The states passed, in order, the present one last. -/
def states (history : History ε σ) : List σ := history.past.map Moment.before ++ [history.now]

section

variable (history : History ε σ)

include history

@[simp] theorem states_step (event : ε) (next : σ) :
    (history.step event next).states = history.states ++ [next] := by
  simp [states]

@[simp] theorem length_states : history.states.length = history.past.length + 1 := by
  simp [states]

theorem getElem?_states_now : history.states[history.past.length]? = some history.now := by
  simp [states]

theorem now_mem_states : history.now ∈ history.states := by
  simp [states]

end

theorem before_mem_states {history : History ε σ} {moment : Moment ε σ}
    (member : moment ∈ history.past) : moment.before ∈ history.states :=
  mem_append_left _ (mem_map_of_mem member)

/-- One history continues another by steps of the relation. -/
inductive Steps (Step : σ → ε → σ → Prop) : History ε σ → History ε σ → Prop where
  | refl (history : History ε σ) : Steps Step history history
  | tail {first last : History ε σ} {event : ε} {next : σ} (steps : Steps Step first last)
      (step : Step last.now event next) : Steps Step first (last.step event next)

/-- The history of some events, one after the other, where the step function refuses none. -/
def play (next : σ → ε → Option σ) : History ε σ → List ε → Option (History ε σ)
  | history, [] => some history
  | history, event :: events =>
    (next history.now event).bind fun state => play next (history.step event state) events

namespace Steps

variable {Step : σ → ε → σ → Prop} {first middle last : History ε σ}

theorem trans (left : Steps Step first middle) (right : Steps Step middle last) :
    Steps Step first last := by
  induction right with
  | refl => exact left
  | tail _ step ih => exact ih.tail step

theorem single (history : History ε σ) {event : ε} {next : σ}
    (step : Step history.now event next) : Steps Step history (history.step event next) :=
  (refl history).tail step

theorem getElem?_states_zero (steps : Steps Step first last) (start : first.past = []) :
    last.states[0]? = some first.now := by
  induction steps with
  | refl => simp [states, start]
  | tail _ _ ih => rw [states_step, getElem?_append_left (by simp), ih]

/-- A new moment lies between the state it happened in and a state that a step leads to. -/
theorem stepAt (steps : Steps Step first last) {k : Nat} {moment : Moment ε σ}
    (since : first.past.length ≤ k) (found : last.past[k]? = some moment) :
    last.states[k]? = some moment.before ∧
      ∃ next, last.states[k + 1]? = some next ∧ Step moment.before moment.event next := by
  induction steps with
  | refl => exact absurd (List.getElem?_eq_some_iff.mp found).1 (Nat.not_lt.mpr since)
  | @tail last event next steps step ih =>
    have atOld : ∀ {k : Nat}, k < last.past.length + 1 →
        (last.step event next).states[k]? = last.states[k]? := by
      intro k old
      rw [states_step, getElem?_append_left (by rwa [length_states])]
    rw [past_step] at found
    by_cases old : k < last.past.length
    · rw [getElem?_append_left old] at found
      rw [atOld (by omega), atOld (by omega)]
      exact ih found
    · rw [getElem?_append_right (Nat.not_lt.mp old)] at found
      have isLast : k = last.past.length := by
        have inside := (List.getElem?_eq_some_iff.mp found).1
        simp only [List.length_singleton] at inside
        omega
      subst isLast
      rw [Nat.sub_self] at found
      cases found
      refine ⟨by rw [atOld (by omega), getElem?_states_now], next, ?_, step⟩
      simp [states]

/-- **An invariant that every allowed step keeps holds in every state passed.** -/
theorem invariant {P : σ → Prop} (allowed : Moment ε σ → Prop)
    (keeps : ∀ state event next, Step state event next → allowed ⟨event, state⟩ → P state → P next)
    (steps : Steps Step first last) (all : ∀ moment ∈ last.past, allowed moment)
    (start : ∀ state ∈ first.states, P state) : ∀ state ∈ last.states, P state := by
  induction steps with
  | refl => exact start
  | @tail last event next steps step ih =>
    have before := ih fun moment member => all moment (mem_append_left _ member)
    intro state member
    rw [states_step] at member
    rcases mem_append.mp member with old | new
    · exact before state old
    · obtain rfl := mem_singleton.mp new
      exact keeps last.now event state step (all _ (by simp)) (before _ last.now_mem_states)

/-- **What every step of a stretch keeps up holds at its end**, with the moments of the stretch
counted. -/
theorem stretch {Q : List (Moment ε σ) → σ → Prop} (steps : Steps Step first last)
    {early during later : List (Moment ε σ)} (split : last.past = early ++ (during ++ later))
    (since : first.past.length ≤ early.length)
    (start : ∀ state, last.states[early.length]? = some state → Q [] state)
    (keeps : ∀ done moment next, (∃ rest, during = done ++ moment :: rest) →
      Step moment.before moment.event next → Q done moment.before → Q (done ++ [moment]) next)
    {state : σ} (passed : last.states[(early ++ during).length]? = some state) :
    Q during state := by
  induction during using List.reverseRecOn generalizing later state with
  | nil => exact start state (by rwa [append_nil] at passed)
  | append_singleton done moment ih =>
    have place : last.past[(early ++ done).length]? = some moment := by
      rw [split, append_assoc, ← append_assoc early,
        getElem?_append_right (Nat.le_refl _), Nat.sub_self]
      rfl
    have reached : first.past.length ≤ (early ++ done).length :=
      Nat.le_trans since (by simp)
    obtain ⟨atMoment, next, isNext, step⟩ := steps.stepAt reached place
    have atEnd : (early ++ (done ++ [moment])).length = (early ++ done).length + 1 := by
      simp [Nat.add_assoc]
    rw [atEnd, isNext] at passed
    obtain rfl := some.inj passed
    have before : Q done moment.before := by
      refine ih (by rw [split, append_assoc done]) ?_ atMoment
      rintro part event next ⟨rest, rfl⟩
      exact keeps part event next ⟨rest ++ [moment], by simp⟩
    exact keeps done moment next ⟨[], rfl⟩ step before

/-- **A preorder that every allowed step respects relates earlier states to later ones**, when
the moments between the two are allowed. -/
theorem relates {R : σ → σ → Prop} (allowed : Moment ε σ → Prop)
    (refl : ∀ state, R state state) (trans : ∀ a b c, R a b → R b c → R a c)
    (keeps : ∀ state event next, Step state event next → allowed ⟨event, state⟩ → R state next)
    (steps : Steps Step first last) {i j : Nat} {earlier later : σ}
    (since : first.past.length ≤ i) (ordered : i ≤ j)
    (earlierAt : last.states[i]? = some earlier) (laterAt : last.states[j]? = some later)
    (all : ∀ k moment, i ≤ k → k < j → last.past[k]? = some moment → allowed moment) :
    R earlier later := by
  induction steps generalizing j later with
  | refl =>
    have inside := (List.getElem?_eq_some_iff.mp laterAt).1
    rw [length_states] at inside
    obtain rfl : i = j := by omega
    cases earlierAt.symm.trans laterAt
    exact refl earlier
  | @tail last event next steps step ih =>
    have inside := (List.getElem?_eq_some_iff.mp laterAt).1
    rw [states_step, List.length_append, length_states, List.length_singleton] at inside
    have atOld : ∀ {k : Nat}, k < last.past.length + 1 →
        (last.step event next).states[k]? = last.states[k]? := by
      intro k old
      rw [states_step, getElem?_append_left (by rwa [length_states])]
    have allOld : ∀ k moment, k < last.past.length → last.past[k]? = some moment →
        (last.step event next).past[k]? = some moment := by
      intro k moment old found
      rw [past_step, getElem?_append_left old, found]
    by_cases onNew : j = last.past.length + 1
    · have isNext : (last.step event next).states[j]? = some next := by
        rw [states_step, getElem?_append_right (by rw [length_states]; omega), length_states]
        simp [onNew]
      cases isNext.symm.trans laterAt
      by_cases same : i = j
      · subst same
        cases isNext.symm.trans earlierAt
        exact refl _
      · have before : i ≤ last.past.length := by omega
        rw [atOld (by omega)] at earlierAt
        refine trans _ _ _ (ih before earlierAt last.getElem?_states_now fun k moment low high
          found => all k moment low (by omega) (allOld k moment high found)) ?_
        exact keeps _ _ _ step (all last.past.length _ before (by omega) (by simp))
    · rw [atOld (by omega)] at earlierAt laterAt
      exact ih ordered earlierAt laterAt fun k moment low high found =>
        all k moment low high (allOld k moment (by omega) found)

end Steps

theorem exists_play {played : Option (History ε σ)} {P : History ε σ → Prop}
    (isSome : played.isSome = true) (holds : ∀ history, played = some history → P history) :
    ∃ history, played = some history ∧ P history := by
  obtain ⟨history, isPlayed⟩ := isSome_iff_exists.mp isSome
  exact ⟨history, isPlayed, holds history isPlayed⟩

theorem steps_of_play {next : σ → ε → Option σ} {events : List ε} {history last : History ε σ}
    (played : play next history events = some last) :
    Steps (fun state event state' => next state event = some state') history last := by
  induction events generalizing history with
  | nil =>
    cases played
    exact .refl _
  | cons event events ih =>
    obtain ⟨state, stepped, rest⟩ := bind_eq_some_iff.mp played
    exact (Steps.single history stepped).trans (ih rest)

end History

end RedArchKM.Lib
