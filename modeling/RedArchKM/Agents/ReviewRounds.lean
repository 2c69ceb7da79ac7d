import RedArchKM.Agents.BoardVerdicts

/-!
# The rounds of a gate

A gate convenes its board anew for every submission that the last board did not read, and for one that
it read but did not answer. The cap on the rounds is only looked at where the last board has read the
submission and answered.

So a gate convenes at most `maxRounds` boards, and then lets everything through to the person, exactly if
from then on the same text is submitted, with a verdict of every seat on it (`roundsBounded_iff`).
-/

namespace RedArchKM.Agents.Docket

open List

open Lib (Moment History)

section

variable (platform : Platform) (order : WorkOrderId)

/-- Where the cap is looked at, or no board is asked for. -/
def GoesOn (docket : Docket) (gate : Gate) (submission : String) (seats : List Seat) : Prop :=
  hasPassed (docket.world.texts order) gate (platform.fingerprint submission) = true ∨
    docket.world.seatAgents seats = [] ∨
    (lastDigest (docket.world.texts order) gate = some (platform.fingerprint submission).text ∧
      (outcome platform.letter (docket.world.texts order) gate).settled = true)

/-- Once the rounds are used up, the last submission is repeated, and every seat has answered. -/
def Repeats (moment : Moment DocketEvent Docket) : Prop :=
  match moment.event with
  | .submit _ _ _ gate submission _ seats =>
    maxRounds ≤ rounds moment.before.lines gate →
      GoesOn platform order moment.before gate submission seats
  | _ => True

end

/-- **A gate convenes at most `maxRounds` boards, and after that a submission goes on to the person.** -/
structure RoundsBounded (platform : Platform) (order : WorkOrderId)
    (history : History DocketEvent Docket) : Prop where
  few : ∀ docket ∈ history.states, ∀ gate, rounds docket.lines gate ≤ maxRounds
  onward : ∀ moment ∈ history.past, ∀ ctx run title gate submission tasks seats,
    moment.event = .submit ctx run title gate submission tasks seats →
    maxRounds ≤ rounds moment.before.lines gate →
    (clearTheBoard platform ctx run order title gate submission tasks seats moment.before.world).2 =
      .cleared

def Written (platform : Platform) (order : WorkOrderId) (docket : Docket) : Prop :=
  docket.world.texts order = docket.lines.map (DiaryLine.text platform)

section Rounds

variable {platform : Platform} {order : WorkOrderId} {docket next : Docket} {gate gate' : Gate}
  {submission : String} {seats : List Seat}

theorem convenes_convened (digest : Digest) (seats : List Seat) :
    convenes gate (conveneMarker gate digest seats) = true := by
  unfold convenes conveneMarker
  rw [contains_iff]
  refine ⟨"🏛️ ".toList, ("(" ++ digest.text ++ ") — " ++ ", ".intercalate (seats.map Seat.agent)).toList,
    ?_⟩
  have opening : " (".toList = " ".toList ++ "(".toList := by decide
  simp only [String.toList_append, append_assoc, opening]

theorem contains_convenedTag {text : String} (isConvening : convenes gate text = true) :
    contains convenedTag.toList text.toList = true := by
  unfold convenes at isConvening
  rw [contains_iff] at isConvening ⊢
  refine List.IsInfix.trans ?_ isConvening
  rw [String.toList_append, String.toList_append, append_assoc]
  exact (prefix_append ..).isInfix

theorem rounds_le_roundsRun (written : Written platform order docket) (gate : Gate) :
    rounds docket.lines gate ≤ roundsRun (docket.world.texts order) gate := by
  unfold rounds roundsRun
  rw [written, countP_map]
  refine countP_mono_left fun line _ isConvening => ?_
  have convened : convenes gate (line.text platform) = true := by
    cases line with
    | convened gate' digest seats =>
      by_cases same : gate' = gate
      · subst same
        exact convenes_convened digest seats
      · rw [DiaryLine.convening, if_neg same] at isConvening
        cases isConvening
    | verdict => cases isConvening
    | cleared => cases isConvening
    | other => cases isConvening
  exact Bool.and_eq_true_iff.mpr ⟨contains_convenedTag convened, convened⟩

theorem rounds_submitted_le :
    rounds (docket.submitted platform order gate submission seats) gate' ≤ 1 ∧
      (gate' ≠ gate → rounds (docket.submitted platform order gate submission seats) gate' = 0) := by
  rcases submitted_cases platform order gate submission seats docket with
    nothing | ⟨-, ⟨cleared, -⟩ | ⟨-, convened⟩⟩
  · rw [nothing]
    exact ⟨Nat.zero_le 1, fun _ => rfl⟩
  · rw [cleared]
    exact ⟨Nat.zero_le 1, fun _ => rfl⟩
  · rw [convened]
    refine ⟨countP_le_length, fun differs => ?_⟩
    simp [rounds, DiaryLine.convening, Ne.symm differs]

/-- Where the cap is looked at, no board is convened, and one that is reached lets through. -/
theorem cleared_of_goesOn (goesOn : GoesOn platform order docket gate submission seats)
    (ctx : ToolContext) (run : Nat) (title tasks : String) :
    rounds (docket.submitted platform order gate submission seats) gate' = 0 ∧
      (maxRounds ≤ roundsRun (docket.world.texts order) gate →
        (clearTheBoard platform ctx run order title gate submission tasks seats docket.world).2 =
          .cleared) := by
  unfold clearTheBoard Docket.submitted
  dsimp only
  cases passed : hasPassed (docket.world.texts order) gate (platform.fingerprint submission) with
  | true => exact ⟨rfl, fun _ => rfl⟩
  | false =>
    cases seats with
    | nil => exact ⟨rfl, fun _ => rfl⟩
    | cons seat rest =>
      simp only [Bool.false_eq_true, if_false, isEmpty_cons, Bool.or_false]
      split
      · refine ⟨by split <;> rfl, fun usedUp => ?_⟩
        rw [if_pos (by rw [decide_eq_true usedUp, Bool.or_true])]
      · rename_i unread
        rcases goesOn with hasPassed | unstaffed | ⟨same, settled⟩
        · cases passed.symm.trans hasPassed
        · unfold convene
          rw [unstaffed]
          exact ⟨rfl, fun _ => rfl⟩
        · exact absurd (Bool.and_eq_true_iff.mpr ⟨decide_eq_true same, settled⟩) unread

theorem Written.happen {event : DocketEvent} (written : Written platform order docket)
    (happens : Happens platform order docket event next) : Written platform order next := by
  unfold Written at written ⊢
  cases event with
  | submit ctx run title gate submission tasks seats =>
    cases happens
    rw [(clearTheBoard_spec ctx run title tasks).1, map_append, written]
  | reply ctx row answer question =>
    simp only [Happens, Docket.happen] at happens
    split at happens
    · rename_i asked
      cases happens
      simp only [recordVerdict, asked.1, asked.2.1]
      rw [texts_append, map_append, written]
      simp [DiaryLine.text]
    · cases happens
  | write entry =>
    simp only [Happens, Docket.happen] at happens
    split at happens
    · rename_i ofOrder
      cases happens
      rw [texts_append, map_append, written]
      simp [ofOrder, DiaryLine.text]
    · cases happens
  | elsewhere world =>
    simp only [Happens, Docket.happen] at happens
    split at happens
    · rename_i same
      cases happens
      exact same.trans written
    · cases happens

/-- **A moment that repeats keeps the rounds within the cap.** -/
theorem rounds_happen {event : DocketEvent} (few : ∀ gate, rounds docket.lines gate ≤ maxRounds)
    (happens : Happens platform order docket event next)
    (repeats : Repeats platform order ⟨event, docket⟩) (gate : Gate) :
    rounds next.lines gate ≤ maxRounds := by
  cases event with
  | submit ctx run title gate' submission tasks seats =>
    cases happens
    have more := @rounds_submitted_le platform order docket gate' gate submission seats
    unfold rounds at *
    rw [countP_append]
    by_cases same : gate = gate'
    · subst same
      by_cases usedUp : maxRounds ≤ docket.lines.countP fun line => (line.convening gate).isSome
      · have none := (@cleared_of_goesOn _ _ _ _ gate _ _ (repeats usedUp) ctx run title tasks).1
        unfold rounds at none
        rw [none]
        exact few gate
      · omega
    · rw [more.2 same]
      exact few gate
  | reply ctx row answer question =>
    simp only [Happens, Docket.happen] at happens
    split at happens <;> cases happens
    exact (countP_append ..).trans_le (few gate)
  | write entry =>
    simp only [Happens, Docket.happen] at happens
    split at happens <;> cases happens
    exact (countP_append ..).trans_le (few gate)
  | elsewhere world =>
    simp only [Happens, Docket.happen] at happens
    split at happens <;> cases happens
    exact few gate

end Rounds

/-- **A gate convenes at most `maxRounds` boards and then lets through, exactly if from then on the
submission that its last board read and answered is repeated.** -/
theorem roundsBounded_iff (platform : Platform) (order : WorkOrderId)
    (history : History DocketEvent Docket) (fromCreation : FromCreation platform order history) :
    RoundsBounded platform order history ↔ ∀ moment ∈ history.past, Repeats platform order moment := by
  obtain ⟨start, noTexts, noLines, steps⟩ := fromCreation.start
  have fresh : Written platform order start := by
    rw [Written, noTexts, noLines]
    rfl
  have written := steps.invariant (P := Written platform order) (fun _ => True)
    (fun _ _ _ happens _ written => written.happen happens) (fun _ _ => trivial)
    (by simpa [History.states] using fresh)
  constructor
  · intro bounded moment member
    unfold Repeats
    split
    · rename_i ctx run title gate submission tasks seats isSubmit
      intro usedUp
      rcases (clearTheBoard_spec ctx run title tasks).2
        (bounded.onward moment member _ _ _ _ _ _ _ isSubmit usedUp) with
        passed | unstaffed | letThrough
      · exact .inl passed
      · exact .inr (.inl unstaffed)
      · exact .inr (.inr ⟨letThrough.same, letThrough.settled⟩)
    · trivial
  · intro repeats
    constructor
    · have few : ∀ gate, rounds start.lines gate ≤ maxRounds := fun gate => by
        rw [noLines]
        exact Nat.zero_le _
      exact steps.invariant (P := fun docket => ∀ gate, rounds docket.lines gate ≤ maxRounds)
        (Repeats platform order) (fun _ _ _ happens repeats kept => rounds_happen kept happens repeats)
        repeats (by simpa [History.states] using few)
    · intro moment member ctx run title gate submission tasks seats isSubmit usedUp
      have isWritten := written _ (History.before_mem_states member)
      have goesOn := repeats moment member
      unfold Repeats at goesOn
      rw [isSubmit] at goesOn
      exact (@cleared_of_goesOn _ _ _ _ gate _ _ (goesOn usedUp) ctx run title tasks).2
        (usedUp.trans (rounds_le_roundsRun isWritten gate))

/-- The first board does not answer, the second one fails the plan, and the third submission of the
same text goes on to the person. -/
theorem roundsBounded_iff_launch :
    ∃ history, History.play (Docket.happen plainPlatform 0) { now := launchDocket }
      [submitPlan, submitPlan, replyToClerk "FAIL" (some (1, 0)), submitPlan] = some history ∧
      rounds history.now.lines .plan = maxRounds ∧
      hasPassed (history.now.world.texts 0) .plan (plainPlatform.fingerprint "We launch.") ∧
      RoundsBounded plainPlatform 0 history := by
  refine History.exists_play rfl fun history played => ?_
  have isLast := Option.some.inj played
  refine ⟨by subst isLast; decide, by subst isLast; decide,
    (roundsBounded_iff plainPlatform 0 history (fromCreation_launch played)).mpr ?_⟩
  subst isLast
  intro moment member
  simp only [History.step, mem_append, mem_singleton, not_mem_nil, false_or] at member
  rcases member with ((rfl | rfl) | rfl) | rfl
  · exact fun usedUp => absurd usedUp (by decide)
  · exact fun usedUp => absurd usedUp (by decide)
  · trivial
  · exact fun _ => .inr (.inr ⟨by decide, by decide⟩)

/-- A reviewer that never answers is convened a third time. -/
theorem not_roundsBounded_silent :
    ∃ history, History.play (Docket.happen plainPlatform 0) { now := launchDocket }
      [submitPlan, submitPlan, submitPlan] = some history ∧
      FromCreation plainPlatform 0 history ∧ ¬RoundsBounded plainPlatform 0 history := by
  refine History.exists_play rfl fun history played => ?_
  have isLast := Option.some.inj played
  refine ⟨fromCreation_launch played, fun bounded => ?_⟩
  subst isLast
  exact absurd (bounded.few _ (History.now_mem_states _) .plan) (by decide)

end RedArchKM.Agents.Docket
