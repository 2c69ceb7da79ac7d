import Mathlib.Data.List.Induction
import Mathlib.Data.Option.Basic

/-!
# Boards with one incumbent for each seat

A board keeps members under their keys, each with a value, and knows which of them are in office.
Some keys run for a seat, and whoever is entered for a seat takes it from the others. Keys without
a seat are in office as soon as they are entered. A key that is on the board already is not entered
again.

Taking members off a board and entering them again restores it exactly if they come with the values
that they had and the last one for each seat is the one that was in office (`enterAll_without_iff`).
-/

namespace RedArchKM.Lib.Incumbents

open List

/-! ## Boards -/

/-- The members by key, with their values and whether they are in office. -/
abbrev Board (κ ν : Type*) := κ → Option (ν × Bool)

variable {κ ν γ : Type*}

def without (board : Board κ ν) (gone : κ → Bool) : Board κ ν :=
  fun key => if gone key then none else board key

/-- At most one member is in office for a seat, and those without a seat are. -/
structure Settled (seat : κ → Option γ) (board : Board κ ν) : Prop where
  single : ∀ {key other : κ} {value otherValue : ν}, board key = some (value, true) →
    board other = some (otherValue, true) → seat key ≠ none → seat key = seat other → key = other
  seatless : ∀ {key : κ} {value : ν} {office : Bool}, seat key = none →
    board key = some (value, office) → office = true

variable [DecidableEq κ] [DecidableEq γ] (seat : κ → Option γ)

/-- A member leaves the office of a seat that is given to another one. -/
def unseat (taken : Option γ) (key : κ) (member : ν × Bool) : ν × Bool :=
  if taken ≠ none ∧ seat key = taken then (member.1, false) else member

def enter (board : Board κ ν) (item : κ × ν) : Board κ ν :=
  if (board item.1).isSome then board
  else fun key =>
    if key = item.1 then some (item.2, true) else (board key).map (unseat seat (seat item.1) key)

def enterAll (board : Board κ ν) (items : List (κ × ν)) : Board κ ν := items.foldl (enter seat) board

variable {seat} {board : Board κ ν} {item : κ × ν} {items : List (κ × ν)} {key : κ}

@[simp] theorem enterAll_nil : enterAll seat board [] = board := rfl

theorem enterAll_cons : enterAll seat board (item :: items) =
    enterAll seat (enter seat board item) items := rfl

theorem enterAll_append (first second : List (κ × ν)) :
    enterAll seat board (first ++ second) = enterAll seat (enterAll seat board first) second :=
  foldl_append

/-! ## One entry -/

omit [DecidableEq κ] in
@[simp] theorem unseat_none : (unseat seat none key : ν × Bool → ν × Bool) = id :=
  funext fun _ => if_neg fun taken => taken.1 rfl

theorem enter_of_present (present : (board item.1).isSome) : enter seat board item = board :=
  if_pos present

theorem enter_of_absent (absent : board item.1 = none) (key : κ) :
    enter seat board item key =
      if key = item.1 then some (item.2, true)
      else (board key).map (unseat seat (seat item.1) key) := by
  have notPresent : ¬(board item.1).isSome := by simp [absent]
  rw [enter, if_neg notPresent]

theorem enter_of_other_seat (other : seat key ≠ none → seat item.1 ≠ seat key)
    (differs : key ≠ item.1) : enter seat board item key = board key := by
  by_cases present : (board item.1).isSome
  · rw [enter_of_present present]
  · rw [enter_of_absent (by simpa using present), if_neg differs]
    have kept : (unseat seat (seat item.1) key : ν × Bool → ν × Bool) = id := by
      funext member
      refine if_neg ?_
      rintro ⟨taken, same⟩
      exact other (same ▸ taken) same.symm
    rw [kept, Option.map_id, id]

theorem value_enter (key : κ) :
    (enter seat board item key).map Prod.fst =
      if key = item.1 then some (((board key).map Prod.fst).getD item.2)
      else (board key).map Prod.fst := by
  by_cases present : (board item.1).isSome
  · rw [enter_of_present present]
    split
    · rename_i same
      obtain ⟨member, found⟩ := Option.isSome_iff_exists.mp present
      rw [same, found]
      rfl
    · rfl
  · have absent : board item.1 = none := by simpa using present
    rw [enter_of_absent absent]
    split
    · rename_i same
      rw [same, absent]
      rfl
    · rw [Option.map_map]
      congr 1
      funext member
      simp only [Function.comp_apply, unseat]
      split <;> rfl

theorem present_enter (key : κ) :
    (enter seat board item key).isSome ↔ (board key).isSome ∨ key = item.1 := by
  have value : (enter seat board item key).map Prod.fst = _ := value_enter key
  have values := congrArg Option.isSome value
  rw [Option.isSome_map] at values
  rw [values]
  split
  · simp [*]
  · simp [*]

/-- **An entry keeps a board settled.** -/
theorem Settled.enter (settled : Settled seat board) (item : κ × ν) :
    Settled seat (enter seat board item) := by
  by_cases present : (board item.1).isSome
  · rwa [enter_of_present present]
  have absent : board item.1 = none := by simpa using present
  -- Whoever is in office for a seat is the new member, or was in office for another seat.
  have inOffice {key : κ} {value : ν}
      (isMember : Incumbents.enter seat board item key = some (value, true)) :
      key = item.1 ∨ (board key = some (value, true) ∧ (seat item.1 ≠ none → seat key ≠ seat item.1)) := by
    rw [enter_of_absent absent] at isMember
    by_cases new : key = item.1
    · exact .inl new
    · rw [if_neg new] at isMember
      obtain ⟨member, found, after⟩ := Option.map_eq_some_iff.mp isMember
      unfold unseat at after
      split at after
      · cases after
      · rename_i kept
        exact .inr ⟨after ▸ found, fun taken same => kept ⟨taken, same⟩⟩
  constructor
  · intro key other value otherValue isMember isOther seated sameSeat
    rcases inOffice isMember with rfl | ⟨before, elsewhere⟩
    · rcases inOffice isOther with rfl | ⟨_, elsewhere⟩
      · rfl
      · exact absurd sameSeat.symm (elsewhere seated)
    · rcases inOffice isOther with rfl | ⟨otherBefore, _⟩
      · exact absurd sameSeat (elsewhere (sameSeat ▸ seated))
      · exact settled.single before otherBefore seated sameSeat
  · intro key value office seatless isMember
    rw [enter_of_absent absent] at isMember
    by_cases new : key = item.1
    · rw [if_pos new] at isMember
      cases isMember
      rfl
    · rw [if_neg new] at isMember
      obtain ⟨member, found, after⟩ := Option.map_eq_some_iff.mp isMember
      unfold unseat at after
      rw [if_neg (fun both => both.1 (both.2 ▸ seatless))] at after
      exact settled.seatless seatless (after ▸ found)

/-! ## Many entries -/

theorem Settled.enterAll (settled : Settled seat board) (items : List (κ × ν)) :
    Settled seat (enterAll seat board items) := by
  induction items generalizing board with
  | nil => exact settled
  | cons item rest ih => exact ih (settled.enter item)

omit [DecidableEq κ] [DecidableEq γ] in
theorem Settled.without (settled : Settled seat board) (gone : κ → Bool) :
    Settled seat (without board gone) := by
  have kept {key : κ} {member : ν × Bool} (isMember : Incumbents.without board gone key = some member) :
      board key = some member := by
    unfold Incumbents.without at isMember
    split at isMember
    · cases isMember
    · exact isMember
  exact ⟨fun one other => settled.single (kept one) (kept other),
    fun seatless one => settled.seatless seatless (kept one)⟩

theorem present_enterAll (key : κ) :
    (enterAll seat board items key).isSome ↔ (board key).isSome ∨ key ∈ items.map Prod.fst := by
  induction items generalizing board with
  | nil => simp
  | cons item rest ih =>
    refine ih.trans ?_
    rw [present_enter, map_cons, mem_cons, or_assoc]

theorem value_enterAll_of_present {member : ν × Bool} (present : board key = some member) :
    (enterAll seat board items key).map Prod.fst = some member.1 := by
  induction items generalizing board member with
  | nil => rw [enterAll_nil, present]; rfl
  | cons item rest ih =>
    have value : (enter seat board item key).map Prod.fst = _ := value_enter key
    rw [present] at value
    have kept : (enter seat board item key).map Prod.fst = some member.1 := by
      rw [value]
      split <;> rfl
    obtain ⟨next, found, sameValue⟩ := Option.map_eq_some_iff.mp kept
    rw [← sameValue]
    exact ih found

def First (items before : List (κ × ν)) (item : κ × ν) (after : List (κ × ν)) : Prop :=
  items = before ++ item :: after ∧ item.1 ∉ before.map Prod.fst

theorem exists_first (member : key ∈ items.map Prod.fst) :
    ∃ before item after, First items before item after ∧ item.1 = key := by
  induction items with
  | nil => cases member
  | cons head rest ih =>
    by_cases here : head.1 = key
    · exact ⟨[], head, rest, ⟨rfl, not_mem_nil⟩, here⟩
    · have later : key ∈ rest.map Prod.fst :=
        (mem_cons.mp member).resolve_left (Ne.symm here)
      obtain ⟨before, item, after, ⟨isSplit, isFirst⟩, sameKey⟩ := ih later
      refine ⟨head :: before, item, after, ⟨congrArg (head :: ·) isSplit, ?_⟩, sameKey⟩
      rw [map_cons, mem_cons, not_or]
      exact ⟨fun same => here (same.symm.trans sameKey), isFirst⟩

theorem First.enter {before after : List (κ × ν)} (first : First items before item after)
    (absent : board item.1 = none) :
    enter seat (enterAll seat board before) item item.1 = some (item.2, true) := by
  have still : enterAll seat board before item.1 = none := by
    rw [← Option.not_isSome_iff_eq_none, present_enterAll, not_or]
    exact ⟨by simp [absent], first.2⟩
  rw [enter_of_absent still, if_pos rfl]

theorem value_enterAll_of_first {before after : List (κ × ν)} (first : First items before item after)
    (absent : board item.1 = none) :
    (enterAll seat board items item.1).map Prod.fst = some item.2 := by
  rw [first.1, enterAll_append, enterAll_cons]
  exact value_enterAll_of_present (first.enter absent)

/-! ## The last one for a seat -/

structure LastFor (seat : κ → Option γ) (board : Board κ ν) (items before : List (κ × ν))
    (item : κ × ν) (after : List (κ × ν)) : Prop where
  first : First items before item after
  absent : board item.1 = none
  last : ∀ later ∈ after, seat later.1 = seat item.1 →
    (board later.1).isSome ∨ later.1 ∈ (before ++ [item]).map Prod.fst

theorem exists_lastFor (board : Board κ ν) (items : List (κ × ν)) (taken : Option γ) :
    (∀ item ∈ items, seat item.1 = taken → (board item.1).isSome) ∨
      ∃ before item after, LastFor seat board items before item after ∧ seat item.1 = taken := by
  induction items using List.reverseRecOn with
  | nil => exact .inl nofun
  | append_singleton items next ih =>
    by_cases entered : seat next.1 = taken ∧ board next.1 = none ∧ next.1 ∉ items.map Prod.fst
    · exact .inr ⟨items, next, [], ⟨⟨rfl, entered.2.2⟩, entered.2.1, nofun⟩, entered.1⟩
    · rcases ih with nobody | ⟨before, item, after, lastFor, isSeat⟩
      · refine .inl fun item member isSeat => ?_
        rcases mem_append.mp member with old | new
        · exact nobody item old isSeat
        · obtain rfl := mem_singleton.mp new
          by_contra absent
          have isNone : board item.1 = none := by simpa using absent
          refine entered ⟨isSeat, isNone, fun again => ?_⟩
          obtain ⟨same, isSame, sameKey⟩ := mem_map.mp again
          have present := nobody same isSame (by rw [sameKey, isSeat])
          rw [sameKey, isNone] at present
          cases present
      · refine .inr ⟨before, item, after ++ [next], ?_, isSeat⟩
        obtain ⟨⟨rfl, isFirst⟩, absent, last⟩ := lastFor
        refine ⟨⟨by simp, isFirst⟩, absent, fun later member sameSeat => ?_⟩
        rcases mem_append.mp member with old | new
        · exact last later old sameSeat
        · obtain rfl := mem_singleton.mp new
          by_contra neither
          rw [not_or] at neither
          have isNone : board later.1 = none := by simpa using neither.1
          refine entered ⟨sameSeat.trans isSeat, isNone, fun again => ?_⟩
          obtain ⟨same, isSame, sameKey⟩ := mem_map.mp again
          rcases mem_append.mp isSame with early | late
          · exact neither.2 (sameKey ▸ mem_map_of_mem (mem_append_left _ early))
          · rcases mem_cons.mp late with rfl | afterwards
            · exact neither.2 (sameKey ▸ mem_map_of_mem (by simp))
            · have known := last same afterwards (by rw [sameKey, sameSeat])
              rw [sameKey] at known
              exact known.elim neither.1 neither.2

theorem enterAll_of_kept (kept : ∀ item ∈ items, (board item.1).isSome ∨
      (seat key ≠ none → seat item.1 ≠ seat key) ∧ key ≠ item.1) :
    enterAll seat board items key = board key := by
  induction items generalizing board with
  | nil => rfl
  | cons item rest ih =>
    obtain ⟨here, later⟩ := forall_mem_cons.mp kept
    have same : enter seat board item key = board key := by
      rcases here with present | ⟨other, differs⟩
      · rw [enter_of_present present]
      · exact enter_of_other_seat other differs
    refine (ih fun next member => ?_).trans same
    rcases later next member with present | elsewhere
    · exact .inl ((present_enter _).mpr (.inl present))
    · exact .inr elsewhere

/-- **Whoever is entered last for a seat is in office.** -/
theorem enterAll_of_lastFor {before after : List (κ × ν)}
    (lastFor : LastFor seat board items before item after) :
    enterAll seat board items item.1 = some (item.2, true) := by
  obtain ⟨first, absent, last⟩ := lastFor
  rw [first.1, enterAll_append, enterAll_cons]
  refine (enterAll_of_kept fun later member => ?_).trans (first.enter absent)
  rw [present_enter, present_enterAll]
  by_cases sameSeat : seat later.1 = seat item.1
  · refine .inl ?_
    rcases last later member sameSeat with present | again
    · exact .inl (.inl present)
    · rw [map_append, mem_append, map_singleton, mem_singleton] at again
      exact again.imp_left .inr
  · refine .inr ⟨fun _ => sameSeat, fun same => sameSeat (by rw [same])⟩

/-! ## Entering members again -/

omit [DecidableEq κ] [DecidableEq γ] in
theorem board_ext {other : Board κ ν}
    (values : ∀ key, (board key).map Prod.fst = (other key).map Prod.fst)
    (offices : ∀ key, (board key).map Prod.snd = (other key).map Prod.snd) : board = other := by
  funext key
  have value := values key
  have office := offices key
  cases isMember : other key with
  | none =>
    rw [isMember] at value
    exact Option.map_eq_none_iff.mp value
  | some member =>
    rw [isMember] at value office
    obtain ⟨next, isNext, sameValue⟩ := Option.map_eq_some_iff.mp value
    rw [isNext] at office
    rw [isNext]
    exact congrArg some (Prod.ext sameValue (Option.some.inj office))

omit [DecidableEq κ] [DecidableEq γ] in
theorem Settled.office_eq_false (settled : Settled seat board) {other : κ} {value otherValue : ν}
    {office : Bool} (isMember : board key = some (value, office))
    (isOther : board other = some (otherValue, true)) (seated : seat key ≠ none)
    (sameSeat : seat key = seat other) (differs : key ≠ other) : office = false := by
  cases office with
  | false => rfl
  | true => exact absurd (settled.single isMember isOther seated sameSeat) differs

section Again

variable {gone : κ → Bool} (settled : Settled seat board)
  (stated : ∀ key, gone key → key ∈ items.map Prod.fst)
  (known : ∀ item ∈ items, (board item.1).isSome)
include stated known

theorem value_enterAll_without
    (sameValue : ∀ before item after, First items before item after → gone item.1 →
      (board item.1).map Prod.fst = some item.2) (key : κ) :
    (enterAll seat (without board gone) items key).map Prod.fst = (board key).map Prod.fst := by
  by_cases isGone : gone key
  · obtain ⟨before, item, later, first, rfl⟩ := exists_first (stated key isGone)
    rw [value_enterAll_of_first first (if_pos isGone), sameValue before item later first isGone]
  · have still : without board gone key = board key := if_neg isGone
    cases isMember : board key with
    | some member => exact value_enterAll_of_present (still.trans isMember)
    | none =>
      have absent : ¬(enterAll seat (without board gone) items key).isSome := by
        rw [present_enterAll, still, isMember, not_or]
        refine ⟨by simp, fun member => ?_⟩
        obtain ⟨item, isItem, rfl⟩ := mem_map.mp member
        have present := known item isItem
        rw [isMember] at present
        cases present
      rw [Option.not_isSome_iff_eq_none.mp absent]

omit stated known in
theorem enterAll_without_of_nobody {member : ν × Bool}
    (nobody : ∀ item ∈ items, seat item.1 = seat key → (without board gone item.1).isSome)
    (present : enterAll seat (without board gone) items key = some member) :
    board key = some member := by
  have same : enterAll seat (without board gone) items key = without board gone key := by
    refine enterAll_of_kept fun item isItem => ?_
    by_cases sameSeat : seat item.1 = seat key
    · exact .inl (nobody item isItem sameSeat)
    · exact .inr ⟨fun _ => sameSeat, fun sameKey => sameSeat (by rw [sameKey])⟩
  rw [present] at same
  unfold without at same
  split at same
  · cases same
  · exact same.symm

include settled

omit stated known in
/-- For a seat, the last one entered was in office and is; without one nothing has changed. -/
theorem office_enterAll_without
    (values : ∀ key, (enterAll seat (without board gone) items key).map Prod.fst =
      (board key).map Prod.fst)
    (inOffice : ∀ before item after, LastFor seat (without board gone) items before item after →
      seat item.1 ≠ none → (board item.1).map Prod.snd = some true) (key : κ) :
    (enterAll seat (without board gone) items key).map Prod.snd = (board key).map Prod.snd := by
  have after : Settled seat (enterAll seat (without board gone) items) :=
    (settled.without gone).enterAll items
  have value := values key
  cases isMember : board key with
  | none =>
    rw [isMember] at value
    rw [Option.map_eq_none_iff.mp value]
  | some member =>
    rw [isMember] at value
    obtain ⟨⟨nextValue, nextOffice⟩, isNext, _⟩ := Option.map_eq_some_iff.mp value
    rw [isNext]
    refine congrArg some ?_
    by_cases seated : seat key = none
    · exact (after.seatless seated isNext).trans (settled.seatless seated isMember).symm
    rcases exists_lastFor (without board gone) items (seat key) with
      nobody | ⟨before, item, later, lastFor, isSeat⟩
    · have same := enterAll_without_of_nobody nobody isNext
      rw [isMember] at same
      cases same
      rfl
    · have now := enterAll_of_lastFor lastFor
      obtain ⟨⟨itemValue, _⟩, was, rfl⟩ :=
        Option.map_eq_some_iff.mp (inOffice before item later lastFor (isSeat ▸ seated))
      by_cases same : key = item.1
      · subst same
        rw [isNext] at now
        rw [isMember] at was
        cases now
        cases was
        rfl
      · rw [after.office_eq_false isNext now seated isSeat.symm same,
          settled.office_eq_false isMember was seated isSeat.symm same]

/-- **Taking members off a settled board and entering them again restores it exactly if they come
with their values and the last one for each seat was in office.** -/
theorem enterAll_without_iff :
    enterAll seat (without board gone) items = board ↔
      (∀ before item after, First items before item after → gone item.1 →
        (board item.1).map Prod.fst = some item.2) ∧
      ∀ before item after, LastFor seat (without board gone) items before item after →
        seat item.1 ≠ none → (board item.1).map Prod.snd = some true := by
  constructor
  · intro restored
    refine ⟨fun before item after first isGone => ?_, fun before item after lastFor seated => ?_⟩
    · have absent : without board gone item.1 = none := if_pos isGone
      rw [← restored]
      exact value_enterAll_of_first first absent
    · rw [← restored, enterAll_of_lastFor lastFor]
      rfl
  · rintro ⟨sameValue, inOffice⟩
    have values : ∀ key, (enterAll seat (without board gone) items key).map Prod.fst =
        (board key).map Prod.fst := value_enterAll_without stated known sameValue
    exact board_ext values (office_enterAll_without settled values inOffice)

end Again

end RedArchKM.Lib.Incumbents
