import Mathlib.Data.List.Sort
import RedArchKM.Agents.WorkOrderTasks

/-!
# Stalled orders

A sweep takes the orders in progress that nobody works on, as many as its limit allows, those first
that were updated longest ago. Each is continued, reported as stalled, or left alone.

What is left alone keeps its update time, and with it its place. And a notice whose title is too
long for its column fails the whole sweep. So the orders that are due are handled exactly if fewer
candidates than the limit stand before each of them, due or not, and every notice fits
(`handlesDue_iff`).
-/

namespace RedArchKM.Agents

open List

structure OrderRun where
  live : Bool := false
  createdAt : Nat
  continuation : Bool := false
  /-- `_continuation_progress` of its input, if that is an integer. -/
  progress : Option Int := none
  questions : Nat := 0
  pendingApprovals : Nat := 0
deriving DecidableEq

structure SweptOrder where
  id : Nat
  title : String := ""
  inProgress : Bool := true
  updatedAt : Nat
  tasks : List TaskStatus
  /-- Whether the assigned agent is enabled, if it exists. -/
  assignee : Option Bool := some true
  runs : List OrderRun
  /-- The times of the entries with the stall marker. -/
  stalls : List Nat := []
deriving DecidableEq

inductive Handling where
  | continued | reported

/-- The size of the title column of the notifications. -/
def maxNoticeTitle : Nat := 300

namespace SweptOrder

section

variable (order : SweptOrder)

/-- The `WHERE` of the sweep. -/
def candidate : Bool :=
  order.inProgress && !order.runs.any (·.live) && !order.runs.isEmpty

def outstanding : List TaskStatus :=
  order.tasks.filter fun status => status ≠ .done && status ≠ .carried

def awaitingAPerson : Bool :=
  order.runs.any fun run => run.questions ≠ 0 || run.pendingApprovals ≠ 0

/-- The continuations, the newest one first. -/
def priors : List OrderRun :=
  (order.runs.filter (·.continuation)).insertionSort fun run other => run.createdAt ≥ other.createdAt

/-- The last continuation closed nothing. -/
def standsStill : Bool :=
  (order.priors.head?.bind (·.progress)).any fun before =>
    ((order.tasks.length - order.outstanding.length : Nat) : Int) ≤ before

/-- `_continued`, with `continue_order` -/
def continued : Bool :=
  !order.outstanding.all (· = .blocked) && !order.awaitingAPerson && order.priors.length < 8 &&
    !order.standsStill && order.assignee = some true

def alreadyFlagged : Bool :=
  order.stalls.any fun stall => order.runs.all fun run => run.createdAt < stall

/-- What the loop does with a candidate. -/
def handling : Option Handling :=
  if order.outstanding.isEmpty then none
  else if order.continued then some .continued
  else if order.alreadyFlagged then none
  else some .reported

def noticeTitle : String := "“" ++ order.title ++ "” has stopped with work outstanding"

/-- Whether what the loop writes for the order fits its columns. -/
def fits : Handling → Bool
  | .continued => true
  | .reported => order.noticeTitle.length ≤ maxNoticeTitle

/-- A candidate that is due for a continuation or a first notice. -/
def due : Bool := order.candidate && order.handling.isSome

end

end SweptOrder

section

variable (orders : List SweptOrder)

def candidates : List SweptOrder :=
  (orders.filter SweptOrder.candidate).insertionSort fun order other =>
    order.updatedAt ≤ other.updatedAt

/-- The orders that the loop handles, and how. -/
def swept (limit : Nat) : List (SweptOrder × Handling) :=
  ((candidates orders).take limit).filterMap fun order => order.handling.map (order, ·)

/-- `_stalled_orders`: the orders handled, and how. Where a row does not fit, the sweep raises and
all is rolled back. -/
def stalledOrders (limit : Nat) : Option (List (SweptOrder × Handling)) :=
  if (swept orders limit).all fun entry => entry.1.fits entry.2 then some (swept orders limit)
  else none

/-- The candidates that stand before an order. -/
def ahead (order : SweptOrder) : List SweptOrder :=
  (candidates orders).takeWhile (· ≠ order)

/-- **One sweep handles all orders that are due.** -/
def HandlesDue (limit : Nat) : Prop :=
  ∀ order ∈ orders, order.due = true →
    ∃ handled handling, stalledOrders orders limit = some handled ∧ (order, handling) ∈ handled

/-- The notices of the orders within the limit fit their columns. -/
def NoticesFit (limit : Nat) : Prop :=
  ∀ order ∈ (candidates orders).take limit, ∀ handling, order.handling = some handling →
    order.fits handling = true

end

theorem mem_take_iff {orders : List SweptOrder} {order : SweptOrder} {limit : Nat}
    (member : order ∈ orders) :
    order ∈ orders.take limit ↔ (orders.takeWhile (· ≠ order)).length < limit := by
  induction orders generalizing limit with
  | nil => cases member
  | cons first rest ih =>
    cases limit with
    | zero => simp
    | succ limit =>
      by_cases same : first = order
      · simp [same]
      · have later := (mem_cons.mp member).resolve_left (Ne.symm same)
        rw [take_succ_cons, mem_cons, takeWhile_cons_of_pos (by simpa using same),
          length_cons, Nat.succ_lt_succ_iff, ← ih later]
        exact or_iff_right (Ne.symm same)

section

variable {orders : List SweptOrder} {order : SweptOrder} {limit : Nat}

theorem mem_swept_iff {handling : Handling} : (order, handling) ∈ swept orders limit ↔
    order ∈ (candidates orders).take limit ∧ order.handling = some handling := by
  unfold swept
  rw [mem_filterMap]
  constructor
  · rintro ⟨other, taken, same⟩
    obtain ⟨_, handled, isPair⟩ := Option.map_eq_some_iff.mp same
    cases isPair
    exact ⟨taken, handled⟩
  · rintro ⟨taken, handled⟩
    exact ⟨order, taken, by rw [handled]; rfl⟩

theorem stalledOrders_eq_some_iff {handled : List (SweptOrder × Handling)} :
    stalledOrders orders limit = some handled ↔
      NoticesFit orders limit ∧ swept orders limit = handled := by
  have fit_iff : ((swept orders limit).all fun entry => entry.1.fits entry.2) = true ↔
      NoticesFit orders limit := by
    rw [all_eq_true, Prod.forall]
    exact forall_congr' fun order => ⟨fun fits taken handling handled =>
      fits handling (mem_swept_iff.mpr ⟨taken, handled⟩), fun fits handling member =>
      fits (mem_swept_iff.mp member).1 handling (mem_swept_iff.mp member).2⟩
  unfold stalledOrders
  rw [← fit_iff]
  split
  · rename_i fits
    rw [Option.some.injEq]
    exact (and_iff_right fits).symm
  · rename_i overflows
    exact iff_of_false nofun fun fits => overflows fits.1

theorem handled_iff (member : order ∈ orders) (due : order.due = true) :
    (∃ handled handling, stalledOrders orders limit = some handled ∧ (order, handling) ∈ handled) ↔
      (ahead orders order).length < limit ∧ NoticesFit orders limit := by
  obtain ⟨isCandidate, isSome⟩ := Bool.and_eq_true_iff.mp due
  obtain ⟨handling, handled⟩ := Option.isSome_iff_exists.mp isSome
  have isRow : order ∈ candidates orders :=
    (mem_insertionSort _).mpr (mem_filter.mpr ⟨member, isCandidate⟩)
  unfold ahead
  rw [← mem_take_iff isRow]
  constructor
  · rintro ⟨_, other, ended, isHandled⟩
    obtain ⟨fit, rfl⟩ := stalledOrders_eq_some_iff.mp ended
    exact ⟨(mem_swept_iff.mp isHandled).1, fit⟩
  · rintro ⟨taken, fit⟩
    exact ⟨swept orders limit, handling, stalledOrders_eq_some_iff.mpr ⟨fit, rfl⟩,
      mem_swept_iff.mpr ⟨taken, handled⟩⟩

end

/-- **A sweep handles the orders that are due, if they are within its limit, exactly if no more
candidates than the limit allows come up to each of them**, and every notice fits. -/
theorem handlesDue_iff (orders : List SweptOrder) (limit : Nat) :
    ((orders.filter SweptOrder.due).length ≤ limit → HandlesDue orders limit) ↔
      ((orders.filter SweptOrder.due).length ≤ limit → ∀ order ∈ orders, order.due = true →
        (ahead orders order).length < limit ∧ NoticesFit orders limit) :=
  forall_congr' fun _ => forall₃_congr fun _ member due => handled_iff member due

/-- A finished checklist that nobody closed, updated before an order that has just stalled. -/
def starvingOrders : List SweptOrder :=
  [{ id := 1, updatedAt := 1, tasks := [.done], runs := [{ createdAt := 1 }] },
    { id := 2, updatedAt := 2, tasks := [.pending], runs := [{ createdAt := 2 }] }]

theorem not_handlesDue_starving :
    ¬((starvingOrders.filter SweptOrder.due).length ≤ 1 → HandlesDue starvingOrders 1) := by
  intro handles
  obtain ⟨_, _, ended, handled⟩ := handles (by decide) _ (mem_cons_of_mem _ mem_cons_self)
    (by decide)
  cases ended
  cases handled

end RedArchKM.Agents
