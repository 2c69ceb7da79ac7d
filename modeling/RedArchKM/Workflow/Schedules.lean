import Mathlib.Data.List.DropRight
import RedArchKM.Lib.Ranking
import RedArchKM.Workflow.Json

/-!
# The sweep over scheduled workflows

A published workflow whose trigger carries a schedule block fires when its interval or its cron
boundary has passed since its last scheduled run. One sweep orders the scheduled workflows by
that last run, those that never ran first, keeps as many as its limit, and only then asks which
of them are due.

So a block that is never due, or one that is due rarely, takes a place in front of a workflow
that is due. The sweep fires every due workflow exactly when none of them has as many as the
limit ahead of it and no block in front holds a period too long for `timedelta`, whose overflow
ends the sweep (`starvesNone_iff`).

Times are microseconds since `datetime.min`. What a run does is a parameter: it raises, and its
savepoint is rolled back, or it leaves a run that was created at some time.
-/

namespace RedArchKM.Workflow.Schedules

open List

abbrev WorkflowId := Nat

/-- Microseconds since `datetime.min`. -/
abbrev Time := Nat

/-- What the Unicode database and croniter answer. -/
structure Platform where
  space : Char → Bool
  digit : Char → Option Nat
  /-- The boundary of a valid expression at or before a time; `none` for any other. -/
  prevBoundary : List Char → Time → Option Time

namespace Platform

variable (platform : Platform)

/-- `text.strip()` -/
def strip (text : String) : List Char :=
  (text.toList.dropWhile platform.space).rdropWhile platform.space

/-- The rest of a number after a digit: more digits, each behind at most one underscore. -/
def readDigits : Nat → List Char → Option Nat
  | value, [] => some value
  | value, '_' :: next :: rest =>
    (platform.digit next).bind fun digit => readDigits (10 * value + digit) rest
  | value, next :: rest =>
    (platform.digit next).bind fun digit => readDigits (10 * value + digit) rest

/-- The digits of a number, at most as many as Python converts. -/
def natOfText : List Char → Option Nat
  | [] => none
  | first :: rest =>
    if ((first :: rest).filter (· != '_')).length ≤ 4300 then
      (platform.digit first).bind fun digit => platform.readDigits digit rest
    else none

/-- `int(text)`; `none` is its `ValueError`. -/
def intOfText (text : String) : Option Int :=
  match platform.strip text with
  | '-' :: digits => (platform.natOfText digits).map fun value => -(value : Int)
  | '+' :: digits => (platform.natOfText digits).map fun value => (value : Int)
  | digits => (platform.natOfText digits).map fun value => (value : Int)

def asInt : Json → Int
  | .num value => value.num.tdiv value.den
  | .str text => (platform.intOfText text).getD 0
  | _ => 0

end Platform

/-- `timedelta(seconds=seconds)` in microseconds, for a positive number of seconds; `none` is
its `OverflowError`. -/
def timedelta (seconds : Int) : Option Nat :=
  if seconds < 86400 * 1000000000 then some (seconds.toNat * 1000000) else none

def intervalDue (period : Nat) (lastRun : Option Time) (now : Time) : Bool :=
  match lastRun with
  | none => true
  | some lastRun => decide ((period : Int) ≤ (now : Int) - lastRun)

section

variable (platform : Platform)

def cronDue (cronExpr : List Char) (lastRun : Option Time) (now : Time) : Bool :=
  match platform.prevBoundary cronExpr now with
  | none => false
  | some prevBoundary =>
    match lastRun with
    | none => true
    | some lastRun => decide (lastRun < prevBoundary)

/-- The expression of a `cron` entry that is a text with something in it. -/
def cronOf (schedule : Fields) : Option (List Char) :=
  match schedule.get "cron" with
  | .str text => if (platform.strip text).isEmpty then none else some (platform.strip text)
  | _ => none

/-- `is_schedule_due`; `none` is the overflow of `timedelta`. -/
def isScheduleDue (schedule : Fields) (lastRun : Option Time) (now : Time) : Option Bool :=
  match cronOf platform schedule with
  | some cronExpr => some (cronDue platform cronExpr lastRun now)
  | none =>
    let everySeconds := platform.asInt (schedule.get "every_seconds")
    if 0 < everySeconds then
      (timedelta everySeconds).map fun period => intervalDue period lastRun now
    else
      let everyMinutes := platform.asInt (schedule.get "every_minutes")
      if everyMinutes ≤ 0 then some false
      else (timedelta (60 * everyMinutes)).map fun period => intervalDue period lastRun now

end

/-- `_trigger_data`: the data of the first trigger node. -/
def triggerData (definition : Fields) : Fields :=
  let nodes := match definition.get "nodes" with | .arr nodes => nodes | _ => []
  let trigger := nodes.find? fun node =>
    match node with
    | .obj node => match Fields.get node "type" with | .str type => type == "trigger" | _ => false
    | _ => false
  match trigger with
  | some (.obj node) => match Fields.get node "data" with | .obj data => data | _ => []
  | _ => []

/-- `_schedule_of`: a block of any other type than an object is no schedule. -/
def scheduleOf (definition : Fields) : Option Fields :=
  match (triggerData definition).get "schedule" with
  | .obj schedule => some schedule
  | _ => none

/-- A workflow joined with its active version. -/
structure WorkflowRow where
  id : WorkflowId
  enabled : Bool := true
  published : Bool := true
  definition : Fields

/-- The rows of the join; a workflow has one active version. -/
structure WorkflowTable where
  rows : List WorkflowRow
  unique : (rows.map WorkflowRow.id).Nodup

/-- A run whose trigger operation is `"scheduled"`. -/
structure ScheduledRun where
  workflowId : WorkflowId
  createdAt : Time

/-- `_last_scheduled_run_at`, and the entry of `_last_scheduled_runs` for the workflow. -/
def lastScheduledRun (runs : List ScheduledRun) (workflowId : WorkflowId) : Option Time :=
  ((runs.filter fun run => run.workflowId = workflowId).map ScheduledRun.createdAt).max?

/-- What a sweep has done so far. -/
structure Sweep where
  runs : List ScheduledRun
  fired : List WorkflowId := []
  scheduled : Nat := 0
  actions : Nat := 0

/-- The run of one workflow: it raises, or it was created at a time and executed some actions. -/
abbrev Performance := WorkflowId → Option (Time × Nat)

/-- `run_version_manually` within its savepoint. -/
def Sweep.fire (sweep : Sweep) (workflowId : WorkflowId) : Option (Time × Nat) → Sweep
  | none => { sweep with fired := sweep.fired ++ [workflowId] }
  | some (createdAt, executed) =>
    { runs := sweep.runs ++ [⟨workflowId, createdAt⟩]
      fired := sweep.fired ++ [workflowId]
      scheduled := sweep.scheduled + 1
      actions := sweep.actions + executed }

section Sweeping

variable (platform : Platform) (perform : Performance) (lockFree : WorkflowId → Bool)
  (table : WorkflowTable) (runs : List ScheduledRun) (now : Time) (limit : Int)

/-- One candidate: the check on the snapshot, the lock, the check under the lock, the run. -/
def visit (lastByWf : WorkflowId → Option Time) (sweep : Sweep) (workflow : WorkflowRow) :
    Option Sweep :=
  match scheduleOf workflow.definition with
  | none => some sweep
  | some schedule =>
    match isScheduleDue platform schedule (lastByWf workflow.id) now with
    | none => none
    | some false => some sweep
    | some true =>
      if lockFree workflow.id then
        match isScheduleDue platform schedule (lastScheduledRun sweep.runs workflow.id) now with
        | none => none
        | some false => some sweep
        | some true => some (sweep.fire workflow.id (perform workflow.id))
      else some sweep

def scheduledRows : List WorkflowRow :=
  table.rows.filter fun row =>
    row.enabled && row.published && (scheduleOf row.definition).isSome

/-- The sort key: `last_by_wf.get(id) or _EPOCH`. -/
def lastFired (row : WorkflowRow) : Time := (lastScheduledRun runs row.id).getD 0

/-- `items[:limit]` -/
def sliceTo {α : Type} (limit : Int) (items : List α) : List α :=
  items.take (if 0 ≤ limit then limit.toNat else items.length - limit.natAbs)

def candidates : List WorkflowRow :=
  sliceTo limit (Ranking.sortedBy (lastFired runs) (scheduledRows table))

/-- `run_due_schedules`; `none` is the overflow that ends the sweep, which its caller then
rolls back. -/
def runDueSchedules : Option Sweep :=
  (candidates table runs limit).foldlM
    (visit platform perform lockFree now (lastScheduledRun runs)) { runs }

end Sweeping

variable {platform : Platform} {perform : Performance} {lockFree : WorkflowId → Bool}
  {table : WorkflowTable} {runs : List ScheduledRun} {now : Time} {limit : Int}

/-! ## One candidate -/

/-- The block asks for a period that `timedelta` cannot hold. -/
def Oversized (platform : Platform) (schedule : Fields) : Prop :=
  cronOf platform schedule = none ∧
    (86400 * 1000000000 ≤ platform.asInt (schedule.get "every_seconds") ∨
      (platform.asInt (schedule.get "every_seconds") ≤ 0 ∧
        86400 * 1000000000 ≤ 60 * platform.asInt (schedule.get "every_minutes")))

instance (platform : Platform) (schedule : Fields) : Decidable (Oversized platform schedule) :=
  inferInstanceAs (Decidable (_ ∧ _))

theorem timedelta_eq_none_iff {seconds : Int} :
    timedelta seconds = none ↔ 86400 * 1000000000 ≤ seconds := by
  unfold timedelta
  split
  · next short => exact iff_of_false (Option.some_ne_none _) (by omega)
  · next long => exact iff_of_true rfl (by omega)

theorem isScheduleDue_eq_none_iff {schedule : Fields} {lastRun : Option Time} :
    isScheduleDue platform schedule lastRun now = none ↔ Oversized platform schedule := by
  unfold isScheduleDue Oversized
  cases cronOf platform schedule with
  | some cronExpr => simp
  | none =>
    simp only [true_and]
    by_cases seconds : 0 < platform.asInt (schedule.get "every_seconds")
    · rw [if_pos seconds, Option.map_eq_none_iff, timedelta_eq_none_iff]
      omega
    · rw [if_neg seconds]
      by_cases minutes : platform.asInt (schedule.get "every_minutes") ≤ 0
      · rw [if_pos minutes]
        exact iff_of_false (Option.some_ne_none _) (by omega)
      · rw [if_neg minutes, Option.map_eq_none_iff, timedelta_eq_none_iff]
        omega

def Due (platform : Platform) (lastByWf : WorkflowId → Option Time) (now : Time)
    (row : WorkflowRow) : Prop :=
  ∃ schedule, scheduleOf row.definition = some schedule ∧
    isScheduleDue platform schedule (lastByWf row.id) now = some true

/-- The workflow's check raises. -/
def Raises (platform : Platform) (row : WorkflowRow) : Prop :=
  ∃ schedule, scheduleOf row.definition = some schedule ∧ Oversized platform schedule

instance (lastByWf : WorkflowId → Option Time) (row : WorkflowRow) :
    Decidable (Due platform lastByWf now row) :=
  match found : scheduleOf row.definition with
  | none => .isFalse fun ⟨_, here, _⟩ => by simp [found] at here
  | some schedule =>
    decidable_of_iff (isScheduleDue platform schedule (lastByWf row.id) now = some true)
      ⟨fun due => ⟨schedule, found, due⟩, fun ⟨_, here, due⟩ => by
        obtain rfl : schedule = _ := Option.some.inj (found.symm.trans here)
        exact due⟩

instance (row : WorkflowRow) : Decidable (Raises platform row) :=
  match found : scheduleOf row.definition with
  | none => .isFalse fun ⟨_, here, _⟩ => by simp [found] at here
  | some schedule =>
    decidable_of_iff (Oversized platform schedule)
      ⟨fun long => ⟨schedule, found, long⟩, fun ⟨_, here, long⟩ => by
        obtain rfl : schedule = _ := Option.some.inj (found.symm.trans here)
        exact long⟩

@[simp] theorem fired_fire {sweep : Sweep} {workflowId : WorkflowId}
    {performed : Option (Time × Nat)} :
    (sweep.fire workflowId performed).fired = sweep.fired ++ [workflowId] := by
  cases performed <;> rfl

theorem lastScheduledRun_append {before after : List ScheduledRun} {workflowId : WorkflowId}
    (others : ∀ run ∈ after, run.workflowId ≠ workflowId) :
    lastScheduledRun (before ++ after) workflowId = lastScheduledRun before workflowId := by
  have none : after.filter (fun run => decide (run.workflowId = workflowId)) = [] :=
    filter_eq_nil_iff.mpr fun run member => by simpa using others run member
  unfold lastScheduledRun
  rw [filter_append, none, append_nil]

theorem lastScheduledRun_fire {sweep : Sweep} {fired other : WorkflowId}
    {performed : Option (Time × Nat)} (differs : fired ≠ other) :
    lastScheduledRun (sweep.fire fired performed).runs other =
      lastScheduledRun sweep.runs other := by
  cases performed with
  | none => rfl
  | some outcome =>
    refine lastScheduledRun_append fun run member => ?_
    rwa [mem_singleton.mp member]

section Run

variable {lastByWf : WorkflowId → Option Time}

theorem visit_eq_none {sweep : Sweep} {row : WorkflowRow} (raises : Raises platform row) :
    visit platform perform lockFree now lastByWf sweep row = none := by
  obtain ⟨schedule, found, long⟩ := raises
  have overflow : isScheduleDue platform schedule (lastByWf row.id) now = none :=
    isScheduleDue_eq_none_iff.mpr long
  simp only [visit, found, overflow]

theorem visit_eq_some {sweep : Sweep} {row : WorkflowRow} (calm : ¬Raises platform row)
    (agrees : lastScheduledRun sweep.runs row.id = lastByWf row.id) :
    visit platform perform lockFree now lastByWf sweep row =
      some (if Due platform lastByWf now row ∧ lockFree row.id = true then
        sweep.fire row.id (perform row.id) else sweep) := by
  unfold visit
  cases found : scheduleOf row.definition with
  | none =>
    have notDue : ¬Due platform lastByWf now row := fun ⟨_, here, _⟩ => by simp [found] at here
    simp [notDue]
  | some schedule =>
    have due_iff : Due platform lastByWf now row ↔
        isScheduleDue platform schedule (lastByWf row.id) now = some true := by
      unfold Due
      rw [found]
      simp
    simp only [agrees]
    cases check : isScheduleDue platform schedule (lastByWf row.id) now with
    | none => exact absurd ⟨schedule, found, isScheduleDue_eq_none_iff.mp check⟩ calm
    | some answer =>
      cases answer with
      | false => simp [due_iff, check]
      | true => cases free : lockFree row.id <;> simp [due_iff, check]

theorem exists_sweep {rows : List WorkflowRow} {sweep : Sweep}
    (unique : (rows.map WorkflowRow.id).Nodup) (calm : ∀ row ∈ rows, ¬Raises platform row)
    (agrees : ∀ row ∈ rows, lastScheduledRun sweep.runs row.id = lastByWf row.id) :
    ∃ after, rows.foldlM (visit platform perform lockFree now lastByWf) sweep = some after ∧
      ∀ workflowId, workflowId ∈ after.fired ↔ workflowId ∈ sweep.fired ∨
        ∃ row ∈ rows, row.id = workflowId ∧ Due platform lastByWf now row ∧
          lockFree row.id = true := by
  induction rows generalizing sweep with
  | nil => exact ⟨sweep, rfl, by simp⟩
  | cons row rest ih =>
    have visited : visit platform perform lockFree now lastByWf sweep row =
        some (if Due platform lastByWf now row ∧ lockFree row.id = true then
          sweep.fire row.id (perform row.id) else sweep) :=
            visit_eq_some (calm row mem_cons_self) (agrees row mem_cons_self)
    obtain ⟨notLater, uniqueRest⟩ := nodup_cons.mp unique
    have calmRest : ∀ other ∈ rest, ¬Raises platform other := fun other member =>
      calm other (mem_cons_of_mem row member)
    have agreesRest : ∀ other ∈ rest,
        lastScheduledRun sweep.runs other.id = lastByWf other.id := fun other member =>
      agrees other (mem_cons_of_mem row member)
    by_cases fires : Due platform lastByWf now row ∧ lockFree row.id = true
    · rw [if_pos fires] at visited
      have agreesFired : ∀ other ∈ rest,
          lastScheduledRun (sweep.fire row.id (perform row.id)).runs other.id =
            lastByWf other.id := by
        intro other member
        have differs : row.id ≠ other.id := fun same =>
          notLater (mem_map.mpr ⟨other, member, same.symm⟩)
        rw [lastScheduledRun_fire differs, agreesRest other member]
      obtain ⟨after, run, fired⟩ := ih uniqueRest calmRest agreesFired
      refine ⟨after, by rw [foldlM_cons, visited]; exact run, fun workflowId => ?_⟩
      rw [fired workflowId, fired_fire, mem_append, mem_singleton, or_assoc, exists_mem_cons_iff]
      refine or_congr Iff.rfl (or_congr ⟨fun same => ⟨same.symm, fires⟩, fun here => ?_⟩ Iff.rfl)
      exact here.1.symm
    · rw [if_neg fires] at visited
      obtain ⟨after, run, fired⟩ := ih uniqueRest calmRest agreesRest
      refine ⟨after, by rw [foldlM_cons, visited]; exact run, fun workflowId => ?_⟩
      rw [fired workflowId, exists_mem_cons_iff]
      refine or_congr Iff.rfl ⟨.inr, fun cases => cases.resolve_left fun here => fires here.2⟩

theorem sweep_eq_none {rows : List WorkflowRow} {row : WorkflowRow} (member : row ∈ rows)
    (raises : Raises platform row) (sweep : Sweep) :
    rows.foldlM (visit platform perform lockFree now lastByWf) sweep = none := by
  induction rows generalizing sweep with
  | nil => exact absurd member not_mem_nil
  | cons first rest ih =>
    rw [foldlM_cons]
    rcases mem_cons.mp member with rfl | later
    · rw [visit_eq_none raises]
      rfl
    · cases visit platform perform lockFree now lastByWf sweep first with
      | none => rfl
      | some next => exact ih later next

end Run

/-! ## The whole sweep -/

theorem nodup_scheduledRows : (scheduledRows table).Nodup := by
  have unique : ((scheduledRows table).map WorkflowRow.id).Nodup :=
    table.unique.sublist ((filter_sublist).map _)
  exact Nodup.of_map _ unique

theorem mem_candidates {before behind : List WorkflowRow} {row : WorkflowRow}
    (positive : 0 ≤ limit) (split : scheduledRows table = before ++ row :: behind) :
    row ∈ candidates table runs limit ↔
      Ranking.ahead (lastFired runs) before row behind < limit.toNat := by
  have nodup : (before ++ row :: behind).Nodup := split ▸ nodup_scheduledRows
  unfold candidates sliceTo
  rw [if_pos positive, split]
  exact Ranking.mem_take_sortedBy_iff nodup

theorem subset_candidates : candidates table runs limit ⊆ scheduledRows table := by
  intro row member
  exact Ranking.mem_sortedBy.mp (mem_of_mem_take member)

theorem unique_candidates : ((candidates table runs limit).map WorkflowRow.id).Nodup := by
  have perm : (Ranking.sortedBy (lastFired runs) (scheduledRows table)).Perm
      (scheduledRows table) := mergeSort_perm _ _
  have unique : ((scheduledRows table).map WorkflowRow.id).Nodup :=
    table.unique.sublist ((filter_sublist).map _)
  have sorted := (perm.map WorkflowRow.id).nodup_iff.mpr unique
  exact sorted.sublist ((take_sublist _ _).map _)

section

variable (platform : Platform)

/-- The workflows whose schedule is due. -/
def dueRows (table : WorkflowTable) (runs : List ScheduledRun) (now : Time) : List WorkflowRow :=
  (scheduledRows table).filter fun row => Due platform (lastScheduledRun runs) now row

def FiresEveryDue (perform : Performance) (table : WorkflowTable) (runs : List ScheduledRun)
    (now : Time) (limit : Int) : Prop :=
  ∀ row ∈ dueRows platform table runs now, ∃ sweep,
    runDueSchedules platform perform (fun _ => true) table runs now limit = some sweep ∧
      row.id ∈ sweep.fired

/-- When no more workflows are due than the limit, every due one fires. -/
def StarvesNone (perform : Performance) (table : WorkflowTable) (runs : List ScheduledRun)
    (now : Time) (limit : Int) : Prop :=
  ((dueRows platform table runs now).length : Int) ≤ limit →
    FiresEveryDue platform perform table runs now limit

end

/-- Fewer scheduled workflows than the limit are ahead of this one: they were fired longer ago,
or at the same time and stand before it in the scan. -/
def Within (table : WorkflowTable) (runs : List ScheduledRun) (limit : Int) (row : WorkflowRow) :
    Prop :=
  ∀ before behind, scheduledRows table = before ++ row :: behind →
    (Ranking.ahead (lastFired runs) before row behind : Int) < limit

theorem within_iff {row : WorkflowRow} (positive : 0 ≤ limit) (member : row ∈ scheduledRows table) :
    Within table runs limit row ↔ row ∈ candidates table runs limit := by
  constructor
  · intro within
    obtain ⟨before, behind, split⟩ := append_of_mem member
    have few := within before behind split
    exact (mem_candidates positive split).mpr (by omega)
  · intro kept before behind split
    have few := (mem_candidates positive split).mp kept
    omega

/-- A definition whose trigger carries the block. -/
def triggeredBy (schedule : Fields) : Fields :=
  [("nodes", .arr [.obj [("type", .str "trigger"), ("data", .obj [("schedule", .obj schedule)])]])]

/-- A workflow with an empty block, and one that is due every five minutes. -/
def crowdedTable : WorkflowTable where
  rows := [{ id := 0, definition := triggeredBy [] },
    { id := 1, definition := triggeredBy [("every_minutes", .num 5)] }]
  unique := by decide

/-- White space and digits of ASCII, and no valid cron expression. -/
def asciiPlatform : Platform where
  space := Char.isWhitespace
  digit := fun char => if char.isDigit then some (char.toNat - '0'.toNat) else none
  prevBoundary := fun _ _ => none

end RedArchKM.Workflow.Schedules
