import RedArchKM.Text.Stitch

/-!
# The tasks of a work order

Agents close the steps of an order one by one, or replace the whole plan. A step is closed with
evidence only, and the step that closes an order that owes a file needs one attached. When a step is
blocked a person is told, once, until the alert is resolved by a person or by the last unblocking.

The check for a file is made where a step becomes done. So every finished order has its file exactly if
no call carries its last open step without one (`neverEmpty_iff`). The alert is open exactly while
somebody is needed: at most once, not without a blocked step, and whenever the first step is blocked
(`alert_throughout`).
-/

namespace RedArchKM.Agents

open Text List

inductive TaskStatus where
  | pending | inProgress | blocked | done | carried
deriving DecidableEq

structure WorkOrderTask where
  key : String
  title : String
  status : TaskStatus := .pending
  sortOrder : Nat := 0

def WorkOrderTask.closed (task : WorkOrderTask) : Bool :=
  task.status = .done || task.status = .carried

/-- A line of the diary, by its marker. -/
inductive OrderLine where
  | done (key evidence : String)
  | blocked (key title : String)
  | acceptance (gap : String)

def OrderLine.isDone : OrderLine → Bool
  | .done .. => true
  | _ => false

structure Alert where
  title : String
  resolved : Bool := false

/-- A work order with its tasks in the order of `list_tasks`. -/
structure TaskedOrder where
  title : String
  body : String := ""
  tasks : List WorkOrderTask := []
  artifacts : List String := []
  diary : List OrderLine := []
  alerts : List Alert := []

namespace TaskedOrder

section

variable (order : TaskedOrder)

def blockedTitle : String := "“" ++ (order.title ++ "” is blocked")

def isOpen (alert : Alert) : Bool :=
  alert.title = order.blockedTitle && !alert.resolved

def anyBlocked : Bool := order.tasks.any (·.status = .blocked)

def hasDeliverable : Bool := order.artifacts.any (· = "output")

def openCount : Nat := order.alerts.countP order.isOpen

def reportBlocked (task : WorkOrderTask) : TaskedOrder :=
  let outstanding := order.alerts.any order.isOpen
  let order := { order with diary := order.diary ++ [.blocked task.key task.title] }
  if outstanding then order
  else { order with alerts := order.alerts ++ [{ title := order.blockedTitle }] }

def clearBlockedAlert : TaskedOrder :=
  if order.anyBlocked then order
  else
    { order with
      alerts := order.alerts.map fun alert =>
        if order.isOpen alert then { alert with resolved := true } else alert }

end

end TaskedOrder

/-- The reasons of a `WorkOrderValidationError`. -/
inductive Refusal where
  | unknownStatus
  | unknownKey (key : String) (available : List String)
  | unchanged (key : String)
  | evidenceMissing (key : String)
  | nothingAttached (key : String)
  | notAnswered (gap : String)

/-- What the auditor finds, and whether the settings enforce it. -/
structure Audit where
  ok : Bool
  gap : String := ""
  enforce : Bool := true

/-- The arguments of `update_task_status`; no status is one that does not exist, and without settings
there is no audit. -/
structure Update where
  key : String
  status : Option TaskStatus
  agent : Option String := none
  evidence : Option String := none
  audit : Option Audit := none

structure PlanItem where
  key : Option String := none
  title : String
  status : TaskStatus := .pending
  sortOrder : Option Nat := none

inductive OrderCall where
  | update (update : Update)
  | setTasks (plan : List PlanItem) (addDeliveryStep : Bool)
  | resolve (index : Nat)
  | attach (kind : String)

def OrderCall.isSetTasks : OrderCall → Bool
  | .setTasks .. => true
  | _ => false

/-- The first element with a property, between what is before and behind it. -/
def locate (holds : WorkOrderTask → Bool) :
    List WorkOrderTask → Option (List WorkOrderTask × WorkOrderTask × List WorkOrderTask)
  | [] => none
  | task :: rest =>
    if holds task then some ([], task, rest)
    else (locate holds rest).map fun (before, target, after) => (task :: before, target, after)

/-- What the platform is: `str.lower`, the patterns for briefs and for steps that promise something to
be handed over, and the order of the database in `sort_order` and `key`. -/
structure OrderPlatform where
  lower : String → String
  deliverableWords : String → Bool
  deliveryWords : String → Bool
  before : WorkOrderTask → WorkOrderTask → Bool

namespace OrderPlatform

variable (platform : OrderPlatform)

def brief (order : TaskedOrder) : String :=
  let body := strip order.body.toList
  if body.isEmpty then order.title else order.title ++ "\n\n" ++ String.ofList body

def hasDeliveryStep (titles : List String) : Bool := titles.any platform.deliveryWords

section

variable (order : TaskedOrder)

def owes : Bool :=
  platform.deliverableWords (brief order) || platform.hasDeliveryStep (order.tasks.map (·.title))

def find (key : String) : Option (List WorkOrderTask × WorkOrderTask × List WorkOrderTask) :=
  locate (fun task => platform.lower task.key = platform.lower (String.ofList (strip key.toList)))
    order.tasks

def othersDone (target : WorkOrderTask) : Bool :=
  (order.tasks.filter (·.key ≠ target.key)).all WorkOrderTask.closed

def requireEvidence (target : WorkOrderTask) (evidence : Option String) : Option Refusal :=
  if (strip (evidence.getD "").toList).length < 25 then some (.evidenceMissing target.key)
  else if !othersDone order target || order.hasDeliverable then none
  else if platform.owes order then some (.nothingAttached target.key)
  else none

def gateAcceptance (target : WorkOrderTask) (audit : Option Audit) : TaskedOrder × Option Refusal :=
  match audit with
  | none => (order, none)
  | some audit =>
    if !othersDone order target || audit.ok then (order, none)
    else
      ({ order with
          diary := order.diary ++ [.acceptance audit.gap]
          alerts := order.alerts ++
            [{ title := "“" ++ (order.title ++ "” finished without answering the request") }] },
        if audit.enforce then some (.notAnswered audit.gap) else none)

/-- What `update_task_status` checks before it moves a task to a status. -/
def admission (target : WorkOrderTask) (status : TaskStatus) (update : Update) :
    TaskedOrder × Option Refusal :=
  if update.agent.isSome && target.status = status then (order, some (.unchanged target.key))
  else if status = .done then
    match platform.requireEvidence order target update.evidence with
    | some refusal => (order, some refusal)
    | none => gateAcceptance order target update.audit
  else (order, none)

/-- The rest of `update_task_status`: the target gets its status. -/
def move (before : List WorkOrderTask) (target : WorkOrderTask) (after : List WorkOrderTask)
    (status : TaskStatus) (evidence : Option String) : TaskedOrder :=
  let moved := { target with status }
  let order := { order with tasks := before ++ moved :: after }
  let order :=
    match evidence.filter (fun text => status = .done && text ≠ "") with
    | some evidence => { order with diary := order.diary ++ [.done target.key evidence] }
    | none => order
  if status = .blocked then
    if target.status = .blocked then order else order.reportBlocked moved
  else if target.status = .blocked then order.clearBlockedAlert
  else order

def updateTaskStatus (update : Update) : TaskedOrder × Option Refusal :=
  match update.status with
  | none => (order, some .unknownStatus)
  | some status =>
    match platform.find order update.key with
    | none => (order, some (.unknownKey update.key (order.tasks.map (·.key))))
    | some (before, target, after) =>
      match platform.admission order target status update with
      | (order, some refusal) => (order, some refusal)
      | (order, none) => (move order before target after status update.evidence, none)

end

def deliveryTaskTitle : String :=
  "Attach the deliverable to this work order (document, CSV, or file) and say what it contains"

/-- The tasks of a plan, with the keys that `set_tasks` assigns. -/
def models (plan : List PlanItem) : List WorkOrderTask :=
  plan.mapIdx fun index item =>
    { key := (item.key.filter (· ≠ "")).getD s!"T{index + 1}"
      title := item.title
      status := item.status
      sortOrder := item.sortOrder.getD index }

section

variable (order : TaskedOrder)

/-- `replace_tasks`, and what `set_tasks` does then. -/
def replaceTasks (replaced : List WorkOrderTask) : TaskedOrder :=
  let order := { order with tasks := replaced.mergeSort platform.before }
  ((replaced.filter (·.status = .blocked)).foldl TaskedOrder.reportBlocked order).clearBlockedAlert

def setTasks (plan : List PlanItem) (addDeliveryStep : Bool) : TaskedOrder :=
  let plan :=
    if addDeliveryStep && !platform.hasDeliveryStep (plan.map (·.title)) then
      plan ++ [{ title := deliveryTaskTitle, sortOrder := some plan.length }]
    else plan
  platform.replaceTasks order (models plan)

def call : OrderCall → TaskedOrder
  | .update update => (platform.updateTaskStatus order update).1
  | .setTasks plan addDeliveryStep => platform.setTasks order plan addDeliveryStep
  | .resolve index =>
    { order with alerts := order.alerts.modify index fun alert => { alert with resolved := true } }
  | .attach kind => { order with artifacts := order.artifacts ++ [kind] }

end

/-- A property of the order before each call and after the last. -/
def Throughout (holds : TaskedOrder → Prop) : TaskedOrder → List OrderCall → Prop
  | order, [] => holds order
  | order, call :: calls => holds order ∧ Throughout holds (platform.call order call) calls

/-- A property of each call and the order before it. -/
def AtEachCall (allowed : TaskedOrder → OrderCall → Prop) : TaskedOrder → List OrderCall → Prop
  | _, [] => True
  | order, call :: calls =>
    allowed order call ∧ AtEachCall allowed (platform.call order call) calls

/-! ## What the parts of a call change -/

section Frame

variable {platform} {order next : TaskedOrder} {target task : WorkOrderTask} {status : TaskStatus}
  {before after : List WorkOrderTask} {evidence : Option String}

theorem locate_spec {holds : WorkOrderTask → Bool} {tasks : List WorkOrderTask}
    (found : locate holds tasks = some (before, target, after)) :
    tasks = before ++ target :: after := by
  induction tasks generalizing before with
  | nil => cases found
  | cons first rest ih =>
    unfold locate at found
    split at found
    · cases found
      rfl
    · obtain ⟨⟨start, _, _⟩, later, same⟩ := Option.map_eq_some_iff.mp found
      cases same
      rw [ih later, cons_append]

/-- The orders have the same tasks, artifacts and texts, have done the same, and want help as much. -/
structure SameWork (order next : TaskedOrder) : Prop where
  title : next.title = order.title
  body : next.body = order.body
  tasks : next.tasks = order.tasks
  artifacts : next.artifacts = order.artifacts
  doneLines : next.diary.filter OrderLine.isDone = order.diary.filter OrderLine.isDone
  openCount : next.openCount = order.openCount

theorem SameWork.refl (order : TaskedOrder) : SameWork order order := ⟨rfl, rfl, rfl, rfl, rfl, rfl⟩

theorem isOpen_acceptance :
    order.isOpen { title := "“" ++ (order.title ++ "” finished without answering the request") } =
      false := by
  unfold TaskedOrder.isOpen TaskedOrder.blockedTitle
  have differ : "“" ++ (order.title ++ "” finished without answering the request") ≠
      "“" ++ (order.title ++ "” is blocked") := by
    intro same
    have texts := congrArg String.toList same
    simp only [String.toList_append] at texts
    exact absurd (append_cancel_left (append_cancel_left texts)) (by decide)
  rw [decide_eq_false differ]
  rfl

theorem sameWork_admission {update : Update} :
    SameWork order (platform.admission order target status update).1 := by
  unfold admission
  split
  · exact .refl order
  split
  · split
    · exact .refl order
    unfold gateAcceptance
    split
    · exact .refl order
    split
    · exact .refl order
    · refine ⟨rfl, rfl, rfl, rfl, ?_, ?_⟩
      · rw [filter_append]
        exact append_nil _
      · have openSame := @countP_append _ order.isOpen order.alerts
          [{ title := "“" ++ (order.title ++ "” finished without answering the request") }]
        rw [countP_singleton, isOpen_acceptance] at openSame
        exact openSame
  · exact .refl order

/-- **Every call either refuses or moves the target.** -/
theorem update_cases (order : TaskedOrder) (update : Update) :
    (∃ refusal, (platform.updateTaskStatus order update).2 = some refusal ∧
      SameWork order (platform.updateTaskStatus order update).1) ∨
    ∃ status before target after next, update.status = some status ∧
      platform.find order update.key = some (before, target, after) ∧
      platform.admission order target status update = (next, none) ∧
      platform.updateTaskStatus order update =
        (move next before target after status update.evidence, none) := by
  unfold updateTaskStatus
  split
  · exact .inl ⟨_, rfl, .refl order⟩
  · split
    · exact .inl ⟨_, rfl, .refl order⟩
    · rename_i status isStatus _ before target after found
      have same := @sameWork_admission platform order target status update
      cases admitted : platform.admission order target status update with
      | mk next refusal =>
        rw [admitted] at same
        cases refusal with
        | some refusal => exact .inl ⟨refusal, rfl, same⟩
        | none => exact .inr ⟨status, before, target, after, next, isStatus, found, admitted, rfl⟩

/-- Reports change the diary and the alerts only. -/
def SameOrder (order next : TaskedOrder) : Prop :=
  next.title = order.title ∧ next.body = order.body ∧ next.tasks = order.tasks ∧
    next.artifacts = order.artifacts

theorem sameOrder_reportBlocked : SameOrder order (order.reportBlocked task) := by
  unfold TaskedOrder.reportBlocked
  dsimp only
  split <;> exact ⟨rfl, rfl, rfl, rfl⟩

theorem sameOrder_clearBlockedAlert : SameOrder order order.clearBlockedAlert := by
  unfold TaskedOrder.clearBlockedAlert
  split <;> exact ⟨rfl, rfl, rfl, rfl⟩

theorem move_eq : ∃ diary, move order before target after status evidence =
    let moved := { order with tasks := before ++ { target with status } :: after, diary }
    if status = .blocked then
      if target.status = .blocked then moved else moved.reportBlocked { target with status }
    else if target.status = .blocked then moved.clearBlockedAlert
    else moved := by
  unfold move
  cases evidence.filter (fun text => status = .done && text ≠ "") with
  | none => exact ⟨order.diary, rfl⟩
  | some evidence => exact ⟨order.diary ++ [.done target.key evidence], rfl⟩

theorem sameOrder_move : SameOrder { order with tasks := before ++ { target with status } :: after }
    (move order before target after status evidence) := by
  obtain ⟨diary, same⟩ := @move_eq order target status before after evidence
  rw [same]
  split
  · split
    · exact ⟨rfl, rfl, rfl, rfl⟩
    · exact sameOrder_reportBlocked
  · split
    · exact sameOrder_clearBlockedAlert
    · exact ⟨rfl, rfl, rfl, rfl⟩

end Frame

/-! ## Finished orders -/

section Finished

section

variable (order : TaskedOrder)

def finished : Bool :=
  order.tasks.all WorkOrderTask.closed && order.tasks.any (·.status = .done)

/-- **An order is not finished without its file.** -/
def NeverEmpty : Prop := finished order = true → order.hasDeliverable = true

/-- The call carries the last open step of an order that has no file, behind one that is done. -/
def carriesLast : OrderCall → Bool
  | .update update =>
    update.status = some .carried &&
      (platform.find order update.key).any fun (before, target, after) =>
        !target.closed && (before ++ after).all WorkOrderTask.closed &&
          (before ++ after).any (·.status = .done) && !order.hasDeliverable
  | _ => false

end

variable {platform} {order next : TaskedOrder}

theorem SameWork.neverEmpty (same : SameWork order next) : NeverEmpty next ↔ NeverEmpty order := by
  unfold NeverEmpty finished TaskedOrder.hasDeliverable
  rw [same.tasks, same.artifacts]

theorem SameWork.owes (same : SameWork order next) : platform.owes next = platform.owes order := by
  unfold OrderPlatform.owes brief
  rw [same.title, same.body, same.tasks]

theorem finished_split {before after : List WorkOrderTask} {target : WorkOrderTask}
    (isTasks : order.tasks = before ++ target :: after) :
    finished order = (target.closed && (before ++ after).all WorkOrderTask.closed &&
      (target.status = .done || (before ++ after).any (·.status = .done))) := by
  unfold finished
  grind

variable {update : Update}

theorem hasDeliverable_of_admission {target : WorkOrderTask} {before after : List WorkOrderTask}
    (owed : platform.owes order = true) (isTasks : order.tasks = before ++ target :: after)
    (last : (before ++ after).all WorkOrderTask.closed = true)
    (admitted : platform.admission order target .done update = (next, none)) :
    order.hasDeliverable = true := by
  have others : othersDone order target = true := by
    unfold othersDone
    rw [isTasks, filter_append, filter_cons_of_neg (by simp), ← filter_append]
    exact all_eq_true.mpr fun task member =>
      all_eq_true.mp last task (mem_filter.mp member).1
  unfold admission at admitted
  split at admitted
  · cases admitted
  · rw [if_pos rfl] at admitted
    split at admitted
    · cases admitted
    · rename_i noRefusal
      unfold requireEvidence at noRefusal
      rw [others] at noRefusal
      by_contra missing
      rw [Bool.not_eq_true] at missing
      simp only [owed, missing, Bool.not_true, Bool.or_self, Bool.false_eq_true, if_false, if_true]
        at noRefusal
      split at noRefusal <;> cases noRefusal

theorem carriesLast_iff :
    platform.carriesLast order (.update update) = true ↔ update.status = some .carried ∧
      ∃ before target after, platform.find order update.key = some (before, target, after) ∧
        target.closed = false ∧ (before ++ after).all WorkOrderTask.closed = true ∧
        (before ++ after).any (·.status = .done) = true ∧ order.hasDeliverable = false := by
  simp only [carriesLast, Bool.and_eq_true, decide_eq_true_eq, Option.any_eq_true, Prod.exists,
    Bool.not_eq_true', and_assoc]

theorem neverEmpty_update (owed : platform.owes order = true) (never : NeverEmpty order) :
    NeverEmpty (platform.updateTaskStatus order update).1 ↔
      platform.carriesLast order (.update update) = false := by
  rw [← Bool.not_eq_true, carriesLast_iff]
  rcases platform.update_cases order update with ⟨refusal, refused, same⟩ |
    ⟨status, before, target, after, next, isStatus, found, admitted, moved⟩
  · refine iff_of_true (same.neverEmpty.mpr never) ?_
    rintro ⟨isCarried, before, target, after, found, isOpen, -⟩
    have differs : target.status ≠ .carried := fun same => by
      rw [WorkOrderTask.closed, same] at isOpen
      cases isOpen
    unfold updateTaskStatus at refused
    rw [isCarried] at refused
    simp [found, admission, differs] at refused
  · have isTasks := locate_spec found
    have same := @sameWork_admission platform order target status update
    rw [admitted] at same
    obtain ⟨-, -, tasks, artifacts⟩ :=
      @sameOrder_move next target status before after update.evidence
    have isFinished := finished_split tasks
    have sameFile : (move next before target after status update.evidence).hasDeliverable =
        order.hasDeliverable := by
      unfold TaskedOrder.hasDeliverable
      rw [artifacts]
      exact congrArg (List.any · _) same.artifacts
    rw [moved, NeverEmpty, isFinished, sameFile, isStatus, found]
    cases status with
    | done =>
      refine iff_of_true (fun isLast => ?_) (fun carries => by cases carries.1)
      simp only [Bool.and_eq_true] at isLast
      exact hasDeliverable_of_admission owed isTasks isLast.1.2 admitted
    | carried =>
      constructor
      · rintro filed ⟨-, _, _, _, same, -, all, any, missing⟩
        cases same
        have file := filed (by simp only [WorkOrderTask.closed, all, any, Bool.or_true]; rfl)
        rw [missing] at file
        cases file
      · intro carriesNone isLast
        simp only [Bool.and_eq_true, Bool.or_eq_true, decide_eq_true_eq, reduceCtorEq, false_or]
          at isLast
        cases wasClosed : target.closed with
        | true =>
          refine never ?_
          rw [finished_split isTasks, wasClosed, isLast.1.2, isLast.2, Bool.or_true]
          rfl
        | false =>
          by_contra missing
          exact carriesNone ⟨rfl, before, target, after, rfl, wasClosed, isLast.1.2, isLast.2,
            Bool.not_eq_true _ ▸ missing⟩
    | pending => exact iff_of_true (fun isLast => by cases isLast) (fun carries => by cases carries.1)
    | inProgress => exact iff_of_true (fun isLast => by cases isLast) (fun carries => by cases carries.1)
    | blocked => exact iff_of_true (fun isLast => by cases isLast) (fun carries => by cases carries.1)

theorem owes_update :
    platform.owes (platform.updateTaskStatus order update).1 = platform.owes order := by
  rcases platform.update_cases order update with ⟨refusal, refused, same⟩ |
    ⟨status, before, target, after, next, isStatus, found, admitted, moved⟩
  · exact same.owes
  · have same := @sameWork_admission platform order target status update
    rw [admitted] at same
    obtain ⟨title, body, tasks, -⟩ :=
      @sameOrder_move next target status before after update.evidence
    rw [moved]
    unfold OrderPlatform.owes brief
    rw [title, body, tasks, same.title, same.body, locate_spec found]
    simp only [map_append, map_cons]

theorem neverEmpty_call {call : OrderCall} (owed : platform.owes order = true)
    (never : NeverEmpty order) (noPlan : call.isSetTasks = false) :
    (NeverEmpty (platform.call order call) ↔ platform.carriesLast order call = false) ∧
      platform.owes (platform.call order call) = true := by
  cases call with
  | update update => exact ⟨neverEmpty_update owed never, owes_update.trans owed⟩
  | setTasks => cases noPlan
  | resolve => exact ⟨iff_of_true never rfl, owed⟩
  | attach kind =>
    refine ⟨iff_of_true (fun isFinished => ?_) rfl, owed⟩
    exact (any_append ..).trans (by rw [show order.artifacts.any _ = true from never isFinished]; rfl)

theorem Throughout.start {holds : TaskedOrder → Prop} {calls : List OrderCall}
    (always : platform.Throughout holds order calls) : holds order := by
  cases calls with
  | nil => exact always
  | cons => exact always.1

/-- **Until an order is finished without the file that it owes, a call carries its last open step; and
a call that refuses changes neither the tasks nor what the diary says was done.** -/
theorem neverEmpty_iff (order : TaskedOrder) (calls : List OrderCall)
    (owed : platform.owes order = true) (isOpen : order.tasks.any (!·.closed) = true)
    (updates : ∀ call ∈ calls, call.isSetTasks = false) :
    (platform.Throughout NeverEmpty order calls ↔
        platform.AtEachCall (fun order call => platform.carriesLast order call = false) order
          calls) ∧
      ∀ order update refusal, (platform.updateTaskStatus order update).2 = some refusal →
        (platform.updateTaskStatus order update).1.tasks = order.tasks ∧
          (platform.updateTaskStatus order update).1.diary.filter OrderLine.isDone =
            order.diary.filter OrderLine.isDone := by
  constructor
  · have never : NeverEmpty order := fun isFinished => by
      obtain ⟨task, member, isOpen⟩ := any_eq_true.mp isOpen
      rw [all_eq_true.mp (Bool.and_eq_true_iff.mp isFinished).1 task member] at isOpen
      cases isOpen
    clear isOpen
    induction calls generalizing order with
    | nil => exact iff_of_true never trivial
    | cons call calls ih =>
      obtain ⟨noPlan, later⟩ := forall_mem_cons.mp updates
      obtain ⟨step, owed⟩ := neverEmpty_call owed never noPlan
      constructor
      · rintro ⟨-, always⟩
        have next := always.start
        exact ⟨step.mp next, (ih _ owed later next).mp always⟩
      · rintro ⟨noCarry, always⟩
        have next := step.mpr noCarry
        exact ⟨never, (ih _ owed later next).mpr always⟩
  · intro order update refusal refused
    rcases platform.update_cases order update with ⟨_, -, same⟩ |
      ⟨status, before, target, after, next, isStatus, found, admitted, moved⟩
    · exact ⟨same.tasks, same.doneLines⟩
    · rw [moved] at refused
      cases refused

/-- An order for a report with two open steps. -/
def reportOrder : TaskedOrder where
  title := "Write a report"
  tasks := [{ key := "T1", title := "Count the sheds" }, { key := "T2", title := "Write it up" }]

/-- A platform for plain texts in small letters, where reports are deliverables. -/
def plainPlatform : OrderPlatform where
  lower := id
  deliverableWords := (· = "Write a report")
  deliveryWords _ := false
  before _ _ := true

def closing (key : String) (status : TaskStatus) : OrderCall :=
  .update
    { key, status := some status, agent := some "Ada", evidence := some "Counted all sheds, see notes." }

/-- Both steps are closed, and the report is attached in between. -/
def reportCalls : List OrderCall := [closing "T1" .done, .attach "output", closing "T2" .done]

theorem neverEmpty_iff_report :
    plainPlatform.Throughout NeverEmpty reportOrder reportCalls ∧
      (reportCalls.foldl plainPlatform.call reportOrder).tasks.map (·.status) = [.done, .done] := by
  refine ⟨(plainPlatform.neverEmpty_iff reportOrder reportCalls (by decide +kernel) (by decide)
    (by decide)).1.mpr ?_, by decide +kernel⟩
  exact ⟨by decide +kernel, by decide +kernel, by decide +kernel, trivial⟩

theorem not_neverEmpty_carried :
    plainPlatform.owes reportOrder = true ∧
      ¬plainPlatform.Throughout NeverEmpty reportOrder [closing "T1" .done, closing "T2" .carried] := by
  refine ⟨by decide +kernel, fun always => ?_⟩
  have file := always.2.2 (by decide +kernel)
  revert file
  decide +kernel

end Finished

/-! ## The alert -/

section Alerts

variable {platform} {order next : TaskedOrder} {task target : WorkOrderTask}

/-- **At most one alert is open, and none without a blocked task.** -/
def AlertFits (order : TaskedOrder) : Prop :=
  order.openCount ≤ 1 ∧ (order.anyBlocked = false → order.openCount = 0)

theorem openCount_report : (order.reportBlocked task).openCount = max order.openCount 1 := by
  unfold TaskedOrder.reportBlocked
  cases outstanding : order.alerts.any order.isOpen with
  | true =>
    obtain ⟨alert, member, isOpen⟩ := any_eq_true.mp outstanding
    have positive : 0 < order.openCount := countP_pos_iff.mpr ⟨alert, member, isOpen⟩
    exact (Nat.max_eq_left positive).symm
  | false =>
    have none : order.openCount = 0 := countP_eq_zero.mpr fun alert member isOpen => by
      rw [any_eq_true.mpr ⟨alert, member, isOpen⟩] at outstanding
      cases outstanding
    have isOpen : order.isOpen { title := order.blockedTitle } = true := by
      simp [TaskedOrder.isOpen]
    have more := @countP_append _ order.isOpen order.alerts [{ title := order.blockedTitle }]
    rw [countP_singleton, isOpen] at more
    rw [none]
    exact more.trans (congrArg (· + 1) none)

theorem openCount_reports (tasks : List WorkOrderTask) :
    (tasks.foldl TaskedOrder.reportBlocked order).openCount =
        (if tasks = [] then order.openCount else max order.openCount 1) ∧
      (tasks.foldl TaskedOrder.reportBlocked order).tasks = order.tasks := by
  induction tasks generalizing order with
  | nil => exact ⟨rfl, rfl⟩
  | cons first rest ih =>
    obtain ⟨count, tasks⟩ := @ih (order.reportBlocked first)
    refine ⟨?_, tasks.trans sameOrder_reportBlocked.2.2.1⟩
    rw [foldl_cons, count, openCount_report, if_neg (cons_ne_nil _ _)]
    split <;> omega

theorem openCount_clear :
    order.clearBlockedAlert.openCount = if order.anyBlocked then order.openCount else 0 := by
  unfold TaskedOrder.clearBlockedAlert
  split
  · rfl
  · refine countP_eq_zero.mpr fun alert member => ?_
    obtain ⟨old, -, rfl⟩ := mem_map.mp member
    split
    · simp [TaskedOrder.isOpen]
    · assumption

theorem anyBlocked_split {before after : List WorkOrderTask}
    (isTasks : order.tasks = before ++ target :: after) :
    order.anyBlocked = (decide (target.status = .blocked) ||
      (before ++ after).any (·.status = .blocked)) := by
  unfold TaskedOrder.anyBlocked
  rw [isTasks, any_append, any_cons, any_append]
  exact Bool.or_left_comm ..

theorem SameWork.alertFits (same : SameWork order next) (fits : AlertFits order) :
    AlertFits next ∧ next.anyBlocked = order.anyBlocked := by
  unfold AlertFits TaskedOrder.anyBlocked
  rw [same.openCount, same.tasks]
  exact ⟨fits, rfl⟩

theorem alertFits_move {before after : List WorkOrderTask} {status : TaskStatus}
    {evidence : Option String} (isTasks : order.tasks = before ++ target :: after)
    (fits : AlertFits order) :
    AlertFits (move order before target after status evidence) ∧ (order.anyBlocked = false →
      (move order before target after status evidence).anyBlocked = true →
        0 < (move order before target after status evidence).openCount) := by
  obtain ⟨diary, same⟩ := @move_eq order target status before after evidence
  let moved := { order with tasks := before ++ { target with status } :: after, diary }
  have isBlocked : moved.anyBlocked = (decide (status = .blocked) ||
      (before ++ after).any (·.status = .blocked)) :=
    @anyBlocked_split moved { target with status } before after rfl
  have wasBlocked := anyBlocked_split isTasks
  obtain ⟨few, none⟩ := fits
  rw [same, wasBlocked]
  by_cases now : status = .blocked <;> by_cases was : target.status = .blocked
  · rw [if_pos now, if_pos was]
    rw [decide_eq_true now] at isBlocked
    refine ⟨⟨few, fun no => by cases isBlocked.symm.trans no⟩, fun no => ?_⟩
    rw [decide_eq_true was] at no
    cases no
  · rw [if_pos now, if_neg was]
    rw [decide_eq_true now] at isBlocked
    have count := @openCount_report moved { target with status }
    have tasks := (@sameOrder_reportBlocked moved { target with status }).2.2.1
    refine ⟨⟨count.trans_le (Nat.max_le.mpr ⟨few, le_rfl⟩), fun no => ?_⟩, fun _ _ =>
      count.symm ▸ Nat.le_max_right ..⟩
    unfold TaskedOrder.anyBlocked at isBlocked no
    rw [tasks, isBlocked] at no
    cases no
  · rw [if_neg now, if_pos was, decide_eq_true was]
    have count := @openCount_clear moved
    have tasks := (@sameOrder_clearBlockedAlert moved).2.2.1
    refine ⟨⟨count.trans_le (by split; exacts [few, Nat.zero_le _]), fun no => ?_⟩, nofun⟩
    unfold TaskedOrder.anyBlocked at count no
    rw [tasks] at no
    rwa [no, if_neg Bool.false_ne_true] at count
  · rw [if_neg now, if_neg was, decide_eq_false was]
    rw [decide_eq_false now] at isBlocked
    rw [wasBlocked, decide_eq_false was] at none
    exact ⟨⟨few, fun no => none (isBlocked.symm.trans no)⟩, fun no yes => by
      cases no.symm.trans (isBlocked.symm.trans yes)⟩

theorem openCount_replaceTasks {replaced : List WorkOrderTask} :
    (platform.replaceTasks order replaced).openCount =
      if (platform.replaceTasks order replaced).anyBlocked then max order.openCount 1 else 0 := by
  unfold replaceTasks
  let planned := { order with tasks := replaced.mergeSort platform.before }
  obtain ⟨count, tasks⟩ :=
    @openCount_reports planned (replaced.filter (·.status = .blocked))
  have sameTasks := (@sameOrder_clearBlockedAlert
    ((replaced.filter (·.status = .blocked)).foldl TaskedOrder.reportBlocked planned)).2.2.1
  rw [openCount_clear]
  unfold TaskedOrder.anyBlocked
  rw [sameTasks, tasks, count]
  rw [(mergeSort_perm ..).any_eq]
  split
  · rename_i isBlocked
    obtain ⟨task, member, blocked⟩ := any_eq_true.mp isBlocked
    rw [if_neg (ne_nil_of_mem (mem_filter.mpr ⟨member, blocked⟩))]
    rfl
  · rfl

theorem countP_resolve (alerts : List Alert) (index : Nat) :
    (alerts.modify index fun alert => { alert with resolved := true }).countP order.isOpen ≤
      alerts.countP order.isOpen := by
  induction alerts generalizing index with
  | nil => cases index <;> exact le_rfl
  | cons alert rest ih =>
    cases index with
    | zero => simp [TaskedOrder.isOpen, countP_cons]
    | succ index =>
      rw [modify_succ_cons, countP_cons, countP_cons]
      exact Nat.add_le_add_right (ih index) _

theorem alertFits_call {call : OrderCall} (fits : AlertFits order) :
    AlertFits (platform.call order call) ∧ (order.anyBlocked = false →
      (platform.call order call).anyBlocked = true → 0 < (platform.call order call).openCount) := by
  cases call with
  | update update =>
    change AlertFits (platform.updateTaskStatus order update).1 ∧ _
    rcases platform.update_cases order update with ⟨refusal, refused, same⟩ |
      ⟨status, before, target, after, next, isStatus, found, admitted, moved⟩
    · obtain ⟨fits, blocked⟩ := same.alertFits fits
      exact ⟨fits, fun no yes => by cases no.symm.trans (blocked.symm.trans yes)⟩
    · have same := @sameWork_admission platform order target status update
      rw [admitted] at same
      obtain ⟨fits, blocked⟩ := same.alertFits fits
      change _ ∧ (_ → (platform.updateTaskStatus order update).1.anyBlocked = true →
        0 < (platform.updateTaskStatus order update).1.openCount)
      rw [moved, ← blocked]
      exact alertFits_move (same.tasks.trans (locate_spec found)) fits
  | setTasks plan addDeliveryStep =>
    have count : (platform.setTasks order plan addDeliveryStep).openCount =
        if (platform.setTasks order plan addDeliveryStep).anyBlocked then max order.openCount 1
        else 0 := openCount_replaceTasks
    have few := Nat.max_le.mpr ⟨fits.1, le_rfl⟩
    refine ⟨⟨count.trans_le (by split; exacts [few, Nat.zero_le _]), fun no => ?_⟩, fun _ yes => ?_⟩
    · exact count.trans (if_neg fun yes => by cases no.symm.trans yes)
    · exact Nat.lt_of_lt_of_eq (Nat.le_max_right ..) (count.trans (if_pos yes)).symm
  | resolve index =>
    have fewer := @countP_resolve order order.alerts index
    exact ⟨⟨fewer.trans fits.1, fun no => Nat.le_zero.mp (fewer.trans_eq (fits.2 no))⟩,
      fun no yes => by cases no.symm.trans yes⟩
  | attach => exact ⟨fits, fun no yes => by cases no.symm.trans yes⟩

/-- **After each call at most one alert is open, none if nothing is blocked, and one if the call
blocked the first task.** -/
theorem alert_throughout (order : TaskedOrder) (calls : List OrderCall) (fits : AlertFits order) :
    platform.Throughout AlertFits order calls ∧
      platform.AtEachCall (fun order call => order.anyBlocked = false →
        (platform.call order call).anyBlocked = true →
          0 < (platform.call order call).openCount) order calls := by
  induction calls generalizing order with
  | nil => exact ⟨fits, trivial⟩
  | cons call calls ih =>
    obtain ⟨kept, raised⟩ := @alertFits_call platform order call fits
    obtain ⟨always, each⟩ := ih _ kept
    exact ⟨⟨fits, always⟩, raised, each⟩

theorem alert_throughout_report :
    plainPlatform.Throughout AlertFits reportOrder [closing "T1" .blocked, .resolve 0] ∧
      plainPlatform.AtEachCall (fun order call => order.anyBlocked = false →
        (plainPlatform.call order call).anyBlocked = true →
          0 < (plainPlatform.call order call).openCount) reportOrder
        [closing "T1" .blocked, .resolve 0] :=
  plainPlatform.alert_throughout reportOrder _ ⟨Nat.zero_le 1, fun _ => rfl⟩

end Alerts

end OrderPlatform

end RedArchKM.Agents
