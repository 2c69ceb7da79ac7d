import RedArchKM.Agents.Approvals
import RedArchKM.Agents.Escalations
import RedArchKM.Agents.ReviewGate

/-!
# Reviewers and what they may do

A reviewer's run is on the order it reviews, and so is every run it hands work to. The posture
of all of them is the order's: in plan mode none of them may act. In the other modes nothing but
its agent's kind and grants keeps a reviewer from acting.

`reviewersIdle_of_withheld` is about every history of an org: its runs with all that happens to
them, the runs they hand work to, boards convened on any order, and people who change modes,
postures and agents at any time.
-/

namespace RedArchKM.Agents

open List Option

open Workflow (Json Fields AgentId AgentRunId AgentRunStatus)
open Lib (Moment History)
open Lib.Ancestry (Descends)

/-! ## What a run is and stays -/

structure RunOrigin where
  agentId : AgentId
  trigger : RunTrigger
  parentRunId : Option AgentRunId
  workOrderId : Option WorkOrderId

def AgentRun.origin (run : AgentRun) : RunOrigin where
  agentId := run.agentId
  trigger := run.trigger
  parentRunId := run.parentRunId
  workOrderId := run.workOrderId

section Origin

variable {σ : Type} {life next : Life σ}

@[simp] theorem origin_finalize (run : AgentRun) (status : AgentRunStatus) (error : Option String)
    (usage : Usage) : (run.finalize status error usage).origin = run.origin := by
  unfold AgentRun.finalize
  split <;> rfl

@[simp] theorem origin_withResume (run : AgentRun) (resume : Option Resume) :
    (run.withResume resume).origin = run.origin := rfl

theorem origin_settle (segment : Segment σ) (driven : Driven σ) (run : AgentRun) :
    (segment.settle driven run).origin = run.origin := by
  unfold Segment.settle
  split
  · rfl
  · simp
  · simp
  · simp
  · simp
  · rfl
  · split <;> simp

theorem origin_cancel (life : Life σ) (reason : String) :
    (life.cancel reason).run.origin = life.run.origin := by
  unfold Life.cancel
  split
  · rfl
  · rw [Life.run_settleQuestions]
    rfl

theorem origin_execute (segment : Segment σ) (life : Life σ) :
    (life.execute segment).run.origin = life.run.origin := by
  unfold Life.execute
  split
  · rfl
  · split
    · simp
    · unfold Life.leave
      dsimp only
      split
      · exact origin_cancel life _
      · rw [Life.run_settleQuestions]
        exact origin_settle _ _ _

/-- **Nothing that happens to a run changes where it comes from.** -/
theorem origin_happen {event : LifeEvent σ} (happened : life.happen event = some next) :
    next.run.origin = life.run.origin := by
  rcases Life.happen_cases happened with ⟨segment, -, rfl⟩ | ⟨-, becomes⟩
  · exact origin_execute segment life
  · cases becomes with
    | denied => simp
    | cancelled reason => exact origin_cancel life reason
    | lost => simp
    | _ => rfl

end Origin

/-! ## What a run's log holds -/

section Gated

variable {σ : Type} {life next : Life σ} {segment : Segment σ}

/-- **A segment invokes what its gate admits.** -/
theorem admitted_drive (segment : Segment σ) (run : AgentRun) (world : σ) :
    ∀ event ∈ (segment.drive run world).log,
      Admitted (segment.toDrive (segment.resumeOf run).1) event := by
  have first : ∀ event ∈ (segment.firstDrive run world).log,
      Admitted (segment.toDrive (segment.resumeOf run).1) event := by
    obtain ⟨events, trace, adds⟩ := loop_trace (segment.toDrive (segment.resumeOf run).1)
      { world, messages := (segment.resumeOf run).2.1 } segment.maxIterations
      (segment.resumeOf run).2.2.1 (segment.resumeOf run).2.2.2
    have isLog : (segment.firstDrive run world).log = events := adds
    rw [isLog]
    exact admitted_loopTrace trace
  unfold Segment.drive
  dsimp only
  split
  · exact first
  · rename_i text _
    intro event member
    rcases mem_append.mp member with inFirst | inSecond
    · exact first event inFirst
    · obtain ⟨events, trace, adds⟩ := loop_trace (segment.toDrive (segment.resumeOf run).1)
        { world := (segment.firstDrive run world).world
          messages := (segment.firstDrive run world).messages ++ [userMessage text] }
        segment.maxIterations none []
      have isLog : (segment.secondDrive run (segment.firstDrive run world) text).log = events := adds
      rw [isLog] at inSecond
      exact admitted_loopTrace trace event inSecond

/-- Every handler that ran was allowed, or a person approved its tool for this run. -/
structure Life.Gated (life : Life σ) : Prop where
  names : life.run.status.isTerminal = false → ∀ resume, life.run.input.resume = some resume →
    NamesApproved life.approvals resume.approved
  passed : ∀ spec call verdict, .handler spec call verdict ∈ life.log →
    verdict = .allow ∨ ∃ ask ∈ approvedAsks life.approvals, ask.1 = spec.name

theorem Life.Gated.settles (gated : life.Gated) (settles : Settles life next) : next.Gated := by
  constructor
  · intro alive resume resumed name member
    obtain ⟨live, same⟩ := settles.resume alive
    rcases (same resume resumed).2 name member with old | new
    · cases before : life.run.input.resume with
      | none =>
        rw [before] at old
        cases old
      | some resume' =>
        rw [before] at old
        exact (gated.names live resume' before).mono settles.approved name old
    · exact new
  · rw [settles.log]
    exact fun spec call verdict member => (gated.passed spec call verdict member).imp_right
      fun ⟨ask, approved, named⟩ => ⟨ask, settles.approved approved, named⟩

theorem Life.Gated.drove (gated : life.Gated) (drove : Drove segment life next) : next.Gated := by
  have live : life.run.status.isTerminal = false := by rw [drove.running]; rfl
  have named : NamesApproved life.approvals (segment.resumeOf life.run).1 := by
    unfold Segment.resumeOf
    cases resumed : life.run.input.resume with
    | none => exact fun name member => by cases member
    | some resume => exact gated.names live resume resumed
  constructor
  · intro alive resume resumed name member
    obtain ⟨_, _, _, same⟩ := drove.resume alive
    exact named.mono drove.approved name ((same resume resumed).2 name member)
  · rw [drove.log]
    intro spec call verdict member
    rcases mem_append.mp member with old | new
    · exact (gated.passed spec call verdict old).imp_right
        fun ⟨ask, approved, isName⟩ => ⟨ask, drove.approved approved, isName⟩
    · obtain ⟨-, -, allowed | ⟨-, through⟩⟩ :=
        admitted_drive segment life.run life.world _ new spec call verdict rfl
      · exact .inl allowed
      · right
        have contained : spec.name ∈ (segment.resumeOf life.run).1 := by
          unfold Segment.toDrive approvalStrategy at through
          dsimp only at through
          split at through
          · rename_i contained
            simpa using contained
          · cases through
        exact named.mono drove.approved _ contained

theorem Life.Gated.happen {event : LifeEvent σ} (gated : life.Gated)
    (happened : life.happen event = some next) : next.Gated := by
  rcases Life.happen_cases happened with ⟨segment, -, rfl⟩ | ⟨-, becomes⟩
  · rcases drove_or_settles segment life with drove | settles
    · exact gated.drove drove
    · exact gated.settles settles
  · exact gated.settles (settles_becomes becomes)

end Gated

/-! ## An org with boards -/

/-- The org around its runs. `reviews` remembers which runs a board was convened with. -/
structure Office (σ : Type) where
  posture : Posture
  orders : List WorkOrder
  agents : List Agent
  lives : List (Life σ) := []
  notifications : List AgentNotification := []
  entries : List WorkOrderEntry := []
  reviews : List AgentRunId := []

/-- The tools that hand work to another agent's run. -/
inductive HandOff where
  | delegateTask | escalate | consultPeer

def HandOff.handler : HandOff → ToolContext → Args → World → World × ToolResult
  | .delegateTask => Agents.delegateTask
  | .escalate => Agents.escalate
  | .consultPeer => Agents.consultPeer

inductive OfficeEvent (σ : Type) where
  | life (run : AgentRunId) (event : LifeEvent σ)
  | handOff (run : AgentRunId) (toolCallId : String) (tool : HandOff) (args : Args) (fresh : σ)
  | convene (run : AgentRunId) (toolCallId : String) (gate : Gate) (submission tasks : String)
      (seats : List Seat) (fresh : σ)
  /-- Any other way to start a run: by hand, for an order, on a schedule, for a workflow. -/
  | start (run : AgentRun) (fresh : σ)
  | setMode (order : WorkOrderId) (mode : WorkOrderMode)
  | setPosture (posture : Posture)
  | edit (agents : List Agent)

def RunTrigger.isHandOff : RunTrigger → Bool
  | .delegation | .escalation | .consult => true
  | _ => false

/-- The run that handed the work over, where one did. -/
def RunOrigin.giver (origin : RunOrigin) : Option AgentRunId :=
  if origin.trigger.isHandOff then origin.parentRunId else none

namespace Office

variable {σ : Type}

/-- The tables the handlers read and write. -/
def world (office : Office σ) : World where
  agents := office.agents
  runs := office.lives.map Life.run
  notifications := office.notifications
  entries := office.entries

/-- The org after a handler: its new runs have not been driven. -/
def withWorld (fresh : σ) (world : World) (office : Office σ) : Office σ :=
  { office with
    lives := office.lives ++ (world.runs.drop office.lives.length).mapIdx fun place run =>
      { id := office.lives.length + place, run, world := fresh }
    notifications := world.notifications
    entries := world.entries }

/-- The posture of a run: what the executor computes before it builds the tool list. -/
def postureOf (run : AgentRun) (office : Office σ) : Posture :=
  postureFor ((run.workOrderId.bind (office.orders[·]?)).map WorkOrder.mode) office.posture

/-- Whether the worker can have built the segment of the event for this run. -/
def builds (event : LifeEvent σ) (run : AgentRun) (office : Office σ) : Bool :=
  match event with
  | .execute segment =>
    segment.refusal.isSome ||
      (decide (office.world.agent? run.agentId = some segment.agent) &&
        decide (segment.autonomy = office.postureOf run))
  | _ => true

/-- What can happen in the org. -/
def happen (platform : Platform) (office : Office σ) : OfficeEvent σ → Option (Office σ)
  | .life id event => do
      let life ← office.lives[id]?
      if office.builds event life.run then
        let next ← life.happen event
        return { office with lives := office.lives.set id next }
      else none
  | .handOff id toolCallId tool args fresh => do
      let ctx ← office.world.context? id toolCallId
      return office.withWorld fresh (tool.handler ctx args office.world).1
  | .convene id toolCallId gate submission tasks seats fresh => do
      let ctx ← office.world.context? id toolCallId
      let order ← ctx.workOrderId
      let row ← office.orders[order]?
      let (world, _) ← Agents.convene platform ctx id order row.title gate submission tasks seats
        office.world
      return { office.withWorld fresh world with
        reviews := office.reviews ++
          List.range' office.lives.length (world.runs.length - office.lives.length) }
  | .start run fresh =>
    if run.trigger.isHandOff || run.input.resume.isSome then none
    else
      some { office with
        lives := office.lives ++ [{ id := office.lives.length, run, world := fresh }] }
  | .setMode order mode =>
    some { office with orders := office.orders.modify order fun row => { row with mode } }
  | .setPosture posture => some { office with posture }
  | .edit agents => some { office with agents }

def Happens (platform : Platform) (office : Office σ) (event : OfficeEvent σ) (next : Office σ) :
    Prop :=
  office.happen platform event = some next

section

variable (office : Office σ)

def origin (id : AgentRunId) : Option RunOrigin :=
  (office.lives[id]?).map fun life => life.run.origin

/-- The run that handed a run its work. -/
def giver (id : AgentRunId) : Option AgentRunId :=
  (office.origin id).bind RunOrigin.giver

def orderOf (id : AgentRunId) : Option WorkOrderId :=
  (office.origin id).bind RunOrigin.workOrderId

/-- A review's run, or one that it handed work to, directly or through others. -/
def UnderReview (review id : AgentRunId) : Prop :=
  review ∈ office.reviews ∧ Descends office.giver review id

/-- **Reviewers do not act**: in a review's run and in every run it leads to, the handler of a
tool that acts was invoked only where a person approved the tool. -/
def ReviewersIdle : Prop :=
  ∀ review id life, office.UnderReview review id → office.lives[id]? = some life →
    ∀ spec call verdict, .handler spec call verdict ∈ life.log → spec.acts →
      ∃ approval ∈ life.approvals, approval.status = .approved ∧ approval.toolName = spec.name

end

/-- When a run under review is driven, the order under review is in plan mode, or no tool that
acts and is offered to the run would go through without a person. -/
def Withheld (moment : Moment (OfficeEvent σ) (Office σ)) : Prop :=
  ∀ review id segment, moment.event = .life id (.execute segment) →
    moment.before.UnderReview review id →
    ((moment.before.orderOf review).bind (moment.before.orders[·]?)).map WorkOrder.mode = some .plan ∨
      ∀ spec ∈ segment.specs, spec.acts →
        (decideCall segment.agent spec segment.autonomy).decision ≠ .allow

/-- A history of an org that starts without runs. -/
structure FromOpening (platform : Platform) (history : History (OfficeEvent σ) (Office σ)) : Prop where
  start : ∃ office : Office σ, office.lives = [] ∧ office.reviews = [] ∧
    History.Steps (Happens platform) { now := office } history

/-! ## Work stays on its order -/

/-- The org as its reviews need it. -/
structure Sound (office : Office σ) : Prop where
  falls : ∀ id giver, office.giver id = some giver → giver < id
  inherits : ∀ id giver, office.giver id = some giver → office.orderOf id = office.orderOf giver
  inside : ∀ review ∈ office.reviews, review < office.lives.length
  gated : ∀ life ∈ office.lives, life.Gated
  idle : ∀ review id life, office.UnderReview review id → office.lives[id]? = some life →
    ∀ spec call, .handler spec call .allow ∈ life.log → spec.acts = false

variable {office : Office σ} {ctx : ToolContext} {world : World}

theorem Sound.reviewersIdle (sound : office.Sound) : office.ReviewersIdle := by
  intro review id life under found spec call verdict invoked acts
  rcases (sound.gated life (mem_of_getElem? found)).passed spec call verdict invoked with
    rfl | ⟨ask, approved, named⟩
  · have idle := sound.idle review id life under found spec call invoked
    rw [acts] at idle
    cases idle
  · obtain ⟨approval, member, isApproved, rfl⟩ := mem_approvedAsks.mp approved
    exact ⟨approval, member, isApproved, named⟩

/-- A run that has just been created: by nobody, or by a run of the same order. -/
structure Fresh (office : Office σ) (life : Life σ) : Prop where
  log : life.log = []
  resume : life.run.input.resume = none
  giver : ∀ giver, life.run.origin.giver = some giver →
    giver < office.lives.length ∧ life.run.workOrderId = office.orderOf giver

theorem Fresh.gated {life : Life σ} (fresh : office.Fresh life) : life.Gated := by
  constructor
  · intro _ resume resumed
    rw [fresh.resume] at resumed
    cases resumed
  · rw [fresh.log]
    exact fun _ _ _ member => absurd member not_mem_nil

/-- **New runs keep the org sound.** -/
theorem Sound.extend {next : Office σ} {added : List (Life σ)} {convened : List AgentRunId}
    (sound : office.Sound) (grown : next.lives = office.lives ++ added)
    (fresh : ∀ life ∈ added, office.Fresh life)
    (reviews : next.reviews = office.reviews ++ convened)
    (new : ∀ review ∈ convened, office.lives.length ≤ review ∧ review < next.lives.length) :
    next.Sound := by
  have atOld : ∀ id < office.lives.length, next.origin id = office.origin id := by
    intro id old
    rw [origin, origin, grown, getElem?_append_left old]
  have giverOld : ∀ id < office.lives.length, next.giver id = office.giver id := by
    intro id old
    rw [giver, giver, atOld id old]
  have atNew : ∀ id life, office.lives.length ≤ id → next.lives[id]? = some life → life ∈ added := by
    intro id life isNew found
    rw [grown, getElem?_append_right isNew] at found
    exact mem_of_getElem? found
  have giverNew : ∀ id giver, office.lives.length ≤ id → next.giver id = some giver →
      giver < office.lives.length ∧ next.orderOf id = office.orderOf giver := by
    intro id giver isNew given
    obtain ⟨origin, isOrigin, isGiver⟩ := bind_eq_some_iff.mp given
    obtain ⟨life, found, rfl⟩ := map_eq_some_iff.mp isOrigin
    obtain ⟨older, order⟩ := (fresh life (atNew id life isNew found)).giver giver isGiver
    refine ⟨older, ?_⟩
    rw [← order, orderOf, isOrigin]
    rfl
  have falls : ∀ id giver, next.giver id = some giver → giver < id := by
    intro id giver given
    by_cases old : id < office.lives.length
    · rw [giverOld id old] at given
      exact sound.falls id giver given
    · exact Nat.lt_of_lt_of_le (giverNew id giver (Nat.not_lt.mp old) given).1 (Nat.not_lt.mp old)
  have orderOld : ∀ id < office.lives.length, next.orderOf id = office.orderOf id := by
    intro id old
    rw [orderOf, orderOf, atOld id old]
  refine ⟨falls, ?_, ?_, ?_, ?_⟩
  · intro id giver given
    by_cases old : id < office.lives.length
    · rw [giverOld id old] at given
      rw [orderOld id old, orderOld giver (Nat.lt_trans (sound.falls id giver given) old)]
      exact sound.inherits id giver given
    · obtain ⟨older, order⟩ := giverNew id giver (Nat.not_lt.mp old) given
      rw [order, orderOld giver older]
  · intro review member
    rw [reviews] at member
    rcases mem_append.mp member with old | isNew
    · rw [grown, length_append]
      exact Nat.lt_add_right _ (sound.inside review old)
    · exact (new review isNew).2
  · intro life member
    rw [grown] at member
    rcases mem_append.mp member with old | isNew
    · exact sound.gated life old
    · exact (fresh life isNew).gated
  · rintro review id life ⟨reviewed, descends⟩ found spec call invoked
    by_cases old : id < office.lives.length
    · obtain ⟨reviewOld, descendsOld⟩ := descends.of_old giverOld falls old
      have wasReviewed : review ∈ office.reviews := by
        rw [reviews] at reviewed
        rcases mem_append.mp reviewed with was | isNew
        · exact was
        · exact absurd (new review isNew).1 (Nat.not_le.mpr reviewOld)
      rw [grown, getElem?_append_left old] at found
      exact sound.idle review id life ⟨wasReviewed, descendsOld⟩ found spec call invoked
    · rw [(fresh life (atNew id life (Nat.not_lt.mp old) found)).log] at invoked
      cases invoked

def HandsOver (ctx : ToolContext) (world next : World) : Prop :=
  ∃ added, next.runs = world.runs ++ added ∧ ∀ run ∈ added,
    run.parentRunId = ctx.runId ∧ run.workOrderId = ctx.workOrderId ∧ run.input.resume = none

variable {next : World}

theorem handsOver_of_same (same : next.runs = world.runs) : HandsOver ctx world next :=
  ⟨[], by rw [same, append_nil], by simp⟩

theorem handsOver_of_child {child : AgentRun} (grown : next.runs = world.runs ++ [child])
    (parent : child.parentRunId = ctx.runId) (order : child.workOrderId = ctx.workOrderId)
    (new : child.input.resume = none) : HandsOver ctx world next :=
  ⟨[child], grown, by simpa using ⟨parent, order, new⟩⟩

section

variable (ctx : ToolContext) (args : Args) (world : World)

theorem handsOver_delegateTask : HandsOver ctx world (delegateTask ctx args world).1 := by
  unfold Agents.delegateTask
  dsimp only
  split
  · exact handsOver_of_same rfl
  · split
    · exact handsOver_of_same rfl
    · rename_i delegated
      unfold delegate at delegated
      split at delegated
      · cases delegated
      · split at delegated
        · cases delegated
        · cases delegated
          exact handsOver_of_child (runs_diary ..) rfl rfl rfl

theorem handsOver_escalate : HandsOver ctx world (escalate ctx args world).1 := by
  unfold Agents.escalate
  split
  · exact handsOver_of_same rfl
  · dsimp only
    split
    · exact handsOver_of_child (runs_diary ..) rfl rfl rfl
    · exact handsOver_of_same (runs_diary ..)

theorem handsOver_consultPeer : HandsOver ctx world (consultPeer ctx args world).1 := by
  unfold Agents.consultPeer
  dsimp only
  split
  · exact handsOver_of_same rfl
  · split
    · exact handsOver_of_same rfl
    · split
      · exact handsOver_of_same rfl
      · exact handsOver_of_child (runs_diary ..) rfl rfl rfl
    · exact handsOver_of_same rfl

end

theorem handsOver_handler (tool : HandOff) (ctx : ToolContext) (args : Args) (world : World) :
    HandsOver ctx world (tool.handler ctx args world).1 := by
  cases tool with
  | delegateTask => exact handsOver_delegateTask ctx args world
  | escalate => exact handsOver_escalate ctx args world
  | consultPeer => exact handsOver_consultPeer ctx args world

theorem HandsOver.trans {last : World} (first : HandsOver ctx world next)
    (second : HandsOver ctx next last) : HandsOver ctx world last := by
  obtain ⟨added, grown, given⟩ := first
  obtain ⟨later, grownLater, givenLater⟩ := second
  refine ⟨added ++ later, by rw [grownLater, grown, append_assoc], fun run member => ?_⟩
  rcases mem_append.mp member with old | new
  · exact given run old
  · exact givenLater run new

/-- **A board's reviewers work on the order they review.** -/
theorem handsOver_convene {platform : Platform} {id : AgentRunId} {order : WorkOrderId}
    {title : String} {gate : Gate} {submission tasks : String} {seats : List Seat}
    {signal : ControlSignal} (ordered : ctx.workOrderId = some order)
    (convened : convene platform ctx id order title gate submission tasks seats world =
      some (next, signal)) : HandsOver ctx world next := by
  have seated : ∀ (staffed : List (Seat × Agent)) (world : World), HandsOver ctx world
      (staffed.foldl (seatReviewer ctx id order title gate submission tasks) world) := by
    intro staffed
    induction staffed with
    | nil => exact fun world => handsOver_of_same rfl
    | cons seat rest ih =>
      intro world
      have first : HandsOver ctx world
          (seatReviewer ctx id order title gate submission tasks world seat) :=
        handsOver_of_child rfl rfl ordered.symm rfl
      exact first.trans (ih _)
  unfold Agents.convene at convened
  split at convened
  · cases convened
  · cases convened
    exact (seated _ world).trans (handsOver_of_same rfl)

theorem fresh_of_handsOver {id : AgentRunId} {toolCallId : String} (fresh : σ)
    (context : office.world.context? id toolCallId = some ctx)
    (handsOver : HandsOver ctx office.world world) :
    ∃ added, (office.withWorld fresh world).lives = office.lives ++ added ∧
      office.lives.length + added.length = world.runs.length ∧
      ∀ life ∈ added, office.Fresh life := by
  obtain ⟨runs, grown, given⟩ := handsOver
  obtain ⟨run, foundRun, rest⟩ := bind_eq_some_iff.mp context
  obtain ⟨agent, -, isContext⟩ := bind_eq_some_iff.mp rest
  cases isContext
  have isDrop : world.runs.drop office.lives.length = runs := by
    rw [grown]
    exact drop_left' (by simp [Office.world])
  refine ⟨_, rfl, ?_, ?_⟩
  · rw [length_mapIdx, isDrop, grown, length_append]
    simp [Office.world]
  · rw [isDrop]
    intro life member
    obtain ⟨place, inside, rfl⟩ := mem_mapIdx.mp member
    obtain ⟨parent, order, new⟩ := given _ (getElem_mem inside)
    refine ⟨rfl, new, fun giver isGiver => ?_⟩
    have isId : giver = id := by
      unfold RunOrigin.giver at isGiver
      split at isGiver
      · exact (some.inj (parent.symm.trans isGiver)).symm
      · cases isGiver
    subst isId
    obtain ⟨life, found, isRun⟩ := map_eq_some_iff.mp
      ((List.getElem?_map (f := Life.run) ..).symm.trans foundRun)
    refine ⟨(List.getElem?_eq_some_iff.mp found).1, order.trans ?_⟩
    unfold orderOf origin
    rw [found, ← isRun]
    rfl

/-- **What happens to one run keeps the org sound**, when a drive under review is withheld from
acting. -/
theorem Sound.life {office : Office σ} {id : AgentRunId} {life next : Life σ} {event : LifeEvent σ}
    (sound : office.Sound) (found : office.lives[id]? = some life)
    (built : office.builds event life.run)
    (happened : life.happen event = some next) (withheld : Withheld ⟨.life id event, office⟩) :
    Sound { office with lives := office.lives.set id next } := by
  have inside : id < office.lives.length := (List.getElem?_eq_some_iff.mp found).1
  have sameOrigin : origin { office with lives := office.lives.set id next } = office.origin := by
    funext other
    unfold origin
    by_cases same : id = other
    · subst same
      obtain ⟨_, isLife⟩ := List.getElem?_eq_some_iff.mp found
      simp [inside, origin_happen happened, isLife]
    · simp [same]
  have sameGiver : giver { office with lives := office.lives.set id next } = office.giver := by
    funext other
    rw [giver, giver, sameOrigin]
  have sameOrder : orderOf { office with lives := office.lives.set id next } = office.orderOf := by
    funext other
    rw [orderOf, orderOf, sameOrigin]
  refine ⟨?_, ?_, ?_, ?_, ?_⟩
  · rw [sameGiver]
    exact sound.falls
  · rw [sameGiver, sameOrder]
    exact sound.inherits
  · simpa using sound.inside
  · intro other member
    rcases mem_or_eq_of_mem_set member with old | rfl
    · exact sound.gated other old
    · exact (sound.gated life (mem_of_getElem? found)).happen happened
  · rintro review other state ⟨reviewed, descends⟩ foundOther spec call invoked
    rw [sameGiver] at descends
    by_cases same : id = other
    · subst same
      have isNext : next = state := by simpa [inside] using foundOther
      subst isNext
      have before := sound.idle review id life ⟨reviewed, descends⟩ found spec call
      rcases Life.happen_cases happened with ⟨segment, rfl, rfl⟩ | ⟨-, becomes⟩
      · rcases drove_or_settles segment life with drove | settles
        · rw [drove.log] at invoked
          rcases mem_append.mp invoked with old | new
          · exact before old
          · obtain ⟨offered, verdict, -⟩ :=
              admitted_drive segment life.run life.world _ new spec call _ rfl
            have autonomy : segment.autonomy = office.postureOf life.run := by
              simp only [builds, drove.admitted, isSome_none, Bool.false_or,
                Bool.and_eq_true, decide_eq_true_eq] at built
              exact built.2
            by_contra notIdle
            have acts : spec.acts := by simpa using notIdle
            rcases withheld review id segment rfl ⟨reviewed, descends⟩ with inPlan | barred
            · -- The run is on the order under review, so its posture is plan-only.
              have order : life.run.workOrderId = office.orderOf review := by
                rw [← descends.inherit sound.inherits, orderOf, origin, found]
                rfl
              have planOnly : segment.autonomy = .planOnly := by
                rw [autonomy, postureOf, order, show _ = _ from inPlan]
                rfl
              have allowed : (decideCall segment.agent spec segment.autonomy).decision = .allow :=
                verdict.symm
              rw [planOnly, decideCall_planOnly acts] at allowed
              cases allowed
            · exact barred spec offered acts verdict.symm
        · rw [settles.log] at invoked
          exact before invoked
      · rw [(settles_becomes becomes).log] at invoked
        exact before invoked
    · have foundOld : office.lives[other]? = some state := by simpa [same] using foundOther
      exact sound.idle review other state ⟨reviewed, descends⟩ foundOld spec call invoked

/-- **Whatever happens in the org keeps it sound.** -/
theorem Sound.happens {platform : Platform} {office next : Office σ} {event : OfficeEvent σ}
    (sound : office.Sound) (happens : Happens platform office event next)
    (withheld : Withheld ⟨event, office⟩) : next.Sound := by
  cases event with
  | life id event =>
    obtain ⟨life, found, rest⟩ := bind_eq_some_iff.mp happens
    split at rest
    · rename_i built
      obtain ⟨after, happened, isNext⟩ := bind_eq_some_iff.mp rest
      cases isNext
      exact sound.life found built happened withheld
    · cases rest
  | handOff id toolCallId tool args fresh =>
    obtain ⟨ctx, context, isNext⟩ := bind_eq_some_iff.mp happens
    cases isNext
    obtain ⟨added, grown, -, isFresh⟩ :=
      fresh_of_handsOver fresh context (handsOver_handler tool ctx args office.world)
    exact sound.extend grown isFresh (append_nil _).symm (by simp)
  | convene id toolCallId gate submission tasks seats fresh =>
    obtain ⟨ctx, context, rest⟩ := bind_eq_some_iff.mp happens
    obtain ⟨order, ordered, rest⟩ := bind_eq_some_iff.mp rest
    obtain ⟨row, -, rest⟩ := bind_eq_some_iff.mp rest
    obtain ⟨⟨world, signal⟩, convened, isNext⟩ := bind_eq_some_iff.mp rest
    cases isNext
    obtain ⟨added, grown, length, isFresh⟩ :=
      fresh_of_handsOver fresh context (handsOver_convene ordered convened)
    refine sound.extend grown isFresh rfl fun review member => ?_
    have range := mem_range'_1.mp member
    rw [show _ = _ from grown, length_append]
    exact ⟨range.1, Nat.lt_of_lt_of_le range.2 (by omega)⟩
  | start run fresh =>
    simp only [Happens, happen] at happens
    split at happens
    · cases happens
    · rename_i own
      cases happens
      simp only [Bool.or_eq_true, not_or, Bool.not_eq_true, isSome_eq_false_iff,
        isNone_iff_eq_none] at own
      refine sound.extend rfl ?_ (append_nil _).symm (by simp)
      intro life member
      obtain rfl := mem_singleton.mp member
      refine ⟨rfl, own.2, fun giver given => ?_⟩
      simp [RunOrigin.giver, AgentRun.origin, own.1] at given
  | setMode order mode =>
    cases happens
    exact ⟨sound.falls, sound.inherits, sound.inside, sound.gated, sound.idle⟩
  | setPosture posture =>
    cases happens
    exact ⟨sound.falls, sound.inherits, sound.inside, sound.gated, sound.idle⟩
  | edit agents =>
    cases happens
    exact ⟨sound.falls, sound.inherits, sound.inside, sound.gated, sound.idle⟩

/-- **Reviewers do not act** in any state of a history in which their drives are withheld from
acting, whatever is seated and whatever the models do. -/
theorem reviewersIdle_of_withheld (platform : Platform)
    (history : History (OfficeEvent σ) (Office σ)) (fromOpening : FromOpening platform history)
    (withheld : ∀ moment ∈ history.past, Withheld moment) :
    ∀ office ∈ history.states, office.ReviewersIdle := by
  obtain ⟨opening, noLives, noReviews, steps⟩ := fromOpening.start
  have bare : ∀ id, opening.giver id = none := by
    simp [giver, origin, noLives]
  have start : opening.Sound := by
    refine ⟨fun id giver given => ?_, fun id giver given => ?_, by simp [noReviews],
      by simp [noLives], ?_⟩
    · rw [bare] at given
      cases given
    · rw [bare] at given
      cases given
    · rintro review id life ⟨reviewed, -⟩
      rw [noReviews] at reviewed
      cases reviewed
  have sound := steps.invariant (P := Sound) Withheld
    (fun _ _ _ happens allowed sound => sound.happens happens allowed) withheld
    (by simpa [History.states] using start)
  exact fun office member => (sound office member).reviewersIdle

end Office

/-! ## A reviewer who is an operator -/

/-- A model that edits a record and is done. The world counts its turns. -/
def editingHost : Host Nat where
  continueCheck turn := (true, turn)
  steer turn := ([], turn)
  transcriptBudget := 0
  transcriptChars _ := 0
  complete _ turn := (none, turn)
  foldOldTurns _ messages := messages
  stream _ turn :=
    match turn with
    | 0 => (.ok { toolCalls := [⟨"c", "update_record", []⟩] }, 1)
    | turn => (.ok { content := "Done." }, turn)
  keyRefusal _ _ := none
  handler _ _ turn := (.ok (.output .null), turn)
  toolMessage _ _ := .null

def engineer : Agent where
  id := 1
  name := "principal-engineer"
  grants := { tools := ["update_record"], recordsWrite := true }

def editingSegment (autonomy : Posture) : Segment Nat where
  host := editingHost
  agent := engineer
  specs := [{ name := "update_record", category := .write }]
  autonomy
  maxIterations := 4
  opening := []
  refusal := none
  unfinishedWorkNudge _ := none

def launchOffice (mode : WorkOrderMode) : Office Nat where
  posture := .highTouch
  orders := [{ title := "Launch", mode }]
  agents := [clerk, engineer]

def launchEvents (gate : Gate) (autonomy : Posture) : List (OfficeEvent Nat) :=
  [.start { agentId := 0, trigger := .workOrder, workOrderId := some 0 } 0,
    .convene 0 "c" gate "It is ready." "" [{ agent := "principal-engineer" }] 0,
    .life 1 .claim, .life 1 (.execute (editingSegment autonomy))]

theorem fromOpening_launch {mode : WorkOrderMode} {events : List (OfficeEvent Nat)}
    {history : History (OfficeEvent Nat) (Office Nat)}
    (played : History.play (Office.happen plainPlatform) { now := launchOffice mode } events =
      some history) : Office.FromOpening plainPlatform history :=
  ⟨launchOffice mode, rfl, rfl, History.steps_of_play played⟩

/-- **A plan under review** is only read. -/
theorem reviewersIdle_launchPlan :
    ∃ history, History.play (Office.happen plainPlatform) { now := launchOffice .plan }
      (launchEvents .plan .planOnly) = some history ∧ history.now.reviews = [1] ∧
      ∀ office ∈ history.states, office.ReviewersIdle := by
  refine History.exists_play rfl fun history played => ?_
  have isLast := some.inj played
  refine ⟨by subst isLast; rfl, Office.reviewersIdle_of_withheld plainPlatform
    history (fromOpening_launch played) ?_⟩
  subst isLast
  intro moment member review id segment isDrive under
  refine .inr fun spec offered acts allowed => ?_
  have planOnly : segment.autonomy = .planOnly := by
    rcases mem_cons.mp member with rfl | member
    · cases isDrive
    · rcases mem_cons.mp member with rfl | member
      · cases isDrive
      · rcases mem_cons.mp member with rfl | member
        · cases isDrive
        · obtain rfl := mem_singleton.mp member
          cases isDrive
          rfl
  rw [planOnly, decideCall_planOnly acts] at allowed
  cases allowed

/-- **A delivery under review** is edited by its reviewer, and nobody is asked. -/
theorem not_reviewersIdle_launchDelivery :
    ∃ history, History.play (Office.happen plainPlatform) { now := launchOffice .manual }
      (launchEvents .delivery .highTouch) = some history ∧
      Office.FromOpening plainPlatform history ∧ ¬ history.now.ReviewersIdle := by
  refine History.exists_play rfl fun history played => ?_
  have isLast := some.inj played
  refine ⟨fromOpening_launch played, fun idle => ?_⟩
  subst isLast
  obtain ⟨approval, member, -⟩ := idle 1 1 _ ⟨mem_singleton.mpr rfl, .self⟩ rfl
    { name := "update_record", category := .write } ⟨"c", "update_record", []⟩ .allow
    (mem_of_getElem? (i := 2) rfl) rfl
  cases member

end RedArchKM.Agents
