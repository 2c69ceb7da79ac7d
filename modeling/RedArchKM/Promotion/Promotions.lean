import RedArchKM.Lib.Trace

/-!
# Promotions and rollbacks side by side

A promotion applies the bundle of an approved release to a target and keeps a snapshot of what was
there; a rollback applies this snapshot. Each request locks a row before it checks it, the release
or the promotion, and the row that it inserts records what it has applied.

On a local target all of this is one transaction. For a remote one the session is closed, and with
it the lock given up, before the bundle is pushed; a rollback locks the promotion again when the
push is back, which is after its effect. And a rollback that comes in through the API has loaded
the promotion before it waits for the lock, so what it checks then is what it has loaded.

Runs in which no request gets past its check while another one for the same is away, no promotion
changes between load and lock, and nothing fails after a push was applied, apply and record each
request once (`appliedOnce_of_orderly`).
-/

namespace RedArchKM.Promotion.Promotions

open Lib List Function Option

/-! ## Requests -/

inductive ReleaseStatus where
  | draft | inReview | approved | rejected | archived
deriving DecidableEq

inductive PromotionTargetKind where
  | localOrg | remoteInstance

structure PromotionTarget where
  kind : PromotionTargetKind
  enabled : Bool := true
  targetOrgId : Option Nat := none
  hasKey : Bool := true

/-- A promotion is named by the request that has made it. -/
inductive Request where
  | promote (releaseId targetId : Nat)
  | rollback (promotion : Nat)
deriving DecidableEq

/-- What the requests meet. -/
structure Setting where
  orgId : Nat
  release : Nat → Option ReleaseStatus
  target : Nat → Option PromotionTarget
  request : Nat → Request

/-- What is read off the release and its target, or off the promotion, under the lock. -/
structure Job where
  releaseId : Nat
  targetId : Nat
  kind : PromotionTargetKind

inductive PromotionStatus where
  | promoted | rolledBack
deriving DecidableEq

/-- `ReleasePromotion`. The snapshot of a target is what has been applied to it. -/
structure ReleasePromotion where
  job : Job
  status : PromotionStatus := .promoted
  preState : Option (List Nat) := none
  rollbackSource : Option Nat := none

inductive Refusal where
  | releaseNotFound
  | notApproved
  | targetNotFound
  | targetDisabled
  | sourceOrg
  | missingOrg
  | missingKey
  | promotionNotFound
  | notPromoted
  | noSnapshot
  | noLongerRollbackable
  | raised (error : String)

namespace Setting

variable (setting : Setting)

/-- The checks of `promote_release`, under the lock of the release. -/
def promoteJob (releaseId targetId : Nat) : Except Refusal Job :=
  match setting.release releaseId with
  | none => .error .releaseNotFound
  | some status =>
    if status ≠ .approved then .error .notApproved
    else
      match setting.target targetId with
      | none => .error .targetNotFound
      | some target =>
        if !target.enabled then .error .targetDisabled
        else
          match target.kind, target.targetOrgId with
          | .localOrg, none => .error .missingOrg
          | .localOrg, some orgId =>
            if orgId = setting.orgId then .error .sourceOrg
            else .ok ⟨releaseId, targetId, .localOrg⟩
          | .remoteInstance, _ =>
            if target.hasKey then .ok ⟨releaseId, targetId, .remoteInstance⟩
            else .error .missingKey

end Setting

/-- The checks of `rollback_promotion`, of the promotion as the session has it. -/
def rollbackJob : Option ReleasePromotion → Except Refusal Job
  | none => .error .promotionNotFound
  | some promotion =>
    if promotion.status ≠ .promoted then .error .notPromoted
    else if promotion.preState.isNone then .error .noSnapshot
    else .ok promotion.job

/-! ## The system -/

inductive LockedRow where
  | release (id : Nat)
  | promotion (id : Nat)
deriving DecidableEq

def Request.row : Request → LockedRow
  | .promote releaseId _ => .release releaseId
  | .rollback promotion => .promotion promotion

inductive Phase where
  | waiting
  /-- A rollback has loaded the promotion in its session. -/
  | loaded (promotion : ReleasePromotion)
  /-- The row is locked, and the checks are passed. -/
  | locked (job : Job)
  /-- The transaction has applied the bundle to a local target, with a snapshot of it. -/
  | applied (job : Job) (preState : Option (List Nat))
  /-- The session is closed, and the bundle on its way. -/
  | pushing (job : Job)
  /-- The receiver has applied the bundle. -/
  | pushed (job : Job) (preState : Option (List Nat))
  /-- The push is back, and the promotion locked again. -/
  | relocked (job : Job)
  | committed
  | failed (refusal : Refusal)

namespace Phase

def isDone : Phase → Bool
  | .committed | .failed _ => true
  | _ => false

/-- The request is past its check and not at its end. -/
def inProgress : Phase → Bool
  | .locked _ | .applied _ _ | .pushing _ | .pushed _ _ | .relocked _ => true
  | _ => false

def holds : Phase → Bool
  | .locked _ | .applied _ _ | .relocked _ => true
  | _ => false

/-- The request has given up its lock for a push. -/
def isAway : Phase → Bool
  | .pushing _ | .pushed _ _ => true
  | _ => false

/-- The receiver has applied the push of the request, and nothing records it. -/
def isUnrecorded : Phase → Bool
  | .pushed _ _ | .relocked _ => true
  | _ => false

theorem inProgress_eq (phase : Phase) : phase.inProgress = (phase.holds || phase.isAway) := by
  cases phase <;> rfl

end Phase

/-- What has been applied to each target, the committed promotions, and the requests. -/
structure System where
  history : Nat → List Nat := fun _ => []
  promotions : Nat → Option ReleasePromotion := fun _ => none
  holder : LockedRow → Option Nat := fun _ => none
  phase : Nat → Phase := fun _ => .waiting

inductive Act where
  | load
  /-- `_lock_release` or `_lock_promotion`, with the checks after it. -/
  | lock
  /-- The executor, on a local target. The snapshot may be missing. -/
  | apply (captured : Bool)
  /-- `_push_remote`, up to the network. -/
  | push
  /-- The receiver, which captures a snapshot or not. -/
  | receive (captured : Bool)
  | relock
  | commit
  | fail (error : String)

structure Event where
  request : Nat
  act : Act

namespace System

variable (state : System)

def moved (index : Nat) (phase : Phase) : System :=
  { state with phase := update state.phase index phase }

def withHolder (row : LockedRow) (holder : Option Nat) : System :=
  { state with holder := update state.holder row holder }

/-- The bundle of a request is applied to a target. -/
def applying (targetId index : Nat) : System :=
  { state with
    history := update state.history targetId (state.history targetId ++ [index]) }

def snapshot (job : Job) (captured : Bool) : Option (List Nat) :=
  if captured then some (state.history job.targetId) else none

def recording (index : Nat) (promotion : ReleasePromotion) : System :=
  { state with promotions := update state.promotions index (some promotion) }

def recordingRollback (index source : Nat) (job : Job) : System :=
  let marked : System :=
    { state with
      promotions := update state.promotions source
        ((state.promotions source).map fun promotion => { promotion with status := .rolledBack }) }
  marked.recording index { job := job, rollbackSource := some source }

def checked (index : Nat) (row : LockedRow) (check : Except Refusal Job) : Option System :=
  match state.holder row with
  | some _ => none
  | none =>
    match check with
    | .error refusal => some (state.moved index (.failed refusal))
    | .ok job => some ((state.withHolder row (some index)).moved index (.locked job))

def committing (index : Nat) (request : Request) (job : Job) (preState : Option (List Nat)) :
    System :=
  match request with
  | .promote _ _ => state.recording index { job := job, preState := preState }
  | .rollback source => state.recordingRollback index source job

/-- The lock of a request is given up, if it has one. -/
def released (index : Nat) (row : LockedRow) : System :=
  if state.holder row = some index then state.withHolder row none else state

section Fields

variable {state : System} {index targetId : Nat} {phase : Phase} {row : LockedRow}
  {holder : Option Nat} {request : Request} {job : Job} {preState : Option (List Nat)}

@[simp] theorem history_moved : (state.moved index phase).history = state.history := rfl
@[simp] theorem promotions_moved : (state.moved index phase).promotions = state.promotions := rfl
@[simp] theorem holder_moved : (state.moved index phase).holder = state.holder := rfl
@[simp] theorem phase_moved :
    (state.moved index phase).phase = update state.phase index phase := rfl

@[simp] theorem history_withHolder : (state.withHolder row holder).history = state.history := rfl
@[simp] theorem promotions_withHolder :
    (state.withHolder row holder).promotions = state.promotions := rfl
@[simp] theorem holder_withHolder :
    (state.withHolder row holder).holder = update state.holder row holder := rfl
@[simp] theorem phase_withHolder : (state.withHolder row holder).phase = state.phase := rfl

@[simp] theorem history_applying : (state.applying targetId index).history =
    update state.history targetId (state.history targetId ++ [index]) := rfl
@[simp] theorem holder_applying : (state.applying targetId index).holder = state.holder := rfl
@[simp] theorem phase_applying : (state.applying targetId index).phase = state.phase := rfl

@[simp] theorem history_committing :
    (state.committing index request job preState).history = state.history := by
  cases request <;> rfl

@[simp] theorem holder_committing :
    (state.committing index request job preState).holder = state.holder := by
  cases request <;> rfl

@[simp] theorem phase_committing :
    (state.committing index request job preState).phase = state.phase := by
  cases request <;> rfl

end Fields

end System

/-- What happens next to a request; nothing while another one holds its row. -/
def step (setting : Setting) (state : System) (event : Event) : Option System :=
  let index := event.request
  let request := setting.request index
  match state.phase index, event.act with
  | .waiting, .load =>
    match request with
    | .promote _ _ => none
    | .rollback source =>
      match state.promotions source with
      | none => some (state.moved index (.failed .promotionNotFound))
      | some promotion => some (state.moved index (.loaded promotion))
  | .waiting, .lock =>
    match request with
    | .promote releaseId targetId =>
      state.checked index request.row (setting.promoteJob releaseId targetId)
    | .rollback source => state.checked index request.row (rollbackJob (state.promotions source))
  -- the session keeps the row that it has loaded, though the lock reads it again
  | .loaded promotion, .lock => state.checked index request.row (rollbackJob (some promotion))
  | .locked job, .apply captured =>
    match job.kind with
    | .localOrg => some (state.moved index (.applied job (state.snapshot job captured)))
    | .remoteInstance => none
  | .locked job, .push =>
    match job.kind with
    | .localOrg => none
    | .remoteInstance => some ((state.released index request.row).moved index (.pushing job))
  | .pushing job, .receive captured =>
    some ((state.applying job.targetId index).moved index
      (.pushed job (state.snapshot job captured)))
  | .pushed job _, .relock =>
    match request with
    | .promote _ _ => none
    | .rollback source =>
      match state.holder request.row with
      | some _ => none
      | none =>
        if (state.promotions source).any fun promotion => promotion.status = .promoted then
          some ((state.withHolder request.row (some index)).moved index (.relocked job))
        else some (state.moved index (.failed .noLongerRollbackable))
  | .applied job preState, .commit =>
    some ((((state.applying job.targetId index).committing index request job preState).released
      index request.row).moved index .committed)
  | .pushed job preState, .commit =>
    match request with
    | .promote _ _ => some ((state.committing index request job preState).moved index .committed)
    | .rollback _ => none
  | .relocked job, .commit =>
    some (((state.committing index request job none).released index request.row).moved index
      .committed)
  | phase, .fail error =>
    if phase.isDone then none
    else some ((state.released index request.row).moved index (.failed (.raised error)))
  | _, _ => none

/-! ## Applied and recorded once -/

/-- Where the bundle of a request has been applied by now. -/
def System.effect (state : System) (index : Nat) : Option Nat :=
  match state.phase index with
  | .pushed job _ | .relocked job => some job.targetId
  | .committed => (state.promotions index).map fun promotion => promotion.job.targetId
  | _ => none

/-- Every request that has ended is recorded where its bundle was applied; the snapshot of a
promotion is applied at most once; two promotions of a release to a target are never in progress
together, and the snapshot of one holds all that was there before, but for what other requests have
applied in the meantime. -/
structure AppliedOnce (setting : Setting) (state : System) : Prop where
  recorded : ∀ index, (state.phase index).isDone = true → ∀ targetId,
    (state.history targetId).count index =
      if (state.promotions index).any (fun promotion => promotion.job.targetId = targetId) then 1
      else 0
  once : ∀ index targetId, (state.history targetId).count index ≤ 1
  onceEach : ∀ promotion index other targetId targetId',
    setting.request index = .rollback promotion → setting.request other = .rollback promotion →
      index ∈ state.history targetId → other ∈ state.history targetId' →
        index = other ∧ targetId = targetId'
  apart : ∀ releaseId targetId index other,
    setting.request index = .promote releaseId targetId →
      setting.request other = .promote releaseId targetId →
        (state.phase index).inProgress = true → (state.phase other).inProgress = true →
          index = other
  sees : ∀ index promotion preState, state.promotions index = some promotion →
    promotion.preState = some preState → ∃ between after,
      state.history promotion.job.targetId = preState ++ between ++ index :: after ∧
        ∀ other ∈ between, setting.request other ≠ setting.request index

/-- A request takes its lock while no other one for the same is away, and when the promotion is as
it was loaded; and nothing fails once a push is applied. -/
def Orderly (setting : Setting) (state : System) (event : Event) : Prop :=
  match event.act with
  | .lock =>
    (∀ other, setting.request other = setting.request event.request →
      (state.phase other).isAway = false) ∧
    ∀ promotion, state.phase event.request = .loaded promotion →
      ∀ source, setting.request event.request = .rollback source →
        (state.promotions source).map ReleasePromotion.status = some promotion.status
  | .fail _ => (state.phase event.request).isUnrecorded = false
  | _ => True

/-! ## What holds of every orderly run -/

/-- The request has begun and has not failed. -/
def Phase.engaged (phase : Phase) : Prop := phase.inProgress = true ∨ phase = .committed

/-- Who holds a row is in a phase that does, at most one request for the same is past its check,
and the status of a promotion tells whether a rollback of it has committed. -/
structure Inv (setting : Setting) (state : System) : Prop where
  holder : ∀ row index, state.holder row = some index ↔
    (setting.request index).row = row ∧ (state.phase index).holds = true
  counts : ∀ index targetId, (state.history targetId).count index =
    if state.effect index = some targetId then 1 else 0
  rows : ∀ index, (state.promotions index).isSome = true ↔ state.phase index = .committed
  apart : ∀ index other, setting.request index = setting.request other →
    (state.phase index).inProgress = true → (state.phase other).inProgress = true → index = other
  single : ∀ source index other, setting.request index = .rollback source →
    setting.request other = .rollback source → (state.phase index).engaged →
      (state.phase other).engaged → index = other
  standing : ∀ source index, setting.request index = .rollback source →
    (state.phase index).inProgress = true →
      (state.promotions source).map ReleasePromotion.status = some .promoted
  marked : ∀ source index, setting.request index = .rollback source →
    state.phase index = .committed →
      (state.promotions source).map ReleasePromotion.status = some .rolledBack
  sees : ∀ index promotion preState, state.promotions index = some promotion →
    promotion.preState = some preState → ∃ between after,
      state.history promotion.job.targetId = preState ++ between ++ index :: after ∧
        ∀ other ∈ between, setting.request other ≠ setting.request index
  reads : ∀ index job preState, state.phase index = .applied job (some preState) →
    ∃ between, state.history job.targetId = preState ++ between ∧
      ∀ other ∈ between, setting.request other ≠ setting.request index
  received : ∀ index job preState, state.phase index = .pushed job (some preState) →
    ∃ after, state.history job.targetId = preState ++ index :: after

/-- An orderly step. A request ends only before its bundle has an effect. -/
inductive Moves (setting : Setting) (state : System) (index : Nat) : System → Prop
  | quiet (phase : Phase) (before : (state.phase index).holds = false)
      (unseen : (state.phase index).isUnrecorded = false)
      (running : (state.phase index).isDone = false)
      (after : phase.inProgress = false ∧ phase ≠ .committed) :
      Moves setting state index (state.moved index phase)
  | lock (job : Job) (before : (state.phase index).inProgress = false)
      (running : (state.phase index).isDone = false)
      (free : state.holder (setting.request index).row = none)
      (alone : ∀ other, setting.request other = setting.request index →
        (state.phase other).isAway = false)
      (stands : ∀ source, setting.request index = .rollback source →
        (state.promotions source).map ReleasePromotion.status = some .promoted) :
      Moves setting state index
        ((state.withHolder (setting.request index).row (some index)).moved index (.locked job))
  | apply (job : Job) (captured : Bool) (before : state.phase index = .locked job) :
      Moves setting state index
        (state.moved index (.applied job (state.snapshot job captured)))
  | push (job : Job) (before : state.phase index = .locked job) :
      Moves setting state index
        ((state.withHolder (setting.request index).row none).moved index (.pushing job))
  | drop (refusal : Refusal) (before : (state.phase index).holds = true)
      (unseen : (state.phase index).isUnrecorded = false) :
      Moves setting state index
        ((state.withHolder (setting.request index).row none).moved index (.failed refusal))
  | receive (job : Job) (captured : Bool) (before : state.phase index = .pushing job) :
      Moves setting state index
        ((state.applying job.targetId index).moved index
          (.pushed job (state.snapshot job captured)))
  | relock (job : Job) (preState : Option (List Nat)) (before : state.phase index = .pushed job preState)
      (free : state.holder (setting.request index).row = none) :
      Moves setting state index
        ((state.withHolder (setting.request index).row (some index)).moved index (.relocked job))
  | commitLocal (job : Job) (preState : Option (List Nat))
      (before : state.phase index = .applied job preState) :
      Moves setting state index
        ((((state.applying job.targetId index).committing index (setting.request index) job
          preState).withHolder (setting.request index).row none).moved index .committed)
  | commitPromotion (job : Job) (preState : Option (List Nat)) (releaseId targetId : Nat)
      (isPromotion : setting.request index = .promote releaseId targetId)
      (before : state.phase index = .pushed job preState) :
      Moves setting state index
        ((state.committing index (setting.request index) job preState).moved index .committed)
  | commitRollback (job : Job) (before : state.phase index = .relocked job) :
      Moves setting state index
        (((state.committing index (setting.request index) job none).withHolder
          (setting.request index).row none).moved index .committed)

section Steps

variable {setting : Setting} {state next : System}

variable {index : Nat}

theorem released_of_holds (inv : Inv setting state) (holds : (state.phase index).holds = true) :
    state.released index (setting.request index).row =
      state.withHolder (setting.request index).row none :=
  if_pos ((inv.holder _ index).mpr ⟨rfl, holds⟩)

theorem released_of_not_holds (inv : Inv setting state) (free : (state.phase index).holds = false) :
    state.released index (setting.request index).row = state :=
  if_neg fun held => by simp [((inv.holder _ index).mp held).2] at free

theorem rollbackJob_ok {promotion : Option ReleasePromotion} {job : Job}
    (passed : rollbackJob promotion = .ok job) :
    promotion.map ReleasePromotion.status = some .promoted := by
  cases promotion with
  | none => cases passed
  | some promotion =>
    unfold rollbackJob at passed
    dsimp only at passed
    split at passed
    · cases passed
    · rename_i isPromoted
      rw [map_some, not_not.mp isPromoted]

theorem moves_of_checked {check : Except Refusal Job}
    (before : state.phase index = .waiting ∨ ∃ promotion, state.phase index = .loaded promotion)
    (alone : ∀ other, setting.request other = setting.request index →
      (state.phase other).isAway = false)
    (stands : ∀ job, check = .ok job → ∀ source, setting.request index = .rollback source →
      (state.promotions source).map ReleasePromotion.status = some .promoted)
    (stepped : state.checked index (setting.request index).row check = some next) :
    Moves setting state index next := by
  have idle : (state.phase index).inProgress = false ∧ (state.phase index).isDone = false ∧
      (state.phase index).holds = false ∧ (state.phase index).isUnrecorded = false := by
    rcases before with waits | ⟨promotion, loads⟩
    · rw [waits]
      exact ⟨rfl, rfl, rfl, rfl⟩
    · rw [loads]
      exact ⟨rfl, rfl, rfl, rfl⟩
  obtain ⟨notBegun, running, holds, unseen⟩ := idle
  unfold System.checked at stepped
  cases free : state.holder (setting.request index).row with
  | some holder =>
    rw [free] at stepped
    cases stepped
  | none =>
    rw [free] at stepped
    cases check with
    | error refusal =>
      cases stepped
      exact .quiet (.failed refusal) holds unseen running ⟨rfl, nofun⟩
    | ok job =>
      cases stepped
      exact .lock job notBegun running free alone (stands job rfl)

theorem moves_of_fail (inv : Inv setting state) (refusal : Refusal)
    (running : (state.phase index).isDone = false)
    (unseen : (state.phase index).isUnrecorded = false) :
    Moves setting state index
      ((state.released index (setting.request index).row).moved index (.failed refusal)) := by
  cases holds : (state.phase index).holds with
  | true =>
    rw [released_of_holds inv holds]
    exact .drop refusal holds unseen
  | false =>
    rw [released_of_not_holds inv holds]
    exact .quiet (.failed refusal) holds unseen running ⟨rfl, nofun⟩

theorem step_fail {error : String} :
    step setting state ⟨index, .fail error⟩ =
      if (state.phase index).isDone then none
      else some ((state.released index (setting.request index).row).moved index
        (.failed (.raised error))) := by
  unfold step
  dsimp only
  cases state.phase index <;> rfl

/-- **What an orderly step can do.** -/
theorem moves_of_step (inv : Inv setting state) {event : Event}
    (orderly : Orderly setting state event) (stepped : step setting state event = some next) :
    Moves setting state event.request next := by
  obtain ⟨index, act⟩ := event
  cases act with
  | fail error =>
    rw [step_fail] at stepped
    cases running : (state.phase index).isDone with
    | true =>
      rw [running] at stepped
      cases stepped
    | false =>
      rw [running] at stepped
      cases stepped
      exact moves_of_fail inv (.raised error) running orderly
  | load =>
    cases isPhase : state.phase index with
    | waiting =>
      simp only [step, isPhase] at stepped
      have quiet : ∀ phase : Phase, phase.inProgress = false ∧ phase ≠ .committed →
          Moves setting state index (state.moved index phase) := by
        intro phase after
        refine .quiet phase ?_ ?_ ?_ after <;> rw [isPhase] <;> rfl
      cases isRequest : setting.request index with
      | promote releaseId targetId => simp [isRequest] at stepped
      | rollback source =>
        rw [isRequest] at stepped
        dsimp only at stepped
        cases found : state.promotions source with
        | none =>
          rw [found] at stepped
          cases stepped
          exact quiet _ ⟨rfl, nofun⟩
        | some promotion =>
          rw [found] at stepped
          cases stepped
          exact quiet _ ⟨rfl, nofun⟩
    | _ => simp [step, isPhase] at stepped
  | lock =>
    obtain ⟨alone, unchanged⟩ := orderly
    cases isPhase : state.phase index with
    | waiting =>
      simp only [step, isPhase] at stepped
      cases isRequest : setting.request index with
      | promote releaseId targetId =>
        have checks : state.checked index (setting.request index).row
            (setting.promoteJob releaseId targetId) = some next := by
          rw [isRequest] at stepped ⊢
          exact stepped
        refine moves_of_checked (.inl isPhase) alone (fun job _ source isRollback => ?_) checks
        rw [isRequest] at isRollback
        cases isRollback
      | rollback source =>
        have checks : state.checked index (setting.request index).row
            (rollbackJob (state.promotions source)) = some next := by
          rw [isRequest] at stepped ⊢
          exact stepped
        refine moves_of_checked (.inl isPhase) alone (fun job passed other isRollback => ?_) checks
        rw [isRequest] at isRollback
        cases isRollback
        exact rollbackJob_ok passed
    | loaded promotion =>
      simp only [step, isPhase] at stepped
      refine moves_of_checked (.inr ⟨promotion, isPhase⟩) alone
        (fun job passed source isRollback => ?_) stepped
      exact (unchanged promotion isPhase source isRollback).trans (rollbackJob_ok passed)
    | _ => simp [step, isPhase] at stepped
  | apply captured =>
    cases isPhase : state.phase index with
    | locked job =>
      simp only [step, isPhase] at stepped
      split at stepped
      · cases stepped
        exact .apply job captured isPhase
      · cases stepped
    | _ => simp [step, isPhase] at stepped
  | push =>
    cases isPhase : state.phase index with
    | locked job =>
      simp only [step, isPhase] at stepped
      split at stepped
      · cases stepped
      · cases stepped
        rw [released_of_holds inv (by rw [isPhase]; rfl)]
        exact .push job isPhase
    | _ => simp [step, isPhase] at stepped
  | receive captured =>
    cases isPhase : state.phase index with
    | pushing job =>
      simp only [step, isPhase] at stepped
      cases stepped
      exact .receive job captured isPhase
    | _ => simp [step, isPhase] at stepped
  | relock =>
    cases isPhase : state.phase index with
    | pushed job preState =>
      simp only [step, isPhase] at stepped
      cases isRequest : setting.request index with
      | promote releaseId targetId => simp [isRequest] at stepped
      | rollback source =>
        rw [isRequest] at stepped
        dsimp only at stepped
        rw [← isRequest] at stepped
        cases free : state.holder (setting.request index).row with
        | some holder =>
          rw [free] at stepped
          cases stepped
        | none =>
          rw [free] at stepped
          dsimp only at stepped
          have stands := inv.standing source index isRequest (by rw [isPhase]; rfl)
          obtain ⟨promotion, found, isPromoted⟩ := map_eq_some_iff.mp stands
          rw [found] at stepped
          rw [any_some, isPromoted, if_pos (by rfl)] at stepped
          cases stepped
          exact .relock job preState isPhase free
    | _ => simp [step, isPhase] at stepped
  | commit =>
    cases isPhase : state.phase index with
    | applied job preState =>
      simp only [step, isPhase] at stepped
      cases stepped
      have held := (inv.holder _ index).mpr ⟨rfl, (by rw [isPhase]; rfl)⟩
      rw [System.released, System.holder_committing, System.holder_applying, if_pos held]
      exact .commitLocal job preState isPhase
    | pushed job preState =>
      simp only [step, isPhase] at stepped
      cases isRequest : setting.request index with
      | promote releaseId targetId =>
        rw [isRequest] at stepped
        dsimp only at stepped
        rw [← isRequest] at stepped
        cases stepped
        exact .commitPromotion job preState releaseId targetId isRequest isPhase
      | rollback source => simp [isRequest] at stepped
    | relocked job =>
      simp only [step, isPhase] at stepped
      cases stepped
      have held := (inv.holder _ index).mpr ⟨rfl, (by rw [isPhase]; rfl)⟩
      rw [System.released, System.holder_committing, if_pos held]
      exact .commitRollback job isPhase
    | _ => simp [step, isPhase] at stepped

end Steps

/-! ## Orderly steps keep the invariant -/

section Committing

variable {state : System} {index : Nat} {request : Request} {job : Job}
  {preState : Option (List Nat)}

theorem committing_self (state : System) (index : Nat) (request : Request) (job : Job)
    (preState : Option (List Nat)) : ∃ promotion,
    (state.committing index request job preState).promotions index = some promotion ∧
      promotion.job = job ∧ ∀ kept, promotion.preState = some kept → preState = some kept := by
  cases request with
  | promote releaseId targetId =>
    exact ⟨_, update_self .., rfl, fun kept isKept => isKept⟩
  | rollback source => exact ⟨_, update_self .., rfl, nofun⟩

theorem committing_other {other : Nat} (notSelf : other ≠ index) :
    (state.committing index request job preState).promotions other =
      if request = .rollback other then
        (state.promotions other).map fun promotion => { promotion with status := .rolledBack }
      else state.promotions other := by
  cases request with
  | promote releaseId targetId =>
    exact update_of_ne notSelf ..
  | rollback source =>
    refine (update_of_ne notSelf ..).trans ?_
    by_cases same : other = source
    · subst same
      rw [if_pos rfl]
      exact update_self ..
    · rw [if_neg fun isSource => same (Request.rollback.inj isSource).symm]
      exact update_of_ne same ..

theorem committing_isSome {other : Nat} (notSelf : other ≠ index) :
    ((state.committing index request job preState).promotions other).isSome =
      (state.promotions other).isSome := by
  rw [committing_other notSelf]
  split
  · exact isSome_map
  · rfl

theorem committing_target {other : Nat} (notSelf : other ≠ index) :
    ((state.committing index request job preState).promotions other).map
        (fun promotion => promotion.job.targetId) =
      (state.promotions other).map fun promotion => promotion.job.targetId := by
  rw [committing_other notSelf]
  split
  · rw [Option.map_map]
    rfl
  · rfl

end Committing

namespace Inv

variable {setting : Setting} {state next : System}

section

variable (inv : Inv setting state) (index : Nat) (phase : Phase)
    (phases : next.phase = update state.phase index phase)

include inv index phase phases

theorem holder_same (holders : next.holder = state.holder)
    (same : phase.holds = (state.phase index).holds) (row : LockedRow) (other : Nat) :
    next.holder row = some other ↔
      (setting.request other).row = row ∧ (next.phase other).holds = true := by
  rw [holders, inv.holder row other, phases]
  by_cases isSelf : other = index
  · rw [isSelf, update_self, same]
  · rw [update_of_ne isSelf]

theorem holder_taken
    (holders : next.holder = update state.holder (setting.request index).row (some index))
    (free : state.holder (setting.request index).row = none) (holds : phase.holds = true)
    (row : LockedRow) (other : Nat) : next.holder row = some other ↔
      (setting.request other).row = row ∧ (next.phase other).holds = true := by
  rw [holders, phases]
  by_cases isSelf : other = index
  · subst isSelf
    rw [update_self]
    by_cases isRow : row = (setting.request other).row
    · rw [isRow, update_self]
      exact iff_of_true rfl ⟨rfl, holds⟩
    · rw [update_of_ne isRow, inv.holder]
      exact iff_of_false (fun held => isRow held.1.symm) fun held => isRow held.1.symm
  · rw [update_of_ne isSelf, ← inv.holder]
    by_cases isRow : row = (setting.request index).row
    · rw [isRow, update_self, free]
      exact iff_of_false (fun held => isSelf (some.inj held).symm) nofun
    · rw [update_of_ne isRow]

theorem holder_given (holders : next.holder = update state.holder (setting.request index).row none)
    (held : (state.phase index).holds = true) (holds : phase.holds = false) (row : LockedRow)
    (other : Nat) : next.holder row = some other ↔
      (setting.request other).row = row ∧ (next.phase other).holds = true := by
  have isHolder := (inv.holder _ index).mpr ⟨rfl, held⟩
  rw [holders, phases]
  by_cases isSelf : other = index
  · subst isSelf
    rw [update_self, holds]
    refine iff_of_false (fun still => ?_) nofun
    by_cases isRow : row = (setting.request other).row
    · rw [isRow, update_self] at still
      cases still
    · rw [update_of_ne isRow, inv.holder] at still
      exact isRow still.1.symm
  · rw [update_of_ne isSelf, ← inv.holder]
    by_cases isRow : row = (setting.request index).row
    · rw [isRow, update_self, isHolder]
      exact iff_of_false nofun fun same => isSelf (some.inj same).symm
    · rw [update_of_ne isRow]

end

theorem holder_next (inv : Inv setting state) {index : Nat} (moves : Moves setting state index next) :
    ∀ row other, next.holder row = some other ↔
      (setting.request other).row = row ∧ (next.phase other).holds = true := by
  cases moves with
  | quiet phase before unseen running after =>
    refine inv.holder_same index phase rfl rfl ?_
    rw [before]
    cases phase <;> first | rfl | cases after.1
  | lock job before running free alone stands => exact inv.holder_taken index _ rfl rfl free rfl
  | apply job captured before => exact inv.holder_same index _ rfl rfl (by rw [before]; rfl)
  | push job before => exact inv.holder_given index _ rfl rfl (by rw [before]; rfl) rfl
  | drop refusal before unseen => exact inv.holder_given index _ rfl rfl before rfl
  | receive job captured before => exact inv.holder_same index _ rfl rfl (by rw [before]; rfl)
  | relock job preState before free => exact inv.holder_taken index _ rfl rfl free rfl
  | commitLocal job preState before =>
    exact inv.holder_given index .committed (by simp) (by simp) (by rw [before]; rfl) rfl
  | commitPromotion job preState releaseId targetId isPromotion before =>
    exact inv.holder_same index .committed (by simp) (by simp) (by rw [before]; rfl)
  | commitRollback job before =>
    exact inv.holder_given index .committed (by simp) (by simp) (by rw [before]; rfl) rfl

theorem effect_congr {other : Nat} (phase : next.phase other = state.phase other)
    (target : (next.promotions other).map (fun promotion => promotion.job.targetId) =
      (state.promotions other).map fun promotion => promotion.job.targetId) :
    next.effect other = state.effect other := by
  unfold System.effect
  rw [phase, target]

theorem counts_same (inv : Inv setting state) (history : next.history = state.history)
    (effects : ∀ other, next.effect other = state.effect other) (other targetId : Nat) :
    (next.history targetId).count other = if next.effect other = some targetId then 1 else 0 := by
  rw [history, effects, inv.counts]

theorem counts_applied (inv : Inv setting state) (index applied : Nat)
    (history : next.history = update state.history applied (state.history applied ++ [index]))
    (before : state.effect index = none) (after : next.effect index = some applied)
    (effects : ∀ other, other ≠ index → next.effect other = state.effect other)
    (other targetId : Nat) :
    (next.history targetId).count other = if next.effect other = some targetId then 1 else 0 := by
  have unapplied : (state.history applied).count index = 0 := by
    rw [inv.counts, before, if_neg nofun]
  by_cases isSelf : other = index
  · subst isSelf
    rw [history, after]
    by_cases isTarget : targetId = applied
    · rw [isTarget, update_self, count_append, unapplied, if_pos rfl]
      simp
    · rw [update_of_ne isTarget, inv.counts, before, if_neg nofun,
        if_neg fun same => isTarget (some.inj same).symm]
  · rw [effects other isSelf, ← inv.counts, history]
    by_cases isTarget : targetId = applied
    · rw [isTarget, update_self, count_append,
        count_eq_zero.mpr fun member => isSelf (mem_singleton.mp member)]
      rfl
    · rw [update_of_ne isTarget]

theorem effect_none {phase : Phase} {index : Nat} (isPhase : state.phase index = phase)
    (inert : phase.isUnrecorded = false) (notCommitted : phase ≠ .committed) :
    state.effect index = none := by
  unfold System.effect
  rw [isPhase]
  cases phase with
  | pushed job preState => cases inert
  | relocked job => cases inert
  | committed => exact absurd rfl notCommitted
  | _ => rfl

theorem committed_effect (index : Nat) (request : Request) (job : Job)
    (preState : Option (List Nat))
    (phases : next.phase = update state.phase index .committed)
    (promotions : next.promotions = (state.committing index request job preState).promotions)
    (before : state.effect index = some job.targetId) (other : Nat) :
    next.effect other = state.effect other := by
  by_cases isSelf : other = index
  · obtain ⟨promotion, found, isJob, _⟩ := committing_self state index request job preState
    rw [isSelf, before]
    simp [System.effect, phases, promotions, found, isJob]
  · refine effect_congr (by rw [phases, update_of_ne isSelf]) ?_
    rw [promotions]
    exact committing_target isSelf

theorem counts_next (inv : Inv setting state) {index : Nat} (moves : Moves setting state index next) :
    ∀ other targetId, (next.history targetId).count other =
      if next.effect other = some targetId then 1 else 0 := by
  have moved : ∀ (changed : System) (phase : Phase), changed.phase = state.phase →
      changed.promotions = state.promotions → phase.isUnrecorded = false → phase ≠ .committed →
        state.effect index = none →
          ∀ other, (changed.moved index phase).effect other = state.effect other := by
    intro changed phase phases promotions inert notCommitted before other
    by_cases isSelf : other = index
    · rw [isSelf, before]
      exact effect_none (update_self ..) inert notCommitted
    · refine effect_congr ?_ (by rw [System.promotions_moved, promotions])
      rw [System.phase_moved, phases, update_of_ne isSelf]
  cases moves with
  | quiet phase before unseen running after =>
    refine inv.counts_same rfl (moved state phase rfl rfl ?_ after.2 ?_)
    · cases phase <;> first | rfl | cases after.1
    · refine effect_none rfl unseen fun committed => ?_
      rw [committed] at running
      cases running
  | lock job before running free alone stands =>
    refine inv.counts_same rfl (moved _ (.locked job) rfl rfl rfl nofun ?_)
    refine effect_none rfl ?_ fun committed => ?_
    · cases isPhase : state.phase index <;> rw [isPhase] at before <;> first | rfl | cases before
    · rw [committed] at running
      cases running
  | apply job captured before =>
    exact inv.counts_same rfl (moved state _ rfl rfl rfl nofun (effect_none before rfl nofun))
  | push job before =>
    exact inv.counts_same rfl (moved _ _ rfl rfl rfl nofun (effect_none before rfl nofun))
  | drop refusal before unseen =>
    refine inv.counts_same rfl (moved _ _ rfl rfl rfl nofun ?_)
    refine effect_none rfl unseen fun committed => ?_
    rw [committed] at before
    cases before
  | receive job captured before =>
    refine inv.counts_applied index job.targetId rfl (effect_none before rfl nofun) ?_ ?_
    · simp [System.effect]
    · intro other isOther
      exact effect_congr (update_of_ne isOther ..) rfl
  | relock job preState before free =>
    refine inv.counts_same rfl fun other => ?_
    by_cases isSelf : other = index
    · simp [isSelf, System.effect, before]
    · exact effect_congr (update_of_ne isSelf ..) rfl
  | commitLocal job preState before =>
    obtain ⟨promotion, isSelf, isJob, _⟩ := committing_self
      (state.applying job.targetId index) index (setting.request index) job preState
    refine inv.counts_applied index job.targetId (by simp) (effect_none before rfl nofun) ?_ ?_
    · simp [System.effect, isSelf, isJob]
    · intro other isOther
      refine effect_congr (by simp [isOther]) ?_
      exact committing_target isOther
  | commitPromotion job preState releaseId targetId isPromotion before =>
    refine inv.counts_same (by simp) fun other => ?_
    refine committed_effect index (setting.request index) job preState ?_ ?_ ?_ other
    · simp
    · simp
    · simp [System.effect, before]
  | commitRollback job before =>
    refine inv.counts_same (by simp) fun other => ?_
    refine committed_effect index (setting.request index) job none ?_ ?_ ?_ other
    · simp
    · simp
    · simp [System.effect, before]

end Inv

/-! ## What a step leaves alone -/

namespace Moves

variable {setting : Setting} {state next : System} {index : Nat}

theorem phase_other (moves : Moves setting state index next) {other : Nat} (isOther : other ≠ index) :
    next.phase other = state.phase other := by
  cases moves <;> simp [isOther]

/-- A request that takes its lock has it for itself. -/
structure Fresh (setting : Setting) (state : System) (index : Nat) : Prop where
  free : state.holder (setting.request index).row = none
  alone : ∀ other, setting.request other = setting.request index →
    (state.phase other).isAway = false
  stands : ∀ source, setting.request index = .rollback source →
    (state.promotions source).map ReleasePromotion.status = some .promoted

section

variable (moves : Moves setting state index next)

include moves

theorem inProgress_before {other : Nat} (after : (next.phase other).inProgress = true) :
    (state.phase other).inProgress = true ∨
      other = index ∧ next.promotions = state.promotions ∧ Fresh setting state index := by
  by_cases isSelf : other = index
  · subst isSelf
    cases moves with
    | quiet phase before unseen running quiet =>
      rw [System.phase_moved, update_self, quiet.1] at after
      cases after
    | lock job before running free alone stands => exact .inr ⟨rfl, rfl, free, alone, stands⟩
    | apply job captured before => exact .inl (by rw [before]; rfl)
    | push job before => exact .inl (by rw [before]; rfl)
    | drop refusal before unseen => simp [Phase.inProgress] at after
    | receive job captured before => exact .inl (by rw [before]; rfl)
    | relock job preState before free => exact .inl (by rw [before]; rfl)
    | commitLocal job preState before => exact .inl (by rw [before]; rfl)
    | commitPromotion job preState releaseId targetId isPromotion before =>
      exact .inl (by rw [before]; rfl)
    | commitRollback job before => exact .inl (by rw [before]; rfl)
  · rw [moves.phase_other isSelf] at after
    exact .inl after

theorem promotions_cases : (next.promotions = state.promotions ∧ state.phase index ≠ .committed ∧
      next.phase index ≠ .committed) ∨
    ((state.phase index).inProgress = true ∧ next.phase index = .committed ∧
      ∃ job preState, next.promotions =
        (state.committing index (setting.request index) job preState).promotions) := by
  cases moves with
  | quiet phase before unseen running after =>
    refine .inl ⟨rfl, fun committed => ?_, fun committed => after.2 ?_⟩
    · rw [committed] at running
      cases running
    · rwa [System.phase_moved, update_self] at committed
  | lock job before running free alone stands =>
    refine .inl ⟨rfl, fun committed => ?_, fun committed => by simp at committed⟩
    rw [committed] at running
    cases running
  | drop refusal before unseen =>
    refine .inl ⟨rfl, fun committed => ?_, fun committed => by simp at committed⟩
    rw [committed] at before
    cases before
  | apply job captured before | push job before | receive job captured before
  | relock job preState before free =>
    exact .inl ⟨rfl, by rw [before]; nofun, fun committed => by simp at committed⟩
  | commitLocal job preState before =>
    refine .inr ⟨by rw [before]; rfl, by simp, job, preState, ?_⟩
    cases setting.request index <;> rfl
  | commitPromotion job preState releaseId targetId isPromotion before =>
    exact .inr ⟨by rw [before]; rfl, by simp, job, preState, rfl⟩
  | commitRollback job before => exact .inr ⟨by rw [before]; rfl, by simp, job, none, rfl⟩

theorem history_cases (targetId : Nat) : next.history targetId = state.history targetId ∨
      ((state.phase index).inProgress = true ∧
        next.history targetId = state.history targetId ++ [index]) := by
  have applied : ∀ applied, update state.history applied (state.history applied ++ [index])
      targetId = state.history targetId ∨
        update state.history applied (state.history applied ++ [index]) targetId =
          state.history targetId ++ [index] := by
    intro applied
    by_cases isTarget : targetId = applied
    · rw [isTarget, update_self]
      exact .inr rfl
    · exact .inl (update_of_ne isTarget ..)
  cases moves with
  | receive job captured before =>
    exact (applied job.targetId).imp_right fun same => ⟨by rw [before]; rfl, same⟩
  | commitLocal job preState before =>
    refine (applied job.targetId).imp (fun same => ?_) fun same => ⟨by rw [before]; rfl, ?_⟩
    · simpa using same
    · simpa using same
  | quiet | lock | apply | push | drop | relock => exact .inl rfl
  | commitPromotion | commitRollback => exact .inl (by simp)

end

end Moves

namespace Inv

variable {setting : Setting} {state next : System} {index : Nat}

theorem not_inProgress_of_fresh (inv : Inv setting state) (fresh : Moves.Fresh setting state index)
    {other : Nat} (same : setting.request other = setting.request index) :
    (state.phase other).inProgress = false := by
  have notAway := fresh.alone other same
  have notHolding : (state.phase other).holds = false := by
    cases holds : (state.phase other).holds with
    | false => rfl
    | true =>
      have held := (inv.holder (setting.request index).row other).mpr ⟨by rw [same], holds⟩
      rw [fresh.free] at held
      cases held
  rw [Phase.inProgress_eq, notHolding, notAway]
  rfl

theorem rows_next (inv : Inv setting state) (moves : Moves setting state index next) (other : Nat) :
    (next.promotions other).isSome = true ↔ next.phase other = .committed := by
  by_cases isSelf : other = index
  · subst isSelf
    rcases moves.promotions_cases with ⟨same, before, after⟩ | ⟨_, committed, job, preState, same⟩
    · rw [same, inv.rows]
      exact iff_of_false before after
    · obtain ⟨promotion, found, _⟩ := committing_self state other (setting.request other) job preState
      rw [same, found]
      exact iff_of_true rfl committed
  · rw [moves.phase_other isSelf, ← inv.rows]
    rcases moves.promotions_cases with ⟨same, _⟩ | ⟨_, _, job, preState, same⟩
    · rw [same]
    · rw [same, committing_isSome isSelf]

theorem apart_next (inv : Inv setting state) (moves : Moves setting state index next)
    (one other : Nat) (same : setting.request one = setting.request other)
    (onePast : (next.phase one).inProgress = true)
    (otherPast : (next.phase other).inProgress = true) : one = other := by
  rcases moves.inProgress_before onePast with before | ⟨rfl, _, fresh⟩
  · rcases moves.inProgress_before otherPast with before' | ⟨rfl, _, fresh⟩
    · exact inv.apart one other same before before'
    · rw [inv.not_inProgress_of_fresh fresh same] at before
      cases before
  · rcases moves.inProgress_before otherPast with before' | ⟨isSame, _⟩
    · rw [inv.not_inProgress_of_fresh fresh same.symm] at before'
      cases before'
    · exact isSame.symm

theorem engaged_before (moves : Moves setting state index next) {other : Nat}
    (after : (next.phase other).engaged) : (state.phase other).engaged ∨
      other = index ∧ next.promotions = state.promotions ∧ Moves.Fresh setting state index := by
  rcases after with past | committed
  · exact (moves.inProgress_before past).imp_left .inl
  · by_cases isSelf : other = index
    · subst isSelf
      rcases moves.promotions_cases with ⟨_, _, after⟩ | ⟨past, _⟩
      · exact absurd committed after
      · exact .inl (.inl past)
    · rw [moves.phase_other isSelf] at committed
      exact .inl (.inr committed)

section

variable (inv : Inv setting state)

include inv

theorem not_engaged_of_fresh (fresh : Moves.Fresh setting state index) {source other : Nat}
    (isFresh : setting.request index = .rollback source)
    (isRollback : setting.request other = .rollback source) : ¬(state.phase other).engaged := by
  rintro (past | committed)
  · rw [inv.not_inProgress_of_fresh fresh (isRollback.trans isFresh.symm)] at past
    cases past
  · have marked := inv.marked source other isRollback committed
    rw [fresh.stands source isFresh] at marked
    cases marked

theorem single_next (moves : Moves setting state index next) (source one other : Nat)
    (oneRolls : setting.request one = .rollback source)
    (otherRolls : setting.request other = .rollback source) (oneEngaged : (next.phase one).engaged)
    (otherEngaged : (next.phase other).engaged) : one = other := by
  rcases engaged_before moves oneEngaged with before | ⟨rfl, _, fresh⟩
  · rcases engaged_before moves otherEngaged with before' | ⟨rfl, _, fresh⟩
    · exact inv.single source one other oneRolls otherRolls before before'
    · exact absurd before (inv.not_engaged_of_fresh fresh otherRolls oneRolls)
  · rcases engaged_before moves otherEngaged with before' | ⟨isSame, _⟩
    · exact absurd before' (inv.not_engaged_of_fresh fresh oneRolls otherRolls)
    · exact isSame.symm

/-- The status of a promotion that a rollback is about, once another request has committed. -/
theorem status_committing (past : (state.phase index).inProgress = true) {job : Job}
    {preState : Option (List Nat)} {source : Nat} {status : PromotionStatus}
    (before : (state.promotions source).map ReleasePromotion.status = some status) :
    ((state.committing index (setting.request index) job preState).promotions source).map
        ReleasePromotion.status =
      some (if setting.request index = .rollback source then .rolledBack else status) := by
  obtain ⟨promotion, found, isStatus⟩ := map_eq_some_iff.mp before
  have notSelf : source ≠ index := by
    rintro rfl
    have committed := (inv.rows source).mp (by rw [found]; rfl)
    rw [committed] at past
    cases past
  rw [committing_other notSelf]
  by_cases isSource : setting.request index = .rollback source
  · rw [if_pos isSource, if_pos isSource, found]
    rfl
  · rw [if_neg isSource, if_neg isSource, before]

section

variable (moves : Moves setting state index next) (source other : Nat)
    (isRollback : setting.request other = .rollback source)

include moves source other isRollback

theorem standing_next (after : (next.phase other).inProgress = true) :
    (next.promotions source).map ReleasePromotion.status = some .promoted := by
  rcases moves.inProgress_before after with before | ⟨rfl, same, fresh⟩
  · have stands := inv.standing source other isRollback before
    rcases moves.promotions_cases with ⟨same, _⟩ | ⟨past, committed, job, preState, same⟩
    · rw [same, stands]
    · rw [same, inv.status_committing past stands]
      by_cases isSource : setting.request index = .rollback source
      · have isSelf := inv.single source other index isRollback isSource (.inl before) (.inl past)
        rw [isSelf, committed] at after
        cases after
      · rw [if_neg isSource]
  · rw [same]
    exact fresh.stands source isRollback

theorem marked_next (after : next.phase other = .committed) :
    (next.promotions source).map ReleasePromotion.status = some .rolledBack := by
  rcases moves.promotions_cases with ⟨same, _, notCommitted⟩ | ⟨past, _, job, preState, same⟩
  · have isOther : other ≠ index := by
      rintro rfl
      exact notCommitted after
    rw [moves.phase_other isOther] at after
    rw [same]
    exact inv.marked source other isRollback after
  · rw [same]
    by_cases isOther : other = index
    · subst isOther
      rw [inv.status_committing past (inv.standing source other isRollback past), if_pos isRollback]
    · rw [moves.phase_other isOther] at after
      rw [inv.status_committing past (inv.marked source other isRollback after)]
      split <;> rfl

end

end

theorem exists_history (moves : Moves setting state index next) (targetId : Nat) :
    ∃ added, next.history targetId = state.history targetId ++ added ∧
      ∀ other ∈ added, other = index ∧ (state.phase index).inProgress = true := by
  rcases moves.history_cases targetId with same | ⟨past, added⟩
  · exact ⟨[], by rw [same, append_nil], forall_mem_nil _⟩
  · exact ⟨[index], added, forall_mem_singleton.mpr ⟨rfl, past⟩⟩

theorem snapshot_eq_some {job : Job} {captured : Bool} {preState : List Nat}
    (isSnapshot : state.snapshot job captured = some preState) :
    state.history job.targetId = preState := by
  cases captured with
  | true => exact some.inj isSnapshot
  | false => cases isSnapshot

section

variable (inv : Inv setting state) (moves : Moves setting state index next) (other : Nat)
    (job : Job) (preState : List Nat)

include inv moves other job preState

theorem reads_next (after : next.phase other = .applied job (some preState)) :
    ∃ between, next.history job.targetId = preState ++ between ∧
      ∀ one ∈ between, setting.request one ≠ setting.request other := by
  by_cases isSelf : other = index
  · subst isSelf
    cases moves with
    | quiet phase before unseen running quiet =>
      rw [System.phase_moved, update_self] at after
      rw [after] at quiet
      cases quiet.1
    | apply job' captured before =>
      rw [System.phase_moved, update_self] at after
      obtain ⟨rfl, isSnapshot⟩ := Phase.applied.inj after
      refine ⟨[], ?_, forall_mem_nil _⟩
      rw [System.history_moved, snapshot_eq_some isSnapshot, append_nil]
    | _ => simp at after
  · rw [moves.phase_other isSelf] at after
    obtain ⟨between, before, others⟩ := inv.reads other job preState after
    obtain ⟨added, grown, onlySelf⟩ := exists_history moves job.targetId
    refine ⟨between ++ added, by rw [grown, before, append_assoc], fun one member => ?_⟩
    rcases mem_append.mp member with old | new
    · exact others one old
    · obtain ⟨rfl, past⟩ := onlySelf one new
      intro same
      exact isSelf (inv.apart one other same past (by rw [after]; rfl)).symm

theorem received_next (after : next.phase other = .pushed job (some preState)) :
    ∃ later, next.history job.targetId = preState ++ other :: later := by
  by_cases isSelf : other = index
  · subst isSelf
    cases moves with
    | quiet phase before unseen running quiet =>
      rw [System.phase_moved, update_self] at after
      rw [after] at quiet
      cases quiet.1
    | receive job' captured before =>
      rw [System.phase_moved, update_self] at after
      obtain ⟨rfl, isSnapshot⟩ := Phase.pushed.inj after
      refine ⟨[], ?_⟩
      rw [System.history_moved, System.history_applying, update_self, snapshot_eq_some isSnapshot]
    | _ => simp at after
  · rw [moves.phase_other isSelf] at after
    obtain ⟨later, before⟩ := inv.received other job preState after
    obtain ⟨added, grown, _⟩ := exists_history moves job.targetId
    exact ⟨later ++ added, by rw [grown, before, append_assoc, cons_append]⟩

end

theorem promotion_before (moves : Moves setting state index next) {other : Nat}
    {promotion : ReleasePromotion} (after : next.promotions other = some promotion) :
    (∃ before, state.promotions other = some before ∧ before.job = promotion.job ∧
        before.preState = promotion.preState) ∨
      other = index ∧ next.phase index = .committed := by
  rcases moves.promotions_cases with ⟨same, _⟩ | ⟨_, committed, job, preState, same⟩
  · rw [same] at after
    exact .inl ⟨promotion, after, rfl, rfl⟩
  · by_cases isSelf : other = index
    · exact .inr ⟨isSelf, committed⟩
    · rw [same, committing_other isSelf] at after
      split at after
      · obtain ⟨before, found, rfl⟩ := map_eq_some_iff.mp after
        exact .inl ⟨before, found, rfl, rfl⟩
      · exact .inl ⟨promotion, after, rfl, rfl⟩

section

variable (inv : Inv setting state) (moves : Moves setting state index next)

include inv moves

theorem sees_committed (committed : next.phase index = .committed) {promotion : ReleasePromotion}
    {kept : List Nat} (found : next.promotions index = some promotion)
    (isKept : promotion.preState = some kept) :
    ∃ between after, next.history promotion.job.targetId = kept ++ between ++ index :: after ∧
      ∀ other ∈ between, setting.request other ≠ setting.request index := by
  cases moves with
  | quiet phase before unseen running quiet =>
    rw [System.phase_moved, update_self] at committed
    exact absurd committed quiet.2
  | commitLocal job preState before =>
    obtain ⟨own, isOwn, isJob, keeps⟩ := committing_self (state.applying job.targetId index) index
      (setting.request index) job preState
    cases isOwn.symm.trans found
    obtain rfl := keeps kept isKept
    obtain ⟨between, read, others⟩ := inv.reads index job kept before
    refine ⟨between, [], ?_, others⟩
    rw [isJob]
    simp [read]
  | commitPromotion job preState releaseId targetId isPromotion before =>
    obtain ⟨own, isOwn, isJob, keeps⟩ := committing_self state index (setting.request index) job
      preState
    cases isOwn.symm.trans found
    obtain rfl := keeps kept isKept
    obtain ⟨after, received⟩ := inv.received index job kept before
    refine ⟨[], after, ?_, forall_mem_nil _⟩
    rw [isJob]
    simp [received]
  | commitRollback job before =>
    obtain ⟨own, isOwn, _, keeps⟩ := committing_self state index (setting.request index) job none
    cases isOwn.symm.trans found
    cases keeps kept isKept
  | _ => simp at committed

theorem sees_next (other : Nat) (promotion : ReleasePromotion) (kept : List Nat)
    (found : next.promotions other = some promotion) (isKept : promotion.preState = some kept) :
    ∃ between after, next.history promotion.job.targetId = kept ++ between ++ other :: after ∧
      ∀ one ∈ between, setting.request one ≠ setting.request other := by
  rcases promotion_before moves found with ⟨before, isBefore, sameJob, sameState⟩ | ⟨rfl, committed⟩
  · obtain ⟨between, after, seen, others⟩ := inv.sees other before kept isBefore
      (sameState.trans isKept)
    obtain ⟨added, grown, _⟩ := exists_history moves promotion.job.targetId
    refine ⟨between, after ++ added, ?_, others⟩
    rw [grown, ← sameJob, seen, append_assoc _ _ added, cons_append]
  · exact sees_committed inv moves committed found isKept

/-- **An orderly step keeps the invariant.** -/
theorem of_moves : Inv setting next where
  holder := inv.holder_next moves
  counts := inv.counts_next moves
  rows := inv.rows_next moves
  apart := inv.apart_next moves
  single := inv.single_next moves
  standing := inv.standing_next moves
  marked := inv.marked_next moves
  sees := inv.sees_next moves
  reads := inv.reads_next moves
  received := inv.received_next moves

end

theorem start (setting : Setting) : Inv setting {} where
  holder := fun _ _ => iff_of_false nofun nofun
  counts := fun _ _ => rfl
  rows := fun _ => iff_of_false nofun nofun
  apart := nofun
  single := fun _ _ _ _ _ engaged => by rcases engaged with past | committed <;> contradiction
  standing := nofun
  marked := nofun
  sees := nofun
  reads := nofun
  received := nofun

theorem mem_history (inv : Inv setting state) {targetId : Nat} :
    index ∈ state.history targetId ↔ state.effect index = some targetId := by
  rw [← count_pos_iff, inv.counts]
  split <;> simp_all

theorem engaged_of_effect {targetId : Nat} (effect : state.effect index = some targetId) :
    (state.phase index).engaged := by
  unfold System.effect at effect
  cases isPhase : state.phase index <;> rw [isPhase] at effect <;>
    first | exact .inl rfl | exact .inr rfl | cases effect

theorem appliedOnce (inv : Inv setting state) : AppliedOnce setting state where
  recorded := by
    intro index isDone targetId
    rw [inv.counts]
    cases isPhase : state.phase index with
    | committed =>
      obtain ⟨promotion, found⟩ := isSome_iff_exists.mp ((inv.rows index).mpr isPhase)
      simp [System.effect, isPhase, found]
    | failed refusal =>
      have none : state.promotions index = none := by
        rw [← not_isSome_iff_eq_none, inv.rows, isPhase]
        nofun
      simp [System.effect, isPhase, none]
    | _ =>
      rw [isPhase] at isDone
      cases isDone
  once := by
    intro index targetId
    rw [inv.counts]
    split <;> omega
  onceEach := by
    intro source one other targetId targetId' oneRolls otherRolls isApplied isApplied'
    rw [inv.mem_history] at isApplied isApplied'
    obtain rfl := inv.single source one other oneRolls otherRolls (engaged_of_effect isApplied)
      (engaged_of_effect isApplied')
    exact ⟨rfl, some.inj (isApplied.symm.trans isApplied')⟩
  apart := by
    intro releaseId targetId one other onePromotes otherPromotes
    exact inv.apart one other (onePromotes.trans otherPromotes.symm)
  sees := inv.sees

end Inv

/-! ## Orderly runs -/

/-- Every step of the run is orderly. -/
def OrderlyRun (setting : Setting) (events : List Event) : Prop :=
  ∀ before event after state, events = before ++ event :: after →
    Trace.run (step setting) {} before = some state → Orderly setting state event

/-- **In every state of an orderly run everything is applied and recorded once.** -/
theorem appliedOnce_of_orderly (setting : Setting) (events : List Event)
    (orderly : OrderlyRun setting events) (state : System)
    (passes : Trace.Passes (step setting) {} events state) : AppliedOnce setting state := by
  refine Inv.appliedOnce (Trace.Passes.invariant (Inv setting) (Inv.start setting) ?_ passes)
  intro before event after middle final split ran stepped inv
  exact inv.of_moves (moves_of_step inv (orderly before event after middle split ran) stepped)

/-- A release that is promoted to another instance, and two rollbacks of this promotion. -/
def pushed : Setting where
  orgId := 0
  release := fun _ => some .approved
  target := fun _ => some { kind := .remoteInstance }
  request := fun index => if index = 0 then .promote 0 0 else .rollback 0

/-- A promotion and after it a rollback. -/
def oneAfterAnother : List Event :=
  [⟨0, .lock⟩, ⟨0, .push⟩, ⟨0, .receive true⟩, ⟨0, .commit⟩, ⟨1, .load⟩, ⟨1, .lock⟩, ⟨1, .push⟩,
    ⟨1, .receive false⟩, ⟨1, .relock⟩, ⟨1, .commit⟩]

def OrderlyFrom (setting : Setting) (state : System) : List Event → Prop
  | [] => True
  | event :: rest => Orderly setting state event ∧
      ∀ next, step setting state event = some next → OrderlyFrom setting next rest

theorem orderlyRun_of_orderlyFrom {setting : Setting} {events : List Event}
    (orderly : OrderlyFrom setting {} events) : OrderlyRun setting events := by
  have general : ∀ (before : List Event) (start : System) (event : Event) (after : List Event)
      (state : System), OrderlyFrom setting start (before ++ event :: after) →
        Trace.run (step setting) start before = some state → Orderly setting state event := by
    intro before
    induction before with
    | nil =>
      intro start event after state orderly ran
      cases ran
      exact orderly.1
    | cons first before ih =>
      intro start event after state orderly ran
      obtain ⟨next, stepped, rest⟩ := bind_eq_some_iff.mp ran
      exact ih next event after state (orderly.2 next stepped) rest
  intro before event after state split ran
  subst split
  exact general before {} event after state orderly ran

theorem orderlyRun_oneAfterAnother : OrderlyRun pushed oneAfterAnother := by
  refine orderlyRun_of_orderlyFrom ⟨⟨fun _ _ => rfl, nofun⟩, ?_⟩
  rintro _ ⟨⟩
  refine ⟨trivial, ?_⟩
  rintro _ ⟨⟩
  refine ⟨trivial, ?_⟩
  rintro _ ⟨⟩
  refine ⟨trivial, ?_⟩
  rintro _ ⟨⟩
  refine ⟨trivial, ?_⟩
  rintro _ ⟨⟩
  -- the rollback locks a promotion that is as it has loaded it, and no other request is away
  refine ⟨⟨fun other _ => ?_, fun promotion isLoaded source isSource => ?_⟩, ?_⟩
  · match other with
    | 0 => rfl
    | 1 => rfl
    | _ + 2 => rfl
  · cases isLoaded
    cases isSource
    rfl
  rintro _ ⟨⟩
  refine ⟨trivial, ?_⟩
  rintro _ ⟨⟩
  refine ⟨trivial, ?_⟩
  rintro _ ⟨⟩
  refine ⟨trivial, ?_⟩
  rintro _ ⟨⟩
  exact ⟨trivial, fun _ _ => trivial⟩

theorem appliedOnce_oneAfterAnother :
    ∃ state, Trace.run (step pushed) {} oneAfterAnother = some state ∧ AppliedOnce pushed state :=
  ⟨_, rfl, appliedOnce_of_orderly pushed oneAfterAnother orderlyRun_oneAfterAnother _
    ⟨oneAfterAnother, [], rfl, rfl⟩⟩

/-- Two rollbacks that both pass their check before either of their pushes is back. -/
def sideBySide : List Event :=
  [⟨0, .lock⟩, ⟨0, .push⟩, ⟨0, .receive true⟩, ⟨0, .commit⟩, ⟨1, .lock⟩, ⟨1, .push⟩, ⟨2, .lock⟩,
    ⟨2, .push⟩, ⟨1, .receive false⟩, ⟨2, .receive false⟩]

/-- The snapshot of the promotion is applied twice. -/
theorem not_appliedOnce_sideBySide :
    ∃ state, Trace.run (step pushed) {} sideBySide = some state ∧ ¬AppliedOnce pushed state := by
  refine ⟨_, rfl, fun appliedOnce => ?_⟩
  have same := (appliedOnce.onceEach 0 1 2 0 0 rfl rfl (by decide) (by decide)).1
  cases same

end RedArchKM.Promotion.Promotions
