import RedArchKM.Lib.Trace

/-!
# One use of an intake link

A public submission and an admin's revocation each run in a transaction of their own under READ
COMMITTED. Both read the link first. The submission then claims it with an update that asks again
for a pending link, and holds the row until it commits. The revocation trusts what it has read:
its write waits for the row but asks nothing.

So a submission that commits between the read and the write of a revocation is overwritten: the
link was used and is marked as revoked. Everything else holds of every run (`Used.of_run`,
`serializable`), and a run keeps its links used exactly if no revocation commits over a submitted
link (`usedOnce_iff`).
-/

namespace RedArchKM.Forms.LinkUse

open Lib List Option

variable {ρ : Type}

inductive LinkStatus where
  | pending | submitted | expired | revoked
deriving DecidableEq

structure FormLink where
  status : LinkStatus := .pending
  targetRecordId : Option Nat
  expiresAt : Option Nat := none

def unusableReason (link : FormLink) (now : Nat) : Option String :=
  match link.status with
  | .submitted => some "This form has already been submitted."
  | .expired | .revoked => some "This form link is no longer active."
  | .pending =>
    match link.expiresAt with
    | some expiresAt => if expiresAt < now then some "This form link has expired." else none
    | none => none

/-- What a transaction is for. A submission carries what it makes of the records, or that it
raises. -/
inductive Request (ρ : Type) where
  | submit (applySubmit : ρ → Option ρ)
  | revoke

/-- How far a transaction has come. -/
inductive Phase (ρ : Type) where
  | waiting
  /-- A submission has read a usable link. -/
  | resolved
  | claimed
  /-- A submission has written its records. -/
  | applied (records : ρ)
  /-- A revocation has read the link. -/
  | loaded (status : LinkStatus)
  | written
  | unchanged
  | committed
  | failed (error : String)

/-- The transaction holds the row of the link. -/
def Phase.Holds : Phase ρ → Prop
  | .claimed | .applied _ | .written => True
  | _ => False

def Phase.isDone : Phase ρ → Bool
  | .committed | .failed _ => true
  | _ => false

structure Transaction (ρ : Type) where
  request : Request ρ
  phase : Phase ρ := .waiting

inductive Commit where
  | submission (transaction : Nat)
  | revocation (transaction : Nat) (wasPending : Bool)

def Commit.isSubmission : Commit → Bool
  | .submission _ => true
  | .revocation _ _ => false

def Commit.status : Commit → LinkStatus
  | .submission _ => .submitted
  | .revocation _ _ => .revoked

/-- What is committed, who holds the row of the link, the transactions, and the commits so far. -/
structure System (ρ : Type) where
  link : FormLink
  records : ρ
  holder : Option Nat := none
  transactions : List (Transaction ρ)
  commits : List Commit := []

inductive Act where
  | read (now : Nat)
  | write
  | apply
  | commit
  /-- An exception, which rolls the transaction back. -/
  | fail (error : String)

structure Action where
  transaction : Nat
  act : Act

section

variable (state : System ρ) (index : Nat)

def System.moved (request : Request ρ) (phase : Phase ρ) : System ρ :=
  { state with transactions := state.transactions.set index ⟨request, phase⟩ }

/-- The phase of a transaction that has taken the row, once it is free. -/
def System.taken (request : Request ρ) (phase : Phase ρ) : Option (System ρ) :=
  match state.holder with
  | none => some { state.moved index request phase with holder := some index }
  | some _ => none

/-- What a submission does next; nothing while another transaction holds the row. -/
def submitStep (applySubmit : ρ → Option ρ) : Phase ρ → Act → Option (System ρ)
  | .waiting, .read now =>
    match unusableReason state.link now with
    | some reason => some (state.moved index (.submit applySubmit) (.failed reason))
    | none =>
      match state.link.targetRecordId with
      | none =>
        some (state.moved index (.submit applySubmit) (.failed "link has no target record"))
      | some _ => some (state.moved index (.submit applySubmit) .resolved)
  | .resolved, .write =>
    if state.link.status = .pending then state.taken index (.submit applySubmit) .claimed
    else
      -- the update finds no row and does not wait for one
      some (state.moved index (.submit applySubmit)
        (.failed "This form has already been submitted."))
  | .claimed, .apply =>
    (applySubmit state.records).map fun records =>
      state.moved index (.submit applySubmit) (.applied records)
  | .applied records, .commit =>
    some { state.moved index (.submit applySubmit) .committed with
      link := { state.link with status := .submitted }
      records := records
      holder := none
      commits := state.commits ++ [.submission index] }
  | _, _ => none

/-- What a revocation does next; nothing while another transaction holds the row. -/
def revokeStep : Phase ρ → Act → Option (System ρ)
  | .waiting, .read _ =>
    if state.link.status = .submitted then
      some (state.moved index .revoke (.failed "a submitted link cannot be revoked"))
    else some (state.moved index .revoke (.loaded state.link.status))
  | .loaded .pending, .write => state.taken index .revoke .written
  | .loaded _, .write => some (state.moved index .revoke .unchanged)
  | .unchanged, .commit => some (state.moved index .revoke .committed)
  | .written, .commit =>
    some { state.moved index .revoke .committed with
      link := { state.link with status := .revoked }
      holder := none
      commits := state.commits ++
        [.revocation index (state.link.status == .pending)] }
  | _, _ => none

def failStep (transaction : Transaction ρ) (error : String) : Option (System ρ) :=
  if transaction.phase.isDone then none
  else
    some { state.moved index transaction.request (.failed error) with
      holder := if state.holder = some index then none else state.holder }

end

/-- One statement of one of the transactions. -/
def step (state : System ρ) (action : Action) : Option (System ρ) :=
  match state.transactions[action.transaction]? with
  | none => none
  | some transaction =>
    match action.act with
    | .fail error => failStep state action.transaction transaction error
    | act =>
      match transaction.request with
      | .submit applySubmit =>
        submitStep state action.transaction applySubmit transaction.phase act
      | .revoke => revokeStep state action.transaction transaction.phase act

/-- A link with its records before any of the requests has begun. -/
def begin (link : FormLink) (records : ρ) (requests : List (Request ρ)) : System ρ where
  link := link
  records := records
  transactions := requests.map fun request => { request := request }

/-! ## What one step can do -/

/-- The steps of a transaction, by what they do to the link and to its row. -/
inductive Moves (state : System ρ) (index : Nat) (transaction : Transaction ρ) : System ρ → Prop
  | quiet (phase : Phase ρ) (running : transaction.phase.isDone = false)
      (released : ¬transaction.phase.Holds) (free : ¬phase.Holds)
      (seen : phase = .loaded .pending → state.link.status = .pending) :
      Moves state index transaction (state.moved index transaction.request phase)
  | claim (resolved : transaction.phase = .resolved) (pending : state.link.status = .pending)
      (free : state.holder = none) :
      Moves state index transaction
        { state.moved index transaction.request .claimed with holder := some index }
  | overwrite (loaded : transaction.phase = .loaded .pending) (free : state.holder = none) :
      Moves state index transaction
        { state.moved index transaction.request .written with holder := some index }
  | apply (claimed : transaction.phase = .claimed) (applySubmit : ρ → Option ρ)
      (requested : transaction.request = .submit applySubmit) (records : ρ)
      (made : applySubmit state.records = some records) :
      Moves state index transaction (state.moved index transaction.request (.applied records))
  | submission (records : ρ) (applied : transaction.phase = .applied records) :
      Moves state index transaction
        { state.moved index transaction.request .committed with
          link := { state.link with status := .submitted }
          records := records
          holder := none
          commits := state.commits ++ [.submission index] }
  | revocation (written : transaction.phase = .written) :
      Moves state index transaction
        { state.moved index transaction.request .committed with
          link := { state.link with status := .revoked }
          holder := none
          commits := state.commits ++ [.revocation index (state.link.status == .pending)] }
  | fail (error : String) (running : transaction.phase.isDone = false) :
      Moves state index transaction
        { state.moved index transaction.request (.failed error) with
          holder := if state.holder = some index then none else state.holder }

variable {state next start : System ρ} {index : Nat} {transaction : Transaction ρ}
  {action : Action}

variable {phase : Phase ρ} {request : Request ρ}

theorem taken_eq_some (taken : state.taken index request phase = some next) :
    state.holder = none ∧ next = { state.moved index request phase with holder := some index } := by
  unfold System.taken at taken
  cases free : state.holder with
  | none =>
    rw [free] at taken
    exact ⟨rfl, (some.inj taken).symm⟩
  | some other =>
    rw [free] at taken
    cases taken

theorem moves_of_submitStep {applySubmit : ρ → Option ρ} {act : Act}
    (stepped : submitStep state index applySubmit phase act = some next) :
    Moves state index ⟨.submit applySubmit, phase⟩ next := by
  cases phase with
  | waiting =>
    cases act with
    | read now =>
      simp only [submitStep] at stepped
      split at stepped
      · cases stepped
        exact .quiet (.failed _) rfl not_false not_false nofun
      · split at stepped
        · cases stepped
          exact .quiet (.failed _) rfl not_false not_false nofun
        · cases stepped
          exact .quiet .resolved rfl not_false not_false nofun
    | _ => cases stepped
  | resolved =>
    cases act with
    | write =>
      simp only [submitStep] at stepped
      split at stepped
      · next pending =>
          obtain ⟨free, rfl⟩ := taken_eq_some stepped
          exact .claim rfl pending free
      · cases stepped
        exact .quiet (.failed _) rfl not_false not_false nofun
    | _ => cases stepped
  | claimed =>
    cases act with
    | apply =>
      obtain ⟨records, made, rfl⟩ := map_eq_some_iff.mp stepped
      exact .apply rfl applySubmit rfl records made
    | _ => cases stepped
  | applied records =>
    cases act with
    | commit =>
      cases stepped
      exact .submission records rfl
    | _ => cases stepped
  | _ => cases act <;> cases stepped

theorem moves_of_revokeStep {act : Act} (stepped : revokeStep state index phase act = some next) :
    Moves state index ⟨.revoke, phase⟩ next := by
  cases phase with
  | waiting =>
    cases act with
    | read now =>
      simp only [revokeStep] at stepped
      split at stepped
      · cases stepped
        exact .quiet (.failed _) rfl not_false not_false nofun
      · cases stepped
        exact .quiet (.loaded _) rfl not_false not_false fun same => Phase.loaded.inj same
    | _ => cases stepped
  | loaded status =>
    cases act with
    | write =>
      cases status with
      | pending =>
        obtain ⟨free, rfl⟩ := taken_eq_some stepped
        exact .overwrite rfl free
      | _ =>
        cases stepped
        exact .quiet .unchanged rfl not_false not_false nofun
    | _ => cases status <;> cases stepped
  | unchanged =>
    cases act with
    | commit =>
      cases stepped
      exact .quiet .committed rfl not_false not_false nofun
    | _ => cases stepped
  | written =>
    cases act with
    | commit =>
      cases stepped
      exact .revocation rfl
    | _ => cases stepped
  | _ => cases act <;> cases stepped

theorem moves_of_step (stepped : step state action = some next) :
    ∃ transaction, state.transactions[action.transaction]? = some transaction ∧
      Moves state action.transaction transaction next := by
  unfold step at stepped
  cases found : state.transactions[action.transaction]? with
  | none =>
    rw [found] at stepped
    cases stepped
  | some transaction =>
    refine ⟨transaction, rfl, ?_⟩
    obtain ⟨request, phase⟩ := transaction
    simp only [found] at stepped
    split at stepped
    · next error _ =>
        unfold failStep at stepped
        split at stepped
        · cases stepped
        · next running =>
            cases stepped
            exact .fail error (Bool.eq_false_iff.mpr running)
    · cases request with
      | submit applySubmit => exact moves_of_submitStep stepped
      | revoke => exact moves_of_revokeStep stepped

/-! ## What a run keeps -/

theorem getElem?_moved {other : Nat} {found : Transaction ρ}
    (looked : (state.moved index request phase).transactions[other]? = some found) :
    (other = index ∧ found = ⟨request, phase⟩) ∨
      (other ≠ index ∧ state.transactions[other]? = some found) := by
  rw [System.moved, getElem?_set] at looked
  by_cases same : index = other
  · rw [if_pos same] at looked
    split at looked
    · exact .inl ⟨same.symm, (some.inj looked).symm⟩
    · cases looked
  · rw [if_neg same] at looked
    exact .inr ⟨fun isIndex => same isIndex.symm, looked⟩

/-- What the commits so far have made of the link and the records that the run began with. -/
structure Story (start state : System ρ) : Prop where
  untouched : state.commits = [] → state.link = start.link
  last : ∀ commit, state.commits.getLast? = some commit → state.link.status = commit.status
  first : ∀ commit ∈ state.commits.tail, commit.isSubmission = false
  spared : (∀ commit ∈ state.commits, commit.isSubmission = false) → state.records = start.records
  made : ∀ index, .submission index ∈ state.commits →
    ∃ (transaction : Transaction ρ) (applySubmit : ρ → Option ρ),
    state.transactions[index]? = some transaction ∧ transaction.phase = .committed ∧
      transaction.request = .submit applySubmit ∧ applySubmit start.records = some state.records

/-- What every statement keeps. -/
structure Orderly (start state : System ρ) : Prop where
  holding : ∀ (index : Nat) (transaction : Transaction ρ),
    state.transactions[index]? = some transaction →
    (transaction.phase.Holds ↔ state.holder = some index)
  claiming : ∀ (index : Nat) (transaction : Transaction ρ),
    state.transactions[index]? = some transaction →
    (transaction.phase = .claimed ∨ ∃ records, transaction.phase = .applied records) →
      state.link.status = .pending
  applied : ∀ (index : Nat) (transaction : Transaction ρ) records,
    state.transactions[index]? = some transaction →
    transaction.phase = .applied records → ∃ applySubmit,
      transaction.request = .submit applySubmit ∧ applySubmit state.records = some records
  doubted : ∀ (index : Nat) (transaction : Transaction ρ),
    state.transactions[index]? = some transaction →
    (transaction.phase = .loaded .pending ∨ transaction.phase = .written) →
      state.link.status = .pending ∨ state.commits ≠ []
  story : Story start state

theorem getElem?_moved_of_ne {other : Nat} (differs : other ≠ index) :
    (state.moved index request phase).transactions[other]? = state.transactions[other]? := by
  rw [System.moved, getElem?_set_ne differs.symm]

theorem getElem?_moved_self (found : state.transactions[index]? = some transaction) :
    (state.moved index request phase).transactions[index]? = some ⟨request, phase⟩ := by
  obtain ⟨inside, _⟩ := List.getElem?_eq_some_iff.mp found
  rw [System.moved, List.getElem?_set_self inside]

theorem Story.carry (story : Story start state) (link : next.link = state.link)
    (records : next.records = state.records) (commits : next.commits = state.commits)
    (kept : ∀ (other : Nat) (found : Transaction ρ), state.transactions[other]? = some found →
      found.phase = .committed → next.transactions[other]? = some found) :
    Story start next := by
  refine ⟨?_, ?_, ?_, ?_, ?_⟩
  · rw [link, commits]
    exact story.untouched
  · rw [link, commits]
    exact story.last
  · rw [commits]
    exact story.first
  · rw [records, commits]
    exact story.spared
  · rw [records, commits]
    intro index member
    obtain ⟨transaction, applySubmit, found, done, request, made⟩ := story.made index member
    exact ⟨transaction, applySubmit, kept index transaction found done, done, request, made⟩

theorem kept_of_running (found : state.transactions[index]? = some transaction)
    (running : transaction.phase.isDone = false) (other : Nat) (committed : Transaction ρ)
    (here : state.transactions[other]? = some committed) (done : committed.phase = .committed) :
    (state.moved index request phase).transactions[other]? = some committed := by
  have differs : other ≠ index := by
    rintro rfl
    obtain rfl : transaction = committed := some.inj (found.symm.trans here)
    rw [done] at running
    cases running
  rwa [getElem?_moved_of_ne differs]

theorem Story.commits_eq_nil (story : Story start state) (pending : state.link.status = .pending) :
    state.commits = [] := by
  cases last : state.commits.getLast? with
  | none => exact getLast?_eq_none_iff.mp last
  | some commit =>
    have status := story.last commit last
    cases commit <;> simp [Commit.status, pending] at status

theorem Story.exists_submission (story : Story start state)
    (submitted : state.link.status = .submitted) (some : state.commits ≠ []) :
    ∃ index, .submission index ∈ state.commits := by
  have last := story.last _ (getLast?_eq_getLast_of_ne_nil some)
  have member := getLast_mem some
  cases isLast : state.commits.getLast some with
  | submission index => exact ⟨index, isLast ▸ member⟩
  | revocation index wasPending => simp [isLast, Commit.status, submitted] at last

theorem orderly_begin (link : FormLink) (records : ρ) (requests : List (Request ρ)) :
    Orderly (begin link records requests) (begin link records requests) := by
  have waiting : ∀ (index : Nat) (transaction : Transaction ρ),
      (begin link records requests).transactions[index]? = some transaction →
        transaction.phase = .waiting := by
    intro index transaction found
    rw [begin, getElem?_map] at found
    obtain ⟨request, _, rfl⟩ := map_eq_some_iff.mp found
    rfl
  refine ⟨?_, ?_, ?_, ?_, ?_⟩
  · intro index transaction found
    rw [waiting index transaction found]
    exact iff_of_false not_false nofun
  · intro index transaction found claims
    rw [waiting index transaction found] at claims
    rcases claims with claims | ⟨_, claims⟩ <;> cases claims
  · intro index transaction records found applied
    rw [waiting index transaction found] at applied
    cases applied
  · intro index transaction found doubts
    rw [waiting index transaction found] at doubts
    rcases doubts with doubts | doubts <;> cases doubts
  · exact ⟨fun _ => rfl, nofun, nofun, fun _ => rfl, nofun⟩

section

variable (orderly : Orderly start state)

include orderly

theorem Orderly.not_holder (found : state.transactions[index]? = some transaction)
    (released : ¬transaction.phase.Holds) : state.holder ≠ some index := fun holds =>
  released ((orderly.holding index transaction found).mpr holds)

theorem Orderly.only_holder (found : state.transactions[index]? = some transaction)
    (holds : transaction.phase.Holds) {other : Nat} {others : Transaction ρ}
    (differs : other ≠ index) (here : state.transactions[other]? = some others) :
    ¬others.phase.Holds := by
  intro holdsToo
  have mine := (orderly.holding index transaction found).mp holds
  have theirs := (orderly.holding other others here).mp holdsToo
  exact differs (some.inj (theirs.symm.trans mine))

theorem Orderly.holding_taken (free : state.holder = none) (holds : phase.Holds) (other : Nat)
    (others : Transaction ρ)
    (looked : (state.moved index request phase).transactions[other]? = some others) :
    others.phase.Holds ↔ some index = some other := by
  rcases getElem?_moved looked with ⟨rfl, rfl⟩ | ⟨differs, here⟩
  · exact iff_of_true holds rfl
  · refine iff_of_false (fun holds => ?_) fun same => differs (some.inj same).symm
    have theirs := (orderly.holding other others here).mp holds
    rw [free] at theirs
    cases theirs

theorem Orderly.committed (found : state.transactions[index]? = some transaction)
    (holds : transaction.phase.Holds)
    (transactions : next.transactions = (state.moved index transaction.request .committed).transactions)
    (holder : next.holder = none) (commits : next.commits ≠ []) (story : Story start next) :
    Orderly start next := by
  have released : ∀ (other : Nat) (others : Transaction ρ),
      next.transactions[other]? = some others → ¬others.phase.Holds := by
    intro other others looked
    rw [transactions] at looked
    rcases getElem?_moved looked with ⟨rfl, rfl⟩ | ⟨differs, here⟩
    · exact not_false
    · exact orderly.only_holder found holds differs here
  refine ⟨?_, ?_, ?_, fun _ _ _ _ => .inr commits, story⟩
  · intro other others looked
    rw [holder]
    exact iff_of_false (released other others looked) nofun
  · intro other others looked claims
    have notHolds := released other others looked
    rcases claims with claims | ⟨_, claims⟩ <;> rw [claims] at notHolds <;>
      exact absurd trivial notHolds
  · intro other others written looked applied
    have notHolds := released other others looked
    rw [applied] at notHolds
    exact absurd trivial notHolds

end

theorem Story.submission (story : Story start state) (noCommits : state.commits = [])
    (found : state.transactions[index]? = some transaction) {records : ρ}
    {applySubmit : ρ → Option ρ} (requested : transaction.request = .submit applySubmit)
    (made : applySubmit state.records = some records) :
    Story start { state.moved index transaction.request .committed with
      link := { state.link with status := .submitted }
      records := records
      holder := none
      commits := state.commits ++ [.submission index] } := by
  have since : state.records = start.records := by
    refine story.spared fun commit member => ?_
    rw [noCommits] at member
    cases member
  refine ⟨?_, ?_, ?_, ?_, ?_⟩
  · intro none
    exact absurd none (append_ne_nil_of_right_ne_nil _ (cons_ne_nil _ _))
  · intro commit last
    rw [getLast?_concat] at last
    cases last
    rfl
  · rw [noCommits]
    exact nofun
  · intro noSubmission
    have submits := noSubmission (.submission index) (mem_append_right _ mem_cons_self)
    cases submits
  · intro other member
    rw [noCommits] at member
    cases mem_singleton.mp member
    exact ⟨_, applySubmit, getElem?_moved_self found, rfl, requested, since ▸ made⟩

theorem Story.revocation (story : Story start state)
    (found : state.transactions[index]? = some transaction)
    (running : transaction.phase.isDone = false) (wasPending : Bool) :
    Story start { state.moved index transaction.request .committed with
      link := { state.link with status := .revoked }
      holder := none
      commits := state.commits ++ [.revocation index wasPending] } := by
  refine ⟨?_, ?_, ?_, ?_, ?_⟩
  · intro none
    exact absurd none (append_ne_nil_of_right_ne_nil _ (cons_ne_nil _ _))
  · intro commit last
    rw [getLast?_concat] at last
    cases last
    rfl
  · intro commit member
    cases commits : state.commits with
    | nil =>
      rw [commits] at member
      cases member
    | cons head rest =>
      rw [commits, cons_append, tail_cons, mem_append] at member
      rcases member with old | new
      · exact story.first commit (by rw [commits]; exact old)
      · rw [mem_singleton.mp new]
        rfl
  · intro noSubmission
    exact story.spared fun commit member => noSubmission commit (mem_append_left _ member)
  · intro other member
    rcases mem_append.mp member with old | new
    · obtain ⟨others, applySubmit, here, done, request, made⟩ := story.made other old
      exact ⟨others, applySubmit, kept_of_running found running other others here done, done,
        request, made⟩
    · cases mem_singleton.mp new

/-- **Every statement keeps the order of the transactions.** -/
theorem Orderly.moves (orderly : Orderly start state)
    (found : state.transactions[index]? = some transaction)
    (moves : Moves state index transaction next) : Orderly start next := by
  cases moves with
  | quiet phase running released free seen =>
    refine ⟨?_, ?_, ?_, ?_, orderly.story.carry rfl rfl rfl (kept_of_running found running)⟩
    · intro other others looked
      rcases getElem?_moved looked with ⟨rfl, rfl⟩ | ⟨_, here⟩
      · exact iff_of_false free (orderly.not_holder found released)
      · exact orderly.holding other others here
    · intro other others looked claims
      rcases getElem?_moved looked with ⟨rfl, rfl⟩ | ⟨_, here⟩
      · rcases claims with rfl | ⟨records, rfl⟩ <;> exact absurd trivial free
      · exact orderly.claiming other others here claims
    · intro other others records looked applied
      rcases getElem?_moved looked with ⟨rfl, rfl⟩ | ⟨_, here⟩
      · obtain rfl : phase = .applied records := applied
        exact absurd trivial free
      · exact orderly.applied other others records here applied
    · intro other others looked doubts
      rcases getElem?_moved looked with ⟨rfl, rfl⟩ | ⟨_, here⟩
      · rcases doubts with doubts | written
        · exact .inl (seen doubts)
        · obtain rfl : phase = .written := written
          exact absurd trivial free
      · exact orderly.doubted other others here doubts
  | claim resolved pending free =>
    have running : transaction.phase.isDone = false := by rw [resolved]; rfl
    refine ⟨orderly.holding_taken free trivial, fun _ _ _ _ => pending, ?_,
      fun _ _ _ _ => .inl pending,
      orderly.story.carry rfl rfl rfl (kept_of_running found running)⟩
    intro other others records looked applied
    rcases getElem?_moved looked with ⟨rfl, rfl⟩ | ⟨_, here⟩
    · cases applied
    · exact orderly.applied other others records here applied
  | overwrite loaded free =>
    have running : transaction.phase.isDone = false := by rw [loaded]; rfl
    refine ⟨orderly.holding_taken free trivial, ?_, ?_, ?_,
      orderly.story.carry rfl rfl rfl (kept_of_running found running)⟩
    · intro other others looked claims
      rcases getElem?_moved looked with ⟨rfl, rfl⟩ | ⟨_, here⟩
      · rcases claims with claims | ⟨_, claims⟩ <;> cases claims
      · exact orderly.claiming other others here claims
    · intro other others records looked applied
      rcases getElem?_moved looked with ⟨rfl, rfl⟩ | ⟨_, here⟩
      · cases applied
      · exact orderly.applied other others records here applied
    · intro other others looked doubts
      rcases getElem?_moved looked with ⟨rfl, rfl⟩ | ⟨_, here⟩
      · exact orderly.doubted _ transaction found (.inl loaded)
      · exact orderly.doubted other others here doubts
  | apply claimed applySubmit requested records made =>
    have running : transaction.phase.isDone = false := by rw [claimed]; rfl
    have holds : transaction.phase.Holds := by rw [claimed]; trivial
    have pending := orderly.claiming index transaction found (.inl claimed)
    refine ⟨?_, fun _ _ _ _ => pending, ?_, fun _ _ _ _ => .inl pending,
      orderly.story.carry rfl rfl rfl (kept_of_running found running)⟩
    · intro other others looked
      rcases getElem?_moved looked with ⟨rfl, rfl⟩ | ⟨_, here⟩
      · exact iff_of_true trivial ((orderly.holding _ transaction found).mp holds)
      · exact orderly.holding other others here
    · intro other others written looked applied
      rcases getElem?_moved looked with ⟨rfl, rfl⟩ | ⟨_, here⟩
      · cases applied
        exact ⟨applySubmit, requested, made⟩
      · exact orderly.applied other others written here applied
  | submission records applied =>
    have holds : transaction.phase.Holds := by rw [applied]; trivial
    have pending := orderly.claiming index transaction found (.inr ⟨records, applied⟩)
    obtain ⟨applySubmit, requested, made⟩ := orderly.applied index transaction records found applied
    exact orderly.committed found holds rfl rfl
      (append_ne_nil_of_right_ne_nil _ (cons_ne_nil _ _))
      (orderly.story.submission (orderly.story.commits_eq_nil pending) found requested made)
  | revocation written =>
    have running : transaction.phase.isDone = false := by rw [written]; rfl
    have holds : transaction.phase.Holds := by rw [written]; trivial
    exact orderly.committed found holds rfl rfl
      (append_ne_nil_of_right_ne_nil _ (cons_ne_nil _ _))
      (orderly.story.revocation found running _)
  | fail error running =>
    refine ⟨?_, ?_, ?_, ?_, orderly.story.carry rfl rfl rfl (kept_of_running found running)⟩
    · intro other others looked
      rcases getElem?_moved looked with ⟨rfl, rfl⟩ | ⟨differs, here⟩
      · refine iff_of_false not_false ?_
        dsimp only
        split
        · exact nofun
        · assumption
      · rw [orderly.holding other others here]
        dsimp only
        split
        · next mine =>
            refine iff_of_false (fun theirs => ?_) nofun
            exact differs (some.inj (theirs.symm.trans mine))
        · exact Iff.rfl
    · intro other others looked claims
      rcases getElem?_moved looked with ⟨rfl, rfl⟩ | ⟨_, here⟩
      · rcases claims with claims | ⟨_, claims⟩ <;> cases claims
      · exact orderly.claiming other others here claims
    · intro other others records looked applied
      rcases getElem?_moved looked with ⟨rfl, rfl⟩ | ⟨_, here⟩
      · cases applied
      · exact orderly.applied other others records here applied
    · intro other others looked doubts
      rcases getElem?_moved looked with ⟨rfl, rfl⟩ | ⟨_, here⟩
      · rcases doubts with doubts | doubts <;> cases doubts
      · exact orderly.doubted other others here doubts

theorem Orderly.step (orderly : Orderly start state)
    (stepped : LinkUse.step state action = some next) : Orderly start next := by
  obtain ⟨transaction, found, moves⟩ := moves_of_step stepped
  exact orderly.moves found moves

/-! ## What a run keeps, and when a used link stays used -/

structure Used (start state : System ρ) : Prop where
  /-- At most one submission's changes are committed, and they are the only ones. -/
  once : (state.commits.filter Commit.isSubmission).length ≤ 1
  records : (∀ commit ∈ state.commits, commit.isSubmission = false) ∧ state.records = start.records ∨
    ∃ index transaction applySubmit, .submission index ∈ state.commits ∧
      state.transactions[index]? = some transaction ∧ transaction.phase = .committed ∧
      transaction.request = .submit applySubmit ∧ applySubmit start.records = some state.records
  /-- None is committed after a revocation of the pending link. -/
  unrevoked : ∀ before index after,
    state.commits = before ++ .revocation index true :: after →
      ∀ commit ∈ after, commit.isSubmission = false
  stays : (∃ index, .submission index ∈ state.commits) → state.link.status = .submitted

/-- A statement that makes its transaction fail changes neither the link nor the records. -/
def FailsCleanly (state : System ρ) : Prop :=
  ∀ action next transaction error, step state action = some next →
    next.transactions[action.transaction]? = some transaction →
    transaction.phase = .failed error → next.link = state.link ∧ next.records = state.records

section

variable (start : System ρ) (actions : List Action)

/-- In every state of the run the link was used at most once and stays used, and no submission
that fails leaves a mark. -/
def UsedOnce : Prop :=
  ∀ state, Trace.Passes step start actions state → Used start state ∧ FailsCleanly state

/-- No revocation of the run commits its write over a submitted link. -/
def RevokesInTime : Prop :=
  ∀ before index after state transaction, actions = before ++ ⟨index, .commit⟩ :: after →
    Trace.run step start before = some state → state.transactions[index]? = some transaction →
    transaction.request = .revoke → transaction.phase = .written → state.link.status ≠ .submitted

end

variable {link : FormLink} {records : ρ} {requests : List (Request ρ)} {actions : List Action}

theorem orderly_of_passes (passes : Trace.Passes step (begin link records requests) actions state) :
    Orderly (begin link records requests) state :=
  passes.invariant (Orderly (begin link records requests)) (orderly_begin link records requests)
    fun _ _ _ _ _ _ _ stepped orderly => orderly.step stepped

theorem failsCleanly (state : System ρ) : FailsCleanly state := by
  intro action next transaction error stepped found failed
  obtain ⟨acting, here, moves⟩ := moves_of_step stepped
  cases moves with
  | submission written applied =>
    rw [getElem?_moved_self here] at found
    cases found
    cases failed
  | revocation written =>
    rw [getElem?_moved_self here] at found
    cases found
    cases failed
  | _ => exact ⟨rfl, rfl⟩

theorem Story.length_submissions (story : Story start state) :
    (state.commits.filter Commit.isSubmission).length ≤ 1 := by
  have first := story.first
  cases commits : state.commits with
  | nil => exact Nat.zero_le 1
  | cons head rest =>
    rw [commits] at first
    have none : rest.filter Commit.isSubmission = [] :=
      filter_eq_nil_iff.mpr fun commit member => by simpa using first commit member
    rw [filter_cons, none]
    split
    · exact Nat.le_refl 1
    · exact Nat.zero_le 1

theorem Story.unrevoked (story : Story start state) {before after : List Commit} {wasPending : Bool}
    (split : state.commits = before ++ .revocation index wasPending :: after) :
    ∀ commit ∈ after, commit.isSubmission = false := by
  intro commit member
  refine story.first commit ?_
  rw [split]
  cases before with
  | nil => exact member
  | cons head rest => exact mem_append_right _ (mem_cons_of_mem _ member)

/-- Whatever the interleaving, a link is used as it should be if it stays submitted. -/
theorem Used.of_run (orderly : Orderly start state)
    (stays : (∃ index, .submission index ∈ state.commits) → state.link.status = .submitted) :
    Used start state where
  once := orderly.story.length_submissions
  records := by
    by_cases submits : ∃ commit ∈ state.commits, commit.isSubmission = true
    · obtain ⟨commit, member, isSubmission⟩ := submits
      cases commit with
      | submission index =>
        obtain ⟨transaction, applySubmit, rest⟩ := orderly.story.made index member
        exact .inr ⟨index, transaction, applySubmit, member, rest⟩
      | revocation _ _ => cases isSubmission
    · have none : ∀ commit ∈ state.commits, commit.isSubmission = false := fun commit member =>
        Bool.eq_false_iff.mpr fun isSubmission => submits ⟨commit, member, isSubmission⟩
      exact .inl ⟨none, orderly.story.spared none⟩
  unrevoked := fun _ _ _ split => orderly.story.unrevoked split
  stays := stays

/-- A transaction that has overwritten the link is a revocation, and only its commit logs it. -/
theorem commit_of_written (stepped : step state action = some next)
    (found : state.transactions[action.transaction]? = some transaction)
    (written : transaction.phase = .written) (logged : next.commits ≠ state.commits) :
    action.act = .commit ∧ transaction.request = .revoke := by
  obtain ⟨request, phase⟩ := transaction
  obtain rfl : phase = .written := written
  unfold step at stepped
  simp only [found] at stepped
  cases act : action.act with
  | fail error =>
    simp only [act, failStep, Phase.isDone] at stepped
    cases stepped
    exact absurd rfl logged
  | commit =>
    refine ⟨rfl, ?_⟩
    cases request with
    | submit applySubmit => simp [act, submitStep] at stepped
    | revoke => rfl
  | _ => cases request <;> simp [act, submitStep, revokeStep] at stepped

theorem stays_step (stays : (∃ index, .submission index ∈ state.commits) →
      state.link.status = .submitted)
    (stepped : step state action = some next)
    (inTime : ∀ transaction, state.transactions[action.transaction]? = some transaction →
      action.act = .commit → transaction.request = .revoke → transaction.phase = .written →
        state.link.status ≠ .submitted) :
    (∃ index, .submission index ∈ next.commits) → next.link.status = .submitted := by
  obtain ⟨transaction, found, moves⟩ := moves_of_step stepped
  cases moves with
  | submission records applied => exact fun _ => rfl
  | revocation written =>
    rintro ⟨index, member⟩
    rcases mem_append.mp member with old | new
    · obtain ⟨commits, revokes⟩ := commit_of_written stepped found written
        fun same => by simpa using congrArg List.length same
      exact absurd (stays ⟨index, old⟩) (inTime transaction found commits revokes written)
    · cases mem_singleton.mp new
  | _ => exact stays

theorem stays_of_revokesInTime (inTime : RevokesInTime (begin link records requests) actions)
    (passes : Trace.Passes step (begin link records requests) actions state) :
    (∃ index, .submission index ∈ state.commits) → state.link.status = .submitted := by
  refine passes.invariant (fun state =>
    (∃ index, .submission index ∈ state.commits) → state.link.status = .submitted)
    (fun ⟨_, member⟩ => nomatch member) ?_
  intro before action after state next split ran stepped stays
  refine stays_step stays stepped fun transaction found commits revokes written => ?_
  refine inTime before action.transaction after state transaction ?_ ran found revokes written
  rw [split, ← commits]

theorem not_usedOnce_of_overwrite {before after : List Action}
    (split : actions = before ++ ⟨index, .commit⟩ :: after)
    (ran : Trace.run step (begin link records requests) before = some state)
    (found : state.transactions[index]? = some transaction)
    (revokes : transaction.request = .revoke) (written : transaction.phase = .written)
    (submitted : state.link.status = .submitted) :
    ¬UsedOnce (begin link records requests) actions := by
  intro usedOnce
  have orderly : Orderly (begin link records requests) state :=
    orderly_of_passes ⟨before, _, split, ran⟩
  have some : state.commits ≠ [] :=
    (orderly.doubted index transaction found (.inr written)).resolve_left fun pending => by
      rw [submitted] at pending
      cases pending
  obtain ⟨winner, member⟩ := orderly.story.exists_submission submitted some
  obtain ⟨request, phase⟩ := transaction
  obtain rfl : request = .revoke := revokes
  obtain rfl : phase = .written := written
  have stepped : step state ⟨index, .commit⟩ = revokeStep state index .written .commit := by
    unfold step
    simp only [found]
  have passes := Trace.Passes.next split ran (stepped.trans rfl)
  have stays := (usedOnce _ passes).1.stays ⟨winner, mem_append_left _ member⟩
  cases stays

/-- A run uses its link at most once, and for good, exactly if no revocation commits over a
submitted link. -/
theorem usedOnce_iff (link : FormLink) (records : ρ) (requests : List (Request ρ))
    (actions : List Action) :
    UsedOnce (begin link records requests) actions ↔
      RevokesInTime (begin link records requests) actions := by
  constructor
  · intro usedOnce before index after state transaction split ran found revokes written submitted
    exact not_usedOnce_of_overwrite split ran found revokes written submitted usedOnce
  · intro inTime state passes
    exact ⟨Used.of_run (orderly_of_passes passes) (stays_of_revokesInTime inTime passes), failsCleanly state⟩

/-- A submission and a revocation that reads the link before the submission commits. -/
def overtaken : List Action :=
  [⟨0, .read 0⟩, ⟨0, .write⟩, ⟨1, .read 0⟩, ⟨0, .apply⟩, ⟨0, .commit⟩, ⟨1, .write⟩, ⟨1, .commit⟩]

/-- The submission is committed, and its link ends as revoked. -/
theorem not_usedOnce_overtaken :
    ¬UsedOnce (begin { targetRecordId := some 0 } 0 [.submit fun count => some (count + 1), .revoke])
      overtaken := by
  intro usedOnce
  have passes : Trace.Passes step (begin { targetRecordId := some 0 } 0
      [.submit fun count => some (count + 1), .revoke]) overtaken _ :=
    ⟨overtaken, [], (append_nil _).symm, rfl⟩
  have stays := (usedOnce _ passes).1.stays ⟨0, mem_cons_self⟩
  cases stays

/-! ## The records in the order of the commits -/

/-- What a commit makes of the records. -/
def Commit.replay (transactions : List (Transaction ρ)) (records : ρ) : Commit → Option ρ
  | .revocation _ _ => some records
  | .submission index =>
    match transactions[index]?.map Transaction.request with
    | some (.submit applySubmit) => applySubmit records
    | _ => none

/-- The records and the link are what the commits, one after the other, make of them, and at most
the first commit is a submission. -/
def Serializable (start : System ρ) (actions : List Action) : Prop :=
  ∀ state, Trace.Passes step start actions state →
    state.commits.foldlM (Commit.replay state.transactions) start.records = some state.records ∧
      state.link.status = (state.commits.getLast?.map Commit.status).getD start.link.status ∧
      ∀ commit ∈ state.commits.tail, commit.isSubmission = false

theorem foldlM_replay_of_none {transactions : List (Transaction ρ)} {commits : List Commit}
    (none : ∀ commit ∈ commits, commit.isSubmission = false) (records : ρ) :
    commits.foldlM (Commit.replay transactions) records = some records := by
  induction commits with
  | nil => rfl
  | cons commit rest ih =>
    cases commit with
    | submission => cases none _ mem_cons_self
    | revocation => exact ih fun commit member => none commit (mem_cons_of_mem _ member)

/-- **However submissions and revocations of a link interleave, their commits are serial.** -/
theorem serializable (link : FormLink) (records : ρ) (requests : List (Request ρ))
    (actions : List Action) : Serializable (begin link records requests) actions := by
  intro state passes
  have story := (orderly_of_passes passes).story
  have first := story.first
  refine ⟨?_, ?_, first⟩
  · cases commits : state.commits with
    | nil => exact congrArg some (story.spared (by simp [commits])).symm
    | cons commit rest =>
      rw [commits] at first
      cases commit with
      | submission index =>
        obtain ⟨transaction, applySubmit, found, -, request, made⟩ :=
          story.made index (commits ▸ mem_cons_self)
        have applies : Commit.replay state.transactions records (.submission index) =
            some state.records := by
          simp only [Commit.replay, found, map_some, request]
          exact made
        rw [foldlM_cons]
        exact (congrArg (· >>= _) applies).trans (foldlM_replay_of_none first _)
      | revocation index wasPending =>
        have none : ∀ commit ∈ state.commits, commit.isSubmission = false := by
          rw [commits]
          exact forall_mem_cons.mpr ⟨rfl, first⟩
        rw [← commits, foldlM_replay_of_none none, story.spared none]
  · cases last : state.commits.getLast? with
    | none => exact congrArg FormLink.status (story.untouched (getLast?_eq_none_iff.mp last))
    | some commit => exact story.last commit last

end RedArchKM.Forms.LinkUse
