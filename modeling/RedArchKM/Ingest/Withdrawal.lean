import RedArchKM.Ingest.Pipeline

/-!
# Withdrawing a document

A cancel or a deletion purges the index and then commits. A job that runs by then is not stopped,
and a copy that is past its last look at the cancel flag, or whose task carries none, still
submits.

`leavesNothing_of_undisturbed` says when the promise holds nevertheless: no job has anything left
to write when the purge lands, and no submit is accepted from then on until the document is opened
again.
-/

namespace RedArchKM.Ingest

open List Option

open Access (Folder FolderUpdate Org twoRegions)
open Lib (Moment History)

/-! ## Effects that close the document -/

namespace Action

def withdraws : Action → Bool
  | .deleteRow => true
  | .updateRow revision => revision.processingStatus = some .cancelled
  | _ => false

theorem keeps_of_withdraws {action : Action} (withdraws : action.withdraws = true) :
    action.purgesVectors = false ∧ action.purgesKnowledge = false := by
  cases action <;> simp_all [Action.withdraws, Action.purgesVectors, Action.purgesKnowledge]

end Action

/-- The purge of the knowledge follows that of the vectors, and withdrawing is the last effect
of a request. -/
def Orderly : List Action → Prop
  | [] => True
  | action :: rest =>
    (action.withdraws = true → rest = []) ∧
    (action.purgesVectors = true → ∃ later ∈ rest, later.purgesKnowledge = true) ∧
    Orderly rest

theorem orderly_append {before after : List Action}
    (none : ∀ action ∈ before, action.withdraws = false) (first : Orderly before)
    (second : Orderly after) : Orderly (before ++ after) := by
  induction before with
  | nil => exact second
  | cons action rest ih =>
    refine ⟨fun withdraws => ?_, fun purges => ?_,
      ih (fun other member => none other (mem_cons_of_mem _ member)) first.2.2⟩
    · rw [none action mem_cons_self] at withdraws
      cases withdraws
    · obtain ⟨later, member, knowledge⟩ := first.2.1 purges
      exact ⟨later, mem_append_left _ member, knowledge⟩

variable {todo : List Action}

theorem orderly_of_plain
    (plain : ∀ action ∈ todo, action.withdraws = false ∧ action.purgesVectors = false) :
    Orderly todo := by
  induction todo with
  | nil => trivial
  | cons action rest ih =>
    obtain ⟨stays, keeps⟩ := plain action mem_cons_self
    refine ⟨fun withdraws => ?_, fun purges => ?_,
      ih fun other member => plain other (mem_cons_of_mem _ member)⟩
    · rw [stays] at withdraws
      cases withdraws
    · rw [keeps] at purges
      cases purges

theorem orderly_purgeBrainVectors : Orderly purgeBrainVectors := by
  simp [Orderly, purgeBrainVectors, Action.withdraws, Action.purgesVectors, Action.purgesKnowledge]

theorem orderly_handle {org : Org} {state : State} {call : Call}
    (handled : state.handle org call = some todo) :
    Orderly todo ∧ ((∃ action ∈ todo, action.withdraws = true) →
      ∃ action ∈ todo, action.purgesVectors = true) := by
  cases call with
  | create body =>
    obtain ⟨-, handled⟩ : _ ∧ createDocument _ _ = some todo := by simpa [State.handle] using handled
    obtain ⟨row, ⟨-, rfl⟩ | ⟨task, -, rfl⟩⟩ := createDocument_cases handled <;>
      exact ⟨by simp [Orderly, Action.withdraws, Action.purgesVectors], by grind [Action.withdraws]⟩
  | upload body =>
    obtain ⟨-, handled⟩ : _ ∧ uploadDocument _ _ = some todo := by simpa [State.handle] using handled
    obtain ⟨url, row, task, -, -, rfl⟩ := uploadDocument_cases handled
    exact ⟨by simp [Orderly, Action.withdraws, Action.purgesVectors], by grind [Action.withdraws]⟩
  | upsertNew documentKey data =>
    obtain ⟨-, handled⟩ : _ ∧ upsertCreate _ _ _ = some todo := by simpa [State.handle] using handled
    obtain ⟨row, task, -, rfl | ⟨url, -, rfl⟩⟩ := upsertCreate_cases handled <;>
      exact ⟨by simp [Orderly, Action.withdraws, Action.purgesVectors], by grind [Action.withdraws]⟩
  | upsert data stuckPending =>
    obtain ⟨row, -, handled⟩ := bind_eq_some_iff.mp handled
    obtain ⟨newContent, handled⟩ | ⟨scoping, rfl⟩ := upsertReplace_cases handled
    · obtain ⟨stores, discards, revision, task, rfl, status, -, -, stored, discarded⟩ :=
        requeue_cases handled
      have purge : Orderly [.reachBrain, .purgeVectors, .purgeKnowledge] := by
        simp [Orderly, Action.withdraws, Action.purgesVectors, Action.purgesKnowledge]
      have rest : Orderly (stores ++ [.updateRow revision] ++ discards ++
          [.dispatchIngest task true, .persistTaskId]) := by
        refine orderly_of_plain fun action member => ?_
        grind [Action.withdraws, Action.purgesVectors]
      refine ⟨?_, fun _ => ⟨.purgeVectors, by simp, rfl⟩⟩
      simpa only [append_assoc] using
        orderly_append (by simp [Action.withdraws]) purge rest
    · exact ⟨by simp [Orderly, Action.withdraws, Action.purgesVectors], by grind [Action.withdraws]⟩
  | putContent text =>
    obtain ⟨row, -, handled⟩ := bind_eq_some_iff.mp handled
    obtain ⟨url, -, task, -, rfl⟩ | ⟨-, -, task, -, rfl⟩ | ⟨-, -, rfl⟩ :=
      updateDocumentContent_cases handled <;>
      refine ⟨?_, fun _ => ⟨.purgeVectors, by simp, rfl⟩⟩ <;>
      simp [Orderly, Action.withdraws, Action.purgesVectors, Action.purgesKnowledge]
  | reprocess =>
    obtain ⟨row, -, handled⟩ := bind_eq_some_iff.mp handled
    obtain ⟨task, -, rfl⟩ := reprocessDocument_cases handled
    refine ⟨?_, fun _ => ⟨.purgeVectors, by simp, rfl⟩⟩
    simp [Orderly, Action.withdraws, Action.purgesVectors, Action.purgesKnowledge]
  | patch body =>
    obtain ⟨row, -, handled⟩ := bind_eq_some_iff.mp handled
    obtain ⟨revision, -, -, status, rfl | rfl⟩ := updateDocument_cases handled <;>
      exact ⟨by simp [Orderly, Action.withdraws, Action.purgesVectors, status],
        by grind [Action.withdraws]⟩
  | patchFolder folderId body =>
    obtain ⟨scopings, rfl⟩ := updateFolder_cases handled
    exact ⟨orderly_of_plain (by simp [Action.withdraws, Action.purgesVectors]),
      by grind [Action.withdraws]⟩
  | cancel =>
    obtain ⟨row, -, handled⟩ := bind_eq_some_iff.mp handled
    unfold cancelDocumentIngest at handled
    split at handled
    · cases handled
      have revokes : Orderly (row.celeryTaskId.toList.map .revoke ++ [.lockRow]) :=
        orderly_of_plain fun action member => by
          grind [Action.withdraws, Action.purgesVectors]
      refine ⟨?_, fun _ => ⟨.purgeVectors, by simp [purgeBrainVectors], rfl⟩⟩
      have before := orderly_append (fun action member => by grind [Action.withdraws]) revokes
        orderly_purgeBrainVectors
      refine orderly_append (fun action member => ?_) before ⟨fun _ => rfl, nofun, trivial⟩
      grind [Action.withdraws, purgeBrainVectors]
    · cases handled
  | delete =>
    obtain ⟨row, -, rfl⟩ := map_eq_some_iff.mp handled
    have discards : Orderly ([.lockRow] ++ row.documentUrl.toList.map .discardObject) :=
      orderly_of_plain fun action member => by grind [Action.withdraws, Action.purgesVectors]
    refine ⟨?_, fun _ => ⟨.purgeVectors, by simp [deleteDocument, purgeBrainVectors], rfl⟩⟩
    have before := orderly_append (fun action member => by grind [Action.withdraws]) discards
      orderly_purgeBrainVectors
    refine orderly_append (fun action member => ?_) before ⟨fun _ => rfl, nofun, trivial⟩
    grind [Action.withdraws, purgeBrainVectors]

/-! ## Closed documents -/

def Request.Withdrawing (request : Request) : Prop :=
  ∃ action ∈ request.todo, action.withdraws = true

instance (request : Request) : Decidable request.Withdrawing :=
  inferInstanceAs (Decidable (∃ action ∈ request.todo, _))

namespace State

def Shut (state : State) : Prop :=
  state.withdrawn = true ∨
    ∃ request ∈ state.requests, request.Withdrawing ∧
      ∀ action ∈ request.todo, action.purgesVectors = false

instance (state : State) : Decidable state.Shut :=
  inferInstanceAs (Decidable (_ ∨ ∃ request ∈ state.requests, _))

def Purged (state : State) : Prop :=
  state.withdrawn = true ∨
    ∃ request ∈ state.requests, request.Withdrawing ∧
      (∀ action ∈ request.todo, action.purgesVectors = false) ∧
      ∀ action ∈ request.todo, action.purgesKnowledge = false

theorem Purged.shut {state : State} (purged : state.Purged) : state.Shut := by
  rcases purged with withdrawn | ⟨request, member, withdrawing, vectors, -⟩
  · exact .inl withdrawn
  · exact .inr ⟨request, member, withdrawing, vectors⟩

/-- No background job has anything left to write. -/
def Spent (state : State) : Prop :=
  ∀ todo ∈ state.jobs, ∀ effect ∈ todo, effect.writes = false

instance (state : State) : Decidable state.Spent :=
  inferInstanceAs (Decidable (∀ todo ∈ state.jobs, _))

/-- A closed document has nothing in the index, and nothing is on its way there. -/
structure Cleared (state : State) : Prop where
  orderly : ∀ request ∈ state.requests, Orderly request.todo
  spent : state.Shut → state.Spent
  vectors : state.Shut → state.index.points = [] ∧ state.index.records = []
  knowledge : state.Purged → state.index.knowledge = []

theorem Cleared.congr {state next : State} (cleared : state.Cleared)
    (withdrawn : next.withdrawn = state.withdrawn) (requests : next.requests = state.requests)
    (jobs : next.jobs = state.jobs) (index : next.index = state.index) : next.Cleared := by
  have shut : next.Shut → state.Shut := by
    rw [Shut, Shut, withdrawn, requests]
    exact id
  have purged : next.Purged → state.Purged := by
    rw [Purged, Purged, withdrawn, requests]
    exact id
  refine ⟨requests ▸ cleared.orderly, fun closed => ?_, fun closed => ?_, fun closed => ?_⟩
  · rw [Spent, jobs]
    exact cleared.spent (shut closed)
  · rw [index]
    exact cleared.vectors (shut closed)
  · rw [index]
    exact cleared.knowledge (purged closed)

end State

/-! ## What may not happen -/

def Copy.submits (copy : Copy) : Option String :=
  match copy.stage with
  | .submitting text => some text
  | _ => none

/-- The purge of a request that withdraws the document succeeds and finds no job with anything
left to write, and a text with chunks is not submitted to an idle registry while the document is
closed. -/
def Undisturbed (engine : Engine) (moment : Moment Event State) : Prop :=
  match moment.event with
  | .perform i ok =>
    ∀ request ∈ moment.before.requests[i]?, request.Withdrawing →
      ∀ action ∈ request.todo.head?,
        (action.purgesVectors = true → ok = true ∧ moment.before.Spent) ∧
        (action.purgesKnowledge = true → ok = true)
  | .proceed k =>
    ∀ copy ∈ moment.before.copies[k]?, ∀ text ∈ copy.submits,
      engine.createChunks text ≠ [] → moment.before.registry ≠ some .running →
        ¬ moment.before.Shut
  | _ => True

instance (engine : Engine) (moment : Moment Event State) :
    Decidable (Undisturbed engine moment) := by
  unfold Undisturbed
  split <;> infer_instance

/-- Nothing is left of a withdrawn document once all is quiet. -/
def State.LeavesNothing (state : State) : Prop :=
  state.withdrawn = true → state.Quiet → state.index = {}

namespace State

variable {engine : Engine} {org : Org} {state next : State}

/-- **A job keeps the index of a closed document empty.** -/
theorem cleared_work {k : Nat} {todo : List IndexEffect} {ids : List Nat} {ok : Bool}
    (cleared : state.Cleared) (found : state.jobs[k]? = some todo)
    (worked : state.work k todo ids ok = some next) : next.Cleared := by
  have member := mem_of_getElem? found
  have kept : next.withdrawn = state.withdrawn ∧ next.requests = state.requests := by
    cases todo <;> grind [work]
  have shut : next.Shut → state.Shut := by
    rw [Shut, Shut, kept.1, kept.2]
    exact id
  have purged : next.Purged → state.Purged := by
    rw [Purged, Purged, kept.1, kept.2]
    exact id
  have spent : ∀ closed : state.Shut, next.Spent := by
    intro closed other otherMember effect effectMember
    have before := cleared.spent closed
    cases todo <;> grind [work, Spent, mem_of_mem_eraseIdx, mem_or_eq_of_mem_set]
  have index : state.Shut → next.index = state.index ∨
      ∃ effect : IndexEffect, effect.writes = false ∧ next.index = effect.apply ids state.index := by
    intro closed
    have before := cleared.spent closed todo member
    cases todo <;> grind [work]
  refine ⟨kept.2 ▸ cleared.orderly, fun closed => spent (shut closed), fun closed => ?_,
    fun closed => ?_⟩
  · obtain ⟨points, records⟩ := cleared.vectors (shut closed)
    rcases index (shut closed) with same | ⟨effect, idle, same⟩
    · exact same ▸ ⟨points, records⟩
    · cases effect <;> simp_all [IndexEffect.writes, IndexEffect.apply]
  · have knowledge := cleared.knowledge (purged closed)
    rcases index (shut closed.shut) with same | ⟨effect, idle, same⟩
    · exact same ▸ knowledge
    · cases effect <;> simp_all [IndexEffect.writes, IndexEffect.apply]

theorem cleared_arrive {call : Call} {todo : List Action} {lock : Option Nat}
    (cleared : state.Cleared) (handled : state.handle org call = some todo) :
    State.Cleared { state with requests := state.requests ++ [{ todo := todo }], lock := lock } := by
  have before : (∃ action ∈ todo, action.withdraws = true) →
      ∃ action ∈ todo, action.purgesVectors = true := (orderly_handle handled).2
  have shut : ∀ requests : List Request, requests = state.requests ++ [{ todo := todo }] →
      (∃ request ∈ requests, request.Withdrawing ∧
        ∀ action ∈ request.todo, action.purgesVectors = false) →
      ∃ request ∈ state.requests, request.Withdrawing ∧
        ∀ action ∈ request.todo, action.purgesVectors = false := by
    rintro requests rfl ⟨request, member, withdrawing, vectors⟩
    rcases mem_append.mp member with old | new
    · exact ⟨request, old, withdrawing, vectors⟩
    · obtain rfl := mem_singleton.mp new
      obtain ⟨action, pending, purges⟩ := before withdrawing
      rw [vectors action pending] at purges
      cases purges
  have closed : State.Shut { state with
      requests := state.requests ++ [{ todo := todo }], lock := lock } → state.Shut := by
    rintro (withdrawn | open_)
    · exact .inl withdrawn
    · exact .inr (shut _ rfl open_)
  refine ⟨fun request member => ?_, fun now => cleared.spent (closed now),
    fun now => cleared.vectors (closed now), fun now => ?_⟩
  · rcases mem_append.mp member with old | new
    · exact cleared.orderly request old
    · obtain rfl := mem_singleton.mp new
      exact (orderly_handle handled).1
  · refine cleared.knowledge ?_
    rcases now with withdrawn | ⟨request, member, withdrawing, vectors, knowledge⟩
    · exact .inl withdrawn
    · rcases mem_append.mp member with old | new
      · exact .inr ⟨request, old, withdrawing, vectors, knowledge⟩
      · obtain rfl := mem_singleton.mp new
        obtain ⟨action, pending, purges⟩ := before withdrawing
        rw [vectors action pending] at purges
        cases purges

variable {action : Action}

theorem purged_vectors {index : Index} {ok : Bool}
    (empty : (index.points = [] ∧ index.records = []) ∨ ok = true ∧ action.purgesVectors = true) :
    (purged index ok action).points = [] ∧ (purged index ok action).records = [] := by
  cases action <;> cases ok <;> simp_all [purged, IndexEffect.apply, Action.purgesVectors]

theorem purged_knowledge {index : Index} {ok : Bool}
    (empty : index.knowledge = [] ∨ ok = true ∧ action.purgesKnowledge = true) :
    (purged index ok action).knowledge = [] := by
  cases action <;> cases ok <;> simp_all [purged, IndexEffect.apply, Action.purgesKnowledge]

theorem withdrawn_perform {i : Nat} {request : Request} {rest : List Action} {ok : Bool}
    (performed : state.perform org i request rest ok action = some next)
    (withdrawn : next.withdrawn = true) : state.withdrawn = true ∨ action.withdraws = true := by
  cases action <;> grind [perform, proceedWith, abort, Action.withdraws]

section

variable (cleared : state.Cleared)

include cleared

/-- **An effect of a request keeps the index of a closed document empty**, and the purge of a
withdrawing request empties it. -/
theorem cleared_perform {i : Nat} {request : Request} {rest : List Action} {ok : Bool}
    (found : state.requests[i]? = some request) (todo : request.todo = action :: rest)
    (performed : state.perform org i request rest ok action = some next)
    (undisturbed : request.Withdrawing → (action.purgesVectors = true →
      ok = true ∧ state.Spent) ∧ (action.purgesKnowledge = true → ok = true)) :
    next.Cleared := by
  have member := mem_of_getElem? found
  obtain ⟨ends, followed, orderly⟩ : Orderly (action :: rest) :=
    todo ▸ cleared.orderly request member
  obtain ⟨after, left, requests⟩ := perform_requests performed
  obtain ⟨-, -, -, -, jobs, -⟩ := perform_keeps performed
  have index := perform_index performed
  -- What withdraws the document is through with its purge.
  have through : action.withdraws = true → state.Purged := by
    intro withdraws
    have alone : request.todo = [action] := by rw [todo, ends withdraws]
    obtain ⟨keepsVectors, keepsKnowledge⟩ := Action.keeps_of_withdraws withdraws
    exact .inr ⟨request, member, ⟨action, by simp [alone], withdraws⟩, by simp [alone, keepsVectors],
      by simp [alone, keepsKnowledge]⟩
  have shut : next.Shut → state.Shut ∨ request.Withdrawing ∧ action.purgesVectors = true := by
    rintro (withdrawn | ⟨other, otherMember, withdrawing, vectors⟩)
    · rcases withdrawn_perform performed withdrawn with before | withdraws
      · exact .inl (.inl before)
      · exact .inl (through withdraws).shut
    · rw [requests] at otherMember
      rcases mem_or_eq_of_mem_set otherMember with old | rfl
      · exact .inl (.inr ⟨other, old, withdrawing, vectors⟩)
      · obtain ⟨pending, inside, withdraws⟩ := withdrawing
        rcases left with same | same
        · rw [same] at inside vectors
          have here : request.Withdrawing := ⟨pending, todo ▸ mem_cons_of_mem _ inside, withdraws⟩
          cases purges : action.purgesVectors with
          | true => exact .inr ⟨here, rfl⟩
          | false =>
            refine .inl (.inr ⟨request, member, here, ?_⟩)
            rw [todo]
            exact forall_mem_cons.mpr ⟨purges, vectors⟩
        · rw [same] at inside
          cases inside
  have purged : next.Purged → state.Purged ∨
      request.Withdrawing ∧ action.purgesKnowledge = true := by
    rintro (withdrawn | ⟨other, otherMember, withdrawing, vectors, knowledge⟩)
    · rcases withdrawn_perform performed withdrawn with before | withdraws
      · exact .inl (.inl before)
      · exact .inl (through withdraws)
    · rw [requests] at otherMember
      rcases mem_or_eq_of_mem_set otherMember with old | rfl
      · exact .inl (.inr ⟨other, old, withdrawing, vectors, knowledge⟩)
      · obtain ⟨pending, inside, withdraws⟩ := withdrawing
        rcases left with same | same
        · rw [same] at inside vectors knowledge
          have here : request.Withdrawing := ⟨pending, todo ▸ mem_cons_of_mem _ inside, withdraws⟩
          cases purges : action.purgesKnowledge with
          | true => exact .inr ⟨here, rfl⟩
          | false =>
            have keeps : action.purgesVectors = false := by
              refine Bool.eq_false_iff.mpr fun vectorsNow => ?_
              obtain ⟨later, pendingLater, knowledgeLater⟩ := followed vectorsNow
              rw [knowledge later pendingLater] at knowledgeLater
              cases knowledgeLater
            refine .inl (.inr ⟨request, member, here, ?_, ?_⟩) <;> rw [todo]
            · exact forall_mem_cons.mpr ⟨keeps, vectors⟩
            · exact forall_mem_cons.mpr ⟨purges, knowledge⟩
        · rw [same] at inside
          cases inside
  refine ⟨fun other otherMember => ?_, fun closed => ?_, fun closed => ?_, fun closed => ?_⟩
  · rw [requests] at otherMember
    rcases mem_or_eq_of_mem_set otherMember with old | rfl
    · exact cleared.orderly other old
    · rcases left with same | same <;> rw [same]
      · exact orderly
      · trivial
  · rw [Spent, jobs]
    rcases shut closed with before | ⟨withdrawing, purges⟩
    · exact cleared.spent before
    · exact ((undisturbed withdrawing).1 purges).2
  · rw [index]
    refine purged_vectors ?_
    rcases shut closed with before | ⟨withdrawing, purges⟩
    · exact .inl (cleared.vectors before)
    · exact .inr ⟨((undisturbed withdrawing).1 purges).1, purges⟩
  · rw [index]
    refine purged_knowledge ?_
    rcases purged closed with before | ⟨withdrawing, purges⟩
    · exact .inl (cleared.knowledge before)
    · exact .inr ⟨(undisturbed withdrawing).2 purges, purges⟩

/-- **A copy keeps the index of a closed document empty** unless its submit is accepted. -/
theorem cleared_proceed {k : Nat} {copy : Copy} {task : Task}
    (proceeded : state.proceed engine k copy task = some next)
    (undisturbed : ∀ text ∈ copy.submits, engine.createChunks text ≠ [] →
      state.registry ≠ some .running → ¬ state.Shut) :
    next.Cleared := by
  rcases proceed_cases proceeded with ⟨stage, status, callbacks, -, -, -, rfl⟩ |
    ⟨callbacks, -, rfl⟩ | ⟨text, submits, rfl⟩
  · exact cleared.congr rfl rfl rfl rfl
  · exact cleared.congr rfl rfl rfl rfl
  · unfold submit
    split
    · exact cleared.congr rfl rfl rfl rfl
    · rename_i idle
      have before : (state.setStage k copy .polling).Cleared := cleared.congr rfl rfl rfl rfl
      refine ⟨before.orderly, fun closed todo member => ?_, before.vectors, before.knowledge⟩
      rcases mem_append.mp member with old | new
      · exact before.spent closed todo old
      · -- A text without chunks is all that may be submitted now.
        obtain rfl := mem_singleton.mp new
        have chunkless : engine.createChunks text = [] := by
          refine Decidable.byContradiction fun chunked => ?_
          exact undisturbed text (by simp [Copy.submits, submits]) chunked idle closed
        simp [ingestDocument, chunkless]

theorem cleared_updatePage {k : Nat} {copy : UpdateCopy} {offset : Nat} {scoping : Scoping} :
    (state.updatePage k copy offset scoping).Cleared := by
  refine ⟨cleared.orderly, cleared.spent, fun closed => ?_, cleared.knowledge⟩
  obtain ⟨points, records⟩ := cleared.vectors closed
  exact ⟨by simp [updatePage, setPayload, points], records⟩

/-- **Every step keeps the index of a closed document empty.** -/
theorem cleared_step {event : Event} (undisturbed : Undisturbed engine ⟨event, state⟩)
    (stepped : state.step engine org event = some next) : next.Cleared := by
  cases step_cases stepped with
  | arrive handled => exact cleared_arrive cleared handled
  | perform found todo performed =>
    exact cleared_perform cleared found todo performed fun withdrawing =>
      undisturbed _ found withdrawing _ (by rw [todo]; rfl)
  | proceed found _ proceeded => exact cleared_proceed cleared proceeded (undisturbed _ found)
  | updatePage => exact cleared_updatePage cleared
  | work found worked => exact cleared_work cleared found worked
  | jobFails =>
    refine ⟨cleared.orderly, fun closed other member => ?_, cleared.vectors, cleared.knowledge⟩
    exact cleared.spent closed other (mem_of_mem_eraseIdx member)
  | restart => exact ⟨cleared.orderly, fun _ => nofun, cleared.vectors, cleared.knowledge⟩
  | _ => exact cleared.congr rfl rfl rfl rfl

end

end State

/-! ## Runs -/

section

variable (folders : List Folder) (objects : String → Option String)

/-- Before the document is created. -/
def opening : State :=
  { folders := folders, objects := objects }

theorem cleared_opening : (opening folders objects).Cleared := by
  have open_ : ¬ (opening folders objects).Shut := by
    rintro (withdrawn | ⟨request, member, -⟩)
    · cases withdrawn
    · cases member
  exact ⟨nofun, fun shut => absurd shut open_, fun shut => absurd shut open_, fun _ => rfl⟩

end

/-- **A withdrawn document leaves nothing in the index**, in every run that does not disturb its
withdrawal. -/
theorem leavesNothing_of_undisturbed (engine : Engine) (org : Org) {folders : List Folder}
    {objects : String → Option String} {history : History Event State}
    (run : From engine org (opening folders objects) history)
    (undisturbed : ∀ moment ∈ history.past, Undisturbed engine moment) :
    ∀ state ∈ history.states, state.LeavesNothing := by
  have cleared : ∀ state ∈ history.states, state.Cleared := by
    refine run.invariant (Undisturbed engine) (fun state event next stepped calm before => ?_)
      undisturbed ?_
    · exact State.cleared_step before calm stepped
    · intro state member
      obtain rfl := mem_singleton.mp member
      exact cleared_opening folders objects
  intro state member withdrawn quiet
  obtain ⟨points, records⟩ := (cleared state member).vectors (.inl withdrawn)
  have knowledge := (cleared state member).knowledge (.inl withdrawn)
  cases index : state.index with
  | mk _ _ _ =>
    rw [index] at points records knowledge
    simp only at points records knowledge
    rw [points, records, knowledge]

/-! ## A note that is withdrawn -/

/-- One chunk a text, and a claim in every chunk. -/
def plainEngine : Engine where
  extractText _ raw := raw
  createChunks text := [text]
  sources chunks := List.range chunks.length

def noteSubmitted : List Event :=
  [.arrive (.create { documentKey := "note", title := "Note", text := some "Draft" }),
    .perform 0 true, .perform 0 true, .perform 0 true, .deliver 0, .proceed 0, .proceed 0,
    .proceed 0, .callback 0, .callback 0]

def jobRuns : List Event :=
  [.work 0 [] true, .work 0 [] true, .work 0 [7] true, .work 0 [] true, .work 0 [] true,
    .work 0 [] true, .work 0 [] true]

/-- A note that is indexed and then deleted leaves nothing. -/
theorem leavesNothing_indexed :
    ∃ history, History.play (State.step plainEngine twoRegions) { now := opening [] fun _ => none }
      (noteSubmitted ++ jobRuns ++ [.proceed 0, .callback 0, .arrive .delete, .perform 1 true,
        .perform 1 true, .perform 1 true, .perform 1 true]) = some history ∧
      history.now.withdrawn = true ∧ ∀ state ∈ history.states, state.LeavesNothing := by
  refine History.exists_play rfl fun history played => ?_
  have isLast := some.inj played
  refine ⟨by subst isLast; rfl, leavesNothing_of_undisturbed plainEngine twoRegions
    (History.steps_of_play played) ?_⟩
  subst isLast
  decide

/-- A cancel while the job of the note runs: the job writes the note after the purge. -/
theorem not_leavesNothing_cancelled :
    ∃ history, History.play (State.step plainEngine twoRegions) { now := opening [] fun _ => none }
      (noteSubmitted ++ [.arrive .cancel, .perform 1 true, .perform 1 true, .perform 1 true,
        .perform 1 true, .perform 1 true] ++ jobRuns ++ [.proceed 0]) = some history ∧
      From plainEngine twoRegions (opening [] fun _ => none) history ∧
      ¬ history.now.LeavesNothing := by
  refine History.exists_play rfl fun history played => ?_
  have isLast := some.inj played
  refine ⟨History.steps_of_play played, fun leaves => ?_⟩
  subst isLast
  have empty := leaves rfl ⟨by simp; decide, rfl, by decide, by decide, by decide, by decide, rfl⟩
  revert empty
  decide

end RedArchKM.Ingest
