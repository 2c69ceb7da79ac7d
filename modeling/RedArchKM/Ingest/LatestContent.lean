import RedArchKM.Ingest.ContentRequests
import RedArchKM.Ingest.Withdrawal

/-!
# The index ends up with the latest content

A submit that arrives while a job of the document runs is dropped, a job does not look again at
what it was given, and a purge may fall between the writes of a job. So the index follows the row
only as long as something is always on its way that will bring the latest content: a request that
has yet to dispatch it, a task that has yet to submit it, or the one job that runs.

`indexesLatest_of_tended` says that this is kept by every step but those that lose the last such
thing.
-/

namespace RedArchKM.Ingest

open List Option

open Access (Folder Org twoRegions)
open Lib (Moment History)

/-! ## The latest content -/

namespace State

def source (state : State) : Option Source := state.row.bind Row.source

section

variable (engine : Engine) (state : State)

def textOf : Source → Option String
  | .text text => some text
  | .original url => (state.objects url).map (engine.extractText url)

/-- The latest committed content. -/
def content : Option String :=
  state.source.bind (state.textOf engine)

/-- The chunks of the latest content, with their places. -/
def latest : List (String × Nat) :=
  ((state.content engine).elim [] engine.createChunks).zipIdx

/-- Once all is quiet and nothing has failed, the index holds each chunk of the latest content
once, and no other. -/
def IndexesLatest : Prop :=
  state.Quiet → state.failed = false → state.index.passages.Perm (state.latest engine)

end

end State

/-! ## What is on its way -/

def Source.extracted (engine : Engine) (raw : String) : Source → String
  | .text own => own
  | .original url => engine.extractText url raw

/-- The copy has yet to submit, and what it holds is the content. -/
def Stage.Carries (engine : Engine) (source : Source) (content : Option String) : Stage → Prop
  | .queued => True
  | .downloading => True
  | .downloaded raw => content = some (source.extracted engine raw)
  | .extracting raw => content = some (source.extracted engine raw)
  | .holding text => content = some text
  | .submitting text => content = some text
  | .polling => False
  | .ended => False

namespace State

section

variable (engine : Engine) (state : State)

/-- A task has yet to submit the latest content. -/
def Queued : Prop :=
  ∃ i < state.tasks.length, ∃ task ∈ state.tasks[i]?, state.source = some task.source ∧
    ∀ copy ∈ state.copies, copy.task = i →
      copy.stage.Carries engine task.source (state.content engine)

/-- Something has yet to submit the latest content, or to clear the index if there is none. -/
def Awaited : Prop :=
  (∃ request ∈ state.requests, Brings request.todo state.row) ∨ state.Queued engine ∨
    state.row.isSome ∧ state.latest engine = [] ∧ ∃ request ∈ state.requests, Clears request.todo

/-- The one job that runs, if any, leaves the latest content. -/
def Fulfils : Prop :=
  state.jobs.length ≤ 1 ∧
    passagesAfter state.index.passages state.jobs.flatten = state.latest engine

end

end State

/-! ## What a step may not lose -/

/-- A purge leaves something on its way, or the one job that runs purges yet, or there is nothing
to index and nothing runs. An original that the row points at is replaced only on the way to its
ingest, and a request that carries the latest content does not fail. No task is revoked and the
row is not deleted. -/
def TendedEffect (engine : Engine) (state : State) (i : Nat) (request : Request)
    (rest : List Action) (ok : Bool) : Action → Prop
  | .purgeVectors =>
    (state.proceedWith i request rest).Awaited engine ∨
      state.jobs = [] ∧ state.latest engine = [] ∧ ok = true ∨
      state.Fulfils engine ∧ (ok = false ∨ ∃ todo ∈ state.jobs, .deleteVectors ∈ todo)
  | .storeObject url content =>
    if ok then
      state.source ≠ some (.original url) ∨
        State.Awaited engine { state.proceedWith i request rest with
          objects := state.putObject url (some content) }
    else ¬ Carrying request state.row ∨ (state.abort i request).Awaited engine
  | .discardObject url =>
    ok = false ∨ state.source ≠ some (.original url) ∨
      State.Awaited engine { state.proceedWith i request rest with
        objects := state.putObject url none }
  | .dispatchIngest _ _ =>
    ok = true ∨ ¬ Carrying request state.row ∨ (state.abort i request).Awaited engine
  | .revoke _ => False
  | .deleteRow => False
  | _ => True

/-- A submit that is dropped leaves something else on its way, or meets the job that leaves the
latest content. One that is accepted does so too, or it brings the latest content while no job
runs, and the content has chunks or the index is empty. The purge of a job fails only while
something else is on its way. -/
def Tended (engine : Engine) (moment : Moment Event State) : Prop :=
  match moment.event with
  | .perform i ok =>
    ∀ request ∈ moment.before.requests[i]?, ∀ action ∈ request.todo.head?,
      TendedEffect engine moment.before i request request.todo.tail ok action
  | .proceed k =>
    ∀ copy ∈ moment.before.copies[k]?, ∀ text ∈ copy.submits,
      (moment.before.setStage k copy .polling).Awaited engine ∨
        if moment.before.registry = some .running then moment.before.Fulfils engine
        else moment.before.jobs = [] ∧ moment.before.content engine = some text ∧
          (engine.createChunks text = [] → moment.before.index.points = [])
  | .work k _ ok =>
    ok = true ∨ moment.before.Awaited engine ∨
      ∀ todo ∈ moment.before.jobs[k]?, todo.head? ≠ some .deleteVectors
  | _ => True

instance (engine : Engine) (source : Source) (content : Option String) (stage : Stage) :
    Decidable (stage.Carries engine source content) := by
  cases stage <;> unfold Stage.Carries <;> infer_instance

instance (engine : Engine) (state : State) : Decidable (state.Queued engine) := by
  unfold State.Queued
  infer_instance

instance (engine : Engine) (state : State) : Decidable (state.Awaited engine) := by
  unfold State.Awaited
  infer_instance

instance (engine : Engine) (state : State) : Decidable (state.Fulfils engine) := by
  unfold State.Fulfils
  infer_instance

instance (engine : Engine) (state : State) (i : Nat) (request : Request) (rest : List Action)
    (ok : Bool) (action : Action) :
    Decidable (TendedEffect engine state i request rest ok action) := by
  induction action using Action.casesOn <;> unfold TendedEffect <;> infer_instance

instance (engine : Engine) (moment : Moment Event State) : Decidable (Tended engine moment) := by
  unfold Tended
  induction moment.event using Event.casesOn <;> infer_instance

/-! ## What stays on its way -/

namespace State

variable {engine : Engine} {org : Org} {state next : State}

theorem content_congr (source : next.source = state.source)
    (objects : ∀ url, state.source = some (.original url) →
      next.objects url = state.objects url) :
    next.content engine = state.content engine := by
  unfold content
  rw [source]
  cases holds : state.source with
  | none => rfl
  | some held =>
    cases held with
    | text text => rfl
    | original url => simp only [bind_some, textOf, objects url holds]

theorem latest_congr (content : next.content engine = state.content engine) :
    next.latest engine = state.latest engine := by
  rw [latest, latest, content]

theorem Queued.of (queued : state.Queued engine) (source : next.source = state.source)
    (content : next.content engine = state.content engine)
    (tasks : ∀ (i : Nat) (task : Task), state.tasks[i]? = some task → next.tasks[i]? = some task)
    (copies : ∀ copy ∈ next.copies, ∀ task ∈ state.tasks[copy.task]?,
      state.source = some task.source →
      (∀ old ∈ state.copies, old.task = copy.task →
        old.stage.Carries engine task.source (state.content engine)) →
      copy.stage.Carries engine task.source (state.content engine)) : next.Queued engine := by
  obtain ⟨i, -, task, found, holds, carried⟩ := queued
  have found' := tasks i task found
  refine ⟨i, (List.getElem?_eq_some_iff.mp found').1, task, found', source.trans holds, ?_⟩
  rintro copy member rfl
  rw [content]
  exact copies copy member task found holds carried

theorem Awaited.of (awaited : state.Awaited engine)
    (row : state.row.isSome = true → next.row.isSome = true)
    (latest : next.latest engine = state.latest engine)
    (brings : ∀ request ∈ state.requests, Brings request.todo state.row →
      ∃ other ∈ next.requests, Brings other.todo next.row)
    (clears : ∀ request ∈ state.requests, Clears request.todo →
      ∃ other ∈ next.requests, Clears other.todo)
    (queued : state.Queued engine → next.Queued engine) : next.Awaited engine := by
  rcases awaited with ⟨request, member, carried⟩ | waiting | ⟨isSome, empty, request, member, carried⟩
  · exact .inl (brings request member carried)
  · exact .inr (.inl (queued waiting))
  · exact .inr (.inr ⟨row isSome, latest.trans empty, clears request member carried⟩)

theorem Fulfils.of (fulfils : state.Fulfils engine)
    (latest : next.latest engine = state.latest engine) (jobs : next.jobs = state.jobs)
    (passages : next.index.passages = state.index.passages) : next.Fulfils engine := by
  unfold Fulfils
  rwa [jobs, passages, latest]

variable {i : Nat} {request after : Request} {rest : List Action} {action : Action} {copy : Copy}

theorem mem_set_or_eq {requests : List Request} {other : Request} (after : Request)
    (found : requests[i]? = some request) (member : other ∈ requests) :
    other = request ∨ other ∈ requests.set i after := by
  obtain ⟨k, found'⟩ := mem_iff_getElem?.mp member
  by_cases same : k = i
  · subst same
    exact .inl (some.inj (found'.symm.trans found))
  · right
    refine mem_iff_getElem?.mpr ⟨k, ?_⟩
    rw [getElem?_set_ne (Ne.symm same), found']

theorem after_mem_set {requests : List Request} (found : requests[i]? = some request) :
    after ∈ requests.set i after :=
  List.mem_set (List.getElem?_eq_some_iff.mp found).1 _

theorem Awaited.perform (awaited : state.Awaited engine) (found : state.requests[i]? = some request)
    (requests : next.requests = state.requests.set i after)
    (row : state.row.isSome = true → next.row.isSome = true) (source : next.source = state.source)
    (content : next.content engine = state.content engine) (tasks : next.tasks = state.tasks)
    (copies : next.copies = state.copies)
    (brings : ∀ other ∈ state.requests, Brings other.todo state.row → Brings other.todo next.row)
    (own : Brings request.todo next.row → Brings after.todo next.row)
    (ownClears : Clears request.todo → Clears after.todo) : next.Awaited engine := by
  refine awaited.of row (latest_congr content) (fun other member carried => ?_)
    (fun other member carried => ?_) fun queued => ?_
  · have kept := brings other member carried
    rcases mem_set_or_eq after found member with rfl | stays
    · exact ⟨after, requests ▸ after_mem_set found, own kept⟩
    · exact ⟨other, requests ▸ stays, kept⟩
  · rcases mem_set_or_eq after found member with rfl | stays
    · exact ⟨after, requests ▸ after_mem_set found, ownClears carried⟩
    · exact ⟨other, requests ▸ stays, carried⟩
  · refine queued.of source content (fun _ _ found => tasks ▸ found) fun copy member task found
      holds carried => ?_
    rw [copies] at member
    exact carried copy member rfl

/-- Something has failed, or the latest content is on its way, or the index will hold it. -/
def Covered (engine : Engine) (state : State) : Prop :=
  state.failed = true ∨ state.Awaited engine ∨ state.Fulfils engine

section

variable (covered : state.Covered engine)

include covered

theorem Covered.keep (found : state.requests[i]? = some request)
    (requests : next.requests = state.requests.set i after)
    (row : state.row.isSome = true → next.row.isSome = true) (source : next.source = state.source)
    (content : next.content engine = state.content engine) (tasks : next.tasks = state.tasks)
    (copies : next.copies = state.copies) (jobs : next.jobs = state.jobs)
    (failed : next.failed = state.failed) (passages : next.index.passages = state.index.passages)
    (brings : ∀ other ∈ state.requests, Brings other.todo state.row → Brings other.todo next.row)
    (own : Brings request.todo next.row → Brings after.todo next.row)
    (ownClears : Clears request.todo → Clears after.todo) : next.Covered engine := by
  rcases covered with before | awaited | fulfils
  · exact .inl (failed.trans before)
  · exact .inr (.inl (awaited.perform found requests row source content tasks copies brings own
      ownClears))
  · exact .inr (.inr (fulfils.of (latest_congr content) jobs passages))

theorem Covered.abort (found : state.requests[i]? = some request)
    (idle : ¬ Carrying request state.row) : (state.abort i request).Covered engine :=
  covered.keep found rfl id rfl rfl rfl rfl rfl rfl rfl (fun _ _ => id)
    (fun brings => absurd (.inl brings) idle) fun clears => absurd (.inr clears) idle

theorem Covered.plain {i : Nat} {request after : Request} {action : Action} {rest : List Action}
    (found : state.requests[i]? = some request) (todo : request.todo = action :: rest)
    (left : after.todo = rest) (dispatches : action.dispatches = none)
    (revises : action.revises = none) (keeps : action.purgesVectors = false)
    (requests : next.requests = state.requests.set i after) (row : next.row = state.row)
    (objects : next.objects = state.objects) (tasks : next.tasks = state.tasks)
    (copies : next.copies = state.copies) (jobs : next.jobs = state.jobs)
    (failed : next.failed = state.failed) (passages : next.index.passages = state.index.passages) :
    next.Covered engine := by
  have source : next.source = state.source := by rw [State.source, State.source, row]
  refine covered.keep found requests (fun isSome => row ▸ isSome) source
    (content_congr source fun url _ => by rw [objects]) tasks copies jobs failed passages
    (fun other _ brings => row ▸ brings) (fun brings => ?_) fun clears => ?_
  · rw [left]
    exact (todo ▸ brings : Brings (action :: rest) next.row).tail dispatches revises
  · rw [left]
    exact (todo ▸ clears : Clears (action :: rest)).tail keeps

section

variable (requests : next.requests = state.requests) (objects : next.objects = state.objects)
  (tasks : next.tasks = state.tasks) (copies : next.copies = state.copies)
  (jobs : next.jobs = state.jobs) (failed : next.failed = state.failed)
  (passages : next.index.passages = state.index.passages)

include requests objects tasks copies jobs failed passages

theorem Covered.of (source : next.source = state.source)
    (row : state.row.isSome = true → next.row.isSome = true)
    (brings : ∀ other ∈ state.requests, Brings other.todo state.row → Brings other.todo next.row) :
    next.Covered engine := by
  have content : next.content engine = state.content engine :=
    content_congr source fun url _ => by rw [objects]
  rcases covered with before | awaited | fulfils
  · exact .inl (failed.trans before)
  · refine .inr (.inl (awaited.of row (latest_congr content)
      (fun other member carried => ⟨other, requests ▸ member, brings other member carried⟩)
      (fun other member clears => ⟨other, requests ▸ member, clears⟩) fun queued => ?_))
    exact queued.of source content (fun _ _ found => tasks ▸ found)
      fun copy member _ _ _ carried => carried copy (copies ▸ member) rfl
  · exact .inr (.inr (fulfils.of (latest_congr content) jobs passages))

theorem Covered.congr (row : next.row = state.row) : next.Covered engine :=
  covered.of requests objects tasks copies jobs failed passages
    (by rw [State.source, State.source, row]) (fun isSome => row ▸ isSome)
    fun _ _ brings => row ▸ brings

theorem Covered.revise (sound : ∀ request ∈ state.requests, Sound request.todo)
    {revision : Revision} (text : revision.text = none) (documentUrl : revision.documentUrl = none)
    (row : next.row = state.row.map fun row => row.revise revision) : next.Covered engine := by
  refine covered.of requests objects tasks copies jobs failed passages ?_ (fun isSome => ?_)
    fun other member brings => ?_
  · rw [State.source, State.source, row]
    cases state.row with
    | none => rfl
    | some row => exact source_revise text documentUrl row
  · rwa [row, isSome_map]
  · rw [row]
    cases held : state.row with
    | none => exact absurd (held ▸ brings) (not_brings_none _)
    | some row =>
      exact (held ▸ brings : Brings other.todo (some row)).revise (sound other member)
        (source_revise text documentUrl row) documentUrl

end

end

theorem covered_purge {ok : Bool}
    (tended : TendedEffect engine state i request rest ok .purgeVectors) :
    State.Covered engine { state.proceedWith i request rest with
      index := if ok then IndexEffect.deleteVectors.apply [] state.index else state.index } := by
  rcases tended with awaited | ⟨jobs, empty, rfl⟩ | ⟨⟨single, outcome⟩, harmless⟩
  · exact .inr (.inl awaited)
  · refine .inr (.inr ⟨by simp [proceedWith, jobs], ?_⟩)
    simp only [proceedWith, jobs, if_true]
    exact empty.symm
  · refine .inr (.inr ⟨single, ?_⟩)
    rcases harmless with rfl | ⟨todo, member, purges⟩
    · exact outcome
    · -- The job drops whatever is there by then.
      obtain ⟨before, after, split⟩ := append_of_mem (mem_flatten.mpr ⟨todo, member, purges⟩)
      have dropped : ∀ passages, passagesAfter passages state.jobs.flatten =
          passagesAfter [] after := by
        intro passages
        rw [split, passagesAfter, foldl_append]
        rfl
      exact (dropped _).trans ((dropped _).symm.trans outcome)

theorem covered_object {url : String} {stored : Option String} (covered : state.Covered engine)
    (found : state.requests[i]? = some request) (todo : request.todo = action :: rest)
    (dispatches : action.dispatches = none) (revises : action.revises = none)
    (keeps : action.purgesVectors = false) (tended : state.source ≠ some (.original url) ∨
      State.Awaited engine { state.proceedWith i request rest with
        objects := state.putObject url stored }) :
    State.Covered engine { state.proceedWith i request rest with
      objects := state.putObject url stored } := by
  rcases tended with elsewhere | awaited
  · refine covered.keep found rfl id rfl (content_congr rfl fun other holds => ?_) rfl rfl rfl rfl
      rfl (fun _ _ => id) (fun brings => ?_) fun clears => ?_
    · have different : other ≠ url := by
        rintro rfl
        exact elsewhere holds
      simp only [putObject, if_neg different]
    · exact (todo ▸ brings : Brings (action :: rest) state.row).tail dispatches revises
    · exact (todo ▸ clears : Clears (action :: rest)).tail keeps
  · exact .inr (.inl awaited)

theorem covered_rewrite {url text : String} (covered : state.Covered engine)
    (sound : ∀ request ∈ state.requests, Sound request.todo)
    (found : state.requests[i]? = some request)
    (todo : request.todo = .rewriteObject url text :: rest) :
    State.Covered engine { state.proceedWith i request rest with
      objects := state.putObject url (some text) } := by
  by_cases holds : state.source = some (.original url)
  · have shape : Sound (.rewriteObject url text :: rest) :=
      todo ▸ sound request (mem_of_getElem? found)
    obtain ⟨row, isRow, points⟩ := bind_eq_some_iff.mp holds
    cases shape with
    | plain plain => cases plain
    | rewrite gates brings =>
      refine .inr (.inl (.inl ⟨{ request with todo := rest }, after_mem_set found, ?_⟩))
      simp only [proceedWith, isRow]
      exact brings_of_dispatches gates points brings
  · exact covered_object covered found todo rfl rfl rfl (.inl holds)

theorem not_awaited_of_missing (missing : state.row = none) : ¬ state.Awaited engine := by
  have none_ : state.source = none := by rw [State.source, missing]; rfl
  rintro (⟨other, -, carried⟩ | ⟨j, -, task, -, same, -⟩ | ⟨isSome, -⟩)
  · exact not_brings_none _ (missing ▸ carried)
  · rw [none_] at same
    cases same
  · rw [missing] at isSome
    cases isSome

section

variable (covered : state.Covered engine) (sound : ∀ request ∈ state.requests, Sound request.todo)

include covered sound

theorem covered_insert {row : Row} (found : state.requests[i]? = some request)
    (todo : request.todo = .insertRow row :: rest) (new : state.row = none) :
    State.Covered engine { state.proceedWith i request rest with
      row := some row, withdrawn := false } := by
  have shape : Sound (.insertRow row :: rest) := todo ▸ sound request (mem_of_getElem? found)
  cases shape with
  | plain plain => cases plain
  | insert gates brings =>
    cases holds : row.source with
    | some source =>
      refine .inr (.inl (.inl ⟨{ request with todo := rest }, after_mem_set found, ?_⟩))
      exact brings_of_dispatches gates holds (brings source holds)
    | none =>
      -- There was no content before, so nothing was on its way.
      rcases covered with failed | awaited | fulfils
      · exact .inl failed
      · exact absurd awaited (not_awaited_of_missing new)
      · refine .inr (.inr (fulfils.of (latest_congr ?_) rfl rfl))
        refine content_congr ?_ fun _ _ => rfl
        rwa [State.source, State.source, new]

theorem covered_update {row : Row} {revision : Revision} (found : state.requests[i]? = some request)
    (todo : request.todo = .updateRow revision :: rest) (left : after.todo = rest)
    (held : state.row = some row) (requests : next.requests = state.requests.set i after)
    (updated : next.row = some (row.revise revision)) (objects : next.objects = state.objects)
    (tasks : next.tasks = state.tasks) (copies : next.copies = state.copies)
    (jobs : next.jobs = state.jobs) (failed : next.failed = state.failed)
    (passages : next.index.passages = state.index.passages) : next.Covered engine := by
  have shape : Sound (.updateRow revision :: rest) :=
    todo ▸ sound request (mem_of_getElem? found)
  have here : after ∈ next.requests := requests ▸ after_mem_set found
  cases shape with
  | plain plain => cases plain
  | update gates original brings =>
    have carried : ∀ source, (row.revise revision).source = some source →
        Dispatches rest source → next.Covered engine := by
      intro source holds sends
      refine .inr (.inl (.inl ⟨after, here, ?_⟩))
      rw [left, updated]
      exact brings_of_dispatches gates holds sends
    cases kept : revision.documentUrl with
    | some url =>
      obtain ⟨-, published⟩ := original (by rw [kept]; rfl)
      obtain ⟨source, holds, sends⟩ := published row
      exact carried source holds sends
    | none =>
      rcases brings row with same | ⟨source, holds, sends⟩ | ⟨holds, purges⟩
      · have source : next.source = state.source := by
          rwa [State.source, State.source, updated, held]
        refine covered.keep found requests (fun _ => by rw [updated]; rfl) source
          (content_congr source fun url _ => by rw [objects]) tasks copies jobs failed passages
          (fun other member brought => ?_) (fun brought => ?_) fun clears => ?_
        · rw [updated]
          exact (held ▸ brought : Brings other.todo (some row)).revise (sound other member) same
            kept
        · rw [updated] at brought ⊢
          rw [left]
          exact (todo ▸ brought : Brings (.updateRow revision :: rest) _).updated
        · rw [left]
          exact (todo ▸ clears : Clears (.updateRow revision :: rest)).tail rfl
      · exact carried source holds sends
      · refine .inr (.inl (.inr (.inr ⟨by rw [updated]; rfl, ?_, after, here, left ▸ ⟨gates,
          purges⟩⟩)))
        have none_ : next.source = none := by
          rwa [State.source, updated]
        simp only [latest, State.content, none_, bind_none, elim_none, zipIdx_nil]

section

variable (known : ∀ copy ∈ state.copies, copy.task < state.tasks.length)
    (found : state.requests[i]? = some request)

include known found

theorem covered_dispatch {task : Task} {required : Bool}
    (todo : request.todo = .dispatchIngest task required :: rest) :
    State.Covered engine { state with
      tasks := state.tasks ++ [task]
      requests := state.requests.set i ⟨rest, some state.tasks.length⟩ } := by
  have shape : Sound (.dispatchIngest task required :: rest) :=
    todo ▸ sound request (mem_of_getElem? found)
  rcases covered with failed | awaited | fulfils
  · exact .inl failed
  · right
    left
    by_cases sent : state.source = some task.source
    · refine .inr (.inl ⟨state.tasks.length, by simp, task, by simp, sent, ?_⟩)
      intro copy member same
      exact absurd (known copy member) (by omega)
    · refine awaited.of id rfl (fun other member brings => ?_) (fun other member clears => ?_)
        fun queued => ?_
      · rcases mem_set_or_eq ⟨rest, some state.tasks.length⟩ found member with rfl | stays
        · refine ⟨_, after_mem_set found, ?_⟩
          exact (todo ▸ brings : Brings (.dispatchIngest task required :: rest) state.row).sent shape
            sent
        · exact ⟨other, stays, brings⟩
      · rcases mem_set_or_eq ⟨rest, some state.tasks.length⟩ found member with rfl | stays
        · exact ⟨_, after_mem_set found,
            (todo ▸ clears : Clears (.dispatchIngest task required :: rest)).tail rfl⟩
        · exact ⟨other, stays, clears⟩
      · refine queued.of rfl rfl (fun j other found => ?_) fun copy member _ _ _ carried =>
          carried copy member rfl
        exact List.getElem?_append_left (List.getElem?_eq_some_iff.mp found).1 ▸ found
  · exact .inr (.inr (fulfils.of rfl rfl rfl))

/-- **A request loses nothing** unless it purges, replaces an original or fails carelessly. -/
theorem covered_perform {ok : Bool} (todo : request.todo = action :: rest)
    (performed : state.perform org i request rest ok action = some next)
    (tended : TendedEffect engine state i request rest ok action) : next.Covered engine := by
  have gated : action.gates = true → (state.abort i request).Covered engine := fun gates =>
    covered.abort found (not_carrying_of_gates todo gates)
  cases action with
  | reachBrain =>
    simp only [perform] at performed
    split at performed
    · cases performed
      exact covered.plain found todo rfl rfl rfl rfl rfl rfl rfl rfl rfl rfl rfl rfl
    · exact some.inj performed ▸ gated rfl
  | purgeVectors =>
    cases performed
    exact covered_purge tended
  | purgeKnowledge =>
    cases performed
    exact covered.plain found todo rfl rfl rfl rfl rfl rfl rfl rfl rfl rfl rfl (by split <;> rfl)
  | rewriteObject url content =>
    simp only [perform] at performed
    split at performed
    · cases performed
      exact covered_rewrite covered sound found todo
    · exact some.inj performed ▸ gated rfl
  | storeObject url content =>
    simp only [perform] at performed
    simp only [TendedEffect] at tended
    split at performed
    · rename_i stored
      cases performed
      rw [if_pos stored] at tended
      exact covered_object covered found todo rfl rfl rfl tended
    · rename_i failed
      cases performed
      rw [if_neg failed] at tended
      rcases tended with idle | awaited
      · exact covered.abort found idle
      · exact .inr (.inl awaited)
  | discardObject url =>
    cases performed
    cases ok with
    | false =>
      simp only [Bool.false_eq_true, if_false]
      exact covered.plain found todo rfl rfl rfl rfl rfl rfl rfl rfl rfl rfl rfl rfl
    | true =>
      simp only [if_true]
      refine covered_object covered found todo rfl rfl rfl ?_
      exact tended.resolve_left (by rintro ⟨⟩)
  | lockRow =>
    simp only [perform] at performed
    split at performed
    · cases performed
      exact covered.plain found todo rfl rfl rfl rfl rfl rfl rfl rfl rfl rfl rfl rfl
    · cases performed
  | insertRow row =>
    simp only [perform] at performed
    split at performed
    · rename_i new
      cases performed
      exact covered_insert covered sound found todo new
    · exact some.inj performed ▸ gated rfl
  | updateRow revision =>
    simp only [perform] at performed
    split at performed
    · split at performed
      · rename_i row held
        cases performed
        exact covered_update covered sound found todo rfl held rfl rfl rfl rfl rfl rfl rfl rfl
      · rename_i missing
        cases performed
        rcases covered with failed | awaited | fulfils
        · exact .inl failed
        · exact absurd awaited (not_awaited_of_missing missing)
        · exact .inr (.inr (fulfils.of rfl rfl rfl))
    · cases performed
  | deleteRow => exact tended.elim
  | updateFolder folderId body =>
    simp only [perform] at performed
    split at performed
    · cases performed
      exact covered.plain found todo rfl rfl rfl rfl rfl rfl rfl rfl rfl rfl rfl rfl
    · exact some.inj performed ▸ gated rfl
  | revoke taskId => exact tended.elim
  | dispatchIngest task required =>
    simp only [perform] at performed
    split at performed
    · cases performed
      exact covered_dispatch covered sound known found todo
    · rename_i failed
      have ended : (state.abort i request).Covered engine := by
        rcases tended with sent | idle | awaited
        · exact absurd sent failed
        · exact covered.abort found idle
        · exact .inr (.inl awaited)
      split at performed
      · split at performed
        · cases performed
          refine ended.revise rfl rfl rfl rfl rfl rfl rfl (fun other member => ?_) rfl rfl rfl
          rcases mem_or_eq_of_mem_set member with old | rfl
          · exact sound other old
          · exact .nil
        · cases performed
      · exact some.inj performed ▸ ended
  | persistTaskId =>
    simp only [perform] at performed
    split at performed
    · cases performed
      have passed : (state.proceedWith i request rest).Covered engine :=
        covered.plain found todo rfl rfl rfl rfl rfl rfl rfl rfl rfl rfl rfl rfl
      refine passed.revise rfl rfl rfl rfl rfl rfl rfl (fun other member => ?_) rfl rfl rfl
      rcases mem_or_eq_of_mem_set member with old | rfl
      · exact sound other old
      · exact (todo ▸ sound request (mem_of_getElem? found)).tail
    · cases performed
  | dispatchMetadataUpdate scoping =>
    simp only [perform] at performed
    split at performed <;> cases performed <;>
      exact covered.plain found todo rfl rfl rfl rfl rfl rfl rfl rfl rfl rfl rfl rfl

end

end

/-! ## Copies and jobs -/

theorem carries_of_moves {task : Task} {stage : Stage} (moves : Moves engine state copy task stage)
    (unflagged : state.flags = []) (holds : state.source = some task.source)
    (carries : copy.stage.Carries engine task.source (state.content engine)) :
    stage.Carries engine task.source (state.content engine) := by
  have content : state.content engine = state.textOf engine task.source := by
    rw [State.content, holds, bind_some]
  cases moves with
  | take source _ => exact content.trans (by rw [source]; rfl)
  | fetch _ _ => trivial
  | download source stored _ =>
    refine content.trans ?_
    simp only [source, textOf, stored, map_some, Source.extracted]
  | start at_ => exact (at_ ▸ carries :)
  | extract source at_ =>
    have extracted : state.content engine = some (task.source.extracted engine _) :=
      (at_ ▸ carries :)
    rwa [source] at extracted
  | pass at_ => exact (at_ ▸ carries :)
  | cancel flagged =>
    rw [unflagged] at flagged
    cases flagged
  | finish at_ => exact (at_ ▸ carries : Stage.Carries engine _ _ .polling).elim

theorem covered_setStage {k : Nat} {stage : Stage} (covered : state.Covered engine)
    (found : state.copies[k]? = some copy)
    (carries : ∀ task ∈ state.tasks[copy.task]?, state.source = some task.source →
      copy.stage.Carries engine task.source (state.content engine) →
      stage.Carries engine task.source (state.content engine)) :
    (state.setStage k copy stage).Covered engine := by
  rcases covered with failed | awaited | fulfils
  · exact .inl failed
  · refine .inr (.inl (awaited.of id rfl (fun other member brings => ⟨other, member, brings⟩)
      (fun other member clears => ⟨other, member, clears⟩) fun queued => ?_))
    refine queued.of rfl rfl (fun _ _ => id) fun other member task isTask holds carried => ?_
    rcases mem_or_eq_of_mem_set member with old | rfl
    · exact carried other old rfl
    · exact carries task isTask holds (carried copy (mem_of_getElem? found) rfl)
  · exact .inr (.inr (fulfils.of rfl rfl rfl))

/-- **A submit loses nothing** that `Tended` asks it to keep. -/
theorem covered_submit {k : Nat} {text : String} (request : IngestRequest)
    (isText : request.text = text) (tended : (state.setStage k copy .polling).Awaited engine ∨
      if state.registry = some .running then state.Fulfils engine
      else state.jobs = [] ∧ state.content engine = some text ∧
        (engine.createChunks text = [] → state.index.points = [])) :
    ((state.setStage k copy .polling).submit engine request).Covered engine := by
  unfold submit
  split
  · rename_i running
    rcases tended with awaited | tended
    · exact .inr (.inl awaited)
    · rw [if_pos (show state.registry = some .running from running)] at tended
      exact .inr (.inr (tended.of rfl rfl rfl))
  · rename_i idle
    rcases tended with awaited | tended
    · exact .inr (.inl awaited)
    · rw [if_neg (show ¬ state.registry = some .running from idle)] at tended
      obtain ⟨jobs, content, empty⟩ := tended
      have latest : state.latest engine = (engine.createChunks text).zipIdx := by
        rw [State.latest, content, elim_some]
      refine .inr (.inr ⟨by simp [setStage, jobs], Eq.trans ?_ latest.symm⟩)
      simp only [setStage, jobs, nil_append, flatten_cons, flatten_nil, append_nil]
      by_cases chunked : engine.createChunks text = []
      · have nothing : ingestDocument engine request = [] := by
          simp only [ingestDocument, isText, chunked, if_true]
        rw [nothing, chunked, Index.passages, empty chunked]
        rfl
      · rw [← isText] at chunked ⊢
        exact passagesAfter_ingestDocument chunked _

/-- **A job that runs on leaves what it was going to leave.** -/
theorem covered_work {k : Nat} {todo : List IndexEffect} {ids : List Nat} {ok : Bool}
    (covered : state.Covered engine) (found : state.jobs[k]? = some todo)
    (worked : state.work k todo ids ok = some next)
    (tended : ok = true ∨ state.Awaited engine ∨
      ∀ todo ∈ state.jobs[k]?, todo.head? ≠ some .deleteVectors) : next.Covered engine := by
  have kept : next.requests = state.requests ∧ next.row = state.row ∧
      next.objects = state.objects ∧ next.tasks = state.tasks ∧ next.copies = state.copies ∧
      (state.failed = true → next.failed = true) := by
    cases todo <;> grind [work]
  obtain ⟨requests, row, objects, tasks, copies, failed⟩ := kept
  have source : next.source = state.source := by rw [State.source, State.source, row]
  have content : next.content engine = state.content engine :=
    content_congr source fun url _ => by rw [objects]
  have awaiting : state.Awaited engine → next.Awaited engine := fun awaited => by
    refine awaited.of (fun isSome => row ▸ isSome) (latest_congr content)
      (fun other member brings => ⟨other, requests ▸ member, row ▸ brings⟩)
      (fun other member clears => ⟨other, requests ▸ member, clears⟩) fun queued => ?_
    exact queued.of source content (fun _ _ found => tasks ▸ found)
      fun copy member _ _ _ carried => carried copy (copies ▸ member) rfl
  rcases covered with before | awaited | ⟨single, outcome⟩
  · exact .inl (failed before)
  · exact .inr (.inl (awaiting awaited))
  -- The job is the only one.
  obtain ⟨bound, isTodo⟩ := List.getElem?_eq_some_iff.mp found
  obtain ⟨only, alone⟩ : ∃ only, state.jobs = [only] := List.length_eq_one_iff.mp (by omega)
  have first : k = 0 := by rw [alone, List.length_singleton] at bound; omega
  subst first
  have same : only = todo := by simpa [alone] using isTodo
  subst same
  rw [alone, flatten_singleton] at outcome
  cases only with
  | nil =>
    cases worked
    refine .inr (.inr ⟨by simp [alone], ?_⟩)
    simp only [alone, eraseIdx_zero, tail_cons]
    exact outcome
  | cons effect rest =>
    have left : ∀ {index : Index}, index.passages = effect.passages state.index.passages →
        passagesAfter index.passages [rest].flatten = state.latest engine := by
      intro index passages
      rwa [passages, flatten_singleton]
    simp only [work] at worked
    split at worked
    · split at worked
      · rename_i admitted
        cases worked
        refine .inr (.inr ⟨by simp [alone], ?_⟩)
        simp only [alone, set_cons_zero]
        exact left (IndexEffect.passages_apply admitted)
      · cases worked
    · rename_i stuck
      split at worked
      · cases worked
        exact .inl rfl
      · rename_i logged
        cases worked
        rcases tended with sent | awaited | other
        · exact absurd sent stuck
        · exact .inr (.inl (awaiting awaited))
        · refine .inr (.inr ⟨by simp [alone], ?_⟩)
          simp only [alone, set_cons_zero]
          refine left ?_
          have keeps := other (effect :: rest) (by simp [alone])
          cases effect <;> simp_all [IndexEffect.passages, IndexEffect.raises]

/-- What every step keeps: the requests are sound, the copies are of tasks, no task is cancelled,
and the latest content is taken care of. -/
structure Tracked (engine : Engine) (state : State) : Prop where
  sound : ∀ request ∈ state.requests, Sound request.todo
  known : ∀ copy ∈ state.copies, copy.task < state.tasks.length
  unflagged : state.flags = []
  unrevoked : state.revoked = []
  covered : state.Covered engine

theorem perform_marks {ok : Bool}
    (performed : state.perform org i request rest ok action = some next)
    (keeps : ∀ taskId, action ≠ .revoke taskId) :
    next.flags = state.flags ∧ next.revoked = state.revoked ∧
      state.tasks.length ≤ next.tasks.length := by
  cases action <;> grind [perform, proceedWith, abort]

section

variable (tracked : state.Tracked engine)

include tracked

theorem tracked_perform {ok : Bool} (found : state.requests[i]? = some request)
    (todo : request.todo = action :: rest)
    (performed : state.perform org i request rest ok action = some next)
    (tended : TendedEffect engine state i request rest ok action) : next.Tracked engine := by
  obtain ⟨after, left, requests⟩ := perform_requests performed
  obtain ⟨copies, -⟩ := perform_keeps performed
  obtain ⟨flags, revoked, tasks⟩ := perform_marks performed (by
    rintro taskId rfl
    exact tended)
  refine ⟨fun other member => ?_, fun copy member => ?_, flags.trans tracked.unflagged,
    revoked.trans tracked.unrevoked,
    covered_perform tracked.covered tracked.sound tracked.known found todo performed tended⟩
  · rw [requests] at member
    rcases mem_or_eq_of_mem_set member with old | rfl
    · exact tracked.sound other old
    · rcases left with same | same <;> rw [same]
      · exact (todo ▸ tracked.sound request (mem_of_getElem? found)).tail
      · exact .nil
  · exact Nat.lt_of_lt_of_le (tracked.known copy (copies ▸ member)) tasks

/-- What leaves requests, tasks and copies alone needs to keep only the content in care. -/
theorem Tracked.keep (requests : next.requests = state.requests) (tasks : next.tasks = state.tasks)
    (copies : next.copies = state.copies) (flags : next.flags = state.flags)
    (revoked : next.revoked = state.revoked) (covered : next.Covered engine) :
    next.Tracked engine :=
  ⟨requests ▸ tracked.sound, copies ▸ tasks ▸ tracked.known, flags.trans tracked.unflagged,
    revoked.trans tracked.unrevoked, covered⟩

theorem Tracked.congr (requests : next.requests = state.requests) (row : next.row = state.row)
    (objects : next.objects = state.objects) (tasks : next.tasks = state.tasks)
    (copies : next.copies = state.copies) (jobs : next.jobs = state.jobs)
    (failed : next.failed = state.failed) (passages : next.index.passages = state.index.passages)
    (flags : next.flags = state.flags) (revoked : next.revoked = state.revoked) :
    next.Tracked engine :=
  tracked.keep requests tasks copies flags revoked
    (tracked.covered.congr requests objects tasks copies jobs failed passages row)

theorem Tracked.setStage {k : Nat} {stage : Stage} (found : state.copies[k]? = some copy)
    (covered : (state.setStage k copy stage).Covered engine) :
    (state.setStage k copy stage).Tracked engine := by
  refine ⟨tracked.sound, fun other member => ?_, tracked.unflagged, tracked.unrevoked, covered⟩
  rcases mem_or_eq_of_mem_set member with old | rfl
  · exact tracked.known other old
  · exact tracked.known copy (mem_of_getElem? found)

theorem tracked_arrive {call : Call} {todo : List Action} {lock : Option Nat}
    (handled : state.handle org call = some todo) : State.Tracked engine
      { state with requests := state.requests ++ [{ todo := todo }], lock := lock } := by
  refine ⟨fun request member => ?_, tracked.known, tracked.unflagged, tracked.unrevoked, ?_⟩
  · rcases mem_append.mp member with old | new
    · exact tracked.sound request old
    · obtain rfl := mem_singleton.mp new
      exact sound_handle handled
  · rcases tracked.covered with failed | awaited | fulfils
    · exact .inl failed
    · refine .inr (.inl (awaited.of id rfl
        (fun other member brings => ⟨other, mem_append_left _ member, brings⟩)
        (fun other member clears => ⟨other, mem_append_left _ member, clears⟩) fun queued =>
          queued.of rfl rfl (fun _ _ => id)
            fun copy member _ _ _ carried => carried copy member rfl))
    · exact .inr (.inr (fulfils.of rfl rfl rfl))

theorem tracked_deliver {task : Nat} (known : task < state.tasks.length) :
    State.Tracked engine { state with copies := state.copies ++ [{ task := task }] } := by
  refine ⟨tracked.sound, fun copy member => ?_, tracked.unflagged, tracked.unrevoked, ?_⟩
  · rcases mem_append.mp member with old | new
    · exact tracked.known copy old
    · obtain rfl := mem_singleton.mp new
      exact known
  · rcases tracked.covered with failed | awaited | fulfils
    · exact .inl failed
    · refine .inr (.inl (awaited.of id rfl (fun other member brings => ⟨other, member, brings⟩)
        (fun other member clears => ⟨other, member, clears⟩) fun queued => ?_))
      refine queued.of rfl rfl (fun _ _ => id) fun copy member _ _ _ carried => ?_
      rcases mem_append.mp member with old | new
      · exact carried copy old rfl
      · obtain rfl := mem_singleton.mp new
        trivial
    · exact .inr (.inr (fulfils.of rfl rfl rfl))

theorem tracked_giveUp {k : Nat} (found : state.copies[k]? = some copy)
    {callbacks : List ProcessingStatus} : State.Tracked engine
      { state.setStage k copy .ended with callbacks := callbacks, failed := true } := by
  refine ⟨tracked.sound, fun other member => ?_, tracked.unflagged, tracked.unrevoked, .inl rfl⟩
  rcases mem_or_eq_of_mem_set member with old | rfl
  · exact tracked.known other old
  · exact tracked.known copy (mem_of_getElem? found)

theorem tracked_proceed {k : Nat} {task : Task} (found : state.copies[k]? = some copy)
    (isTask : state.tasks[copy.task]? = some task)
    (proceeded : state.proceed engine k copy task = some next)
    (tended : ∀ text ∈ copy.submits, (state.setStage k copy .polling).Awaited engine ∨
      if state.registry = some .running then state.Fulfils engine else state.jobs = [] ∧
        state.content engine = some text ∧ (engine.createChunks text = [] → state.index.points = [])) :
    next.Tracked engine := by
  rcases proceed_cases proceeded with ⟨stage, status, callbacks, moves, -, -, rfl⟩ |
    ⟨callbacks, -, rfl⟩ | ⟨text, submits, rfl⟩
  · have moved : (state.setStage k copy stage).Covered engine :=
      covered_setStage tracked.covered found fun other isOther holds carries => by
        cases isTask.symm.trans isOther
        exact carries_of_moves moves tracked.unflagged holds carries
    exact (tracked.setStage found moved).congr rfl rfl rfl rfl rfl rfl rfl rfl rfl rfl
  · exact tracked_giveUp tracked found
  · have covered := covered_submit ⟨text, task.scoping, task.useKnowledgeGraph⟩ rfl
      (tended text (by simp [Copy.submits, submits]))
    have kept : ∀ other ∈ (state.copies.set k { copy with stage := .polling }),
        other.task < state.tasks.length := by
      intro other member
      rcases mem_or_eq_of_mem_set member with old | rfl
      · exact tracked.known other old
      · exact tracked.known copy (mem_of_getElem? found)
    unfold submit at covered ⊢
    split
    · rename_i running
      rw [if_pos running] at covered
      exact ⟨tracked.sound, kept, tracked.unflagged, tracked.unrevoked, covered⟩
    · rename_i idle
      rw [if_neg idle] at covered
      exact ⟨tracked.sound, kept, tracked.unflagged, tracked.unrevoked, covered⟩

/-- **Every step that is tended to keeps the latest content in care.** -/
theorem tracked_step {event : Event} (tended : Tended engine ⟨event, state⟩)
    (stepped : state.step engine org event = some next) : next.Tracked engine := by
  cases step_cases stepped with
  | arrive handled => exact tracked_arrive tracked handled
  | perform found todo performed =>
    have effect := tended _ found _ (by rw [todo]; rfl)
    rw [todo] at effect
    exact tracked_perform tracked found todo performed effect
  | callback =>
    exact tracked.keep rfl rfl rfl rfl rfl
      (tracked.covered.revise rfl rfl rfl rfl rfl rfl rfl tracked.sound rfl rfl rfl)
  | deliver known =>
    exact (tracked_deliver tracked known).congr rfl rfl rfl rfl rfl rfl rfl rfl rfl rfl
  | proceed found isTask proceeded =>
    exact tracked_proceed tracked found isTask proceeded (tended _ found)
  | giveUp found => exact tracked_giveUp tracked found
  | redeliver found =>
    exact tracked.setStage found (covered_setStage tracked.covered found fun _ _ _ _ => trivial)
  | terminate _ revoked =>
    rw [tracked.unrevoked] at revoked
    cases revoked
  | flagExpires =>
    refine ⟨tracked.sound, tracked.known, ?_, tracked.unrevoked, ?_⟩
    · simp only [tracked.unflagged, filter_nil]
    · exact tracked.covered.congr rfl rfl rfl rfl rfl rfl rfl rfl
  | updatePage =>
    exact tracked.congr rfl rfl rfl rfl rfl rfl rfl (passages_setPayload _ _ _) rfl rfl
  | giveUpUpdate => exact tracked.keep rfl rfl rfl rfl rfl (.inl rfl)
  | @work _ _ _ todo _ found worked =>
    have covered := covered_work tracked.covered found worked tended
    have kept : next.requests = state.requests ∧ next.tasks = state.tasks ∧
        next.copies = state.copies ∧ next.flags = state.flags ∧ next.revoked = state.revoked := by
      cases todo <;> grind [work]
    obtain ⟨requests, tasks, copies, flags, revoked⟩ := kept
    exact tracked.keep requests tasks copies flags revoked covered
  | jobFails => exact tracked.keep rfl rfl rfl rfl rfl (.inl rfl)
  | restart =>
    cases jobs : state.jobs with
    | nil => exact tracked.congr rfl rfl rfl rfl rfl jobs.symm (by simp) rfl rfl rfl
    | cons todo rest => exact tracked.keep rfl rfl rfl rfl rfl (.inl (by simp))
  | _ => exact tracked.congr rfl rfl rfl rfl rfl rfl rfl rfl rfl rfl

end

theorem not_awaited_of_quiet (quiet : state.Quiet) : ¬ state.Awaited engine := by
  rintro (⟨request, member, brings⟩ | ⟨i, bound, task, -, -, carried⟩ |
    ⟨-, -, request, member, clears⟩)
  · exact not_brings_nil _ (quiet.requests request member ▸ brings)
  · obtain ⟨copy, member, isCopy⟩ := quiet.tasks i bound
    have carries := carried copy member isCopy
    rw [quiet.copies copy member] at carries
    exact carries
  · exact not_clears_nil (quiet.requests request member ▸ clears)

theorem Tracked.indexesLatest (tracked : state.Tracked engine) : state.IndexesLatest engine := by
  intro quiet fine
  rcases tracked.covered with failed | awaited | ⟨-, outcome⟩
  · rw [fine] at failed
    cases failed
  · exact absurd awaited (not_awaited_of_quiet quiet)
  · rw [quiet.jobs] at outcome
    exact .of_eq outcome

end State

/-! ## Runs -/

theorem tracked_opening (engine : Engine) (folders : List Folder)
    (objects : String → Option String) : (opening folders objects).Tracked engine :=
  ⟨nofun, nofun, rfl, rfl, .inr (.inr ⟨Nat.zero_le _, rfl⟩)⟩

/-- **The index ends up with the latest content**, in every run that never loses the last thing
that brings it. -/
theorem indexesLatest_of_tended (engine : Engine) (org : Org) {folders : List Folder}
    {objects : String → Option String} {history : History Event State}
    (run : From engine org (opening folders objects) history)
    (tended : ∀ moment ∈ history.past, Tended engine moment) :
    ∀ state ∈ history.states, state.IndexesLatest engine := by
  have tracked : ∀ state ∈ history.states, state.Tracked engine := by
    refine run.invariant (Tended engine) (fun state event next stepped allowed before => ?_) tended ?_
    · exact State.tracked_step before allowed stepped
    · intro state member
      obtain rfl := mem_singleton.mp member
      exact tracked_opening engine folders objects
  exact fun state member => (tracked state member).indexesLatest

/-! ## A note that gets new content -/

/-- The content of the note is replaced, and the new task is delivered and submitted. -/
def noteReplaced : List Event :=
  [.arrive (.putContent "Final"), .perform 1 true, .perform 1 true, .perform 1 true,
    .perform 1 true, .perform 1 true, .deliver 1, .proceed 1, .proceed 1, .proceed 1]

/-- A note that is indexed before it gets new content ends up with that. -/
theorem indexesLatest_replaced :
    ∃ history, History.play (State.step plainEngine twoRegions) { now := opening [] fun _ => none }
      (noteSubmitted ++ jobRuns ++ [.proceed 0, .callback 0] ++ noteReplaced ++ jobRuns ++
        [.proceed 1, .callback 0, .callback 0, .callback 0]) = some history ∧
      history.now.index.passages = [("Final", 0)] ∧
      ∀ state ∈ history.states, state.IndexesLatest plainEngine := by
  refine History.exists_play rfl fun history played => ?_
  have isLast := some.inj played
  refine ⟨by subst isLast; rfl, indexesLatest_of_tended plainEngine twoRegions
    (History.steps_of_play played) ?_⟩
  subst isLast
  decide +kernel

/-- New content while the job of the old runs: its submit is dropped, and the old job writes. -/
theorem not_indexesLatest_overtaken :
    ∃ history, History.play (State.step plainEngine twoRegions) { now := opening [] fun _ => none }
      (noteSubmitted ++ noteReplaced ++ jobRuns ++ [.proceed 1, .proceed 0, .callback 0,
        .callback 0, .callback 0, .callback 0]) = some history ∧
      From plainEngine twoRegions (opening [] fun _ => none) history ∧
      ¬ history.now.IndexesLatest plainEngine := by
  refine History.exists_play rfl fun history played => ?_
  have isLast := some.inj played
  refine ⟨History.steps_of_play played, fun indexes => ?_⟩
  subst isLast
  have latest := indexes ⟨by simp; decide, rfl, by decide, by decide, by decide, by decide, rfl⟩ rfl
  revert latest
  decide

end RedArchKM.Ingest
