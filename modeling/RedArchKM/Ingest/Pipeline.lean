import RedArchKM.Ingest.Requests
import RedArchKM.Lib.History

/-!
# The ingest pipeline around one document

The API, the queue, the workers and brain-api, as far as they concern one document key. Requests
run their effects one at a time. Tasks are delivered at least once: each delivery is a copy that
works through its stages, and a copy whose worker dies starts again. A submit starts a background
job unless the registry says that one is running. Every event is one of these small steps, so a
run interleaves them in any order.
-/

namespace RedArchKM.Ingest

open Option

open Access (Folder FolderUpdate Org isBlank)

/-! ## States -/

/-- A request in flight: the effects it has left, and the task it dispatched. -/
structure Request where
  todo : List Action
  dispatched : Option Nat := none

/-- Where a delivered ingest task stands. -/
inductive Stage where
  | queued
  | downloading
  | downloaded (raw : String)
  | extracting (raw : String)
  /-- The text is at hand; the cancel flag is looked at before the submit. -/
  | holding (text : String)
  | submitting (text : String)
  | polling
  | ended
deriving DecidableEq

structure Copy where
  task : Nat
  stage : Stage := .queued

inductive UpdateStage where
  | waiting
  | scrolling (offset : Nat)
  | ended
deriving DecidableEq

structure UpdateCopy where
  update : Nat
  stage : UpdateStage := .waiting

inductive JobState where
  | running
  | done
  | failed
deriving DecidableEq

structure State where
  folders : List Folder := []
  row : Option Row := none
  objects : String → Option String := fun _ => none
  /-- The request that holds the row's lock. -/
  lock : Option Nat := none
  /-- The last commit to close or open the document closed it. Nothing reads this. -/
  withdrawn : Bool := false
  requests : List Request := []
  /-- Status callbacks that found the row open and have not written it yet. -/
  callbacks : List ProcessingStatus := []
  flags : List Nat := []
  revoked : List Nat := []
  tasks : List Task := []
  copies : List Copy := []
  updates : List Scoping := []
  updateCopies : List UpdateCopy := []
  registry : Option JobState := none
  /-- The effects that each background job has left. -/
  jobs : List (List IndexEffect) := []
  index : Index := {}
  /-- Some task or job has failed. -/
  failed : Bool := false

/-- A request to the API. -/
inductive Call where
  | create (body : DocumentCreate)
  | upload (body : Upload)
  | upsertNew (documentKey : String) (data : KnowledgeDocumentInput)
  | upsert (data : KnowledgeDocumentInput) (stuckPending : Bool)
  | putContent (text : String)
  | reprocess
  | patch (body : DocumentUpdate)
  | patchFolder (folderId : Nat) (body : FolderUpdate)
  | cancel
  | delete

/-- Whether the handler reads the row with its lock. -/
def Call.locks : Call → Bool
  | .upsert _ _ => true
  | _ => false

namespace State

/-! ## Requests -/

/-- The effects of a request whose handler has read the rows, unless it is refused. -/
def handle (org : Org) (state : State) : Call → Option (List Action)
  | .create body => if state.row.isSome then none else createDocument state.folders body
  | .upload body => if state.row.isSome then none else uploadDocument state.folders body
  | .upsertNew documentKey data =>
    if state.row.isSome then none else upsertCreate state.folders documentKey data
  | .upsert data stuckPending =>
    state.row.bind fun row => upsertReplace state.folders row data stuckPending
  | .putContent text => state.row.bind fun row => updateDocumentContent state.folders row text
  | .reprocess => state.row.bind (reprocessDocument state.folders)
  | .patch body => state.row.bind fun row => updateDocument org state.folders row body
  | .patchFolder folderId body => updateFolder org state.folders state.row folderId body
  | .cancel => state.row.bind cancelDocumentIngest
  | .delete => state.row.map deleteDocument

def arrive (org : Org) (state : State) (call : Call) : Option State :=
  if call.locks ∧ state.lock ≠ none then none
  else
    (state.handle org call).map fun todo => { state with
      requests := state.requests ++ [{ todo := todo }]
      lock := if call.locks then some state.requests.length else state.lock }

section

variable (state : State) (i : Nat)

/-- The row's lock is not in another request's hands. -/
def free : Bool := state.lock = none || state.lock = some i

def released : Option Nat :=
  if state.lock = some i then none else state.lock

/-- The request is left with these effects. -/
def proceedWith (request : Request) (rest : List Action) : State :=
  { state with requests := state.requests.set i { request with todo := rest } }

def abort (request : Request) : State :=
  { state.proceedWith i request [] with lock := state.released i }

end

def putObject (state : State) (url : String) (content : Option String) : String → Option String :=
  fun other => if other = url then content else state.objects other

/-- The next effect of a request. `ok` is false when the service it calls fails. -/
def perform (org : Org) (state : State) (i : Nat) (request : Request) (rest : List Action)
    (ok : Bool) : Action → Option State
  | .reachBrain =>
    if ok then some (state.proceedWith i request rest) else some (state.abort i request)
  | .purgeVectors =>
    some { state.proceedWith i request rest with
      index := if ok then IndexEffect.deleteVectors.apply [] state.index else state.index }
  | .purgeKnowledge =>
    some { state.proceedWith i request rest with
      index := if ok then IndexEffect.deleteKnowledge.apply [] state.index else state.index }
  | .rewriteObject url content =>
    if ok then
      some { state.proceedWith i request rest with objects := state.putObject url (some content) }
    else some (state.abort i request)
  | .storeObject url content =>
    if ok then
      some { state.proceedWith i request rest with objects := state.putObject url (some content) }
    else some (state.abort i request)
  | .discardObject url =>
    some { state.proceedWith i request rest with
      objects := if ok then state.putObject url none else state.objects }
  | .lockRow =>
    if state.free i then some { state.proceedWith i request rest with lock := some i } else none
  | .insertRow row =>
    match state.row with
    | none => some { state.proceedWith i request rest with row := some row, withdrawn := false }
    | some _ => some (state.abort i request)
  | .updateRow revision =>
    if state.free i then
      match state.row with
      | some row => some { state.proceedWith i request rest with
          row := some (row.revise revision)
          lock := state.released i
          withdrawn :=
            match revision.processingStatus with
            | some .cancelled => true
            | some .pending => false
            | _ => state.withdrawn }
      | none => some (state.abort i request)
    else none
  | .deleteRow =>
    if state.free i then
      some { state.proceedWith i request rest with
        row := none, lock := state.released i, withdrawn := true }
    else none
  | .updateFolder folderId body =>
    match Access.updateFolder org state.folders [] folderId body with
    | .ok (folders, _) => some { state.proceedWith i request rest with folders := folders }
    | .error _ => some (state.abort i request)
  | .revoke taskId =>
    if ok then
      some { state.proceedWith i request rest with
        flags := taskId :: state.flags, revoked := taskId :: state.revoked }
    else some (state.proceedWith i request rest)
  | .dispatchIngest task required =>
    if ok then
      some { state with
        tasks := state.tasks ++ [task]
        requests := state.requests.set i ⟨rest, some state.tasks.length⟩ }
    else if required then
      if state.free i then
        some { state.abort i request with
          row := state.row.map fun row => row.revise { processingStatus := some .failed } }
      else none
    else some (state.abort i request)
  | .persistTaskId =>
    if state.free i then
      some { state.proceedWith i request rest with
        row := state.row.map fun row => row.revise { celeryTaskId := some request.dispatched } }
    else none
  | .dispatchMetadataUpdate scoping =>
    if ok then
      some { state.proceedWith i request rest with updates := state.updates ++ [scoping] }
    else some (state.proceedWith i request rest)

/-! ## Workers -/

section

variable (state : State)

/-- A status callback: a terminal row is left alone. -/
def report (status : ProcessingStatus) : State :=
  match state.row with
  | some row =>
    if row.processingStatus.terminal then state
    else { state with callbacks := state.callbacks ++ [status] }
  | none => state

def setStage (k : Nat) (copy : Copy) (stage : Stage) : State :=
  { state with copies := state.copies.set k { copy with stage := stage } }

/-- The copy found its cancel flag. -/
def cancelled (k : Nat) (copy : Copy) : State :=
  (state.setStage k copy .ended).report .cancelled

def giveUp (k : Nat) (copy : Copy) : State :=
  { (state.setStage k copy .ended).report .failed with failed := true }

end

/-- A submit starts a job, unless one is running. -/
def submit (engine : Engine) (state : State) (request : IngestRequest) : State :=
  if state.registry = some .running then state
  else
    { state with
      registry := some .running
      jobs := state.jobs ++ [ingestDocument engine request] }

def proceed (engine : Engine) (state : State) (k : Nat) (copy : Copy) (task : Task) :
    Option State :=
  match copy.stage with
  | .queued =>
    if copy.task ∈ state.flags then some (state.cancelled k copy)
    else
      match task.source with
      | .text text => some ((state.setStage k copy (.holding text)).report .processing)
      | .original _ => some ((state.setStage k copy .downloading).report .processing)
  | .downloading =>
    match task.source with
    | .text _ => none
    | .original url =>
      match state.objects url with
      | some raw => some (state.setStage k copy (.downloaded raw))
      | none => some (state.giveUp k copy)
  | .downloaded raw =>
    if copy.task ∈ state.flags then some (state.cancelled k copy)
    else some ((state.setStage k copy (.extracting raw)).report .processing)
  | .extracting raw =>
    match task.source with
    | .text _ => none
    | .original url =>
      let text := engine.extractText url raw
      if text.toList.all isBlank then some (state.giveUp k copy)
      else some ((state.setStage k copy (.holding text)).report .processing)
  | .holding text =>
    if copy.task ∈ state.flags then some (state.cancelled k copy)
    else some (state.setStage k copy (.submitting text))
  | .submitting text =>
    some ((state.setStage k copy .polling).submit engine
      { text := text, scoping := task.scoping, useKnowledgeGraph := task.useKnowledgeGraph })
  | .polling =>
    if copy.task ∈ state.flags then some (state.cancelled k copy)
    else
      match state.registry with
      | some .done => some ((state.setStage k copy .ended).report .success)
      | some .failed => some (state.giveUp k copy)
      | _ => none
  | .ended => none

section

variable (state : State) (k : Nat) (copy : UpdateCopy)

def setUpdateStage (stage : UpdateStage) : State :=
  { state with updateCopies := state.updateCopies.set k { copy with stage := stage } }

def updatePage (offset : Nat) (scoping : Scoping) : State :=
  let page := scroll state.index.points offset
  { state.setUpdateStage k copy
      (match page.2 with
        | some next => .scrolling next
        | none => .ended) with
    index := { state.index with points := setPayload state.index.points page.1 scoping } }

end

/-! ## Background jobs -/

/-- The next effect of a job, or its end. `ok` is false when the store fails. -/
def work (state : State) (k : Nat) (todo : List IndexEffect) (ids : List Nat) (ok : Bool) :
    Option State :=
  match todo with
  | [] => some { state with jobs := state.jobs.eraseIdx k, registry := some .done }
  | effect :: rest =>
    if ok then
      if effect.admits ids state.index then
        some { state with jobs := state.jobs.set k rest, index := effect.apply ids state.index }
      else none
    else if effect.raises then
      some { state with
        jobs := state.jobs.eraseIdx k, registry := some .failed, failed := true }
    else some { state with jobs := state.jobs.set k rest }

end State

/-! ## Events -/

inductive Event where
  | arrive (call : Call)
  /-- The next effect of a request. -/
  | perform (i : Nat) (ok : Bool)
  /-- A status callback writes the row. -/
  | callback (k : Nat)
  | deliver (task : Nat)
  | proceed (k : Nat)
  /-- A copy gives up: an error, a lost job or the deadline. -/
  | giveUp (k : Nat)
  | redeliver (k : Nat)
  /-- The worker of a revoked copy is stopped. -/
  | terminate (k : Nat)
  | flagExpires (task : Nat)
  | deliverUpdate (update : Nat)
  | updatePage (k : Nat)
  /-- A metadata update is tried again from its start. -/
  | retryUpdate (k : Nat)
  | giveUpUpdate (k : Nat)
  /-- The next effect of a background job. -/
  | work (k : Nat) (ids : List Nat) (ok : Bool)
  | jobFails (k : Nat)
  /-- The registry drops the document's entry to bound its size. -/
  | evict
  | restart

/-- What an event leads to, if it can happen. -/
def State.step (engine : Engine) (org : Org) (state : State) : Event → Option State
  | .arrive call => state.arrive org call
  | .perform i ok =>
    state.requests[i]?.bind fun request =>
      match request.todo with
      | [] => none
      | action :: rest => state.perform org i request rest ok action
  | .callback k =>
    state.callbacks[k]?.bind fun status =>
      if state.lock = none then
        some { state with
          callbacks := state.callbacks.eraseIdx k
          row := state.row.map fun row => row.revise { processingStatus := some status } }
      else none
  | .deliver task =>
    if task < state.tasks.length then
      let state : State := { state with copies := state.copies ++ [{ task := task }] }
      some (state.report .processing)
    else none
  | .proceed k =>
    state.copies[k]?.bind fun copy =>
      state.tasks[copy.task]?.bind fun task => state.proceed engine k copy task
  | .giveUp k =>
    state.copies[k]?.bind fun copy =>
      if copy.stage = .ended then none else some (state.giveUp k copy)
  | .redeliver k =>
    state.copies[k]?.bind fun copy =>
      if copy.stage = .ended then none else some (state.setStage k copy .queued)
  | .terminate k =>
    state.copies[k]?.bind fun copy =>
      if copy.task ∈ state.revoked then some (state.setStage k copy .ended) else none
  | .flagExpires task => some { state with flags := state.flags.filter (· ≠ task) }
  | .deliverUpdate update =>
    if update < state.updates.length then
      some { state with updateCopies := state.updateCopies ++ [{ update := update }] }
    else none
  | .updatePage k =>
    state.updateCopies[k]?.bind fun copy =>
      state.updates[copy.update]?.bind fun scoping =>
        match copy.stage with
        | .waiting => some (state.updatePage k copy 0 scoping)
        | .scrolling offset => some (state.updatePage k copy offset scoping)
        | .ended => none
  | .retryUpdate k =>
    state.updateCopies[k]?.bind fun copy =>
      if copy.stage = .ended then none else some (state.setUpdateStage k copy .waiting)
  | .giveUpUpdate k =>
    state.updateCopies[k]?.bind fun copy =>
      if copy.stage = .ended then none
      else some { state.setUpdateStage k copy .ended with failed := true }
  | .work k ids ok => state.jobs[k]?.bind fun todo => state.work k todo ids ok
  | .jobFails k =>
    state.jobs[k]?.bind fun _ =>
      some { state with
        jobs := state.jobs.eraseIdx k, registry := some .failed, failed := true }
  | .evict => some { state with registry := none }
  | .restart =>
    some { state with
      registry := none, jobs := [], failed := state.failed || !state.jobs.isEmpty }

/-! ## What the parts of a step keep -/

namespace State

variable {state next : State}

section

variable (state : State) (status : ProcessingStatus)

/-- The callbacks once a status is reported, or a terminal row left alone. -/
def Reported (callbacks : List ProcessingStatus) : Prop :=
  callbacks = state.callbacks ∨ callbacks = state.callbacks ++ [status]

theorem report_eq : ∃ callbacks, state.Reported status callbacks ∧
      state.report status = { state with callbacks := callbacks } := by
  unfold report
  split
  · split
    · exact ⟨_, .inl rfl, rfl⟩
    · exact ⟨_, .inr rfl, rfl⟩
  · exact ⟨_, .inl rfl, rfl⟩

end

/-- The stages a copy moves through by itself, its submit apart. -/
inductive Moves (engine : Engine) (state : State) (copy : Copy) (task : Task) : Stage → Prop where
  | take {text : String} (source : task.source = .text text) (stage : copy.stage = .queued) :
      Moves engine state copy task (.holding text)
  | fetch {url : String} (source : task.source = .original url) (stage : copy.stage = .queued) :
      Moves engine state copy task .downloading
  | download {url raw : String} (source : task.source = .original url)
      (stored : state.objects url = some raw) (stage : copy.stage = .downloading) :
      Moves engine state copy task (.downloaded raw)
  | start {raw : String} (stage : copy.stage = .downloaded raw) :
      Moves engine state copy task (.extracting raw)
  | extract {url raw : String} (source : task.source = .original url)
      (stage : copy.stage = .extracting raw) :
      Moves engine state copy task (.holding (engine.extractText url raw))
  | pass {text : String} (stage : copy.stage = .holding text) :
      Moves engine state copy task (.submitting text)
  | cancel (flagged : copy.task ∈ state.flags) : Moves engine state copy task .ended
  | finish (stage : copy.stage = .polling) : Moves engine state copy task .ended

theorem giveUp_eq (state : State) (k : Nat) (copy : Copy) :
    ∃ callbacks, state.Reported .failed callbacks ∧ state.giveUp k copy =
      { state.setStage k copy .ended with callbacks := callbacks, failed := true } := by
  obtain ⟨callbacks, sent, same⟩ := report_eq (state.setStage k copy .ended) .failed
  exact ⟨callbacks, sent, by rw [giveUp, same]⟩

/-- **What the next stage of a copy does**: it moves on by itself, gives up or submits, and only a
copy that finds its document done reports a success. -/
theorem proceed_cases {engine : Engine} {k : Nat} {copy : Copy} {task : Task}
    (proceeded : state.proceed engine k copy task = some next) :
    (∃ stage status callbacks, Moves engine state copy task stage ∧
      state.Reported status callbacks ∧
      (status = .success → copy.stage = .polling ∧ state.registry = some .done) ∧
      next = { state.setStage k copy stage with callbacks := callbacks }) ∨
    (∃ callbacks, state.Reported .failed callbacks ∧
      next = { state.setStage k copy .ended with callbacks := callbacks, failed := true }) ∨
    ∃ text, copy.stage = .submitting text ∧ next = (state.setStage k copy .polling).submit engine
      { text := text, scoping := task.scoping, useKnowledgeGraph := task.useKnowledgeGraph } := by
  have moved : ∀ {stage status}, Moves engine state copy task stage →
      some ((state.setStage k copy stage).report status) = some next →
      (status = .success → copy.stage = .polling ∧ state.registry = some .done) →
      ∃ stage status callbacks, Moves engine state copy task stage ∧
        state.Reported status callbacks ∧
        (status = .success → copy.stage = .polling ∧ state.registry = some .done) ∧
        next = { state.setStage k copy stage with callbacks := callbacks } := by
    intro stage status moves same success
    obtain ⟨callbacks, sent, reported⟩ := report_eq (state.setStage k copy stage) status
    exact ⟨stage, status, callbacks, moves, sent, success, (some.inj same).symm.trans reported⟩
  have silent : ∀ {stage}, Moves engine state copy task stage →
      some (state.setStage k copy stage) = some next →
      ∃ stage status callbacks, Moves engine state copy task stage ∧
        state.Reported status callbacks ∧
        (status = .success → copy.stage = .polling ∧ state.registry = some .done) ∧
        next = { state.setStage k copy stage with callbacks := callbacks } := fun moves same =>
    ⟨_, .failed, _, moves, .inl rfl, nofun, (some.inj same).symm⟩
  have gaveUp : some (state.giveUp k copy) = some next → ∃ callbacks,
      state.Reported .failed callbacks ∧
        next = { state.setStage k copy .ended with callbacks := callbacks, failed := true } := by
    rintro ⟨⟩
    exact giveUp_eq state k copy
  unfold proceed at proceeded
  split at proceeded
  · rename_i queued
    split at proceeded
    · rename_i flagged
      exact .inl (moved (.cancel flagged) proceeded nofun)
    · split at proceeded
      · rename_i source
        exact .inl (moved (.take source queued) proceeded nofun)
      · rename_i source
        exact .inl (moved (.fetch source queued) proceeded nofun)
  · rename_i downloading
    split at proceeded
    · cases proceeded
    · rename_i source
      split at proceeded
      · rename_i stored
        exact .inl (silent (.download source stored downloading) proceeded)
      · exact .inr (.inl (gaveUp proceeded))
  · rename_i downloaded
    split at proceeded
    · rename_i flagged
      exact .inl (moved (.cancel flagged) proceeded nofun)
    · exact .inl (moved (.start downloaded) proceeded nofun)
  · rename_i extracting
    split at proceeded
    · cases proceeded
    · rename_i source
      simp only at proceeded
      split at proceeded
      · exact .inr (.inl (gaveUp proceeded))
      · exact .inl (moved (.extract source extracting) proceeded nofun)
  · rename_i holding
    split at proceeded
    · rename_i flagged
      exact .inl (moved (.cancel flagged) proceeded nofun)
    · exact .inl (silent (.pass holding) proceeded)
  · rename_i text submitting
    exact .inr (.inr ⟨text, submitting, (some.inj proceeded).symm⟩)
  · rename_i polling
    split at proceeded
    · rename_i flagged
      exact .inl (moved (.cancel flagged) proceeded nofun)
    · split at proceeded
      · rename_i done
        exact .inl (moved (.finish polling) proceeded fun _ => ⟨polling, done⟩)
      · exact .inr (.inl (gaveUp proceeded))
      · cases proceeded
  · cases proceeded

/-- What an event leads to. -/
inductive Stepped (engine : Engine) (org : Org) (state : State) : Event → State → Prop where
  | arrive {call : Call} {todo : List Action} {lock : Option Nat}
      (handled : state.handle org call = some todo) :
      Stepped engine org state (.arrive call)
        { state with requests := state.requests ++ [{ todo := todo }], lock := lock }
  | perform {i : Nat} {ok : Bool} {request : Request} {action : Action} {rest : List Action}
      {next : State} (found : state.requests[i]? = some request)
      (todo : request.todo = action :: rest)
      (performed : state.perform org i request rest ok action = some next) :
      Stepped engine org state (.perform i ok) next
  | callback {k : Nat} {status : ProcessingStatus} (found : state.callbacks[k]? = some status) :
      Stepped engine org state (.callback k) { state with
        callbacks := state.callbacks.eraseIdx k
        row := state.row.map fun row => row.revise { processingStatus := some status } }
  | deliver {task : Nat} {callbacks : List ProcessingStatus} (known : task < state.tasks.length)
      (sent : state.Reported .processing callbacks) :
      Stepped engine org state (.deliver task)
        { state with copies := state.copies ++ [{ task := task }], callbacks := callbacks }
  | proceed {k : Nat} {copy : Copy} {task : Task} {next : State}
      (found : state.copies[k]? = some copy) (isTask : state.tasks[copy.task]? = some task)
      (proceeded : state.proceed engine k copy task = some next) :
      Stepped engine org state (.proceed k) next
  | giveUp {k : Nat} {copy : Copy} {callbacks : List ProcessingStatus}
      (found : state.copies[k]? = some copy) (sent : state.Reported .failed callbacks) :
      Stepped engine org state (.giveUp k)
        { state.setStage k copy .ended with callbacks := callbacks, failed := true }
  | redeliver {k : Nat} {copy : Copy} (found : state.copies[k]? = some copy) :
      Stepped engine org state (.redeliver k) (state.setStage k copy .queued)
  | terminate {k : Nat} {copy : Copy} (found : state.copies[k]? = some copy)
      (revoked : copy.task ∈ state.revoked) :
      Stepped engine org state (.terminate k) (state.setStage k copy .ended)
  | flagExpires {task : Nat} :
      Stepped engine org state (.flagExpires task)
        { state with flags := state.flags.filter (· ≠ task) }
  | deliverUpdate {update : Nat} (known : update < state.updates.length) :
      Stepped engine org state (.deliverUpdate update)
        { state with updateCopies := state.updateCopies ++ [{ update := update }] }
  | updatePage {k : Nat} {copy : UpdateCopy} {scoping : Scoping} {offset : Nat}
      (found : state.updateCopies[k]? = some copy)
      (sent : state.updates[copy.update]? = some scoping)
      (stage : copy.stage = .waiting ∧ offset = 0 ∨ copy.stage = .scrolling offset) :
      Stepped engine org state (.updatePage k) (state.updatePage k copy offset scoping)
  | retryUpdate {k : Nat} {copy : UpdateCopy} (found : state.updateCopies[k]? = some copy) :
      Stepped engine org state (.retryUpdate k) (state.setUpdateStage k copy .waiting)
  | giveUpUpdate {k : Nat} {copy : UpdateCopy} (found : state.updateCopies[k]? = some copy) :
      Stepped engine org state (.giveUpUpdate k)
        { state.setUpdateStage k copy .ended with failed := true }
  | work {k : Nat} {ids : List Nat} {ok : Bool} {todo : List IndexEffect} {next : State}
      (found : state.jobs[k]? = some todo) (worked : state.work k todo ids ok = some next) :
      Stepped engine org state (.work k ids ok) next
  | jobFails {k : Nat} :
      Stepped engine org state (.jobFails k)
        { state with jobs := state.jobs.eraseIdx k, registry := some .failed, failed := true }
  | evict : Stepped engine org state .evict { state with registry := none }
  | restart :
      Stepped engine org state .restart { state with
        registry := none, jobs := [], failed := state.failed || !state.jobs.isEmpty }

/-- **Every step is one of these.** -/
theorem step_cases {engine : Engine} {org : Org} {event : Event}
    (stepped : state.step engine org event = some next) :
    Stepped engine org state event next := by
  cases event with
  | arrive call =>
    simp only [step, State.arrive] at stepped
    split at stepped
    · cases stepped
    · obtain ⟨todo, handled, rfl⟩ := map_eq_some_iff.mp stepped
      exact .arrive handled
  | perform i ok =>
    obtain ⟨request, found, performed⟩ := bind_eq_some_iff.mp stepped
    cases todo : request.todo with
    | nil => simp only [todo] at performed; cases performed
    | cons action rest =>
      simp only [todo] at performed
      exact .perform found todo performed
  | callback k =>
    obtain ⟨status, found, written⟩ := bind_eq_some_iff.mp stepped
    split at written <;> cases written
    exact .callback found
  | deliver task =>
    simp only [step] at stepped
    split at stepped
    · rename_i known
      obtain ⟨callbacks, sent, same⟩ :=
        report_eq { state with copies := state.copies ++ [{ task := task }] } .processing
      rw [same] at stepped
      cases stepped
      exact .deliver known sent
    · cases stepped
  | proceed k =>
    obtain ⟨copy, found, proceeded⟩ := bind_eq_some_iff.mp stepped
    obtain ⟨task, isTask, proceeded⟩ := bind_eq_some_iff.mp proceeded
    exact .proceed found isTask proceeded
  | giveUp k =>
    obtain ⟨copy, found, gaveUp⟩ := bind_eq_some_iff.mp stepped
    split at gaveUp
    · cases gaveUp
    · obtain ⟨callbacks, sent, same⟩ := giveUp_eq state k copy
      rw [same] at gaveUp
      cases gaveUp
      exact .giveUp found sent
  | redeliver k =>
    obtain ⟨copy, found, redelivered⟩ := bind_eq_some_iff.mp stepped
    split at redelivered <;> cases redelivered
    exact .redeliver found
  | terminate k =>
    obtain ⟨copy, found, terminated⟩ := bind_eq_some_iff.mp stepped
    split at terminated <;> cases terminated
    exact .terminate found ‹_›
  | flagExpires task => cases stepped; exact .flagExpires
  | deliverUpdate update =>
    simp only [step] at stepped
    split at stepped <;> cases stepped
    exact .deliverUpdate ‹_›
  | updatePage k =>
    obtain ⟨copy, found, paged⟩ := bind_eq_some_iff.mp stepped
    obtain ⟨scoping, sent, paged⟩ := bind_eq_some_iff.mp paged
    split at paged <;> cases paged
    · rename_i waiting
      exact .updatePage found sent (.inl ⟨waiting, rfl⟩)
    · rename_i scrolling
      exact .updatePage found sent (.inr scrolling)
  | retryUpdate k =>
    obtain ⟨copy, found, retried⟩ := bind_eq_some_iff.mp stepped
    split at retried <;> cases retried
    exact .retryUpdate found
  | giveUpUpdate k =>
    obtain ⟨copy, found, gaveUp⟩ := bind_eq_some_iff.mp stepped
    split at gaveUp <;> cases gaveUp
    exact .giveUpUpdate found
  | work k ids ok =>
    obtain ⟨todo, found, worked⟩ := bind_eq_some_iff.mp stepped
    exact .work found worked
  | jobFails k =>
    obtain ⟨todo, found, failed⟩ := bind_eq_some_iff.mp stepped
    cases failed
    exact .jobFails
  | evict => cases stepped; exact .evict
  | restart => cases stepped; exact .restart

variable {action : Action} {request : Request} {rest : List Action}

theorem perform_requests {org : Org} {i : Nat} {ok : Bool}
    (performed : state.perform org i request rest ok action = some next) :
    ∃ after : Request, (after.todo = rest ∨ after.todo = []) ∧
      next.requests = state.requests.set i after := by
  cases action <;> grind [perform, proceedWith, abort]

theorem perform_keeps {org : Org} {i : Nat} {ok : Bool}
    (performed : state.perform org i request rest ok action = some next) :
    next.copies = state.copies ∧ next.updateCopies = state.updateCopies ∧
      next.callbacks = state.callbacks ∧ next.registry = state.registry ∧
      next.jobs = state.jobs ∧ next.failed = state.failed := by
  cases action <;> grind [perform, proceedWith, abort]

/-- What a successful purge leaves of the index. -/
def purged (index : Index) (ok : Bool) : Action → Index
  | .purgeVectors => if ok then IndexEffect.deleteVectors.apply [] index else index
  | .purgeKnowledge => if ok then IndexEffect.deleteKnowledge.apply [] index else index
  | _ => index

theorem perform_index {org : Org} {i : Nat} {ok : Bool}
    (performed : state.perform org i request rest ok action = some next) :
    next.index = purged state.index ok action := by
  cases action <;> grind [perform, proceedWith, abort, purged]

end State

structure State.Quiet (state : State) : Prop where
  requests : ∀ request ∈ state.requests, request.todo = []
  callbacks : state.callbacks = []
  tasks : ∀ i < state.tasks.length, ∃ copy ∈ state.copies, copy.task = i
  copies : ∀ copy ∈ state.copies, copy.stage = .ended
  updates : ∀ i < state.updates.length, ∃ copy ∈ state.updateCopies, copy.update = i
  updateCopies : ∀ copy ∈ state.updateCopies, copy.stage = .ended
  jobs : state.jobs = []

/-- The histories of a document from a state. -/
def From (engine : Engine) (org : Org) (start : State) (history : Lib.History Event State) : Prop :=
  Lib.History.Steps (fun state event next => state.step engine org event = some next)
    { now := start } history

end RedArchKM.Ingest
