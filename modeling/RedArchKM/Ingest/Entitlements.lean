import RedArchKM.Ingest.Withdrawal

/-!
# The index ends up with the current entitlements

Every task that is dispatched for a document carries a copy of its title, tags and access keys.
A job writes its chunks with the copy of its ingest, a metadata update overwrites what is there
page by page, and neither looks at the rows again.

`followsRows_of_heeded` says that the index follows the rows as long as every step heeds them: it
writes what they give by then, or an update with that is still ahead of what it wrote.
-/

namespace RedArchKM.Ingest

open List Option

open Access (Folder FolderUpdate Org twoRegions)
open Lib (Moment History)

/-! ## What the rows give -/

namespace State

/-- What the rows give the document, as the index stores it. -/
def granted (state : State) : Option Scoping :=
  state.row.map fun row => (currentScoping state.folders row).stored

/-- Once all is quiet and nothing has failed, every chunk is stored with what the rows give. -/
def FollowsRows (state : State) : Prop :=
  state.Quiet → state.failed = false →
    ∀ due ∈ state.granted, ∀ point ∈ state.index.points, point.scoping = due

end State

/-! ## Updates to come -/

namespace Action

/-- Effects that a request may end at while the row is there. -/
def fallible : Action → Bool
  | .reachBrain => true
  | .rewriteObject _ _ => true
  | .storeObject _ _ => true
  | .insertRow _ => true
  | .updateFolder _ _ => true
  | .dispatchIngest _ _ => true
  | _ => false

def renews (due : Scoping) : Action → Bool
  | .dispatchMetadataUpdate scoping => scoping.stored = due
  | _ => false

/-- Effects that may change what the rows give, or that send the update of it. -/
def commits : Action → Bool
  | .insertRow _ => true
  | .updateRow _ => true
  | .deleteRow => true
  | .updateFolder _ _ => true
  | .dispatchMetadataUpdate _ => true
  | _ => false

end Action

/-- The request will dispatch a metadata update that stores this. -/
def Renews (todo : List Action) (due : Scoping) : Prop :=
  (∀ action ∈ todo, action.fallible = false) ∧ ∃ action ∈ todo, action.renews due = true

/-- Whether an update still comes to the point. -/
def UpdateStage.ahead (id : Nat) : UpdateStage → Bool
  | .waiting => true
  | .scrolling offset => offset ≤ id
  | .ended => false

namespace State

section

variable (state : State) (due : Scoping)

/-- A metadata update that stores this is dispatched, or will be, and was not delivered yet. -/
def Announces : Prop :=
  (∃ request ∈ state.requests, Renews request.todo due) ∨
    ∃ i < state.updates.length, state.updates[i]?.map Scoping.stored = some due ∧
      ∀ copy ∈ state.updateCopies, copy.update ≠ i

/-- The copy of an update stores this, and what it does not come to any more has it already. -/
def Sweeps (copy : UpdateCopy) : Prop :=
  state.updates[copy.update]?.map Scoping.stored = some due ∧
    ∀ point ∈ state.index.points, copy.stage.ahead point.id = false → point.scoping = due

/-- Every point has this, or will get it from an update to come or under way. -/
def Settles : Prop :=
  state.Announces due ∨ (∃ copy ∈ state.updateCopies, state.Sweeps due copy) ∨
    ∀ point ∈ state.index.points, point.scoping = due

end

end State

/-! ## Steps that heed the rows -/

/-- The points of those ids get what the rows give, or an update with that is still ahead of
them. -/
def HeedsWrite (state : State) (ids : List Nat) (scoping : Scoping) : Prop :=
  ∀ due ∈ state.granted, scoping.stored = due ∨ ids = [] ∨ state.Announces due ∨
    ∃ copy ∈ state.updateCopies, state.Sweeps due copy ∧
      ∀ id ∈ ids, copy.stage.ahead id = true

/-- A commit that changes what the rows give leaves an update with that ahead of every point that
differs. -/
def HeedsCommit (before after : State) : Prop :=
  after.granted = before.granted ∨ ∀ due ∈ after.granted, after.Settles due

/-- A metadata update that the rows still need is dispatched, or another is ahead. -/
def HeedsEffect (org : Org) (state : State) (i : Nat) (request : Request) (rest : List Action)
    (ok : Bool) : Action → Prop
  | .insertRow row =>
    state.row.isSome ∨ HeedsCommit state { state.proceedWith i request rest with row := some row }
  | .updateRow revision =>
    HeedsCommit state { state.proceedWith i request rest with
      row := state.row.map fun row : Row => row.revise revision }
  | .updateFolder folderId body =>
    ∀ updated ∈ (Access.updateFolder org state.folders [] folderId body).toOption,
      HeedsCommit state { state.proceedWith i request rest with folders := updated.1 }
  | .dispatchMetadataUpdate scoping =>
    ok = true ∨ ∀ due ∈ state.granted, scoping.stored = due →
      (state.proceedWith i request rest).Settles due
  | _ => True

def IndexEffect.chunkScoping : IndexEffect → Option Scoping
  | .upsertChunks _ scoping => some scoping
  | _ => none

/-- Where the next page of an update begins. -/
def UpdateStage.offset : UpdateStage → Option Nat
  | .waiting => some 0
  | .scrolling offset => some offset
  | .ended => none

/-- The step heeds what the rows give by then. -/
def Heeds (org : Org) (moment : Moment Event State) : Prop :=
  match moment.event with
  | .perform i ok =>
    ∀ request ∈ moment.before.requests[i]?, ∀ action ∈ request.todo.head?,
      HeedsEffect org moment.before i request request.todo.tail ok action
  | .work k ids ok =>
    ok = true → ∀ todo ∈ moment.before.jobs[k]?, ∀ effect ∈ todo.head?,
      ∀ scoping ∈ effect.chunkScoping, HeedsWrite moment.before ids scoping
  | .updatePage k =>
    ∀ copy ∈ moment.before.updateCopies[k]?, ∀ scoping ∈ moment.before.updates[copy.update]?,
      ∀ offset ∈ copy.stage.offset,
        HeedsWrite moment.before (scroll moment.before.index.points offset).1 scoping
  | _ => True

instance (todo : List Action) (due : Scoping) : Decidable (Renews todo due) := by
  unfold Renews
  infer_instance

instance (state : State) (due : Scoping) : Decidable (state.Announces due) := by
  unfold State.Announces
  infer_instance

instance (state : State) (due : Scoping) (copy : UpdateCopy) :
    Decidable (state.Sweeps due copy) := by
  unfold State.Sweeps
  infer_instance

instance (state : State) (due : Scoping) : Decidable (state.Settles due) := by
  unfold State.Settles
  infer_instance

instance (state : State) (ids : List Nat) (scoping : Scoping) :
    Decidable (HeedsWrite state ids scoping) := by
  unfold HeedsWrite
  infer_instance

instance (before after : State) : Decidable (HeedsCommit before after) := by
  unfold HeedsCommit
  infer_instance

instance (org : Org) (state : State) (i : Nat) (request : Request) (rest : List Action)
    (ok : Bool) (action : Action) :
    Decidable (HeedsEffect org state i request rest ok action) := by
  induction action using Action.casesOn <;> unfold HeedsEffect <;> infer_instance

instance (org : Org) (moment : Moment Event State) : Decidable (Heeds org moment) := by
  unfold Heeds
  induction moment.event using Event.casesOn <;> infer_instance

/-! ## What settles a point -/

theorem Renews.tail {action : Action} {rest : List Action} {due : Scoping}
    (renews : Renews (action :: rest) due) (other : action.renews due = false) :
    Renews rest due := by
  obtain ⟨firm, sender, member, sends⟩ := renews
  refine ⟨(forall_mem_cons.mp firm).2, sender, ?_, sends⟩
  refine (mem_cons.mp member).resolve_left ?_
  rintro rfl
  rw [other] at sends
  cases sends

theorem not_renews_of_fallible {action : Action} {rest : List Action} {due : Scoping}
    (fallible : action.fallible = true) : ¬ Renews (action :: rest) due := by
  rintro ⟨firm, -⟩
  rw [firm action mem_cons_self] at fallible
  cases fallible

namespace State

variable {org : Org} {state next : State} {due : Scoping}

/-- What neither drops an update to come nor stores anything else keeps the points settled. -/
theorem Settles.keep (settles : state.Settles due)
    (requests : ∀ request ∈ state.requests, Renews request.todo due →
      ∃ other ∈ next.requests, Renews other.todo due)
    (updates : next.updates = state.updates) (copies : next.updateCopies = state.updateCopies)
    (points : ∀ point ∈ next.index.points, point.scoping = due ∨
      ∃ old ∈ state.index.points, old.id = point.id ∧ old.scoping = point.scoping) :
    next.Settles due := by
  rcases settles with (⟨request, member, renews⟩ | announced) | ⟨copy, member, sends, passed⟩ | all
  · exact .inl (.inl (requests request member renews))
  · refine .inl (.inr ?_)
    rwa [updates, copies]
  · refine .inr (.inl ⟨copy, copies ▸ member, updates ▸ sends, fun point isPoint behind => ?_⟩)
    rcases points point isPoint with same | ⟨old, isOld, id, scoping⟩
    · exact same
    · rw [← scoping]
      exact passed old isOld (id ▸ behind)
  · refine .inr (.inr fun point isPoint => ?_)
    rcases points point isPoint with same | ⟨old, isOld, -, scoping⟩
    · exact same
    · rw [← scoping]
      exact all old isOld

variable {scoping : Scoping} {action : Action} {request : Request} {rest : List Action}

/-- A write to points of those ids keeps the points settled if it heeds the rows. -/
theorem Settles.write {ids : List Nat} {index : Index} (settles : state.Settles due)
    (heeds : scoping.stored = due ∨ ids = [] ∨ state.Announces due ∨
      ∃ copy ∈ state.updateCopies, state.Sweeps due copy ∧ ∀ id ∈ ids, copy.stage.ahead id = true)
    (points : ∀ point ∈ index.points, point.id ∈ ids ∧ point.scoping = scoping.stored ∨
      ∃ old ∈ state.index.points, old.id = point.id ∧ old.scoping = point.scoping) :
    State.Settles { state with index := index } due := by
  rcases heeds with same | none_ | announced | ⟨copy, member, ⟨sends, passed⟩, ahead⟩
  · refine settles.keep (fun request member renews => ⟨request, member, renews⟩) rfl rfl
      fun point member => ?_
    rcases points point member with ⟨-, stored⟩ | old
    · exact .inl (stored.trans same)
    · exact .inr old
  · refine settles.keep (fun request member renews => ⟨request, member, renews⟩) rfl rfl
      fun point member => .inr ?_
    refine (points point member).resolve_left ?_
    rintro ⟨among, -⟩
    rw [none_] at among
    cases among
  · exact .inl announced
  · refine .inr (.inl ⟨copy, member, sends, fun point isPoint behind => ?_⟩)
    rcases points point isPoint with ⟨among, -⟩ | ⟨old, isOld, id, scoping⟩
    · rw [ahead point.id among] at behind
      cases behind
    · rw [← scoping]
      exact passed old isOld (id ▸ behind)

theorem Settles.setUpdateStage {k : Nat} {copy : UpdateCopy} {stage : UpdateStage}
    (settles : state.Settles due) (found : state.updateCopies[k]? = some copy)
    (passed : state.Sweeps due copy →
      ∀ point ∈ state.index.points, stage.ahead point.id = false → point.scoping = due) :
    (state.setUpdateStage k copy stage).Settles due := by
  have here : { copy with stage := stage } ∈ (state.setUpdateStage k copy stage).updateCopies :=
    List.mem_set (List.getElem?_eq_some_iff.mp found).1 _
  rcases settles with (renews | ⟨i, bound, sends, unsent⟩) | ⟨other, member, sweeps⟩ | all
  · exact .inl (.inl renews)
  · refine .inl (.inr ⟨i, bound, sends, fun other member => ?_⟩)
    rcases mem_or_eq_of_mem_set member with old | rfl
    · exact unsent other old
    · exact unsent copy (mem_of_getElem? found)
  · obtain ⟨j, isOther⟩ := mem_iff_getElem?.mp member
    by_cases same : j = k
    · subst same
      cases isOther.symm.trans found
      exact .inr (.inl ⟨_, here, sweeps.1, passed sweeps⟩)
    · refine .inr (.inl ⟨other, mem_iff_getElem?.mpr ⟨j, ?_⟩, sweeps⟩)
      rw [State.setUpdateStage, getElem?_set_ne (Ne.symm same), isOther]
  · exact .inr (.inr all)

/-! ## What every step keeps -/

/-- The copies are of updates, and the points are settled unless something has failed. -/
structure Guarded (state : State) : Prop where
  known : ∀ copy ∈ state.updateCopies, copy.update < state.updates.length
  settled : state.failed = true ∨ ∀ due ∈ state.granted, state.Settles due

theorem Guarded.keep (guarded : state.Guarded) (granted : next.granted = state.granted)
    (requests : ∀ request ∈ state.requests, request ∈ next.requests)
    (updates : next.updates = state.updates) (copies : next.updateCopies = state.updateCopies)
    (points : next.index.points = state.index.points)
    (failed : state.failed = true → next.failed = true) : next.Guarded := by
  refine ⟨updates ▸ copies ▸ guarded.known, guarded.settled.imp failed fun settled due isDue => ?_⟩
  refine (settled due (granted ▸ isDue)).keep
    (fun request member renews => ⟨request, requests request member, renews⟩) updates copies
    fun point member => .inr ⟨point, points ▸ member, rfl, rfl⟩

theorem Settles.perform {i : Nat} {after : Request} (settles : state.Settles due)
    (found : state.requests[i]? = some request) (todo : request.todo = action :: rest)
    (left : after.todo = rest ∨ action.fallible = true) (other : action.renews due = false)
    (requests : next.requests = state.requests.set i after) (updates : next.updates = state.updates)
    (copies : next.updateCopies = state.updateCopies)
    (points : next.index.points = state.index.points ∨ next.index.points = []) :
    next.Settles due := by
  refine settles.keep (fun request' member renews => ?_) updates copies fun point member => ?_
  · obtain ⟨j, isOther⟩ := mem_iff_getElem?.mp member
    by_cases same : j = i
    · subst same
      cases isOther.symm.trans found
      rw [todo] at renews
      refine ⟨after, requests ▸ List.mem_set (List.getElem?_eq_some_iff.mp found).1 _, ?_⟩
      rcases left with left | fallible
      · rw [left]
        exact renews.tail other
      · exact absurd renews (not_renews_of_fallible fallible)
    · refine ⟨request', mem_iff_getElem?.mpr ⟨j, ?_⟩, renews⟩
      rw [requests, getElem?_set_ne (Ne.symm same), isOther]
  · rcases points with same | none_
    · exact .inr ⟨point, same ▸ member, rfl, rfl⟩
    · rw [none_] at member
      cases member

theorem granted_revise {revision : Revision}
    (kept : ∀ row : Row, (row.revise revision).document = row.document)
    (row : next.row = state.row.map fun row => row.revise revision)
    (folders : next.folders = state.folders) : next.granted = state.granted := by
  rw [granted, granted, row, folders, Option.map_map]
  refine Option.map_congr fun row _ => ?_
  simp only [Function.comp_apply, currentScoping, Row.folder, Row.accessKeys, kept row]

theorem perform_plain {i : Nat} {ok : Bool}
    (performed : state.perform org i request rest ok action = some next)
    (plain : action.commits = false) :
    (∃ after : Request, next.requests = state.requests.set i after ∧
      (after.todo = rest ∨ action.fallible = true)) ∧
    next.granted = state.granted ∧ next.updates = state.updates := by
  cases action with
  | insertRow _ => cases plain
  | updateRow _ => cases plain
  | deleteRow => cases plain
  | updateFolder _ _ => cases plain
  | dispatchMetadataUpdate _ => cases plain
  | dispatchIngest task required =>
    simp only [perform] at performed
    split at performed
    · cases performed
      exact ⟨⟨_, rfl, .inl rfl⟩, rfl, rfl⟩
    · split at performed
      · split at performed
        · cases performed
          exact ⟨⟨_, rfl, .inr rfl⟩, granted_revise (fun _ => rfl) rfl rfl, rfl⟩
        · cases performed
      · cases performed
        exact ⟨⟨_, rfl, .inr rfl⟩, rfl, rfl⟩
  | persistTaskId =>
    simp only [perform] at performed
    split at performed
    · cases performed
      exact ⟨⟨_, rfl, .inl rfl⟩, granted_revise (fun _ => rfl) rfl rfl, rfl⟩
    · cases performed
  | _ => grind [perform, proceedWith, abort, granted, Action.fallible]

theorem points_purged (index : Index) (ok : Bool) (action : Action) :
    (purged index ok action).points = index.points ∨ (purged index ok action).points = [] := by
  cases action <;> cases ok <;> simp [purged, IndexEffect.apply]

theorem Guarded.commit {i : Nat} (guarded : state.Guarded)
    (found : state.requests[i]? = some request) (todo : request.todo = action :: rest)
    (other : ∀ due, action.renews due = false) (heeds : HeedsCommit state next)
    (requests : next.requests = state.requests.set i { request with todo := rest })
    (updates : next.updates = state.updates) (copies : next.updateCopies = state.updateCopies)
    (index : next.index = state.index) (failed : next.failed = state.failed) : next.Guarded := by
  refine ⟨updates ▸ copies ▸ guarded.known, ?_⟩
  rcases heeds with same | settled
  · refine guarded.settled.imp failed.trans fun settled due isDue => ?_
    exact (settled due (same ▸ isDue)).perform found todo (.inl rfl) (other due) requests updates
      copies (.inl (by rw [index]))
  · exact .inr settled

theorem Guarded.dispatch {i : Nat} (guarded : state.Guarded)
    (found : state.requests[i]? = some request)
    (todo : request.todo = .dispatchMetadataUpdate scoping :: rest) :
    State.Guarded { state.proceedWith i request rest with
      updates := state.updates ++ [scoping] } := by
  refine ⟨fun copy member => ?_, guarded.settled.imp_right fun settled due isDue => ?_⟩
  · have bound := guarded.known copy member
    rw [length_append]
    omega
  by_cases same : scoping.stored = due
  · refine .inl (.inr ⟨state.updates.length, by simp, by simp [same], fun copy member => ?_⟩)
    exact Nat.ne_of_lt (guarded.known copy member)
  · have appended : ∀ {j : Nat}, j < state.updates.length →
        (state.updates ++ [scoping])[j]? = state.updates[j]? := fun bound =>
      getElem?_append_left bound
    have passed : (state.proceedWith i request rest).Settles due :=
      (settled due isDue).perform found todo (.inl rfl) (by simpa [Action.renews] using same) rfl rfl
        rfl (.inl rfl)
    rcases passed with (renews | ⟨j, bound, sends, unsent⟩) | ⟨copy, member, sends, behind⟩ | all
    · exact .inl (.inl renews)
    · refine .inl (.inr ⟨j, ?_, ?_, unsent⟩)
      · rw [length_append]
        exact Nat.lt_of_lt_of_le bound (Nat.le_add_right _ _)
      · exact (congrArg _ (appended bound)).trans sends
    · exact .inr (.inl ⟨copy, member, (congrArg _ (appended (guarded.known copy member))).trans sends,
        behind⟩)
    · exact .inr (.inr all)

/-- **An effect of a request that heeds the rows keeps the points settled.** -/
theorem guarded_perform {i : Nat} {ok : Bool} (guarded : state.Guarded)
    (found : state.requests[i]? = some request) (todo : request.todo = action :: rest)
    (performed : state.perform org i request rest ok action = some next)
    (heeds : HeedsEffect org state i request rest ok action) : next.Guarded := by
  obtain ⟨-, copies, -, -, -, failed⟩ := perform_keeps performed
  have index := perform_index performed
  cases plain : action.commits with
  | false =>
    obtain ⟨⟨after, requests, left⟩, granted, updates⟩ := perform_plain performed plain
    refine ⟨updates ▸ copies ▸ guarded.known, guarded.settled.imp failed.trans
      fun settled due isDue => ?_⟩
    refine (settled due (granted ▸ isDue)).perform found todo left ?_ requests updates copies ?_
    · cases action <;> first | rfl | cases plain
    · rw [index]
      exact points_purged _ _ _
  | true =>
    have aborted : action.fallible = true → (state.abort i request).Guarded := fun fallible =>
      ⟨guarded.known, guarded.settled.imp_right fun settled due isDue =>
        (settled due isDue).perform found todo (.inr fallible)
          (by cases action <;> first | rfl | cases fallible) rfl rfl rfl (.inl rfl)⟩
    cases action with
    | insertRow row =>
      simp only [perform] at performed
      split at performed
      · rename_i new
        cases performed
        have commit := heeds.resolve_left (by rw [new]; rintro ⟨⟩)
        exact guarded.commit found todo (fun _ => rfl) commit rfl rfl rfl rfl rfl
      · exact some.inj performed ▸ aborted rfl
    | updateRow revision =>
      simp only [perform] at performed
      split at performed
      · split at performed
        · rename_i row held
          cases performed
          simp only [HeedsEffect, held, map_some] at heeds
          exact guarded.commit found todo (fun _ => rfl) heeds rfl rfl rfl rfl rfl
        · rename_i missing
          cases performed
          refine ⟨guarded.known, .inr fun due isDue => ?_⟩
          simp only [granted, abort, proceedWith, missing] at isDue
          cases isDue
      · cases performed
    | deleteRow =>
      simp only [perform] at performed
      split at performed
      · cases performed
        exact ⟨guarded.known, .inr fun due isDue => by cases isDue⟩
      · cases performed
    | updateFolder folderId body =>
      simp only [perform] at performed
      split at performed
      · rename_i folders payloads updated
        cases performed
        have commit := heeds (folders, payloads) (by rw [updated]; rfl)
        exact guarded.commit found todo (fun _ => rfl) commit rfl rfl rfl rfl rfl
      · exact some.inj performed ▸ aborted rfl
    | dispatchMetadataUpdate scoping =>
      simp only [perform] at performed
      split at performed
      · cases performed
        exact guarded.dispatch found todo
      · rename_i lost
        cases performed
        refine ⟨guarded.known, guarded.settled.imp_right fun settled due isDue => ?_⟩
        by_cases same : scoping.stored = due
        · exact heeds.resolve_left lost due isDue same
        · exact (settled due isDue).perform found todo (.inl rfl)
            (by simpa [Action.renews] using same) rfl rfl rfl (.inl rfl)
    | _ => cases plain

/-! ## Jobs and updates -/

theorem mem_upserted {ids : List Nat} {batch : List (String × Nat)} {index : Index} {point : Point}
    (member : point ∈ ((IndexEffect.upsertChunks batch scoping).apply ids index).points) :
    point.id ∈ ids ∧ point.scoping = scoping.stored ∨
      ∃ old ∈ index.points, old.id = point.id ∧ old.scoping = point.scoping := by
  rcases mem_append.mp member with old | new
  · exact .inr ⟨point, old, rfl, rfl⟩
  · rw [← map_uncurry_zip_eq_zipWith] at new
    obtain ⟨⟨id, passage⟩, both, rfl⟩ := mem_map.mp new
    exact .inl ⟨(of_mem_zip both).1, rfl⟩

theorem mem_setPayload {points : List Point} {ids : List Nat} {point : Point}
    (member : point ∈ setPayload points ids scoping) :
    point.id ∈ ids ∧ point.scoping = scoping.stored ∨
      ∃ old ∈ points, old.id = point.id ∧ old.scoping = point.scoping := by
  obtain ⟨old, isOld, rfl⟩ := mem_map.mp member
  split
  · rename_i among
    exact .inl ⟨among, rfl⟩
  · exact .inr ⟨old, isOld, rfl, rfl⟩

section

variable (guarded : state.Guarded)

include guarded

/-- **A job that heeds the rows keeps the points settled.** -/
theorem guarded_work {k : Nat} {todo : List IndexEffect} {ids : List Nat} {ok : Bool}
    (worked : state.work k todo ids ok = some next)
    (heeds : ok = true → ∀ effect ∈ todo.head?, ∀ scoping ∈ effect.chunkScoping, HeedsWrite state ids scoping) :
    next.Guarded := by
  cases todo with
  | nil =>
    cases worked
    exact guarded.keep rfl (fun _ => id) rfl rfl rfl id
  | cons effect rest =>
    simp only [work] at worked
    split at worked
    · rename_i ran
      split at worked
      · cases worked
        cases effect with
        | deleteVectors => exact ⟨guarded.known, .inr fun _ _ => .inr (.inr (by rintro _ ⟨⟩))⟩
        | deleteKnowledge => exact guarded.keep rfl (fun _ => id) rfl rfl rfl id
        | upsertDocument _ => exact guarded.keep rfl (fun _ => id) rfl rfl rfl id
        | insertKnowledge _ => exact guarded.keep rfl (fun _ => id) rfl rfl rfl id
        | upsertChunks batch scoping =>
          refine ⟨guarded.known, guarded.settled.imp_right fun settled due isDue => ?_⟩
          have written : State.Settles { state with
              index := (IndexEffect.upsertChunks batch scoping).apply ids state.index } due :=
            (settled due isDue).write (heeds ran _ rfl scoping rfl due isDue)
              fun point => mem_upserted
          exact written.keep (fun request member renews => ⟨request, member, renews⟩) rfl rfl
            fun point member => .inr ⟨point, member, rfl, rfl⟩
      · cases worked
    · split at worked <;> cases worked
      · exact ⟨guarded.known, .inl rfl⟩
      · exact guarded.keep rfl (fun _ => id) rfl rfl rfl id

theorem guarded_setUpdateStage {k : Nat} {copy : UpdateCopy} {stage : UpdateStage}
    (found : state.updateCopies[k]? = some copy)
    (passed : ∀ due ∈ state.granted, state.Sweeps due copy →
      ∀ point ∈ state.index.points, stage.ahead point.id = false → point.scoping = due) :
    (state.setUpdateStage k copy stage).Guarded := by
  refine ⟨fun other member => ?_, guarded.settled.imp_right fun settled due isDue =>
    (settled due isDue).setUpdateStage found (passed due isDue)⟩
  rcases mem_or_eq_of_mem_set member with old | rfl
  · exact guarded.known other old
  · exact guarded.known copy (mem_of_getElem? found)

/-- **A page that heeds the rows keeps the points settled**, and a page of an update with what the
rows give settles what it passes. -/
theorem guarded_updatePage {k : Nat} {copy : UpdateCopy} {offset : Nat}
    (found : state.updateCopies[k]? = some copy) (sent : state.updates[copy.update]? = some scoping)
    (stage : copy.stage.offset = some offset)
    (heeds : HeedsWrite state (scroll state.index.points offset).1 scoping) :
    (state.updatePage k copy offset scoping).Guarded := by
  have written : State.Guarded { state with index := { state.index with
      points := setPayload state.index.points (scroll state.index.points offset).1 scoping } } :=
    ⟨guarded.known, guarded.settled.imp_right fun settled due isDue =>
      (settled due isDue).write (heeds due isDue) fun point => mem_setPayload⟩
  refine guarded_setUpdateStage written found fun due isDue sweeps point member behind => ?_
  have same : scoping.stored = due := by
    have stored := sweeps.1
    simp only [sent, map_some] at stored
    exact some.inj stored
  by_cases ahead : copy.stage.ahead point.id = true
  · -- The page comes to every point between its offset and the next.
    obtain ⟨old, isOld, isPoint⟩ := mem_map.mp member
    have id : old.id = point.id := by rw [← isPoint]; split <;> rfl
    have reached : offset ≤ old.id := by
      rw [id]
      cases at_ : copy.stage with
      | waiting =>
        rw [at_] at stage
        cases stage
        exact Nat.zero_le _
      | scrolling begin_ =>
        rw [at_] at stage ahead
        cases stage
        exact of_decide_eq_true ahead
      | ended => rw [at_] at stage; cases stage
    have among : old.id ∈ (scroll state.index.points offset).1 := by
      refine mem_scroll isOld reached fun next more => ?_
      rw [more] at behind
      rw [id]
      exact Nat.lt_of_not_le (of_decide_eq_false behind)
    rw [if_pos among] at isPoint
    rwa [← isPoint]
  · exact sweeps.2 point member (Bool.eq_false_iff.mpr ahead)

theorem guarded_deliverUpdate {update : Nat} (known : update < state.updates.length) :
    State.Guarded { state with
      updateCopies := state.updateCopies ++ [{ update := update }] } := by
  refine ⟨fun copy member => ?_, guarded.settled.imp_right fun settled due isDue => ?_⟩
  · rcases mem_append.mp member with old | new
    · exact guarded.known copy old
    · obtain rfl := mem_singleton.mp new
      exact known
  rcases settled due isDue with (renews | ⟨i, bound, sends, unsent⟩) | ⟨copy, member, sweeps⟩ | all
  · exact .inl (.inl renews)
  · by_cases same : update = i
    · subst same
      exact .inr (.inl ⟨{ update := update }, mem_append_right _ mem_cons_self, sends,
        fun _ _ behind => by cases behind⟩)
    · refine .inl (.inr ⟨i, bound, sends, fun copy member => ?_⟩)
      rcases mem_append.mp member with old | new
      · exact unsent copy old
      · obtain rfl := mem_singleton.mp new
        exact same
  · exact .inr (.inl ⟨copy, mem_append_left _ member, sweeps⟩)
  · exact .inr (.inr all)

/-- **Every step that heeds the rows keeps the points settled.** -/
theorem guarded_step {engine : Engine} {event : Event} (heeds : Heeds org ⟨event, state⟩)
    (stepped : state.step engine org event = some next) : next.Guarded := by
  cases step_cases stepped with
  | arrive =>
    exact guarded.keep rfl (fun _ member => mem_append_left _ member) rfl rfl rfl id
  | perform found todo performed =>
    have effect := heeds _ found _ (by rw [todo]; rfl)
    rw [todo] at effect
    exact guarded_perform guarded found todo performed effect
  | callback =>
    exact guarded.keep (granted_revise (fun _ => rfl) rfl rfl) (fun _ => id) rfl rfl rfl id
  | proceed _ _ proceeded =>
    rcases proceed_cases proceeded with ⟨stage, status, callbacks, -, -, -, rfl⟩ |
      ⟨callbacks, -, rfl⟩ | ⟨text, -, rfl⟩
    · exact guarded.keep rfl (fun _ => id) rfl rfl rfl id
    · exact ⟨guarded.known, .inl rfl⟩
    · unfold submit
      split <;> exact guarded.keep rfl (fun _ => id) rfl rfl rfl id
  | giveUp => exact ⟨guarded.known, .inl rfl⟩
  | deliverUpdate known => exact guarded_deliverUpdate guarded known
  | @updatePage _ copy _ offset found sent stage =>
    have begins : copy.stage.offset = some offset := by
      rcases stage with ⟨waiting, rfl⟩ | scrolling
      · exact congrArg UpdateStage.offset waiting
      · exact congrArg UpdateStage.offset scrolling
    exact guarded_updatePage guarded found sent begins (heeds _ found _ sent _ begins)
  | retryUpdate found => exact guarded_setUpdateStage guarded found fun _ _ _ _ _ => nofun
  | @giveUpUpdate _ copy found =>
    refine ⟨fun other member => ?_, .inl rfl⟩
    rcases mem_or_eq_of_mem_set member with old | rfl
    · exact guarded.known other old
    · exact guarded.known copy (mem_of_getElem? found)
  | work found worked => exact guarded_work guarded worked fun ran => heeds ran _ found
  | jobFails => exact ⟨guarded.known, .inl rfl⟩
  | restart => exact guarded.keep rfl (fun _ => id) rfl rfl rfl fun failed => by simp [failed]
  | _ => exact guarded.keep rfl (fun _ => id) rfl rfl rfl id

theorem Guarded.followsRows : state.FollowsRows := by
  intro quiet fine due isDue
  rcases guarded.settled with failed | settled
  · rw [fine] at failed
    cases failed
  rcases settled due isDue with (⟨request, member, -, sender, pending, -⟩ | ⟨i, bound, -, unsent⟩) |
    ⟨copy, member, -, passed⟩ | all
  · rw [quiet.requests request member] at pending
    cases pending
  · obtain ⟨copy, member, isCopy⟩ := quiet.updates i bound
    exact absurd isCopy (unsent copy member)
  · intro point isPoint
    exact passed point isPoint (by rw [quiet.updateCopies copy member]; rfl)
  · exact all

end

end State

/-! ## Runs -/

/-- **The index ends up with the current entitlements**, in every run whose steps all heed the
rows. -/
theorem followsRows_of_heeded (engine : Engine) (org : Org) {folders : List Folder}
    {objects : String → Option String} {history : History Event State}
    (run : From engine org (opening folders objects) history)
    (heeded : ∀ moment ∈ history.past, Heeds org moment) :
    ∀ state ∈ history.states, state.FollowsRows := by
  have guarded : ∀ state ∈ history.states, state.Guarded := by
    refine run.invariant (Heeds org) (fun state event next stepped heeds before => ?_) heeded ?_
    · exact State.guarded_step before heeds stepped
    · intro state member
      obtain rfl := mem_singleton.mp member
      exact ⟨nofun, .inr nofun⟩
  exact fun state member => (guarded state member).followsRows

/-! ## A note that is restricted -/

/-- Only members of the southern region may view the note any more. -/
def restriction : DocumentUpdate :=
  { viewerPermissionsConfig := some (some [{ region := some "South" }]) }

/-- The note is restricted, and the metadata update that this dispatches runs to its end. -/
def noteRestricted : List Event :=
  [.arrive (.patch restriction), .perform 1 true, .perform 1 true, .deliverUpdate 0, .updatePage 0]

/-- A note that is restricted once it is indexed is stored restricted. -/
theorem followsRows_restricted :
    ∃ history, History.play (State.step plainEngine twoRegions) { now := opening [] fun _ => none }
      (noteSubmitted ++ jobRuns ++ [.proceed 0, .callback 0] ++ noteRestricted) = some history ∧
      (∃ point ∈ history.now.index.points, point.scoping.accessKeys ≠ publicAccessKeys) ∧
      ∀ state ∈ history.states, state.FollowsRows := by
  refine History.exists_play rfl fun history played => ?_
  have isLast := some.inj played
  refine ⟨by subst isLast; decide +kernel, followsRows_of_heeded plainEngine
    twoRegions (History.steps_of_play played) ?_⟩
  subst isLast
  decide +kernel

/-- A restriction while the job of the note runs: the update finds no chunk, and the job writes
its chunk as public. -/
theorem not_followsRows_resurrected :
    ∃ history, History.play (State.step plainEngine twoRegions) { now := opening [] fun _ => none }
      (noteSubmitted ++ noteRestricted ++ jobRuns ++ [.proceed 0, .callback 0]) = some history ∧
      From plainEngine twoRegions (opening [] fun _ => none) history ∧
      (∀ point ∈ history.now.index.points, point.scoping.accessKeys = publicAccessKeys) ∧
      ¬ history.now.FollowsRows := by
  refine History.exists_play rfl fun history played => ?_
  have isLast := some.inj played
  refine ⟨History.steps_of_play played, by subst isLast; decide +kernel,
    fun follows => ?_⟩
  subst isLast
  have stored := follows ⟨by simp; decide, rfl, by decide, by decide, by decide, by decide, rfl⟩ rfl
  revert stored
  decide +kernel

end RedArchKM.Ingest
