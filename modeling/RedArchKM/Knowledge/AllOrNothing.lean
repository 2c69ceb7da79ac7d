import Mathlib.Data.List.Pairwise
import RedArchKM.Knowledge.Upserts
import RedArchKM.Lib.Trace

/-!
# What an external upsert keeps whole

A folder has one document for a reference, every row's object is there, and a write that is sent
again changes nothing. A replacement that fails before its commit is to leave the version it was
to replace as it was. It does not: the purge comes first and is taken back by nothing, so a put or
a commit that fails after it leaves a document without chunks (`not_keptWhole_failedPut`), and so
does a purge that raises after it has removed them.

Runs without such a call keep the documents whole (`keptWhole_of_spared`). What the steps preserve
is `Consistent`: no two documents share a key or a reference, and the object a row names lies
under the row's own key and exists.
-/

namespace RedArchKM.Knowledge

open Lib.Trace List Function Option

variable {κ μ χ : Type}

/-! ## What is promised -/

/-- At most one document per folder and reference. -/
def Keyed (state : State κ μ χ) : Prop :=
  state.documents.Pairwise fun first second => ¬SameReference first second

def Stored (state : State κ μ χ) : Prop :=
  ∀ row ∈ state.documents, ∀ key, row.documentUrl = some key → (state.objects key).isSome

structure IsFor (call : Call κ μ) (state : State κ μ χ) (row : DocumentRow κ μ) : Prop where
  member : row ∈ state.documents
  folder : row.folderId = some call.data.folderId
  referred : call.data.externalRef.isSome
  reference : row.externalRef = call.data.externalRef

structure Resends [EmptyCollection μ] (platform : Platform κ) (call : Call κ μ)
    (row : DocumentRow κ μ) : Prop where
  succeeded : row.processingStatus = .success
  content : row.contentHash = some (platform.sha256 call.data.content)
  title : row.title = call.data.title
  metadata : ∀ metadata, call.data.metadata = some metadata → metadata = row.metadata.getD ∅

section Promises

variable [DecidableEq μ] [EmptyCollection μ]

def step (platform : Platform κ) (state : State κ μ χ) (event : Event κ μ χ) :
    Option (State κ μ χ) :=
  some (next platform state event)

structure RaisesWhole (platform : Platform κ) (call : Call κ μ) (state : State κ μ χ) : Prop where
  leaves : ∀ row failure, IsFor call state row → (upsert platform call state).2 = .error failure →
    (upsert platform call state).1.commits = state.commits →
    (upsert platform call state).1.documents = state.documents ∧
      (∀ key, row.documentUrl = some key →
        (upsert platform call state).1.objects key = state.objects key) ∧
      (upsert platform call state).1.index row.documentKey = state.index row.documentKey

/-- **An external upsert is all or nothing and keyed by its reference.** -/
structure KeptWhole (platform : Platform κ) (start : State κ μ χ) (events : List (Event κ μ χ)) :
    Prop where
  keyed : ∀ state, Passes (step platform) start events state → Keyed state
  stored : ∀ state, Passes (step platform) start events state → Stored state
  resends : ∀ before call after state row, events = before ++ .upsert call :: after →
    run (step platform) start before = some state → IsFor call state row →
    Resends platform call row → (upsert platform call state).1 = state
  raises : ∀ before call after state, events = before ++ .upsert call :: after →
    run (step platform) start before = some state → RaisesWhole platform call state

end Promises

/-! ## When it is kept -/

/-- The call gets as far as purging the document, to store new content or to ingest it again. -/
structure Requeues (platform : Platform κ) (call : Call κ μ) (row : DocumentRow κ μ)
    (newContent : Bool) : Prop where
  inside : outsideFolders call row.folderId = false
  visible : Access.documentVisible call.folders row.toDocument call.masks = true
  contributes : mayContributeToDocument row call.masks = true
  again : newContent = false → row.contentHash = some (platform.sha256 call.data.content) ∧
    retryable row call.now = true
  anew : newContent = true → row.contentHash ≠ some (platform.sha256 call.data.content) ∧
    (retryable row call.now = true ∨
      (row.processingStatus ≠ .pending ∧ row.processingStatus ≠ .processing))

section

variable (platform : Platform κ) (call : Call κ μ) (row : DocumentRow κ μ) (newContent : Bool)

def RaisesEarly : Prop :=
  call.outages.purgeRaises ∨
    ((replacementKey platform call row newContent).isSome ∧ call.outages.putRaises) ∨
    call.outages.commitRaises

/-- The call raises before its commit, but the object under its key has been written. -/
def WritesInVain (key : ObjectKey) : Prop :=
  replacementKey platform call row newContent = some key ∧ ¬call.outages.purgeRaises ∧
    ((call.outages.putRaises ∧ call.outages.putWrites) ∨
      (¬call.outages.putRaises ∧ call.outages.commitRaises))

end

/-- The call purges chunks, or writes over the object that is served, and raises before its
commit. -/
def Loses (platform : Platform κ) (call : Call κ μ) (state : State κ μ χ) : Prop :=
  ∃ folder row newContent, authorisedFolder call = .ok folder ∧
    getByExternalRef state folder.id call.data.externalRef = some row ∧
    Requeues platform call row newContent ∧
    ((call.outages.purgeRemoves ∧ state.index row.documentKey ≠ [] ∧
        RaisesEarly platform call row newContent) ∨
      ∃ key, row.documentUrl = some key ∧ WritesInVain platform call row newContent key)

/-! ## Consistent states -/

structure SamePlace (before after : DocumentRow κ μ) : Prop where
  documentKey : after.documentKey = before.documentKey
  folderId : after.folderId = before.folderId
  externalRef : after.externalRef = before.externalRef

theorem SamePlace.refl (row : DocumentRow κ μ) : SamePlace row row := ⟨rfl, rfl, rfl⟩

theorem SamePlace.trans {first second third : DocumentRow κ μ} (left : SamePlace first second)
    (right : SamePlace second third) : SamePlace first third where
  documentKey := right.documentKey.trans left.documentKey
  folderId := right.folderId.trans left.folderId
  externalRef := right.externalRef.trans left.externalRef

/-- Every document has a key and a reference of its own, and the object its row names lies under
its key and exists. -/
structure Consistent (state : State κ μ χ) : Prop where
  keys : (state.documents.map fun row => row.documentKey).Nodup
  keyed : Keyed state
  owned : ∀ row ∈ state.documents, ∀ key, row.documentUrl = some key →
    key.head? = some row.documentKey
  stored : Stored state

namespace Consistent

variable {state after : State κ μ χ} {row other : DocumentRow κ μ} {key : ObjectKey}

theorem eq_of_key (consistent : Consistent state) (member : row ∈ state.documents)
    (otherMember : other ∈ state.documents) (same : other.documentKey = row.documentKey) :
    other = row :=
  inj_on_of_nodup_map consistent.keys otherMember member same

theorem of_map (consistent : Consistent state) {change : DocumentRow κ μ → DocumentRow κ μ}
    (documents : after.documents = state.documents.map change)
    (place : ∀ row, SamePlace row (change row))
    (objects : ∀ row ∈ state.documents, ∀ key, (change row).documentUrl = some key →
      key.head? = some row.documentKey ∧ (after.objects key).isSome) : Consistent after where
  keys := by
    have same : (fun row : DocumentRow κ μ => row.documentKey) ∘ change =
        fun row => row.documentKey := funext fun row => (place row).documentKey
    rw [documents, List.map_map, same]
    exact consistent.keys
  keyed := by
    have apart := consistent.keyed
    rw [Keyed, documents, pairwise_map]
    refine apart.imp fun {first second} different same => different ?_
    unfold SameReference at same ⊢
    rwa [(place first).folderId, (place second).folderId, (place first).externalRef,
      (place second).externalRef] at same
  owned := by
    intro changed member key named
    rw [documents] at member
    obtain ⟨row, isRow, rfl⟩ := mem_map.mp member
    rw [(place row).documentKey]
    exact (objects row isRow key named).1
  stored := by
    intro changed member key named
    rw [documents] at member
    obtain ⟨row, isRow, rfl⟩ := mem_map.mp member
    exact (objects row isRow key named).2

theorem insert (consistent : Consistent state)
    (documents : after.documents = state.documents ++ [row])
    (newKey : ∀ other ∈ state.documents, other.documentKey ≠ row.documentKey)
    (newReference : ∀ other ∈ state.documents, ¬SameReference other row)
    (owned : ∀ key, row.documentUrl = some key →
      key.head? = some row.documentKey ∧ (after.objects key).isSome)
    (others : ∀ key, key.head? ≠ some row.documentKey →
      after.objects key = state.objects key) : Consistent after where
  keys := by
    rw [documents, map_append, map_singleton]
    refine nodup_append.mpr ⟨consistent.keys, nodup_singleton _, ?_⟩
    intro key member last isLast same
    obtain ⟨other, isOther, rfl⟩ := mem_map.mp member
    exact newKey other isOther (same.trans (mem_singleton.mp isLast))
  keyed := by
    rw [Keyed, documents]
    refine pairwise_append.mpr ⟨consistent.keyed, pairwise_singleton _ _, ?_⟩
    intro other member last isLast
    rw [mem_singleton.mp isLast]
    exact newReference other member
  owned := by
    intro any member key named
    rw [documents] at member
    rcases mem_append.mp member with old | new
    · exact consistent.owned any old key named
    · obtain rfl := mem_singleton.mp new
      exact (owned key named).1
  stored := by
    intro any member key named
    rw [documents] at member
    rcases mem_append.mp member with old | new
    · rw [others key fun same => newKey any old
        (some.inj ((consistent.owned any old key named).symm.trans same))]
      exact consistent.stored any old key named
    · obtain rfl := mem_singleton.mp new
      exact (owned key named).2

end Consistent

/-! ## What the steps of a call leave alone -/

namespace State

variable (state : State κ μ χ) (outages : Outages) (documentKey : String) (content : κ)
  {key other : ObjectKey}

@[simp] theorem documents_removeDocument :
    (state.removeDocument outages documentKey).documents = state.documents := by
  unfold removeDocument
  split <;> rfl

@[simp] theorem objects_removeDocument :
    (state.removeDocument outages documentKey).objects = state.objects := by
  unfold removeDocument
  split <;> rfl

@[simp] theorem commits_removeDocument :
    (state.removeDocument outages documentKey).commits = state.commits := by
  unfold removeDocument
  split <;> rfl

section

variable (key : Option ObjectKey)

@[simp] theorem documents_discard : (state.discard outages key).documents = state.documents := by
  unfold discard
  split
  · rfl
  · split <;> rfl

@[simp] theorem index_discard : (state.discard outages key).index = state.index := by
  unfold discard
  split
  · rfl
  · split <;> rfl

@[simp] theorem commits_discard : (state.discard outages key).commits = state.commits := by
  unfold discard
  split
  · rfl
  · split <;> rfl

end

theorem objects_discard_of_ne {key : Option ObjectKey} (ne : key ≠ some other) :
    (state.discard outages key).objects other = state.objects other := by
  cases key with
  | none => rfl
  | some key =>
    unfold discard
    dsimp only
    split
    · rfl
    · exact update_of_ne (fun same => ne (congrArg some same.symm)) _ _

end State

section Store

variable (state : State κ μ χ) (outages : Outages) (content : κ) {other : ObjectKey}

section

variable (key : Option ObjectKey)

@[simp] theorem store_keeps :
    (store state outages key content).1.documents = state.documents ∧
      (store state outages key content).1.index = state.index ∧
      (store state outages key content).1.commits = state.commits := by
  cases key with
  | none => exact ⟨rfl, rfl, rfl⟩
  | some key =>
    simp only [store, State.putObject]
    split <;> exact ⟨rfl, rfl, rfl⟩

end

theorem objects_store_of_ne {key : Option ObjectKey} (ne : key ≠ some other) :
    (store state outages key content).1.objects other = state.objects other := by
  cases key with
  | none => rfl
  | some key =>
    simp only [store, State.putObject]
    split
    · rfl
    · exact update_of_ne (fun same => ne (congrArg some same.symm)) _ _

theorem objects_store_of_unwritten (key : Option ObjectKey) (raises : outages.putRaises)
    (unwritten : ¬outages.putWrites) :
    (store state outages key content).1.objects = state.objects := by
  cases key with
  | none => rfl
  | some key => simp [store, State.putObject, raises, unwritten]

theorem objects_store_self {key : ObjectKey} (stores : outages.putRaises = false) :
    (store state outages (some key) content).1.objects key = some content := by
  simp [store, State.putObject, stores]

theorem didStore_iff (key : Option ObjectKey) :
    (store state outages key content).2 = true ↔ ¬(key.isSome ∧ outages.putRaises) := by
  cases key with
  | none => simp [store]
  | some key => simp [store]

end Store

structure Marks (before after : State κ μ χ) : Prop where
  documents : ∃ change, after.documents = before.documents.map change ∧
    ∀ row, SamePlace row (change row) ∧ (change row).documentUrl = row.documentUrl
  objects : after.objects = before.objects
  index : after.index = before.index
  commits : before.commits ≤ after.commits

theorem Marks.refl (state : State κ μ χ) : Marks state state where
  documents := ⟨id, (map_id _).symm, fun row => ⟨.refl row, rfl⟩⟩
  objects := rfl
  index := rfl
  commits := le_rfl

theorem Marks.trans {first second third : State κ μ χ} (left : Marks first second)
    (right : Marks second third) : Marks first third where
  documents := by
    obtain ⟨change, changed, marks⟩ := left.documents
    obtain ⟨change', changed', marks'⟩ := right.documents
    refine ⟨change' ∘ change, by rw [changed', changed, List.map_map], fun row => ?_⟩
    exact ⟨(marks row).1.trans (marks' _).1, (marks' _).2.trans (marks row).2⟩
  objects := right.objects.trans left.objects
  index := right.index.trans left.index
  commits := left.commits.trans right.commits

theorem marks_enqueue {state : State κ μ χ} {job : Job κ μ} : Marks state (state.enqueue job) :=
  ⟨(Marks.refl state).documents, rfl, rfl, le_rfl⟩

theorem marks_commitUpdate (state : State κ μ χ) (documentKey : String)
    {revise : DocumentRow κ μ → DocumentRow κ μ}
    (marks : ∀ row, SamePlace row (revise row) ∧ (revise row).documentUrl = row.documentUrl) :
    Marks state (state.commitUpdate documentKey revise) where
  documents := by
    refine ⟨_, rfl, fun row => ?_⟩
    split
    · exact marks row
    · exact ⟨.refl row, rfl⟩
  objects := rfl
  index := rfl
  commits := Nat.le_succ _

variable {newContent : Bool} {platform : Platform κ}

section

variable (row : DocumentRow κ μ) (stored : Option ObjectKey)

theorem samePlace_requeued {call : Call κ μ} :
    SamePlace row (row.requeued platform call stored newContent) := by
  unfold DocumentRow.requeued
  split <;> exact ⟨rfl, rfl, rfl⟩

theorem documentUrl_requeued {call : Call κ μ} :
    (row.requeued platform call stored newContent).documentUrl =
      if newContent then stored else row.documentUrl := by
  unfold DocumentRow.requeued
  split <;> rfl

end

section Specs

variable {platform : Platform κ} {call : Call κ μ} {state : State κ μ χ} {row : DocumentRow κ μ}
  {newContent : Bool}

/-- Where a replacement is dispatched from: the original is stored, the row committed and the
original that it supersedes discarded. -/
def swept (platform : Platform κ) (call : Call κ μ) (state : State κ μ χ) (row : DocumentRow κ μ)
    (newContent : Bool) : State κ μ χ :=
  let key := replacementKey platform call row newContent
  let stored := (store (state.removeDocument call.outages row.documentKey) call.outages key
    call.data.content).1
  let committed :=
    stored.commitUpdate row.documentKey fun row => row.requeued platform call key newContent
  if newContent ∧ row.documentUrl ≠ (row.requeued platform call key newContent).documentUrl then
    committed.discard call.outages row.documentUrl
  else committed

theorem documents_swept : (swept platform call state row newContent).documents =
    state.documents.map fun other =>
      if other.documentKey = row.documentKey then
        other.requeued platform call (replacementKey platform call row newContent) newContent
      else other := by
  unfold swept
  dsimp only
  split <;> simp [State.commitUpdate]

theorem commits_swept : (swept platform call state row newContent).commits = state.commits + 1 := by
  unfold swept
  dsimp only
  split <;> simp [State.commitUpdate]

theorem objects_swept {key : ObjectKey} (spared : newContent → row.documentUrl ≠ some key ∨
      row.documentUrl = replacementKey platform call row newContent) :
    (swept platform call state row newContent).objects key =
      (store (state.removeDocument call.outages row.documentKey) call.outages
        (replacementKey platform call row newContent) call.data.content).1.objects key := by
  unfold swept
  dsimp only
  split
  · rename_i superseded
    rw [documentUrl_requeued, if_pos superseded.1] at superseded
    rw [State.objects_discard_of_ne _ _ ((spared superseded.1).resolve_right superseded.2)]
    rfl
  · rfl

theorem objects_swept_of_ne {key : ObjectKey} (spared : newContent → row.documentUrl ≠ some key ∧
      replacementKey platform call row newContent ≠ some key) :
    (swept platform call state row newContent).objects key = state.objects key := by
  have elsewhere : replacementKey platform call row newContent ≠ some key := by
    intro here
    by_cases new : newContent
    · exact (spared new).2 here
    · rw [replacementKey, if_neg new] at here
      cases here
  rw [objects_swept fun new => .inl (spared new).1, objects_store_of_ne _ _ _ elsewhere,
    State.objects_removeDocument]

theorem isSome_objects_swept {key : ObjectKey} (late : ¬RaisesEarly platform call row newContent)
    (isKey : replacementKey platform call row newContent = some key) :
    ((swept platform call state row newContent).objects key).isSome := by
  have stores : call.outages.putRaises = false := by
    by_contra raises
    exact late (.inr (.inl ⟨by rw [isKey]; rfl, by simpa using raises⟩))
  rw [objects_swept fun _ => ?_, isKey, objects_store_self _ _ _ stores]
  · rfl
  · by_cases served : row.documentUrl = some key
    · exact .inr (served.trans isKey.symm)
    · exact .inl served

variable [EmptyCollection μ]

theorem marks_dispatch (call : Call κ μ) (state : State κ μ χ) (row : DocumentRow κ μ)
    (scope : List String × List Nat) : Marks state (dispatch call state row scope).1 := by
  unfold dispatch
  split
  · dsimp only
    split
    · exact .refl state
    · exact marks_commitUpdate state _ fun _ => ⟨⟨rfl, rfl, rfl⟩, rfl⟩
  · dsimp only
    split
    · exact marks_enqueue
    · exact marks_enqueue.trans (marks_commitUpdate _ _ fun _ => ⟨⟨rfl, rfl, rfl⟩, rfl⟩)

/-- **A replacement that raises early** has purged the index, and written under its own key at
most. -/
theorem requeue_early (state : State κ μ χ) (early : RaisesEarly platform call row newContent) :
    (requeue platform call state row newContent).1.documents = state.documents ∧
      (requeue platform call state row newContent).1.index =
        (state.removeDocument call.outages row.documentKey).index ∧
      ∀ key, ¬WritesInVain platform call row newContent key →
        (requeue platform call state row newContent).1.objects key = state.objects key := by
  unfold requeue
  by_cases purge : call.outages.purgeRaises
  · simp [purge]
  · rw [if_neg purge]
    dsimp only
    split
    · rename_i notStored
      have raises : ¬(store (state.removeDocument call.outages row.documentKey) call.outages
          (replacementKey platform call row newContent) call.data.content).2 = true := by
        simpa using notStored
      rw [didStore_iff, not_not] at raises
      refine ⟨by simp, by simp, fun key spared => ?_⟩
      by_cases here : replacementKey platform call row newContent = some key
      · have unwritten : ¬call.outages.putWrites := fun writes =>
          spared ⟨here, purge, .inl ⟨raises.2, writes⟩⟩
        rw [objects_store_of_unwritten _ _ _ _ raises.2 unwritten, State.objects_removeDocument]
      · rw [objects_store_of_ne _ _ _ here, State.objects_removeDocument]
    · rename_i stored
      have stores : (store (state.removeDocument call.outages row.documentKey) call.outages
          (replacementKey platform call row newContent) call.data.content).2 = true := by
        simpa using stored
      rw [didStore_iff] at stores
      have commitRaises : call.outages.commitRaises :=
        (early.resolve_left purge).resolve_left stores
      rw [if_pos commitRaises]
      refine ⟨by simp, by simp, fun key spared => ?_⟩
      have elsewhere : replacementKey platform call row newContent ≠ some key := fun here =>
        spared ⟨here, purge, .inr ⟨fun raises => stores ⟨by rw [here]; rfl, raises⟩, commitRaises⟩⟩
      rw [State.objects_discard_of_ne _ _ elsewhere, objects_store_of_ne _ _ _ elsewhere,
        State.objects_removeDocument]

theorem requeue_of_not_raisesEarly (late : ¬RaisesEarly platform call row newContent) :
    requeue platform call state row newContent =
      dispatch call (swept platform call state row newContent)
        (row.requeued platform call (replacementKey platform call row newContent) newContent)
        (scoping call.folders row) := by
  have purge : ¬call.outages.purgeRaises := fun raises => late (.inl raises)
  have stores : ¬((replacementKey platform call row newContent).isSome ∧
      call.outages.putRaises) := fun raises => late (.inr (.inl raises))
  have commits : ¬call.outages.commitRaises := fun raises => late (.inr (.inr raises))
  have didStore := (didStore_iff (state.removeDocument call.outages row.documentKey) call.outages
    call.data.content _).mpr stores
  unfold requeue
  rw [if_neg purge]
  dsimp only
  rw [if_neg (by simp [didStore]), if_neg commits]
  rfl

/-- **A replacement that does not** revises the row, keeps the object it names then and spares
those of other documents. -/
theorem requeue_late (state : State κ μ χ) (late : ¬RaisesEarly platform call row newContent) :
    state.commits < (requeue platform call state row newContent).1.commits ∧
      ∃ change, (requeue platform call state row newContent).1.documents =
          state.documents.map change ∧
        (∀ other, SamePlace other (change other) ∧ (change other).documentUrl =
          if other.documentKey = row.documentKey ∧ newContent then
            replacementKey platform call row newContent
          else other.documentUrl) ∧
        (∀ key, newContent → replacementKey platform call row newContent = some key →
          ((requeue platform call state row newContent).1.objects key).isSome) ∧
        ∀ key, (newContent → row.documentUrl ≠ some key ∧
            replacementKey platform call row newContent ≠ some key) →
          (requeue platform call state row newContent).1.objects key = state.objects key := by
  rw [requeue_of_not_raisesEarly late]
  have marks := marks_dispatch call (swept platform call state row newContent)
    (row.requeued platform call (replacementKey platform call row newContent) newContent)
    (scoping call.folders row)
  obtain ⟨change, changed, marked⟩ := marks.documents
  refine ⟨?_, change ∘ _, by rw [changed, documents_swept, List.map_map], fun other => ⟨?_, ?_⟩,
    fun key _ isKey => ?_, fun key spared => ?_⟩
  · exact Nat.lt_of_lt_of_le (by rw [commits_swept]; exact Nat.lt_succ_self _) marks.commits
  · refine SamePlace.trans ?_ (marked _).1
    dsimp only
    split
    · exact samePlace_requeued other _
    · exact .refl other
  · rw [comp_apply, (marked _).2]
    by_cases here : other.documentKey = row.documentKey
    · rw [if_pos here, documentUrl_requeued]
      simp [here]
    · rw [if_neg here, if_neg fun both => here both.1]
  · rw [marks.objects]
    exact isSome_objects_swept late isKey
  · rw [marks.objects, objects_swept_of_ne spared]

end Specs

/-! ## What a call keeps -/

theorem head?_objectKey (platform : Platform κ) (documentKey filename : String) (content : κ)
    (versioned : Bool) :
    (objectKey platform documentKey filename content versioned).head? = some documentKey := by
  unfold objectKey
  split <;> rfl

theorem head?_replacementKey {call : Call κ μ} {row : DocumentRow κ μ} {key : ObjectKey}
    (isKey : replacementKey platform call row newContent = some key) :
    key.head? = some row.documentKey := by
  unfold replacementKey at isKey
  split at isKey
  · obtain ⟨filename, -, rfl⟩ := map_eq_some_iff.mp isKey
    exact head?_objectKey ..
  · cases isKey

section Keeps

variable {platform : Platform κ} {call : Call κ μ} {state after : State κ μ χ}
  {row : DocumentRow κ μ} {newContent : Bool}

theorem Consistent.marked (consistent : Consistent state) (marks : Marks state after) :
    Consistent after := by
  obtain ⟨change, changed, marked⟩ := marks.documents
  refine consistent.of_map changed (fun row => (marked row).1) fun row member key named => ?_
  rw [(marked row).2] at named
  rw [marks.objects]
  exact ⟨consistent.owned row member key named, consistent.stored row member key named⟩

theorem Consistent.of_others (consistent : Consistent state)
    (documents : after.documents = state.documents) {documentKey : String}
    (absent : ∀ other ∈ state.documents, other.documentKey ≠ documentKey)
    (others : ∀ key, key.head? ≠ some documentKey → after.objects key = state.objects key) :
    Consistent after := by
  have unmoved : after.documents = state.documents.map fun row => row := by
    rw [documents, List.map_id']
  refine consistent.of_map unmoved SamePlace.refl fun row member key named => ?_
  have owned := consistent.owned row member key named
  rw [others key fun same => absent row member (some.inj (owned.symm.trans same))]
  exact ⟨owned, consistent.stored row member key named⟩

variable [EmptyCollection μ]

theorem Consistent.create (consistent : Consistent state) (folder : Access.Folder) :
    Consistent (create platform call state folder).1 := by
  have owned : ∀ key, (createdRow platform call folder).documentUrl = some key →
      key.head? = some call.documentKey := by
    intro key named
    obtain ⟨filename, -, rfl⟩ := map_eq_some_iff.mp named
    exact head?_objectKey ..
  unfold Knowledge.create
  dsimp only
  split
  · exact consistent
  · rename_i fresh
    have absent : ∀ other ∈ state.documents, other.documentKey ≠ call.documentKey :=
      fun other member same => fresh ⟨other, member, same⟩
    have stores : ∀ key, key.head? ≠ some call.documentKey →
        (store state call.outages (createdRow platform call folder).documentUrl
          call.data.content).1.objects key = state.objects key :=
      fun key other => objects_store_of_ne _ _ _ fun named => other (owned key named)
    have discards : ∀ key, key.head? ≠ some call.documentKey →
        ((store state call.outages (createdRow platform call folder).documentUrl
          call.data.content).1.discard call.outages
            (createdRow platform call folder).documentUrl).objects key = state.objects key := by
      intro key other
      rw [State.objects_discard_of_ne _ _ fun named => other (owned key named), stores key other]
    split
    · exact consistent.of_others (by simp) absent stores
    · rename_i stored
      split
      · exact consistent.of_others (by simp) absent discards
      · split
        · exact consistent.of_others (by simp) absent discards
        · rename_i free
          have didStore := (didStore_iff state call.outages call.data.content
            (createdRow platform call folder).documentUrl).mp (by simpa using stored)
          refine Consistent.marked ?_ (marks_dispatch ..)
          have documents : ((store state call.outages
              (createdRow platform call folder).documentUrl call.data.content).1.commitInsert
                (createdRow platform call folder)).documents =
              state.documents ++ [createdRow platform call folder] := by
            simp [State.commitInsert]
          refine consistent.insert documents absent
            (fun other member same => free ⟨other, member, same⟩) (fun key named => ?_) stores
          refine ⟨owned key named, ?_⟩
          change ((store state call.outages (createdRow platform call folder).documentUrl
            call.data.content).1.objects key).isSome
          rw [named] at didStore ⊢
          rw [objects_store_self _ _ _ (by simpa using didStore)]
          rfl

/-- **A replacement that loses nothing keeps a state consistent.** -/
theorem Consistent.requeue (consistent : Consistent state) (member : row ∈ state.documents)
    (spared : ∀ key, row.documentUrl = some key → ¬WritesInVain platform call row newContent key) :
    Consistent (requeue platform call state row newContent).1 := by
  by_cases early : RaisesEarly platform call row newContent
  · obtain ⟨documents, -, objects⟩ := requeue_early state early
    have unmoved : (Knowledge.requeue platform call state row newContent).1.documents =
        state.documents.map fun row => row := by
      rw [documents, List.map_id']
    refine consistent.of_map unmoved SamePlace.refl fun other isOther key named => ?_
    have owned := consistent.owned other isOther key named
    refine ⟨owned, ?_⟩
    rw [objects key fun writes => ?_]
    · exact consistent.stored other isOther key named
    · have same : other.documentKey = row.documentKey :=
        some.inj (owned.symm.trans (head?_replacementKey writes.1))
      obtain rfl := consistent.eq_of_key member isOther same
      exact spared key named writes
  · obtain ⟨-, change, documents, marked, stored, objects⟩ := requeue_late state early
    refine consistent.of_map documents (fun other => (marked other).1)
      fun other isOther key named => ?_
    rw [(marked other).2] at named
    split at named
    · rename_i both
      exact ⟨by rw [both.1]; exact head?_replacementKey named, stored key both.2 named⟩
    · rename_i apart
      have owned := consistent.owned other isOther key named
      refine ⟨owned, ?_⟩
      rw [objects key fun new => ?_]
      · exact consistent.stored other isOther key named
      · have elsewhere : ∀ {ownerKey : String}, key.head? = some ownerKey →
            ownerKey ≠ row.documentKey := fun isOwner same =>
          apart ⟨(some.inj (owned.symm.trans isOwner)).trans same, new⟩
        exact ⟨fun served => elsewhere (consistent.owned row member key served) rfl,
          fun stored => elsewhere (head?_replacementKey stored) rfl⟩

variable [DecidableEq μ]

/-- **What a call for a document does**: it replaces it, or it changes its row at most, and nothing
if it is refused. -/
theorem replace_cases (platform : Platform κ) (call : Call κ μ) (state : State κ μ χ)
    (row : DocumentRow κ μ) :
    (∃ newContent, Requeues platform call row newContent ∧
        (replace platform call state row).1 = (requeue platform call state row newContent).1) ∨
      (Marks state (replace platform call state row).1 ∧
        ∀ failure, (replace platform call state row).2 = .error failure →
          (replace platform call state row).1 = state) := by
  have refused : ∀ {failure : Failure} {result : State κ μ χ × Except Failure WriteOutcome},
      result = (state, .error failure) → Marks state result.1 ∧
        ∀ failure, result.2 = .error failure → result.1 = state := by
    rintro failure result rfl
    exact ⟨.refl state, fun _ _ => rfl⟩
  unfold replace
  split
  · exact .inr (refused rfl)
  · rename_i reached
    split
    · exact .inr (refused rfl)
    · rename_i contributes
      have inside : outsideFolders call row.folderId = false := by
        simpa using fun outside => reached (.inl outside)
      have visible : Access.documentVisible call.folders row.toDocument call.masks = true := by
        by_contra hidden
        exact reached (.inr hidden)
      have mayContribute : mayContributeToDocument row call.masks = true := by
        simpa using contributes
      split
      · rename_i same
        split
        · rename_i again
          exact .inl ⟨false, ⟨inside, visible, mayContribute, fun _ => ⟨same, again⟩, nofun⟩, rfl⟩
        · split
          · unfold updateMetadataOnly
            split
            · exact .inr (refused rfl)
            · refine .inr ⟨?_, nofun⟩
              have retitles : Marks state
                  (state.commitUpdate row.documentKey (DocumentRow.retitled · call)) :=
                marks_commitUpdate _ _ fun _ => ⟨⟨rfl, rfl, rfl⟩, rfl⟩
              dsimp only
              split
              · exact retitles
              · exact retitles.trans marks_enqueue
          · exact .inr ⟨.refl state, nofun⟩
      · rename_i other
        split
        · exact .inr (refused rfl)
        · rename_i ready
          refine .inl ⟨true, ⟨inside, visible, mayContribute, nofun, fun _ => ⟨other, ?_⟩⟩, rfl⟩
          by_contra stuck
          rw [not_or] at stuck
          refine ready ⟨by simpa using stuck.1, ?_⟩
          by_contra idle
          rw [not_or] at idle
          exact stuck.2 idle

theorem replace_of_resends (resends : Resends platform call row) :
    (replace platform call state row).1 = state := by
  have settled : retryable row call.now = false := by
    simp [retryable, isStuckPending, resends.succeeded]
  have unchanged : metadataChanged row call.data = false := by
    unfold metadataChanged
    rw [resends.title]
    cases sent : call.data.metadata with
    | none => simp
    | some metadata => simp [resends.metadata metadata sent]
  unfold replace
  split
  · rfl
  · split
    · rfl
    · rw [if_pos resends.content, settled, unchanged]
      rfl

end Keeps

/-! ## Runs -/

section Runs

variable {platform : Platform κ} {call : Call κ μ} {state : State κ μ χ} {row : DocumentRow κ μ}
  {folder : Access.Folder}

theorem id_of_authorisedFolder (authorised : authorisedFolder call = .ok folder) :
    folder.id = call.data.folderId := by
  unfold authorisedFolder at authorised
  split at authorised
  · cases authorised
  · split at authorised
    · cases authorised
    · rename_i found
      split at authorised
      · cases authorised
      · split at authorised
        · cases authorised
        · cases authorised
          simpa using find?_some found

theorem isFor_of_getByExternalRef (authorised : authorisedFolder call = .ok folder)
    (found : getByExternalRef state folder.id call.data.externalRef = some row) :
    IsFor call state row := by
  obtain ⟨ref, sent, finds⟩ := bind_eq_some_iff.mp found
  have fits : row.folderId = some folder.id ∧ row.externalRef = some ref := by
    simpa using find?_some finds
  rw [id_of_authorisedFolder authorised] at fits
  exact ⟨mem_of_find?_eq_some finds, fits.1, by rw [sent]; rfl, by rw [fits.2, sent]⟩

theorem SameReference.symm {first second : DocumentRow κ μ} (same : SameReference first second) :
    SameReference second first :=
  ⟨same.2.1 ▸ same.1, same.2.1.symm, same.2.2.2 ▸ same.2.2.1, same.2.2.2.symm⟩

theorem Keyed.eq_of_sameReference (keyed : Keyed state) {other : DocumentRow κ μ}
    (otherMember : other ∈ state.documents) (member : row ∈ state.documents)
    (same : SameReference other row) : other = row := by
  by_contra different
  have symmetric : Std.Symm fun first second : DocumentRow κ μ => ¬SameReference first second :=
    ⟨fun _ _ apart same => apart same.symm⟩
  exact keyed.forall otherMember member different same

theorem getByExternalRef_of_isFor (keyed : Keyed state) (isFor : IsFor call state row) :
    getByExternalRef state call.data.folderId call.data.externalRef = some row := by
  obtain ⟨ref, sent⟩ := isSome_iff_exists.mp isFor.referred
  have reference : row.externalRef = some ref := isFor.reference.trans sent
  rw [sent]
  change state.documents.find? _ = some row
  cases finds : state.documents.find? fun row : DocumentRow κ μ =>
      row.folderId = some call.data.folderId ∧ row.externalRef = some ref with
  | none =>
    have missed := find?_eq_none.mp finds row isFor.member
    simp [isFor.folder, reference] at missed
  | some other =>
    have fits : other.folderId = some call.data.folderId ∧ other.externalRef = some ref := by
      simpa using find?_some finds
    have same : SameReference other row :=
      ⟨by rw [fits.1]; rfl, fits.1.trans isFor.folder.symm, by rw [fits.2]; rfl,
        fits.2.trans reference.symm⟩
    rw [keyed.eq_of_sameReference (mem_of_find?_eq_some finds) isFor.member same]

theorem Consistent.empty : Consistent ({} : State κ μ χ) where
  keys := nodup_nil
  keyed := .nil
  owned _ member := nomatch not_mem_nil member
  stored _ member := nomatch not_mem_nil member

theorem not_loses_of_outages (purges : call.outages.purgeRaises → ¬call.outages.purgeRemoves)
    (puts : ¬call.outages.putRaises) (commits : ¬call.outages.commitRaises) :
    ¬Loses platform call state := by
  rintro ⟨folder, row, newContent, -, -, -, ⟨removes, -, early⟩ | ⟨key, -, -, -, vain⟩⟩
  · rcases early with purge | put | commit
    · exact purges purge removes
    · exact puts put.2
    · exact commits commit
  · rcases vain with put | commit
    · exact puts put.1
    · exact commits commit.2

variable [DecidableEq μ] [EmptyCollection μ]

theorem upsert_of_isFor (platform : Platform κ) (keyed : Keyed state) (isFor : IsFor call state row) :
    (upsert platform call state).1 = state ∨
      ∃ folder, authorisedFolder call = .ok folder ∧
        getByExternalRef state folder.id call.data.externalRef = some row ∧
        upsert platform call state = replace platform call state row := by
  unfold upsert
  cases authorised : authorisedFolder call with
  | error failure => exact .inl rfl
  | ok folder =>
    have found : getByExternalRef state folder.id call.data.externalRef = some row := by
      rw [id_of_authorisedFolder authorised]
      exact getByExternalRef_of_isFor keyed isFor
    refine .inr ⟨folder, rfl, found, ?_⟩
    dsimp only
    rw [found]

theorem upsert_of_resends (keyed : Keyed state) (isFor : IsFor call state row)
    (resends : Resends platform call row) : (upsert platform call state).1 = state := by
  rcases upsert_of_isFor platform keyed isFor with same | ⟨_, _, _, replaces⟩
  · exact same
  · rw [replaces, replace_of_resends resends]

/-- **A call that loses nothing raises whole.** -/
theorem raisesWhole_of_spared (keyed : Keyed state) (spared : ¬Loses platform call state) :
    RaisesWhole platform call state where
  leaves := by
    intro row failure isFor raised uncommitted
    rcases upsert_of_isFor platform keyed isFor with
      same | ⟨folder, authorised, found, replaces⟩
    · rw [same]
      exact ⟨rfl, fun _ _ => rfl, rfl⟩
    · rw [replaces] at raised uncommitted ⊢
      rcases replace_cases platform call state row with ⟨newContent, requeues, same⟩ | ⟨-, refused⟩
      · rw [same] at uncommitted ⊢
        have early : RaisesEarly platform call row newContent := by
          by_contra late
          exact Nat.ne_of_gt (requeue_late state late).1 uncommitted
        obtain ⟨documents, index, objects⟩ := requeue_early state early
        refine ⟨documents, fun key named => objects key fun writes => ?_, ?_⟩
        · exact spared ⟨folder, row, newContent, authorised, found, requeues,
            .inr ⟨key, named, writes⟩⟩
        · rw [index]
          by_cases removes : call.outages.purgeRemoves
          · have empty : state.index row.documentKey = [] := by
              by_contra chunks
              exact spared ⟨folder, row, newContent, authorised, found, requeues,
                .inl ⟨removes, chunks, early⟩⟩
            simp [State.removeDocument, removes, empty]
          · simp [State.removeDocument, removes]
      · rw [refused failure raised]
        exact ⟨rfl, fun _ _ => rfl, rfl⟩

theorem Consistent.upsert (consistent : Consistent state) (spared : ¬Loses platform call state) :
    Consistent (upsert platform call state).1 := by
  unfold Knowledge.upsert
  split
  · exact consistent
  · rename_i folder authorised
    split
    · exact consistent.create folder
    · rename_i row found
      have isFor := isFor_of_getByExternalRef authorised found
      rcases replace_cases platform call state row with ⟨newContent, requeues, same⟩ | ⟨marks, -⟩
      · rw [same]
        refine consistent.requeue isFor.member fun key named writes => ?_
        exact spared ⟨folder, row, newContent, authorised, found, requeues,
          .inr ⟨key, named, writes⟩⟩
      · exact consistent.marked marks

theorem Consistent.report (consistent : Consistent state) (documentKey : String)
    (status : Ingest.ProcessingStatus) (stage : Option String) (now : Int) (chunks : List χ) :
    Consistent (next platform state (.report documentKey status stage now chunks)) := by
  refine consistent.of_map rfl (fun row => ?_) fun row member key named => ?_
  · split
    · exact ⟨rfl, rfl, rfl⟩
    · exact .refl row
  · have same : row.documentUrl = some key := by
      split at named <;> exact named
    exact ⟨consistent.owned row member key same, consistent.stored row member key same⟩

/-- **External upserts none of which loses anything are all or nothing and keyed by their
references.** -/
theorem keptWhole_of_spared (platform : Platform κ) (start : State κ μ χ)
    (events : List (Event κ μ χ)) (consistent : Consistent start)
    (spared : ∀ before call after state, events = before ++ .upsert call :: after →
      run (step platform) start before = some state → ¬Loses platform call state) :
    KeptWhole platform start events := by
  have always : ∀ state, Passes (step platform) start events state → Consistent state := by
    intro state passes
    refine passes.invariant Consistent consistent fun before event after state final split ran
      stepped holds => ?_
    cases stepped
    cases event with
    | upsert call => exact holds.upsert (spared before call after state split ran)
    | report documentKey status stage now chunks =>
      exact holds.report documentKey status stage now chunks
  have before : ∀ {past future state}, events = past ++ future →
      run (step platform) start past = some state → Consistent state :=
    fun split ran => always _ ⟨_, _, split, ran⟩
  exact {
    keyed := fun state passes => (always state passes).keyed
    stored := fun state passes => (always state passes).stored
    resends := fun past call future state row split ran isFor resends =>
      upsert_of_resends (before split ran).keyed isFor resends
    raises := fun past call future state split ran =>
      raisesWhole_of_spared (before split ran).keyed (spared past call future state split ran) }

end Runs

/-- The digests of two texts. -/
def twoDigests : Platform String where
  sha256
    | "draft" => "7743ce348d9284d677a185f33295b92266cc435a5b5f775029b300066d26693a"
    | "final" => "2443630b4620165c8b173e7265e17526fe2787ae594364dd6d839ad58f2fc007"
    | _ => ""
  size content := content.length

/-- An org key sends a report to the folder of customers. -/
def reportCall (content : String) (outages : Outages) : Call String (List (String × String)) where
  data :=
    { folderId := 1, title := "Report", content, filename := some "report.txt"
      externalRef := some "crm-7" }
  folders := [{ id := 1, name := "Customers" }]
  documentKey := "7b1e"
  outages := outages

def ingestedReport : List (Event String (List (String × String)) String) :=
  [.upsert (reportCall "draft" {}), .report "7b1e" .success none 30 ["draft"]]

theorem keptWhole_replacedReport :
    KeptWhole twoDigests {} (ingestedReport ++
      [.upsert (reportCall "final" { purgeRaises := true, purgeRemoves := false }),
        .upsert (reportCall "final" {}), .report "7b1e" .success none 90 ["final"]]) := by
  refine keptWhole_of_spared twoDigests {} _ .empty fun before call after state split _ => ?_
  have member : Event.upsert call ∈ ingestedReport ++
      [.upsert (reportCall "final" { purgeRaises := true, purgeRemoves := false }),
        .upsert (reportCall "final" {}), .report "7b1e" .success none 90 ["final"]] := by
    rw [split]
    exact mem_append_right _ mem_cons_self
  simp only [ingestedReport, cons_append, nil_append, mem_cons, Event.upsert.injEq,
    reduceCtorEq, not_mem_nil, or_false, false_or] at member
  rcases member with rfl | rfl | rfl
  · exact not_loses_of_outages nofun nofun nofun
  · exact not_loses_of_outages (fun _ => nofun) nofun nofun
  · exact not_loses_of_outages nofun nofun nofun

/-- The new version cannot be stored, and the version that is served has no chunks any more. -/
theorem not_keptWhole_failedPut :
    ¬KeptWhole twoDigests {} (ingestedReport ++
      [.upsert (reportCall "final" { putRaises := true })]) := by
  intro whole
  let served : State String (List (String × String)) String :=
    ingestedReport.foldl (next twoDigests) {}
  let row : DocumentRow String (List (String × String)) :=
    { createdRow twoDigests (reportCall "draft" {}) { id := 1, name := "Customers" } with
      processingStatus := .success
      celeryTaskId := some 0
      updatedAt := some 30 }
  have isFor : IsFor (reportCall "final" { putRaises := true }) served row :=
    ⟨mem_singleton.mpr rfl, rfl, rfl, rfl⟩
  have leaves := (whole.raises ingestedReport _ [] served rfl rfl).leaves row _ isFor rfl rfl
  have chunks : served.index "7b1e" = ["draft"] := by decide
  have none : (upsert twoDigests (reportCall "final" { putRaises := true }) served).1.index "7b1e" =
      [] := by decide
  exact nomatch chunks.symm.trans (leaves.2.2.symm.trans none)

end RedArchKM.Knowledge
