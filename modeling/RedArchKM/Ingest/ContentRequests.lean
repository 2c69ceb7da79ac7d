import RedArchKM.Ingest.Pipeline

/-!
# What requests do with the content of a document

A request that changes what a row is ingested from has the ingest of it among its later effects,
and nothing that may end the request stands between. `Sound` says so of a list of effects, and
`sound_handle` proves it of every request.

So what a request has left either brings what the row then holds (`Brings`), or clears the index
(`Clears`), or it has nothing to do with the content.
-/

namespace RedArchKM.Ingest

open List Option

open Access (Folder FolderUpdate Org)

/-! ## What a request brings -/

namespace Action

def dispatches : Action → Option Task
  | .dispatchIngest task _ => some task
  | _ => none

def revises : Action → Option Revision
  | .updateRow revision => some revision
  | _ => none

/-- Effects that a request may still end at before it has changed anything. -/
def gates : Action → Bool
  | .reachBrain => true
  | .rewriteObject _ _ => true
  | .insertRow _ => true
  | .updateFolder _ _ => true
  | _ => false

end Action

def Publishes (todo : List Action) (row : Row) (source : Source) : Prop :=
  row.source = some source ∨
    ∃ action ∈ todo, ∃ revision ∈ action.revises, (row.revise revision).source = some source

/-- The request will dispatch an ingest of what the row then holds. -/
def Brings (todo : List Action) (row : Option Row) : Prop :=
  (∀ action ∈ todo, action.gates = false) ∧
    ∃ action ∈ todo, ∃ task ∈ action.dispatches, ∃ committed ∈ row,
      Publishes todo committed task.source

/-- The request will purge the index. -/
def Clears (todo : List Action) : Prop :=
  (∀ action ∈ todo, action.gates = false) ∧ ∃ action ∈ todo, action.purgesVectors = true

/-- The request brings the latest content or clears the index. -/
def Carrying (request : Request) (row : Option Row) : Prop :=
  Brings request.todo row ∨ Clears request.todo

instance (todo : List Action) (row : Row) (source : Source) :
    Decidable (Publishes todo row source) := by
  unfold Publishes
  infer_instance

instance (todo : List Action) (row : Option Row) : Decidable (Brings todo row) := by
  unfold Brings
  infer_instance

instance (todo : List Action) : Decidable (Clears todo) := by
  unfold Clears
  infer_instance

instance (request : Request) (row : Option Row) : Decidable (Carrying request row) := by
  unfold Carrying
  infer_instance

/-! ## Requests -/

/-- Effects that have nothing to do with the content. -/
def Action.plain : Action → Bool
  | .updateRow _ => false
  | .insertRow _ => false
  | .rewriteObject _ _ => false
  | .dispatchIngest _ _ => false
  | _ => true

theorem Action.bare_of_plain {action : Action} (plain : action.plain = true) :
    action.revises = none ∧ action.dispatches = none := by
  cases action <;> simp_all [Action.plain, revises, dispatches]

def Dispatches (todo : List Action) (source : Source) : Prop :=
  ∃ later ∈ todo, ∃ task ∈ later.dispatches, task.source = source

/-- What follows a change of the content brings the new content, and nothing that may fail before
it comes between. -/
inductive Sound : List Action → Prop where
  | nil : Sound []
  | plain {action : Action} {rest : List Action} (plain : action.plain = true)
      (sound : Sound rest) : Sound (action :: rest)
  | insert {row : Row} {rest : List Action} (gates : ∀ later ∈ rest, later.gates = false)
      (brings : ∀ source, row.source = some source → Dispatches rest source)
      (sound : Sound rest) : Sound (.insertRow row :: rest)
  | rewrite {url content : String} {rest : List Action}
      (gates : ∀ later ∈ rest, later.gates = false) (brings : Dispatches rest (.original url))
      (sound : Sound rest) : Sound (.rewriteObject url content :: rest)
  | update {revision : Revision} {rest : List Action} (gates : ∀ later ∈ rest, later.gates = false)
      (original : revision.documentUrl.isSome = true → revision.text.isSome = true ∧
        ∀ row : Row, ∃ source, (row.revise revision).source = some source ∧ Dispatches rest source)
      (brings : ∀ row : Row, (row.revise revision).source = row.source ∨
        (∃ source, (row.revise revision).source = some source ∧ Dispatches rest source) ∨
        (row.revise revision).source = none ∧ ∃ later ∈ rest, later.purgesVectors = true)
      (sound : Sound rest) : Sound (.updateRow revision :: rest)
  | dispatch {task : Task} {required : Bool} {rest : List Action}
      (last : ∀ later ∈ rest, later.revises = none) (sound : Sound rest) :
      Sound (.dispatchIngest task required :: rest)

namespace Sound

theorem append {before after : List Action} (plain : ∀ action ∈ before, action.plain = true)
    (sound : Sound after) : Sound (before ++ after) := by
  induction before with
  | nil => exact sound
  | cons action rest ih =>
    exact .plain (plain action mem_cons_self)
      (ih fun other member => plain other (mem_cons_of_mem _ member))

theorem of_plain {todo : List Action} (plain : ∀ action ∈ todo, action.plain = true) :
    Sound todo := by
  have sound := append plain .nil
  rwa [append_nil] at sound

theorem dispatching (task : Task) (required : Bool) :
    Sound [.dispatchIngest task required, .persistTaskId] := by
  refine .dispatch (fun later member => ?_) (.plain rfl .nil)
  obtain rfl := mem_singleton.mp member
  rfl

end Sound

variable {rest todo : List Action} {revision : Revision} {row : Row}

variable {required : Bool}

theorem dispatches_self {task : Task} :
    Dispatches (.dispatchIngest task required :: rest) task.source :=
  ⟨_, mem_cons_self, task, rfl, rfl⟩

theorem dispatches_append {before after : List Action} {source : Source}
    (sends : Dispatches after source) : Dispatches (before ++ after) source := by
  obtain ⟨later, member, task, found, same⟩ := sends
  exact ⟨later, mem_append_right _ member, task, found, same⟩

theorem source_revise (text : revision.text = none) (documentUrl : revision.documentUrl = none)
    (row : Row) : (row.revise revision).source = row.source := by
  simp only [Row.source, Row.revise, text, documentUrl, getD_none]

theorem Sound.columns (text : revision.text = none) (documentUrl : revision.documentUrl = none)
    (gates : ∀ later ∈ rest, later.gates = false) (sound : Sound rest) :
    Sound (.updateRow revision :: rest) := by
  refine .update gates (fun isSome => ?_) (fun row => .inl (source_revise text documentUrl row)) sound
  rw [documentUrl] at isSome
  cases isSome

def purgeAndDispatch (task : Task) : List Action :=
  purgeBrainVectors ++ [.dispatchIngest task false, .persistTaskId]

theorem sound_purgeAndDispatch (task : Task) : Sound (purgeAndDispatch task) :=
  .plain rfl (.plain rfl (.dispatching task false))

theorem gates_purgeAndDispatch (task : Task) :
    ∀ later ∈ purgeAndDispatch task, later.gates = false := by
  intro later member
  simp only [purgeAndDispatch, purgeBrainVectors, cons_append, nil_append, mem_cons,
    not_mem_nil, or_false] at member
  rcases member with rfl | rfl | rfl | rfl <;> rfl

theorem dispatches_purgeAndDispatch (task : Task) :
    Dispatches (purgeAndDispatch task) task.source := dispatches_append dispatches_self

theorem sound_updateDocumentContent {folders : List Folder} {text : String}
    (accepted : updateDocumentContent folders row text = some todo) : Sound todo := by
  obtain ⟨url, -, task, source, rfl⟩ | ⟨-, written, task, source, rfl⟩ | ⟨-, -, rfl⟩ :=
    updateDocumentContent_cases accepted
  · have update : Sound (.updateRow { processingStatus := some .pending } ::
        purgeAndDispatch task) :=
      .columns rfl rfl (gates_purgeAndDispatch task) (sound_purgeAndDispatch task)
    refine .rewrite (forall_mem_cons.mpr ⟨rfl, gates_purgeAndDispatch task⟩) ?_ update
    obtain ⟨later, member, sends⟩ := source ▸ dispatches_purgeAndDispatch task
    exact ⟨later, mem_cons_of_mem _ member, sends⟩
  · refine .update (gates_purgeAndDispatch task) (fun isSome => ?_) (fun row => ?_)
      (sound_purgeAndDispatch task)
    · cases isSome
    · cases stored : row.documentUrl with
      | some url => exact .inl (by simp only [Row.source, Row.revise, stored, getD_none])
      | none =>
        refine .inr (.inl ⟨.text text, ?_, source ▸ dispatches_purgeAndDispatch task⟩)
        simp only [Row.source, Row.revise, stored, getD_none, getD_some,
          Option.filter, written, ne_eq, not_false_eq_true, decide_true, if_true, map_some]
  · refine .update (fun later member => ?_) (fun isSome => ?_) (fun row => ?_)
      (.plain rfl (.plain rfl .nil))
    · simp only [mem_cons, not_mem_nil, or_false] at member
      rcases member with rfl | rfl <;> rfl
    · cases isSome
    · cases stored : row.documentUrl with
      | some url => exact .inl (by simp only [Row.source, Row.revise, stored, getD_none])
      | none =>
        refine .inr (.inr ⟨?_, .purgeVectors, mem_cons_self, rfl⟩)
        simp only [Row.source, Row.revise, stored, getD_none, getD_some]
        rfl

theorem sound_requeue {folders : List Folder} {data : KnowledgeDocumentInput} {newContent : Bool}
    (accepted : requeue folders row data newContent = todo) : Sound todo := by
  obtain ⟨stores, discards, revision, task, rfl, -, published, kept, stored, discarded⟩ :=
    requeue_cases accepted
  have storing : ∀ action ∈ stores, action.plain = true := by
    intro action member
    obtain ⟨url, rfl, -⟩ := stored action member
    rfl
  have discarding : ∀ action ∈ discards, action.plain = true ∧ action.gates = false := by
    intro action member
    obtain ⟨url, rfl, -⟩ := discarded action member
    exact ⟨rfl, rfl⟩
  have dispatch : Sound (discards ++ [.dispatchIngest task true, .persistTaskId]) :=
    .append (fun action member => (discarding action member).1) (.dispatching task true)
  have sends : Dispatches (discards ++ [.dispatchIngest task true, .persistTaskId]) task.source :=
    dispatches_append dispatches_self
  have gates : ∀ later ∈ discards ++ [.dispatchIngest task true, .persistTaskId],
      later.gates = false := by
    intro later member
    rcases mem_append.mp member with old | new
    · exact (discarding later old).2
    · simp only [mem_cons, not_mem_nil, or_false] at new
      rcases new with rfl | rfl <;> rfl
  have update : Sound (.updateRow revision :: (discards ++
      [.dispatchIngest task true, .persistTaskId])) := by
    cases newContent with
    | false =>
      obtain ⟨text, documentUrl⟩ := kept rfl
      exact .columns text documentUrl gates dispatch
    | true =>
      obtain ⟨text, source⟩ := published rfl
      exact .update gates (fun _ => ⟨text, fun row => ⟨_, source row, sends⟩⟩)
        (fun row => .inr (.inl ⟨_, source row, sends⟩)) dispatch
  have purge : ∀ action ∈ [Action.reachBrain, .purgeVectors, .purgeKnowledge] ++ stores,
      action.plain = true := by
    intro action member
    rcases mem_append.mp member with old | new
    · simp only [mem_cons, not_mem_nil, or_false] at old
      rcases old with rfl | rfl | rfl <;> rfl
    · exact storing action new
  simpa only [append_assoc, cons_append, nil_append] using Sound.append purge update

theorem sound_create {task : Task} (source : row.source = some task.source) :
    Sound [.insertRow row, .dispatchIngest task required, .persistTaskId] := by
  refine .insert (fun later member => ?_) (fun other same => ?_) (.dispatching task required)
  · simp only [mem_cons, not_mem_nil, or_false] at member
    rcases member with rfl | rfl <;> rfl
  · cases source.symm.trans same
    exact dispatches_self

/-- **Every request follows a change of the content with what brings the new content.** -/
theorem sound_handle {org : Org} {state : State} {call : Call}
    (handled : state.handle org call = some todo) : Sound todo := by
  cases call with
  | create body =>
    obtain ⟨-, handled⟩ : _ ∧ createDocument _ _ = some todo := by simpa [State.handle] using handled
    obtain ⟨row, ⟨textless, rfl⟩ | ⟨task, source, rfl⟩⟩ := createDocument_cases handled
    · refine .insert (fun later member => ?_) (fun source same => ?_) .nil
      · cases member
      · rw [textless] at same
        cases same
    · exact sound_create source
  | upload body =>
    obtain ⟨-, handled⟩ : _ ∧ uploadDocument _ _ = some todo := by simpa [State.handle] using handled
    obtain ⟨url, row, task, -, source, rfl⟩ := uploadDocument_cases handled
    exact .plain rfl (sound_create source)
  | upsertNew documentKey data =>
    obtain ⟨-, handled⟩ : _ ∧ upsertCreate _ _ _ = some todo := by simpa [State.handle] using handled
    obtain ⟨row, task, source, rfl | ⟨url, -, rfl⟩⟩ := upsertCreate_cases handled
    · exact sound_create source
    · exact .plain rfl (sound_create source)
  | upsert data stuckPending =>
    obtain ⟨row, -, handled⟩ := bind_eq_some_iff.mp handled
    obtain ⟨newContent, handled⟩ | ⟨scoping, rfl⟩ := upsertReplace_cases handled
    · exact sound_requeue handled
    · refine .columns rfl rfl (fun later member => ?_) (.plain rfl .nil)
      obtain rfl := mem_singleton.mp member
      rfl
  | putContent text =>
    obtain ⟨row, -, handled⟩ := bind_eq_some_iff.mp handled
    exact sound_updateDocumentContent handled
  | reprocess =>
    obtain ⟨row, -, handled⟩ := bind_eq_some_iff.mp handled
    obtain ⟨task, -, rfl⟩ := reprocessDocument_cases handled
    exact .columns rfl rfl (gates_purgeAndDispatch task) (sound_purgeAndDispatch task)
  | patch body =>
    obtain ⟨row, -, handled⟩ := bind_eq_some_iff.mp handled
    obtain ⟨revision, text, documentUrl, -, rfl | rfl⟩ := updateDocument_cases handled
    · exact .columns text documentUrl (fun later member => by cases member) .nil
    · refine .columns text documentUrl (fun later member => ?_) (.plain rfl .nil)
      obtain rfl := mem_singleton.mp member
      rfl
  | patchFolder folderId body =>
    obtain ⟨scopings, rfl⟩ := updateFolder_cases handled
    refine .plain rfl (.of_plain fun action member => ?_)
    obtain ⟨scoping, -, rfl⟩ := mem_map.mp member
    rfl
  | cancel =>
    obtain ⟨row, -, handled⟩ := bind_eq_some_iff.mp handled
    unfold cancelDocumentIngest purgeBrainVectors at handled
    split at handled
    · cases handled
      refine .append (fun action member => ?_)
        (.columns rfl rfl (fun later member => by cases member) .nil)
      grind [Action.plain]
    · cases handled
  | delete =>
    obtain ⟨row, -, rfl⟩ := map_eq_some_iff.mp handled
    refine .of_plain fun action member => ?_
    grind [Action.plain, deleteDocument, purgeBrainVectors]

/-! ## What a change of the row leaves on its way -/

theorem source_revise_revise {later : Revision} (same : (row.revise revision).source = row.source)
    (kept : revision.documentUrl = none)
    (original : later.documentUrl.isSome = true → later.text.isSome = true) :
    ((row.revise revision).revise later).source = (row.revise later).source := by
  cases stored : later.documentUrl with
  | some url =>
    obtain ⟨text, written⟩ := isSome_iff_exists.mp (original (by rw [stored]; rfl))
    simp only [Row.source, Row.revise, stored, written, getD_some]
  | none =>
    cases written : later.text with
    | some text =>
      simp only [Row.source, Row.revise, stored, written, kept, getD_some, getD_none]
    | none => rw [source_revise written stored, source_revise written stored, same]

theorem Sound.original {todo : List Action} (sound : Sound todo) :
    ∀ action ∈ todo, ∀ revision ∈ action.revises,
      revision.documentUrl.isSome = true → revision.text.isSome = true := by
  induction sound with
  | nil => exact fun _ member => by cases member
  | @plain action rest plain _ ih =>
    refine forall_mem_cons.mpr ⟨fun revision member => ?_, ih⟩
    rw [(Action.bare_of_plain plain).1] at member
    cases member
  | insert _ _ _ ih => exact forall_mem_cons.mpr ⟨fun _ member => (by cases member), ih⟩
  | rewrite _ _ _ ih => exact forall_mem_cons.mpr ⟨fun _ member => (by cases member), ih⟩
  | update gates original brings sound ih =>
    refine forall_mem_cons.mpr ⟨fun revision member => ?_, ih⟩
    cases member
    exact fun isSome => (original isSome).1
  | dispatch _ _ ih => exact forall_mem_cons.mpr ⟨fun _ member => (by cases member), ih⟩

theorem Sound.tail {action : Action} {rest : List Action} (sound : Sound (action :: rest)) :
    Sound rest := by
  cases sound <;> assumption

theorem brings_of_dispatches {source : Source} (gates : ∀ action ∈ todo, action.gates = false)
    (holds : row.source = some source) (sends : Dispatches todo source) :
    Brings todo (some row) := by
  obtain ⟨action, member, task, dispatches, rfl⟩ := sends
  exact ⟨gates, action, member, task, dispatches, row, rfl, .inl holds⟩

theorem Brings.tail {action : Action} {rest : List Action} {row : Option Row}
    (brings : Brings (action :: rest) row) (dispatches : action.dispatches = none)
    (revises : action.revises = none) : Brings rest row := by
  obtain ⟨gates, sender, member, task, sends, committed, found, publishes⟩ := brings
  have inRest : ∀ {other : Action}, other ∈ action :: rest → other ≠ action → other ∈ rest :=
    fun member different => (mem_cons.mp member).resolve_left different
  refine ⟨(forall_mem_cons.mp gates).2, sender, inRest member ?_, task, sends, committed, found, ?_⟩
  · rintro rfl
    rw [dispatches] at sends
    cases sends
  · rcases publishes with holds | ⟨updater, member, revision, found, later⟩
    · exact .inl holds
    · refine .inr ⟨updater, inRest member ?_, revision, found, later⟩
      rintro rfl
      rw [revises] at found
      cases found

theorem source_revise_self (row : Row) (revision : Revision) :
    ((row.revise revision).revise revision).source = (row.revise revision).source := by
  simp only [Row.source, Row.revise]
  cases revision.text <;> cases revision.documentUrl <;> rfl

theorem Brings.updated (brings : Brings (.updateRow revision :: rest) (some (row.revise revision))) :
    Brings rest (some (row.revise revision)) := by
  obtain ⟨gates, sender, member, task, sends, committed, found, publishes⟩ := brings
  cases found
  rcases mem_cons.mp member with rfl | inRest
  · cases sends
  · refine ⟨(forall_mem_cons.mp gates).2, sender, inRest, task, sends, _, rfl, ?_⟩
    rcases publishes with holds | ⟨updater, member, later, found, published⟩
    · exact .inl holds
    · rcases mem_cons.mp member with rfl | inRest
      · cases found
        exact .inl ((source_revise_self row _).symm.trans published)
      · exact .inr ⟨updater, inRest, later, found, published⟩

theorem Brings.sent {task : Task} {row : Option Row}
    (brings : Brings (.dispatchIngest task required :: rest) row)
    (sound : Sound (.dispatchIngest task required :: rest))
    (other : row.bind Row.source ≠ some task.source) : Brings rest row := by
  have last : ∀ later ∈ rest, later.revises = none := by
    cases sound with
    | plain plain => cases plain
    | dispatch last _ => exact last
  obtain ⟨gates, sender, member, sentTask, sends, committed, found, publishes⟩ := brings
  have holds : committed.source = some sentTask.source := by
    rcases publishes with holds | ⟨updater, member, later, found, -⟩
    · exact holds
    · rcases mem_cons.mp member with rfl | inRest
      · cases found
      · rw [last updater inRest] at found
        cases found
  refine ⟨(forall_mem_cons.mp gates).2, sender, (mem_cons.mp member).resolve_left ?_,
    sentTask, sends, committed, found, .inl holds⟩
  rintro rfl
  cases sends
  obtain rfl := found
  exact other holds

theorem Clears.tail {action : Action} {rest : List Action} (clears : Clears (action :: rest))
    (keeps : action.purgesVectors = false) : Clears rest := by
  obtain ⟨gates, purger, member, purges⟩ := clears
  refine ⟨(forall_mem_cons.mp gates).2, purger, ?_, purges⟩
  refine (mem_cons.mp member).resolve_left ?_
  rintro rfl
  rw [keeps] at purges
  cases purges

theorem Brings.revise (brings : Brings todo (some row)) (sound : Sound todo)
    (same : (row.revise revision).source = row.source) (kept : revision.documentUrl = none) :
    Brings todo (some (row.revise revision)) := by
  obtain ⟨gates, sender, member, task, sends, committed, found, publishes⟩ := brings
  cases found
  refine ⟨gates, sender, member, task, sends, _, rfl, ?_⟩
  rcases publishes with holds | ⟨updater, member, later, found, published⟩
  · exact .inl (same.trans holds)
  · exact .inr ⟨updater, member, later, found,
      (source_revise_revise same kept (sound.original updater member later found)).trans published⟩

theorem not_brings_none (todo : List Action) : ¬ Brings todo none := by
  rintro ⟨-, -, -, -, -, committed, found, -⟩
  cases found

theorem not_brings_nil (row : Option Row) : ¬ Brings [] row := by
  rintro ⟨-, _, member, -⟩
  cases member

theorem not_clears_nil : ¬ Clears [] := by
  rintro ⟨-, _, member, -⟩
  cases member

theorem not_carrying_of_gates {request : Request} {action : Action} {row : Option Row}
    (todo : request.todo = action :: rest) (gates : action.gates = true) :
    ¬ Carrying request row := by
  rintro (⟨passed, -⟩ | ⟨passed, -⟩) <;>
  · have here := passed action (todo ▸ mem_cons_self)
    rw [gates] at here
    cases here

end RedArchKM.Ingest
