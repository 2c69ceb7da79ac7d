import RedArchKM.Graph.TripletStore
import RedArchKM.Lib.History

/-!
# Triplets of several documents

A triplet that several documents state is one relation between shared entities. So the upkeep of
one document reaches the triplets of others: a purge takes whatever carries the document's key, an
insert joins its access keys to the entities it mentions, and a metadata update overwrites those of
the entities it signed last.

`undisturbed_iff` says exactly when an operation leaves the triplets of the other documents alone,
and `documentsKeptApart` what that gives for a whole run.
-/

namespace RedArchKM.Graph

open GraphStore List Option
open Lib (Moment History)

/-! ## Runs -/

/-- What a document's current text states, and its access keys. -/
structure Statement where
  triplets : List Triplet
  accessKeys : List Nat
deriving DecidableEq

structure Corpus where
  graph : GraphStore := {}
  documents : String → Option Statement := fun _ => none

inductive Operation where
  | ingest (key : String) (perChunk : List (List Triplet)) (tags : List String)
      (accessKeys : List Nat) (useKnowledgeGraph : Bool)
  | updateMetadata (key : String) (tags : Option (List String)) (accessKeys : Option (List Nat))
  | remove (key : String)

namespace Operation

/-- The document that the operation is about. -/
def key : Operation → String
  | .ingest key _ _ _ _ => key
  | .updateMetadata key _ _ => key
  | .remove key => key

def stated : Operation → List Triplet
  | .ingest _ perChunk _ _ useKnowledgeGraph =>
    if useKnowledgeGraph then clean perChunk.flatten else []
  | _ => []

end Operation

namespace Corpus

/-- What the operation makes of the document it is about. -/
def restated (corpus : Corpus) : Operation → Option Statement
  | .ingest key perChunk tags accessKeys useKnowledgeGraph =>
    some ⟨(Operation.ingest key perChunk tags accessKeys useKnowledgeGraph).stated, accessKeys⟩
  | .updateMetadata key _ accessKeys =>
    (corpus.documents key).map fun statement =>
      { statement with accessKeys := accessKeys.getD statement.accessKeys }
  | .remove _ => none

def graphAfter (corpus : Corpus) : Operation → GraphStore
  | .ingest key perChunk tags accessKeys useKnowledgeGraph =>
    ingestDocument corpus.graph key perChunk tags accessKeys useKnowledgeGraph
  | .updateMetadata key tags accessKeys => corpus.graph.updateMetadata key tags accessKeys
  | .remove key => corpus.graph.deleteByDocumentKey key

def step (corpus : Corpus) (operation : Operation) : Corpus where
  graph := corpus.graphAfter operation
  documents := fun key =>
    if key = operation.key then corpus.restated operation else corpus.documents key

/-! ## What is promised -/

/-- Some document states every triplet of the graph. -/
def NoOrphans (corpus : Corpus) : Prop :=
  ∀ triplet, (corpus.graph.relations triplet).isSome = true →
    ∃ key statement, corpus.documents key = some statement ∧ triplet ∈ statement.triplets

def Entitled (own keys : List Nat) : Prop := own = [] ∨ ∃ key ∈ keys, key ∈ own

/-- An operation leaves the triplets of every other document in place and as visible as they were to
the callers whom that document entitles. -/
def Undisturbed (corpus : Corpus) (operation : Operation) : Prop :=
  ∀ key statement, corpus.documents key = some statement → key ≠ operation.key →
    ∀ triplet ∈ statement.triplets,
      ((corpus.graph.relations triplet).isSome = true →
        ((corpus.step operation).graph.relations triplet).isSome = true) ∧
      ∀ keys, Entitled statement.accessKeys keys →
        (corpus.step operation).graph.meets [] (some keys) triplet =
          corpus.graph.meets [] (some keys) triplet

end Corpus

/-! ## Access keys at the ends of a triplet -/

/-- The access keys at both ends. -/
structure Ends where
  subj : List Nat
  obj : List Nat

namespace Ends

section

variable (ends : Ends)

/-- One end has no access keys, so everybody reads the triplet. -/
def Unguarded : Prop := ends.subj = [] ∨ ends.obj = []

def pool : List Nat := ends.subj ++ ends.obj

/-- Every caller whom the document's access keys entitle reads the triplet. -/
def Covers (own : List Nat) : Prop :=
  ends.Unguarded ∨ own ≠ [] ∧ own ⊆ ends.pool

/-- The callers whom the document entitles get the same answer. -/
def Same (own : List Nat) (other : Ends) : Prop :=
  (ends.Unguarded ↔ other.Unguarded) ∧
      (ends.Unguarded ∨ ends.pool ⊆ other.pool ∧ other.pool ⊆ ends.pool) ∨
    ends.Covers own ∧ other.Covers own

def Reads (keys : List Nat) : Prop :=
  ends.Unguarded ∨ ∃ key ∈ keys, key ∈ ends.pool

end

variable {own keys : List Nat} {ends other : Ends}

theorem reads_cons {key : Nat} : ends.Reads (key :: keys) ↔ key ∈ ends.pool ∨ ends.Reads keys := by
  unfold Reads
  simp only [mem_cons, exists_eq_or_imp]
  tauto

theorem covers_iff : ends.Covers own ↔ ∀ keys, Corpus.Entitled own keys → ends.Reads keys := by
  constructor
  · rintro (unguarded | ⟨guarded, covered⟩) keys entitled
    · exact .inl unguarded
    · rcases entitled with isPublic | ⟨key, mine, here⟩
      · exact absurd isPublic guarded
      · exact .inr ⟨key, mine, covered here⟩
  · intro reads
    by_cases isPublic : own = []
    · rcases reads [] (.inl isPublic) with unguarded | ⟨key, mine, -⟩
      · exact .inl unguarded
      · cases mine
    · by_cases unguarded : ends.Unguarded
      · exact .inl unguarded
      · refine .inr ⟨isPublic, fun key here => ?_⟩
        rcases reads [key] (.inr ⟨key, mem_singleton_self key, here⟩) with
          unguarded' | ⟨other, mine, pooled⟩
        · exact absurd unguarded' unguarded
        · obtain rfl := mem_singleton.mp mine
          exact pooled

theorem same_of_not_reads (entitled : Corpus.Entitled own keys) (shut : ¬ends.Reads keys)
    (answers : ∀ keys, Corpus.Entitled own keys → (ends.Reads keys ↔ other.Reads keys)) :
    (ends.Unguarded ↔ other.Unguarded) ∧
      (ends.Unguarded ∨ ends.pool ⊆ other.pool ∧ other.pool ⊆ ends.pool) := by
  have shutOther : ¬other.Reads keys := fun reads => shut ((answers keys entitled).mpr reads)
  have more : ∀ key, key ∈ ends.pool ↔ key ∈ other.pool := by
    intro key
    have stays : Corpus.Entitled own (key :: keys) := by
      rcases entitled with isPublic | ⟨mine, member, here⟩
      · exact .inl isPublic
      · exact .inr ⟨mine, mem_cons_of_mem _ member, here⟩
    have same := answers (key :: keys) stays
    rw [reads_cons, reads_cons, or_iff_left shut, or_iff_left shutOther] at same
    exact same
  refine ⟨?_, .inr ⟨fun key => (more key).mp, fun key => (more key).mpr⟩⟩
  exact ⟨fun unguarded => absurd (.inl unguarded) shut,
    fun unguarded => absurd (.inl unguarded) shutOther⟩

/-- **When the callers of a document get the same answers.** -/
theorem same_iff : ends.Same own other ↔
    ∀ keys, Corpus.Entitled own keys → (ends.Reads keys ↔ other.Reads keys) := by
  constructor
  · rintro (⟨unguarded, pools⟩ | ⟨covers, covered⟩) keys entitled
    · rcases pools with isOpen | ⟨left, right⟩
      · exact iff_of_true (.inl isOpen) (.inl (unguarded.mp isOpen))
      · refine or_congr unguarded ⟨?_, ?_⟩
        · rintro ⟨key, mine, pooled⟩
          exact ⟨key, mine, left pooled⟩
        · rintro ⟨key, mine, pooled⟩
          exact ⟨key, mine, right pooled⟩
    · exact iff_of_true (covers_iff.mp covers keys entitled) (covers_iff.mp covered keys entitled)
  · intro answers
    by_cases covers : ends.Covers own
    · refine .inr ⟨covers, covers_iff.mpr fun keys entitled => ?_⟩
      exact (answers keys entitled).mp (covers_iff.mp covers keys entitled)
    · simp only [covers_iff, not_forall] at covers
      obtain ⟨keys, entitled, shut⟩ := covers
      exact .inl (same_of_not_reads entitled shut answers)

end Ends

/-! ## What an operation leaves -/

namespace Corpus

def purges : Operation → Bool
  | .ingest _ perChunk _ _ _ => perChunk ≠ []
  | .updateMetadata _ _ _ => false
  | .remove _ => true

/-- The access keys that are left on an entity: a purge drops an entity that carries the document's
key, an insert joins its access keys to those of the entities it mentions, and an update replaces
those of the entities that carry the key. -/
def keysLeft (graph : GraphStore) (operation : Operation) (name : String) : List Nat :=
  let kept := if graph.carries operation.key name then [] else graph.keysOf name
  match operation with
  | .ingest _ perChunk _ accessKeys _ =>
    if perChunk = [] then graph.keysOf name
    else if name ∈ names operation.stated then kept ++ accessKeys
    else kept
  | .updateMetadata key _ accessKeys =>
    if graph.carries key name then accessKeys.getD (graph.keysOf name) else graph.keysOf name
  | .remove _ => kept

def ends (graph : GraphStore) (triplet : Triplet) : Ends :=
  ⟨graph.keysOf triplet.subj, graph.keysOf triplet.obj⟩

def endsLeft (graph : GraphStore) (operation : Operation) (triplet : Triplet) : Ends :=
  ⟨keysLeft graph operation triplet.subj, keysLeft graph operation triplet.obj⟩

/-- **The operation keeps apart from the other documents**: what its purge takes of their triplets
its text states too, and the access keys that it leaves at the ends of the others' triplets change
nothing for their callers. -/
def KeepsApart (corpus : Corpus) (operation : Operation) : Prop :=
  ∀ key statement, corpus.documents key = some statement → key ≠ operation.key →
    ∀ triplet ∈ statement.triplets,
      (purges operation = true → corpus.graph.Taken operation.key triplet →
        triplet ∈ operation.stated) ∧
      (ends corpus.graph triplet).Same statement.accessKeys
        (endsLeft corpus.graph operation triplet)

/-- Text without chunks, which purges nothing, replaces only text that has no relation left. -/
def Replaces (corpus : Corpus) (operation : Operation) : Prop :=
  ∀ key tags accessKeys useKnowledgeGraph,
    operation = .ingest key [] tags accessKeys useKnowledgeGraph →
      ∀ statement, corpus.documents key = some statement → ∀ triplet ∈ statement.triplets,
        corpus.graph.relations triplet ≠ some ⟨some key⟩

/-! ## What an operation does -/

section Operations

variable (corpus : Corpus) (operation : Operation)

theorem keysOf_deleteByDocumentKey (graph : GraphStore) (key name : String) :
    (graph.deleteByDocumentKey key).keysOf name =
      if graph.carries key name then [] else graph.keysOf name := by
  unfold keysOf
  rw [deleteByDocumentKey_entities]
  split <;> rfl

/-- **The relations after an operation.** -/
theorem relations_graphAfter (triplet : Triplet) :
    (corpus.graphAfter operation).relations triplet =
      if triplet ∈ operation.stated then some ⟨some operation.key⟩
      else if purges operation = true ∧ corpus.graph.Taken operation.key triplet then none
      else corpus.graph.relations triplet := by
  cases operation with
  | ingest key perChunk tags accessKeys useKnowledgeGraph =>
    unfold graphAfter ingestDocument purges Operation.key Operation.stated
    by_cases chunkless : perChunk = []
    · subst chunkless
      simp [clean]
    · cases useKnowledgeGraph with
      | true =>
        simp only [chunkless, if_false, if_true, insertTriplets, ne_eq, not_false_eq_true,
          decide_true, true_and]
        rw [(foldl_insertTriplet key tags accessKeys _ _).2.2 triplet,
          deleteByDocumentKey_relations]
      | false =>
        simp only [chunkless, Bool.false_eq_true, if_false, not_mem_nil, ne_eq,
          not_false_eq_true, decide_true, true_and]
        exact deleteByDocumentKey_relations corpus.graph key triplet
  | updateMetadata key tags accessKeys => simp [graphAfter, updateMetadata, purges, Operation.stated]
  | remove key =>
    simp only [graphAfter, purges, Operation.stated, Operation.key, not_mem_nil, if_false, true_and]
    exact deleteByDocumentKey_relations corpus.graph key triplet

/-- **The access keys after an operation.** -/
theorem mem_keysOf_graphAfter (name : String) (key : Nat) :
    key ∈ (corpus.graphAfter operation).keysOf name ↔ key ∈ keysLeft corpus.graph operation name := by
  cases operation with
  | ingest documentKey perChunk tags accessKeys useKnowledgeGraph =>
    unfold graphAfter ingestDocument keysLeft
    by_cases chunkless : perChunk = []
    · simp only [chunkless, if_true]
    · cases useKnowledgeGraph with
      | true =>
        simp only [if_neg chunkless, if_true, insertTriplets, Operation.stated, Operation.key]
        obtain ⟨mentioned, others, -⟩ := foldl_insertTriplet documentKey tags accessKeys
          (clean perChunk.flatten) (corpus.graph.deleteByDocumentKey documentKey)
        by_cases isEnd : name ∈ names (clean perChunk.flatten)
        · obtain ⟨entity, here, -, joined⟩ := mentioned name isEnd
          rw [if_pos isEnd, keysOf, here, map_some, getD_some, joined,
            keysOf_deleteByDocumentKey, mem_append]
          rfl
        · rw [if_neg isEnd, keysOf, others name isEnd, ← keysOf, keysOf_deleteByDocumentKey]
          rfl
      | false =>
        simp only [if_neg chunkless, Bool.false_eq_true, if_false, Operation.stated,
          Operation.key, names, flatMap_nil, not_mem_nil]
        rw [keysOf_deleteByDocumentKey]
        rfl
  | updateMetadata documentKey tags accessKeys =>
    unfold graphAfter keysLeft updateMetadata keysOf carries
    cases here : corpus.graph.entities name with
    | none => simp [here]
    | some entity =>
      by_cases signed : entity.documentKey = some documentKey <;> simp [here, signed]
  | remove documentKey =>
    unfold graphAfter keysLeft Operation.key
    rw [keysOf_deleteByDocumentKey]

theorem isSome_entities_graphAfter (name : String) :
    ((corpus.graphAfter operation).entities name).isSome = true ↔
      name ∈ names operation.stated ∨
        ¬(purges operation = true ∧ corpus.graph.carries operation.key name = true) ∧
          (corpus.graph.entities name).isSome = true := by
  have purged : ∀ key, ((corpus.graph.deleteByDocumentKey key).entities name).isSome = true ↔
      ¬corpus.graph.carries key name = true ∧ (corpus.graph.entities name).isSome = true := by
    intro key
    rw [deleteByDocumentKey_entities]
    split <;> rename_i carried <;> simp [carried]
  cases operation with
  | ingest key perChunk tags accessKeys useKnowledgeGraph =>
    unfold graphAfter ingestDocument purges Operation.key Operation.stated
    by_cases chunkless : perChunk = []
    · subst chunkless
      simp [clean, names]
    · cases useKnowledgeGraph with
      | true =>
        simp only [chunkless, if_false, if_true, insertTriplets, ne_eq, not_false_eq_true,
          decide_true, true_and]
        obtain ⟨mentioned, others, -⟩ := foldl_insertTriplet key tags accessKeys
          (clean perChunk.flatten) (corpus.graph.deleteByDocumentKey key)
        by_cases isEnd : name ∈ names (clean perChunk.flatten)
        · obtain ⟨entity, here, -⟩ := mentioned name isEnd
          simp only [here, isEnd, isSome_some, true_or]
        · rw [others name isEnd, purged key, or_iff_right isEnd]
      | false =>
        simp only [chunkless, Bool.false_eq_true, if_false, ne_eq, not_false_eq_true,
          decide_true, true_and, names, flatMap_nil, not_mem_nil, false_or]
        exact purged key
  | updateMetadata key tags accessKeys =>
    simp [graphAfter, updateMetadata, purges, Operation.stated, names]
  | remove key =>
    simp only [graphAfter, purges, Operation.stated, Operation.key, names, flatMap_nil,
      not_mem_nil, false_or, true_and]
    exact purged key

end Operations

/-! ## What every step keeps -/

structure Sound (corpus : Corpus) : Prop where
  ended : ∀ triplet, (corpus.graph.relations triplet).isSome = true →
    (corpus.graph.entities triplet.subj).isSome = true ∧
      (corpus.graph.entities triplet.obj).isSome = true
  signed : ∀ triplet relation, corpus.graph.relations triplet = some relation →
    ∃ key statement, relation.documentKey = some key ∧ corpus.documents key = some statement ∧
      triplet ∈ statement.triplets
  present : ∀ key statement, corpus.documents key = some statement →
    ∀ triplet ∈ statement.triplets, (corpus.graph.relations triplet).isSome = true

section Steps

variable {corpus : Corpus} {operation : Operation}

theorem ended_graphAfter (ended : ∀ triplet, (corpus.graph.relations triplet).isSome = true →
      (corpus.graph.entities triplet.subj).isSome = true ∧
        (corpus.graph.entities triplet.obj).isSome = true) (triplet : Triplet)
    (there : ((corpus.graphAfter operation).relations triplet).isSome = true) :
    ((corpus.graphAfter operation).entities triplet.subj).isSome = true ∧
      ((corpus.graphAfter operation).entities triplet.obj).isSome = true := by
  rw [isSome_entities_graphAfter, isSome_entities_graphAfter]
  rw [relations_graphAfter] at there
  split at there
  · rename_i stated
    obtain ⟨subj, obj⟩ := mem_names_of_mem stated
    exact ⟨.inl subj, .inl obj⟩
  · split at there
    · cases there
    · rename_i spared
      obtain ⟨subj, obj⟩ := ended triplet there
      refine ⟨.inr ⟨fun taken => spared ⟨taken.1, .inr (.inl taken.2)⟩, subj⟩, .inr ⟨?_, obj⟩⟩
      exact fun taken => spared ⟨taken.1, .inr (.inr taken.2)⟩

theorem meets_iff {graph : GraphStore} {triplet : Triplet} {keys : List Nat}
    (there : (graph.relations triplet).isSome = true)
    (ended : (graph.entities triplet.subj).isSome = true ∧
      (graph.entities triplet.obj).isSome = true) :
    graph.meets [] (some keys) triplet = true ↔ (ends graph triplet).Reads keys := by
  obtain ⟨relation, isRelation⟩ := isSome_iff_exists.mp there
  obtain ⟨subj, isSubj⟩ := isSome_iff_exists.mp ended.1
  obtain ⟨obj, isObj⟩ := isSome_iff_exists.mp ended.2
  simp only [meets, isRelation, isSubj, isObj, isEmpty_nil, Bool.true_or, Bool.true_and,
    Bool.or_eq_true, readable_iff, ends, Ends.Reads, Ends.Unguarded, Ends.pool, keysOf,
    map_some, getD_some, mem_append]
  constructor
  · rintro ((isPublic | ⟨key, mine, here⟩) | (isPublic | ⟨key, mine, here⟩))
    · exact .inl (.inl isPublic)
    · exact .inr ⟨key, mine, .inl here⟩
    · exact .inl (.inr isPublic)
    · exact .inr ⟨key, mine, .inr here⟩
  · rintro ((isPublic | isPublic) | ⟨key, mine, here | here⟩)
    · exact .inl (.inl isPublic)
    · exact .inr (.inl isPublic)
    · exact .inl (.inr ⟨key, mine, here⟩)
    · exact .inr (.inr ⟨key, mine, here⟩)

theorem reads_congr {left right : Ends} {keys : List Nat}
    (subj : ∀ key, key ∈ left.subj ↔ key ∈ right.subj)
    (obj : ∀ key, key ∈ left.obj ↔ key ∈ right.obj) : left.Reads keys ↔ right.Reads keys := by
  have empty : ∀ {these those : List Nat}, (∀ key, key ∈ these ↔ key ∈ those) →
      (these = [] ↔ those = []) := by
    intro these those same
    simp only [eq_nil_iff_forall_not_mem, same]
  simp only [Ends.Reads, Ends.Unguarded, Ends.pool, mem_append, subj, obj, empty subj, empty obj]

/-- **When an operation leaves the triplets of the other documents alone.** -/
theorem undisturbed_iff (sound : corpus.Sound) :
    corpus.Undisturbed operation ↔ corpus.KeepsApart operation := by
  refine forall₂_congr fun key statement => ?_
  refine forall_congr' fun current => forall_congr' fun other => ?_
  refine forall₂_congr fun triplet member => ?_
  have there := sound.present key statement current triplet member
  have after : ((corpus.step operation).graph.relations triplet).isSome = true ↔
      (purges operation = true → corpus.graph.Taken operation.key triplet →
        triplet ∈ operation.stated) := by
    change ((corpus.graphAfter operation).relations triplet).isSome = true ↔ _
    rw [relations_graphAfter]
    split
    · rename_i stated
      simp [stated]
    · rename_i unstated
      split
      · rename_i taken
        simp [unstated, taken]
      · rename_i spared
        simp only [there, unstated, true_iff]
        exact fun purged taken => spared ⟨purged, taken⟩
  rw [← after]
  simp only [there, true_imp_iff]
  refine and_congr_right fun left => ?_
  rw [Ends.same_iff]
  refine forall₂_congr fun keys entitled => ?_
  have isLeft : (ends (corpus.step operation).graph triplet).Reads keys ↔
      (endsLeft corpus.graph operation triplet).Reads keys :=
    reads_congr (mem_keysOf_graphAfter corpus operation triplet.subj)
      (mem_keysOf_graphAfter corpus operation triplet.obj)
  rw [Bool.eq_iff_iff, meets_iff there (sound.ended triplet there),
    meets_iff left (ended_graphAfter sound.ended triplet left), isLeft]
  exact iff_comm

theorem restated_of_spared {key : String} {relation : Relation} {triplet : Triplet}
    {statement : Statement} (own : key = operation.key) (isKey : relation.documentKey = some key)
    (isRelation : corpus.graph.relations triplet = some relation)
    (current : corpus.documents key = some statement) (stated : triplet ∈ statement.triplets)
    (spared : ¬(purges operation = true ∧ corpus.graph.Taken operation.key triplet))
    (replaces : corpus.Replaces operation) :
    ∃ restatement, corpus.restated operation = some restatement ∧
      triplet ∈ restatement.triplets := by
  have carried : corpus.graph.Taken operation.key triplet := by
    refine .inl ?_
    rwa [isRelation, ← own, any_some, decide_eq_true_eq]
  have unpurged : purges operation = false := by
    cases purged : purges operation with
    | true => exact absurd ⟨purged, carried⟩ spared
    | false => rfl
  cases operation with
  | ingest documentKey perChunk tags accessKeys useKnowledgeGraph =>
    have chunkless : perChunk = [] := by simpa [purges] using unpurged
    subst chunkless
    subst own
    refine absurd ?_ (replaces _ _ _ _ rfl statement current triplet stated)
    rw [isRelation, ← isKey]
  | updateMetadata documentKey tags accessKeys =>
    subst own
    exact ⟨_, map_eq_some_iff.mpr ⟨statement, current, rfl⟩, stated⟩
  | remove documentKey => cases unpurged

/-- **An operation that keeps apart keeps the corpus sound.** -/
theorem sound_step (sound : corpus.Sound) (apart : corpus.KeepsApart operation)
    (replaces : corpus.Replaces operation) : (corpus.step operation).Sound := by
  refine ⟨ended_graphAfter sound.ended, ?_, ?_⟩
  · intro triplet relation isRelation
    change (corpus.graphAfter operation).relations triplet = some relation at isRelation
    rw [relations_graphAfter] at isRelation
    split at isRelation
    · rename_i stated
      cases isRelation
      cases operation with
      | ingest key perChunk tags accessKeys useKnowledgeGraph =>
        exact ⟨key, _, rfl, if_pos rfl, stated⟩
      | updateMetadata key tags accessKeys => cases stated
      | remove key => cases stated
    · rename_i unstated
      split at isRelation
      · cases isRelation
      · rename_i spared
        obtain ⟨key, statement, isKey, current, stated⟩ := sound.signed triplet relation isRelation
        by_cases own : key = operation.key
        · obtain ⟨restatement, restated, same⟩ :=
            restated_of_spared own isKey isRelation current stated spared replaces
          exact ⟨key, restatement, isKey, (if_pos own).trans restated, same⟩
        · exact ⟨key, statement, isKey, (if_neg own).trans current, stated⟩
  · intro key statement current triplet member
    by_cases own : key = operation.key
    · replace current := (if_pos own).symm.trans current
      change ((corpus.graphAfter operation).relations triplet).isSome = true
      rw [relations_graphAfter]
      cases operation with
      | ingest _ perChunk tags accessKeys useKnowledgeGraph =>
        cases current
        rw [if_pos member]
        rfl
      | updateMetadata _ tags accessKeys =>
        obtain ⟨old, was, rfl⟩ := map_eq_some_iff.mp current
        exact sound.present _ old was triplet member
      | remove _ => cases current
    · replace current := (if_neg own).symm.trans current
      have undisturbed := (undisturbed_iff sound).mpr apart
      exact (undisturbed key statement current own triplet member).1
        (sound.present key statement current triplet member)

theorem Sound.noOrphans (sound : corpus.Sound) : corpus.NoOrphans := by
  intro triplet there
  obtain ⟨relation, isRelation⟩ := isSome_iff_exists.mp there
  obtain ⟨key, statement, -, current, stated⟩ := sound.signed triplet relation isRelation
  exact ⟨key, statement, current, stated⟩

end Steps

end Corpus

/-! ## Runs -/

/-- The runs from an empty graph. -/
def Operated (history : History Operation Corpus) : Prop :=
  History.Steps (fun corpus operation next => next = corpus.step operation) { now := {} } history

/-- **Documents that are kept apart leave each other's triplets alone**, and what no document states
is gone. -/
theorem documentsKeptApart {history : History Operation Corpus} (run : Operated history)
    (apart : ∀ moment ∈ history.past, moment.before.KeepsApart moment.event ∧
      moment.before.Replaces moment.event) :
    (∀ moment ∈ history.past, moment.before.Undisturbed moment.event) ∧
      ∀ corpus ∈ history.states, corpus.NoOrphans := by
  have sound : ∀ corpus ∈ history.states, corpus.Sound := by
    refine run.invariant (fun moment => moment.before.KeepsApart moment.event ∧
      moment.before.Replaces moment.event) ?_ apart ?_
    · rintro corpus operation _ rfl ⟨keepsApart, replaces⟩ before
      exact Corpus.sound_step before keepsApart replaces
    · intro corpus member
      obtain rfl := mem_singleton.mp member
      exact ⟨nofun, nofun, nofun⟩
  refine ⟨fun moment member => ?_, fun corpus member => (sound corpus member).noOrphans⟩
  exact (Corpus.undisturbed_iff (sound moment.before (History.before_mem_states member))).mpr
    (apart moment member).1

/-! ## Two minutes of one meeting -/

/-- A public document that states the triplet. -/
def minutes (key : String) (triplet : Triplet) : Operation :=
  .ingest key [[triplet]] [] [] true

def annaLeads : Triplet := ⟨"Anna", "leads", "Sales"⟩

def bobLeads : Triplet := ⟨"Bob", "leads", "Support"⟩

section

variable (first second : Triplet)

/-- The corpus after two documents. -/
def twoMinutes : Corpus :=
  (Corpus.step {} (minutes "monday" first)).step (minutes "friday" second)

/-- Two documents are ingested, and the second is removed. -/
def removal : History Operation Corpus :=
  ((History.step { now := ({} : Corpus) } (minutes "monday" first)
    (Corpus.step {} (minutes "monday" first))).step (minutes "friday" second)
      (twoMinutes first second)).step (.remove "friday")
        ((twoMinutes first second).step (.remove "friday"))

theorem operated_removal : Operated (removal first second) :=
  (((History.Steps.refl _).tail rfl).tail rfl).tail rfl

end

theorem keepsApart_of_unguarded {corpus : Corpus} {operation : Operation}
    (others : ∀ key statement, corpus.documents key = some statement → key ≠ operation.key →
      ∀ triplet ∈ statement.triplets, ¬corpus.graph.Taken operation.key triplet ∧
        (Corpus.ends corpus.graph triplet).Unguarded ∧
        (Corpus.endsLeft corpus.graph operation triplet).Unguarded) :
    corpus.KeepsApart operation := by
  intro key statement current other triplet member
  obtain ⟨spared, unguarded, left⟩ := others key statement current other triplet member
  exact ⟨fun _ taken => absurd taken spared, .inl ⟨iff_of_true unguarded left, .inl unguarded⟩⟩

theorem replaces_minutes (corpus : Corpus) (key : String) (triplet : Triplet) :
    corpus.Replaces (minutes key triplet) := by
  intro other tags accessKeys useKnowledgeGraph same
  simp only [minutes, Operation.ingest.injEq, reduceCtorEq, false_and, and_false] at same

/-- Minutes of different people are kept apart. -/
theorem documentsKeptApart_removal :
    (∀ moment ∈ (removal annaLeads bobLeads).past, moment.before.Undisturbed moment.event) ∧
      ∀ corpus ∈ (removal annaLeads bobLeads).states, corpus.NoOrphans := by
  refine documentsKeptApart (operated_removal annaLeads bobLeads) ?_
  intro moment member
  simp only [removal, History.past_step, nil_append, cons_append, mem_cons,
    not_mem_nil, or_false] at member
  rcases member with rfl | rfl | rfl
  · exact ⟨fun _ _ current => (by cases current), replaces_minutes _ _ _⟩
  · refine ⟨keepsApart_of_unguarded ?_, replaces_minutes _ _ _⟩
    intro key statement current _ triplet member
    dsimp only [Corpus.step, History.now_step] at current
    split at current
    · cases current
      obtain rfl := mem_singleton.mp member
      exact ⟨by decide, .inl (by decide), .inl (by decide)⟩
    · cases current
  · refine ⟨keepsApart_of_unguarded ?_, nofun⟩
    intro key statement current other triplet member
    dsimp only [twoMinutes, Corpus.step, History.now_step] at current
    split at current
    · rename_i same
      exact absurd same other
    · split at current
      · cases current
        obtain rfl := mem_singleton.mp member
        exact ⟨by decide, .inl (by decide), .inl (by decide)⟩
      · cases current

/-- Two minutes state one triplet: removing the second removes it, though the first still states
it. -/
theorem not_keptApart_removal :
    Operated (removal annaLeads annaLeads) ∧
      (twoMinutes annaLeads annaLeads).documents "monday" = some ⟨[annaLeads], []⟩ ∧
      ¬(twoMinutes annaLeads annaLeads).Undisturbed (.remove "friday") ∧
      ∃ moment ∈ (removal annaLeads annaLeads).past,
        moment.before = twoMinutes annaLeads annaLeads ∧ moment.event = .remove "friday" := by
  refine ⟨operated_removal _ _, by decide, fun undisturbed => ?_, ?_⟩
  · obtain ⟨there, -⟩ := undisturbed "monday" ⟨[annaLeads], []⟩ (by decide) (by decide) annaLeads
      mem_cons_self
    exact absurd (there (by decide)) (by decide)
  · exact ⟨⟨.remove "friday", twoMinutes annaLeads annaLeads⟩, by simp [removal], rfl, rfl⟩

end RedArchKM.Graph
