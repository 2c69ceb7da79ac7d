import Mathlib.Data.List.Dedup

/-!
# The graph store's triplets

A tenant's entities are merged by name and its relations by their ends and predicate, so one entity
or relation serves every document that states it. Each keeps one document key, that of the document
that stated it last; an entity collects the tags and access keys of all of them.

The store's maps are functions here: merging makes names and triplets unique.
-/

namespace RedArchKM.Graph

open List

/-- `(subject, predicate, object)` -/
structure Triplet where
  subj : String
  pred : String
  obj : String
deriving DecidableEq

structure Entity where
  tags : List String
  accessKeys : List Nat
  documentKey : Option String := none

structure Relation where
  documentKey : Option String := none

structure GraphStore where
  entities : String → Option Entity := fun _ => none
  relations : Triplet → Option Relation := fun _ => none

namespace GraphStore

/-! ## Inserting triplets -/

/-- `apoc.coll.toSet` -/
def toSet {α : Type} [DecidableEq α] (items : List α) : List α := items.dedup

/-- The entity after a `MERGE`: a new one gets the tags and access keys, an old one is joined with
them. -/
def mergeEntity (tags : List String) (accessKeys : List Nat) : Option Entity → Entity
  | none => { tags := tags, accessKeys := accessKeys }
  | some entity =>
    { entity with
      tags := toSet (entity.tags ++ tags)
      accessKeys := toSet (entity.accessKeys ++ accessKeys) }

/-- `MERGE (v {name: name})` -/
def mergeVertex (graph : GraphStore) (name : String) (tags : List String)
    (accessKeys : List Nat) : GraphStore :=
  { graph with
    entities := fun other =>
      if other = name then some (mergeEntity tags accessKeys (graph.entities name))
      else graph.entities other }

/-- `SET v.document_key = $dk`, unless it is null -/
def signVertex (graph : GraphStore) (name : String) : Option String → GraphStore
  | none => graph
  | some documentKey =>
    { graph with
      entities := fun other =>
        if other = name then
          (graph.entities name).map fun entity => { entity with documentKey := documentKey }
        else graph.entities other }

/-- `MERGE (s)-[r]->(o)`, and `SET r.document_key = $dk` unless it is null -/
def mergeRelation (graph : GraphStore) (triplet : Triplet) (documentKey : Option String) :
    GraphStore :=
  { graph with
    relations := fun other =>
      if other = triplet then
        some { documentKey := documentKey.or ((graph.relations triplet).bind Relation.documentKey) }
      else graph.relations other }

def insertTriplet (documentKey : Option String) (tags : List String) (accessKeys : List Nat)
    (graph : GraphStore) (triplet : Triplet) : GraphStore :=
  let merged := (graph.mergeVertex triplet.subj tags accessKeys).mergeVertex triplet.obj tags
    accessKeys
  let signed := (merged.signVertex triplet.subj documentKey).signVertex triplet.obj documentKey
  signed.mergeRelation triplet documentKey

/-- The triplets without an empty part. -/
def clean (triplets : List Triplet) : List Triplet :=
  triplets.filter fun triplet => triplet.subj ≠ "" ∧ triplet.pred ≠ "" ∧ triplet.obj ≠ ""

def insertTriplets (graph : GraphStore) (triplets : List Triplet) (documentKey : Option String)
    (tags : List String) (accessKeys : List Nat) : GraphStore :=
  (clean triplets).foldl (insertTriplet documentKey tags accessKeys) graph

/-! ## Maintaining a document -/

section

variable (graph : GraphStore) (documentKey : String)

def deleteByDocumentKey : GraphStore :=
  let carried (name : String) : Bool :=
    (graph.entities name).any fun entity => entity.documentKey = some documentKey
  { entities := fun name =>
      (graph.entities name).filter fun entity => entity.documentKey ≠ some documentKey
    relations := fun triplet =>
      (graph.relations triplet).filter fun relation =>
        relation.documentKey ≠ some documentKey ∧ carried triplet.subj = false ∧
          carried triplet.obj = false }

def updateMetadata (tags : Option (List String)) (accessKeys : Option (List Nat)) : GraphStore :=
  { graph with
    entities := fun name => (graph.entities name).map fun entity =>
      if entity.documentKey = some documentKey then
        { entity with
          tags := tags.getD entity.tags
          accessKeys := accessKeys.getD entity.accessKeys }
      else entity }

end

/-! ## Reading triplets -/

/-- The caller may read the entity: it has no access keys, or one of the caller's. -/
def readable (keys : List Nat) (entity : Entity) : Bool :=
  entity.accessKeys.isEmpty || entity.accessKeys.any (· ∈ keys)

/-- Whether a search over all triplets meets this one: one of its ends carries one of the tags, if
any are asked for, and one of its ends may be read. -/
def meets (graph : GraphStore) (tags : List String) (userAccess : Option (List Nat))
    (triplet : Triplet) : Bool :=
  match graph.relations triplet, graph.entities triplet.subj, graph.entities triplet.obj with
  | some _, some subj, some obj =>
    (tags.isEmpty || subj.tags.any (· ∈ tags) || obj.tags.any (· ∈ tags)) &&
      (match userAccess with
        | none => true
        | some keys => readable keys subj || readable keys obj)
  | _, _, _ => false

end GraphStore

/-! ## What the operations do -/

namespace GraphStore

variable {graph : GraphStore} {triplet : Triplet} {name documentKey : String}

def keysOf (graph : GraphStore) (name : String) : List Nat :=
  ((graph.entities name).map Entity.accessKeys).getD []

def carries (graph : GraphStore) (documentKey name : String) : Bool :=
  (graph.entities name).any fun entity => entity.documentKey = some documentKey

@[simp] theorem mem_toSet {α : Type} [DecidableEq α] {items : List α} {item : α} :
    item ∈ toSet items ↔ item ∈ items := mem_dedup

theorem mem_accessKeys_mergeEntity {tags : List String} {accessKeys : List Nat}
    {entity : Option Entity} {key : Nat} :
    key ∈ (mergeEntity tags accessKeys entity).accessKeys ↔
      key ∈ (entity.map Entity.accessKeys).getD [] ∨ key ∈ accessKeys := by
  cases entity with
  | none => simp [mergeEntity]
  | some entity => simp [mergeEntity]

/-- The ends of some triplets. -/
def names (triplets : List Triplet) : List String :=
  triplets.flatMap fun triplet => [triplet.subj, triplet.obj]

@[simp] theorem mem_names_cons {row : Triplet} {rows : List Triplet} :
    name ∈ names (row :: rows) ↔ (name = row.subj ∨ name = row.obj) ∨ name ∈ names rows := by
  simp [names, or_assoc]

/-- **What one row of the insert does**: both ends are there, signed and joined with the access
keys, and so is the relation. -/
theorem insertTriplet_entities (documentKey : String) (tags : List String) (accessKeys : List Nat)
    (graph : GraphStore) (triplet : Triplet) (name : String) :
    if name = triplet.subj ∨ name = triplet.obj then
      ∃ entity, (insertTriplet (some documentKey) tags accessKeys graph triplet).entities name =
          some entity ∧ entity.documentKey = some documentKey ∧
        ∀ key, key ∈ entity.accessKeys ↔ key ∈ graph.keysOf name ∨ key ∈ accessKeys
    else
      (insertTriplet (some documentKey) tags accessKeys graph triplet).entities name =
        graph.entities name := by
  simp only [insertTriplet, mergeRelation, signVertex, mergeVertex]
  by_cases isSubj : name = triplet.subj
  · by_cases isObj : name = triplet.obj
    · simp only [← isSubj, ← isObj, true_or, if_true, Option.map_some, Option.some.injEq,
        exists_eq_left', true_and]
      intro key
      rw [mem_accessKeys_mergeEntity, Option.map_some, Option.getD_some,
        mem_accessKeys_mergeEntity, keysOf, or_assoc, or_self]
    · simp only [← isSubj, if_neg isObj, true_or, if_true, Option.map_some,
        Option.some.injEq, exists_eq_left', true_and]
      intro key
      rw [mem_accessKeys_mergeEntity, keysOf]
  · by_cases isObj : name = triplet.obj
    · have differ : triplet.obj ≠ triplet.subj := fun same => isSubj (isObj.trans same)
      simp only [isObj, if_neg differ, or_true, if_true, Option.map_some, Option.some.injEq,
        exists_eq_left', true_and]
      intro key
      rw [mem_accessKeys_mergeEntity, keysOf]
    · simp only [isSubj, isObj, or_self, if_false]

theorem insertTriplet_relations {tags : List String} {accessKeys : List Nat} (other : Triplet) :
    (insertTriplet (some documentKey) tags accessKeys graph triplet).relations other =
      if other = triplet then some ⟨some documentKey⟩ else graph.relations other := rfl

/-- **What the rows of the insert do together.** -/
theorem foldl_insertTriplet (documentKey : String) (tags : List String) (accessKeys : List Nat)
    (triplets : List Triplet) (graph : GraphStore) :
    (∀ name ∈ names triplets, ∃ entity,
      (triplets.foldl (insertTriplet (some documentKey) tags accessKeys) graph).entities name =
          some entity ∧ entity.documentKey = some documentKey ∧
        ∀ key, key ∈ entity.accessKeys ↔ key ∈ graph.keysOf name ∨ key ∈ accessKeys) ∧
    (∀ name ∉ names triplets,
      (triplets.foldl (insertTriplet (some documentKey) tags accessKeys) graph).entities name =
        graph.entities name) ∧
    ∀ triplet,
      (triplets.foldl (insertTriplet (some documentKey) tags accessKeys) graph).relations triplet =
        if triplet ∈ triplets then some ⟨some documentKey⟩ else graph.relations triplet := by
  induction triplets generalizing graph with
  | nil => exact ⟨nofun, fun _ _ => rfl, fun _ => rfl⟩
  | cons row rows ih =>
    obtain ⟨mentioned, others, relations⟩ :=
      ih (insertTriplet (some documentKey) tags accessKeys graph row)
    refine ⟨?_, ?_, ?_⟩
    · intro name isEnd
      have first := insertTriplet_entities documentKey tags accessKeys graph row name
      have keys : ∀ key, key ∈ (insertTriplet (some documentKey) tags accessKeys graph
          row).keysOf name ∨ key ∈ accessKeys ↔ key ∈ graph.keysOf name ∨ key ∈ accessKeys := by
        intro key
        split at first
        · obtain ⟨entity, here, -, joined⟩ := first
          rw [keysOf, here, Option.map_some, Option.getD_some, joined, or_assoc, or_self]
        · rw [keysOf, first, keysOf]
      by_cases again : name ∈ names rows
      · obtain ⟨entity, here, signed, joined⟩ := mentioned name again
        exact ⟨entity, here, signed, fun key => (joined key).trans (keys key)⟩
      · rw [foldl_cons, others name again]
        rw [if_pos ((mem_names_cons.mp isEnd).resolve_right again)] at first
        exact first
    · intro name isOther
      rw [mem_names_cons, not_or] at isOther
      have first := insertTriplet_entities documentKey tags accessKeys graph row name
      rw [if_neg isOther.1] at first
      rw [foldl_cons, others name isOther.2, first]
    · intro triplet
      rw [foldl_cons, relations triplet, insertTriplet_relations]
      by_cases again : triplet ∈ rows
      · rw [if_pos again, if_pos (mem_cons_of_mem _ again)]
      · rw [if_neg again]
        by_cases here : triplet = row
        · rw [if_pos here, if_pos (mem_cons.mpr (.inl here))]
        · rw [if_neg here, if_neg (fun member => again ((mem_cons.mp member).resolve_left here))]

theorem mem_names_of_mem {triplets : List Triplet} (member : triplet ∈ triplets) :
    triplet.subj ∈ names triplets ∧ triplet.obj ∈ names triplets :=
  ⟨mem_flatMap.mpr ⟨triplet, member, by simp⟩, mem_flatMap.mpr ⟨triplet, member, by simp⟩⟩

theorem deleteByDocumentKey_entities (graph : GraphStore) (documentKey name : String) :
    (graph.deleteByDocumentKey documentKey).entities name =
      if graph.carries documentKey name then none else graph.entities name := by
  cases here : graph.entities name with
  | none => simp [deleteByDocumentKey, carries, here]
  | some entity =>
    by_cases signed : entity.documentKey = some documentKey <;>
      simp [deleteByDocumentKey, carries, here, signed]

def Taken (graph : GraphStore) (documentKey : String) (triplet : Triplet) : Prop :=
  (graph.relations triplet).any (fun relation => relation.documentKey = some documentKey) = true ∨
    graph.carries documentKey triplet.subj = true ∨ graph.carries documentKey triplet.obj = true

instance (graph : GraphStore) (documentKey : String) (triplet : Triplet) :
    Decidable (graph.Taken documentKey triplet) :=
  inferInstanceAs (Decidable (_ ∨ _))

theorem deleteByDocumentKey_relations (graph : GraphStore) (documentKey : String)
    (triplet : Triplet) :
    (graph.deleteByDocumentKey documentKey).relations triplet =
      if graph.Taken documentKey triplet then none else graph.relations triplet := by
  have after : (graph.deleteByDocumentKey documentKey).relations triplet =
      (graph.relations triplet).filter fun relation =>
        relation.documentKey ≠ some documentKey ∧ graph.carries documentKey triplet.subj = false ∧
          graph.carries documentKey triplet.obj = false := rfl
  rw [after]
  cases here : graph.relations triplet with
  | none => simp
  | some relation =>
    cases subj : graph.carries documentKey triplet.subj <;>
      cases obj : graph.carries documentKey triplet.obj <;>
        by_cases signed : relation.documentKey = some documentKey <;>
          simp [Taken, here, subj, obj, signed]

theorem readable_iff {keys : List Nat} {entity : Entity} :
    readable keys entity = true ↔
      entity.accessKeys = [] ∨ ∃ key ∈ keys, key ∈ entity.accessKeys := by
  unfold readable
  rw [Bool.or_eq_true, List.isEmpty_iff, List.any_eq_true]
  simp only [decide_eq_true_eq]
  refine or_congr_right ⟨?_, ?_⟩
  · rintro ⟨key, own, mine⟩
    exact ⟨key, mine, own⟩
  · rintro ⟨key, mine, own⟩
    exact ⟨key, own, mine⟩

end GraphStore

/-! ## The service -/

open GraphStore

/-- The graph after an ingest with these triplets for each chunk: text without chunks changes
nothing, other text replaces what the document has. -/
def ingestDocument (graph : GraphStore) (documentKey : String) (perChunk : List (List Triplet))
    (tags : List String) (accessKeys : List Nat) (useKnowledgeGraph : Bool) : GraphStore :=
  if perChunk = [] then graph
  else
    let purged := graph.deleteByDocumentKey documentKey
    if useKnowledgeGraph then
      purged.insertTriplets perChunk.flatten (some documentKey) tags accessKeys
    else purged

end RedArchKM.Graph
