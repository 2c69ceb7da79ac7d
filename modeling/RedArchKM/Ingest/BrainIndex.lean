import Mathlib.Data.List.Sort

/-!
# The index of a document and the jobs that write it

What the knowledge index holds under one document key: the points of its chunks, its document
records and the chunks its knowledge is sourced from. An accepted submit starts a background job,
which is a list of effects on the index: drop what is there, write the new chunks batch by batch,
write the record, write the knowledge. A metadata update goes over the points page by page.
-/

namespace RedArchKM.Ingest

open List

/-! ## What is stored -/

structure Scoping where
  title : String
  tags : List String
  accessKeys : List Nat
deriving DecidableEq

def publicAccessKeys : List Nat := [0]

/-- The scoping as the index stores it. -/
def Scoping.stored (scoping : Scoping) : Scoping :=
  { scoping with
    accessKeys := if scoping.accessKeys = [] then publicAccessKeys else scoping.accessKeys }

structure Point where
  id : Nat
  text : String
  chunkOrder : Nat
  scoping : Scoping
deriving DecidableEq

def Point.passage (point : Point) : String × Nat := (point.text, point.chunkOrder)

/-- What is stored under the document key. -/
structure Index where
  points : List Point := []
  records : List Scoping := []
  /-- The chunks that some claim or triplet is sourced from. -/
  knowledge : List Nat := []
deriving DecidableEq

/-- The texts of the points, with their places. -/
def Index.passages (index : Index) : List (String × Nat) := index.points.map Point.passage

/-! ## Effects on the index -/

inductive IndexEffect where
  | deleteVectors
  | deleteKnowledge
  | upsertChunks (batch : List (String × Nat)) (scoping : Scoping)
  | upsertDocument (scoping : Scoping)
  | insertKnowledge (sources : List Nat)
deriving DecidableEq

namespace IndexEffect

/-- Whether the effect puts something into the index. -/
def writes : IndexEffect → Bool
  | deleteVectors => false
  | deleteKnowledge => false
  | upsertChunks _ _ => true
  | upsertDocument _ => true
  | insertKnowledge _ => true

/-- Whether an error of the store ends the job. The others are logged. -/
def raises : IndexEffect → Bool
  | upsertChunks _ _ => true
  | upsertDocument _ => true
  | _ => false

def admits (ids : List Nat) (index : Index) : IndexEffect → Prop
  | upsertChunks batch _ =>
    ids.length = batch.length ∧ ids.Nodup ∧ ∀ point ∈ index.points, point.id ∉ ids
  | _ => True

instance (ids : List Nat) (index : Index) (effect : IndexEffect) :
    Decidable (effect.admits ids index) := by
  cases effect <;> unfold admits <;> infer_instance

/-- The effect on the index; `ids` are the ids of the new points. -/
def apply (ids : List Nat) (index : Index) : IndexEffect → Index
  | deleteVectors => { index with points := [], records := [] }
  | deleteKnowledge => { index with knowledge := [] }
  | upsertChunks batch scoping =>
    { index with
      points := index.points ++ ids.zipWith
        (fun id passage => ⟨id, passage.1, passage.2, scoping.stored⟩) batch }
  | upsertDocument scoping => { index with records := index.records ++ [scoping.stored] }
  | insertKnowledge sources =>
    { index with knowledge := index.knowledge ++ sources.filter (· ∉ index.knowledge) }

def passages (passages : List (String × Nat)) : IndexEffect → List (String × Nat)
  | deleteVectors => []
  | upsertChunks batch _ => passages ++ batch
  | _ => passages

theorem zipWith_snd {α β : Type*} {ids : List α} {batch : List β}
    (same : ids.length = batch.length) : ids.zipWith (fun _ passage => passage) batch = batch := by
  induction ids generalizing batch with
  | nil => exact (length_eq_zero_iff.mp same.symm).symm
  | cons id ids ih =>
    cases batch with
    | nil => cases same
    | cons passage batch => rw [zipWith_cons_cons, ih (Nat.succ.inj same)]

theorem passages_apply {ids : List Nat} {index : Index} {effect : IndexEffect}
    (admitted : effect.admits ids index) :
    (effect.apply ids index).passages = effect.passages index.passages := by
  cases effect with
  | deleteVectors => rfl
  | deleteKnowledge => rfl
  | upsertDocument _ => rfl
  | insertKnowledge _ => rfl
  | upsertChunks batch scoping =>
    have same : (ids.zipWith (fun id passage =>
        (⟨id, passage.1, passage.2, scoping.stored⟩ : Point)) batch).map Point.passage = batch := by
      rw [map_zipWith]
      exact zipWith_snd admitted.1
    simp only [Index.passages, apply, passages, map_append, same]

end IndexEffect

/-! ## The ingest of a document -/

/-- What the pipeline and its settings decide. -/
structure Engine where
  /-- The text of an original, by its object key. -/
  extractText : String → String → String
  /-- The chunks of a text, navigational ones dropped. -/
  createChunks : String → List String
  /-- The chunks that a claim or a triplet was found in. -/
  sources : List String → List Nat
  useFactEngine : Bool := true

/-- Points are written this many at a time, and scrolled so. -/
def batchSize : Nat := 500

/-- The items in batches of a size, at most `fuel` of them. -/
def batchedUpTo {α : Type*} (size : Nat) : Nat → List α → List (List α)
  | 0, _ => []
  | _ + 1, [] => []
  | fuel + 1, items => items.take size :: batchedUpTo size fuel (items.drop size)

def batched {α : Type*} (items : List α) (size : Nat) : List (List α) :=
  batchedUpTo size items.length items

theorem flatten_batchedUpTo {α : Type*} {size : Nat} (positive : 0 < size) (fuel : Nat)
    (items : List α) (enough : items.length ≤ fuel) :
    (batchedUpTo size fuel items).flatten = items := by
  induction fuel generalizing items with
  | zero => rw [length_eq_zero_iff.mp (Nat.le_zero.mp enough)]; rfl
  | succ fuel ih =>
    cases items with
    | nil => rfl
    | cons item items =>
      have rest : ((item :: items).drop size).length ≤ fuel := by
        rw [length_drop]
        omega
      rw [batchedUpTo, flatten_cons, ih _ rest, take_append_drop]
      exact cons_ne_nil _ _

theorem flatten_batched {α : Type*} {size : Nat} (positive : 0 < size) (items : List α) :
    (batched items size).flatten = items :=
  flatten_batchedUpTo positive _ items (Nat.le_refl _)

structure IngestRequest where
  text : String
  scoping : Scoping
  useKnowledgeGraph : Bool := true

def removeDocument : List IndexEffect := [.deleteVectors, .deleteKnowledge]

section

variable (engine : Engine) (request : IngestRequest)

/-- The fact engine drops the document's claims once more before it inserts. -/
def extractKnowledge (chunks : List String) : List IndexEffect :=
  if request.useKnowledgeGraph then
    if engine.useFactEngine then [.deleteKnowledge, .insertKnowledge (engine.sources chunks)]
    else [.insertKnowledge (engine.sources chunks)]
  else []

/-- The effects of an ingest. A text without chunks returns before the purge. -/
def ingestDocument : List IndexEffect :=
  let chunks := engine.createChunks request.text
  if chunks = [] then []
  else
    removeDocument ++
      ((batched chunks.zipIdx batchSize).map fun batch => .upsertChunks batch request.scoping) ++
      [.upsertDocument request.scoping] ++ extractKnowledge engine request chunks

end

def passagesAfter (passages : List (String × Nat)) (effects : List IndexEffect) :
    List (String × Nat) :=
  effects.foldl IndexEffect.passages passages

theorem passagesAfter_upserts (passages : List (String × Nat)) (scoping : Scoping)
    (batches : List (List (String × Nat))) :
    passagesAfter passages (batches.map fun batch => .upsertChunks batch scoping) =
      passages ++ batches.flatten := by
  induction batches generalizing passages with
  | nil => simp [passagesAfter]
  | cons batch batches ih =>
    rw [map_cons, flatten_cons, ← append_assoc]
    exact ih (passages ++ batch)

/-- **An ingest that runs to its end leaves the chunks of its text and no others**, if there
are any. -/
theorem passagesAfter_ingestDocument {engine : Engine} {request : IngestRequest}
    (chunked : engine.createChunks request.text ≠ []) (passages : List (String × Nat)) :
    passagesAfter passages (ingestDocument engine request) =
      (engine.createChunks request.text).zipIdx := by
  have record : ∀ left, passagesAfter left [.upsertDocument request.scoping] = left := fun _ => rfl
  have knowledge : ∀ left, passagesAfter left
      (extractKnowledge engine request (engine.createChunks request.text)) = left := by
    intro left
    unfold extractKnowledge
    split
    · split <;> rfl
    · rfl
  have removed : passagesAfter passages removeDocument = [] := rfl
  have upserts := passagesAfter_upserts [] request.scoping
  unfold passagesAfter at *
  simp only [ingestDocument, chunked, if_false, foldl_append]
  rw [removed, upserts, record, knowledge, nil_append, flatten_batched (by decide)]

/-! ## A metadata update -/

section

variable (points : List Point)

def scroll (offset : Nat) : List Nat × Option Nat :=
  let ids := ((points.map Point.id).filter (offset ≤ ·)).insertionSort (· ≤ ·)
  (ids.take batchSize, ids[batchSize]?)

def setPayload (ids : List Nat) (scoping : Scoping) : List Point :=
  points.map fun point => if point.id ∈ ids then { point with scoping := scoping.stored } else point

@[simp] theorem passages_setPayload (ids : List Nat) (scoping : Scoping) :
    (setPayload points ids scoping).map Point.passage = points.map Point.passage := by
  rw [setPayload, map_map]
  refine map_congr_left fun point _ => ?_
  simp only [Function.comp_apply]
  split <;> rfl

end

theorem mem_scroll {points : List Point} {offset : Nat} {point : Point} (member : point ∈ points)
    (reached : offset ≤ point.id)
    (inside : ∀ next, (scroll points offset).2 = some next → point.id < next) :
    point.id ∈ (scroll points offset).1 := by
  obtain ⟨ids, isIds⟩ :
      ∃ ids, ids = ((points.map Point.id).filter (offset ≤ ·)).insertionSort (· ≤ ·) := ⟨_, rfl⟩
  have sorted : ids.Pairwise (· ≤ ·) := isIds ▸ pairwise_insertionSort _ _
  have among : point.id ∈ ids := by
    rw [isIds, mem_insertionSort, mem_filter]
    exact ⟨mem_map_of_mem member, by simpa using reached⟩
  simp only [scroll, ← isIds] at inside ⊢
  obtain ⟨k, bound, found⟩ := mem_iff_getElem.mp among
  by_cases early : k < batchSize
  · exact mem_take_iff_getElem.mpr ⟨k, by omega, found⟩
  · have full : batchSize < ids.length := by omega
    have next := inside ids[batchSize] (getElem?_eq_getElem full)
    have ordered : ids[batchSize] ≤ ids[k] := by
      rcases Nat.lt_or_eq_of_le (Nat.le_of_not_lt early) with before | same
      · exact pairwise_iff_getElem.mp sorted _ _ full bound before
      · simp only [same, Nat.le_refl]
    omega

end RedArchKM.Ingest
