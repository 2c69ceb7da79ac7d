import RedArchKM.Text.SpeechChunks

/-!
# Spoken summaries

A summary is streamed to a screen by its deltas and to a voice by its clauses, each clause with an
index that tells the voice where it belongs.

The index is read off the chunker after the push that completed the clause. So the clauses come in
order, but those of one push all get the number of the last one, and the indices are right exactly if
no delta completes two clauses (`numbersClauses_iff`).
-/

namespace RedArchKM.Text.SpokenSummary

open Text.Speech List

/-- What reaches the sinks. -/
inductive Emission
  | delta (text : List Char)
  | chunk (clause : List Char) (index : Nat)

section Streaming

variable (minChars maxChars : Nat)

def emitted (onDelta : Bool) (delta : List Char) (chunker : Chunker) : List Emission :=
  let (clauses, chunker) := push minChars maxChars delta chunker
  (if onDelta then [.delta delta] else []) ++
    clauses.map fun clause => .chunk clause (chunker.emitted - 1)

/-- The emissions of the stream, whose chunks may come without a content, and of the final flush. -/
def emissions (onDelta : Bool) : List (Option (List Char)) → Chunker → List Emission
  | [], chunker =>
    (flush chunker).toList.map fun tail => .chunk tail ((cutAt chunker chunker.buf.length).emitted - 1)
  | content :: contents, chunker =>
    match content.filter (!·.isEmpty) with
    | none => emissions onDelta contents chunker
    | some delta =>
      emitted minChars maxChars onDelta delta chunker ++
        emissions onDelta contents (push minChars maxChars delta chunker).2

end Streaming

/-- The deltas of a stream: `pieces`. -/
def pieces (contents : List (Option (List Char))) : List (List Char) :=
  contents.filterMap (Option.filter (!·.isEmpty))

/-- `summarize_for_speech` with a sink for clauses: what it emits, and the summary. -/
def summarizeForSpeech (text : List Char) (onDelta : Bool) (contents : List (Option (List Char))) :
    List Emission × List Char :=
  let spoken := strip (pieces contents).flatten
  (emissions 60 240 onDelta contents {}, if spoken.isEmpty then strip text else spoken)

/-- The calls of `on_chunk`. -/
def chunkCalls (emissions : List Emission) : List (List Char × Nat) :=
  emissions.filterMap fun
    | .delta _ => none
    | .chunk clause index => some (clause, index)

/-- What each push returns. -/
def pushes (minChars maxChars : Nat) : List (List Char) → Chunker → List (List (List Char))
  | [], _ => []
  | delta :: deltas, chunker =>
    (push minChars maxChars delta chunker).1 ::
      pushes minChars maxChars deltas (push minChars maxChars delta chunker).2

/-! ## Counting clauses -/

section Numbering

variable {minChars maxChars : Nat} {chunker : Chunker}

theorem emitted_cutAt (cut : Nat) :
    (cutAt chunker cut).emitted = chunker.emitted + (chunkAt chunker cut).toList.length := by
  unfold cutAt
  cases chunkAt chunker cut <;> rfl

theorem emitted_drain {fuel : Nat} :
    (drain minChars maxChars fuel chunker).2.emitted =
      chunker.emitted + (drain minChars maxChars fuel chunker).1.length := by
  induction fuel generalizing chunker with
  | zero => rfl
  | succ fuel ih =>
    unfold drain
    split
    · rfl
    · rw [ih, emitted_cutAt, length_append, Nat.add_assoc]

theorem emitted_push {delta : List Char} :
    (push minChars maxChars delta chunker).2.emitted =
      chunker.emitted + (push minChars maxChars delta chunker).1.length := by
  unfold push
  split
  · rfl
  · exact emitted_drain

theorem map_eq_zipIdx_iff {clauses : List (List Char)} {number : Nat} :
    clauses.map (·, number + clauses.length - 1) = clauses.zipIdx number ↔ clauses.length ≤ 1 := by
  match clauses with
  | [] => simp
  | [clause] => simp
  | first :: second :: rest =>
    simp only [map_cons, zipIdx_cons, length_cons, List.cons.injEq, Prod.mk.injEq]
    omega

theorem chunkCalls_append (first rest : List Emission) :
    chunkCalls (first ++ rest) = chunkCalls first ++ chunkCalls rest := filterMap_append

theorem chunkCalls_emitted {onDelta : Bool} {delta : List Char} :
    chunkCalls (emitted minChars maxChars onDelta delta chunker) =
      (push minChars maxChars delta chunker).1.map
        (·, chunker.emitted + (push minChars maxChars delta chunker).1.length - 1) := by
  unfold emitted
  rw [chunkCalls_append, ← emitted_push]
  cases onDelta <;> simp [chunkCalls, filterMap_map]

theorem chunkCalls_emissions {onDelta : Bool} (contents : List (Option (List Char))) :
    (chunkCalls (emissions minChars maxChars onDelta contents chunker)).map Prod.fst =
        speak minChars maxChars (pieces contents) chunker ∧
      (chunkCalls (emissions minChars maxChars onDelta contents chunker) =
          (speak minChars maxChars (pieces contents) chunker).zipIdx chunker.emitted ↔
        ∀ clauses ∈ pushes minChars maxChars (pieces contents) chunker, clauses.length ≤ 1) := by
  induction contents generalizing chunker with
  | nil =>
    simp only [emissions, emitted_cutAt, pieces, filterMap_nil, speak, pushes]
    unfold flush
    cases chunkAt chunker chunker.buf.length <;> simp [chunkCalls]
  | cons content contents ih =>
    unfold emissions pieces
    rw [filterMap_cons]
    cases content.filter (!·.isEmpty) with
    | none => exact ih
    | some delta =>
      obtain ⟨inOrder, numbered⟩ := @ih (push minChars maxChars delta chunker).2
      simp only [chunkCalls_append, chunkCalls_emitted, speak, pushes, forall_mem_cons]
      refine ⟨by rw [map_append, map_map]; exact congrArg₂ _ (map_id _) inOrder, ?_⟩
      rw [zipIdx_append, ← @map_eq_zipIdx_iff _ chunker.emitted]
      rw [emitted_push] at numbered
      refine Iff.trans ⟨fun same => ?_, fun both => ?_⟩ (and_congr_right' numbered)
      · exact append_inj same (by rw [length_map, length_zipIdx])
      · rw [both.1, both.2]
        rfl

end Numbering

/-- **The voice gets the clauses of the chunker in order, and they are numbered without gap or repeat
exactly if no delta completes two of them.** -/
theorem numbersClauses_iff (text : List Char) (onDelta : Bool)
    (contents : List (Option (List Char))) :
    (chunkCalls (summarizeForSpeech text onDelta contents).1).map Prod.fst =
        speak 60 240 (pieces contents) {} ∧
      (chunkCalls (summarizeForSpeech text onDelta contents).1 =
          (speak 60 240 (pieces contents) {}).zipIdx ↔
        ∀ clauses ∈ pushes 60 240 (pieces contents) {}, clauses.length ≤ 1) :=
  chunkCalls_emissions contents

theorem not_numbersClauses_burst :
    let contents := [some ("Certainly, here is what the two reports say about the matter. " ++
      "The first report finds that the whole north wing is to be closed. Go.").toList]
    chunkCalls (summarizeForSpeech [] false contents).1 ≠
      (speak 60 240 (pieces contents) {}).zipIdx := by
  decide +kernel

end RedArchKM.Text.SpokenSummary
