import RedArchKM.Lib.Packing

/-!
# Chunks of sentences

A text is split into sentences, which are packed into chunks of at most `chunkSizeTokens` tokens.
Each chunk opens with the last sentences of the one before it, of at most `overlapTokens` tokens. A
guard stops the loop after `maxIterations` rounds.

The loop is that of the packing library (`chunkLoop_eq`). It ends within the guard exactly if every
sentence fits beside the sentences before it that an overlap holds (`RoomBeside`), and if the rounds
for the sentences and for the closed chunks are no more than the guard allows.
-/

namespace RedArchKM.Text

open List

open Lib (Packing)

/-- The sentence splitter of a language, and how many tokens a sentence has. -/
structure Splitter where
  split : String → List String
  tokens : String → Nat

inductive ChunkError where
  /-- `chunk_size_tokens must be greater than overlap_tokens` -/
  | overlapTooLarge
  /-- `Iteration limit exceeded — possible infinite loop` -/
  | iterationLimit

def maxIterations : Nat := 10000000

/-- `" ".join` -/
def joined (sentences : List String) : String := " ".intercalate sentences

structure ChunkState where
  chunks : List String := []
  currentChunk : List String := []
  currentTokenCount : Nat := 0
  i : Nat := 0

section Loop

variable (sentences : List String) (lengths : List Nat) (chunkSizeTokens overlapTokens : Nat)

/-- The loop over `j`, which is one less than the first argument. -/
def overlapFrom (i : Nat) (currentChunk : List String) :
    Nat → List String → Nat → List String × Nat
  | 0, overlapChunk, overlapTokenCount => (overlapChunk, overlapTokenCount)
  | j + 1, overlapChunk, overlapTokenCount =>
    let length := lengths.getD (i - (currentChunk.length - j)) 0
    if overlapTokenCount + length > overlapTokens then (overlapChunk, overlapTokenCount)
    else
      overlapFrom i currentChunk j (currentChunk.getD j "" :: overlapChunk)
        (overlapTokenCount + length)

/-- One round of the loop over the sentences. -/
def chunkStep (state : ChunkState) : ChunkState :=
  let sentence := sentences.getD state.i ""
  let tokenCount := lengths.getD state.i 0
  if tokenCount > chunkSizeTokens then
    { chunks := (if state.currentChunk.isEmpty then state.chunks
        else state.chunks ++ [joined state.currentChunk]) ++ [sentence]
      currentChunk := []
      currentTokenCount := 0
      i := state.i + 1 }
  else if state.currentTokenCount + tokenCount ≤ chunkSizeTokens then
    { state with
      currentChunk := state.currentChunk ++ [sentence]
      currentTokenCount := state.currentTokenCount + tokenCount
      i := state.i + 1 }
  else
    let overlap := overlapFrom lengths overlapTokens state.i state.currentChunk
      state.currentChunk.length [] 0
    { state with
      chunks := state.chunks ++ [joined state.currentChunk]
      currentChunk := overlap.1
      currentTokenCount := overlap.2 }

/-- The chunks, unless the loop goes on after the given rounds. -/
def chunkLoop : Nat → ChunkState → Except ChunkError (List String)
  | iterations, state =>
    if state.i < sentences.length then
      match iterations with
      | 0 => .error .iterationLimit
      | iterations + 1 =>
        chunkLoop iterations (chunkStep sentences lengths chunkSizeTokens overlapTokens state)
    else if state.currentChunk.isEmpty then .ok state.chunks
    else .ok (state.chunks ++ [joined state.currentChunk])

end Loop

def createSentenceBasedOverlappingChunks (splitter : Splitter) (fullText : String)
    (chunkSizeTokens overlapTokens : Nat) : Except ChunkError (List String) :=
  if fullText.isEmpty then .ok []
  else if chunkSizeTokens ≤ overlapTokens then .error .overlapTooLarge
  else
    let sentences := splitter.split fullText
    chunkLoop sentences (sentences.map splitter.tokens) chunkSizeTokens overlapTokens maxIterations
      {}

/-! ## The loop packs sentences -/

section Packs

variable (tokens : String → Nat) (chunkSizeTokens overlapTokens : Nat)

def tokensOf (sentences : List String) : Nat := (sentences.map tokens).sum

/-- The sentence belongs to the overlap, beside those already taken. -/
def overlaps (taken : List String) (sentence : String) : Bool :=
  tokensOf tokens taken + tokens sentence ≤ overlapTokens

theorem overlaps_less (sentence : String) (taken : List String) (next : String)
    (isTaken : overlaps tokens overlapTokens (sentence :: taken) next = true) :
    overlaps tokens overlapTokens taken next = true := by
  have bound : tokensOf tokens (sentence :: taken) + tokens next ≤ overlapTokens :=
    of_decide_eq_true isTaken
  have count : tokensOf tokens (sentence :: taken) = tokens sentence + tokensOf tokens taken := rfl
  exact decide_eq_true (by omega)

def chunkPacking : Packing String :=
  .ofAdmits tokens chunkSizeTokens (overlaps tokens overlapTokens)
    (overlaps_less tokens overlapTokens)

variable {tokens chunkSizeTokens overlapTokens} {sentences : List String}

theorem tokensOf_reverse (sentences : List String) :
    tokensOf tokens sentences.reverse = tokensOf tokens sentences := by
  rw [tokensOf, map_reverse, sum_reverse, tokensOf]

theorem tokensOf_append (sentences more : List String) :
    tokensOf tokens (sentences ++ more) = tokensOf tokens sentences + tokensOf tokens more := by
  rw [tokensOf, map_append, sum_append, tokensOf, tokensOf]

theorem tokensOf_cons (sentence : String) (sentences : List String) :
    tokensOf tokens (sentence :: sentences) = tokens sentence + tokensOf tokens sentences := rfl

theorem tokensOf_concat (sentences : List String) (sentence : String) :
    tokensOf tokens (sentences ++ [sentence]) = tokensOf tokens sentences + tokens sentence := by
  rw [tokensOf_append, tokensOf_cons]
  rfl

theorem tokens_le_of_mem {sentence : String} (member : sentence ∈ sentences) :
    tokens sentence ≤ tokensOf tokens sentences := by
  obtain ⟨before, rest, rfl⟩ := append_of_mem member
  rw [tokensOf_append, tokensOf_cons]
  omega

theorem overlapFrom_eq {before left taken rest : List String}
    (same : sentences = before ++ (left ++ taken) ++ rest) :
    overlapFrom (sentences.map tokens) overlapTokens (before ++ (left ++ taken)).length
        (left ++ taken) left.length taken (tokensOf tokens taken) =
      ((Packing.admitted (overlaps tokens overlapTokens) taken.reverse left.reverse).reverse ++ taken,
        tokensOf tokens ((Packing.admitted (overlaps tokens overlapTokens) taken.reverse
          left.reverse).reverse ++ taken)) := by
  induction left using List.reverseRecOn generalizing taken with
  | nil => rfl
  | append_singleton left sentence ih =>
    have position : (before ++ (left ++ [sentence] ++ taken)).length -
        ((left ++ [sentence] ++ taken).length - left.length) = (before ++ left).length := by
      simp only [length_append, length_singleton]
      omega
    have length : (sentences.map tokens).getD (before ++ left).length 0 = tokens sentence := by
      rw [same]
      simp [getD_eq_getElem?_getD]
    have isSentence : (left ++ [sentence] ++ taken).getD left.length "" = sentence := by
      simp [getD_eq_getElem?_getD]
    have count : (left ++ [sentence]).length = left.length + 1 := length_append
    rw [count, overlapFrom, position, length, isSentence, reverse_append,
      reverse_singleton, singleton_append, Packing.admitted_cons]
    by_cases tooMuch : tokensOf tokens taken + tokens sentence > overlapTokens
    · have notTaken : overlaps tokens overlapTokens taken.reverse sentence = false := by
        rw [overlaps, tokensOf_reverse]
        exact decide_eq_false (Nat.not_le.mpr tooMuch)
      rw [if_pos tooMuch, notTaken]
      rfl
    · have isTaken : overlaps tokens overlapTokens taken.reverse sentence = true := by
        rw [overlaps, tokensOf_reverse]
        exact decide_eq_true (Nat.not_lt.mp tooMuch)
      have regroup : left ++ [sentence] ++ taken = left ++ sentence :: taken := by simp
      have tokensTaken : tokensOf tokens taken + tokens sentence =
          tokensOf tokens (sentence :: taken) := Nat.add_comm _ _
      rw [if_neg tooMuch, isTaken, regroup, tokensTaken, ih (by rw [same, regroup]), reverse_cons]
      simp

/-- A round on the sentences from `block` on. -/
def stateOf (tokens : String → Nat) (blocks : List (List String)) (before block : List String) :
    ChunkState where
  chunks := blocks.map joined
  currentChunk := block
  currentTokenCount := tokensOf tokens block
  i := (before ++ block).length

theorem chunkLoop_end {iterations : Nat} {blocks : List (List String)}
    {before block : List String} (same : sentences = before ++ block) :
    chunkLoop sentences (sentences.map tokens) chunkSizeTokens overlapTokens iterations
      (stateOf tokens blocks before block) = .ok ((blocks ++ Packing.closed block).map joined) := by
  have ended : ¬(stateOf tokens blocks before block).i < sentences.length := by
    rw [same]
    exact Nat.lt_irrefl _
  unfold chunkLoop
  rw [if_neg ended]
  cases block with
  | nil => simp [stateOf]
  | cons first others => simp [stateOf, Packing.closed]

section Rounds

variable {blocks : List (List String)} {before block rest : List String} {sentence : String}
  (same : sentences = before ++ block ++ sentence :: rest)

include same

theorem getD_sentence : sentences.getD (before ++ block).length "" = sentence := by
  rw [same]
  simp [getD_eq_getElem?_getD]

theorem getD_tokens : (sentences.map tokens).getD (before ++ block).length 0 = tokens sentence := by
  rw [same]
  simp [getD_eq_getElem?_getD]

theorem chunkStep_heavy (heavy : tokens sentence > chunkSizeTokens) :
    chunkStep sentences (sentences.map tokens) chunkSizeTokens overlapTokens
        (stateOf tokens blocks before block) =
      stateOf tokens (blocks ++ Packing.closed block ++ [[sentence]]) (before ++ block ++ [sentence])
        [] := by
  unfold chunkStep stateOf
  rw [getD_tokens same, getD_sentence same, if_pos heavy]
  cases block with
  | nil => simp [joined, tokensOf]
  | cons first others => simp [Packing.closed, joined, tokensOf, Nat.add_assoc]

theorem chunkStep_beside (light : ¬tokens sentence > chunkSizeTokens)
    (beside : tokensOf tokens block + tokens sentence ≤ chunkSizeTokens) :
    chunkStep sentences (sentences.map tokens) chunkSizeTokens overlapTokens
        (stateOf tokens blocks before block) =
      stateOf tokens blocks before (block ++ [sentence]) := by
  unfold chunkStep stateOf
  rw [getD_tokens same, getD_sentence same, if_neg light, if_pos beside, tokensOf_append,
    ← append_assoc]
  simp [tokensOf, Nat.add_assoc]

theorem chunkStep_close (light : ¬tokens sentence > chunkSizeTokens)
    (beside : ¬tokensOf tokens block + tokens sentence ≤ chunkSizeTokens) {dropped tail : List String}
    (isTail : (chunkPacking tokens chunkSizeTokens overlapTokens).tail block = tail)
    (split : block = dropped ++ tail) :
    chunkStep sentences (sentences.map tokens) chunkSizeTokens overlapTokens
        (stateOf tokens blocks before block) =
      stateOf tokens (blocks ++ [block]) (before ++ dropped) tail := by
  have overlap : overlapFrom (sentences.map tokens) overlapTokens (before ++ block).length block
      block.length [] 0 = (tail, tokensOf tokens tail) := by
    have whole : sentences = before ++ (block ++ []) ++ sentence :: rest := by
      rw [same, append_nil]
    have taken := @overlapFrom_eq tokens overlapTokens sentences before block [] _ whole
    rw [append_nil, append_nil] at taken
    rwa [← isTail]
  unfold chunkStep stateOf
  rw [getD_tokens same, if_neg light, if_neg beside, overlap, append_assoc, ← split]
  simp

end Rounds

/-- The texts of the blocks, if the guard let them be packed. -/
def returned : Option (List (List String)) → Except ChunkError (List String)
  | some blocks => .ok (blocks.map joined)
  | none => .error .iterationLimit

/-- **The loop packs the sentences.** -/
theorem chunkLoop_eq {iterations : Nat} {blocks : List (List String)}
    {before block rest : List String} (same : sentences = before ++ block ++ rest) :
    chunkLoop sentences (sentences.map tokens) chunkSizeTokens overlapTokens iterations
        (stateOf tokens blocks before block) =
      returned ((chunkPacking tokens chunkSizeTokens overlapTokens).loop iterations blocks block
        rest) := by
  induction iterations generalizing blocks before block rest with
  | zero =>
    cases rest with
    | nil => exact chunkLoop_end (by rw [same, append_nil])
    | cons sentence rest =>
      unfold chunkLoop
      rw [if_pos]
      · rfl
      · rw [same]
        simp [stateOf]
  | succ iterations ih =>
    cases rest with
    | nil => exact chunkLoop_end (by rw [same, append_nil])
    | cons sentence rest =>
      have goesOn : (stateOf tokens blocks before block).i < sentences.length := by
        rw [same]
        simp [stateOf]
      let packing := chunkPacking tokens chunkSizeTokens overlapTokens
      unfold chunkLoop
      rw [if_pos goesOn]
      by_cases heavy : tokens sentence > chunkSizeTokens
      · rw [chunkStep_heavy same heavy, packing.loop_heavy heavy]
        exact ih (by rw [same]; simp)
      · by_cases beside : tokensOf tokens block + tokens sentence ≤ chunkSizeTokens
        · rw [chunkStep_beside same heavy beside, packing.loop_beside heavy beside]
          exact ih (by rw [same]; simp)
        · obtain ⟨dropped, split⟩ := packing.tail_suffix block
          rw [chunkStep_close same heavy beside rfl split.symm, packing.loop_close heavy beside]
          have whole : before ++ dropped ++ packing.tail block = before ++ block := by
            rw [append_assoc, split]
          exact ih (by rw [same, ← whole])

/-! ## Overlaps -/

theorem admitted_le {taken items : List String} (within : tokensOf tokens taken ≤ overlapTokens) :
    tokensOf tokens taken +
        tokensOf tokens (Packing.admitted (overlaps tokens overlapTokens) taken items) ≤
      overlapTokens := by
  induction items generalizing taken with
  | nil => exact within
  | cons sentence rest ih =>
    rw [Packing.admitted_cons]
    split
    · rename_i isTaken
      have fits : tokensOf tokens taken + tokens sentence ≤ overlapTokens :=
        of_decide_eq_true isTaken
      rw [← tokensOf_concat] at fits
      have later := ih fits
      rw [tokensOf_concat] at later
      rw [tokensOf_cons]
      omega
    · exact within

theorem prefix_admitted {taken some items : List String}
    (within : tokensOf tokens taken + tokensOf tokens some ≤ overlapTokens)
    (isPrefix : some <+: items) :
    some <+: Packing.admitted (overlaps tokens overlapTokens) taken items := by
  induction items generalizing taken some with
  | nil =>
    rw [prefix_nil.mp isPrefix]
    exact nil_prefix
  | cons sentence rest ih =>
    cases some with
    | nil => exact nil_prefix
    | cons first others =>
      obtain ⟨rfl, isLater⟩ := cons_prefix_cons.mp isPrefix
      rw [tokensOf_cons] at within
      have isTaken : overlaps tokens overlapTokens taken first = true :=
        decide_eq_true (by omega)
      have beside : tokensOf tokens (taken ++ [first]) + tokensOf tokens others ≤
          overlapTokens := by
        rw [tokensOf_concat]
        omega
      rw [Packing.admitted_cons, if_pos isTaken]
      exact (prefix_cons_inj first).mpr (ih beside isLater)

theorem tokensOf_tail (block : List String) :
    tokensOf tokens ((chunkPacking tokens chunkSizeTokens overlapTokens).tail block) ≤
      overlapTokens := by
  have within := @admitted_le tokens overlapTokens [] block.reverse (Nat.zero_le _)
  rw [show tokensOf tokens [] = 0 from rfl, Nat.zero_add] at within
  change tokensOf tokens (Packing.admitted _ [] block.reverse).reverse ≤ overlapTokens
  rwa [tokensOf_reverse]

theorem suffix_tail {some block : List String} (within : tokensOf tokens some ≤ overlapTokens)
    (suffix : some <:+ block) :
    some <:+ (chunkPacking tokens chunkSizeTokens overlapTokens).tail block := by
  rw [← reverse_prefix]
  change some.reverse <+: (Packing.admitted _ [] block.reverse).reverse.reverse
  rw [reverse_reverse]
  refine prefix_admitted ?_ (List.reverse_prefix.mpr suffix)
  rwa [tokensOf_reverse, show tokensOf tokens [] = 0 from rfl, Nat.zero_add]

variable (tokens chunkSizeTokens overlapTokens) in
/-- **There is room**: every sentence that a chunk can hold fits into one beside the sentences before
it, as many as an overlap can hold. -/
def RoomBeside (sentences : List String) : Prop :=
  ∀ before shared sentence rest, sentences = before ++ shared ++ sentence :: rest →
    tokensOf tokens shared ≤ overlapTokens → tokens sentence ≤ chunkSizeTokens →
      tokensOf tokens shared + tokens sentence ≤ chunkSizeTokens

theorem fits_iff (smaller : overlapTokens < chunkSizeTokens) :
    (chunkPacking tokens chunkSizeTokens overlapTokens).Fits sentences ↔
      RoomBeside tokens chunkSizeTokens overlapTokens sentences := by
  let packing := chunkPacking tokens chunkSizeTokens overlapTokens
  constructor
  · intro fits before shared sentence rest same within light
    have allLight : ∀ item ∈ shared, ¬packing.weight item > packing.size := by
      intro item member
      have single : tokens item ≤ tokensOf tokens shared := tokens_le_of_mem member
      change ¬tokens item > chunkSizeTokens
      omega
    have isRun : shared <:+ packing.run (before ++ shared) := by
      rw [packing.run_append allLight]
      exact suffix_append _ _
    have inTail : shared <:+ packing.tail (packing.run (before ++ shared)) :=
      suffix_tail within isRun
    have larger := packing.total_le_of_suffix inTail
    exact Nat.le_trans (Nat.add_le_add_right larger _)
      (fits (before ++ shared) sentence rest same light)
  · intro room before sentence rest same light
    obtain ⟨earlier, split⟩ := (packing.tail_suffix (packing.run before)).trans
      (packing.run_suffix before)
    have whole : sentences = earlier ++ packing.tail (packing.run before) ++ sentence :: rest := by
      rwa [split]
    exact room earlier _ sentence rest whole (tokensOf_tail _) light

end Packs

/-! ## Chunks -/

variable (splitter : Splitter)

/-- The sentences of a text; one without characters has none. -/
def sentencesOf (fullText : String) : List String :=
  if fullText.isEmpty then [] else splitter.split fullText

/-- A chunk opens with the last sentences of the one before it, within the overlap. -/
def SharesTail (overlapTokens : Nat) (previous shared : List String) : Prop :=
  shared <:+ previous ∧ tokensOf splitter.tokens shared ≤ overlapTokens

def WithinSize (chunkSizeTokens : Nat) (chunk : List String) : Prop :=
  tokensOf splitter.tokens chunk ≤ chunkSizeTokens ∨ ∃ sentence, chunk = [sentence]

section

variable (chunkSizeTokens overlapTokens : Nat) (fullText : String)

/-- The text is chunked, and the chunks are its sentences in order: each opens with the tail that it
shares with the one before it, and goes on with sentences that are next. -/
def Chunked : Prop :=
  ∃ blocks,
    createSentenceBasedOverlappingChunks splitter fullText chunkSizeTokens overlapTokens =
      .ok (blocks.map joined) ∧
    Packing.Covers (SharesTail splitter overlapTokens) (WithinSize splitter chunkSizeTokens) []
      blocks (sentencesOf splitter fullText)

/-- The rounds of the loop: one for each sentence, and one more if it closes a chunk. -/
def roundsOf : Nat :=
  (chunkPacking splitter.tokens chunkSizeTokens overlapTokens).rounds []
    (sentencesOf splitter fullText)

theorem roundsOf_le : roundsOf splitter chunkSizeTokens overlapTokens fullText ≤
      2 * (sentencesOf splitter fullText).length :=
  Packing.rounds_le _ [] _

end

variable {splitter} {fullText : String} {chunkSizeTokens overlapTokens : Nat}

theorem createChunks_eq (smaller : overlapTokens < chunkSizeTokens) :
    createSentenceBasedOverlappingChunks splitter fullText chunkSizeTokens overlapTokens =
      returned ((chunkPacking splitter.tokens chunkSizeTokens overlapTokens).loop maxIterations [] []
        (sentencesOf splitter fullText)) := by
  unfold createSentenceBasedOverlappingChunks sentencesOf
  by_cases isEmpty : fullText.isEmpty
  · rw [if_pos isEmpty, if_pos isEmpty, Packing.loop_nil]
    rfl
  · rw [if_neg isEmpty, if_neg isEmpty, if_neg (Nat.not_le.mpr smaller)]
    have same : splitter.split fullText = [] ++ [] ++ splitter.split fullText := rfl
    exact @chunkLoop_eq splitter.tokens chunkSizeTokens overlapTokens _ maxIterations [] [] [] _ same

theorem createChunks_ok_iff (smaller : overlapTokens < chunkSizeTokens) {chunks : List String} :
    createSentenceBasedOverlappingChunks splitter fullText chunkSizeTokens overlapTokens =
        .ok chunks ↔
      RoomBeside splitter.tokens chunkSizeTokens overlapTokens (sentencesOf splitter fullText) ∧
        roundsOf splitter chunkSizeTokens overlapTokens fullText ≤ maxIterations ∧
        chunks = ((chunkPacking splitter.tokens chunkSizeTokens overlapTokens).pack []
          (sentencesOf splitter fullText)).map joined := by
  rw [createChunks_eq smaller, ← fits_iff smaller]
  constructor
  · intro ended
    generalize isLoop : Packing.loop _ _ _ _ _ = blocks at ended
    cases blocks with
    | none => cases ended
    | some blocks =>
      obtain ⟨fits, enough, rfl⟩ := (Packing.loop_eq_some_iff _).mp isLoop
      exact ⟨fits, enough, (Except.ok.inj ended).symm⟩
  · rintro ⟨fits, enough, rfl⟩
    rw [(Packing.loop_eq_some_iff _).mpr ⟨fits, enough, rfl⟩]
    rfl

/-- **A text is chunked exactly if there is room beside every overlap**, and the guard allows the
rounds for its sentences. -/
theorem chunked_iff (splitter : Splitter) (fullText : String) (chunkSizeTokens overlapTokens : Nat)
    (smaller : overlapTokens < chunkSizeTokens) :
    Chunked splitter chunkSizeTokens overlapTokens fullText ↔
      RoomBeside splitter.tokens chunkSizeTokens overlapTokens (sentencesOf splitter fullText) ∧
        roundsOf splitter chunkSizeTokens overlapTokens fullText ≤ maxIterations := by
  constructor
  · rintro ⟨blocks, isChunks, _⟩
    obtain ⟨room, enough, _⟩ := (createChunks_ok_iff smaller).mp isChunks
    exact ⟨room, enough⟩
  · rintro ⟨room, enough⟩
    let packing := chunkPacking splitter.tokens chunkSizeTokens overlapTokens
    refine ⟨packing.pack [] (sentencesOf splitter fullText),
      (createChunks_ok_iff smaller).mpr ⟨room, enough, rfl⟩, ?_⟩
    have covers : Packing.Covers packing.Shares packing.Limited [] (packing.pack ([] ++ [])
        (sentencesOf splitter fullText)) ([] ++ sentencesOf splitter fullText) :=
      packing.covers_pack (packing.fitsFrom_nil_iff.mpr ((fits_iff smaller).mpr room)) (.inl rfl)
        (fun _ => rfl) (Nat.zero_le _)
    refine covers.mono (fun previous shared shares => ?_) (fun block limited => limited)
    rcases shares with rfl | rfl
    · exact ⟨nil_suffix, Nat.zero_le _⟩
    · exact ⟨packing.tail_suffix previous, tokensOf_tail previous⟩

/-! ## A short sentence between long ones -/

/-- Sentences of one word, with a token for each character. -/
def letters : Splitter where
  split text := (text.toList.splitOn ' ').map String.ofList
  tokens sentence := sentence.length

theorem sentencesOf_letters : sentencesOf letters "Abcd. Ef. Ghij." = ["Abcd.", "Ef.", "Ghij."] := by
  decide +kernel

/-- An overlap of three tokens leaves room for the next sentence, if a chunk has eight. -/
theorem chunked_iff_letters : Chunked letters 8 3 "Abcd. Ef. Ghij." := by
  refine (chunked_iff letters "Abcd. Ef. Ghij." 8 3 (by decide)).mpr ⟨?_, ?_⟩
  · rw [sentencesOf_letters, ← fits_iff (by decide), ← Packing.fitsFrom_nil_iff]
    decide +kernel
  · have few := roundsOf_le letters 8 3 "Abcd. Ef. Ghij."
    exact Nat.le_trans few (by decide)

/-- **A sentence that does not fit beside the overlap stops the chunking**: the loop closes the
overlap as a chunk of its own, and takes the same overlap again. -/
theorem not_chunked_letters : ¬Chunked letters 7 3 "Abcd. Ef. Ghij." := by
  rintro ⟨blocks, isChunks, _⟩
  obtain ⟨room, _⟩ := (createChunks_ok_iff (by decide)).mp isChunks
  have tooMuch := room ["Abcd."] ["Ef."] "Ghij." [] rfl (by decide) (by decide)
  revert tooMuch
  decide

end RedArchKM.Text
