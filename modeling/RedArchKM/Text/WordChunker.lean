import RedArchKM.Lib.Packing
import RedArchKM.Text.SentenceEnds

/-!
# Chunks of words

The pipeline splits a text into sentences by a regular expression, and packs the sentences into
chunks of some number of words (`chunkText`). Each chunk opens with the last sentences of the one
before it: as many as have `overlapWords` words together, but at least one.

Two things can go wrong. A sentence that does not fit beside an overlap stops the loop where it is
(`RoomBeside`). And a sentence end that does not follow a word, such as a mark between two spaces, is
lost or joined to the word before it (`attached`). Nothing else does: `keepsWords_iff`.
-/

namespace RedArchKM.Text.Pipeline

open Lib List

/-- `strings.Join(sentences, " ")` -/
def joined (sentences : List (List Char)) : List Char := [' '].intercalate sentences

/-- The loop over `i`, which is one less than the first argument. -/
def overlapFrom (chunk : List (List Char)) (wordCounts : List Nat) (overlapWords : Nat) :
    Nat → List (List Char) → Nat → List (List Char)
  | 0, overlap, _ => overlap
  | i + 1, overlap, overlapCount =>
    if overlapCount < overlapWords then
      if i < wordCounts.length then
        let count := wordCounts.getD i 0
        if overlapCount + count > overlapWords ∧ overlap.length > 0 then overlap
        else
          overlapFrom chunk wordCounts overlapWords i (chunk.getD i [] :: overlap)
            (overlapCount + count)
      else overlapFrom chunk wordCounts overlapWords i overlap overlapCount
    else overlap

def buildOverlap (chunk : List (List Char)) (wordCounts : List Nat) (overlapWords : Nat) :
    List (List Char) :=
  if chunk.length = 0 ∨ overlapWords ≤ 0 then []
  else overlapFrom chunk wordCounts overlapWords chunk.length [] 0

def countWordsInSlice (sentences : List (List Char)) : Nat := (sentences.map countWords).sum

structure ChunkState where
  chunks : List (List Char) := []
  currentChunk : List (List Char) := []
  currentWords : Nat := 0
  i : Nat := 0

section Loop

variable (sentences : List (List Char)) (wordCounts : List Nat) (chunkSizeWords overlapWords : Nat)

/-- One round of the loop over the sentences. -/
def chunkStep (state : ChunkState) : ChunkState :=
  let sentence := sentences.getD state.i []
  let count := wordCounts.getD state.i 0
  if count > chunkSizeWords then
    { chunks := (if state.currentChunk.length > 0 then state.chunks ++ [joined state.currentChunk]
        else state.chunks) ++ [sentence]
      currentChunk := []
      currentWords := 0
      i := state.i + 1 }
  else if state.currentWords + count ≤ chunkSizeWords then
    { state with
      currentChunk := state.currentChunk ++ [sentence]
      currentWords := state.currentWords + count
      i := state.i + 1 }
  else
    let counts := (wordCounts.take state.i).drop (state.i - state.currentChunk.length)
    let overlap := buildOverlap state.currentChunk counts overlapWords
    { state with
      chunks := state.chunks ++ [joined state.currentChunk]
      currentChunk := overlap
      currentWords := countWordsInSlice overlap }

/-- The chunks, if the loop ends within the given rounds. -/
def chunkLoop : Nat → ChunkState → Option (List (List Char))
  | rounds, state =>
    if state.i < sentences.length then
      match rounds with
      | 0 => none
      | rounds + 1 =>
        chunkLoop rounds (chunkStep sentences wordCounts chunkSizeWords overlapWords state)
    else if state.currentChunk.length > 0 then
      some (state.chunks ++ [joined state.currentChunk])
    else some state.chunks

end Loop

def chunkText (rounds : Nat) (text : List Char) (chunkSizeWords overlapWords : Nat) :
    Option (List (List Char)) :=
  if text.isEmpty then some []
  else
    let chunkSizeWords := if chunkSizeWords ≤ overlapWords then overlapWords + 1 else chunkSizeWords
    let sentences := splitSentences text
    if sentences.isEmpty then some []
    else chunkLoop sentences (sentences.map countWords) chunkSizeWords overlapWords rounds {}

/-! ## The loop packs sentences -/

section Packs

variable (overlapWords : Nat)

/-- The sentence belongs to the overlap, beside those already taken. -/
def overlaps (taken : List (List Char)) (sentence : List Char) : Bool :=
  countWordsInSlice taken < overlapWords ∧
    (countWordsInSlice taken + countWords sentence ≤ overlapWords ∨ taken = [])

theorem overlaps_less (sentence : List Char) (taken : List (List Char)) (next : List Char)
    (isTaken : overlaps overlapWords (sentence :: taken) next = true) :
    overlaps overlapWords taken next = true := by
  obtain ⟨open_, fits⟩ := of_decide_eq_true isTaken
  have count : countWordsInSlice (sentence :: taken) =
      countWords sentence + countWordsInSlice taken := rfl
  have fewer := fits.resolve_right (cons_ne_nil sentence taken)
  exact decide_eq_true ⟨by omega, .inl (by omega)⟩

def chunkPacking (chunkSizeWords : Nat) : Packing (List Char) :=
  .ofAdmits countWords chunkSizeWords (overlaps overlapWords) (overlaps_less overlapWords)

variable {overlapWords} {chunkSizeWords : Nat} {sentences : List (List Char)}

theorem countWordsInSlice_append (sentences more : List (List Char)) :
    countWordsInSlice (sentences ++ more) =
      countWordsInSlice sentences + countWordsInSlice more := by
  rw [countWordsInSlice, map_append, sum_append, countWordsInSlice, countWordsInSlice]

theorem countWordsInSlice_reverse (sentences : List (List Char)) :
    countWordsInSlice sentences.reverse = countWordsInSlice sentences := by
  rw [countWordsInSlice, map_reverse, sum_reverse, countWordsInSlice]

theorem countWordsInSlice_cons (sentence : List Char) (sentences : List (List Char)) :
    countWordsInSlice (sentence :: sentences) =
      countWords sentence + countWordsInSlice sentences := rfl

theorem countWords_le_of_mem {sentence : List Char} (member : sentence ∈ sentences) :
    countWords sentence ≤ countWordsInSlice sentences := by
  obtain ⟨before, rest, rfl⟩ := append_of_mem member
  rw [countWordsInSlice_append, countWordsInSlice_cons]
  omega

theorem overlaps_reverse (taken : List (List Char)) (sentence : List Char) :
    overlaps overlapWords taken.reverse sentence = true ↔
      countWordsInSlice taken < overlapWords ∧
        (countWordsInSlice taken + countWords sentence ≤ overlapWords ∨ taken = []) := by
  unfold overlaps
  rw [decide_eq_true_iff, countWordsInSlice_reverse, reverse_eq_nil_iff]

theorem overlapFrom_eq {chunk left taken : List (List Char)} (same : chunk = left ++ taken) :
    overlapFrom chunk (chunk.map countWords) overlapWords left.length taken
        (countWordsInSlice taken) =
      (Packing.admitted (overlaps overlapWords) taken.reverse left.reverse).reverse ++ taken := by
  induction left using List.reverseRecOn generalizing taken with
  | nil => rfl
  | append_singleton left sentence ih =>
    have count : (chunk.map countWords).getD left.length 0 = countWords sentence := by
      rw [same]
      simp [getD_eq_getElem?_getD]
    have isSentence : chunk.getD left.length [] = sentence := by
      rw [same]
      simp [getD_eq_getElem?_getD]
    have inside : left.length < (chunk.map countWords).length := by
      rw [same]
      simp
    have size : (left ++ [sentence]).length = left.length + 1 := length_append
    rw [size, overlapFrom, count, isSentence, if_pos inside, reverse_append,
      reverse_singleton, singleton_append, Packing.admitted_cons]
    by_cases isTaken : overlaps overlapWords taken.reverse sentence = true
    · have room := (overlaps_reverse taken sentence).mp isTaken
      have notFull : ¬(countWordsInSlice taken + countWords sentence > overlapWords ∧
          taken.length > 0) := by
        rintro ⟨tooMuch, notFirst⟩
        rcases room.2 with fits | rfl
        · omega
        · cases notFirst
      have taken' : countWordsInSlice taken + countWords sentence =
          countWordsInSlice (sentence :: taken) := Nat.add_comm _ _
      rw [if_pos room.1, if_pos isTaken]
      rw [if_neg notFull, taken', ih (by rw [same]; simp), reverse_cons]
      simp
    · have full := mt (overlaps_reverse taken sentence).mpr isTaken
      rw [if_neg isTaken]
      by_cases isOpen : countWordsInSlice taken < overlapWords
      · rw [if_pos isOpen, if_pos]
        · rfl
        · rw [not_and_or, not_or] at full
          have isFull := full.resolve_left (not_not.mpr isOpen)
          exact ⟨Nat.not_le.mp isFull.1, length_pos_iff.mpr isFull.2⟩
      · rw [if_neg isOpen]
        rfl

theorem buildOverlap_eq (chunk : List (List Char)) :
    buildOverlap chunk (chunk.map countWords) overlapWords =
      (chunkPacking overlapWords chunkSizeWords).tail chunk := by
  have taken := @overlapFrom_eq overlapWords chunk chunk [] (append_nil chunk).symm
  rw [append_nil] at taken
  unfold buildOverlap
  split
  · rename_i noOverlap
    rcases noOverlap with isEmpty | isZero
    · rw [length_eq_zero_iff.mp isEmpty]
      rfl
    · -- no sentence is admitted
      change [] = (Packing.admitted (overlaps overlapWords) [] chunk.reverse).reverse
      cases chunk.reverse with
      | nil => rfl
      | cons sentence rest =>
        rw [Packing.admitted_cons, if_neg]
        · rfl
        · intro isTaken
          have isOpen := (of_decide_eq_true isTaken).1
          omega
  · exact taken

/-- A round on the sentences from `block` on. -/
def stateOf (blocks : List (List (List Char))) (before block : List (List Char)) : ChunkState where
  chunks := blocks.map joined
  currentChunk := block
  currentWords := countWordsInSlice block
  i := (before ++ block).length

variable {block : List (List Char)}

theorem chunkLoop_end {rounds : Nat} {blocks : List (List (List Char))} {before : List (List Char)}
    (same : sentences = before ++ block) :
    chunkLoop sentences (sentences.map countWords) chunkSizeWords overlapWords rounds
      (stateOf blocks before block) = some ((blocks ++ Packing.closed block).map joined) := by
  have ended : ¬(stateOf blocks before block).i < sentences.length := by
    rw [same]
    exact Nat.lt_irrefl _
  unfold chunkLoop
  rw [if_neg ended]
  cases block with
  | nil => simp [stateOf]
  | cons first others => simp [stateOf, Packing.closed]

section Rounds

variable {blocks : List (List (List Char))} {before block rest : List (List Char)}
  {sentence : List Char} (same : sentences = before ++ block ++ sentence :: rest)

include same

theorem getD_sentence : sentences.getD (before ++ block).length [] = sentence := by
  rw [same]
  simp [getD_eq_getElem?_getD]

theorem getD_count : (sentences.map countWords).getD (before ++ block).length 0 =
    countWords sentence := by
  rw [same]
  simp [getD_eq_getElem?_getD]

theorem counts_block : ((sentences.map countWords).take (before ++ block).length).drop
    ((before ++ block).length - block.length) = block.map countWords := by
  have position : (before ++ block).length - block.length = before.length := by simp
  have spoken : (before ++ block).length = ((before ++ block).map countWords).length := by simp
  have opened : before.length = (before.map countWords).length := by simp
  rw [same, position, map_append, spoken, take_left, map_append, opened, drop_left]

theorem chunkStep_heavy (heavy : countWords sentence > chunkSizeWords) :
    chunkStep sentences (sentences.map countWords) chunkSizeWords overlapWords
        (stateOf blocks before block) =
      stateOf (blocks ++ Packing.closed block ++ [[sentence]]) (before ++ block ++ [sentence]) [] := by
  unfold chunkStep stateOf
  rw [getD_count same, getD_sentence same, if_pos heavy]
  cases block with
  | nil => simp [joined, countWordsInSlice]
  | cons first others => simp [Packing.closed, joined, countWordsInSlice, Nat.add_assoc]

theorem chunkStep_beside (light : ¬countWords sentence > chunkSizeWords)
    (beside : countWordsInSlice block + countWords sentence ≤ chunkSizeWords) :
    chunkStep sentences (sentences.map countWords) chunkSizeWords overlapWords
        (stateOf blocks before block) = stateOf blocks before (block ++ [sentence]) := by
  unfold chunkStep stateOf
  rw [getD_count same, getD_sentence same, if_neg light, if_pos beside, countWordsInSlice_append,
    ← append_assoc]
  simp [countWordsInSlice, Nat.add_assoc]

theorem chunkStep_close (light : ¬countWords sentence > chunkSizeWords)
    (beside : ¬countWordsInSlice block + countWords sentence ≤ chunkSizeWords)
    {dropped overlap : List (List Char)}
    (isOverlap : (chunkPacking overlapWords chunkSizeWords).tail block = overlap)
    (split : block = dropped ++ overlap) :
    chunkStep sentences (sentences.map countWords) chunkSizeWords overlapWords
        (stateOf blocks before block) =
      stateOf (blocks ++ [block]) (before ++ dropped) overlap := by
  unfold chunkStep stateOf
  dsimp only
  rw [getD_count same, if_neg light, if_neg beside, counts_block same,
    @buildOverlap_eq overlapWords chunkSizeWords, isOverlap, append_assoc, ← split]
  simp

end Rounds

/-- **The loop packs the sentences.** -/
theorem chunkLoop_eq {rounds : Nat} {blocks : List (List (List Char))}
    {before block rest : List (List Char)} (same : sentences = before ++ block ++ rest) :
    chunkLoop sentences (sentences.map countWords) chunkSizeWords overlapWords rounds
        (stateOf blocks before block) =
      ((chunkPacking overlapWords chunkSizeWords).loop rounds blocks block rest).map
        (List.map joined) := by
  induction rounds generalizing blocks before block rest with
  | zero =>
    cases rest with
    | nil => exact chunkLoop_end (by rw [same, append_nil])
    | cons sentence rest =>
      unfold chunkLoop
      rw [if_pos]
      · rfl
      · rw [same]
        simp [stateOf]
  | succ rounds ih =>
    cases rest with
    | nil => exact chunkLoop_end (by rw [same, append_nil])
    | cons sentence rest =>
      have goesOn : (stateOf blocks before block).i < sentences.length := by
        rw [same]
        simp [stateOf]
      let packing := chunkPacking overlapWords chunkSizeWords
      unfold chunkLoop
      rw [if_pos goesOn]
      by_cases heavy : countWords sentence > chunkSizeWords
      · rw [chunkStep_heavy same heavy, packing.loop_heavy heavy]
        exact ih (by rw [same]; simp)
      · by_cases beside : countWordsInSlice block + countWords sentence ≤ chunkSizeWords
        · rw [chunkStep_beside same heavy beside, packing.loop_beside heavy beside]
          exact ih (by rw [same]; simp)
        · obtain ⟨dropped, split⟩ := packing.tail_suffix block
          rw [chunkStep_close same heavy beside rfl split.symm, packing.loop_close heavy beside]
          have whole : before ++ dropped ++ packing.tail block = before ++ block := by
            rw [append_assoc, split]
          exact ih (by rw [same, ← whole])

/-! ## Overlaps -/

theorem overlaps_iff {taken : List (List Char)} {sentence : List Char} :
    overlaps overlapWords taken sentence = true ↔
      countWordsInSlice taken < overlapWords ∧
        (countWordsInSlice taken + countWords sentence ≤ overlapWords ∨ taken = []) :=
  decide_eq_true_iff

theorem countWordsInSlice_concat (taken : List (List Char)) (sentence : List Char) :
    countWordsInSlice (taken ++ [sentence]) = countWordsInSlice taken + countWords sentence := by
  rw [countWordsInSlice_append, countWordsInSlice_cons]
  rfl

theorem le_admitted {taken some items : List (List Char)}
    (within : countWordsInSlice taken + countWordsInSlice some ≤ overlapWords)
    (isPrefix : some <+: items) :
    countWordsInSlice some ≤
      countWordsInSlice (Packing.admitted (overlaps overlapWords) taken items) := by
  induction items generalizing taken some with
  | nil =>
    rw [prefix_nil.mp isPrefix]
    exact Nat.zero_le _
  | cons sentence rest ih =>
    cases some with
    | nil => exact Nat.zero_le _
    | cons first others =>
      obtain ⟨rfl, isLater⟩ := cons_prefix_cons.mp isPrefix
      rw [countWordsInSlice_cons] at within ⊢
      by_cases isOpen : countWordsInSlice taken < overlapWords
      · have isTaken := (@overlaps_iff overlapWords taken first).mpr ⟨isOpen, .inl (by omega)⟩
        have beside : countWordsInSlice (taken ++ [first]) + countWordsInSlice others ≤
            overlapWords := by
          rw [countWordsInSlice_concat]
          omega
        have later := ih beside isLater
        rw [Packing.admitted_cons, if_pos isTaken, countWordsInSlice_cons]
        omega
      · omega

theorem admitted_le {taken items : List (List Char)} (notFirst : taken ≠ [])
    (within : countWordsInSlice taken ≤ overlapWords) :
    countWordsInSlice taken +
        countWordsInSlice (Packing.admitted (overlaps overlapWords) taken items) ≤
      overlapWords := by
  induction items generalizing taken with
  | nil => exact within
  | cons sentence rest ih =>
    rw [Packing.admitted_cons]
    split
    · rename_i isTaken
      have fits := (overlaps_iff.mp isTaken).2.resolve_right notFirst
      rw [← countWordsInSlice_concat] at fits
      have later := ih (append_ne_nil_of_right_ne_nil taken (cons_ne_nil _ _)) fits
      rw [countWordsInSlice_concat] at later
      rw [countWordsInSlice_cons]
      omega
    · exact within

/-- What an overlap may hold: sentences within its limit, or a single longer one. -/
def Overlap (chunkSizeWords overlapWords : Nat) (shared : List (List Char)) : Prop :=
  countWordsInSlice shared ≤ overlapWords ∨
    (0 < overlapWords ∧ ∃ sentence, shared = [sentence] ∧ countWords sentence ≤ chunkSizeWords)

theorem overlap_tail (light : ∀ sentence ∈ block, countWords sentence ≤ chunkSizeWords) :
    Overlap chunkSizeWords overlapWords ((chunkPacking overlapWords chunkSizeWords).tail block) := by
  change Overlap _ _ (Packing.admitted (overlaps overlapWords) [] block.reverse).reverse
  cases reversed : block.reverse with
  | nil => exact .inl (Nat.zero_le _)
  | cons sentence rest =>
    rw [Packing.admitted_cons]
    split
    · rename_i isTaken
      have isOpen := (overlaps_iff.mp isTaken).1
      have isLight := light sentence (mem_reverse.mp (by rw [reversed]; simp))
      by_cases within : countWords sentence ≤ overlapWords
      · have later := @admitted_le overlapWords [sentence] rest (cons_ne_nil _ _) within
        left
        rwa [countWordsInSlice_reverse]
      · -- a longer sentence leaves no room for another
        have alone : Packing.admitted (overlaps overlapWords) ([] ++ [sentence]) rest = [] := by
          cases rest with
          | nil => rfl
          | cons next others =>
            rw [Packing.admitted_cons, if_neg]
            intro isNext
            have room : countWords sentence + 0 < overlapWords := (overlaps_iff.mp isNext).1
            omega
        rw [alone]
        exact .inr ⟨Nat.zero_lt_of_lt isOpen, sentence, rfl, isLight⟩
    · exact .inl (Nat.zero_le _)

theorem le_tail {shared : List (List Char)} (isOverlap : Overlap chunkSizeWords overlapWords shared)
    (suffix : shared <:+ block) :
    countWordsInSlice shared ≤
      countWordsInSlice ((chunkPacking overlapWords chunkSizeWords).tail block) := by
  have isPrefix := List.reverse_prefix.mpr suffix
  change _ ≤ countWordsInSlice (Packing.admitted (overlaps overlapWords) [] block.reverse).reverse
  rw [countWordsInSlice_reverse, ← countWordsInSlice_reverse shared]
  rcases isOverlap with within | ⟨isOpen, sentence, rfl, _⟩
  · refine le_admitted ?_ isPrefix
    rw [countWordsInSlice_reverse]
    exact (Nat.zero_add _).trans_le within
  · obtain ⟨rest, reversed⟩ := isPrefix
    have isTaken := (@overlaps_iff overlapWords [] sentence).mpr ⟨isOpen, .inr rfl⟩
    rw [← reversed, reverse_singleton, singleton_append, Packing.admitted_cons, if_pos isTaken]
    exact Nat.add_le_add_left (Nat.zero_le _) _

/-- **There is room**: every sentence that a chunk can hold fits into one beside any sentences before
it that an overlap may hold. -/
def RoomBeside (chunkSizeWords overlapWords : Nat) (sentences : List (List Char)) : Prop :=
  ∀ before shared sentence rest, sentences = before ++ shared ++ sentence :: rest →
    Overlap chunkSizeWords overlapWords shared → countWords sentence ≤ chunkSizeWords →
      countWordsInSlice shared + countWords sentence ≤ chunkSizeWords

theorem fits_iff (smaller : overlapWords < chunkSizeWords) :
    (chunkPacking overlapWords chunkSizeWords).Fits sentences ↔
      RoomBeside chunkSizeWords overlapWords sentences := by
  let packing := chunkPacking overlapWords chunkSizeWords
  constructor
  · intro fits before shared sentence rest same isOverlap light
    have allLight : ∀ item ∈ shared, ¬packing.weight item > packing.size := by
      intro item member
      rcases isOverlap with within | ⟨_, one, rfl, isLight⟩
      · have single : countWords item ≤ countWordsInSlice shared := countWords_le_of_mem member
        change ¬countWords item > chunkSizeWords
        omega
      · rw [mem_singleton.mp member]
        exact Nat.not_lt.mpr isLight
    have isRun : shared <:+ packing.run (before ++ shared) := by
      rw [packing.run_append allLight]
      exact suffix_append _ _
    exact Nat.le_trans (Nat.add_le_add_right (le_tail isOverlap isRun) _)
      (fits (before ++ shared) sentence rest same light)
  · intro room before sentence rest same light
    obtain ⟨earlier, split⟩ := (packing.tail_suffix (packing.run before)).trans
      (packing.run_suffix before)
    have whole : sentences = earlier ++ packing.tail (packing.run before) ++ sentence :: rest := by
      rwa [split]
    have allLight : ∀ item ∈ packing.run before, countWords item ≤ chunkSizeWords :=
      fun item member => packing.light_of_mem_run member
    exact room earlier _ sentence rest whole (overlap_tail allLight) light

end Packs

/-! ## The words of the chunks -/

/-- What a chunk shares with the one before it: nothing, or the overlap. -/
def SharesOverlap (overlapWords : Nat) (previous shared : List (List Char)) : Prop :=
  shared = [] ∨ shared = buildOverlap previous (previous.map countWords) overlapWords

def WithinWords (limit : Nat) (chunk : List (List Char)) : Prop :=
  (words (joined chunk)).length ≤ limit ∨ ∃ sentence, chunk = [sentence]

/-- The text is chunked, and the chunks keep its words: every one is in a chunk, and without what
they share, the chunks are the sentences of the text in order, which have its words in order. -/
def KeepsWords (chunkSizeWords overlapWords : Nat) (text : List Char) : Prop :=
  ∃ rounds blocks, chunkText rounds text chunkSizeWords overlapWords = some (blocks.map joined) ∧
    (∀ word ∈ words text, ∃ chunk ∈ blocks.map joined, word ∈ words chunk) ∧
    Packing.Covers (SharesOverlap overlapWords)
      (WithinWords (max chunkSizeWords (overlapWords + 1))) [] blocks (splitSentences text) ∧
    (splitSentences text).flatMap words = words text

theorem words_joined (sentences : List (List Char)) :
    words (joined sentences) = sentences.flatMap words :=
  fields_intercalate rfl sentences

theorem length_words_joined (sentences : List (List Char)) :
    (words (joined sentences)).length = countWordsInSlice sentences := by
  rw [words_joined, length_flatMap, countWordsInSlice]
  exact congrArg List.sum (map_congr_left fun sentence _ => (countWords_eq sentence).symm)

section Texts

variable {rounds chunkSizeWords overlapWords : Nat} {text : List Char}

theorem chunkText_eq : chunkText rounds text chunkSizeWords overlapWords =
    ((chunkPacking overlapWords (max chunkSizeWords (overlapWords + 1))).loop rounds [] []
      (splitSentences text)).map (List.map joined) := by
  have size : (if chunkSizeWords ≤ overlapWords then overlapWords + 1 else chunkSizeWords) =
      max chunkSizeWords (overlapWords + 1) := by
    split <;> omega
  unfold chunkText
  rw [size]
  by_cases isEmpty : text.isEmpty
  · rw [if_pos isEmpty, isEmpty_iff.mp isEmpty, show splitSentences [] = [] from rfl,
      Packing.loop_nil]
    rfl
  · rw [if_neg isEmpty]
    by_cases noSentence : (splitSentences text).isEmpty
    · rw [if_pos noSentence, isEmpty_iff.mp noSentence, Packing.loop_nil]
      rfl
    · rw [if_neg noSentence]
      have same : splitSentences text = [] ++ [] ++ splitSentences text := rfl
      exact @chunkLoop_eq overlapWords _ _ rounds [] [] [] _ same

theorem roomBeside_of_keepsWords (keeps : KeepsWords chunkSizeWords overlapWords text) :
    RoomBeside (max chunkSizeWords (overlapWords + 1)) overlapWords (splitSentences text) := by
  obtain ⟨rounds, blocks, isChunks, _⟩ := keeps
  rw [chunkText_eq] at isChunks
  obtain ⟨packed, isPacked, _⟩ := Option.map_eq_some_iff.mp isChunks
  exact (fits_iff (by omega)).mp ((Packing.loop_eq_some_iff _).mp isPacked).1

end Texts

/-- **A text is chunked without losing words exactly if there is room beside every overlap**, and
every sentence end follows a word. -/
theorem keepsWords_iff (chunkSizeWords overlapWords : Nat) (text : List Char) :
    KeepsWords chunkSizeWords overlapWords text ↔
      RoomBeside (max chunkSizeWords (overlapWords + 1)) overlapWords (splitSentences text) ∧
        EndsFollowWords (trimSpace text) := by
  constructor
  · intro keeps
    refine ⟨roomBeside_of_keepsWords keeps, ?_⟩
    obtain ⟨_, _, _, _, _, sameWords⟩ := keeps
    exact (words_splitSentences_iff text).mp sameWords
  · rintro ⟨room, endsFollow⟩
    let packing := chunkPacking overlapWords (max chunkSizeWords (overlapWords + 1))
    have sameWords := (words_splitSentences_iff text).mpr endsFollow
    have fits : packing.Fits (splitSentences text) := (fits_iff (by omega)).mpr room
    have isPacked : packing.loop (packing.rounds [] (splitSentences text)) [] []
        (splitSentences text) = some (packing.pack [] (splitSentences text)) :=
      packing.loop_eq_some_iff.mpr ⟨fits, Nat.le_refl _, rfl⟩
    have covers : Packing.Covers packing.Shares packing.Limited []
        (packing.pack ([] ++ []) (splitSentences text)) ([] ++ splitSentences text) :=
      packing.covers_pack (packing.fitsFrom_nil_iff.mpr fits) (.inl rfl) (fun _ => rfl)
        (Nat.zero_le _)
    refine ⟨packing.rounds [] (splitSentences text), packing.pack [] (splitSentences text), ?_, ?_,
      ?_, sameWords⟩
    · rw [chunkText_eq, isPacked]
      rfl
    · intro word isWord
      rw [← sameWords] at isWord
      obtain ⟨sentence, isSentence, inSentence⟩ := mem_flatMap.mp isWord
      obtain ⟨block, isBlock, inBlock⟩ := covers.mem isSentence
      refine ⟨joined block, mem_map_of_mem isBlock, ?_⟩
      rw [words_joined]
      exact mem_flatMap.mpr ⟨sentence, inBlock, inSentence⟩
    · refine covers.mono (fun previous shared shares => ?_) (fun block limited => ?_)
      · rcases shares with rfl | rfl
        · exact .inl rfl
        · exact .inr (buildOverlap_eq previous).symm
      · rcases limited with within | single
        · left
          rwa [length_words_joined]
        · exact .inr single

/-- **A sentence that does not fit beside the overlap stops the chunking**: the overlap is at least
the sentence before it, however long that is. -/
theorem not_keepsWords_pairs : ¬KeepsWords 3 1 "a b. c d.".toList := by
  intro keeps
  have room := roomBeside_of_keepsWords keeps
  have tooMuch := room [] ["a b.".toList] "c d.".toList [] rfl
    (.inr ⟨by decide, "a b.".toList, rfl, by decide +kernel⟩) (by decide +kernel)
  revert tooMuch
  decide +kernel

end RedArchKM.Text.Pipeline
