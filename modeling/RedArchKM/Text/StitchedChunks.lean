import RedArchKM.Text.Chunker
import RedArchKM.Text.Stitch

/-!
# Chunks that are stitched

A document is read back by stitching its chunks. The stitcher does not know what the chunker put in
twice: it looks for characters that end what the chunk before added and open the chunk, at least
`minOverlapChars` of them and at most `maxOverlapChars`.

Where an overlap is within these lengths and ends what the chunk before added, and where no longer
run of characters does so, it is just the overlap that the stitcher finds (`OverlapFound`). If that
is so from chunk to chunk, the stitched text says every sentence once (`stitch_chunks`).
-/

namespace RedArchKM.Text

open List

open Lib (Packing)

/-! ## Texts of sentences -/

def textOf (sentences : List String) : List Char := (joined sentences).toList

theorem textOf_eq (sentences : List String) :
    textOf sentences = [' '].intercalate (sentences.map String.toList) := by
  unfold textOf joined
  rw [String.toList_intercalate]
  rfl

theorem textOf_append {sentences more : List String} (isFirst : sentences ≠ [])
    (isMore : more ≠ []) : textOf (sentences ++ more) = textOf sentences ++ ' ' :: textOf more := by
  obtain ⟨next, later, rfl⟩ := exists_cons_of_ne_nil isMore
  rw [textOf_eq, textOf_eq, textOf_eq, map_append, map_cons]
  induction sentences with
  | nil => exact absurd rfl isFirst
  | cons sentence rest ih =>
    cases rest with
    | nil => simp
    | cons second others =>
      have here := ih (cons_ne_nil second others)
      simp only [map_cons, cons_append, intercalate_cons_cons] at here ⊢
      rw [here]
      simp only [append_assoc]

/-- A text that neither opens nor ends with a space. -/
def trimmed (text : List Char) : Bool :=
  (text.head?.any fun character => !isSpace character) &&
    text.getLast?.any fun character => !isSpace character

variable {text : List Char}

theorem trimmed_iff : trimmed text = true ↔
    (∃ character rest, text = character :: rest ∧ isSpace character = false) ∧
      ∃ body character, text = body ++ [character] ∧ isSpace character = false := by
  unfold trimmed
  rw [Bool.and_eq_true]
  refine and_congr ?_ ?_
  · cases text with
    | nil => simp
    | cons first rest => simp
  · induction text using List.reverseRecOn with
    | nil => simp
    | append_singleton body last _ => simp

theorem lstrip_of_trimmed (isTrimmed : trimmed text = true) : lstrip text = text := by
  obtain ⟨⟨character, rest, rfl, solid⟩, _⟩ := trimmed_iff.mp isTrimmed
  exact dropWhile_cons_of_neg (by simp [solid])

theorem strip_of_trimmed (isTrimmed : trimmed text = true) : strip text = text := by
  obtain ⟨_, body, character, same, solid⟩ := trimmed_iff.mp isTrimmed
  unfold strip
  rw [lstrip_of_trimmed isTrimmed, same]
  exact rdropWhile_concat_neg _ _ _ (by simp [solid])

theorem trimmed_append {more : List Char} (first : trimmed text = true) (last : trimmed more = true) :
    trimmed (text ++ ' ' :: more) = true := by
  obtain ⟨⟨character, rest, rfl, opens⟩, _⟩ := trimmed_iff.mp first
  obtain ⟨_, body, ending, rfl, ends⟩ := trimmed_iff.mp last
  exact trimmed_iff.mpr ⟨⟨character, rest ++ ' ' :: (body ++ [ending]), rfl, opens⟩,
    character :: rest ++ ' ' :: body, ending, by simp, ends⟩

theorem trimmed_textOf {sentences : List String} (notEmpty : sentences ≠ [])
    (clean : ∀ sentence ∈ sentences, trimmed sentence.toList = true) :
    trimmed (textOf sentences) = true := by
  induction sentences with
  | nil => exact absurd rfl notEmpty
  | cons sentence rest ih =>
    have first : trimmed (textOf [sentence]) = true := by
      exact clean sentence mem_cons_self
    by_cases others : rest = []
    · rwa [others]
    · have later := ih others fun other member => clean other (mem_cons_of_mem _ member)
      have whole := @textOf_append [sentence] rest (cons_ne_nil _ _) others
      rw [singleton_append] at whole
      rw [whole]
      exact trimmed_append first later

/-! ## Overlaps that are found -/

section Found

variable {previous following : List Char} {k limit : Nat}

theorem overlapUpTo_eq_zero (none : ∀ length, minOverlapChars ≤ length → length ≤ limit →
    isOverlap previous following length = false) : overlapUpTo previous following limit = 0 := by
  induction limit with
  | zero => rfl
  | succ limit ih =>
    unfold overlapUpTo
    split
    · rfl
    · rename_i long
      rw [none (limit + 1) (Nat.not_lt.mp long) (Nat.le_refl _)]
      exact ih fun length atLeast atMost => none length atLeast (Nat.le_succ_of_le atMost)

theorem overlapUpTo_eq (atLeast : minOverlapChars ≤ k) (atMost : k ≤ limit)
    (isFound : isOverlap previous following k = true)
    (longest : ∀ length, k < length → length ≤ limit →
      isOverlap previous following length = false) :
    overlapUpTo previous following limit = k := by
  induction limit with
  | zero =>
    rw [Nat.le_zero.mp atMost] at atLeast
    cases atLeast
  | succ limit ih =>
    unfold overlapUpTo
    rw [if_neg (by omega)]
    rcases Nat.lt_or_eq_of_le atMost with shorter | rfl
    · rw [longest (limit + 1) shorter (Nat.le_refl _)]
      exact ih (Nat.le_of_lt_succ shorter) fun length longer within =>
        longest length longer (Nat.le_succ_of_le within)
    · rw [if_pos isFound]

end Found

/-- **The overlap is the one that the stitcher finds**: if there is one, it has the length of an
overlap and ends what the chunk before added; and nothing longer does. -/
def OverlapFound (added shared new : List String) : Prop :=
  (shared = [] ∨ (minOverlapChars ≤ (textOf shared).length ∧
    (textOf shared).length ≤ maxOverlapChars ∧ shared <:+ added)) ∧
  ∀ k, k ≤ maxOverlapChars → minOverlapChars ≤ k → (textOf shared).length < k →
    isOverlap (textOf added) (textOf (shared ++ new)) k = false

variable {added shared : List String}

theorem textOf_suffix (notEmpty : shared ≠ []) (suffix : shared <:+ added) :
    textOf shared = textOf added ∨ ∃ before, textOf added = before ++ ' ' :: textOf shared := by
  obtain ⟨before, rfl⟩ := suffix
  by_cases isNil : before = []
  · left
    rw [isNil, nil_append]
  · exact .inr ⟨textOf before, textOf_append isNil notEmpty⟩

theorem isOverlap_of_suffix {new : List String} (notEmpty : shared ≠ []) (isNew : new ≠ [])
    (suffix : shared <:+ added) :
    isOverlap (textOf added) (textOf (shared ++ new)) (textOf shared).length = true := by
  unfold isOverlap
  rw [textOf_append notEmpty isNew, take_left]
  rcases textOf_suffix notEmpty suffix with same | ⟨before, same⟩
  · rw [same]
    simp
  · have startsOnWord : (before ++ ' ' :: textOf shared).length - (textOf shared).length - 1 =
        before.length := by
      rw [length_append, length_cons]
      omega
    have ends : textOf shared <:+ before ++ ' ' :: textOf shared :=
      ⟨before ++ [' '], append_cons before ' ' _ ▸ rfl⟩
    rw [same, startsOnWord, isSuffixOf_iff_suffix.mpr ends]
    simp

theorem OverlapFound.overlapLength_eq {new : List String} (found : OverlapFound added shared new)
    (isNew : new ≠ []) :
    overlapLength (textOf added) (textOf (shared ++ new)) = (textOf shared).length := by
  obtain ⟨isFound, longest⟩ := found
  rcases isFound with rfl | ⟨atLeast, atMost, suffix⟩
  · refine overlapUpTo_eq_zero fun length long within => longest length (by omega) long ?_
    exact Nat.lt_of_lt_of_le (by decide) long
  · have notEmpty : shared ≠ [] := by
      rintro rfl
      cases atLeast
    have opens : (textOf shared).length ≤ (textOf (shared ++ new)).length := by
      rw [textOf_append notEmpty isNew, length_append]
      exact Nat.le_add_right _ _
    have ends : (textOf shared).length ≤ (textOf added).length := by
      rcases textOf_suffix notEmpty suffix with same | ⟨before, same⟩
      · rw [same]
      · rw [same, length_append, length_cons]
        omega
    exact overlapUpTo_eq atLeast (by omega) (isOverlap_of_suffix notEmpty isNew suffix)
      fun length longer within => longest length (by omega) (by omega) longer

/-! ## The stitched text -/

/-- The stitcher stands behind chunks that added the sentences, the last one those at the end. -/
structure Behind (path : Option String) (done added : List String) (state : StitchState) : Prop where
  parts : state.parts.flatten = textOf done
  prevText : state.prevText = textOf added
  sectionPath : state.sectionPath = path

section Chunks

variable {path : Option String} {done added shared new : List String} {state : StitchState}
  {chunk : Chunk}

theorem ne_nil_of_trimmed {text : List Char} (isTrimmed : trimmed text = true) : text ≠ [] := by
  rintro rfl
  cases isTrimmed

theorem isEmpty_of_trimmed {text : List Char} (isTrimmed : trimmed text = true) :
    ¬text.isEmpty = true := by
  rw [List.isEmpty_iff]
  exact ne_nil_of_trimmed isTrimmed

theorem enter_of_same {text : List Char} (same : path = state.sectionPath) :
    state.enter path text = state := if_pos same

section

variable (inSection : chunk.sectionPath.filter (· ≠ "") = state.sectionPath)
    (clean : trimmed chunk.text = true)

include inSection clean

theorem stitchChunk_first (isFirst : state.prevText = []) : stitchChunk state chunk =
      { state with parts := state.parts ++ [chunk.text], prevText := chunk.text } := by
  unfold stitchChunk
  dsimp only
  rw [strip_of_trimmed clean, enter_of_same inSection, if_neg (isEmpty_of_trimmed clean), isFirst]
  rfl

theorem stitchChunk_later (isLater : trimmed state.prevText = true) {rest : List Char}
    (isRest : lstrip (chunk.text.drop (overlapLength state.prevText chunk.text)) = rest) :
    stitchChunk state chunk =
      if rest.isEmpty then state
      else { state with parts := state.parts ++ [[' '], rest], prevText := rest } := by
  unfold stitchChunk
  dsimp only
  rw [strip_of_trimmed clean, enter_of_same inSection, if_neg (isEmpty_of_trimmed clean),
    if_neg (isEmpty_of_trimmed isLater), isRest]

end

theorem lstrip_drop (isNew : new ≠ []) (clean : trimmed (textOf new) = true) :
    lstrip ((textOf (shared ++ new)).drop (textOf shared).length) = textOf new := by
  by_cases isNil : shared = []
  · rw [isNil]
    exact lstrip_of_trimmed clean
  · rw [textOf_append isNil isNew, drop_left]
    exact lstrip_of_trimmed clean

theorem Behind.next (behind : Behind path done added state)
    (isDone : done ≠ []) (cleanAdded : trimmed (textOf added) = true) (isNew : new ≠ [])
    (cleanNew : trimmed (textOf new) = true) (clean : trimmed (textOf (shared ++ new)) = true)
    (found : OverlapFound added shared new) (isText : chunk.text = textOf (shared ++ new))
    (inSection : chunk.sectionPath.filter (· ≠ "") = path) :
    Behind path (done ++ new) new (stitchChunk state chunk) := by
  have isRest : lstrip (chunk.text.drop (overlapLength state.prevText chunk.text)) = textOf new := by
    rw [behind.prevText, isText, found.overlapLength_eq isNew]
    exact lstrip_drop isNew cleanNew
  have isChunk := stitchChunk_later (inSection.trans behind.sectionPath.symm) (isText ▸ clean)
    (behind.prevText ▸ cleanAdded) isRest
  rw [if_neg (isEmpty_of_trimmed cleanNew)] at isChunk
  rw [isChunk]
  refine ⟨?_, rfl, behind.sectionPath⟩
  rw [textOf_append isDone isNew, flatten_append, behind.parts]
  simp

/-- What a chunk shares and adds, as texts of sentences. -/
structure CleanPart (part : List String × List String) : Prop where
  isNew : part.2 ≠ []
  new : trimmed (textOf part.2) = true
  whole : trimmed (textOf (part.1 ++ part.2)) = true

theorem cleanPart {part : List String × List String} (isNew : part.2 ≠ [])
    (clean : ∀ sentence ∈ part.1 ++ part.2, trimmed sentence.toList = true) : CleanPart part where
  isNew := isNew
  new := trimmed_textOf isNew fun sentence member => clean sentence (mem_append_right _ member)
  whole := trimmed_textOf (append_ne_nil_of_right_ne_nil _ isNew) clean

/-- The overlap of every chunk with the one before it is found. -/
def OverlapsFound (parts : List (List String × List String)) : Prop :=
  parts.IsChain fun previous part => OverlapFound previous.2 part.1 part.2

structure Reads (path : Option String) (parts : List (List String × List String))
    (document : List Chunk) : Prop where
  texts : document.map Chunk.text = parts.map fun part => textOf (part.1 ++ part.2)
  inSection : ∀ chunk ∈ document, chunk.sectionPath.filter (· ≠ "") = path

theorem Behind.run {parts : List (List String × List String)} {document : List Chunk}
    (behind : Behind path done added state) (isDone : done ≠ [])
    (cleanAdded : trimmed (textOf added) = true) (clean : ∀ part ∈ parts, CleanPart part)
    (found : OverlapsFound ((shared, added) :: parts)) (reads : Reads path parts document) :
    (document.foldl stitchChunk state).parts.flatten = textOf (done ++ parts.flatMap Prod.snd) := by
  induction parts generalizing done shared added state document with
  | nil =>
    rw [map_eq_nil_iff.mp reads.texts, flatMap_nil, append_nil]
    exact behind.parts
  | cons part rest ih =>
    obtain ⟨chunk, others, rfl, isText, areTexts⟩ := map_eq_cons_iff.mp reads.texts
    obtain ⟨here, later⟩ := isChain_cons_cons.mp found
    have isClean := clean part mem_cons_self
    have next := behind.next isDone cleanAdded isClean.isNew isClean.new isClean.whole here isText
      (reads.inSection chunk mem_cons_self)
    have isRest : Reads path rest others :=
      ⟨areTexts, fun other member => reads.inSection other (mem_cons_of_mem _ member)⟩
    rw [foldl_cons, flatMap_cons, ← append_assoc]
    exact ih next (append_ne_nil_of_left_ne_nil isDone _) isClean.new
      (fun other member => clean other (mem_cons_of_mem _ member)) later isRest

/-- **Where every overlap is found, the stitched text says every sentence once.** -/
theorem stitch_parts {parts : List (List String × List String)} {document : List Chunk}
    (first : ∀ part ∈ parts.head?, part.1 = []) (clean : ∀ part ∈ parts, CleanPart part)
    (found : OverlapsFound parts) (reads : Reads path parts document)
    (cleanText : parts ≠ [] → trimmed (textOf (parts.flatMap Prod.snd)) = true) :
    stitch document path = textOf (parts.flatMap Prod.snd) := by
  unfold stitch
  cases parts with
  | nil =>
    rw [map_eq_nil_iff.mp reads.texts]
    rfl
  | cons part rest =>
    obtain ⟨chunk, others, rfl, isText, areTexts⟩ := map_eq_cons_iff.mp reads.texts
    have isFirst : part.1 = [] := first part rfl
    have isClean := clean part mem_cons_self
    dsimp only at isText
    rw [isFirst, nil_append] at isText
    have opened : Behind path part.2 part.2 (stitchChunk { sectionPath := path } chunk) := by
      rw [stitchChunk_first (reads.inSection chunk mem_cons_self) (isText ▸ isClean.new) rfl,
        isText]
      exact ⟨flatten_singleton, rfl, rfl⟩
    have isRest : Reads path rest others :=
      ⟨areTexts, fun other member => reads.inSection other (mem_cons_of_mem _ member)⟩
    rw [foldl_cons, opened.run isClean.isNew isClean.new
      (fun other member => clean other (mem_cons_of_mem _ member)) found isRest]
    exact strip_of_trimmed (cleanText (cons_ne_nil _ _))

end Chunks

/-! ## The chunks of the chunker -/

/-- The chunks of a text, each as the sentences that it shares with the one before it and those that
it adds. -/
def partsOf (splitter : Splitter) (chunkSizeTokens overlapTokens : Nat) (fullText : String) :
    List (List String × List String) :=
  (chunkPacking splitter.tokens chunkSizeTokens overlapTokens).parts [] []
    (sentencesOf splitter fullText)

/-- **A text that was chunked is read back with every sentence once**, if every overlap is found. -/
theorem stitch_chunks (splitter : Splitter) (fullText : String)
    (chunkSizeTokens overlapTokens : Nat) (smaller : overlapTokens < chunkSizeTokens)
    (clean : ∀ sentence ∈ sentencesOf splitter fullText, trimmed sentence.toList = true)
    (found : OverlapsFound (partsOf splitter chunkSizeTokens overlapTokens fullText))
    (texts : List String)
    (chunked : createSentenceBasedOverlappingChunks splitter fullText chunkSizeTokens
      overlapTokens = .ok texts)
    (path : Option String) (document : List Chunk)
    (sameTexts : document.map Chunk.text = texts.map String.toList)
    (inSection : ∀ chunk ∈ document, chunk.sectionPath.filter (· ≠ "") = path) :
    stitch document path = textOf (sentencesOf splitter fullText) := by
  let packing := chunkPacking splitter.tokens chunkSizeTokens overlapTokens
  obtain ⟨_, _, rfl⟩ := (createChunks_ok_iff smaller).mp chunked
  have spec : Packing.Parts [] [] (sentencesOf splitter fullText)
      (packing.pack [] (sentencesOf splitter fullText))
      (partsOf splitter chunkSizeTokens overlapTokens fullText) := packing.parts_spec fun _ => rfl
  have items : (partsOf splitter chunkSizeTokens overlapTokens fullText).flatMap Prod.snd =
      sentencesOf splitter fullText := spec.items
  have inText : ∀ part ∈ partsOf splitter chunkSizeTokens overlapTokens fullText,
      ∀ sentence ∈ part.1 ++ part.2, trimmed sentence.toList = true := by
    intro part isPart sentence inPart
    have isBlock : part.1 ++ part.2 ∈ packing.pack [] (sentencesOf splitter fullText) := by
      rw [← spec.blocks]
      exact mem_map_of_mem isPart
    exact clean sentence (packing.pack_subset [] _ _ isBlock inPart)
  have stitched := @stitch_parts path (partsOf splitter chunkSizeTokens overlapTokens fullText)
    document spec.first (fun part isPart => cleanPart (spec.isNew part isPart) (inText part isPart))
    found ⟨?_, inSection⟩ ?_
  · rw [stitched, items]
  · rw [sameTexts, ← spec.blocks]
    simp [textOf, Function.comp_def]
  · rw [items]
    intro notEmpty
    refine trimmed_textOf ?_ clean
    intro noSentence
    rw [partsOf, noSentence] at notEmpty
    exact notEmpty rfl

/-! ## Two documents -/

/-- Chunks in order, without sections. -/
def documentOf (texts : List String) : List Chunk :=
  texts.mapIdx fun order text => { chunkOrder := order, text := text.toList }

theorem sentencesOf_overlap : sentencesOf letters "Start. Overlapping-one. Ending-now." =
    ["Start.", "Overlapping-one.", "Ending-now."] := by
  decide +kernel

theorem partsOf_overlap : partsOf letters 30 16 "Start. Overlapping-one. Ending-now." =
    [([], ["Start.", "Overlapping-one."]), (["Overlapping-one."], ["Ending-now."])] := by
  decide +kernel

theorem chunks_overlap : createSentenceBasedOverlappingChunks letters
    "Start. Overlapping-one. Ending-now." 30 16 =
      .ok ["Start. Overlapping-one.", "Overlapping-one. Ending-now."] := by
  rw [createChunks_ok_iff (by decide), sentencesOf_overlap]
  refine ⟨?_, ?_, by decide +kernel⟩
  · rw [← fits_iff (by decide), ← Packing.fitsFrom_nil_iff]
    decide +kernel
  · have few := roundsOf_le letters 30 16 "Start. Overlapping-one. Ending-now."
    exact Nat.le_trans few (by decide)

/-- An overlap of sixteen characters is left out. -/
theorem stitch_chunks_overlap :
    stitch (documentOf ["Start. Overlapping-one.", "Overlapping-one. Ending-now."]) none =
      textOf (sentencesOf letters "Start. Overlapping-one. Ending-now.") := by
  refine stitch_chunks letters _ 30 16 (by decide) ?_ ?_ _ chunks_overlap none _ rfl (by decide)
  · rw [sentencesOf_overlap]
    decide +kernel
  · rw [partsOf_overlap]
    exact isChain_cons_cons.mpr
      ⟨⟨.inr ⟨by decide, by decide, by decide⟩, by decide +kernel⟩, .singleton _⟩

/-! ## Short overlaps -/

theorem overlapUpTo_long (previous following : List Char) (limit : Nat) :
    overlapUpTo previous following limit = 0 ∨
      minOverlapChars ≤ overlapUpTo previous following limit := by
  induction limit with
  | zero => exact .inl rfl
  | succ limit ih =>
    unfold overlapUpTo
    split
    · exact .inl rfl
    · rename_i long
      split
      · exact .inr (Nat.not_lt.mp long)
      · exact ih

theorem length_lstrip_le (text : List Char) : (lstrip text).length ≤ text.length :=
  (dropWhile_suffix isSpace).length_le

theorem length_strip_le (text : List Char) : (strip text).length ≤ text.length :=
  Nat.le_trans (List.rdropWhile_prefix isSpace (lstrip text)).length_le (length_lstrip_le text)

theorem stitch_pair {first next : String} (cleanFirst : trimmed first.toList = true)
    (cleanNext : trimmed next.toList = true) :
    stitch (documentOf [first, next]) none =
      strip (first.toList ++
        (let rest := lstrip (next.toList.drop (overlapLength first.toList next.toList))
        if rest.isEmpty then [] else ' ' :: rest)) := by
  have isFirst := @stitchChunk_first { sectionPath := none }
    { chunkOrder := 0, text := first.toList } rfl cleanFirst rfl
  have isNext := @stitchChunk_later { parts := [first.toList], prevText := first.toList }
    { chunkOrder := 1, text := next.toList } rfl cleanNext cleanFirst _ rfl
  unfold stitch
  change strip (stitchChunk (stitchChunk { sectionPath := none }
    { chunkOrder := 0, text := first.toList }) { chunkOrder := 1, text := next.toList }).parts.flatten = _
  rw [isFirst]
  change strip (stitchChunk { parts := [first.toList], prevText := first.toList } _).parts.flatten = _
  rw [isNext]
  dsimp only
  split <;> simp

/-- **A short overlap is not left out**: either the second chunk says it again, or what is left out
is more than the overlap. -/
theorem stitch_ne_of_short {first shared new : List String} (isFirst : first ≠ [])
    (isShared : shared ≠ []) (isNew : new ≠ [])
    (clean : ∀ sentence ∈ first ++ shared ++ new, trimmed sentence.toList = true)
    (short : (textOf shared).length + 1 < minOverlapChars) :
    stitch (documentOf [joined (first ++ shared), joined (shared ++ new)]) none ≠
      textOf (first ++ shared ++ new) := by
  have openingEmpty : first ++ shared ≠ [] := append_ne_nil_of_left_ne_nil isFirst _
  have cleanFirst : trimmed (textOf (first ++ shared)) = true :=
    trimmed_textOf openingEmpty fun sentence member => clean sentence (mem_append_left _ member)
  have cleanNext : trimmed (textOf (shared ++ new)) = true := by
    refine trimmed_textOf (append_ne_nil_of_left_ne_nil isShared _) fun sentence member => ?_
    rw [append_assoc] at clean
    exact clean sentence (mem_append_right _ member)
  have cleanNew : trimmed (textOf new) = true :=
    trimmed_textOf isNew fun sentence member => clean sentence (mem_append_right _ member)
  have someNew := length_pos_iff.mpr (ne_nil_of_trimmed cleanNew)
  -- the text of the document, and that of the second chunk
  have whole := textOf_append openingEmpty isNew
  have next := textOf_append isShared isNew
  rw [stitch_pair cleanFirst cleanNext, whole]
  change strip (textOf (first ++ shared) ++ (let rest := lstrip ((textOf (shared ++ new)).drop
    (overlapLength (textOf (first ++ shared)) (textOf (shared ++ new))))
    if rest.isEmpty then [] else ' ' :: rest)) ≠ _
  have lengthNext : (textOf (shared ++ new)).length =
      (textOf shared).length + ((textOf new).length + 1) := by
    rw [next, length_append, length_cons]
  rcases overlapUpTo_long (textOf (first ++ shared)) (textOf (shared ++ new))
    (min (min (textOf (first ++ shared)).length (textOf (shared ++ new)).length) maxOverlapChars)
    with isNone | isLong
  · -- the second chunk is said whole
    have notCut : overlapLength (textOf (first ++ shared)) (textOf (shared ++ new)) = 0 := isNone
    rw [notCut, drop_zero, lstrip_of_trimmed cleanNext, if_neg (isEmpty_of_trimmed cleanNext),
      strip_of_trimmed (trimmed_append cleanFirst cleanNext)]
    intro same
    have lengths := congrArg List.length same
    simp only [length_append, length_cons] at lengths
    omega
  · -- more than the overlap is left out
    have cut : minOverlapChars ≤
      overlapLength (textOf (first ++ shared)) (textOf (shared ++ new)) := isLong
    intro same
    have lengths := congrArg List.length same
    have atMost := length_strip_le (textOf (first ++ shared) ++
      (if (lstrip ((textOf (shared ++ new)).drop
          (overlapLength (textOf (first ++ shared)) (textOf (shared ++ new))))).isEmpty then []
        else ' ' :: lstrip ((textOf (shared ++ new)).drop
          (overlapLength (textOf (first ++ shared)) (textOf (shared ++ new))))))
    rw [lengths] at atMost
    simp only [length_append, length_cons] at atMost
    split at atMost
    · rw [length_nil] at atMost
      omega
    · have left := length_lstrip_le ((textOf (shared ++ new)).drop
        (overlapLength (textOf (first ++ shared)) (textOf (shared ++ new))))
      rw [length_drop] at left
      rw [length_cons] at atMost
      omega

def longSentence (character : Char) : String :=
  String.ofList (List.replicate 484 character ++ ['.'])

/-- A short sentence between two long ones. -/
def longSentences : List String := [longSentence 'x', "Yes, it is", longSentence 'y']

/-- The splitter of a text with these sentences, with a token for each character. -/
def longSplitter : Splitter where
  split _ := longSentences
  tokens sentence := sentence.length

theorem toList_longSentence (character : Char) :
    (longSentence character).toList = List.replicate 484 character ++ ['.'] := String.toList_ofList

theorem trimmed_longSentence {character : Char} (solid : isSpace character = false) :
    trimmed (longSentence character).toList = true := by
  rw [toList_longSentence]
  refine trimmed_iff.mpr ⟨⟨character, List.replicate 483 character ++ ['.'], ?_, solid⟩,
    _, '.', rfl, by decide⟩
  rfl

theorem clean_long : ∀ sentence ∈ longSentences, trimmed sentence.toList = true := by
  intro sentence isSentence
  rcases mem_cons.mp isSentence with rfl | isLater
  · exact trimmed_longSentence (by decide)
  · rcases mem_cons.mp isLater with rfl | isLast
    · decide
    · rw [mem_singleton.mp isLast]
      exact trimmed_longSentence (by decide)

theorem tokens_longSentence (character : Char) :
    longSplitter.tokens (longSentence character) = 485 := by
  change (longSentence character).length = 485
  rw [longSentence, String.length_ofList, length_append, length_replicate]
  rfl

theorem sentencesOf_long : sentencesOf longSplitter (joined longSentences) = longSentences := by
  unfold sentencesOf
  rw [if_neg]
  · rfl
  · intro isEmpty
    have noText : textOf longSentences = [] := by
      rw [textOf, String.isEmpty_iff.mp isEmpty]
      rfl
    exact ne_nil_of_trimmed (trimmed_textOf (cons_ne_nil _ _) clean_long) noText

theorem chunks_long : createSentenceBasedOverlappingChunks longSplitter (joined longSentences) 500 20 =
    .ok [joined [longSentence 'x', "Yes, it is"], joined ["Yes, it is", longSentence 'y']] := by
  have short : longSplitter.tokens "Yes, it is" = 10 := by decide
  have isTail : (chunkPacking longSplitter.tokens 500 20).tail [longSentence 'x', "Yes, it is"] =
      ["Yes, it is"] := by
    simp [chunkPacking, Packing.ofAdmits, Packing.admitted, overlaps, tokensOf,
      tokens_longSentence, short]
  have weight : (chunkPacking longSplitter.tokens 500 20).weight = longSplitter.tokens := rfl
  have size : (chunkPacking longSplitter.tokens 500 20).size = 500 := rfl
  rw [createChunks_ok_iff (by decide), sentencesOf_long]
  refine ⟨?_, ?_, ?_⟩
  · rw [← fits_iff (by decide), ← Packing.fitsFrom_nil_iff]
    simp [longSentences, Packing.FitsFrom, Packing.total, weight, size, isTail,
      tokens_longSentence, short]
  · have few := roundsOf_le longSplitter 500 20 (joined longSentences)
    rw [sentencesOf_long] at few
    exact Nat.le_trans few (by decide)
  · simp [longSentences, Packing.pack, Packing.total, Packing.closed, weight, size, isTail,
      tokens_longSentence, short]

/-- **The short sentence is not said once**, at the sizes that documents are chunked with. -/
theorem short_overlap_repeated :
    ∃ texts, createSentenceBasedOverlappingChunks longSplitter (joined longSentences) 500 20 =
        .ok texts ∧
      stitch (documentOf texts) none ≠
        textOf (sentencesOf longSplitter (joined longSentences)) := by
  refine ⟨_, chunks_long, ?_⟩
  rw [sentencesOf_long]
  exact @stitch_ne_of_short [longSentence 'x'] ["Yes, it is"] [longSentence 'y']
    (cons_ne_nil _ _) (cons_ne_nil _ _) (cons_ne_nil _ _) clean_long (by decide)

end RedArchKM.Text
