import RedArchKM.Lib.Fields

/-!
# Sentences of a text

The pipeline splits a text where `sentenceEndRe` matches: after marks with spaces behind them. A part
between two matches is trimmed and gets the marks after it back, and a blank part is dropped with its
marks. A text of one sentence is split into its lines instead, if it has several.

A sentence end that does not follow a word, such as a mark between two spaces, is thereby lost, or
joined to the word before it. The sentences have the words of the text exactly if there is none
(`words_markedSentences_iff`).
-/

namespace RedArchKM.Text.Pipeline

open Lib List

/-- `unicode.IsSpace` -/
def isSpace (character : Char) : Bool :=
  let code := character.toNat
  (9 ≤ code && code ≤ 13) || code == 0x20 || code == 0x85 || code == 0xA0 || code == 0x1680 ||
    (0x2000 ≤ code && code ≤ 0x200A) || code == 0x2028 || code == 0x2029 || code == 0x202F ||
    code == 0x205F || code == 0x3000

/-- `strings.TrimSpace` -/
def trimSpace (text : List Char) : List Char := trim isSpace text

/-- The whitespace-separated words of a text. -/
def words (text : List Char) : List (List Char) := fields isSpace text

def countWords (text : List Char) : Nat := countFields isSpace false text

/-- `[.!?]` -/
def isMark (character : Char) : Bool := character == '.' || character == '!' || character == '?'

/-- `\s`, which matches fewer spaces than `isSpace`. -/
def isBlank (character : Char) : Bool :=
  character == '\t' || character == '\n' || character.toNat == 12 || character == '\r' ||
    character == ' '

/-- What `sentenceEndRe` matches at the start of a text, and the text after it. -/
def sentenceEndAt (text : List Char) : Option (List Char × List Char) :=
  let marks := text.takeWhile isMark
  let rest := text.dropWhile isMark
  let blanks := rest.takeWhile isBlank
  if marks.isEmpty || blanks.isEmpty then none
  else some (marks ++ blanks, rest.dropWhile isBlank)

/-- The first match of `sentenceEndRe`, between the text before it and the text after it. -/
def findSentenceEnd : List Char → Option (List Char × List Char × List Char)
  | [] => none
  | character :: rest =>
    match sentenceEndAt (character :: rest) with
    | some (delimiter, after) => some ([], delimiter, after)
    | none =>
      (findSentenceEnd rest).map fun (before, found) => (character :: before, found)

/-- The parts of a text, each with the match after it, and the last part. There are at most as many
matches as given. -/
def splitEnds : Nat → List Char → List (List Char × List Char) × List Char
  | 0, text => ([], text)
  | limit + 1, text =>
    match findSentenceEnd text with
    | none => ([], text)
    | some (part, delimiter, after) =>
      let later := splitEnds limit after
      ((part, delimiter) :: later.1, later.2)

/-- `strings.TrimSuffix(delimiter, " ")` -/
def trimSuffix (delimiter : List Char) : List Char :=
  if delimiter.getLast? = some ' ' then delimiter.dropLast else delimiter

def sentenceOf (part delimiter : List Char) : List (List Char) :=
  let part := trimSpace part
  if part.isEmpty then [] else [part ++ trimSuffix delimiter]

/-- The sentences between the matches of `sentenceEndRe`. -/
def markedSentences (text : List Char) : List (List Char) :=
  let split := splitEnds text.length text
  (split.1.flatMap fun (part, delimiter) => sentenceOf part delimiter) ++ sentenceOf split.2 []

def lines (text : List Char) : List (List Char) :=
  ((text.splitOn '\n').map trimSpace).filter fun line => !line.isEmpty

def splitSentences (text : List Char) : List (List Char) :=
  let text := trimSpace text
  if text.isEmpty then []
  else
    let sentences := markedSentences text
    let sentences :=
      if sentences.length ≤ 1 ∧ text.contains '\n' then lines text else sentences
    if sentences.isEmpty then [text] else sentences


/-! ## Sentence ends -/

/-- Marks with spaces behind them. -/
def IsEnd (delimiter : List Char) : Prop :=
  ∃ marks blanks, delimiter = marks ++ blanks ∧ marks ≠ [] ∧ blanks ≠ [] ∧
    (∀ character ∈ marks, isMark character) ∧ ∀ character ∈ blanks, isBlank character

variable {delimiter text : List Char} {ends : List (List Char × List Char)}

theorem sentenceEndAt_spec {after : List Char}
    (found : sentenceEndAt text = some (delimiter, after)) :
    text = delimiter ++ after ∧ IsEnd delimiter := by
  unfold sentenceEndAt at found
  dsimp only at found
  split at found
  · cases found
  · rename_i notEmpty
    cases found
    rw [Bool.or_eq_true, not_or, List.isEmpty_iff, List.isEmpty_iff] at notEmpty
    refine ⟨?_, _, _, rfl, notEmpty.1, notEmpty.2, fun character => List.mem_takeWhile_imp,
      fun character => List.mem_takeWhile_imp⟩
    rw [List.append_assoc, takeWhile_append_dropWhile, takeWhile_append_dropWhile]

theorem findSentenceEnd_spec {part after : List Char}
    (found : findSentenceEnd text = some (part, delimiter, after)) :
    text = part ++ delimiter ++ after ∧ IsEnd delimiter := by
  induction text generalizing part with
  | nil => cases found
  | cons character rest ih =>
    unfold findSentenceEnd at found
    split at found
    · rename_i isMatch
      cases found
      exact sentenceEndAt_spec isMatch
    · obtain ⟨⟨before, later⟩, isFound, same⟩ := Option.map_eq_some_iff.mp found
      cases same
      obtain ⟨rfl, isEnd⟩ := ih isFound
      exact ⟨rfl, isEnd⟩

theorem splitEnds_spec (limit : Nat) (text : List Char) :
    text = ((splitEnds limit text).1.flatMap fun (part, delimiter) => part ++ delimiter) ++
        (splitEnds limit text).2 ∧
      ∀ found ∈ (splitEnds limit text).1, IsEnd found.2 := by
  induction limit generalizing text with
  | zero => exact ⟨rfl, fun found isPart => absurd isPart not_mem_nil⟩
  | succ limit ih =>
    unfold splitEnds
    split
    · exact ⟨rfl, fun found isPart => absurd isPart not_mem_nil⟩
    · rename_i part delimiter after isFound
      obtain ⟨same, isEnd⟩ := findSentenceEnd_spec isFound
      obtain ⟨later, areEnds⟩ := ih after
      refine ⟨?_, ?_⟩
      · rwa [flatMap_cons, List.append_assoc, ← later]
      · intro found isPart
        rcases mem_cons.mp isPart with rfl | isLater
        · exact isEnd
        · exact areEnds found isLater

/-! ## The words of the sentences -/

theorem isSpace_of_isBlank {character : Char} (blank : isBlank character) : isSpace character := by
  unfold isBlank at blank
  simp only [Bool.or_eq_true, beq_iff_eq] at blank
  rcases blank with (((rfl | rfl) | isFeed) | rfl) | rfl
  · rfl
  · rfl
  · unfold isSpace
    rw [isFeed]
    rfl
  · rfl
  · rfl

theorem isSpace_of_isMark {character : Char} (mark : isMark character) :
    isSpace character = false := by
  unfold isMark at mark
  simp only [Bool.or_eq_true, beq_iff_eq] at mark
  rcases mark with (rfl | rfl) | rfl <;> rfl

theorem IsEnd.words_eq (isEnd : IsEnd delimiter) :
    ∃ marks, marks ≠ [] ∧ (∀ character ∈ marks, isSpace character = false) ∧
      (∀ text more, words (text ++ (delimiter ++ more)) = words (text ++ marks) ++ words more) ∧
      ∃ blanks, trimSuffix delimiter = marks ++ blanks ∧
        ∀ character ∈ blanks, isSpace character := by
  obtain ⟨marks, blanks, rfl, isMarks, notEmpty, areMarks, areBlanks⟩ := isEnd
  refine ⟨marks, isMarks, fun character member => isSpace_of_isMark (areMarks character member),
    fun text more => ?_, ?_⟩
  · rw [List.append_assoc, ← List.append_assoc text marks]
    exact fields_append_spaces notEmpty fun character member =>
      isSpace_of_isBlank (areBlanks character member)
  · unfold trimSuffix
    split
    · refine ⟨blanks.dropLast, dropLast_append_of_ne_nil notEmpty, fun character member => ?_⟩
      exact isSpace_of_isBlank (areBlanks character (dropLast_subset _ member))
    · exact ⟨blanks, rfl, fun character member =>
        isSpace_of_isBlank (areBlanks character member)⟩

/-- The part ends in a word, which a sentence end behind it ends. -/
def attached (part : List Char) : Bool := part.getLast?.any fun character => !isSpace character

theorem attached_concat (body : List Char) (last : Char) :
    attached (body ++ [last]) = !isSpace last := by
  unfold attached
  rw [getLast?_concat]
  rfl

theorem words_sentenceOf {part : List Char} (isEnd : IsEnd delimiter) (isAttached : attached part) :
    (sentenceOf part delimiter).flatMap words = words (part ++ delimiter) := by
  obtain ⟨marks, isMarks, solid, apart, blanks, isSuffix, areBlanks⟩ := isEnd.words_eq
  induction part using List.reverseRecOn with
  | nil => cases isAttached
  | append_singleton body last _ =>
    rw [attached_concat] at isAttached
    have isLast : isSpace last = false := by simpa using isAttached
    have trimmed : trimSpace (body ++ [last]) = (body ++ [last]).dropWhile isSpace :=
      trim_concat isLast
    have notBlank : trimSpace (body ++ [last]) ≠ [] := by
      intro isBlank
      have space := trim_eq_nil_iff.mp isBlank last (by simp)
      rw [isLast] at space
      cases space
    have before : (body ++ [last] ++ (marks ++ blanks)).dropWhile isSpace =
        trimSpace (body ++ [last]) ++ (marks ++ blanks) := by
      rw [List.dropWhile_append, ← trimmed, if_neg]
      rwa [List.isEmpty_iff]
    have whole := apart (body ++ [last]) []
    rw [append_nil, show words [] = [] from rfl, append_nil] at whole
    unfold sentenceOf
    rw [if_neg (by rwa [List.isEmpty_iff]), List.flatMap_singleton, isSuffix, ← before, whole]
    unfold words
    rw [fields_dropWhile, ← List.append_assoc, fields_append_blank areBlanks]

theorem countWords_eq (text : List Char) : countWords text = (words text).length :=
  countFields_eq text

theorem length_words_sentenceOf {part : List Char} (isEnd : IsEnd delimiter)
    (notAttached : attached part = false) :
    ((sentenceOf part delimiter).flatMap words).length < (words (part ++ delimiter)).length := by
  obtain ⟨marks, isMarks, solid, apart, blanks, isSuffix, areBlanks⟩ := isEnd.words_eq
  -- the marks are a word of their own
  have whole : words (part ++ delimiter) = words part ++ [marks] := by
    have here := apart part []
    rw [append_nil, show words [] = [] from rfl, append_nil] at here
    rw [here]
    induction part using List.reverseRecOn with
    | nil => exact fields_solid solid isMarks
    | append_singleton body last _ =>
      rw [attached_concat] at notAttached
      have isLast : isSpace last := by simpa using notAttached
      unfold words
      rw [List.append_assoc, singleton_append, fields_append_space isLast,
        fields_concat_space isLast, fields_solid solid isMarks]
  rw [whole, length_append, length_singleton]
  unfold sentenceOf
  dsimp only
  split
  · exact Nat.lt_of_le_of_lt (Nat.zero_le _) (Nat.lt_succ_self _)
  · rename_i notBlank
    rw [List.isEmpty_iff] at notBlank
    obtain ⟨body, last, same, isLast⟩ := exists_concat_trim notBlank
    have words_part : words (trimSpace part) = words part := fields_trim part
    have count : countWords (trimSpace part ++ (marks ++ blanks)) = countWords (trimSpace part) := by
      have marked : countFields isSpace true (marks ++ blanks) = 0 :=
        countFields_solid solid areBlanks
      have opened : countWords (trimSpace part ++ (marks ++ blanks)) =
          countWords (trimSpace part) + countFields isSpace true (marks ++ blanks) := by
        unfold trimSpace
        rw [same]
        exact countFields_concat_append isLast false
      rw [opened, marked, Nat.add_zero]
    rw [List.flatMap_singleton, isSuffix, ← countWords_eq, count, countWords_eq, words_part]
    exact Nat.lt_succ_self _

theorem words_sentenceOf_last (part : List Char) :
    (sentenceOf part []).flatMap words = words part := by
  have trimmed : words (trimSpace part) = words part := fields_trim part
  unfold sentenceOf
  dsimp only
  split
  · rename_i isBlank
    rw [← trimmed, isEmpty_iff.mp isBlank]
    rfl
  · rw [List.flatMap_singleton, show trimSuffix [] = [] from rfl, append_nil, trimmed]

def endedSentences (ends : List (List Char × List Char)) : List (List Char) :=
  ends.flatMap fun (part, delimiter) => sentenceOf part delimiter

def endedWords (ends : List (List Char × List Char)) : List (List Char) :=
  ends.flatMap fun (part, delimiter) => words (part ++ delimiter)

section

variable (areEnds : ∀ found ∈ ends, IsEnd found.2)

include areEnds

theorem words_ends (more : List Char) :
    words ((ends.flatMap fun (part, delimiter) => part ++ delimiter) ++ more) =
      endedWords ends ++ words more := by
  induction ends with
  | nil => rfl
  | cons found rest ih =>
    have later := ih fun other member => areEnds other (mem_cons_of_mem _ member)
    obtain ⟨marks, _, _, apart, _⟩ := (areEnds found mem_cons_self).words_eq
    have here := apart found.1 []
    rw [append_nil, show words [] = [] from rfl, append_nil] at here
    unfold endedWords
    rw [flatMap_cons, flatMap_cons, List.append_assoc, List.append_assoc, apart, later,
      List.append_assoc]
    exact congrArg (· ++ _) here.symm

theorem words_endedSentences (areAttached : ∀ found ∈ ends, attached found.1) :
    (endedSentences ends).flatMap words = endedWords ends := by
  induction ends with
  | nil => rfl
  | cons found rest ih =>
    have later := ih (fun other member => areEnds other (mem_cons_of_mem _ member))
      fun other member => areAttached other (mem_cons_of_mem _ member)
    have here := words_sentenceOf (areEnds found mem_cons_self) (areAttached found mem_cons_self)
    unfold endedSentences endedWords
    rw [flatMap_cons, flatMap_append, here, flatMap_cons]
    exact congrArg _ later

theorem length_words_endedSentences :
    ((endedSentences ends).flatMap words).length ≤ (endedWords ends).length ∧
      ((∃ found ∈ ends, attached found.1 = false) →
        ((endedSentences ends).flatMap words).length < (endedWords ends).length) := by
  induction ends with
  | nil =>
    refine ⟨Nat.le_refl _, ?_⟩
    rintro ⟨found, isEnd, _⟩
    cases isEnd
  | cons found rest ih =>
    obtain ⟨laterLe, laterLt⟩ := ih fun other member => areEnds other (mem_cons_of_mem _ member)
    have isEnd := areEnds found mem_cons_self
    have sentences : ((endedSentences (found :: rest)).flatMap words).length =
        ((sentenceOf found.1 found.2).flatMap words).length +
          ((endedSentences rest).flatMap words).length := by
      rw [← length_append, ← flatMap_append]
      rfl
    have parts : (endedWords (found :: rest)).length =
        (words (found.1 ++ found.2)).length + (endedWords rest).length := by
      rw [← length_append]
      rfl
    rw [sentences, parts]
    cases isAttached : attached found.1 with
    | false =>
      have fewer := length_words_sentenceOf isEnd isAttached
      exact ⟨by omega, fun _ => by omega⟩
    | true =>
      rw [words_sentenceOf isEnd isAttached]
      refine ⟨by omega, ?_⟩
      rintro ⟨other, member, notAttached⟩
      rcases mem_cons.mp member with rfl | isLater
      · rw [isAttached] at notAttached
        cases notAttached
      · have fewer := laterLt ⟨other, isLater, notAttached⟩
        omega

end

/-- **The sentences have the words of the text exactly if every sentence end follows a word.** -/
theorem words_markedSentences_iff (text : List Char) :
    (markedSentences text).flatMap words = words text ↔
      ∀ found ∈ (splitEnds text.length text).1, attached found.1 := by
  obtain ⟨whole, areEnds⟩ := splitEnds_spec text.length text
  have sentences : (markedSentences text).flatMap words =
      (endedSentences (splitEnds text.length text).1).flatMap words ++
        words (splitEnds text.length text).2 := by
    rw [← words_sentenceOf_last, ← flatMap_append]
    rfl
  have parts : words text = endedWords (splitEnds text.length text).1 ++
      words (splitEnds text.length text).2 := by
    rw [← words_ends areEnds, ← whole]
  rw [sentences, parts]
  constructor
  · intro same found isEnd
    by_contra notAttached
    have fewer := (length_words_endedSentences areEnds).2
      ⟨found, isEnd, Bool.eq_false_iff.mpr notAttached⟩
    rw [append_cancel_right same] at fewer
    exact Nat.lt_irrefl _ fewer
  · intro areAttached
    rw [words_endedSentences areEnds areAttached]

theorem attached_append_spaces {spaces : List Char} (notEmpty : spaces ≠ [])
    (blank : ∀ character ∈ spaces, isSpace character) : attached (text ++ spaces) = false := by
  have isLast := blank (spaces.getLast notEmpty) (getLast_mem notEmpty)
  rw [← dropLast_append_getLast notEmpty, ← List.append_assoc, attached_concat, isLast]
  rfl

theorem attached_ends (areEnds : ∀ found ∈ ends, IsEnd found.2) :
    attached (ends.flatMap fun (part, delimiter) => part ++ delimiter) = false := by
  induction ends using List.reverseRecOn with
  | nil => rfl
  | append_singleton ends found _ =>
    obtain ⟨part, delimiter⟩ := found
    obtain ⟨marks, blanks, rfl, _, notEmpty, _, areBlanks⟩ := areEnds (part, delimiter) (by simp)
    rw [flatMap_append, List.flatMap_singleton]
    rw [← List.append_assoc, ← List.append_assoc]
    exact attached_append_spaces notEmpty fun character member =>
      isSpace_of_isBlank (areBlanks character member)

theorem markedSentences_ne_nil (notBlank : trimSpace text ≠ []) :
    markedSentences (trimSpace text) ≠ [] := by
  intro isNil
  obtain ⟨body, last, isText, isLast⟩ := exists_concat_trim notBlank
  obtain ⟨whole, areEnds⟩ := splitEnds_spec (trimSpace text).length (trimSpace text)
  have isAttached : attached (trimSpace text) := by
    rw [show trimSpace text = body ++ [last] from isText, attached_concat, isLast]
    rfl
  have noSentence : sentenceOf (splitEnds (trimSpace text).length (trimSpace text)).2 [] = [] :=
    (append_eq_nil_iff.mp isNil).2
  have isBlank : ∀ character ∈ (splitEnds (trimSpace text).length (trimSpace text)).2,
      isSpace character := by
    rw [← trim_eq_nil_iff]
    unfold sentenceOf at noSentence
    dsimp only at noSentence
    split at noSentence
    · rename_i isEmpty
      exact isEmpty_iff.mp isEmpty
    · cases noSentence
  rw [whole] at isAttached
  by_cases isEmpty : (splitEnds (trimSpace text).length (trimSpace text)).2 = []
  · rw [isEmpty, append_nil, attached_ends areEnds] at isAttached
    cases isAttached
  · rw [attached_append_spaces isEmpty isBlank] at isAttached
    cases isAttached

/-! ## Lines -/

theorem words_lines (text : List Char) : (lines text).flatMap words = words text := by
  have whole : words text = (text.splitOn '\n').flatMap words := by
    have joinedLines := @fields_intercalate Char isSpace '\n' rfl (text.splitOn '\n')
    rw [intercalate_splitOn] at joinedLines
    exact joinedLines
  rw [whole]
  unfold lines
  induction text.splitOn '\n' with
  | nil => rfl
  | cons line rest ih =>
    have trimmed : words (trimSpace line) = words line := fields_trim line
    rw [map_cons, filter_cons, flatMap_cons, ← ih]
    split
    · rw [flatMap_cons, trimmed]
    · rename_i isBlank
      have isNil : trimSpace line = [] := by simpa using isBlank
      rw [← trimmed, isNil]
      rfl

/-- Every sentence end follows a word, unless the text is one sentence of several lines. -/
def EndsFollowWords (text : List Char) : Prop :=
  ((markedSentences text).length ≤ 1 ∧ text.contains '\n') ∨
    ∀ found ∈ (splitEnds text.length text).1, attached found.1

/-- **The sentences of a text have its words in just these cases.** -/
theorem words_splitSentences_iff (text : List Char) :
    (splitSentences text).flatMap words = words text ↔ EndsFollowWords (trimSpace text) := by
  have trimmed : words (trimSpace text) = words text := fields_trim text
  rw [← trimmed]
  unfold splitSentences EndsFollowWords
  dsimp only
  by_cases isBlank : trimSpace text = []
  · rw [isBlank]
    simp [splitEnds, words]
  · rw [if_neg (by rwa [List.isEmpty_iff])]
    by_cases byLines : (markedSentences (trimSpace text)).length ≤ 1 ∧ (trimSpace text).contains '\n'
    · rw [if_pos byLines]
      refine ⟨fun _ => .inl byLines, fun _ => ?_⟩
      split
      · exact List.flatMap_singleton _ _
      · exact words_lines _
    · rw [if_neg byLines, if_neg (by rw [List.isEmpty_iff]; exact markedSentences_ne_nil isBlank),
        words_markedSentences_iff]
      exact (or_iff_right byLines).symm

-- the mark between two spaces is lost
example : splitSentences "a. ! b".toList = ["a.".toList, "b".toList] := by decide +kernel

end RedArchKM.Text.Pipeline
