import RedArchKM.Lib.Fields
import RedArchKM.Text.Stitch

/-!
# Speakable chunks of a stream

An answer comes in deltas and is spoken in chunks: a buffer is cut behind a sentence end, for the
first chunk also behind a comma, and at a space where it grows too long.

The chunks have the words of the answer exactly if no sentence end at which the buffer is cut has a
word going on behind it (`speaksWords_iff`). Cuts at spaces and behind commas part no word. But a
sentence end may stand before a closing quote or bracket, which is thereby cut off its word, and a
full-width stop needs no space behind it.
-/

namespace RedArchKM.Text.Speech

open Lib List Option

/-! ## Cuts -/

def minFirstChars : Nat := 12

/-- `_SENTENCE_END`, at a character and the one after it. -/
def sentenceEnd (character : Char) (next : Option Char) : Bool :=
  (character ∈ ".!?…".toList && next.any fun next => isSpace next || next ∈ "\"'”’)]".toList) ||
    character ∈ "。！？".toList

def softBreak (character : Char) (next : Option Char) : Bool :=
  character ∈ ",;:".toList && next.any isSpace

/-- `match.end()` of the matches of a pattern of one character, behind some characters. -/
def matchEnds (pattern : Char → Option Char → Bool) (before : Nat) : List Char → List Nat
  | [] => []
  | character :: rest =>
    if pattern character rest.head? then (before + 1) :: matchEnds pattern (before + 1) rest
    else matchEnds pattern (before + 1) rest

/-- `text.rfind(" ")` behind some characters -/
def rfindSpace (before : Nat) : List Char → Option Nat
  | [] => none
  | character :: rest =>
    (rfindSpace (before + 1) rest).or (if character = ' ' then some before else none)

structure Chunker where
  buf : List Char := []
  emitted : Nat := 0

section Chunking

variable (minChars maxChars : Nat)

section

variable (chunker : Chunker)

def floor : Nat := if chunker.emitted = 0 then minFirstChars else minChars

def sentenceCut : Option Nat :=
  (matchEnds sentenceEnd 0 chunker.buf).find? (floor minChars chunker ≤ ·)

def findCut : Option Nat :=
  let clauseCut :=
    if chunker.emitted = 0 then
      (matchEnds softBreak 0 chunker.buf).find? (floor minChars chunker ≤ ·)
    else none
  let spaceCut :=
    if chunker.buf.length ≥ maxChars then
      (rfindSpace 0 (chunker.buf.take maxChars)).filter (· > floor minChars chunker)
    else none
  ((sentenceCut minChars chunker).or clauseCut).or spaceCut

def chunkAt (cut : Nat) : Option (List Char) :=
  some (strip (chunker.buf.take cut)) |>.filter fun chunk => !chunk.isEmpty

def cutAt (cut : Nat) : Chunker where
  buf := lstrip (chunker.buf.drop cut)
  emitted := if (chunkAt chunker cut).isSome then chunker.emitted + 1 else chunker.emitted

end

/-- The loop of `push`, within a number of cuts. -/
def drain : Nat → Chunker → List (List Char) × Chunker
  | 0, chunker => ([], chunker)
  | fuel + 1, chunker =>
    match findCut minChars maxChars chunker with
    | none => ([], chunker)
    | some cut =>
      let (out, last) := drain fuel (cutAt chunker cut)
      ((chunkAt chunker cut).toList ++ out, last)

def push (delta : List Char) (chunker : Chunker) : List (List Char) × Chunker :=
  if delta.isEmpty then ([], chunker)
  else
    drain minChars maxChars (chunker.buf ++ delta).length
      { chunker with buf := chunker.buf ++ delta }

def flush (chunker : Chunker) : Option (List Char) := chunkAt chunker chunker.buf.length

/-- The chunks of the pushes and of the final flush. -/
def speak : List (List Char) → Chunker → List (List Char)
  | [], chunker => (flush chunker).toList
  | delta :: deltas, chunker =>
    (push minChars maxChars delta chunker).1 ++
      speak deltas (push minChars maxChars delta chunker).2

/-! ## The turns of the loop -/

/-- A turn of the loop: the chunker before it and the text that is still to come. -/
abbrev Turn := Chunker × List Char

def drainTurns (later : List Char) : Nat → Chunker → List Turn
  | 0, _ => []
  | fuel + 1, chunker =>
    match findCut minChars maxChars chunker with
    | none => []
    | some cut => (chunker, later) :: drainTurns later fuel (cutAt chunker cut)

/-- The turns at which the buffer is cut. -/
def turns : List (List Char) → Chunker → List Turn
  | [], _ => []
  | delta :: deltas, chunker =>
    (if delta.isEmpty then []
      else drainTurns minChars maxChars deltas.flatten (chunker.buf ++ delta).length
        { chunker with buf := chunker.buf ++ delta }) ++
      turns deltas (push minChars maxChars delta chunker).2

/-- What follows a cut in the whole text. -/
def restAt (cut : Nat) (turn : Turn) : List Char := turn.1.buf.drop cut ++ turn.2

/-- The text goes on with a word. -/
def isInside (rest : List Char) : Bool := rest.head?.any fun character => !isSpace character

/-- The sentence end at which the buffer is cut stands inside a word. -/
def partsWord (turn : Turn) : Bool :=
  (sentenceCut minChars turn.1).any fun cut => isInside (restAt cut turn)

end Chunking

/-- The whitespace-separated words of a text. -/
def words (text : List Char) : List (List Char) := fields isSpace text

/-! ## Where a text is cut -/

section Cuts

variable {text later : List Char} {before cut : Nat}

theorem of_mem_matchEnds {pattern : Char → Option Char → Bool}
    (member : cut ∈ matchEnds pattern before text) :
    ∃ (index : Nat) (character : Char), text[index]? = some character ∧ cut = before + index + 1 ∧
      pattern character text[index + 1]? = true := by
  induction text generalizing before with
  | nil => cases member
  | cons character rest ih =>
    have member : (pattern character rest.head? ∧ cut = before + 1) ∨
        cut ∈ matchEnds pattern (before + 1) rest := by
      unfold matchEnds at member
      split at member
      · rename_i holds
        exact (mem_cons.mp member).imp_left fun same => ⟨holds, same⟩
      · exact .inr member
    rcases member with ⟨holds, rfl⟩ | member
    · exact ⟨0, character, rfl, rfl, by simpa [head?_eq_getElem?] using holds⟩
    · obtain ⟨index, other, found, same, holds⟩ := ih member
      exact ⟨index + 1, other, found, by omega, holds⟩

theorem of_rfindSpace (found : rfindSpace before text = some cut) :
    ∃ index : Nat, text[index]? = some ' ' ∧ cut = before + index := by
  induction text generalizing before with
  | nil => cases found
  | cons character rest ih =>
    rcases or_eq_some_iff.mp found with later | ⟨-, here⟩
    · obtain ⟨index, isSpace, same⟩ := ih later
      exact ⟨index + 1, isSpace, by omega⟩
    · split at here
      · rename_i isSpace
        cases here
        exact ⟨0, congrArg some isSpace, rfl⟩
      · cases here

theorem isSpace_of_sentenceEnd {character : Char} {next : Option Char}
    (holds : sentenceEnd character next = true) : isSpace character = false := by
  have solid : ((".!?…".toList ++ "。！？".toList).all fun stop => !isSpace stop) = true := by decide
  unfold sentenceEnd at holds
  simp only [Bool.or_eq_true, Bool.and_eq_true, decide_eq_true_eq] at holds
  simpa using all_eq_true.mp solid character (mem_append.mpr (holds.imp_left And.left))

variable {minChars maxChars : Nat} {chunker : Chunker}

theorem of_findCut (found : findCut minChars maxChars chunker = some cut) :
    0 < cut ∧
      ((sentenceCut minChars chunker = none ∧
          ∃ space, chunker.buf[cut]? = some space ∧ isSpace space) ∨
        (sentenceCut minChars chunker = some cut ∧
          ∃ body last, chunker.buf.take cut = body ++ [last] ∧ isSpace last = false)) := by
  rcases or_eq_some_iff.mp found with clause | ⟨noClause, atSpace⟩
  · rcases or_eq_some_iff.mp clause with isSentence | ⟨noSentence, isClause⟩
    · obtain ⟨index, character, isLast, same, holds⟩ :=
        of_mem_matchEnds (mem_of_find?_eq_some isSentence)
      obtain rfl : cut = index + 1 := by omega
      refine ⟨by omega, .inr ⟨isSentence, chunker.buf.take index, character, ?_,
        isSpace_of_sentenceEnd holds⟩⟩
      rw [take_add_one, isLast]
      rfl
    · split at isClause
      · obtain ⟨index, character, -, same, holds⟩ :=
          of_mem_matchEnds (mem_of_find?_eq_some isClause)
        obtain rfl : cut = index + 1 := by omega
        obtain ⟨space, isNext, blank⟩ := (Option.any_eq_true ..).mp (Bool.and_eq_true_iff.mp holds).2
        exact ⟨by omega, .inl ⟨noSentence, space, isNext, blank⟩⟩
      · cases isClause
  · have noSentence := (or_eq_none_iff.mp noClause).1
    split at atSpace
    · obtain ⟨isLast, isLong⟩ := filter_eq_some_iff.mp atSpace
      obtain ⟨index, isSpace, same⟩ := of_rfindSpace isLast
      obtain rfl : cut = index := by omega
      have positive := of_decide_eq_true isLong
      refine ⟨by omega, .inl ⟨noSentence, ' ', ?_, rfl⟩⟩
      rw [getElem?_take] at isSpace
      split at isSpace
      · exact isSpace
      · cases isSpace
    · cases atSpace

/-! ## The loop ends -/

theorem length_cutAt (found : findCut minChars maxChars chunker = some cut)
    (notEmpty : chunker.buf ≠ []) : (cutAt chunker cut).buf.length < chunker.buf.length := by
  have positive := (of_findCut found).1
  have short := (dropWhile_suffix isSpace (l := chunker.buf.drop cut)).length_le
  rw [length_drop] at short
  have := length_pos_of_ne_nil notEmpty
  change ((chunker.buf.drop cut).dropWhile isSpace).length < _
  omega

theorem findCut_nil (isEmpty : chunker.buf = []) : findCut minChars maxChars chunker = none := by
  have noSpace : (rfindSpace 0 (chunker.buf.take maxChars)) = none := by
    rw [isEmpty, take_nil]
    rfl
  unfold findCut sentenceCut
  rw [noSpace, isEmpty]
  simp [matchEnds]

theorem findCut_drain {fuel : Nat} (enough : chunker.buf.length ≤ fuel) :
    findCut minChars maxChars (drain minChars maxChars fuel chunker).2 = none := by
  induction fuel generalizing chunker with
  | zero => exact findCut_nil (length_eq_zero_iff.mp (Nat.le_zero.mp enough))
  | succ fuel ih =>
    unfold drain
    split
    · assumption
    · rename_i cut found
      have notEmpty : chunker.buf ≠ [] := fun isEmpty => by
        rw [findCut_nil isEmpty] at found
        cases found
      have shorter := length_cutAt found notEmpty
      exact ih (by omega)

/-! ## Words -/

theorem words_append {first rest : List Char} (outside : isInside rest = false) :
    words (first ++ rest) = words first ++ words rest := by
  cases rest with
  | nil => simp [words]
  | cons character rest =>
    have blank : isSpace character := by simpa [isInside] using outside
    unfold words
    rw [fields_append_space blank, fields_cons_space blank]

theorem length_words_append {body rest : List Char} {last : Char} (solid : isSpace last = false)
    (inside : isInside rest = true) :
    (words (body ++ [last])).length + (words rest).length =
      (words (body ++ [last] ++ rest)).length + 1 := by
  unfold words
  rw [← countFields_eq, ← countFields_eq, ← countFields_eq, countFields_concat_append solid]
  cases rest with
  | nil => cases inside
  | cons character rest =>
    have other : isSpace character = false := by simpa [isInside] using inside
    simp [countFields, other, Nat.add_assoc]

theorem words_chunkAt : (chunkAt chunker cut).toList.flatMap words = words (chunker.buf.take cut) := by
  have same : words (strip (chunker.buf.take cut)) = words (chunker.buf.take cut) := fields_trim _
  rw [← same]
  cases isChunk : strip (chunker.buf.take cut) with
  | nil => simp [chunkAt, isChunk, words]
  | cons character rest => simp [chunkAt, isChunk, Option.filter]

theorem words_cutAt : words ((cutAt chunker cut).buf ++ later) = words (restAt cut (chunker, later)) := by
  change fields isSpace ((chunker.buf.drop cut).dropWhile isSpace ++ later) =
    fields isSpace (chunker.buf.drop cut ++ later)
  induction chunker.buf.drop cut with
  | nil => rfl
  | cons character rest ih =>
    by_cases blank : isSpace character
    · rw [dropWhile_cons_of_pos blank, cons_append, fields_cons_space blank, ih]
    · rw [dropWhile_cons_of_neg blank]

/-! ## Chunks of a whole text -/

def Splits (chunks : List (List Char)) (parted : Nat) (text : List Char) : Prop :=
  (parted = 0 → chunks.flatMap words = words text) ∧
    (chunks.flatMap words).length = (words text).length + parted

theorem splits_cut (found : findCut minChars maxChars chunker = some cut)
    {chunks : List (List Char)} {parted : Nat}
    (splits : Splits chunks parted ((cutAt chunker cut).buf ++ later)) :
    Splits ((chunkAt chunker cut).toList ++ chunks)
      ((if partsWord minChars (chunker, later) then 1 else 0) + parted) (chunker.buf ++ later) := by
  obtain ⟨same, counts⟩ := splits
  rw [words_cutAt] at same counts
  have isText : chunker.buf ++ later = chunker.buf.take cut ++ restAt cut (chunker, later) := by
    unfold restAt
    rw [← append_assoc, take_append_drop]
  unfold Splits
  rw [flatMap_append, words_chunkAt, isText, length_append, counts]
  cases inside : isInside (restAt cut (chunker, later)) with
  | false =>
    have parts : partsWord minChars (chunker, later) = false := by
      unfold partsWord
      rcases (of_findCut found).2 with ⟨isNone, -⟩ | ⟨isSome, -⟩
      · rw [isNone]
        rfl
      · rwa [isSome]
    rw [parts, words_append inside, length_append, if_neg Bool.false_ne_true]
    exact ⟨fun none => by rw [same (by omega)], by omega⟩
  | true =>
    rcases (of_findCut found).2 with ⟨-, space, isNext, blank⟩ | ⟨isSome, body, last, isEnd, solid⟩
    · rw [restAt, drop_eq_getElem?_toList_append, isNext] at inside
      simp [isInside, blank] at inside
    · have parts : partsWord minChars (chunker, later) = true := by
        unfold partsWord
        rwa [isSome]
      have more := @length_words_append body _ last solid inside
      rw [parts, if_pos rfl, isEnd]
      exact ⟨fun none => by omega, by omega⟩

theorem splits_drain {chunks : List (List Char)} {parted fuel : Nat}
    (splits : Splits chunks parted ((drain minChars maxChars fuel chunker).2.buf ++ later)) :
    Splits ((drain minChars maxChars fuel chunker).1 ++ chunks)
      ((drainTurns minChars maxChars later fuel chunker).countP (partsWord minChars) + parted)
      (chunker.buf ++ later) := by
  induction fuel generalizing chunker with
  | zero => simpa [drain, drainTurns] using splits
  | succ fuel ih =>
    unfold drain at splits ⊢
    unfold drainTurns
    split at splits
    · simpa using splits
    · rename_i cut found
      have whole := splits_cut found (ih splits)
      rw [← append_assoc, ← Nat.add_assoc] at whole
      rwa [countP_cons, Nat.add_comm (List.countP _ _)]

theorem splits_speak (deltas : List (List Char)) :
    Splits (speak minChars maxChars deltas chunker)
      ((turns minChars maxChars deltas chunker).countP (partsWord minChars))
      (chunker.buf ++ deltas.flatten) := by
  induction deltas generalizing chunker with
  | nil =>
    have isAll : ((flush chunker).toList).flatMap words = words chunker.buf := by
      unfold flush
      rw [words_chunkAt, take_length]
    simp [Splits, speak, turns, isAll]
  | cons delta deltas ih =>
    unfold speak turns push
    rw [countP_append, flatten_cons, ← append_assoc]
    split
    · rename_i isEmpty
      rw [isEmpty_iff.mp isEmpty]
      simpa using ih
    · exact splits_drain ih

end Cuts

/-- **The chunks of a stream have the words of its text exactly if no sentence end at which it is cut
stands inside a word.** -/
theorem speaksWords_iff (minChars maxChars : Nat) (deltas : List (List Char)) :
    words ([' '].intercalate (speak minChars maxChars deltas {})) = words deltas.flatten ↔
      ∀ turn ∈ turns minChars maxChars deltas {}, partsWord minChars turn = false := by
  obtain ⟨whole, counts⟩ := @splits_speak minChars maxChars {} deltas
  have joined : words ([' '].intercalate (speak minChars maxChars deltas {})) =
      (speak minChars maxChars deltas {}).flatMap words := fields_intercalate rfl _
  have isCount : (turns minChars maxChars deltas {}).countP (partsWord minChars) = 0 ↔
      ∀ turn ∈ turns minChars maxChars deltas {}, partsWord minChars turn = false := by
    rw [countP_eq_zero]
    exact forall₂_congr fun turn _ => by rw [Bool.not_eq_true]
  rw [← isCount]
  constructor
  · intro same
    have lengths := congrArg List.length (joined.symm.trans same)
    rw [counts] at lengths
    exact Nat.add_eq_left.mp lengths
  · intro none
    exact joined.trans (whole none)

/-- The quotation mark behind a sentence end gets a word of its own. -/
theorem not_speaksWords_quoted :
    words ([' '].intercalate (speak 60 240 ["He said \"Stop it now.\" Then he left.".toList] {})) ≠
      words ["He said \"Stop it now.\" Then he left.".toList].flatten := by
  decide +kernel

end RedArchKM.Text.Speech
