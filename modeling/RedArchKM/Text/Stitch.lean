import Mathlib.Data.List.DropRight

/-!
# Stitching chunks

Neighbouring chunks of a document overlap. `stitch` joins them to a readable text: where a chunk
opens with the end of what the one before it added, at word boundaries and within the lengths that
an overlap can have, that is left out; where the section changes, a heading is put in. Texts are
lists of characters.
-/

namespace RedArchKM.Text

/-! ## Texts -/

/-- The characters that `str.strip` removes. -/
def isSpace (character : Char) : Bool :=
  let code := character.toNat
  (9 ≤ code && code ≤ 13) || (28 ≤ code && code ≤ 32) || code = 0x85 || code = 0xA0 ||
    code = 0x1680 || (0x2000 ≤ code && code ≤ 0x200A) || code = 0x2028 || code = 0x2029 ||
    code = 0x202F || code = 0x205F || code = 0x3000

def lstrip (text : List Char) : List Char := text.dropWhile isSpace

def strip (text : List Char) : List Char := (lstrip text).rdropWhile isSpace

/-! ## Overlaps -/

def minOverlapChars : Nat := 12

/-- `_MAX_OVERLAP_CHARS` -/
def maxOverlapChars : Nat := 300

/-- The first `k` characters of the one text are the last of the other, at word boundaries. -/
def isOverlap (previous following : List Char) (k : Nat) : Bool :=
  let endsOnWord := k = following.length || following[k]? = some ' '
  let startsOnWord := k = previous.length || previous[previous.length - k - 1]? = some ' '
  endsOnWord && startsOnWord && (following.take k).isSuffixOf previous

/-- The longest overlap of at most so many characters. -/
def overlapUpTo (previous following : List Char) : Nat → Nat
  | 0 => 0
  | k + 1 =>
    if k + 1 < minOverlapChars then 0
    else if isOverlap previous following (k + 1) then k + 1
    else overlapUpTo previous following k

def overlapLength (previous following : List Char) : Nat :=
  overlapUpTo previous following (min (min previous.length following.length) maxOverlapChars)

/-! ## Chunks -/

/-- The payload of a chunk. An empty section is none. -/
structure Chunk where
  chunkOrder : Nat
  text : List Char
  sectionPath : Option String := none
  documentTitle : String := ""

structure StitchState where
  parts : List (List Char) := []
  prevText : List Char := []
  sectionPath : Option String := none

def StitchState.enter (state : StitchState) (sectionPath : Option String) (text : List Char) :
    StitchState :=
  if sectionPath = state.sectionPath then state
  else
    let heading := match sectionPath with
      | some path =>
        if text.head? = some '#' then none else some ("\n\n## ".toList ++ path.toList ++ ['\n', '\n'])
      | none => none
    { parts := state.parts ++ match heading with
        | some heading => [heading]
        | none => if state.parts.isEmpty then [] else [['\n', '\n']]
      prevText := []
      sectionPath := sectionPath }

/-- One chunk of `stitch`. -/
def stitchChunk (state : StitchState) (chunk : Chunk) : StitchState :=
  let text := strip chunk.text
  let state := state.enter (chunk.sectionPath.filter (· ≠ "")) text
  if text.isEmpty then state
  else if state.prevText.isEmpty then
    { state with parts := state.parts ++ [text], prevText := text }
  else
    let rest := lstrip (text.drop (overlapLength state.prevText text))
    if rest.isEmpty then state
    else { state with parts := state.parts ++ [[' '], rest], prevText := rest }

def stitch (chunks : List Chunk) (previousSection : Option String) : List Char :=
  strip (chunks.foldl stitchChunk { sectionPath := previousSection }).parts.flatten

end RedArchKM.Text
