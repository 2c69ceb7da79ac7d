import RedArchKM.Agents.Records

/-!
# Review boards, read back from the diary

A board's rounds, its verdicts and what it cleared are lines of the work order's diary, next to
everything else that people and agents write there. The rules here are pure: which seats a gate
convenes, how its lines are written, and what a list of texts says about a gate.

Texts are read character by character. Which characters outside ASCII count as letters is left
open.
-/

namespace RedArchKM.Agents

/-! ## Texts -/

abbrev Text := List Char

/-- `str.isspace` of one character, which is also what `\s` matches. -/
def isSpace (c : Char) : Bool :=
  (0x09 ≤ c.val && c.val ≤ 0x0D) || (0x1C ≤ c.val && c.val ≤ 0x20) || c.val = 0x85 ||
    c.val = 0xA0 || c.val = 0x1680 || (0x2000 ≤ c.val && c.val ≤ 0x200A) || c.val = 0x2028 ||
    c.val = 0x2029 || c.val = 0x202F || c.val = 0x205F || c.val = 0x3000

/-- Where `str.splitlines` breaks a line. -/
def isLineBreak (c : Char) : Bool :=
  (0x0A ≤ c.val && c.val ≤ 0x0D) || (0x1C ≤ c.val && c.val ≤ 0x1E) || c.val = 0x85 ||
    c.val = 0x2028 || c.val = 0x2029

/-- `[A-Za-z0-9_\-]` -/
def isNameChar (c : Char) : Bool := c.isAlphanum || c = '_' || c = '-'

/-- `[0-9a-f]` -/
def isHexDigit (c : Char) : Bool := c.isDigit || ('a' ≤ c && c ≤ 'f')

def strip (text : Text) : Text :=
  ((text.dropWhile isSpace).reverse.dropWhile isSpace).reverse

/-- `needle in text` -/
def contains (needle : Text) : Text → Bool
  | [] => needle.isEmpty
  | c :: rest => needle.isPrefixOf (c :: rest) || contains needle rest

theorem contains_iff {needle text : Text} : contains needle text ↔ needle <:+: text := by
  induction text with
  | nil => simp [contains]
  | cons c rest ih =>
    unfold contains
    rw [Bool.or_eq_true, List.isPrefixOf_iff_prefix, ih, List.infix_cons_iff]

section Words

variable (letter : Char → Bool)

/-- `\w`, given which characters outside ASCII are letters or digits -/
def isWordChar (c : Char) : Bool :=
  if c.val < 0x80 then c.isAlphanum || c = '_' else letter c

/-- Whether a word that stands next to this character ends there. -/
def isBoundary : Option Char → Bool
  | some c => !isWordChar letter c
  | none => true

def ignoresCase (expected actual : Char) : Bool :=
  actual.toUpper = expected || (expected = 'S' && actual.val = 0x17F) ||
    (expected = 'I' && (actual.val = 0x130 || actual.val = 0x131))

def afterWord : Text → Text → Option Text
  | [], rest => some rest
  | _ :: _, [] => none
  | expected :: word, actual :: rest =>
    if ignoresCase expected actual then afterWord word rest else none

/-- Whether the text, read after the character, holds the word: `\bWORD\b`, ignoring case. -/
def hasWord (word : Text) : Option Char → Text → Bool
  | _, [] => false
  | before, c :: rest =>
    (isBoundary letter before &&
      (afterWord word (c :: rest)).any fun after => isBoundary letter after.head?) ||
    hasWord word (some c) rest

end Words

/-! ## Vocabulary -/

inductive Verdict where
  | pass | fail
deriving DecidableEq

def Verdict.name : Verdict → String
  | .pass => "PASS"
  | .fail => "FAIL"

/-- The two gates that put a submission past a board. -/
inductive Gate where
  | plan | delivery
deriving DecidableEq

def Gate.name : Gate → String
  | .plan => "plan"
  | .delivery => "delivery"

/-- After this many failed rounds the work goes to the human anyway. -/
def maxRounds : Nat := 2

def convenedTag : String := "[[REVIEW-CONVENED]]"

def verdictTag : String := "[[REVIEW]]"

def passedTag : String := "[[REVIEW-PASSED]]"

/-- The round cap let it through with objections. -/
def releasedTag : String := "[[REVIEW-RELEASED]]"

/-- One reviewer and the question they are being asked. -/
structure Seat where
  agent : String
  lens : String := ""

/-- The fingerprint of a submission: sixteen hexadecimal digits. -/
structure Digest where
  text : String
  length_eq : text.toList.length = 16
  hex : ∀ c ∈ text.toList, isHexDigit c
deriving DecidableEq

structure BoardOutcome where
  verdicts : List (String × Verdict) := []
  pending : List String := []
  failed : List String := []

def BoardOutcome.settled (outcome : BoardOutcome) : Bool := outcome.pending.isEmpty

def BoardOutcome.approved (outcome : BoardOutcome) : Bool :=
  outcome.settled && outcome.failed.isEmpty

/-! ## Writing a line -/

def conveneMarker (gate : Gate) (digest : Digest) (seats : List Seat) : String :=
  "🏛️ " ++ convenedTag ++ " " ++ gate.name ++ " (" ++ digest.text ++ ") — " ++
    ", ".intercalate (seats.map Seat.agent)

def verdictMarker (reviewer : String) (verdict : Verdict) (note : String) : String :=
  "🏛️ " ++ verdictTag ++ " " ++ verdict.name ++ " by " ++ reviewer ++ ": " ++ note

def clearedMarker (tag : String) (gate : Gate) (digest : Digest) (note : String) : String :=
  "🏛️ " ++ tag ++ " " ++ gate.name ++ " (" ++ digest.text ++ ") — " ++ note

def reviewBrief (gate : Gate) (seat : Seat) (workOrder submission tasks : String) : String :=
  "You are reviewing work on the work order “" ++ workOrder ++ "”, as one of a small board.\n\n" ++
    "YOUR LENS — answer this and nothing else:\n" ++ seat.lens ++ "\n\n" ++
    "WHAT IS BEING SUBMITTED (" ++ gate.name ++ "):\n" ++ submission ++ "\n\n" ++
    "THE TASK LIST:\n" ++ (if tasks.isEmpty then "(none)" else tasks) ++ "\n\n" ++
    "Reply with reply_to_peer. Begin your answer with PASS or FAIL on its own first line, " ++
    "then your findings — be specific and cite what you are objecting to. " ++
    "FAIL only for something that would actually cause harm or rework; a preference is not a FAIL. " ++
    "If you FAIL it, say plainly what would have to change to make it a PASS."

/-! ## Reading the diary back -/

/-- The verdict a reviewer declares: the first line with FAIL or PASS decides, FAIL first; an
answer without either is a FAIL. -/
def parseVerdict (letter : Char → Bool) (answer : String) : Verdict :=
  let declares (verdict : Verdict) (line : Text) :=
    hasWord letter verdict.name.toList none line
  match (answer.toList.splitOnP isLineBreak).find? fun line =>
      declares .fail line || declares .pass line with
  | some line => if declares .fail line then .fail else .pass
  | none => .fail

def convenes (gate : Gate) (text : String) : Bool :=
  contains (convenedTag ++ " " ++ gate.name ++ " ").toList text.toList

def roundsRun (texts : List String) (gate : Gate) : Nat :=
  texts.countP fun text => contains convenedTag.toList text.toList && convenes gate text

/-- The first sixteen hexadecimal digits in parentheses. -/
def digestIn : Text → Option Text
  | [] => none
  | c :: rest =>
    let digits := rest.take 16
    if c = '(' && digits.length = 16 && digits.all isHexDigit && (rest.drop 16).head? = some ')' then
      some digits
    else digestIn rest

/-- The fingerprint the board last reviewed. -/
def lastDigest (texts : List String) (gate : Gate) : Option String :=
  texts.reverse.findSome? fun text =>
    if convenes gate text then (digestIn text.toList).map String.ofList else none

/-- The names after the first dash of a convening line. -/
def seatsIn (text : Text) : List String :=
  ((((text.dropWhile (· ≠ '—')).drop 1).splitOn ',').map fun name =>
    String.ofList (strip name)).filter fun name => !name.isEmpty

def currentSeats (texts : List String) (gate : Gate) : List String :=
  match texts.reverse.find? (convenes gate) with
  | some text => seatsIn text.toList
  | none => []

/-- A verdict at the start of a text: `(PASS|FAIL)\b\s+by\s+(name)`. -/
def verdictAt (text : Text) : Option (Verdict × String) :=
  match text with
  | 'P' :: 'A' :: 'S' :: 'S' :: rest => (reviewerIn rest).map fun name => (.pass, name)
  | 'F' :: 'A' :: 'I' :: 'L' :: rest => (reviewerIn rest).map fun name => (.fail, name)
  | _ => none
where
  /-- The name after `\s+by\s+`. -/
  reviewerIn (rest : Text) : Option String :=
    match rest.span isSpace with
    | (_ :: _, 'b' :: 'y' :: rest) =>
      match rest.span isSpace with
      | (_ :: _, rest) =>
        match rest.takeWhile isNameChar with
        | [] => none
        | name => some (String.ofList name)
      | _ => none
    | _ => none

/-- The first verdict in a text that is read after the character. -/
def verdictIn (letter : Char → Bool) : Option Char → Text → Option (Verdict × String)
  | _, [] => none
  | before, c :: rest =>
    match if isBoundary letter before then verdictAt (c :: rest) else none with
    | some found => some found
    | none => verdictIn letter (some c) rest

def filedVerdict (letter : Char → Bool) (text : String) : Option (Verdict × String) :=
  if contains verdictTag.toList text.toList then verdictIn letter none text.toList else none

/-- `verdicts[who] = verdict` -/
def setVerdict (who : String) (verdict : Verdict) :
    List (String × Verdict) → List (String × Verdict)
  | [] => [(who, verdict)]
  | entry :: rest => if entry.1 = who then (who, verdict) :: rest else entry :: setVerdict who verdict rest

/-- What was written after the latest convening. -/
def sinceConvened (texts : List String) (gate : Gate) : List String :=
  (texts.reverse.takeWhile fun text => !convenes gate text).reverse

def verdictsOf (letter : Char → Bool) (seats texts : List String) : List (String × Verdict) :=
  texts.foldl (fun verdicts text =>
    match filedVerdict letter text with
    | some (verdict, who) => if seats.contains who then setVerdict who verdict verdicts else verdicts
    | none => verdicts) []

/-- Where the current round stands. -/
def outcome (letter : Char → Bool) (texts : List String) (gate : Gate) : BoardOutcome :=
  match currentSeats texts gate with
  | [] => {}
  | seats =>
    let verdicts := verdictsOf letter seats (sinceConvened texts gate)
    { verdicts
      pending := seats.filter fun seat => (verdicts.lookup seat).isNone
      failed := (verdicts.filter fun entry => entry.2 = .fail).map Prod.fst }

/-- Whether this submission has already cleared the gate. -/
def hasPassed (texts : List String) (gate : Gate) (digest : Digest) : Bool :=
  let cleared (tag text : String) :=
    contains (tag ++ " " ++ gate.name ++ " (" ++ digest.text ++ ")").toList text.toList
  texts.any fun text => cleared passedTag text || cleared releasedTag text

end RedArchKM.Agents
