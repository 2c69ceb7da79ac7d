import Mathlib.Algebra.Order.Ring.Rat
import Mathlib.Data.String.Basic

/-!
# Claims and their reconciliation

A claim is a statement about a subject: a predicate and an object, with the time from which it is
valid, the time at which it was recorded, and the documents that state it. A functional predicate
has one current value for each subject, so a new value may retire an older one or contradict it.
`reconcile` decides which.

A claim is identified by a hash of its subject, predicate and object. The hash is taken to be
injective, so the identity is here what is hashed. `casefold` is Python's, and a time is its
ISO text.
-/

namespace RedArchKM.Facts

/-! ## Predicates -/

inductive Cardinality where
  | functional
  | multi
deriving DecidableEq

structure PredicateSpec where
  key : String
  cardinality : Cardinality

/-- The predicates in the order in which they are registered. -/
abbrev PredicateRegistry := List PredicateSpec

def PredicateRegistry.cardinality (registry : PredicateRegistry) (key : String) : Cardinality :=
  (registry.reverse.find? fun spec => spec.key = key).elim .multi PredicateSpec.cardinality

def defaultPredicates : PredicateRegistry :=
  [⟨"headquartered_in", .functional⟩, ⟨"founded_in", .functional⟩, ⟨"date_of_birth", .functional⟩,
    ⟨"reports_to", .functional⟩, ⟨"manages", .multi⟩, ⟨"ceo_of", .functional⟩,
    ⟨"holds_title", .functional⟩, ⟨"acquired", .multi⟩, ⟨"authored", .multi⟩, ⟨"works_for", .multi⟩,
    ⟨"employs", .multi⟩, ⟨"part_of", .functional⟩, ⟨"mentions", .multi⟩, ⟨"related_to", .multi⟩]

/-! ## Claims -/

inductive LiteralType where
  | text
  | number
  | date
  | boolean
deriving DecidableEq

inductive ClaimObject where
  | entity (objectId : String)
  | literal (objectType : LiteralType) (objectValue : String)
deriving DecidableEq

/-- `object_key` -/
def ClaimObject.key : ClaimObject → String
  | .entity objectId => objectId
  | .literal _ objectValue => objectValue

inductive ClaimStatus where
  | active
  | superseded
  | contradicted
  | retracted
deriving DecidableEq

structure Provenance where
  documentKey : String
  chunkIndex : Nat
deriving DecidableEq

structure Claim where
  subjectId : String
  predicate : String
  object : ClaimObject
  validFrom : Option String := none
  validTo : Option String := none
  recordedAt : String
  confidence : ℚ := 1
  accessKeys : List Nat := []
  tags : List String := []
  provenance : List Provenance := []
deriving DecidableEq

/-! ## Identity -/

/-- `str.isspace` of a character. -/
def isSpace (char : Char) : Bool :=
  let code := char.toNat
  (9 ≤ code && code ≤ 13) || (28 ≤ code && code ≤ 32) || code = 0x85 || code = 0xa0 ||
    code = 0x1680 || (0x2000 ≤ code && code ≤ 0x200a) || code = 0x2028 || code = 0x2029 ||
    code = 0x202f || code = 0x205f || code = 0x3000

/-- Every run of whitespace as one blank; whether whitespace came last is told. -/
def collapse : Bool → List Char → List Char
  | _, [] => []
  | spaced, char :: text =>
    if isSpace char then if spaced then collapse true text else ' ' :: collapse true text
    else char :: collapse false text

/-- `text.strip()` -/
def strip (text : List Char) : List Char :=
  ((text.dropWhile isSpace).reverse.dropWhile isSpace).reverse

section Identity

variable (casefold : String → String)

def norm (text : String) : String :=
  casefold (String.ofList (collapse false (strip text.toList)))

structure ClaimId where
  subjectId : String
  predicate : String
  objectKey : String
deriving DecidableEq

def computeDedupKey (subjectId predicate objectKey : String) : ClaimId :=
  ⟨subjectId, norm casefold predicate, norm casefold objectKey⟩

def Claim.claimId (claim : Claim) : ClaimId :=
  computeDedupKey casefold claim.subjectId claim.predicate claim.object.key

end Identity

/-! ## Reconciliation -/

inductive ReconcileAction where
  | create
  | corroborate
  | supersede
  | contradict

/-- The decision for a claim. -/
structure ReconcileResult where
  action : ReconcileAction
  newStatus : ClaimStatus := .active
  affectedKeys : List ClaimId := []

def nonempty (text : String) : Option String := if text = "" then none else some text

/-- The validity counts, else the time of recording. -/
def orderingStamp (claim : Claim) : Option String :=
  (claim.validFrom.bind nonempty).or (nonempty claim.recordedAt)

def isStrictlyNewer (new existing : Claim) : Bool :=
  match orderingStamp new, orderingStamp existing with
  | some newStamp, some oldStamp => oldStamp < newStamp
  | _, _ => false

/-- How to store a claim, given whether it is stored already and which active claims conflict. -/
def reconcile (casefold : String → String) (newClaim : Claim) (cardinality : Cardinality)
    (existingSame : Bool) (activeConflicts : List Claim) : ReconcileResult :=
  if existingSame then { action := .corroborate }
  else if cardinality = .multi ∨ activeConflicts = [] then { action := .create }
  else if activeConflicts.all (isStrictlyNewer newClaim) then
    { action := .supersede, affectedKeys := activeConflicts.map (Claim.claimId casefold) }
  else
    -- Conflicts that the claim could be ordered after stay active.
    { action := .contradict
      newStatus := .contradicted
      affectedKeys := (activeConflicts.filter fun other =>
        !isStrictlyNewer newClaim other).map (Claim.claimId casefold) }

end RedArchKM.Facts
