import Mathlib.Data.List.Sort
import RedArchKM.Promotion.Diff

/-!
# The configuration of an org

The configuration of an org is a table of rows for each resource type. A row has its id, the
lineage id that a promotion has stamped on it, if any, and the columns that an export writes. The
fields and relationships of an entity stand in its row, as the export has them.

What an import needs of the rest of the system is collected in `Services`: fresh ids, the schemas
that check and normalize a body, the checks of a layout, a report or a workflow against the org,
and the order in which the database lists the fields and relationships of an entity.
-/

namespace RedArchKM.Promotion

open List

open Workflow (Fields Json)

/-! ## Columns -/

namespace Columns

/-- `obj.get(key, default)` -/
def getD (obj : Fields) (key : String) (default : Json) : Json := (obj.lookup key).getD default

/-- `value or {}` -/
def orEmpty (value : Json) : Json := if value.truthy then value else .obj []

/-- `value or []`, as a list. -/
def items (value : Json) : List Json :=
  match value with
  | .arr items => items
  | _ => []

/-- Set a column, unless the value is `None`. -/
def setUnlessNull (columns : Fields) (key : String) (value : Json) : Fields :=
  if value = .null then columns else Fields.set key value columns

/-- An id as a column, `None` if there is none. -/
def ofId (id : Option String) : Json := id.elim .null .str

theorem lookup_set (fields : Fields) (key other : String) (value : Json) :
    (Fields.set key value fields).lookup other =
      if other = key then some value else fields.lookup other := by
  induction fields with
  | nil =>
    by_cases same : other = key
    · simp [Fields.set, same]
    · have skipped : (other == key) = false := by simpa using same
      rw [Fields.set, lookup_cons, skipped, if_neg same]
  | cons entry rest ih =>
    unfold Fields.set
    by_cases first : entry.1 = key
    · by_cases same : other = key
      · simp [first, same]
      · have skipped : (other == key) = false := by simpa using same
        rw [if_pos first, if_neg same, lookup_cons, lookup_cons, first, skipped]
    · rw [if_neg first, lookup_cons, ih, lookup_cons]
      by_cases same : other = key
      · have skipped : (other == entry.1) = false := by
          simpa [same] using fun found => first found.symm
        simp only [if_pos same, skipped]
      · simp only [if_neg same]

@[simp] theorem get_set_self (fields : Fields) (key : String) (value : Json) :
    Fields.get (Fields.set key value fields) key = value := by
  simp [Fields.get, lookup_set]

@[simp] theorem set_set (fields : Fields) (key : String) (value later : Json) :
    Fields.set key later (Fields.set key value fields) = Fields.set key later fields := by
  induction fields with
  | nil => simp [Fields.set]
  | cons entry rest ih =>
    by_cases first : entry.1 = key
    · simp [Fields.set, first]
    · simp [Fields.set, first, ih]

theorem set_eq_self {fields : Fields} {key : String} {value : Json}
    (known : fields.lookup key = some value) : Fields.set key value fields = fields := by
  induction fields with
  | nil => cases known
  | cons entry rest ih =>
    by_cases first : entry.1 = key
    · rw [lookup_cons, first, beq_self_eq_true] at known
      cases known
      obtain ⟨name, value⟩ := entry
      obtain rfl : name = key := first
      simp [Fields.set]
    · have skipped : (key == entry.1) = false := by simpa using Ne.symm first
      rw [lookup_cons, skipped] at known
      simp [Fields.set, first, ih known]

end Columns

/-! ## UUIDs -/

/-- `text.replace(word, "")`; that many characters of a word are still to be dropped. -/
def removeWord (word : List Char) : Nat → List Char → List Char
  | _, [] => []
  | skipped + 1, _ :: text => removeWord word skipped text
  | 0, char :: text =>
    if word.isPrefixOf (char :: text) then removeWord word (word.length - 1) text
    else char :: removeWord word 0 text

def isBrace (char : Char) : Bool := char = '\x7b' || char = '\x7d'

/-- The text without the prefixes, braces and hyphens that `uuid.UUID` ignores. -/
def uuidDigits (text : String) : List Char :=
  let plain := removeWord "uuid:".toList 0 (removeWord "urn:".toList 0 text.toList)
  (((plain.dropWhile isBrace).reverse.dropWhile isBrace).reverse).filter (· ≠ '-')

/-- `str(uuid.UUID(text))`, unless it raises. -/
def uuidOf (text : String) : Option String :=
  let digits := (uuidDigits text).map Char.toLower
  if digits.length = 32 ∧ digits.all isHexDigit then
    let group (start length : Nat) : String := String.ofList ((digits.drop start).take length)
    some (String.intercalate "-" [group 0 8, group 8 4, group 12 4, group 16 4, group 20 12])
  else none

/-! ## Rows -/

/-- A row of a configuration table. -/
structure Row where
  id : String
  lineageId : Option String := none
  columns : Fields
deriving DecidableEq

namespace Row

/-- `str(row.lineage_id or row.id)` -/
def lineage (row : Row) : String := row.lineageId.getD row.id

/-- The row as an object of a bundle. -/
def exported (row : Row) : Fields :=
  ("id", .str row.id) :: ("lineage_id", .str row.lineage) :: row.columns

def column (row : Row) (key : String) : Json := Fields.get row.columns key

end Row

structure OrgConfig where
  rows : ResourceType → List Row

namespace OrgConfig

section

variable (org : OrgConfig) (rtype : ResourceType) (change : List Row → List Row)

def modify : OrgConfig :=
  ⟨fun other => if other = rtype then change (org.rows other) else org.rows other⟩

@[simp] theorem rows_modify_self :
    (org.modify rtype change).rows rtype = change (org.rows rtype) := by
  simp [modify]

end

theorem rows_modify_of_ne (org : OrgConfig) {rtype other : ResourceType}
    (change : List Row → List Row) (different : other ≠ rtype) :
    (org.modify rtype change).rows other = org.rows other := by
  simp [modify, different]

def find (org : OrgConfig) (rtype : ResourceType) (id : String) : Option Row :=
  (org.rows rtype).find? fun row => row.id = id

def exportOrder : List ResourceType :=
  [.tags, .entities, .connections, .folders, .workflows, .inboundEndpoints, .forms, .reports,
    .views, .mcpServers, .agents]

def exported (org : OrgConfig) : Resources :=
  exportOrder.map (fun rtype => (rtype, (org.rows rtype).map Row.exported)) ++
    [(.records, []), (.documents, [])]

end OrgConfig

/-! ## What an import calls -/

/-- The schemas that check a body before it is written. -/
inductive Schema where
  | entityDefinition
  | entityField
  | entityRelationship
  | form
  | formUpdate
  | formConfig
  | report
  | reportUpdate
  | aggregateQuery
  | visualization
  | view
  | viewUpdate

structure Services where
  /-- `str(value)` of a value that is no string. -/
  str : Json → String
  freshId : Nat → String
  /-- The body as its schema has it, unless it is refused. -/
  validate : Schema → Json → Option Json
  /-- Whether a layout fits the org, for the entity that it is bound to, if any. -/
  layoutFits : OrgConfig → Option String → Json → Bool
  /-- Whether a query of an entity and its visualization fit the org. -/
  reportFits : OrgConfig → String → Json → Json → Bool
  /-- Whether the agent tasks of a definition may run in that workflow. -/
  publishable : OrgConfig → String → Json → Bool
  /-- Whether a field or relationship is listed before another one. -/
  listedBefore : Json → Json → Bool

namespace Services

def enlist (services : Services) (row : Json) (rows : List Json) : List Json :=
  rows.orderedInsert (fun left right => services.listedBefore left right = true) row

end Services

end RedArchKM.Promotion
