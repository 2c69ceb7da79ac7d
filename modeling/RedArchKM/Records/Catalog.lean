import Mathlib.Data.List.Nodup
import RedArchKM.Lib.Query

/-!
# The catalog of an entity

The records of an entity live in a table of their own. The catalog says which column a slug stands
for, how a value is coerced to the type of its column, and who may read a field.

Values are those of an environment: what Python makes of a text (dates, numbers, ids), and what the
database makes of a value. The columns of a catalog are different from each other.
-/

namespace RedArchKM.Records

open Lib List Option

variable {ν : Type}

/-! ## Definitions, fields and relationships -/

inductive FieldType where
  | text
  | longText
  | integer
  | bigint
  | numeric
  | boolean
  | date
  | timestamptz
  | uuid
  | json
  | picklist
deriving DecidableEq

inductive ReadAccess where
  | member
  | serverOnly
deriving DecidableEq

inductive WriteAccess where
  | member
  | workflowOnly
deriving DecidableEq

inductive Cardinality where
  | oneToOne
  | oneToMany
  | manyToOne
  | manyToMany
deriving DecidableEq

structure EntityField where
  slug : String
  physicalColumn : String
  fieldType : FieldType
  picklistOptions : List String := []
  isRequired : Bool := false
  isUnique : Bool := false
  readAccess : ReadAccess := .member

structure EntityRelationship where
  slug : String
  physicalName : String
  cardinality : Cardinality
  targetDefinitionId : Nat
  isRequired : Bool := false

structure EntityDefinition where
  id : Nat
  slug : String
  physicalTable : String
  writeAccess : WriteAccess := .member

def baseReadColumns : List String := ["id", "created_at", "updated_at"]

def baseColumns : List String := ["id", "org_id", "created_at", "updated_at"]

/-- Only to-one relationships add a physical column on the table. -/
def toOne (relationships : List EntityRelationship) : List EntityRelationship :=
  relationships.filter fun relationship => relationship.cardinality ≠ .manyToMany

structure Catalog where
  definition : EntityDefinition
  fields : List EntityField
  relationships : List EntityRelationship
  fieldSlugs_nodup : (fields.map EntityField.slug).Nodup
  relationshipSlugs_nodup : (relationships.map EntityRelationship.slug).Nodup
  columns_nodup : (baseColumns ++ fields.map EntityField.physicalColumn ++
    (toOne relationships).map EntityRelationship.physicalName).Nodup

namespace Catalog

variable (catalog : Catalog)

/-- `_field_by_slug.get(slug)` -/
def fieldBySlug (slug : String) : Option EntityField :=
  catalog.fields.find? fun field => field.slug = slug

/-- `_rel_by_slug.get(slug)` -/
def relBySlug (slug : String) : Option EntityRelationship :=
  (toOne catalog.relationships).find? fun relationship => relationship.slug = slug

/-- `_slug_to_col.get(slug)`. A relationship takes the place of a field with its slug. -/
def slugToCol (slug : String) : Option String :=
  match catalog.relBySlug slug with
  | some relationship => some relationship.physicalName
  | none => (catalog.fieldBySlug slug).map EntityField.physicalColumn

/-- The slugs with a column, in the order in which they were entered. -/
def slugs : List String :=
  let fieldSlugs := catalog.fields.map EntityField.slug
  fieldSlugs ++ ((toOne catalog.relationships).map EntityRelationship.slug).filter (· ∉ fieldSlugs)

def serverOnlySlugs : List String :=
  (catalog.fields.filter fun field => field.readAccess = .serverOnly).map EntityField.slug

/-- The columns of the fields that are flagged `server_only`. -/
def serverOnly (column : String) : Bool :=
  catalog.fields.any fun field => field.readAccess = .serverOnly && field.physicalColumn = column

/-- `_field_type`, or nothing for an id. -/
def fieldType (slug : String) : Option FieldType :=
  match catalog.fieldBySlug slug with
  | some field => some field.fieldType
  | none =>
    if slug = "created_at" ∨ slug = "updated_at" then some .timestamptz
    else if slug = "id" ∨ (catalog.relBySlug slug).isSome then some .uuid
    else none

end Catalog

def searchableFieldTypes : List FieldType := [.text, .longText, .picklist]

/-- `_NUMERIC_FIELD_TYPES` -/
def numericFieldTypes : List FieldType := [.integer, .bigint, .numeric]

def orderableFieldTypes : List FieldType := [.integer, .bigint, .numeric, .date, .timestamptz]

/-- `_DATE_FIELD_TYPES` -/
def dateFieldTypes : List FieldType := [.date, .timestamptz]

def nonGroupableFieldTypes : List FieldType := [.json, .longText]

/-! ## Values -/

/-- What Python makes of values; a missing value is `None`. -/
structure Python (ν : Type) where
  text : ν → Option String
  bool : ν → Option Bool
  /-- The items of a list or a tuple. -/
  items : ν → Option (List (Option ν))
  isUuid : ν → Bool
  isFinite : ν → Bool
  str : Option ν → String
  repr : String → String
  strip : String → String
  casefold : String → String
  lower : String → String
  ofText : String → ν
  ofBool : Bool → ν
  /-- The date of an ISO date, or of an ISO date-time. -/
  date : String → Option ν
  /-- The instant of an ISO date-time; one without a zone is UTC. -/
  datetime : String → Option ν
  int : String → Option ν
  decimal : String → Option ν
  uuid : String → Option ν

/-- Why a payload or a query is refused. -/
inductive EntityRecordError where
  | invalidDate (slug : String)
  | invalidDateTime (slug : String)
  | notWhole (slug : String)
  | notNumber (slug : String)
  | notFinite (slug : String)
  | notBoolean (slug : String)
  | notRecordId (slug : String)
  | tooManyFields
  | unknownFields (slugs : List String)
  | requiredNull (slug : String)
  | notAnOption (slug : String) (options : List String)
  | required (slug : String)
  | unknownField (slug : String)
  | notReadable (slug : String)
  | tooManyInValues
  | notSearchable (slug : String)
  | unknownOperator (op : String)
  | notAnId (slug : String)
  | unknownTarget (slug : String)
  | outsideOrg (slug : String)
  | cursorMismatch
  | fieldMissing (op : String)
  | notNumeric (op field : String) (type : Option FieldType)
  | notOrderable (op field : String) (type : Option FieldType)
  | duplicateResult (name : String)
  | notDateField (field bucket : String)
  | notGroupable (field : String) (type : Option FieldType)
  | unknownMetric (name : String)
  | dateHaving (name : String)
  | unknownOrderKey (name : String)

inductive Failure where
  | record (error : EntityRecordError)
  /-- `RecordConflictError`, with the slug whose value is taken. -/
  | conflict (fields : List String)
  /-- `RecordAccessError` -/
  | access (entity : String)
  /-- A foreign key forbids the change. -/
  | integrity
  /-- A comparison that the query builder refuses. -/
  | argument
  /-- A value that the driver cannot hand to its column. -/
  | driver
  /-- `ValueError` of an id that is none. -/
  | value

def trueStrings : List String := ["true", "t", "1", "yes", "y", "on"]

/-- `_FALSE_STRINGS` -/
def falseStrings : List String := ["false", "f", "0", "no", "n", "off"]

def refuse {α : Type} (error : EntityRecordError) : Except Failure α := .error (.record error)

def orRefuse {α : Type} (error : EntityRecordError) : Option α → Except Failure α
  | some value => .ok value
  | none => refuse error

section Coercion

variable (python : Python ν)

def coerceValue (field : Option EntityField) (value : Option ν) : Except Failure (Option ν) :=
  match field, value.bind python.text with
  | some field, some text =>
    match field.fieldType with
    | .date => return some (← orRefuse (.invalidDate field.slug) (python.date text))
    | .timestamptz => return some (← orRefuse (.invalidDateTime field.slug) (python.datetime text))
    | .integer => return some (← orRefuse (.notWhole field.slug) (python.int (python.strip text)))
    | .bigint => return some (← orRefuse (.notWhole field.slug) (python.int (python.strip text)))
    | .numeric => do
        let number ← orRefuse (.notNumber field.slug) (python.decimal (python.strip text))
        if !python.isFinite number then refuse (.notFinite field.slug)
        else return some number
    | .boolean =>
      let normalized := python.casefold (python.strip text)
      if normalized ∈ trueStrings then return some (python.ofBool true)
      else if normalized ∈ falseStrings then return some (python.ofBool false)
      else refuse (.notBoolean field.slug)
    | _ => return value
  | _, _ => return value

def coerceBySlug (catalog : Catalog) (slug : String) (value : Option ν) :
    Except Failure (Option ν) :=
  match catalog.fieldBySlug slug, value with
  | some field, value => coerceValue python (some field) value
  | none, none => return none
  | none, some value =>
    if (catalog.relBySlug slug).isSome ∨ slug = "id" then
      if python.isUuid value then return some value
      else return some (← orRefuse (.notRecordId slug) (python.uuid (python.str (some value))))
    else if slug = "created_at" ∨ slug = "updated_at" then
      match python.text value with
      | some text => return some (← orRefuse (.invalidDateTime slug) (python.datetime text))
      | none => return some value
    else return some value

end Coercion

/-! ## Columns -/

theorem mem_of_fieldBySlug {catalog : Catalog} {slug : String} {field : EntityField}
    (found : catalog.fieldBySlug slug = some field) : field ∈ catalog.fields ∧ field.slug = slug :=
  ⟨mem_of_find?_eq_some found, by simpa using find?_some found⟩

theorem mem_of_relBySlug {catalog : Catalog} {slug : String} {relationship : EntityRelationship}
    (found : catalog.relBySlug slug = some relationship) :
    relationship ∈ toOne catalog.relationships ∧ relationship.slug = slug :=
  ⟨mem_of_find?_eq_some found, by simpa using find?_some found⟩

namespace Catalog

variable {catalog : Catalog} {slug column : String}

theorem serverOnly_base (isBase : column ∈ baseColumns) : catalog.serverOnly column = false := by
  rw [serverOnly, List.any_eq_false]
  intro field member
  rw [Bool.and_eq_true, decide_eq_true_iff, decide_eq_true_iff]
  rintro ⟨_, rfl⟩
  have apart := (nodup_append.mp (nodup_append.mp catalog.columns_nodup).1).2.2
  exact apart _ isBase _ (mem_map_of_mem member) rfl

theorem serverOnly_relationship {relationship : EntityRelationship}
    (member : relationship ∈ toOne catalog.relationships) :
    catalog.serverOnly relationship.physicalName = false := by
  rw [serverOnly, List.any_eq_false]
  intro field isField
  rw [Bool.and_eq_true, decide_eq_true_iff, decide_eq_true_iff]
  rintro ⟨_, same⟩
  have apart := (nodup_append.mp catalog.columns_nodup).2.2
  exact apart _ (mem_append_right _ (mem_map_of_mem isField)) _ (mem_map_of_mem member) same

theorem serverOnly_field {field : EntityField} (member : field ∈ catalog.fields)
    (isOpen : field.slug ∉ catalog.serverOnlySlugs) :
    catalog.serverOnly field.physicalColumn = false := by
  rw [serverOnly, List.any_eq_false]
  intro other isField
  rw [Bool.and_eq_true, decide_eq_true_iff, decide_eq_true_iff]
  rintro ⟨isHidden, same⟩
  have columns := (nodup_append.mp (nodup_append.mp catalog.columns_nodup).1).2.1
  obtain rfl := inj_on_of_nodup_map columns isField member same
  apply isOpen
  exact mem_map_of_mem (mem_filter.mpr ⟨isField, decide_eq_true isHidden⟩)

section

variable (found : catalog.slugToCol slug = some column)

include found

/-- **The slugs that members may use stand for columns that they may read.** -/
theorem serverOnly_slugToCol (isOpen : slug ∉ catalog.serverOnlySlugs) :
    catalog.serverOnly column = false := by
  unfold slugToCol at found
  split at found
  · rename_i relationship isRelationship
    cases found
    exact serverOnly_relationship (mem_of_relBySlug isRelationship).1
  · obtain ⟨field, isField, rfl⟩ := map_eq_some_iff.mp found
    obtain ⟨member, rfl⟩ := mem_of_fieldBySlug isField
    exact serverOnly_field member isOpen

theorem slugToCol_not_base : column ∉ baseColumns := by
  intro isBase
  have apart := nodup_append.mp catalog.columns_nodup
  unfold slugToCol at found
  split at found
  · rename_i relationship isRelationship
    cases found
    exact apart.2.2 _ (mem_append_left _ isBase) _
      (mem_map_of_mem (mem_of_relBySlug isRelationship).1) rfl
  · obtain ⟨field, isField, rfl⟩ := map_eq_some_iff.mp found
    exact (nodup_append.mp apart.1).2.2 _ isBase _
      (mem_map_of_mem (mem_of_fieldBySlug isField).1) rfl

theorem slugToCol_inj {other : String} (alsoFound : catalog.slugToCol other = some column) :
    slug = other := by
  have apart := nodup_append.mp catalog.columns_nodup
  unfold slugToCol at found alsoFound
  split at found
  · rename_i relationship isRelationship
    obtain ⟨member, rfl⟩ := mem_of_relBySlug isRelationship
    split at alsoFound
    · rename_i another isAnother
      obtain ⟨alsoMember, rfl⟩ := mem_of_relBySlug isAnother
      have same := (some.inj found).trans (some.inj alsoFound).symm
      rw [inj_on_of_nodup_map apart.2.1 member alsoMember same]
    · obtain ⟨field, isField, same⟩ := map_eq_some_iff.mp alsoFound
      refine absurd (same.trans (some.inj found).symm) (apart.2.2 _ ?_ _ ?_)
      · exact mem_append_right _ (mem_map_of_mem (mem_of_fieldBySlug isField).1)
      · exact mem_map_of_mem member
  · obtain ⟨field, isField, same⟩ := map_eq_some_iff.mp found
    obtain ⟨member, rfl⟩ := mem_of_fieldBySlug isField
    split at alsoFound
    · rename_i relationship isRelationship
      refine absurd (same.trans (some.inj alsoFound).symm) (apart.2.2 _ ?_ _ ?_)
      · exact mem_append_right _ (mem_map_of_mem member)
      · exact mem_map_of_mem (mem_of_relBySlug isRelationship).1
    · obtain ⟨another, isAnother, alsoSame⟩ := map_eq_some_iff.mp alsoFound
      obtain ⟨alsoMember, rfl⟩ := mem_of_fieldBySlug isAnother
      have columns := (nodup_append.mp apart.1).2.1
      rw [inj_on_of_nodup_map columns member alsoMember (same.trans alsoSame.symm)]

end

theorem relationship_not_base {relationship : EntityRelationship}
    (member : relationship ∈ toOne catalog.relationships) :
    relationship.physicalName ∉ baseColumns := by
  intro isBase
  exact (nodup_append.mp catalog.columns_nodup).2.2 _ (mem_append_left _ isBase) _
    (mem_map_of_mem member) rfl

end Catalog

end RedArchKM.Records
