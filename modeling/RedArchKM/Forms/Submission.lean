import RedArchKM.Forms.Layout
import RedArchKM.Records.Repository

/-!
# Submissions of a form

A submission carries values for the fields of the target record, and for each relationship the
values of the one related record or a list of rows, each of which may carry values for records that
it links in turn. What it carries below the relationships is any JSON, read where it is used; what
does not read as it should raises. `applySubmit` takes the values that the bindings allow, computes
the calculated values from what is stored and what is taken, and writes record after record. If one
read or write fails, the request fails and nothing is written.
-/

namespace RedArchKM.Forms

open Lib
open Lib.Query (Row)
open Records (Catalog Database Environment Failure Public Repository put)

variable {ν ε : Type}

/-! ## Records of all entities -/

abbrev Tables (ν : Type) := Nat → List (Row String ν)

/-- What a submission meets: the catalogs, the database, what Python makes of the JSON in a payload,
and the evaluator of expressions. -/
structure Site (ν ε : Type) where
  env : Environment (Tables ν) ν
  truthy : ν → Bool
  /-- The items of a dict. -/
  entries : ν → Option (List (String × Option ν))
  /-- `str(rel_id)` -/
  relKey : Nat → String
  catalogs : Nat → Option Catalog
  rels : Nat → Option RelInfo
  orgId : ν
  evaluate : ε → Public ν → Option ν
  now : ν
  ids : Nat → ν

/-- The tables, and how many ids are drawn. -/
structure Store (ν : Type) where
  tables : Tables ν
  drawn : Nat := 0

inductive FormFailure where
  /-- A refused record is a validation error of the form; other failures pass. -/
  | record (failure : Failure)
  | entityNotFound
  | targetNotFound
  | invalidId (text : String)
  | tooManyRows
  | unknownRelationship
  /-- An error that nothing catches: the payload does not read. -/
  | raised

def maxSectionRows : Nat := 100

namespace Site

variable (site : Site ν ε)

/-- `_repo`: the repository of an entity, for a caller without privileges. -/
def repo (entityId : Nat) : Except FormFailure (Repository ν) :=
  match site.catalogs entityId with
  | some catalog => return { catalog := catalog, orgId := site.orgId }
  | none => .error .entityNotFound

def database (store : Store ν) (entityId : Nat) : Database (Tables ν) ν where
  rows := store.tables entityId
  rest := store.tables

def withRows (store : Store ν) (entityId : Nat) (rows : List (Row String ν)) : Store ν :=
  { store with tables := fun other => if other = entityId then rows else store.tables other }

/-- `_as_uuid`, of the text of an id -/
def asUuid (text : String) : Except FormFailure ν :=
  match site.env.python.uuid text with
  | some id => return id
  | none => .error (.invalidId text)

def getRecord (entityId : Nat) (recordId : ν) (store : Store ν) :
    Except FormFailure (Option (Public ν)) := do
  let repo ← site.repo entityId
  return repo.get site.env recordId (database store entityId)

def updateRecord (entityId : Nat) (recordId : ν) (patch : List (String × Option ν))
    (store : Store ν) : Except FormFailure (Option (Public ν) × Store ν) := do
  let repo ← site.repo entityId
  match repo.update site.env ⟨site.now, site.ids store.drawn⟩ recordId patch
      (database store entityId) with
  | (.error failure, _) => .error (.record failure)
  | (.ok record, db) => return (record, withRows store entityId db.rows)

def createRecord (entityId : Nat) (payload : List (String × Option ν)) (store : Store ν) :
    Except FormFailure (Public ν × Store ν) := do
  let repo ← site.repo entityId
  match repo.create site.env ⟨site.now, site.ids store.drawn⟩ payload
      (database store entityId) with
  | (.error failure, _) => .error (.record failure)
  | (.ok record, db) =>
    return (record, { withRows store entityId db.rows with drawn := store.drawn + 1 })

end Site

/-- `record.get(slug)` -/
def valueOf (record : Public ν) (slug : String) : Option ν := (record.lookup slug).join

/-- `{**record, **values}` -/
def overlaid (record values : Public ν) : Public ν :=
  values.foldl (fun merged entry => put entry.1 entry.2 merged) record

/-! ## Payloads -/

structure FormSubmit (ν : Type) where
  values : List (String × Option ν) := []
  related : List (String × Option ν) := []

/-- A row as it is read: its id, if it gives one, its values, and what it carries for the records
that it links. -/
structure SentRow (ν : Type) where
  id : Option ν := none
  values : List (String × Option ν) := []
  related : Option ν := none

/-- What a row carries for a record that it links. -/
structure SentCell (ν : Type) where
  id : Option ν := none
  values : List (String × Option ν) := []

namespace Site

variable (site : Site ν ε)

/-- `fields.get(key)`, unless it is falsy -/
def truthyAt (fields : List (String × Option ν)) (key : String) : Option ν :=
  (fields.lookup key).join.filter site.truthy

/-- The items of `value or {}`. -/
def asDict : Option ν → Except FormFailure (List (String × Option ν))
  | none => return []
  | some value =>
    match site.entries value with
    | some fields => return fields
    | none => .error .raised

/-- What a loop over the value visits: the items of a list, the characters of a text, the keys of a
dict. -/
def iterate (value : ν) : Option (List (Option ν)) :=
  match site.env.python.items value, site.env.python.text value with
  | some items, _ => some items
  | none, some text => some (text.toList.map fun char => some (site.env.python.ofText char.toString))
  | none, none => (site.entries value).map (List.map fun entry => some (site.env.python.ofText entry.1))

/-- `submitted.get(str(rel_id))`, unless it is falsy -/
def relatedTo (payload : FormSubmit ν) (relId : Nat) : Option ν :=
  site.truthyAt payload.related (site.relKey relId)

def sectionValues (data : Option ν) : Except FormFailure (List (String × Option ν)) := do
  let data ← site.asDict data
  site.asDict (site.truthyAt data "values")

/-- `data.get("rows") or []`, as a loop visits it. -/
def rowsOf (data : Option ν) : Except FormFailure (List (Option ν)) := do
  let data ← site.asDict data
  match site.truthyAt data "rows" with
  | none => return []
  | some rows =>
    match site.iterate rows with
    | some rows => return rows
    | none => .error .raised

def readRow (row : Option ν) : Except FormFailure (SentRow ν) :=
  match row.bind site.entries with
  | none => .error .raised
  | some fields => do
    let values ← site.asDict (site.truthyAt fields "values")
    return {
      id := site.truthyAt fields "id"
      values := values
      related := site.truthyAt fields "related" }

def readCell (related : Option ν) (relId : Nat) : Except FormFailure (SentCell ν) := do
  let related ← site.asDict related
  let data ← site.asDict (site.truthyAt related (site.relKey relId))
  let values ← site.asDict (site.truthyAt data "values")
  return { id := site.truthyAt data "id", values := values }

end Site

structure Form (ε : Type) where
  entityDefinitionId : Nat
  elements : List (FormElement ε)

/-! ## Writes -/

def cleaned (slugs : List String) (values : List (String × Option ν)) :
    List (String × Option ν) :=
  values.filter fun entry => entry.1 ∈ slugs

namespace Site

variable (site : Site ν ε)

def applyCalc (clean : List (String × Option ν)) (calculations : List (CalcBinding ε))
    (context : Public ν) : List (String × Option ν) :=
  calculations.foldl
    (fun clean binding => put binding.targetSlug (site.evaluate binding.expression context) clean)
    clean

/-- What is written to a stored record: the taken values, and those calculated from them and what is
stored. -/
def patchOf (fields : FieldBinding ε) (current : Public ν) (values : List (String × Option ν)) :
    List (String × Option ν) :=
  let clean := cleaned fields.writeSlugs values
  site.applyCalc clean fields.calculations (overlaid current clean)

def newValues (fields : FieldBinding ε) (values : List (String × Option ν)) :
    List (String × Option ν) :=
  let clean := cleaned fields.writeSlugs values
  site.applyCalc clean fields.calculations clean

/-- `ctx.rel_slugs.get(rel_id)` -/
def relSlug (relId : Nat) : Option String := (site.rels relId).map RelInfo.slug

/-- `_write_section` -/
def writeSection (binding : SectionBinding ε) (relSlug : String) (rootEntityId : Nat) (rootId : ν)
    (rootRecord : Public ν) (data : Option ν) (store : Store ν) :
    Except FormFailure (Store ν) := do
  let values ← site.sectionValues data
  let _ ← site.repo binding.entityId
  match valueOf rootRecord relSlug with
  | some linked =>
    let linkedId ← site.asUuid (site.env.python.str (some linked))
    let current ← site.getRecord binding.entityId linkedId store
    let clean := site.patchOf binding.fields (current.getD []) values
    if clean.isEmpty then return store
    else return (← site.updateRecord binding.entityId linkedId clean store).2
  | none =>
    let clean := site.newValues binding.fields values
    if clean.isEmpty then return store
    else
      let (created, store) ← site.createRecord binding.entityId clean store
      return (← site.updateRecord rootEntityId rootId [(relSlug, valueOf created "id")] store).2

section

variable (childEntityId : Nat) (childId : ν) (childCurrent : Option (Public ν))

/-- One related column of `_write_row_related`, with what the row carries for it. -/
def writeCell (column : RelatedColBinding) (slug : String) (data : SentCell ν) (store : Store ν) :
    Except FormFailure (Store ν) :=
  let clean := cleaned [column.slug] data.values
  if clean.isEmpty then return store
  else do
    let _ ← site.repo column.entityId
    let currentLink := childCurrent.bind fun record => valueOf record slug
    -- only the record that the row links is updated, whatever id is given
    if data.id.isSome && currentLink.isSome &&
        site.env.python.str data.id = site.env.python.str currentLink then
      let linkedId ← site.asUuid (site.env.python.str data.id)
      return (← site.updateRecord column.entityId linkedId clean store).2
    else
      let (created, store) ← site.createRecord column.entityId clean store
      return (← site.updateRecord childEntityId childId [(slug, valueOf created "id")] store).2

def writeRelatedCol (row : SentRow ν) (store : Store ν) (column : RelatedColBinding) :
    Except FormFailure (Store ν) :=
  match site.relSlug column.relId with
  | none => return store
  | some slug =>
    if !column.editable then return store
    else do
      let data ← site.readCell row.related column.relId
      site.writeCell childEntityId childId childCurrent column slug data store

end

section

variable (binding : RowsBinding ε) (relSlug : String) (rootId : ν)

/-- One row of `_write_rows`, as it is read. A row that does not belong to the root is passed over. -/
def writeSentRow (store : Store ν) (row : SentRow ν) : Except FormFailure (Store ν) :=
  match row.id with
  | some given => do
    let childId ← site.asUuid (site.env.python.str (some given))
    match ← site.getRecord binding.entityId childId store with
    | none => return store
    | some existing =>
      if site.env.python.str (valueOf existing relSlug) ≠ site.env.python.str (some rootId) then
        return store
      else
        let clean := site.patchOf binding.fields existing row.values
        let (_, store) ← site.updateRecord binding.entityId childId clean store
        binding.relatedCols.foldlM
          (site.writeRelatedCol binding.entityId childId (some existing) row) store
  | none => do
    let clean := site.newValues binding.fields row.values
    let (created, store) ←
      site.createRecord binding.entityId (overlaid [(relSlug, some rootId)] clean) store
    let childId ← site.asUuid (site.env.python.str (valueOf created "id"))
    binding.relatedCols.foldlM (site.writeRelatedCol binding.entityId childId none row) store

def writeRow (store : Store ν) (row : Option ν) : Except FormFailure (Store ν) := do
  let row ← site.readRow row
  site.writeSentRow binding relSlug rootId store row

def writeRows (rows : List (Option ν)) (store : Store ν) : Except FormFailure (Store ν) :=
  if rows.length > maxSectionRows then .error .tooManyRows
  else do
    let _ ← site.repo binding.entityId
    rows.foldlM (site.writeRow binding relSlug rootId) store

end

/-- One container of `_submit_related`. -/
def writeContainer (rootEntityId : Nat) (rootId : ν) (rootRecord : Public ν)
    (payload : FormSubmit ν) (store : Store ν) (container : Container ε) :
    Except FormFailure (Store ν) :=
  match container with
  | .ofSection binding =>
    match site.relSlug binding.relId with
    | none => return store
    | some slug =>
      site.writeSection binding slug rootEntityId rootId rootRecord
        (site.relatedTo payload binding.relId) store
  | .ofRows binding =>
    match site.relSlug binding.relId with
    | none => return store
    | some slug => do
      let rows ← site.rowsOf (site.relatedTo payload binding.relId)
      site.writeRows binding slug rootId rows store

def applySubmit (form : Form ε) (targetId : ν) (payload : FormSubmit ν) (store : Store ν) :
    Except FormFailure (Store ν) :=
  match flatten site.rels form.elements with
  | none => .error .unknownRelationship
  | some bindings => do
      match ← site.getRecord form.entityDefinitionId targetId store with
      | none => .error .targetNotFound
      | some current =>
        let clean := site.patchOf bindings.root current payload.values
        let (updated, store) ←
          site.updateRecord form.entityDefinitionId targetId clean store
        match updated with
        | none => .error .targetNotFound
        | some updated =>
          bindings.containers.foldlM
            (site.writeContainer form.entityDefinitionId targetId updated payload) store

end Site

end RedArchKM.Forms
