import RedArchKM.Access.FolderUpdate
import RedArchKM.Promotion.ImportState

/-!
# Importing tags and entities

A pass decides for each object of the bundle by the row it matches and the strategy. A refusal is
recorded as a failure of that object, any other exception ends the import.

Entities have two passes: the definitions with their fields, then, when every definition is mapped,
the relationships.
-/

namespace RedArchKM.Promotion

open Workflow (Fields Json)
open Columns

/-! ## Exceptions -/

inductive Raised where
  /-- The pass records a failure of the object and goes on. -/
  | refused
  | fatal

abbrev Attempt := Except Raised

/-- `obj[key]` -/
def key (obj : Fields) (name : String) : Attempt Json :=
  match obj.lookup name with
  | some value => .ok value
  | none => .error .fatal

def attr (body : Json) (name : String) : Json :=
  match body with
  | .obj fields => Fields.get fields name
  | _ => .null

def objectsOf : Json → Attempt (List Fields)
  | .arr items => items.mapM fun item =>
    match item with
    | .obj fields => .ok fields
    | _ => .error .fatal
  | _ => .error .fatal

def recordFailure (tried : List String) : Attempt Change → Option Change
  | .ok change => some change
  | .error .refused => some (.leave (some .failed) tried)
  | .error .fatal => none

/-- An exception of any kind ends the import. -/
def orRaise : Attempt Change → Option Change
  | .ok change => some change
  | .error _ => none

def forked (collides : Option Row) (suffix : String → String) (value : Json) : Attempt Json :=
  match collides with
  | none => .ok value
  | some _ =>
    match value with
    | .str text => .ok (.str (suffix text))
    | _ => .error .fatal

def keepSkipped (found : Match) : Option Change := some (.keep found .skipped)

def matchByColumn (s : ImportState) (rtype : ResourceType) (obj : Fields) (column : String)
    (value : Json) : Option Match :=
  matchLineage obj (s.listed rtype) (byColumn (s.listed rtype) column value)

section Passes

variable (services : Services) (strategy : CollisionStrategy)

def validated (schema : Schema) (body : Json) : Attempt Json :=
  match services.validate schema body with
  | some body => .ok body
  | none => .error .refused

def columnTexts (rows : List Row) (column : String) : List String :=
  rows.map fun row => asText services.str (row.column column)

def mappedId (s : ImportState) (kind : Namespace) (oldId : Json) : Option String :=
  if oldId.truthy then s.ids.get kind (asText services.str oldId) else none

/-! ## Tags -/

def tagChange (s : ImportState) (tag : Fields) : Option Change :=
  let name := Fields.get tag "name"
  if name.truthy = false then some (.leave none [])
  else if Access.isReservedTagName (asText services.str name) then
    some (.leave (some .skipped) [])
  else
    match matchByColumn s .tags tag "name" name with
    | some found => keepSkipped found
    | none => some (.create none true { columns := [("name", name)], action := .created })

/-! ## Entities -/

def maxDefinitionsPerOrg : Nat := 200
def maxFieldsPerEntity : Nat := 100
def maxRelationshipsPerEntity : Nat := 50

/-- The body of a field of the bundle. -/
def fieldCreate (f : Fields) : Attempt Json := do
  let name ← key f "name"
  let slug ← key f "slug"
  let fieldType ← key f "field_type"
  let options := Fields.get f "picklist_options"
  validated services .entityField (.obj
    [("name", name), ("slug", slug), ("field_type", fieldType),
      ("picklist_options", if options.truthy then options else .arr []),
      ("is_required", getD f "is_required" (.bool false)),
      ("is_unique", getD f "is_unique" (.bool false)),
      ("default_value", Fields.get f "default_value"), ("order", getD f "order" (.num 0))])

def fieldRow (id : String) (body : Json) (isRequired : Json) : Json :=
  .obj [("id", .str id), ("lineage_id", .str id), ("name", attr body "name"),
    ("slug", attr body "slug"), ("field_type", attr body "field_type"),
    ("picklist_options", attr body "picklist_options"), ("is_required", isRequired),
    ("is_unique", attr body "is_unique"),
    ("default_value", attr body "default_value"), ("order", attr body "order")]

def slugsOf (rows : List Json) : List Json := rows.map fun row => attr row "slug"

/-- The fields of an entity after `add_field`, unless it is refused. -/
def addField (id : String) (body : Json) (existing : List Json) : Option (List Json) :=
  if maxFieldsPerEntity ≤ existing.length then none
  else if attr body "slug" ∈ slugsOf existing then none
  else some (services.enlist (fieldRow id body (.bool false)) existing)

/-- Fields that were added, how many, and whether a body was refused, which ends the loop. -/
structure AddedFields where
  fields : List Json
  added : Nat := 0
  refused : Bool := false

/-- Add the fields whose slug the entity did not have, as optional ones. A field that cannot be
added is only warned of. -/
def addMissingFields (before : List Json) : AddedFields → Nat → List Fields → Option AddedFields
  | so, _, [] => some so
  | so, issued, f :: rest =>
    match f.lookup "slug" with
    | none => none
    | some slug =>
      if slug ∈ before then addMissingFields before so issued rest
      else
        match fieldCreate services f with
        | .error .fatal => none
        | .error .refused => some { so with refused := true }
        | .ok body =>
          match addField services (services.freshId issued) body so.fields with
          | none => addMissingFields before so issued rest
          | some fields =>
            addMissingFields before { so with fields := fields, added := so.added + 1 }
              (issued + 1) rest

/-- An entity that is written over gets the name, the description unless it is `None`, and the
fields it does not have. -/
def overwriteEntity (s : ImportState) (ent : Fields) (found : Match) : Attempt Change := do
  let name ← key ent "name"
  let columns := setUnlessNull (setUnlessNull found.row.columns "name" name) "description"
    (Fields.get ent "description")
  let fields ← objectsOf (← key ent "fields")
  let before := items (found.row.column "fields")
  let some so := addMissingFields services (slugsOf before) { fields := before } s.issued fields
    | throw .fatal
  let columns := Fields.set "fields" (.arr so.fields) columns
  if so.refused ∨ (!found.byLineage ∧ adoptedLineage found.row ent = none) then
    return .update found.row
      { columns := columns, linked := false, mapped := false, parts := so.added, action := .failed }
  else
    return .update found.row
      { columns := columns, linked := !found.byLineage, parts := so.added, action := .overwritten }

/-- The fields of a new entity, in the order of the database. -/
def fieldRows (issued : Nat) (bodies : List Json) : List Json :=
  ((bodies.zipIdx issued).map fun entry =>
    fieldRow (services.freshId entry.2) entry.1 (attr entry.1 "is_required")).foldl
      (fun rows row => services.enlist row rows) []

/-- `create_definition` -/
def createEntity (s : ImportState) (ent : Fields) (collides : Option Row) (name slug : Json) :
    Attempt Change := do
  let fields ← objectsOf (← key ent "fields")
  let bodies ← fields.mapM (fieldCreate services)
  let body ← validated services .entityDefinition (.obj
    [("name", name), ("slug", slug), ("description", Fields.get ent "description"),
      ("fields", .arr bodies)])
  if maxDefinitionsPerOrg ≤ (s.org.rows .entities).length then throw .refused
  if maxFieldsPerEntity < bodies.length then throw .refused
  if attr body "slug" ∈ (s.org.rows .entities).map (·.column "slug") then throw .refused
  let columns :=
    [("name", attr body "name"), ("slug", attr body "slug"),
      ("description", attr body "description"), ("is_active", .bool true),
      ("fields", .arr (fieldRows services (s.issued + 1) bodies)), ("relationships", .arr [])]
  if collides = none ∧ stampOf ent (services.freshId s.issued) = none then
    return .create collides false
      { columns := columns, linked := false, mapped := false, parts := bodies.length,
        action := .failed }
  else
    return .create collides true
      { columns := columns, linked := collides.isNone, parts := bodies.length,
        action := if collides.isNone then .created else .renamed }

def entityChange (s : ImportState) (ent : Fields) : Option Change :=
  match key ent "slug" with
  | .error _ => none
  | .ok slug =>
    let taken := columnTexts services (s.org.rows .entities) "slug" ++ s.takenSlugs
    onCollision strategy (matchByColumn s .entities ent "slug" slug)
      (fun found =>
        if !found.byLineage ∧ adoptedLineage found.row ent = none then
          some (.leave (some .failed) [])
        else keepSkipped found)
      (fun found => recordFailure [] (overwriteEntity services s ent found))
      (fun collides => do
        let (newName, newSlug) ← (do
          let newSlug ← forked collides (fun slug => suffixSlug slug taken 63 "_") slug
          let newName ← forked collides (fun name => suffixName name [] 200) (← key ent "name")
          return (newName, newSlug) : Attempt (Json × Json)).toOption
        recordFailure [asText services.str newSlug]
          (createEntity services s ent collides newName newSlug))

/-- `create_relationship`: the body of the new relationship. -/
def createRelationship (source : Row) (rel : Fields) (targetId : String) : Attempt Json := do
  let name ← key rel "name"
  let slug ← key rel "slug"
  let cardinality ← key rel "cardinality"
  let body ← validated services .entityRelationship (.obj
    [("name", name), ("slug", slug), ("cardinality", cardinality),
      ("target_definition_id", .str targetId),
      ("on_delete", getD rel "on_delete" (.str "SET NULL")),
      ("is_required", getD rel "is_required" (.bool false))])
  let existing := items (source.column "relationships")
  if maxRelationshipsPerEntity ≤ existing.length then throw .refused
  if attr body "slug" ∈ slugsOf existing then throw .refused
  return body

def relationshipRow (id targetId : String) (body : Json) : Json :=
  .obj [("id", .str id), ("lineage_id", .str id), ("name", attr body "name"),
    ("slug", attr body "slug"), ("cardinality", attr body "cardinality"),
    ("on_delete", attr body "on_delete"), ("is_required", attr body "is_required"),
    ("target_definition_id", .str targetId)]

def addRelationship (rel : Json) (row : Row) : Row :=
  let rels := services.enlist rel (items (row.column "relationships"))
  { row with columns := Fields.set "relationships" (.arr rels) row.columns }

/-- A relationship of the bundle, for the row that its entity is mapped to: one whose target is not
mapped is left out, one whose slug the row has is mapped onto it, any other is created. -/
def importRelationship (sourceRow : String) (s : ImportState) (rel : Fields) :
    Option ImportState := do
  let target ← rel.lookup "target_definition_id"
  let slug ← rel.lookup "slug"
  let some targetId := s.ids.get .entities (asText services.str target) | some s
  let source ← s.org.find .entities sourceRow
  match (items (source.column "relationships")).find? (attr · "slug" = slug) with
  | some existing =>
    mapOnto services (some .relationships) rel true
      (asText services.str (attr existing "id")) s
  | none =>
    match createRelationship services source rel targetId with
    | .error .fatal => none
    | .error .refused => some s
    | .ok body =>
      let id := services.freshId s.issued
      let s := { s with issued := s.issued + 1 }
      let s := s.replace .entities sourceRow
        (addRelationship services (relationshipRow id targetId body))
      mapOnto services (some .relationships) rel true id s

/-- `ent.get("relationships") or []` -/
def relationshipsOf (ent : Fields) : Option (List Fields) :=
  let rels := Fields.get ent "relationships"
  if rels.truthy then (objectsOf rels).toOption else some []

def importRelationshipsOf (s : ImportState) (ent : Fields) : Option ImportState := do
  let oldId ← ent.lookup "id"
  match s.ids.get .entities (asText services.str oldId) with
  | none => some s
  | some sourceRow =>
    let rels ← relationshipsOf ent
    Lib.Trace.run (importRelationship services sourceRow) s rels

/-- The second pass over the entities. -/
def importRelationships : ImportState → List Fields → Option ImportState :=
  Lib.Trace.run (importRelationshipsOf services)

end Passes

end RedArchKM.Promotion
