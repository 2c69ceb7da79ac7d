import RedArchKM.Promotion.WorkflowImport

/-!
# Importing reports, forms and views

They are found by their slug. What they show is validated against the org: a report by its query,
a form or a view by its layout, in which the references are remapped first.
-/

namespace RedArchKM.Promotion

open Workflow (Fields Json)
open Columns

section Passes

variable (services : Services) (strategy : CollisionStrategy)

/-! ## Reports -/

def maxReportsPerOrg : Nat := 500

def boundEntity (s : ImportState) (obj : Fields) : Attempt String := do
  let entityId ← key obj "entity_definition_id"
  match s.ids.get .entities (asText services.str entityId) with
  | some entityId => return entityId
  | none => throw .refused

def reportParts (report : Fields) : Attempt (Json × Json × Json) := do
  let query ← validated services .aggregateQuery (orEmpty (Fields.get report "query"))
  let viz ← validated services .visualization (orEmpty (Fields.get report "viz"))
  return (query, viz, .bool (getD report "is_active" (.bool true)).truthy)

section

variable (s : ImportState) (report : Fields)

/-- A report that is bound to another entity is not written over. -/
def overwriteReport (entityId : String) (found : Match) : Attempt Change := do
  let (query, viz, isActive) ← reportParts services report
  if found.row.column "entity_definition_id" ≠ .str entityId then throw .refused
  let name ← key report "name"
  let body ← validated services .reportUpdate (.obj
    [("name", name), ("description", Fields.get report "description"), ("query", query),
      ("viz", viz), ("is_active", isActive)])
  if services.reportFits s.org entityId (attr body "query") (attr body "viz") = false then
    throw .refused
  let columns := setUnlessNull (setUnlessNull found.row.columns "name" (attr body "name"))
    "description" (attr body "description")
  let columns := Fields.set "viz" (attr body "viz") (Fields.set "query" (attr body "query") columns)
  return .update found.row
    { columns := Fields.set "is_active" (attr body "is_active") columns
      linked := !found.byLineage, action := .overwritten }

def createReport (entityId : String) (collides : Option Row) (slug : Json) (taken : List String) :
    Attempt Change := do
  let (query, viz, isActive) ← reportParts services report
  let slug ← forked collides (fun slug => suffixSlug slug taken 63 "-") slug
  let name ← forked collides (fun name => suffixName name [] 200) (← key report "name")
  let body ← validated services .report (.obj
    [("name", name), ("slug", slug), ("description", Fields.get report "description"),
      ("entity_definition_id", .str entityId), ("query", query), ("viz", viz),
      ("is_active", isActive)])
  if maxReportsPerOrg ≤ (s.org.rows .reports).length then throw .refused
  if services.reportFits s.org entityId (attr body "query") (attr body "viz") = false then
    throw .refused
  if attr body "slug" ∈ (s.org.rows .reports).map (·.column "slug") then throw .refused
  return .create collides true
    { columns :=
        [("name", attr body "name"), ("slug", attr body "slug"),
          ("description", attr body "description"), ("entity_definition_id", .str entityId),
          ("query", attr body "query"), ("viz", attr body "viz"),
          ("is_active", attr body "is_active")]
      linked := collides.isNone
      action := if collides.isNone then .created else .renamed }

def reportChange : Option Change :=
  match report.lookup "slug" with
  | none => none
  | some slug =>
    let existing := s.listed .reports
    onCollision strategy (matchByColumn s .reports report "slug" slug) keepSkipped
      (fun found => recordFailure [] do
        let entityId ← boundEntity services s report
        overwriteReport services s report entityId found)
      (fun collides => recordFailure [] do
        let entityId ← boundEntity services s report
        createReport services s report entityId collides slug
          (columnTexts services existing "slug"))

end

/-! ## Forms and views -/

structure LayoutKind where
  resourceType : ResourceType
  maxPerOrg : Nat
  create : Schema
  update : Schema
  /-- The entity that the layout is bound to; a form must have one, a view may. -/
  entityOf : ImportState → Fields → Attempt (Option String)

/-- `_config`: the layout with its references remapped. -/
def layoutConfig (s : ImportState) (resource : Fields) : Attempt Json :=
  validated services .formConfig (remapRefs s.ids (orEmpty (Fields.get resource "config")))

section

variable (kind : LayoutKind) (s : ImportState) (resource : Fields)

/-- The new layout is checked against the entity that the row is bound to. -/
def overwriteLayout (found : Match) : Attempt Change := do
  let _ ← kind.entityOf s resource
  let config ← layoutConfig services s resource
  let name ← key resource "name"
  let body ← validated services kind.update (.obj
    [("name", name), ("description", Fields.get resource "description"), ("config", config)])
  let entityId := (found.row.column "entity_definition_id").nonemptyStr?
  if services.layoutFits s.org entityId (attr body "config") = false then throw .refused
  let columns := Fields.set "config" (attr body "config") found.row.columns
  let columns := setUnlessNull columns "name" (attr body "name")
  return .update found.row
    { columns := setUnlessNull columns "description" (attr body "description")
      linked := !found.byLineage, action := .overwritten }

def createLayout (collides : Option Row) (slug : Json) (taken : List String) : Attempt Change := do
  let entityId ← kind.entityOf s resource
  let config ← layoutConfig services s resource
  let slug ← forked collides (fun slug => suffixSlug slug taken 63 "-") slug
  let name ← forked collides (fun name => suffixName name [] 200) (← key resource "name")
  let body ← validated services kind.create (.obj
    [("name", name), ("slug", slug), ("description", Fields.get resource "description"),
      ("entity_definition_id", ofId entityId), ("config", config)])
  if kind.maxPerOrg ≤ (s.org.rows kind.resourceType).length then throw .refused
  if attr body "slug" ∈ (s.org.rows kind.resourceType).map (·.column "slug") then throw .refused
  if services.layoutFits s.org entityId (attr body "config") = false then throw .refused
  return .create collides true
    { columns :=
        [("name", attr body "name"), ("slug", attr body "slug"),
          ("description", attr body "description"), ("entity_definition_id", ofId entityId),
          ("config", attr body "config"), ("is_active", .bool true)]
      linked := collides.isNone
      action := if collides.isNone then .created else .renamed }

def layoutChange : Option Change :=
  match resource.lookup "slug" with
  | none => none
  | some slug =>
    let existing := s.listed kind.resourceType
    onCollision strategy (matchByColumn s kind.resourceType resource "slug" slug)
      keepSkipped
      (fun found => recordFailure [] (overwriteLayout services kind s resource found))
      (fun collides => recordFailure []
        (createLayout services kind s resource collides slug
          (columnTexts services existing "slug")))

end

def formKind : LayoutKind where
  resourceType := .forms
  maxPerOrg := 200
  create := .form
  update := .formUpdate
  entityOf s form := do
    let entityId ← boundEntity services s form
    return some entityId

def viewKind : LayoutKind where
  resourceType := .views
  maxPerOrg := 200
  create := .view
  update := .viewUpdate
  entityOf s view :=
    if (Fields.get view "entity_definition_id").truthy then do
      let entityId ← boundEntity services s view
      return some entityId
    else return none

def formChange : ImportState → Fields → Option Change :=
  layoutChange services strategy (formKind services)

def viewChange : ImportState → Fields → Option Change :=
  layoutChange services strategy (viewKind services)

end Passes

end RedArchKM.Promotion
