import RedArchKM.Lib.Postorder
import RedArchKM.Records.Writes

/-!
# The import of records

The records of a bundle are created entity by entity, after those that they link to where that is
possible. A link to a record that is not created yet is left out and set in a second pass over the
links that were deferred. Ids are mapped for each entity. A record that is refused is noted, and the
others are imported all the same.
-/

namespace RedArchKM.Promotion

open Lib (Walk)
open Lib.Query (Row)
open Records (Cardinality Catalog Environment Failure Public Repository)

variable {ν : Type}

/-! ## What is imported -/

structure BundledRelationship where
  slug : String
  targetDefinitionId : String
  cardinality : Cardinality

structure BundledEntity where
  id : String
  slug : String
  relationships : List BundledRelationship

structure RecordSet (ν : Type) where
  entitySlug : String
  records : List (Public ν)

section Entities

variable (entities : List BundledEntity)

/-- `by_slug.get(slug)` -/
def bySlug (slug : String) : Option BundledEntity :=
  entities.reverse.find? fun entity => entity.slug = slug

def targetSlug (relationship : BundledRelationship) : Option String :=
  (entities.map BundledEntity.slug).eraseDups.find? fun slug =>
    (bySlug entities slug).any fun entity => entity.id = relationship.targetDefinitionId

def relTargets (slug : String) : List (String × String) :=
  ((bySlug entities slug).elim [] BundledEntity.relationships).filterMap fun relationship =>
    if relationship.cardinality = .manyToMany then none
    else (targetSlug entities relationship).map (relationship.slug, ·)

/-- `rel_targets[slug].get(key)` -/
def fkTarget (slug key : String) : Option String := (relTargets entities slug).reverse.lookup key

/-- `rel_targets[slug].values()` -/
def targetsOf (slug : String) : List String :=
  ((relTargets entities slug).map Prod.fst).eraseDups.filterMap (fkTarget entities slug)

/-- `_topo_order`; the targets of an entity are a set, in no order of its own. -/
def topoOrder (setOrder : List String → List String) (recordSets : List (RecordSet ν)) :
    List String :=
  Walk.postorder (fun slug => setOrder (targetsOf entities slug))
    (recordSets.map RecordSet.entitySlug)

end Entities

/-! ## The target -/

/-- The tables of the org by the definitions of their entities. -/
abbrev RecordTables (ν : Type) := Nat → List (Row String ν)

/-- The org that records are imported into, and what the import calls. -/
structure TargetOrg (ν : Type) where
  env : Environment (RecordTables ν) ν
  orgId : ν
  /-- The definition that an entity of the bundle was mapped to. -/
  entityIds : String → Option Nat
  catalogs : Nat → Option Catalog
  now : ν
  ids : Nat → ν
  /-- The order in which a set is gone through. -/
  setOrder : List String → List String

/-- A link that is set in the second pass. -/
structure DeferredLink where
  entitySlug : String
  oldId : String
  fkSlug : String
  targetSlug : String
  oldTargetId : String

structure RecordImport (ν : Type) where
  tables : RecordTables ν
  ids : List ((String × String) × String) := []
  deferred : List DeferredLink := []
  drawn : Nat := 0
  created : Nat := 0
  /-- The warnings about records and links, with what refused them. -/
  warnings : List (String × Failure) := []

/-- `except EntityRecordError` -/
def isRecordError : Failure → Bool
  | .record _ => true
  | .conflict _ => true
  | _ => false

namespace TargetOrg

variable (org : TargetOrg ν) (entities : List BundledEntity)

/-- `repo_for`, with the id of the definition -/
def repoFor (slug : String) : Option (Nat × Repository ν) :=
  (bySlug entities slug).bind fun entity => (org.entityIds entity.id).bind fun id =>
    (org.catalogs id).map fun catalog => (id, { catalog := catalog, orgId := org.orgId })

/-- `str(value)` -/
def text (value : ν) : String := org.env.python.str (some value)

section Records

variable (slug : String) (ids : List ((String × String) × String))

def payloadEntry (item : String × Option ν) : Option (String × Option ν) :=
  if item.1 = "id" then none
  else
    match item.2 with
    | none => none
    | some value =>
      match fkTarget entities slug item.1 with
      | none => some (item.1, some value)
      | some target =>
        (ids.lookup (target, org.text value)).map fun mapped =>
          (item.1, some (org.env.python.ofText mapped))

def deferredLink (oldId : String) (item : String × Option ν) : Option DeferredLink :=
  if item.1 = "id" then none
  else
    match item.2 with
    | none => none
    | some value =>
      match fkTarget entities slug item.1 with
      | none => none
      | some target =>
        match ids.lookup (target, org.text value) with
        | some _ => none
        | none => some ⟨slug, oldId, item.1, target, org.text value⟩

end Records

def idText (record : Public ν) : Option String := (record.lookup "id").join.map org.text

def withTable (tables : RecordTables ν) (definitionId : Nat) (rows : List (Row String ν)) :
    RecordTables ν :=
  fun other => if other = definitionId then rows else tables other

/-- One record of the first pass. -/
def importRecord (state : RecordImport ν) (item : String × Public ν) :
    Except Failure (RecordImport ν) :=
  match org.repoFor entities item.1 with
  | none => return state
  | some (definitionId, repo) =>
    let oldId := org.idText item.2
    let payload := item.2.filterMap (org.payloadEntry entities item.1 state.ids)
    let deferred := state.deferred ++ oldId.elim [] fun oldId =>
      item.2.filterMap (org.deferredLink entities item.1 state.ids oldId)
    let (result, db) := repo.create org.env ⟨org.now, org.ids state.drawn⟩ payload
      ⟨state.tables definitionId, state.tables⟩
    match result with
    | .ok record =>
      return {
        tables := withTable state.tables definitionId db.rows
        ids := (oldId.elim [] fun oldId =>
          [((item.1, oldId), org.env.python.str (record.lookup "id").join)]) ++ state.ids
        deferred := deferred
        drawn := state.drawn + 1
        created := state.created + 1
        warnings := state.warnings }
    | .error failure =>
      if isRecordError failure then
        return { state with
          deferred := deferred
          drawn := state.drawn + 1
          warnings := state.warnings ++ [(item.1, failure)] }
      else .error failure

/-- One link of the second pass. -/
def linkRecord (state : RecordImport ν) (link : DeferredLink) : Except Failure (RecordImport ν) :=
  match state.ids.lookup (link.entitySlug, link.oldId),
      state.ids.lookup (link.targetSlug, link.oldTargetId) with
  | some newSource, some newTarget =>
    match org.repoFor entities link.entitySlug with
    | none => return state
    | some (definitionId, repo) =>
      match org.env.python.uuid newSource with
      | none => .error .value
      | some recordId =>
        let (result, db) := repo.update org.env ⟨org.now, org.ids state.drawn⟩ recordId
          [(link.fkSlug, some (org.env.python.ofText newTarget))]
          ⟨state.tables definitionId, state.tables⟩
        match result with
        | .ok _ => return { state with tables := withTable state.tables definitionId db.rows }
        | .error failure =>
          if isRecordError failure then
            return { state with warnings := state.warnings ++ [(link.entitySlug, failure)] }
          else .error failure
  | _, _ => return state

def importOrder (recordSets : List (RecordSet ν)) : List (String × Public ν) :=
  (topoOrder entities org.setOrder recordSets).flatMap fun slug =>
    ((recordSets.find? fun set => set.entitySlug = slug).elim [] RecordSet.records).map (slug, ·)

def importRecords (recordSets : List (RecordSet ν)) (tables : RecordTables ν) :
    Except Failure (RecordImport ν) := do
  let state ← (org.importOrder entities recordSets).foldlM (org.importRecord entities)
    { tables := tables }
  state.deferred.foldlM (org.linkRecord entities) state

end TargetOrg

end RedArchKM.Promotion
