import RedArchKM.Promotion.OrgConfig
import RedArchKM.Lib.Trace

/-!
# The state of an import

An import goes over the objects of a bundle, type by type. For every object it decides on a
`Change` of the org: to leave the org as it is, to update a row that the object matches, or to
create a row. `apply` carries the change out, adopts or stamps the lineage of the object and maps
the references to it. `none` is an exception that ends the import; its transaction is rolled back.
-/

namespace RedArchKM.Promotion

open Workflow (Fields Json)

/-! ## Lineage -/

/-- The lineage that an object gives to a row of that id: none if it carries none or the id itself.
It fails on a lineage that is no UUID. -/
def stampOf (incoming : Fields) (id : String) : Option (Option String) :=
  match Fields.get incoming "lineage_id" with
  | .str lineage =>
    if lineage = "" ∨ lineage = id then some none else (uuidOf lineage).map some
  | value => if value.truthy then none else some none

/-- The lineage of a row that adopts that of an object, unless it has one already. -/
def adoptedLineage (row : Row) (incoming : Fields) : Option (Option String) :=
  match row.lineageId with
  | some lineage => some (some lineage)
  | none => stampOf incoming row.id

def lineageAfter (row : Row) (incoming : Fields) (linked : Bool) : Option (Option String) :=
  if linked then adoptedLineage row incoming else some row.lineageId

def lineageOfNew (incoming : Fields) (id : String) (linked : Bool) : Option (Option String) :=
  if linked then stampOf incoming id else some none

structure Match where
  row : Row
  byLineage : Bool

def matchLineage (incoming : Fields) (existing : List Row) (natural : Option Row) :
    Option Match :=
  let incomingLineage := Fields.get incoming "lineage_id"
  let found := if incomingLineage.truthy then
      existing.find? fun row => Json.str row.lineage = incomingLineage
    else none
  match found with
  | some row => some ⟨row, true⟩
  | none => natural.map fun row => ⟨row, false⟩

def byColumn (rows : List Row) (column : String) (value : Json) : Option Row :=
  rows.reverse.find? fun row => row.column column = value

/-! ## Changes -/

inductive Action where
  | created
  | overwritten
  | renamed
  | skipped
  | failed

structure Write where
  columns : Fields
  linked : Bool := true
  mapped : Bool := true
  /-- How many rows of its own the row gets: fields of an entity. -/
  parts : Nat := 0
  action : Action

/-- What an import does with an object. -/
inductive Change where
  /-- Nothing is written; slugs that were tried stay taken. -/
  | leave (action : Option Action) (tried : List String)
  | update (row : Row) (write : Write)
  /-- A new row, in spite of one that the object matches, if any. Only a listed row is matched by
  later objects. -/
  | create (collides : Option Row) (listed : Bool) (write : Write)

namespace Change

/-- The row is kept, references are mapped onto it. -/
def keep (found : Match) (action : Action) : Change :=
  .update found.row { columns := found.row.columns, linked := !found.byLineage, action := action }

end Change

/-! ## States -/

def replaceRow (id : String) (change : Row → Row) (row : Row) : Row :=
  if row.id = id then change row else row

/-- What became of an object: the row it matched and the row that was created for it. -/
structure Outcome where
  resourceType : ResourceType
  obj : Fields
  action : Action
  found : Option String := none
  created : Option String := none

structure ImportState where
  org : OrgConfig
  ids : IdMap := []
  issued : Nat := 0
  outcomes : List Outcome := []
  /-- Rows that the import has created and does not match. -/
  unlisted : List String := []
  takenSlugs : List String := []

namespace ImportState

section

variable (s : ImportState)

/-- The rows that the objects of a type are matched to. -/
def listed (rtype : ResourceType) : List Row :=
  (s.org.rows rtype).filter fun row => row.id ∉ s.unlisted

def record (outcome : Outcome) : ImportState :=
  { s with outcomes := s.outcomes ++ [outcome] }

def replace (rtype : ResourceType) (id : String) (change : Row → Row) : ImportState :=
  { s with org := s.org.modify rtype (List.map (replaceRow id change)) }

def add (rtype : ResourceType) (row : Row) (issued : Nat) : ImportState :=
  { s with org := s.org.modify rtype (· ++ [row]), issued := s.issued + issued }

end

end ImportState

section Apply

variable (services : Services)

/-- `str(obj["id"])`, where the object has one. -/
def sourceId (obj : Fields) : Option String := (obj.lookup "id").map (asText services.str)

section

variable (kind : Option Namespace) (obj : Fields) (mapped : Bool) (id : String)

def idsWith (ids : IdMap) : Option IdMap :=
  match kind, mapped with
  | some kind, true => (sourceId services obj).map fun oldId => ids.put kind oldId id
  | _, _ => some ids

def mapOnto (s : ImportState) : Option ImportState :=
  (idsWith services kind obj mapped id s.ids).map fun ids => { s with ids := ids }

end

section

variable (rtype : ResourceType) (kind : Option Namespace)

/-- Carry out what was decided for an object. -/
def applyChange (obj : Fields) (s : ImportState) : Change → Option ImportState
  | .leave action tried =>
    let s := { s with takenSlugs := tried ++ s.takenSlugs }
    some (action.elim s fun action => s.record { resourceType := rtype, obj := obj, action := action })
  | .update row write => do
      let lineageId ← lineageAfter row obj write.linked
      let s := s.replace rtype row.id fun row =>
        { row with lineageId := lineageId, columns := write.columns }
      let s := { s with issued := s.issued + write.parts }
      let s ← mapOnto services kind obj write.mapped row.id s
      return s.record
        { resourceType := rtype, obj := obj, action := write.action, found := some row.id }
  | .create collides listed write => do
      let id := services.freshId s.issued
      let lineageId ← lineageOfNew obj id write.linked
      let s := s.add rtype { id := id, lineageId := lineageId, columns := write.columns }
        (write.parts + 1)
      let s := if listed then s else { s with unlisted := id :: s.unlisted }
      let s ← mapOnto services kind obj write.mapped id s
      return s.record
        { resourceType := rtype, obj := obj, action := write.action, found := collides.map Row.id,
          created := some id }

def importRows (decision : ImportState → Fields → Option Change) : ImportState → List Fields →
    Option ImportState :=
  Lib.Trace.run fun s obj => (decision s obj).bind (applyChange services rtype kind obj s)

end

end Apply

/-! ## Collisions -/

/-- What the strategy says about an object: one that matches a row is skipped, written over that
row, or created beside it; one that matches none is created. -/
def onCollision (strategy : CollisionStrategy) (found : Option Match)
    (skip overwrite : Match → Option Change) (create : Option Row → Option Change) :
    Option Change :=
  match found with
  | none => create none
  | some found =>
    match strategy with
    | .skip => skip found
    | .overwrite => overwrite found
    | .rename => create (some found.row)

end RedArchKM.Promotion
