import Mathlib.Algebra.GroupWithZero.Nat
import RedArchKM.Promotion.Bundle

/-!
# The diff of a bundle and a target

Every source object is matched to a target object, by its lineage or else by its natural key, and
compared with it by a fingerprint: the exported JSON without identity and timestamps, its
references replaced by the lineage of what they refer to. The hash of the fingerprint is taken to
be injective, so the fingerprint is here the text that is hashed, as a tree with sorted keys.

`str` is Python's `str` of a value that is no string.
-/

namespace RedArchKM.Promotion

open Workflow (Fields Json)

/-! ## Keys -/

/-- Resource types that are counted and never compared. -/
def dataResourceTypes : List ResourceType := [.records, .documents]

theorem mem_resourceOrder (rtype : ResourceType) : rtype ∈ resourceOrder := by
  cases rtype <;> decide

instance (property : ResourceType → Prop) [DecidablePred property] :
    Decidable (∀ rtype, property rtype) :=
  decidable_of_iff (∀ rtype ∈ resourceOrder, property rtype)
    ⟨fun all rtype => all rtype (mem_resourceOrder rtype), fun all rtype _ => all rtype⟩

/-- The column that identifies an object where its lineage does not. -/
def naturalKeyColumn : ResourceType → String
  | .tags => "name"
  | .entities => "slug"
  | .connections => "name"
  | .folders => "dot_path"
  | .workflows => "name"
  | .inboundEndpoints => "name"
  | .reports => "slug"
  | .forms => "slug"
  | .views => "slug"
  | .mcpServers => "name"
  | .agents => "name"
  | .documents => "title"
  | .records => "name"

/-- Keys that are dropped everywhere before hashing. -/
def volatileKeys : List String := ["id", "lineage_id", "created_at", "updated_at"]

/-- Keys of references that only the fingerprint looks at. -/
def fingerprintRefKeys : List String :=
  ["folder_id", "mcp_server_ids", "workflow_allowlist", "connection_id", "view_id", "tag_ids",
    "target_definition_id", "source_definition_id"]

def isRefKey : Option String → Bool
  | some key => (remapKeys.lookup key).isSome || key ∈ fingerprintRefKeys
  | none => false

section Str

variable (str : Json → String)

/-- `str(value)` -/
def asText : Json → String
  | .str text => text
  | value => str value

/-! ## Correlation -/

def naturalKey (rtype : ResourceType) (obj : Fields) : String :=
  match obj.lookup (naturalKeyColumn rtype) with
  | some value => asText str value
  | none => ""

/-- `obj.get("name") or obj.get("title") or obj.get("slug")` -/
def nameOf (obj : Fields) : Option Json :=
  (((obj.lookup "name").filter Json.truthy).or ((obj.lookup "title").filter Json.truthy)).or
    (obj.lookup "slug")

/-- The lineage id of an object, unless it has none. -/
def lineageOf (obj : Fields) : Option String :=
  let lineage := Fields.get obj "lineage_id"
  if lineage.truthy then some (asText str lineage) else none

def idOf (obj : Fields) : String := asText str (Fields.get obj "id")

/-- The target object of a source object: by lineage, else by natural key. Of several with that
lineage it is the last, of several with that natural key the first. -/
def matchTarget (rtype : ResourceType) (src : Fields) (targets : List Fields) : Option Fields :=
  let byLineage := (lineageOf str src).bind fun lineage =>
    (targets.filter fun target => lineageOf str target = some lineage).getLast?
  byLineage.or (targets.find? fun target => naturalKey str rtype target = naturalKey str rtype src)

/-! ## Fingerprints -/

/-- Local ids with the lineage they were exported with, if any. -/
abbrev LineageIndex := List (String × Option String)

/-- What an object adds to the index itself. -/
def lineageEntry (obj : Fields) : LineageIndex :=
  match Fields.get obj "id" with
  | .str id => if isUuid id then [(id, lineageOf str obj)] else []
  | _ => []

mutual

/-- The ids of a tree, with their lineages: those of nested objects too. -/
def collectLineage : Json → LineageIndex
  | .null => []
  | .bool _ => []
  | .num _ => []
  | .str _ => []
  | .arr items => collectLineageItems items
  | .obj fields => lineageEntry str fields ++ collectLineageFields fields

def collectLineageItems : List Json → LineageIndex
  | [] => []
  | item :: items => collectLineage item ++ collectLineageItems items

def collectLineageFields : Fields → LineageIndex
  | [] => []
  | (_, value) :: fields => collectLineage value ++ collectLineageFields fields

end

def buildLineageIndex (resources : Resources) : LineageIndex :=
  resources.flatMap fun entry => entry.2.flatMap fun obj => collectLineage str (.obj obj)

section

variable (index : LineageIndex)

def LineageIndex.entry (id : String) : Option (Option String) :=
  index.reverse.lookup id

/-- The lineage of an id, or the id itself if it has none or is unknown. -/
def LineageIndex.resolve (id : String) : String :=
  ((index.entry id).join).getD id

def normalizeRef (key : Option String) (value : String) : String :=
  if isRefKey key && isUuid value then index.resolve value else value

/-- Without identity and timestamps, references replaced by lineages. -/
def canonicalize (value : Json) : Json :=
  Json.walk (· ∉ volatileKeys) (normalizeRef index) none value

end

def fingerprint (obj : Fields) (index : LineageIndex) : Json :=
  Json.sortKeys (canonicalize index (.obj obj))

/-! ## The diff -/

inductive ObjectStatus where
  | added
  | changed
  | unchanged
  | deleted
deriving DecidableEq

/-- An object that is added, changed or deleted. Unchanged ones are only counted. -/
structure ObjectDiff where
  resourceType : ResourceType
  status : ObjectStatus
  lineageId : Option String
  naturalKey : String
  name : Option Json

structure ResourceDiff where
  resourceType : ResourceType
  added : Nat := 0
  changed : Nat := 0
  unchanged : Nat := 0
  deleted : Nat := 0
  countOnly : Bool := false
  objects : List ObjectDiff := []

def objectDiff (rtype : ResourceType) (obj : Fields) (status : ObjectStatus) : ObjectDiff where
  resourceType := rtype
  status := status
  lineageId := lineageOf str obj
  naturalKey := naturalKey str rtype obj
  name := nameOf obj

def dataCount (rtype : ResourceType) (items : List Fields) : Nat :=
  if rtype = .records then
    (items.map fun set => match Fields.get set "records" with
      | .arr rows => rows.length
      | _ => 0).sum
  else items.length

def isPromotionManaged (obj : Fields) : Bool :=
  match lineageOf str obj with
  | some lineage => lineage ≠ idOf str obj
  | none => false

def statusOf (source target : Resources) (rtype : ResourceType) (src : Fields) : ObjectStatus :=
  match matchTarget str rtype src (target.get rtype) with
  | none => .added
  | some found =>
    if fingerprint src (buildLineageIndex str source) =
        fingerprint found (buildLineageIndex str target) then .unchanged
    else .changed

def diffResource (source target : Resources) (includeData : Bool) (manage : List ResourceType)
    (rtype : ResourceType) : ResourceDiff :=
  let srcItems := source.get rtype
  let tgtItems := target.get rtype
  if rtype ∈ dataResourceTypes ∧ includeData = false then
    { resourceType := rtype, added := dataCount rtype srcItems, countOnly := true }
  else
    let statuses := srcItems.map fun src => (src, statusOf str source target rtype src)
    let matched := srcItems.filterMap fun src =>
      (matchTarget str rtype src tgtItems).map (idOf str)
    let gone := if rtype ∈ manage then
        tgtItems.filter fun target => idOf str target ∉ matched && isPromotionManaged str target
      else []
    { resourceType := rtype
      added := (statuses.map Prod.snd).count .added
      changed := (statuses.map Prod.snd).count .changed
      unchanged := (statuses.map Prod.snd).count .unchanged
      deleted := gone.length
      objects :=
        (statuses.filter fun entry => entry.2 ≠ .unchanged).map
            (fun entry => objectDiff str rtype entry.1 entry.2) ++
          gone.map fun target => objectDiff str rtype target .deleted }

/-- Numbers of objects over all compared types. -/
structure DiffTotals where
  added : Nat
  changed : Nat
  unchanged : Nat
  deleted : Nat

/-- The full diff. Deletes are applied in the reverse of the dependency order. -/
structure BundleDiff where
  resources : List ResourceDiff
  deleteOrder : List ResourceType
  hasDeletes : Bool
  totals : DiffTotals

def configResourceTypes : List ResourceType := resourceOrder.filter (· ∉ dataResourceTypes)

/-- The diff of what a release would apply and the current state of the target. -/
def computeDiff (source target : Resources) (includeData : Bool)
    (manageDeletesFor : Option (List ResourceType)) : BundleDiff :=
  let manage := manageDeletesFor.getD configResourceTypes
  let resources := resourceOrder.map (diffResource str source target includeData manage)
  let compared := resources.filter fun diff => diff.countOnly = false
  { resources := resources
    deleteOrder := (resources.filter fun diff => 0 < diff.deleted).reverse.map
      ResourceDiff.resourceType
    hasDeletes := resources.any fun diff => 0 < diff.deleted
    totals :=
      { added := (compared.map ResourceDiff.added).sum
        changed := (compared.map ResourceDiff.changed).sum
        unchanged := (compared.map ResourceDiff.unchanged).sum
        deleted := (compared.map ResourceDiff.deleted).sum } }

end Str

end RedArchKM.Promotion
