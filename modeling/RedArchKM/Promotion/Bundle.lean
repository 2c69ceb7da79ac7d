import RedArchKM.Promotion.JsonTree

/-!
# Migration bundles

A bundle lists the exported objects of an org by resource type, each a JSON object with its local
id and its lineage id. References between objects are local ids, in columns of the objects or deep
inside their JSON columns under known keys. An import keeps a map from the ids of the bundle to
those of the target and rewrites the references by it.
-/

namespace RedArchKM.Promotion

open Workflow (Fields Json)

scoped instance : BEq Json := instBEqOfDecidableEq

/-! ## Resource types -/

inductive ResourceType where
  | tags
  | entities
  | connections
  | folders
  | workflows
  | inboundEndpoints
  | reports
  | forms
  | views
  | mcpServers
  | agents
  | records
  | documents
deriving DecidableEq

def resourceOrder : List ResourceType :=
  [.tags, .entities, .connections, .folders, .workflows, .inboundEndpoints, .reports, .forms,
    .views, .mcpServers, .agents, .records, .documents]

/-- The objects of a bundle, by their type. -/
abbrev Resources := List (ResourceType × List Fields)

/-- `resources.get(rtype) or []` -/
def Resources.get (resources : Resources) (rtype : ResourceType) : List Fields :=
  (resources.lookup rtype).getD []

/-! ## Ids -/

def isHexDigit (char : Char) : Bool :=
  '0' ≤ char && char ≤ '9' || 'a' ≤ char && char ≤ 'f' || 'A' ≤ char && char ≤ 'F'

/-- The text has the shape: `h` stands for a hexadecimal digit. A line break may follow. -/
def hasShape : List Char → List Char → Bool
  | [], text => text.isEmpty || text = ['\n']
  | expected :: shape, char :: text =>
    (if expected = 'h' then isHexDigit char else char = expected) && hasShape shape text
  | _ :: _, [] => false

def isUuid (text : String) : Bool :=
  hasShape "hhhhhhhh-hhhh-hhhh-hhhh-hhhhhhhhhhhh".toList text.toList

/-! ## References inside JSON -/

/-- What the ids of a bundle are mapped in. -/
inductive Namespace where
  | tags
  | entities
  | relationships
  | connections
  | folders
  | workflows
  | reports
  | forms
  | views
  | mcpServers
  | agents
deriving DecidableEq

/-- The keys whose value is the id of another object, and what it is an id of. -/
def remapKeys : List (String × Namespace) :=
  [("relationship_id", .relationships), ("anchor_relationship_id", .relationships),
    ("workflow_id", .workflows), ("answer_workflow_id", .workflows), ("form_id", .forms),
    ("report_id", .reports), ("entity_definition_id", .entities), ("entity_id", .entities)]

/-- Old ids and their new ids, the latest first. -/
abbrev IdMap := List ((Namespace × String) × String)

namespace IdMap

def put (ids : IdMap) (kind : Namespace) (oldId newId : String) : IdMap :=
  ((kind, oldId), newId) :: ids

def get (ids : IdMap) (kind : Namespace) (oldId : String) : Option String :=
  ids.lookup (kind, oldId)

end IdMap

def reference (key : Option String) (value : String) : Option (Namespace × String) :=
  (key.bind fun key => remapKeys.lookup key).bind fun kind => if isUuid value then some (kind, value) else none

def remapRef (ids : IdMap) (key : Option String) (value : String) : String :=
  ((reference key value).bind fun target => ids.get target.1 target.2).getD value

/-- Rewrite the references inside a config or a definition. -/
def remapRefs (ids : IdMap) (value : Json) : Json :=
  Json.walk (fun _ => true) (remapRef ids) none value

/-! ## Strategies -/

/-- What an import does with an object that the target has already. -/
inductive CollisionStrategy where
  | skip
  | overwrite
  | rename

def untaken (candidate : Nat → String) (existing : List String) : String :=
  (((List.range (existing.length + 1)).map candidate).find? (· ∉ existing)).getD (candidate 0)

def suffixSlug (slug : String) (existing : List String) (maxLen : Nat) (sep : String) : String :=
  let base := String.ofList (slug.toList.take (maxLen - (sep ++ "imported" ++ sep ++ "99").length))
  untaken (fun n => base ++ sep ++ "imported" ++ if n = 0 then "" else sep ++ toString (n + 1))
    existing

def suffixName (name : String) (existing : List String) (maxLen : Nat) : String :=
  let base := String.ofList (name.toList.take (maxLen - " (imported 99)".length))
  untaken (fun n => base ++ if n = 0 then " (imported)" else " (imported " ++ toString (n + 1) ++ ")")
    existing

end RedArchKM.Promotion
