import Mathlib.Algebra.Order.Ring.Unbundled.Rat
import RedArchKM.Promotion.EntityImport

/-!
# Importing connections, folders, workflows and endpoints

An entry of each of these is found by its name, a folder by its name under its parent. A workflow
that is written over gets a new version, an endpoint is never written over.
-/

namespace RedArchKM.Promotion

open Workflow (Fields Json)
open Columns

section Passes

variable (services : Services) (strategy : CollisionStrategy)

/-! ## Connections -/

def connectionChange (s : ImportState) (conn : Fields) : Option Change :=
  match conn.lookup "name" with
  | none => none
  | some name =>
    let existing := s.listed .connections
    let config := orEmpty (Fields.get conn "config")
    onCollision strategy (matchByColumn s .connections conn "name" name) keepSkipped
      (fun found =>
        let columns := setUnlessNull (setUnlessNull found.row.columns "base_url"
          (Fields.get conn "base_url")) "auth_type" (Fields.get conn "auth_type")
        some (.update found.row
          { columns := Fields.set "config" config columns, linked := !found.byLineage,
            action := .overwritten }))
      (fun collides => orRaise do
        let name ← forked collides (fun name =>
          suffixName name (columnTexts services existing "name") 120) name
        return .create collides true
          { columns :=
              [("name", name), ("kind", getD conn "kind" (.str "http")),
                ("base_url", Fields.get conn "base_url"),
                ("auth_type", getD conn "auth_type" (.str "none")), ("config", config),
                ("has_secret", .bool false)]
            linked := collides.isNone
            action := if collides.isNone then .created else .renamed })

/-! ## Folders -/

def buildDotPath (org : OrgConfig) (name : String) (parentId : Option String) : String :=
  match parentId.bind (org.find .folders) with
  | none => name
  | some parent => asText services.str (parent.column "dot_path") ++ "." ++ name

section

variable (s : ImportState) (folder : Fields)

def siblingsOf : List Row :=
  let parentId := mappedId services s .folders (Fields.get folder "parent_id")
  (s.org.rows .folders).filter (·.column "parent_id" = ofId parentId)

def folderMatch (name : Json) : Option Match :=
  matchLineage folder (s.listed .folders)
    ((siblingsOf services s folder).find? (·.column "name" = name))

/-- Folders have nothing to write over. -/
def folderChange : Option Change :=
  match folder.lookup "name" with
  | none => none
  | some name =>
    let parentId := mappedId services s .folders (Fields.get folder "parent_id")
    onCollision strategy (folderMatch services s folder name) keepSkipped
      (fun found => some (.keep found .overwritten))
      (fun collides => orRaise do
        let name ← forked collides (fun name =>
          suffixName name (columnTexts services (siblingsOf services s folder) "name") 255) name
        return .create collides true
          { columns :=
              [("name", name), ("description", Fields.get folder "description"),
                ("dot_path", .str (buildDotPath services s.org (asText services.str name)
                  parentId)),
                ("parent_id", ofId parentId), ("order", .num 0),
                ("viewer_permissions_config", Fields.get folder "viewer_permissions_config"),
                ("contributor_permissions_config",
                  Fields.get folder "contributor_permissions_config")]
            linked := collides.isNone
            action := if collides.isNone then .created else .renamed })

end

def folderDepth (folder : Fields) : Nat :=
  let path := Fields.get folder "dot_path"
  if path.truthy then (asText services.str path).toList.count '.' else 0

/-- Shallow folders before deep ones. -/
def shallowestFirst (folders : List Fields) : List Fields :=
  folders.insertionSort fun left right => folderDepth services left ≤ folderDepth services right

/-! ## Workflows -/

def versionNumber (version : Fields) : Rat :=
  match getD version "version_number" (.num 0) with
  | .num number => number
  | _ => 0

def highestVersion : List Fields → Option Fields
  | [] => none
  | version :: rest =>
    some (rest.foldl (fun best other =>
      if versionNumber best < versionNumber other then other else best) version)

/-- The graph to import: that of the active version, else that of the highest one. An empty graph
is none. -/
def pickDefinition (wf : Fields) : Attempt (Option Json) := do
  let versions := Fields.get wf "versions"
  let versions ← if versions.truthy then objectsOf versions else pure []
  let active := Fields.get wf "active_version_number"
  let picked := (versions.find? fun version => Fields.get version "version_number" = active).or
    (highestVersion versions)
  return (picked.map fun version => Fields.get version "definition").filter Json.truthy

def versionsOf (columns : Fields) : List Fields :=
  (items (Fields.get columns "versions")).filterMap Json.fields?

/-- `save_draft`: the number of the new version, and the columns with it. -/
def saveDraft (columns : Fields) (definition : Json) : Rat × Fields :=
  let versions := versionsOf columns
  let number := ((versions.map versionNumber).foldl max 0) + 1
  let draft := [("version_number", .num number), ("status", .str "draft"), ("definition", definition)]
  (number, Fields.set "versions" (.arr ((draft :: versions).map .obj)) columns)

/-- `publish`: the version gets active, the one that was is archived. -/
def publish (number : Rat) (columns : Fields) : Fields :=
  let active := Fields.get columns "active_version_number"
  let versions := (versionsOf columns).map fun version =>
    if Fields.get version "version_number" = .num number then
      Fields.set "status" (.str "published") version
    else if Fields.get version "version_number" = active ∧
        Fields.get version "status" = .str "published" then
      Fields.set "status" (.str "archived") version
    else version
  Fields.set "active_version_number" (.num number)
    (Fields.set "versions" (.arr (versions.map .obj)) columns)

/-- `_sanitize_run_permission`: roles and groups are reset to org-admin. -/
def sanitizeRunPermission (permission : Json) : Attempt Json :=
  if permission.truthy then
    match permission with
    | .obj fields =>
      if (Fields.get fields "role_ids").truthy ∨ (Fields.get fields "group_ids").truthy then
        .ok (.obj [("mode", .str "org_admin"), ("role_ids", .arr []), ("group_ids", .arr [])])
      else .ok permission
    | _ => .error .refused
  else .ok .null

section

variable (s : ImportState) (wf : Fields) (definition : Option Json) (workflowId : String)
    (columns : Fields)

/-- Save the graph of a workflow, if it has one, and publish it if the workflow of the bundle has an
active version. What was saved stays when the publication fails. -/
def saveVersion : Fields × Bool :=
  match definition with
  | none => (columns, true)
  | some definition =>
    let definition := remapRefs s.ids definition
    let (number, columns) := saveDraft columns definition
    if Fields.get wf "active_version_number" = .null then (columns, true)
    else if services.publishable s.org workflowId definition then (publish number columns, true)
    else (columns, false)

/-- Save the graph of a workflow, then set who may run it. What was written before an exception
stays. -/
def writeWorkflow (linked : Bool) (action : Action) : Write :=
  let (columns, saved) := saveVersion services s wf definition workflowId columns
  match saved, sanitizeRunPermission (Fields.get wf "run_permission") with
  | true, .ok permission =>
    let columns := setUnlessNull columns "enabled" (getD wf "enabled" (.bool false))
    { columns := setUnlessNull columns "run_permission" permission, linked := linked,
      action := action }
  | _, _ => { columns := columns, linked := linked, action := .failed }

end

/-- A workflow is written over by a new version. Every exception is recorded as its failure. -/
def workflowChange (s : ImportState) (wf : Fields) : Option Change :=
  match wf.lookup "name" with
  | none => none
  | some name =>
    let existing := s.listed .workflows
    let entityId := mappedId services s .entities (Fields.get wf "entity_definition_id")
    let hasId := (wf.lookup "id").isSome
    onCollision strategy (matchByColumn s .workflows wf "name" name) keepSkipped
      (fun found => do
        let definition ← (pickDefinition wf).toOption
        let row := found.row
        if !found.byLineage ∧ adoptedLineage row wf = none then
          return .leave (some .failed) []
        else if hasId then
          return .update row
            (writeWorkflow services s wf definition row.id row.columns (!found.byLineage)
              .overwritten)
        else
          return .update row
            { columns := row.columns, linked := !found.byLineage, mapped := false,
              action := .failed })
      (fun collides => do
        let definition ← (pickDefinition wf).toOption
        let workflowId := services.freshId s.issued
        match forked collides
          (fun name => suffixName name (columnTexts services existing "name") 200) name with
        | .error _ => return .leave (some .failed) []
        | .ok name =>
          let columns :=
            [("name", name), ("description", Fields.get wf "description"),
              ("entity_definition_id", ofId entityId), ("enabled", .bool true),
              ("run_permission", .obj [("mode", .str "org_admin")]),
              ("active_version_number", .null), ("versions", .arr [])]
          let failed : Write := { columns := columns, mapped := false, action := .failed }
          if collides = none ∧ stampOf wf workflowId = none then
            return .create collides false { failed with linked := false }
          else if hasId then
            return .create collides true
              (writeWorkflow services s wf definition workflowId columns collides.isNone
                (if collides.isNone then .created else .renamed))
          else return .create collides true { failed with linked := collides.isNone })

/-! ## Inbound endpoints -/

section

variable (s : ImportState) (ep : Fields)

def endpointMatch (name : Json) : Option Match :=
  let existing := s.listed .inboundEndpoints
  matchLineage ep existing (existing.find? (·.column "name" = name))

/-- A new endpoint, with a token and a signing secret of its own. A copy beside an endpoint is not
matched later. -/
def createEndpoint (name : Json) (collides : Option Row) : Option Change := do
  let workflowId ← ep.lookup "workflow_id"
  match s.ids.get .workflows (asText services.str workflowId) with
  | none => return .leave (some .failed) []
  | some workflowId =>
    let taken := columnTexts services (s.org.rows .inboundEndpoints) "name"
    orRaise do
      let name ← forked collides (fun name => suffixName name taken 120) name
      return .create collides collides.isNone
        { columns :=
            [("name", name), ("workflow_id", .str workflowId), ("enabled", .bool true),
              ("has_signing_secret", .bool true)]
          linked := collides.isNone
          mapped := false
          action := if collides.isNone then .created else .renamed }

/-- An endpoint is skipped or created. Nothing is mapped onto it. -/
def endpointChange : Option Change :=
  match ep.lookup "name" with
  | none => none
  | some name =>
    onCollision strategy (endpointMatch s ep name)
      (fun found => some (.update found.row
        { columns := found.row.columns, linked := !found.byLineage, mapped := false,
          action := .skipped }))
      (fun found => createEndpoint services s ep name (some found.row))
      (createEndpoint services s ep name)

end

end Passes

end RedArchKM.Promotion
