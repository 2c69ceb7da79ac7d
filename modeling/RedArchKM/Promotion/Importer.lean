import RedArchKM.Promotion.LayoutImport

/-!
# Importing a bundle

After MCP servers and agents, which get their supervisors in a second pass, every resource type
has its pass. `importBundle` runs them in dependency order.
-/

namespace RedArchKM.Promotion

open Workflow (Fields Json)
open Columns

section Passes

variable (services : Services) (strategy : CollisionStrategy)

/-! ## MCP servers -/

def mcpServerChange (s : ImportState) (srv : Fields) : Option Change :=
  match srv.lookup "name" with
  | none => none
  | some name =>
    let existing := s.listed .mcpServers
    let body :=
      [("description", Fields.get srv "description"),
        ("transport", getD srv "transport" (.str "http")), ("command", Fields.get srv "command"),
        ("url", Fields.get srv "url"), ("config", orEmpty (Fields.get srv "config")),
        ("enabled", getD srv "enabled" (.bool true))]
    onCollision strategy (matchByColumn s .mcpServers srv "name" name) keepSkipped
      (fun found => some (.update found.row
        { columns := Fields.update found.row.columns body, linked := !found.byLineage,
          action := .overwritten }))
      (fun collides => orRaise do
        let name ← forked collides (fun name =>
          suffixName name (columnTexts services existing "name") 120) name
        return .create collides true
          { columns := ("name", name) :: body ++ [("has_secret", .bool false)]
            linked := collides.isNone
            action := if collides.isNone then .created else .renamed })

/-! ## Agents -/

/-- `_remap_id_list`: ids that are not mapped are dropped. -/
def remapIdList (s : ImportState) (kind : Namespace) (oldIds : Json) : Json :=
  .arr (((items oldIds).filterMap fun oldId =>
    s.ids.get kind (asText services.str oldId)).map .str)

/-- `_apply_agent_fields`: all columns but the name and the supervisor. -/
def agentFields (s : ImportState) (agent : Fields) : Attempt Fields := do
  let provider ← key agent "provider"
  let model ← key agent "model"
  return [("display_name", Fields.get agent "display_name"),
    ("description", Fields.get agent "description"),
    ("kind", getD agent "kind" (.str "operator")), ("persona", Fields.get agent "persona"),
    ("provider", provider), ("model", model), ("params", orEmpty (Fields.get agent "params")),
    ("avatar", Fields.get agent "avatar"), ("accent", Fields.get agent "accent"),
    ("enabled", getD agent "enabled" (.bool true)),
    ("grants", orEmpty (Fields.get agent "grants")),
    ("mcp_server_ids", remapIdList services s .mcpServers (Fields.get agent "mcp_server_ids")),
    ("workflow_allowlist",
      remapIdList services s .workflows (Fields.get agent "workflow_allowlist"))]

/-- The columns of an agent in the order of the export. -/
def newAgent (name : Json) : Fields :=
  [("name", name), ("display_name", .null), ("description", .null), ("kind", .null),
    ("persona", .null), ("provider", .null), ("model", .null), ("params", .null),
    ("supervisor_id", .null)]

def agentChange (s : ImportState) (agent : Fields) : Option Change :=
  match agent.lookup "name" with
  | none => none
  | some name =>
    let existing := s.listed .agents
    onCollision strategy (matchByColumn s .agents agent "name" name) keepSkipped
      (fun found => orRaise do
        let body ← agentFields services s agent
        return .update found.row
          { columns := Fields.update found.row.columns body, linked := !found.byLineage,
            action := .overwritten })
      (fun collides => orRaise do
        let name ← forked collides (fun name =>
          suffixSlug name (columnTexts services existing "name") 63 "-") name
        let body ← agentFields services s agent
        return .create collides true
          { columns := Fields.update (newAgent name) body, linked := collides.isNone,
            action := if collides.isNone then .created else .renamed })

def importSupervisor (s : ImportState) (agent : Fields) : Option ImportState := do
  let oldId ← agent.lookup "id"
  let supervisor := mappedId services s .agents (Fields.get agent "supervisor_id")
  match s.ids.get .agents (asText services.str oldId), supervisor with
  | some row, some supervisor =>
    some (s.replace .agents row fun row =>
      { row with columns := Fields.set "supervisor_id" (.str supervisor) row.columns })
  | _, _ => some s

/-- The second pass over the agents. -/
def importSupervisors : ImportState → List Fields → Option ImportState :=
  Lib.Trace.run (importSupervisor services)

/-! ## The import -/

/-- The namespace in which references to objects of a type are mapped. -/
def kindOf : ResourceType → Option Namespace
  | .tags => some .tags
  | .entities => some .entities
  | .connections => some .connections
  | .folders => some .folders
  | .workflows => some .workflows
  | .inboundEndpoints => none
  | .reports => some .reports
  | .forms => some .forms
  | .views => some .views
  | .mcpServers => some .mcpServers
  | .agents => some .agents
  | .records => none
  | .documents => none

/-- How the objects of a type are decided on. Records and documents are no configuration. -/
def decisionOf : ResourceType → ImportState → Fields → Option Change
  | .tags => tagChange services
  | .entities => entityChange services strategy
  | .connections => connectionChange services strategy
  | .folders => folderChange services strategy
  | .workflows => workflowChange services strategy
  | .inboundEndpoints => endpointChange services strategy
  | .reports => reportChange services strategy
  | .forms => formChange services strategy
  | .views => viewChange services strategy
  | .mcpServers => mcpServerChange services strategy
  | .agents => agentChange services strategy
  | .records => fun _ _ => some (.leave none [])
  | .documents => fun _ _ => some (.leave none [])

section Bundle

variable (resources : Resources)

def importOrder (rtype : ResourceType) : List Fields :=
  if rtype = .folders then shallowestFirst services (resources.get rtype) else resources.get rtype

def importPass (s : ImportState) (rtype : ResourceType) : Option ImportState :=
  importRows services rtype (kindOf rtype) (decisionOf services strategy rtype) s
    (importOrder services resources rtype)

/-- A phase of an import: the pass over a type, or a second pass. -/
inductive Phase where
  | objects (rtype : ResourceType)
  | relationships
  | supervisors
deriving DecidableEq

/-- The phases in dependency order, reports before the forms and views that embed them. -/
def importPhases : List Phase :=
  [.objects .tags, .objects .entities, .relationships, .objects .connections, .objects .folders,
    .objects .workflows, .objects .inboundEndpoints, .objects .reports, .objects .forms,
    .objects .views, .objects .mcpServers, .objects .agents, .supervisors]

def importPhase (s : ImportState) : Phase → Option ImportState
  | .objects rtype => importPass services strategy resources s rtype
  | .relationships => importRelationships services s (resources.get .entities)
  | .supervisors => importSupervisors services s (resources.get .agents)

/-- Import the configuration of a bundle into an org. -/
def importBundle (org : OrgConfig) : Option ImportState :=
  Lib.Trace.run (importPhase services strategy resources) { org := org } importPhases

def importBefore (org : OrgConfig) (phase : Phase) : Option ImportState :=
  Lib.Trace.run (importPhase services strategy resources) { org := org }
    (importPhases.takeWhile (· ≠ phase))

end Bundle

end Passes

/-! ## A small org -/

/-- Services that accept every body as it is. -/
def plainServices : Services where
  str _ := "None"
  freshId n := "00000000-0000-4000-8000-00000000000" ++ toString n
  validate _ body := some body
  layoutFits _ _ _ := true
  reportFits _ _ _ _ := true
  publishable _ _ _ := true
  listedBefore _ _ := true

def personId : String := "22222222-2222-4222-8222-222222222222"
def firmId : String := "33333333-3333-4333-8333-333333333333"

def entityRow (id name slug : String) (relationships : List Json) : Row where
  id := id
  columns :=
    [("name", .str name), ("slug", .str slug), ("description", .null), ("is_active", .bool true),
      ("fields", .arr []), ("relationships", .arr relationships)]

/-- The owner of a firm. -/
def ownerRelationship : Json :=
  .obj [("id", .str "44444444-4444-4444-8444-444444444444"),
    ("lineage_id", .str "44444444-4444-4444-8444-444444444444"), ("name", .str "Owner"),
    ("slug", .str "owner"), ("cardinality", .str "many_to_one"), ("on_delete", .str "SET NULL"),
    ("is_required", .bool false), ("target_definition_id", .str personId)]

/-- An org with persons and firms. -/
def firmOrg (relationships : List Json) : OrgConfig :=
  ⟨fun rtype => if rtype = .entities then
      [entityRow firmId "Firm" "firm" relationships, entityRow personId "Person" "person" []]
    else []⟩

end RedArchKM.Promotion
