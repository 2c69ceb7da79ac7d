import RedArchKM.Workflow.LegacyWalker
import RedArchKM.Workflow.System

/-!
# Normalized legacy graphs on the token engine

A legacy graph can be executed in two ways: the walker collects the actions that its itinerary
passes, and the token engine moves one token through the normalized graph. The two agree where
every node on the itinerary sends the token where it sent the walker (`TreatedAlike`).

They part where an edge has no handle, which the walker reads as `true` and the engine as
`default`, where a condition has no expression or a switch no cases, and where an edge for the
chosen handle is missing.
-/

namespace RedArchKM.Workflow

open Lib Lib.History List Option

/-! ## Legacy graphs -/

/-- A graph of the walker's node types without cycles, which branches at conditions and switches
only. -/
structure LegacyGraph (model : WorkflowDefinitionModel) (trigger : WorkflowNode) : Prop where
  legacy : ∀ node ∈ model.nodes,
    node.type ∈ [NodeType.trigger, .action, .condition, .switch, .merge, .passthrough]
  triggers : model.triggers = [trigger]
  acyclic : Reach.Acyclic model.adjacency
  straight : ∀ node ∈ model.nodes,
    node.type ∈ [NodeType.trigger, .action, .merge, .passthrough] →
      (model.outEdges node.id).length ≤ 1

/-- The context the walker evaluates expressions in. -/
def changeContext (snapshot : InputSnapshot) : Json :=
  .obj [("before", snapshot.before), ("after", snapshot.after)]

def actionsOf (nodes : List WorkflowNode) : List WorkflowNode :=
  nodes.filter fun node => node.type = .action

/-- The engine executes the actions the walker returns: a launched run, driven often enough,
hands its handlers the same nodes in the same order. -/
def ExecutesAsWalked (host : Host) (db : Db) (launch : Launch) (model : WorkflowDefinitionModel) :
    Prop :=
  ∃ enough, ∀ drives, enough ≤ drives →
    (execute host db (.launch launch ::
        List.replicate drives (.drive db.runs.length))).now.calls.map HandlerCall.nodeId =
      db.calls.map HandlerCall.nodeId ++
        (evaluateGraph host.jsonLogic model (changeContext launch.inputSnapshot)).actions.map
          WorkflowNode.id

/-! ## Where walker and engine agree -/

def behind (labels : List String) (outs : List (NodeId × Option String)) : Option NodeId :=
  (outs.find? fun out => out.2.getD "" ∈ labels).map Prod.fst

/-- The labels of an edge taken for want of another. -/
def defaultLabels : List String := ["", "default"]

/-- The first edge with the label, or failing that the first one to take by default. -/
def labelledOrDefault (outs : List (NodeId × Option String)) (label : String) : Option NodeId :=
  (if label ∈ defaultLabels then none else behind [label] outs).or (behind defaultLabels outs)

/-- An expression is as true to the engine as to the walker, whatever the variables captured so
far hold. -/
def ReadsAlike (host : Host) (db : Db) (snapshot : InputSnapshot) (captures : List String)
    (expr : Json) : Prop :=
  ∀ run : Run, run.inputSnapshot = snapshot → (∀ entry ∈ run.vars, entry.1 ∈ captures) →
    Json.truthy <$> host.jsonLogic expr (exprContext host db run) =
      Json.truthy <$> host.jsonLogic expr (changeContext snapshot)

/-- The node has not been given the type of a gateway that joins or forks. -/
def ForwardsOneToken (node : WorkflowNode) : Prop :=
  node.data.gatewayType ≠ some .parallel ∧ node.data.gatewayType ≠ some .inclusive

def HasHandler (node : WorkflowNode) : Prop :=
  node.data.taskType ∈ [none, some TaskType.service, some .send, some .other] ∧
    ∃ actionType, node.data.actionType = some actionType ∧ actionType ≠ ""

section

variable (host : Host) (db : Db) (snapshot : InputSnapshot)

/-- A legacy node that sends a token where it sends the walker. -/
def TreatedAlike (captures : List String) (outs : List (NodeId × Option String))
    (node : WorkflowNode) : Prop :=
  match node.type with
  | .action => HasHandler node
  | .condition =>
    ForwardsOneToken node ∧ node.data.cases = [] ∧
    match node.data.expr with
    | none => behind ["true", ""] outs = outs.head?.map Prod.fst
    | some expr =>
      ReadsAlike host db snapshot captures expr ∧
      match Json.truthy <$> host.jsonLogic expr (changeContext snapshot) with
      | .error _ => True
      | .ok true => behind ["true", ""] outs = labelledOrDefault outs "true"
      | .ok false => behind ["false"] outs = labelledOrDefault outs "false"
  | .switch =>
    ForwardsOneToken node ∧
    match node.data.cases with
    | [] =>
      node.data.expr = none ∧
        (switchEdge outs none).map Prod.fst = outs.head?.map Prod.fst
    | cases =>
      (∀ case ∈ cases, ∀ expr, case.expr = some expr →
        ReadsAlike host db snapshot captures expr) ∧
      match (firstCase host.jsonLogic (changeContext snapshot) cases).2 with
      | .error _ => True
      | .ok handle =>
        (switchEdge outs handle).map Prod.fst =
          labelledOrDefault outs (handle.getD "default")
  | .merge | .passthrough =>
    ForwardsOneToken node ∧ node.data.cases = [] ∧ node.data.expr = none
  | .trigger | .delay | .task | .gateway | .event => True

/-- Every node of the itinerary is treated alike, and its actions fit in the step budget. -/
def TreatedAlikeAlong (model : WorkflowDefinitionModel) (nodes : List WorkflowNode) : Prop :=
  (∀ earlier node later, nodes = earlier ++ node :: later →
    TreatedAlike host db snapshot ((actionsOf earlier).filterMap WorkflowNode.capture)
      (model.outEdges node.id) node) ∧
  (actionsOf nodes).length ≤ host.maxRunSteps

end

/-! ## A run with one token -/

def Run.only (run : Run) (token : Token) : Run := { run with tokens := [token] }

def Db.lastToken (db : Db) : TokenId := ⟨db.runs.length, 0⟩

section Last

variable {db : Db} {run : Run} {token : Token}

@[simp] theorem modifyRun_createRun (change : Run → Run) :
    (createRun db run).modifyRun db.runs.length change = createRun db (change run) := by
  simp only [createRun, Db.modifyRun]
  rw [modify_eq_take_cons_drop (by simp)]
  simp

@[simp] theorem getElem?_createRun : (createRun db run).runs[db.runs.length]? = some run := by
  simp [createRun]

@[simp] theorem modifyToken_lastToken (change : Token → Token) :
    (createRun db (run.only token)).modifyToken db.lastToken change =
      createRun db (run.only (change token)) := by
  rw [Db.modifyToken, Db.lastToken, modifyRun_createRun]
  rfl

@[simp] theorem token?_lastToken :
    (createRun db (run.only token)).token? db.lastToken = some token := by
  rw [Db.token?, Db.lastToken, getElem?_createRun]
  rfl

@[simp] theorem tokensOf_createRun : tokensOf (createRun db run) db.runs.length = run.tokens := by
  rw [tokensOf, getElem?_createRun]
  rfl

theorem settleRun_active (active : token.status = .active) :
    ∃ status, settleRun (createRun db (run.only token)) db.runs.length =
      createRun db ({ run with status := status }.only token) := by
  unfold settleRun
  rw [getElem?_createRun]
  dsimp only
  split
  · exact ⟨run.status, rfl⟩
  · rw [if_pos (by simp [Run.only, active]), modifyRun_createRun]
    exact ⟨.running, rfl⟩

theorem settleRun_ended (ended : token.status = .completed) (orphan : run.parentToken = none) :
    ∃ status matched, settleRun (createRun db (run.only token)) db.runs.length =
      createRun db ({ run with status := status, conditionsMatched := matched }.only token) := by
  unfold settleRun
  rw [getElem?_createRun]
  dsimp only
  split
  · exact ⟨run.status, run.conditionsMatched, rfl⟩
  · rw [if_neg (by simp [Run.only, ended]), if_neg (by simp [Run.only, ended]), finishRun,
      modifyRun_createRun, signalParent, getElem?_createRun]
    dsimp only [Run.only]
    rw [orphan]
    exact ⟨.succeeded, true, rfl⟩

end Last

/-! ## Normalized nodes -/

section

variable (model : WorkflowDefinitionModel)

include model

theorem nodeById_normalize {nodeId : NodeId} {node : WorkflowNode}
    (found : model.nodeById nodeId = some node) :
    (normalize model).nodeById nodeId = some (normalizeNode node) := by
  unfold normalize
  split
  · rename_i noLegacy
    have kept : normalizeNode node = node := by
      have isLegacy := noLegacy
      simp only [Bool.not_eq_true', List.any_eq_false] at isLegacy
      have notLegacy := isLegacy node (WorkflowDefinitionModel.mem_of_nodeById found).1
      unfold normalizeNode
      split <;> simp_all [NodeType.isLegacy]
    rw [kept, found]
  · unfold WorkflowDefinitionModel.nodeById at found ⊢
    rw [find?_map]
    simp only [Function.comp_def, normalizeNode_id, found, map_some]

theorem triggers_normalize : (normalize model).triggers = model.triggers := by
  unfold normalize
  split
  · rfl
  · unfold WorkflowDefinitionModel.triggers
    rw [List.filter_map]
    have same : ∀ node : WorkflowNode,
        decide ((normalizeNode node).type = .trigger) = decide (node.type = .trigger) := by
      intro node
      unfold normalizeNode
      split <;> simp_all
    have kept : ∀ node ∈ model.nodes.filter fun node => node.type = .trigger,
        normalizeNode node = node := by
      intro node member
      have isTrigger : node.type = .trigger := of_decide_eq_true (mem_filter.mp member).2
      unfold normalizeNode
      rw [isTrigger]
    simp only [Function.comp_def, same]
    exact (map_congr_left kept).trans (map_id _)

@[simp] theorem outEdges_normalize (nodeId : NodeId) :
    (normalize model).outEdges nodeId = model.outEdges nodeId := by
  unfold WorkflowDefinitionModel.outEdges
  rw [edges_normalize]

end

/-! ## Where an outcome leads -/

/-- The outcome takes a token on to a node, or ends it. -/
inductive LeadsTo (outcome : NodeOutcome) : Option NodeId → Prop where
  | moves {target : NodeId × Option String} (kind : outcome.kind = .advance)
      (targets : outcome.targets = [target]) : LeadsTo outcome (some target.1)
  | strays (kind : outcome.kind = .advance) (targets : outcome.targets = []) : LeadsTo outcome none
  | completes (kind : outcome.kind = .complete) : LeadsTo outcome none

theorem leadsTo_moveOn {site : Site} {tokenData : Option TokenData} {vars : Fields}
    (straight : site.outEdges.length ≤ 1) :
    LeadsTo (site.moveOn tokenData vars) (site.outEdges.head?.map Prod.fst) := by
  match outs : site.outEdges with
  | [] => exact .strays rfl outs
  | [target] => exact .moves rfl outs
  | _ :: _ :: _ =>
    rw [outs] at straight
    simp at straight

variable {handle : Option String}

theorem handleOrDefault_eq_default :
    handleOrDefault handle = "default" ↔ handle.getD "" ∈ defaultLabels := by
  unfold handleOrDefault
  split
  · simp [defaultLabels]
  · simp [defaultLabels]
  · rename_i notEmpty
    simp_all [defaultLabels]

theorem handleOrDefault_eq_label {label : String} (named : label ∉ defaultLabels) :
    handleOrDefault handle = label ↔ handle.getD "" ∈ [label] := by
  have notDefault : "default" ≠ label := fun same => named (by simp [← same, defaultLabels])
  have notEmpty : "" ≠ label := fun same => named (by simp [← same, defaultLabels])
  unfold handleOrDefault
  split <;> simp [notDefault, notEmpty]

theorem handleOrDefault_ne_empty : handleOrDefault handle ≠ "" := by
  unfold handleOrDefault
  split <;> simp_all

theorem leadsTo_routeTo (outs : List (NodeId × Option String)) (chosen : Option String) :
    LeadsTo (routeTo outs chosen) (labelledOrDefault outs (chosen.getD "default")) := by
  have byDefault : (outs.find? fun out => some (handleOrDefault out.2) = some "default").map
      Prod.fst = behind defaultLabels outs := by
    simp only [Option.some.injEq, handleOrDefault_eq_default]
    rfl
  have picked : ((outs.find? fun out => some (handleOrDefault out.2) = chosen).or
      (outs.find? fun out => some (handleOrDefault out.2) = some "default")).map Prod.fst =
        labelledOrDefault outs (chosen.getD "default") := by
    rw [map_or, byDefault, labelledOrDefault]
    cases chosen with
    | none =>
      rw [find?_eq_none.mpr (by simp)]
      rfl
    | some label =>
      by_cases named : label ∈ defaultLabels
      · rw [Option.getD_some, if_pos named, none_or]
        rcases mem_pair.mp named with rfl | rfl
        · rw [find?_eq_none.mpr (by simp [handleOrDefault_ne_empty])]
          rfl
        · rw [byDefault, Option.or_self]
      · rw [Option.getD_some, if_neg named]
        simp only [Option.some.injEq, handleOrDefault_eq_label named]
        rfl
  rw [← picked]
  unfold routeTo
  dsimp only
  split
  · rename_i nothing
    rw [nothing]
    exact .completes rfl
  · rename_i target found
    rw [found]
    exact .moves rfl rfl

/-! ## A launched run on its way -/

/-- What a run and the store around it keep while its token follows the executed nodes. -/
structure Carries (db₀ : Db) (launch : Launch) (executed : List WorkflowNode) (db : Db)
    (run : Run) : Prop where
  runs : db.runs = db₀.runs
  versions : db.versions = db₀.versions
  clock : db.now = db₀.now
  calls : db.calls.map HandlerCall.nodeId =
    db₀.calls.map HandlerCall.nodeId ++ (actionsOf executed).map WorkflowNode.id
  stepSeq : run.stepSeq = (actionsOf executed).length
  version : run.versionId = launch.versionId
  snapshot : run.inputSnapshot = launch.inputSnapshot
  orphan : run.parentToken = none
  vars : ∀ entry ∈ run.vars, entry.1 ∈ (actionsOf executed).filterMap WorkflowNode.capture

def Token.StandsAt (token : Token) : Option NodeId → Prop
  | some nodeId => token.status = .active ∧ token.nodeId = nodeId
  | none => token.status = .completed

def Underway (db₀ : Db) (launch : Launch) (executed : List WorkflowNode) (place : Option NodeId)
    (now : Db) : Prop :=
  ∃ db run token, now = createRun db (run.only token) ∧ Carries db₀ launch executed db run ∧
    token.StandsAt place

section Underway

variable {host : Host} {db₀ db : Db} {launch : Launch} {executed : List WorkflowNode} {run : Run}
  {token : Token} {site : Site} {outcome : NodeOutcome} {next : Option NodeId}

theorem not_overBudget (few : outcome.targets.length ≤ 1) :
    ¬ overBudget (createRun db (run.only token)) db.runs.length outcome := by
  rw [overBudget, tokensOf_createRun]
  simp only [Run.only, maxTokensPerRun, length_singleton]
  omega

section

variable (carries : Carries db₀ launch executed db run)

include carries

theorem underway_active {nodeId : NodeId} (active : token.status = .active)
    (place : token.nodeId = nodeId) : Underway db₀ launch executed (some nodeId)
      (settleRun (createRun db (run.only token)) db.runs.length) := by
  obtain ⟨status, settled⟩ := settleRun_active active
  exact ⟨db, _, token, settled, { carries with }, active, place⟩

theorem underway_ended (ended : token.status = .completed) : Underway db₀ launch executed none
      (settleRun (createRun db (run.only token)) db.runs.length) := by
  obtain ⟨status, matched, settled⟩ := settleRun_ended ended carries.orphan
  exact ⟨db, _, token, settled, { carries with }, ended⟩

theorem underway_conclude (last : site.t = db.lastToken) (leads : LeadsTo outcome next)
    (captured : ∀ entry ∈ outcome.vars, entry.1 ∈ (actionsOf executed).filterMap WorkflowNode.capture) :
    Underway db₀ launch executed next (conclude (createRun db (run.only token)) site outcome) := by
  obtain ⟨updated, isUpdated⟩ : ∃ updated : Run,
      updated = { run with vars := Fields.update run.vars outcome.vars } := ⟨_, rfl⟩
  have carries' : Carries db₀ launch executed db updated := by
    subst isUpdated
    refine { carries with vars := fun entry member => ?_ }
    exact (Fields.mem_update member).elim (captured entry) (carries.vars entry)
  have written : (createRun db (run.only token)).setVariables site.t.run outcome.vars =
      createRun db (updated.only token) := by
    rw [Db.setVariables, last, Db.lastToken, modifyRun_createRun, isUpdated]
    rfl
  have within : outcome.targets.length ≤ 1 →
      ¬ overBudget (createRun db (updated.only token)) db.lastToken.run outcome := not_overBudget
  unfold conclude applyOutcome
  rw [written, last]
  cases leads with
  | @moves target kind targets =>
    simp only [kind]
    rw [if_neg (within (by simp [targets]))]
    simp only [applyTargets, kind, targets, last, modifyToken_lastToken]
    apply underway_active carries'
    · rfl
    · rfl
  | strays kind targets =>
    simp only [kind]
    rw [if_neg (within (by simp [targets]))]
    simp only [applyTargets, kind, targets, last, modifyToken_lastToken, createTokens, map_nil,
      append_nil]
    rw [Db.lastToken, modifyRun_createRun]
    apply underway_ended carries'
    rfl
  | completes kind =>
    simp only [kind, modifyToken_lastToken]
    apply underway_ended carries'
    rfl

end

end Underway

/-! ## What the gateways of a normalized graph decide -/

/-- The gateway lets the token go on to the node, or ends it. -/
def Routes (result : Except String NodeOutcome) (next : Option NodeId) : Prop :=
  ∃ outcome, result = .ok outcome ∧ outcome.vars = [] ∧ LeadsTo outcome next

section Routes

variable {host : Host} {db₀ db : Db} {site : Site} {outs : List (NodeId × Option String)}

theorem labelledOrDefault_nil (label : String) : labelledOrDefault [] label = none := by
  unfold labelledOrDefault
  split <;> rfl

theorem vars_routeTo (outs : List (NodeId × Option String)) (chosen : Option String) :
    (routeTo outs chosen).vars = [] := by
  unfold routeTo
  dsimp only
  split <;> rfl

theorem routes_first (isOuts : site.outEdges = outs) (noCases : site.node.data.cases = [])
    (noExpr : site.node.data.expr = none) :
    Routes (exclusiveRoute host db site) (outs.head?.map Prod.fst) := by
  unfold exclusiveRoute
  simp only [isOuts, noCases, noExpr]
  cases outs with
  | nil => exact ⟨_, rfl, rfl, .completes rfl⟩
  | cons out rest => exact ⟨_, rfl, rfl, .moves rfl rfl⟩

theorem routes_verdict (isOuts : site.outEdges = outs) (noCases : site.node.data.cases = [])
    {expr : Json} (isExpr : site.node.data.expr = some expr) {verdict : Bool}
    (decides : Json.truthy <$> host.jsonLogic expr (exprContext host db site.run) = .ok verdict) :
    Routes (exclusiveRoute host db site)
      (labelledOrDefault outs (if verdict then "true" else "false")) := by
  unfold exclusiveRoute
  simp only [isOuts, noCases, isExpr]
  cases outs with
  | nil =>
    rw [labelledOrDefault_nil]
    exact ⟨_, rfl, rfl, .completes rfl⟩
  | cons out rest =>
    cases value : host.jsonLogic expr (exprContext host db site.run) with
    | error message =>
      rw [value] at decides
      cases decides
    | ok value' =>
      rw [value] at decides
      cases decides
      refine ⟨routeTo (out :: rest) (some (if value'.truthy then "true" else "false")), ?_,
        vars_routeTo _ _, leadsTo_routeTo _ (some _)⟩
      dsimp only
      rw [value]
      rfl

theorem routes_case (isOuts : site.outEdges = outs) (hasCases : site.node.data.cases ≠ [])
    {chosen : Option String}
    (chooses : chooseCase host.jsonLogic (exprContext host db site.run) site.node.data.cases =
      .ok chosen) :
    Routes (exclusiveRoute host db site) (labelledOrDefault outs (chosen.getD "default")) := by
  unfold exclusiveRoute
  simp only [isOuts]
  cases isCases : site.node.data.cases with
  | nil => exact absurd isCases hasCases
  | cons case cases =>
    rw [isCases] at chooses
    cases outs with
    | nil =>
      rw [labelledOrDefault_nil]
      exact ⟨_, rfl, rfl, .completes rfl⟩
    | cons out rest =>
      dsimp only
      rw [chooses]
      exact ⟨_, rfl, vars_routeTo _ _, leadsTo_routeTo _ _⟩

/-- The engine chooses the case the walker chooses where no expression tells their contexts
apart. -/
theorem chooseCase_alike {jsonLogic : Evaluator} {context context' : Json} {cases : List SwitchCase}
    (alike : ∀ case ∈ cases, ∀ expr, case.expr = some expr →
      Json.truthy <$> jsonLogic expr context' = Json.truthy <$> jsonLogic expr context)
    {handle : Option String} (first : (firstCase jsonLogic context cases).2 = .ok handle) :
    ∃ chosen, chooseCase jsonLogic context' cases = .ok chosen ∧
      chosen.getD "default" = handle.getD "default" := by
  induction cases with
  | nil =>
    cases first
    exact ⟨_, rfl, rfl⟩
  | cons case cases ih =>
    unfold firstCase at first
    unfold chooseCase
    cases isExpr : case.expr with
    | none =>
      rw [isExpr] at first
      cases first
      exact ⟨_, rfl, rfl⟩
    | some expr =>
      have same := alike case mem_cons_self expr isExpr
      rw [isExpr] at first
      simp only [elim_some] at first
      cases value : jsonLogic expr context' with
      | error message =>
        rw [value] at same
        rw [← same] at first
        cases first
      | ok value' =>
        rw [value] at same
        rw [← same] at first
        dsimp only [Functor.map, Except.map] at first ⊢
        cases verdict : value'.truthy with
        | true =>
          rw [verdict] at first
          cases first
          exact ⟨case.handle, by simp [value, bind, Except.bind, verdict, pure, Except.pure], rfl⟩
        | false =>
          rw [verdict] at first
          obtain ⟨chosen, chooses, agree⟩ :=
            ih (fun case member => alike case (mem_cons_of_mem _ member)) first
          exact ⟨chosen, by simpa [value, bind, Except.bind, verdict] using chooses, agree⟩

theorem conditionEdge_behind (outs : List (NodeId × Option String)) (verdict : Bool) :
    (conditionEdge outs verdict).map Prod.fst =
      behind (if verdict then ["true", ""] else ["false"]) outs := by
  unfold conditionEdge behind
  congr 2
  funext out
  have different : ¬ "true" = "false" := by decide
  rcases out with ⟨_, _ | handle⟩
  · cases verdict <;> simp [different]
  · by_cases empty : handle = ""
    · subst empty
      cases verdict <;> simp [different]
    · split
      · contradiction
      · rename_i same
        exact absurd (some.inj same) empty
      · rename_i same
        cases same
        cases verdict <;> simp [empty]

variable {snapshot : InputSnapshot} {captures : List String} {node : WorkflowNode}
  {verdicts : List Bool} {decided : Visit}

theorem routes_alike
    (visits : visitNode host.jsonLogic (changeContext snapshot) outs node = (verdicts, .ok decided))
    (alike : TreatedAlike host db₀ snapshot captures outs node) (clock : db.now = db₀.now)
    (isGateway : node.type ∈ [NodeType.condition, .switch, .merge, .passthrough])
    (isOuts : site.outEdges = outs) (sameCases : site.node.data.cases = node.data.cases)
    (sameExpr : site.node.data.expr = node.data.expr)
    (isSnapshot : site.run.inputSnapshot = snapshot)
    (vars : ∀ entry ∈ site.run.vars, entry.1 ∈ captures) :
    Routes (exclusiveRoute host db site) decided.next := by
  have reads : ∀ {expr : Json}, ReadsAlike host db₀ snapshot captures expr →
      Json.truthy <$> host.jsonLogic expr (exprContext host db site.run) =
        Json.truthy <$> host.jsonLogic expr (changeContext snapshot) := by
    intro expr alike
    have sameContext : exprContext host db site.run = exprContext host db₀ site.run := by
      rw [exprContext, exprContext, clock]
    rw [sameContext]
    exact alike site.run isSnapshot vars
  unfold visitNode at visits
  unfold TreatedAlike at alike
  cases isType : node.type with
  | condition =>
    simp only [isType] at visits alike
    obtain ⟨-, noCases, alike⟩ := alike
    cases isExpr : node.data.expr with
    | none =>
      simp only [isExpr, elim_none] at visits alike
      cases (Prod.mk.inj visits).2
      rw [conditionEdge_behind, if_pos rfl, alike]
      exact routes_first isOuts (sameCases.trans noCases) (sameExpr.trans isExpr)
    | some expr =>
      simp only [isExpr, elim_some] at visits alike
      obtain ⟨isRead, alike⟩ := alike
      cases verdict : Json.truthy <$> host.jsonLogic expr (changeContext snapshot) with
      | error message =>
        rw [verdict] at visits
        cases visits
      | ok verdict' =>
        rw [verdict] at visits alike
        cases (Prod.mk.inj visits).2
        have routes := routes_verdict isOuts (sameCases.trans noCases)
          (sameExpr.trans isExpr) ((reads isRead).trans verdict)
        cases verdict' with
        | true =>
          rwa [conditionEdge_behind, if_pos rfl, alike]
        | false =>
          rwa [conditionEdge_behind, if_neg Bool.false_ne_true, alike]
  | switch =>
    simp only [isType] at visits alike
    obtain ⟨-, alike⟩ := alike
    cases isCases : node.data.cases with
    | nil =>
      simp only [isCases, firstCase] at visits alike
      obtain ⟨noExpr, alike⟩ := alike
      cases (Prod.mk.inj visits).2
      dsimp only
      rw [alike]
      exact routes_first isOuts (sameCases.trans isCases) (sameExpr.trans noExpr)
    | cons case cases =>
      simp only [isCases] at visits alike
      obtain ⟨areRead, alike⟩ := alike
      cases first : (firstCase host.jsonLogic (changeContext snapshot) (case :: cases)).2 with
      | error message =>
        rw [first] at visits
        cases visits
      | ok handle =>
        rw [first] at visits alike
        cases (Prod.mk.inj visits).2
        dsimp only at alike ⊢
        obtain ⟨chosen, chooses, agree⟩ := chooseCase_alike
          (fun case member expr isExpr => reads (areRead case member expr isExpr)) first
        rw [← isCases, ← sameCases] at chooses
        rw [alike, ← agree]
        exact routes_case isOuts (by rw [sameCases, isCases]; simp) chooses
  | merge | passthrough =>
    simp only [isType] at visits alike
    obtain ⟨-, noCases, noExpr⟩ := alike
    cases (Prod.mk.inj visits).2
    exact routes_first isOuts (sameCases.trans noCases) (sameExpr.trans noExpr)
  | _ =>
    rw [isType] at isGateway
    simp at isGateway

end Routes

/-! ## One node of the itinerary -/

section Advance

variable {host : Host} {db₀ db : Db} {launch : Launch} {executed : List WorkflowNode} {run : Run}
  {token : Token} {site : Site} {node : WorkflowNode}

theorem actionsOf_append (earlier later : List WorkflowNode) :
    actionsOf (earlier ++ later) = actionsOf earlier ++ actionsOf later :=
  filter_append earlier later

theorem actionsOf_singleton (node : WorkflowNode) :
    actionsOf [node] = if node.type = .action then [node] else [] := by
  unfold actionsOf
  split <;> simp_all

theorem Carries.pass (carries : Carries db₀ launch executed db run) (passes : node.type ≠ .action) :
    Carries db₀ launch (executed ++ [node]) db run := by
  have same : actionsOf (executed ++ [node]) = actionsOf executed := by
    rw [actionsOf_append, actionsOf_singleton, if_neg passes, append_nil]
  exact
    { carries with
      calls := same ▸ carries.calls
      stepSeq := same ▸ carries.stepSeq
      vars := same ▸ carries.vars }

theorem dispatch_normalized_gateway
    (isGateway : node.type ∈ [NodeType.condition, .switch, .merge, .passthrough])
    (forwards : ForwardsOneToken node) (isNode : site.node = normalizeNode node) :
    dispatch host db site = (Dispatched.outcome db ·) <$> exclusiveRoute host db site := by
  have isExclusive : site.node.type = .gateway ∧
      site.node.gatewayType = some (node.data.gatewayType.getD .exclusive) := by
    rw [isNode]
    unfold normalizeNode
    split <;> simp_all [WorkflowNode.gatewayType]
  unfold dispatch dispatchGateway
  rw [isExclusive.1, isExclusive.2]
  dsimp only [Option.getD_some]
  split
  · rename_i isInclusive
    cases given : node.data.gatewayType with
    | none => simp [given] at isInclusive
    | some gatewayType => exact absurd (by simpa [given] using isInclusive) forwards.2
  · rename_i isParallel
    cases given : node.data.gatewayType with
    | none => simp [given] at isParallel
    | some gatewayType => exact absurd (by simpa [given] using isParallel) forwards.1
  all_goals
    cases exclusiveRoute host db site <;> rfl

theorem dispatch_normalized_action (isAction : node.type = .action) (handled : HasHandler node)
    (isNode : site.node = normalizeNode node) :
    ∃ actionType, dispatch host db site = .ok (.of (dispatchAction host db site actionType)) := by
  obtain ⟨isService, actionType, isActionType, notEmpty⟩ := handled
  have isTask : site.node.type = .task ∧ site.node.data.actionType = some actionType ∧
      site.node.taskType =
        some (node.data.taskType.getD (taskTypeForAction node.data.actionType)) := by
    rw [isNode]
    unfold normalizeNode
    simp [isAction, isActionType, WorkflowNode.taskType]
  have isHandled : site.node.taskType ∈ [some TaskType.service, some .send, some .other] := by
    rw [isTask.2.2]
    cases given : node.data.taskType with
    | none =>
      unfold taskTypeForAction
      rw [isActionType]
      dsimp only [getD_none]
      split <;> simp
    | some taskType => simpa [given] using isService
  refine ⟨actionType, ?_⟩
  unfold dispatch dispatchTask
  rw [isTask.1, isTask.2.1]
  dsimp only
  split <;> simp_all

theorem record_call (db : Db) (run : Run) (token : Token) (node : WorkflowNode)
    (calls : List HandlerCall) (change : RunStep → RunStep) :
    ∃ steps,
      ({ (createRun db (run.only token)).recordStep db.lastToken node .running with
          calls := calls }.settleStep db.lastToken.run change) =
        createRun { db with calls := calls }
          ({ run with stepSeq := run.stepSeq + 1, steps := steps }.only token) := by
  let step : RunStep :=
    { nodeId := node.id, stepIndex := run.stepSeq + 1, tokenIndex := 0, status := .running }
  let recorded : Run := { run with stepSeq := run.stepSeq + 1, steps := run.steps ++ [step] }
  have isRecorded : (createRun db (run.only token)).recordStep db.lastToken node .running =
      createRun db (recorded.only token) := by
    rw [Db.recordStep, Db.lastToken, modifyRun_createRun]
    rfl
  rw [isRecorded]
  exact ⟨recorded.steps.modify (recorded.steps.length - 1) change,
    @modifyRun_createRun { db with calls := calls } (recorded.only token) fun run =>
      { run with steps := run.steps.modify (run.steps.length - 1) change }⟩

theorem dispatchAction_succeeds (carries : Carries db₀ launch executed db run)
    (isAction : node.type = .action) (succeed : ∀ earlier call, (host.execute earlier call).ok)
    (room : (actionsOf executed).length < host.maxRunSteps) (last : site.t = db.lastToken)
    (isRun : site.run = run.only token) (isNode : site.node = normalizeNode node)
    (actionType : String) :
    ∃ db' run' tokenData vars,
      dispatchAction host (createRun db (run.only token)) site actionType =
        (createRun db' (run'.only token), site.moveOn tokenData vars) ∧
      Carries db₀ launch (executed ++ [node]) db' run' ∧
      ∀ entry ∈ vars, entry.1 ∈ (actionsOf (executed ++ [node])).filterMap WorkflowNode.capture := by
  have within : ¬ host.maxRunSteps ≤ site.run.stepSeq := by
    rw [isRun, Run.only, carries.stepSeq]
    omega
  have sameCapture : site.node.capture = node.capture := by
    rw [isNode, normalizeNode, isAction]
    rfl
  have oneMore : actionsOf (executed ++ [node]) = actionsOf executed ++ [node] := by
    rw [actionsOf_append, actionsOf_singleton, if_pos isAction]
  obtain ⟨call, isCall⟩ : ∃ call,
      call = handlerCall (createRun db (run.only token)) site actionType := ⟨_, rfl⟩
  obtain ⟨steps, recorded⟩ := record_call db run token site.node (db.calls ++ [call])
    fun step => { step with status := .succeeded, output := some (host.execute db.calls call).output }
  refine ⟨{ db with calls := db.calls ++ [call] },
    { run with stepSeq := run.stepSeq + 1, steps := steps },
    site.token.data.clearAttempts site.node.id,
    captured site.node (host.execute db.calls call).output, ?_, ?_, ?_⟩
  · rw [← recorded, dispatchAction, if_neg within, ← isCall, last]
    exact if_pos (succeed db.calls call)
  · exact
      { carries with
        calls := by
          rw [oneMore, map_append, map_append, carries.calls, isCall, append_assoc]
          simp [handlerCall, isNode, normalizeNode_id]
        stepSeq := by rw [oneMore, length_append, carries.stepSeq]; rfl
        vars := fun entry member => by
          rw [oneMore, filterMap_append]
          exact mem_append_left _ (carries.vars entry member) }
  · intro entry member
    rw [captured, sameCapture] at member
    rw [oneMore, filterMap_append]
    cases key : node.capture with
    | none =>
      rw [key] at member
      cases member
    | some name =>
      rw [key] at member
      obtain rfl := mem_singleton.mp member
      simp [key]

variable {model : WorkflowDefinitionModel} {trigger : WorkflowNode} {current : NodeId}
  {verdicts : List Bool} {decided : Visit}

def Follows (host : Host) (db₀ : Db) (launch : Launch) (executed : List WorkflowNode) (now : Db)
    (site : Site) (next : Option NodeId) : Prop :=
  ∃ db run token outcome,
    dispatch host now site = .ok (.outcome (createRun db (run.only token)) outcome) ∧
    Carries db₀ launch executed db run ∧ LeadsTo outcome next ∧
    ∀ entry ∈ outcome.vars, entry.1 ∈ (actionsOf executed).filterMap WorkflowNode.capture

/-- **At one node, the token follows the walker**: the dispatch leads where the visit goes. -/
theorem follows_of_alike (graph : LegacyGraph model trigger)
    (succeed : ∀ earlier call, (host.execute earlier call).ok)
    (found : model.nodeById current = some node)
    (visits : visitNode host.jsonLogic (changeContext launch.inputSnapshot)
      (model.outEdges current) node = (verdicts, .ok decided))
    (alike : TreatedAlike host db₀ launch.inputSnapshot
      ((actionsOf executed).filterMap WorkflowNode.capture) (model.outEdges current) node)
    (room : (actionsOf (executed ++ [node])).length ≤ host.maxRunSteps)
    (carries : Carries db₀ launch executed db run) (last : site.t = db.lastToken)
    (isRun : site.run = run.only token) (isModel : site.model = normalize model)
    (isNode : site.node = normalizeNode node) :
    Follows host db₀ launch (executed ++ [node]) (createRun db (run.only token)) site
      decided.next := by
  obtain ⟨member, rfl⟩ := WorkflowDefinitionModel.mem_of_nodeById found
  have isOuts : site.outEdges = model.outEdges node.id := by
    rw [Site.outEdges, isModel, isNode, normalizeNode_id, outEdges_normalize]
  have straight (isStraight : node.type ∈ [NodeType.trigger, .action, .merge, .passthrough]) :
      site.outEdges.length ≤ 1 := isOuts ▸ graph.straight node member isStraight
  have gateway (isGateway : node.type ∈ [NodeType.condition, .switch, .merge, .passthrough])
      (forwards : ForwardsOneToken node) :
      Follows host db₀ launch (executed ++ [node]) (createRun db (run.only token)) site
        decided.next := by
    have sameData : site.node.data.cases = node.data.cases ∧
        site.node.data.expr = node.data.expr := by
      rw [isNode]
      unfold normalizeNode
      split <;> exact ⟨rfl, rfl⟩
    have clock : (createRun db (run.only token)).now = db₀.now := carries.clock
    obtain ⟨outcome, decides, noVars, leads⟩ := routes_alike visits alike clock isGateway isOuts
      sameData.1 sameData.2 (isRun ▸ carries.snapshot) (isRun ▸ carries.vars)
    refine ⟨db, run, token, outcome, ?_, carries.pass ?_, leads, ?_⟩
    · rw [dispatch_normalized_gateway isGateway forwards isNode, decides]
      rfl
    · intro isAction
      rw [isAction] at isGateway
      simp at isGateway
    · rw [noVars]
      nofun
  unfold TreatedAlike at alike
  unfold visitNode at visits
  cases isType : node.type with
  | trigger =>
    simp only [isType] at visits
    cases (Prod.mk.inj visits).2
    have dispatches : dispatch host (createRun db (run.only token)) site =
        .ok (.outcome (createRun db (run.only token)) site.moveOn) := by
      rw [dispatch, isNode, normalizeNode, isType]
      simp only [isType]
    refine ⟨db, run, token, _, dispatches, carries.pass (by simp [isType]), ?_, nofun⟩
    exact isOuts ▸ leadsTo_moveOn (straight (by simp [isType]))
  | action =>
    simp only [isType] at visits alike
    cases (Prod.mk.inj visits).2
    obtain ⟨actionType, dispatches⟩ := dispatch_normalized_action isType alike isNode
    have free : (actionsOf executed).length < host.maxRunSteps := by
      rw [actionsOf_append, actionsOf_singleton, if_pos isType, length_append] at room
      exact room
    obtain ⟨db', run', tokenData, vars, succeeds, carries', captured⟩ :=
      dispatchAction_succeeds carries isType succeed free last isRun isNode actionType
    rw [succeeds] at dispatches
    refine ⟨db', run', token, _, dispatches, carries', ?_, captured⟩
    exact isOuts ▸ leadsTo_moveOn (straight (by simp [isType]))
  | condition | merge | passthrough | switch =>
    simp only [isType] at alike
    exact gateway (by simp [isType]) alike.1
  | _ =>
    have legacy := graph.legacy node member
    rw [isType] at legacy
    simp at legacy

theorem Carries.lastToken (carries : Carries db₀ launch executed db run) :
    db.lastToken = db₀.lastToken := by
  rw [Db.lastToken, Db.lastToken, carries.runs]

variable {version : WorkflowVersion} {nodes rest : List WorkflowNode} {place : Option NodeId}
  {drive : World → RunId → Except String World} {world : World}

theorem underway_advance (graph : LegacyGraph model trigger)
    (succeed : ∀ earlier call, (host.execute earlier call).ok)
    (isVersion : db₀.versions[launch.versionId]? = some version) (isModel : version.definition = model)
    (found : model.nodeById current = some node)
    (visits : visitNode host.jsonLogic (changeContext launch.inputSnapshot)
      (model.outEdges current) node = (verdicts, .ok decided))
    (alike : TreatedAlike host db₀ launch.inputSnapshot
      ((actionsOf executed).filterMap WorkflowNode.capture) (model.outEdges current) node)
    (room : (actionsOf (executed ++ [node])).length ≤ host.maxRunSteps)
    (underway : Underway db₀ launch executed (some current) world.now) :
    ∃ next held, drivePass (advanceOne host drive) [db₀.lastToken] world = .ok (next, held) ∧
      (∀ t ∈ held, hasStatus next.now .active t) ∧
      Underway db₀ launch (executed ++ [node]) decided.next next.now := by
  obtain ⟨db, run, token, isNow, carries, active, isAt⟩ := underway
  obtain ⟨taken, isTaken⟩ : ∃ taken, taken = token.withStatus .running := ⟨_, rfl⟩
  have takes : world.now.modifyToken db.lastToken (Token.withStatus .running) =
      createRun db (run.only taken) := by
    rw [isNow, modifyToken_lastToken, isTaken]
  have isVersion' : (createRun db (run.only taken)).versions[(run.only taken).versionId]? =
      some version := by
    rw [← isVersion, ← carries.versions, ← carries.version]
    rfl
  have found' : (normalize version.definition).nodeById taken.nodeId = some (normalizeNode node) := by
    rw [isModel, isTaken]
    exact nodeById_normalize model (isAt ▸ found)
  obtain ⟨site, isSite⟩ : ∃ site : Site, site =
    { t := db.lastToken, token := taken, run := run.only taken
      model := normalize version.definition, node := normalizeNode node } := ⟨_, rfl⟩
  have last : site.t = db.lastToken := by rw [isSite]
  have isRun : site.run = run.only taken := by rw [isSite]
  have isModel' : site.model = normalize model := by rw [isSite, isModel]
  have isNode : site.node = normalizeNode node := by rw [isSite]
  obtain ⟨db', run', token', outcome, dispatches, carries', leads, captured⟩ :=
    follows_of_alike graph succeed found visits alike room carries last isRun isModel' isNode
  have last' : site.t = db'.lastToken := by rw [last, carries.lastToken, carries'.lastToken]
  obtain ⟨next, isNext⟩ : ∃ next, next =
      (world.step (.taken db.lastToken) (createRun db (run.only taken))).step
        (.advanced db.lastToken outcome)
        (conclude (createRun db' (run'.only token')) site outcome) := ⟨_, rfl⟩
  have advances : advanceOne host drive
      (world.step (.taken db.lastToken) (createRun db (run.only taken))) db.lastToken =
        .ok next := by
    have hasRun : (createRun db (run.only taken)).runs[db.lastToken.run]? = some (run.only taken) :=
      getElem?_createRun
    unfold advanceOne
    simp only [now_step, hasRun, token?_lastToken, isVersion', found', ← isSite, dispatches]
    rw [isNext]
    rfl
  refine ⟨next, if hasStatus next.now .active db.lastToken then [db.lastToken] else [], ?_,
    fun t member => ?_, ?_⟩
  · rw [← carries.lastToken, drivePass, takes, advances]
    rfl
  · split at member
    · rename_i active
      rwa [mem_singleton.mp member]
    · cases member
  · rw [isNext, now_step]
    exact underway_conclude carries' last' leads captured

theorem activeTokens_underway {now : Db} (underway : Underway db₀ launch executed place now)
    {held : List TokenId} (active : ∀ t ∈ held, hasStatus now .active t) :
    activeTokens now db₀.runs.length held = if place.isSome then [db₀.lastToken] else [] := by
  have listed : activeTokens now db₀.runs.length held = activeTokens now db₀.runs.length [] := by
    refine filter_congr fun t _ => ?_
    cases isActive : hasStatus now .active t with
    | true => rfl
    | false =>
      have other : t ∉ held := fun member => by
        rw [active t member] at isActive
        cases isActive
      simp [other]
  rw [listed]
  obtain ⟨db, run, token, rfl, carries, stands⟩ := underway
  have isToken : (createRun db (run.only token)).token? ⟨db.runs.length, 0⟩ = some token :=
    token?_lastToken
  have oneToken : (run.only token).tokens = [token] := rfl
  rw [activeTokens, ← carries.runs, tokensOf_createRun, oneToken, ← carries.lastToken, Db.lastToken]
  cases place with
  | none =>
    have ended : token.status = .completed := stands
    simp [hasStatus, isToken, ended]
  | some nodeId =>
    have active : token.status = .active := stands.1
    simp [hasStatus, isToken, active]

/-- Somewhere on the itinerary: the nodes still to come are those of an itinerary from where the
token stands. -/
def OnItinerary (host : Host) (db₀ : Db) (launch : Launch) (model : WorkflowDefinitionModel)
    (nodes rest : List WorkflowNode) (now : Db) : Prop :=
  ∃ executed place, nodes = executed ++ rest ∧
    Itinerary host.jsonLogic model (changeContext launch.inputSnapshot) place rest ∧
    Underway db₀ launch executed place now

section

variable (graph : LegacyGraph model trigger)
    (succeed : ∀ earlier call, (host.execute earlier call).ok)
    (isVersion : db₀.versions[launch.versionId]? = some version)
    (isModel : version.definition = model)
    (alike : TreatedAlikeAlong host db₀ launch.inputSnapshot model nodes)

include graph succeed isVersion isModel alike

theorem onItinerary_passes (passes : Nat)
    (onWay : OnItinerary host db₀ launch model nodes rest world.now) {held : List TokenId}
    (active : ∀ t ∈ held, hasStatus world.now .active t) : ∃ next rest',
      drivePasses (advanceOne host drive) db₀.runs.length passes held world = .ok next ∧
      OnItinerary host db₀ launch model nodes rest' next.now ∧
      rest'.length ≤ rest.length - passes := by
  induction passes generalizing rest world held with
  | zero => exact ⟨world, rest, rfl, onWay, le_refl _⟩
  | succ passes ih =>
    obtain ⟨executed, place, isSplit, itinerary, underway⟩ := onWay
    rw [drivePasses, activeTokens_underway underway active]
    cases itinerary with
    | ended => exact ⟨world, [], rfl, ⟨executed, none, isSplit, .ended, underway⟩, Nat.zero_le _⟩
    | @visit current node rest verdicts decided found visits onward =>
      have isNode := (WorkflowDefinitionModel.mem_of_nodeById found).2
      have alikeHere := alike.1 executed node rest isSplit
      have isSplit' : nodes = (executed ++ [node]) ++ rest := by
        rw [isSplit, append_assoc, singleton_append]
      have room : (actionsOf (executed ++ [node])).length ≤ host.maxRunSteps := by
        refine le_trans ?_ alike.2
        rw [isSplit', actionsOf_append (executed ++ [node]), length_append]
        exact Nat.le_add_right _ _
      rw [isNode] at alikeHere
      obtain ⟨after, held', advances, active', underway'⟩ := underway_advance graph succeed
        isVersion isModel found visits alikeHere room underway
      obtain ⟨next, rest', passes', onWay', shorter⟩ :=
        ih ⟨executed ++ [node], decided.next, isSplit', onward, underway'⟩ active'
      refine ⟨next, rest', ?_, onWay', ?_⟩
      · simp only [isSome_some, if_true]
        rwa [advances]
      · rw [length_cons]
        omega

theorem onItinerary_drives (drives : Nat)
    (onWay : OnItinerary host db₀ launch model nodes rest world.now) :
    ∃ rest', rest'.length ≤ rest.length - drives ∧
      OnItinerary host db₀ launch model nodes rest'
        ((List.replicate drives (.drive db₀.runs.length)).foldl (perform host) world).now := by
  induction drives generalizing rest world with
  | zero => exact ⟨rest, le_refl _, onWay⟩
  | succ drives ih =>
    obtain ⟨next, rest', passes, onWay', shorter⟩ := onItinerary_passes
      graph succeed isVersion isModel alike maxPasses onWay
      (fun _ none => absurd none not_mem_nil)
    have drove : perform host world (.drive db₀.runs.length) = next := by
      rw [perform, Workflow.drive, maxTokenDepth, driveRun, passes]
    obtain ⟨rest'', shorter', onWay''⟩ := ih onWay'
    refine ⟨rest'', ?_, ?_⟩
    · rw [maxPasses] at shorter
      omega
    · rwa [replicate_succ, foldl_cons, drove]

end

theorem underway_launch (graph : LegacyGraph model trigger)
    (isVersion : db₀.versions[launch.versionId]? = some version)
    (isModel : version.definition = model) :
    Underway db₀ launch [] (some trigger.id) (launchRun { now := db₀ } launch).now := by
  have seeded : (launchRun { now := db₀ } launch).now =
      createRun db₀ (launch.run.only { nodeId := trigger.id }) := by
    rw [launchRun, isVersion]
    dsimp only [now_step]
    rw [startRun, isModel, triggers_normalize, graph.triggers]
    exact modifyRun_createRun _
  exact ⟨db₀, launch.run, _, seeded,
    { runs := rfl, versions := rfl, clock := rfl, calls := by simp [actionsOf], stepSeq := rfl,
      version := rfl, snapshot := rfl, orphan := rfl, vars := nofun }, rfl, rfl⟩

end Advance

/-- A check with the given verdict and an edge without a handle. -/
def checkDefinition (verdict : Bool) : WorkflowDefinitionModel where
  nodes := [{ id := "change", type := .trigger },
    { id := "check", type := .condition, data := { expr := some (.bool verdict) } },
    { id := "notify", type := .action, data := { actionType := some "send_email" } }]
  edges := [{ source := "change", target := "check" }, { source := "check", target := "notify" }]
  ids_nodup := by decide +revert
  sources_known := by decide +revert
  targets_known := by decide +revert

def checkDb (verdict : Bool) : Db := { versions := [{ definition := checkDefinition verdict }] }

theorem legacyGraph_checkDefinition (verdict : Bool) :
    LegacyGraph (checkDefinition verdict) { id := "change", type := .trigger } where
  legacy := by cases verdict <;> decide
  triggers := rfl
  acyclic := by
    refine Reach.acyclic_of_height
      (fun nodeId => if nodeId = "change" then 2 else if nodeId = "check" then 1 else 0) ?_
    have falls : ∀ edge ∈ (checkDefinition verdict).adjacency,
        (if edge.2 = "change" then 2 else if edge.2 = "check" then 1 else 0) <
          if edge.1 = "change" then 2 else if edge.1 = "check" then 1 else 0 := by
      decide +revert
    exact fun a b edge => falls (a, b) edge
  straight := by cases verdict <;> decide

end RedArchKM.Workflow
