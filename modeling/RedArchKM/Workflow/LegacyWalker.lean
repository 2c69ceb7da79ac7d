import Mathlib.Data.List.Perm.Subperm
import RedArchKM.Workflow.Engine

/-!
# The walker of legacy graphs

Legacy graphs are walked before anything is executed: from the trigger along one edge at a time,
collecting the actions on the way, until a node has no edge to follow, a delay pauses the walk,
or a node comes up twice. An expression that raises ends the walk with an error.

A graph without cycles is walked along an itinerary (`exists_itinerary`): the nodes in order, each
with the edge its visit picks.
-/

namespace RedArchKM.Workflow

open Lib List Option

structure GraphEvaluation where
  matched : Bool := false
  actions : List WorkflowNode := []
  trace : List (NodeId × Bool) := []
  error : Option String := none
  paused : Bool := false
  resumeNodeId : Option NodeId := none
  delaySeconds : Int := 0

/-- `int(value or 0)` -/
def Json.toInt : Json → Except String Int
  | .num value => .ok (value.num.tdiv value.den)
  | .bool value => .ok (if value then 1 else 0)
  | .null | .str "" | .arr [] | .obj [] => .ok 0
  | .str text =>
    match text.trimAscii.toString.toInt? with
    | some value => .ok value
    | none => .error "invalid literal for int()"
  | .arr (_ :: _) | .obj (_ :: _) => .error "int() argument must be a number"

structure Visit where
  next : Option NodeId := none
  acts : Bool := false
  delay : Option Int := none

def firstCase (jsonLogic : Evaluator) (context : Json) :
    List SwitchCase → List Bool × Except String (Option String)
  | [] => ([], .ok none)
  | case :: cases =>
    match case.expr.elim (.ok true) fun expr => Json.truthy <$> jsonLogic expr context with
    | .error message => ([], .error message)
    | .ok true => ([true], .ok case.handle)
    | .ok false =>
      let rest := firstCase jsonLogic context cases
      (false :: rest.1, rest.2)

/-- The edge of a condition's verdict: an edge without a handle is one for `true`. -/
def conditionEdge (outs : List (NodeId × Option String)) (verdict : Bool) :
    Option (NodeId × Option String) :=
  outs.find? fun out =>
    (match out.2 with
      | none | some "" => "true"
      | some handle => handle) = if verdict then "true" else "false"

def switchEdge (outs : List (NodeId × Option String)) (chosen : Option String) :
    Option (NodeId × Option String) :=
  outs.find? fun out => out.2 = some (chosen.getD "default")

/-- One turn of the walk: the verdicts it records, and what it decides. -/
def visitNode (jsonLogic : Evaluator) (context : Json) (outs : List (NodeId × Option String))
    (node : WorkflowNode) : List Bool × Except String Visit :=
  let along (edge : Option (NodeId × Option String)) : Visit := { next := edge.map Prod.fst }
  match node.type with
  | .condition =>
    match node.data.expr.elim (.ok true) fun expr => Json.truthy <$> jsonLogic expr context with
    | .error message => ([], .error message)
    | .ok verdict => ([verdict], .ok (along (conditionEdge outs verdict)))
  | .switch =>
    let chosen := firstCase jsonLogic context node.data.cases
    (chosen.1, (fun handle => along (switchEdge outs handle)) <$> chosen.2)
  | .delay => ([], (fun seconds => { delay := some seconds }) <$> node.data.delaySeconds.toInt)
  | .action => ([], .ok { along outs.head? with acts := true })
  | .trigger | .task | .gateway | .event | .merge | .passthrough => ([], .ok (along outs.head?))

/-- The walk once a visit has decided. -/
def GraphEvaluation.after (walked : GraphEvaluation) (outs : List (NodeId × Option String))
    (node : WorkflowNode) (visit : Visit) : GraphEvaluation :=
  let walked := if visit.acts then { walked with actions := walked.actions ++ [node] } else walked
  match visit.delay with
  | none => walked
  | some seconds =>
    { walked with
      paused := true, delaySeconds := seconds, resumeNodeId := outs.head?.map Prod.fst }

def walk (jsonLogic : Evaluator) (model : WorkflowDefinitionModel) (context : Json) :
    Nat → List NodeId → Option NodeId → GraphEvaluation → GraphEvaluation
  | 0, _, _, walked => walked
  | _ + 1, _, none, walked => walked
  | turns + 1, visited, some current, walked =>
    if current ∈ visited then walked
    else
      match model.nodeById current with
      | none => walked
      | some node =>
        let outs := model.outEdges current
        let (verdicts, visit) := visitNode jsonLogic context outs node
        let walked := { walked with trace := walked.trace ++ verdicts.map (current, ·) }
        match visit with
        | .error message => { walked with error := some message }
        | .ok visit =>
          walk jsonLogic model context turns (current :: visited) visit.next
            (walked.after outs node visit)

/-- Traverse the graph from its trigger, or from the node a suspended run resumes at, and return
the actions to run. A node is visited once, so there are turns enough for all. -/
def evaluateGraph (jsonLogic : Evaluator) (model : WorkflowDefinitionModel) (context : Json)
    (startNodeId : Option NodeId := none) : GraphEvaluation :=
  match startNodeId.or (model.triggers.head?.map WorkflowNode.id) with
  | none => { error := some "no trigger node" }
  | some start =>
    let walked := walk jsonLogic model context (model.nodes.length + 1) [] (some start) {}
    if walked.error.isSome then walked
    else { walked with matched := walked.paused || !walked.actions.isEmpty }

section Walk

variable {jsonLogic : Evaluator} {model : WorkflowDefinitionModel} {context : Json}

/-! ## Itineraries -/

/-- The nodes that a walk without errors visits, each along the edge its visit picks. -/
inductive Itinerary (jsonLogic : Evaluator) (model : WorkflowDefinitionModel) (context : Json) :
    Option NodeId → List WorkflowNode → Prop where
  | ended : Itinerary jsonLogic model context none []
  | visit {current : NodeId} {node : WorkflowNode} {rest : List WorkflowNode}
      {verdicts : List Bool} {decided : Visit} (found : model.nodeById current = some node)
      (visits : visitNode jsonLogic context (model.outEdges current) node = (verdicts, .ok decided))
      (onward : Itinerary jsonLogic model context decided.next rest) :
      Itinerary jsonLogic model context (some current) (node :: rest)

theorem Itinerary.unique {current : Option NodeId} {nodes nodes' : List WorkflowNode}
    (left : Itinerary jsonLogic model context current nodes)
    (right : Itinerary jsonLogic model context current nodes') : nodes = nodes' := by
  induction left generalizing nodes' with
  | ended =>
    cases right
    rfl
  | visit found visits _ ih =>
    cases right with
    | visit found' visits' onward' =>
      cases found.symm.trans found'
      cases (Prod.mk.inj (visits.symm.trans visits')).2
      rw [ih onward']

theorem next_mem_outs {outs : List (NodeId × Option String)} {node : WorkflowNode}
    {verdicts : List Bool} {decided : Visit} {next : NodeId}
    (visits : visitNode jsonLogic context outs node = (verdicts, .ok decided))
    (isNext : decided.next = some next) : ∃ handle, (next, handle) ∈ outs := by
  have along : ∀ {edge : Option (NodeId × Option String)}, (∀ out, edge = some out → out ∈ outs) →
      edge.map Prod.fst = some next → ∃ handle, (next, handle) ∈ outs := by
    intro edge member isNext
    obtain ⟨⟨target, handle⟩, isEdge, rfl⟩ := map_eq_some_iff.mp isNext
    exact ⟨handle, member _ isEdge⟩
  have first : ∀ out, outs.head? = some out → out ∈ outs := fun out => mem_of_mem_head?
  unfold visitNode at visits
  dsimp only at visits
  split at visits
  · split at visits
    · cases visits
    · obtain ⟨-, same⟩ := Prod.mk.inj visits
      cases same
      exact along (fun out => mem_of_find?_eq_some) isNext
  · cases chosen : (firstCase jsonLogic context node.data.cases).2 with
    | error message =>
      rw [chosen] at visits
      cases visits
    | ok handle =>
      rw [chosen] at visits
      cases (Prod.mk.inj visits).2
      exact along (fun out => mem_of_find?_eq_some) isNext
  · cases seconds : node.data.delaySeconds.toInt with
    | error message =>
      rw [seconds] at visits
      cases visits
    | ok value =>
      rw [seconds] at visits
      cases (Prod.mk.inj visits).2
      cases isNext
  all_goals
    cases (Prod.mk.inj visits).2
    exact along first isNext

theorem nodeById_of_known {nodeId : NodeId} (known : nodeId ∈ model.nodes.map WorkflowNode.id) :
    ∃ node, model.nodeById nodeId = some node := by
  obtain ⟨node, member, rfl⟩ := mem_map.mp known
  refine isSome_iff_exists.mp (find?_isSome.mpr ⟨node, member, ?_⟩)
  exact decide_eq_true rfl

theorem edge_of_mem_outEdges {source target : NodeId} {handle : Option String}
    (member : (target, handle) ∈ model.outEdges source) :
    Reach.Edge model.adjacency source target ∧ target ∈ model.nodes.map WorkflowNode.id := by
  obtain ⟨edge, kept, same⟩ := mem_map.mp member
  obtain ⟨isEdge, leaves⟩ := mem_filter.mp kept
  obtain ⟨rfl, -⟩ := Prod.mk.inj same
  obtain rfl : edge.source = source := by simpa using leaves
  exact ⟨mem_map_of_mem isEdge, model.targets_known edge isEdge⟩

section

variable (walked : GraphEvaluation) (outs : List (NodeId × Option String)) (node : WorkflowNode)
    (visit : Visit)

include walked outs node visit

theorem actions_after : (walked.after outs node visit).actions =
      walked.actions ++ if visit.acts then [node] else [] := by
  unfold GraphEvaluation.after
  split <;> split <;> simp_all

end

theorem acts_iff {outs : List (NodeId × Option String)} {node : WorkflowNode} {verdicts : List Bool}
    {decided : Visit} (visits : visitNode jsonLogic context outs node = (verdicts, .ok decided)) :
    decided.acts = true ↔ node.type = .action := by
  unfold visitNode at visits
  dsimp only at visits
  split at visits
  · rename_i isType
    split at visits
    · cases visits
    · cases (Prod.mk.inj visits).2
      simp [isType]
  · rename_i isType
    cases chosen : (firstCase jsonLogic context node.data.cases).2 with
    | error message =>
      rw [chosen] at visits
      cases visits
    | ok handle =>
      rw [chosen] at visits
      cases (Prod.mk.inj visits).2
      simp [isType]
  · rename_i isType
    cases seconds : node.data.delaySeconds.toInt with
    | error message =>
      rw [seconds] at visits
      cases visits
    | ok value =>
      rw [seconds] at visits
      cases (Prod.mk.inj visits).2
      simp [isType]
  all_goals
    rename_i isType
    cases (Prod.mk.inj visits).2
    simp [isType]

/-- The walk of a graph without cycles, from a node that no visited node lies beyond. -/
theorem walk_itinerary (acyclic : Reach.Acyclic model.adjacency) {turns : Nat}
    {visited : List NodeId} {current : Option NodeId} {walked : GraphEvaluation}
    (distinct : visited.Nodup) (known : visited ⊆ model.nodes.map WorkflowNode.id)
    (enough : model.nodes.length < turns + visited.length)
    (isKnown : ∀ nodeId, current = some nodeId → nodeId ∈ model.nodes.map WorkflowNode.id)
    (behind : ∀ nodeId, current = some nodeId → ∀ old ∈ visited,
      Reach.ReachesProperly model.adjacency old nodeId)
    (noError : (walk jsonLogic model context turns visited current walked).error = none) :
    ∃ nodes, Itinerary jsonLogic model context current nodes ∧
      (walk jsonLogic model context turns visited current walked).actions =
        walked.actions ++ nodes.filter fun node => node.type = .action := by
  induction turns generalizing visited current walked with
  | zero =>
    have fewer := (subperm_of_subset distinct known).length_le
    rw [length_map] at fewer
    omega
  | succ turns ih =>
    cases current with
    | none => exact ⟨[], .ended, by simp [walk]⟩
    | some current =>
      have isNew : current ∉ visited := fun old => acyclic current (behind current rfl current old)
      obtain ⟨node, found⟩ := nodeById_of_known (isKnown current rfl)
      simp only [walk, if_neg isNew, found] at noError ⊢
      cases visits : visitNode jsonLogic context (model.outEdges current) node with
      | mk verdicts visit =>
        rw [visits] at noError
        cases visit with
        | error message => cases noError
        | ok decided =>
          dsimp only at noError ⊢
          have goesOn : ∀ next, decided.next = some next →
              Reach.Edge model.adjacency current next ∧
                next ∈ model.nodes.map WorkflowNode.id := fun next isNext => by
            obtain ⟨handle, member⟩ := next_mem_outs visits isNext
            exact edge_of_mem_outEdges member
          obtain ⟨rest, onward, actions⟩ := ih
            (nodup_cons.mpr ⟨isNew, distinct⟩)
            (cons_subset.mpr ⟨isKnown current rfl, known⟩)
            (by rw [length_cons]; omega) (fun next isNext => (goesOn next isNext).2)
            (fun next isNext old isOld => by
              obtain ⟨edge, -⟩ := goesOn next isNext
              rcases mem_cons.mp isOld with rfl | earlier
              · exact .single edge
              · exact (behind current rfl old earlier).tail edge) noError
          refine ⟨node :: rest, .visit found visits onward, ?_⟩
          rw [actions, actions_after]
          by_cases isAction : node.type = .action
          · simp [(acts_iff visits).mpr isAction, isAction]
          · have passes : decided.acts = false :=
              Bool.eq_false_iff.mpr fun acts => isAction ((acts_iff visits).mp acts)
            simp [passes, isAction]

/-- **A graph without cycles is walked along an itinerary**, whose actions are those returned. -/
theorem exists_itinerary (acyclic : Reach.Acyclic model.adjacency) {trigger : WorkflowNode}
    (only : model.triggers = [trigger]) (noError : (evaluateGraph jsonLogic model context).error = none) :
    ∃ nodes, Itinerary jsonLogic model context (some trigger.id) nodes ∧
      (evaluateGraph jsonLogic model context).actions =
        nodes.filter fun node => node.type = .action := by
  have isKnown : trigger.id ∈ model.nodes.map WorkflowNode.id := by
    have isTrigger : trigger ∈ model.triggers := only ▸ mem_singleton_self trigger
    exact mem_map_of_mem (mem_of_mem_filter isTrigger)
  simp only [evaluateGraph, only, head?_cons, map_some, none_or] at noError ⊢
  split at noError
  · rename_i failed
    rw [noError] at failed
    cases failed
  · rename_i succeeded
    rw [if_neg succeeded]
    obtain ⟨nodes, itinerary, actions⟩ := walk_itinerary acyclic nodup_nil
      (nil_subset _) (by simp) (fun nodeId same => some.inj same ▸ isKnown)
      (fun _ _ _ => nofun) noError
    exact ⟨nodes, itinerary, by simpa using actions⟩

end Walk

end RedArchKM.Workflow
