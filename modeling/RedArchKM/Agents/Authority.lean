import RedArchKM.Agents.Records

/-!
# Who may call which tool

A call of a tool is denied, needs a person or goes through. The agent's kind, the posture of
the run and the agent's grants decide, in this order.
-/

namespace RedArchKM.Agents

/-- The governance categories of tools. -/
inductive Category where
  | read | write | execute | delegate | escalate | plan
deriving DecidableEq

def Category.name : Category → String
  | .read => "read"
  | .write => "write"
  | .execute => "execute"
  | .delegate => "delegate"
  | .escalate => "escalate"
  | .plan => "plan"

structure ToolSpec where
  name : String
  category : Category
  sideEffecting : Bool := false
  alwaysAllowed : Bool := false
  alwaysAsk : Bool := false
  terminal : Bool := false

inductive Decision where
  | allow | ask | deny
deriving DecidableEq

structure AuthorityVerdict where
  decision : Decision
  reason : String := ""

/-- The posture of a run: the org's autonomy, or what its work order says. -/
inductive Posture where
  | highTouch | balanced | handsOff | planOnly | automatic
deriving DecidableEq

inductive WorkOrderMode where
  | plan | manual | automatic

def allowedCategories : AgentKind → List Category
  | .coordinator => [.read, .plan, .delegate, .escalate]
  | .advisory => [.read, .plan, .escalate]
  | .operator => [.read, .write, .execute, .delegate, .escalate, .plan]

def kindGate (kind : AgentKind) (spec : ToolSpec) : Option String :=
  if spec.category ∈ allowedCategories kind then none
  else some s!"role '{kind.name}' may not use {spec.category.name} tools"

/-- What a plan-only run may still do. -/
def planOnlyCategories : List Category := [.read, .plan, .delegate, .escalate]

def roleProvided : List Category := [.delegate, .escalate, .plan]

/-- The characters before the last `__`; all of them without one. -/
def beforeLastSeparator (name : List Char) : List Char :=
  match cut name.reverse with
  | none => name
  | some rest => rest.reverse
where
  /-- What follows the first `__` of the reversed name. -/
  cut : List Char → Option (List Char)
    | '_' :: '_' :: rest => some rest
    | _ :: rest => cut rest
    | [] => none

/-- Whether the grants cover the tool: its name, or a wildcard of its MCP server. -/
def granted (allowed : List String) (name : String) : Bool :=
  allowed.contains name ||
    ("mcp__".toList.isPrefixOf name.toList &&
      (allowed.contains (String.ofList (beforeLastSeparator name.toList ++ "__*".toList)) ||
        allowed.contains "mcp__*"))

def isAvailable (agent : Agent) (spec : ToolSpec) : Bool :=
  if spec.alwaysAllowed then true
  else if spec.category ∈ roleProvided then true
  else if spec.category = .write then
    granted agent.grants.tools spec.name && agent.grants.recordsWrite
  else granted agent.grants.tools spec.name

/-- Whether the agent may invoke the tool. -/
def decideCall (agent : Agent) (spec : ToolSpec) (autonomy : Posture) : AuthorityVerdict :=
  match kindGate agent.kind spec with
  | some denial => ⟨.deny, denial⟩
  | none =>
    if autonomy = .planOnly && (spec.category ∉ planOnlyCategories || spec.sideEffecting) then
      ⟨.deny, s!"'{spec.name}' is unavailable while this work order is in plan mode. " ++
        "Finish your research and call submit_plan — the person approving that " ++
        "plan is what lets the work start."⟩
    else if !isAvailable agent spec then
      ⟨.deny, s!"'{spec.name}' is not granted to this agent"⟩
    else if spec.alwaysAsk then ⟨.ask, "a person decides this one"⟩
    else if autonomy = .automatic then ⟨.allow, ""⟩
    else if agent.grants.approvalRequired.contains spec.name then
      ⟨.ask, "requires human approval"⟩
    else if autonomy = .highTouch && spec.sideEffecting then
      ⟨.ask, "high-touch: external action requires human approval"⟩
    else ⟨.allow, ""⟩

/-- The posture a run executes under: the work order's mode wins where it has one. -/
def postureFor (mode : Option WorkOrderMode) (orgPosture : Posture) : Posture :=
  match mode with
  | some .plan => .planOnly
  | some .automatic => .automatic
  | _ => orgPosture

/-- A tool that changes something: it writes, executes or acts outside the company. -/
def ToolSpec.acts (spec : ToolSpec) : Bool :=
  spec.category = .write || spec.category = .execute || spec.sideEffecting

/-- **A plan-only run may not act.** -/
theorem decideCall_planOnly {agent : Agent} {spec : ToolSpec} (acts : spec.acts) :
    (decideCall agent spec .planOnly).decision = .deny := by
  have barred : spec.category ∉ planOnlyCategories ∨ spec.sideEffecting = true := by
    unfold ToolSpec.acts at acts
    simp only [Bool.or_eq_true, decide_eq_true_eq] at acts
    rcases acts with (write | execute) | sideEffecting
    · exact .inl (by rw [write]; decide)
    · exact .inl (by rw [execute]; decide)
    · exact .inr sideEffecting
  unfold decideCall
  cases kindGate agent.kind spec with
  | some denial => rfl
  | none =>
    rw [if_pos (by simpa using barred)]

end RedArchKM.Agents
