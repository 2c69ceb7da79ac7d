import RedArchKM.Workflow.Store

/-!
# Agents, their runs and what they leave behind

The rows of the agent tables: the org chart, the runs with their parent links, the questions a
run is blocked on, the approvals it waits for, the notices people get and the diary of a work
order. Ids of runs, questions and approvals are their places in the tables.
-/

namespace RedArchKM.Agents

open Workflow (Json Fields AgentId AgentRunId AgentRunStatus)

abbrev WorkOrderId := Nat

abbrev QuestionId := Nat

abbrev ApprovalId := Nat

abbrev ProfileId := Nat

abbrev ApiKeyId := Nat

inductive AgentKind where
  | coordinator | advisory | operator
deriving DecidableEq

def AgentKind.name : AgentKind → String
  | .coordinator => "coordinator"
  | .advisory => "advisory"
  | .operator => "operator"

/-- What an agent was granted: tools by name, the record flag, the tools that need a person. -/
structure Grants where
  tools : List String := []
  recordsWrite : Bool := false
  approvalRequired : List String := []
deriving DecidableEq

structure Agent where
  id : AgentId
  name : String
  kind : AgentKind := .operator
  enabled : Bool := true
  supervisorId : Option AgentId := none
  grants : Grants := {}
deriving DecidableEq

structure ToolCallRequest where
  id : String
  name : String
  arguments : Fields
deriving Inhabited

/-- Where a parked turn continues. -/
structure Resume where
  messages : List Json := []
  pending : List ToolCallRequest := []
  approved : List String := []
  answers : Fields := []
deriving Inhabited

/-- What a run was created with and what later segments keep on it. -/
structure RunInput where
  task : String := ""
  workflowStep : Bool := false
  escalationHops : Option Nat := none
  continuationProgress : Option Nat := none
  leaseRequeues : Option Nat := none
  resume : Option Resume := none

inductive RunTrigger where
  | manual | workOrder | continuation | schedule | workflow | delegation | escalation | consult
deriving DecidableEq

inductive RunWaitKind where
  | approval | consult | question

structure AgentRun where
  agentId : AgentId
  trigger : RunTrigger
  status : AgentRunStatus := .running
  waitKind : Option RunWaitKind := none
  input : RunInput := {}
  parentRunId : Option AgentRunId := none
  workOrderId : Option WorkOrderId := none
  actorUserId : Option ProfileId := none
  viaApiKey : Bool := false
  apiKeyId : Option ApiKeyId := none
  label : String := ""
  error : Option String := none
  promptTokens : Nat := 0
  completionTokens : Nat := 0
  totalTokens : Nat := 0

inductive ApprovalStatus where
  | pending | approved | denied | voided
deriving DecidableEq

structure AgentApproval where
  runId : AgentRunId
  toolName : String
  arguments : Fields
  status : ApprovalStatus := .pending
  decidedBy : Option ProfileId := none

inductive QuestionStatus where
  | pending | answered | declined | voided
deriving DecidableEq

/-- Who a question is addressed to. -/
inductive Audience where
  | human | agent
deriving DecidableEq

structure AgentQuestion where
  runId : AgentRunId
  toolCallId : String
  askedByAgentId : AgentId
  question : String
  audience : Audience
  targetAgentId : Option AgentId := none
  peerRunId : Option AgentRunId := none
  workOrderId : Option WorkOrderId := none
  context : Option String := none
  status : QuestionStatus := .pending
  answer : Option String := none

structure AgentNotification where
  kind : String
  title : String
  body : String
  runId : Option AgentRunId
  workOrderId : Option WorkOrderId
  recipientRole : Option String

structure WorkOrderEntry where
  workOrderId : WorkOrderId
  agentId : Option AgentId := none
  agentRunId : Option AgentRunId := none
  role : String
  text : String

end RedArchKM.Agents
