import RedArchKM.Agents.Delegation
import RedArchKM.Lib.Ancestry
import RedArchKM.Lib.History

/-!
# How far an escalation climbs

Each escalation queues a run whose input counts the hops before it. Delegations and consults
queue runs whose input does not. So the count of a run is the number of escalations right above
it, up to the first run on its line that no escalation queued (`Counted`), and the limit holds a
line to `maxEscalationHops` escalations exactly as long as no call forgets some of them
(`escalationsBounded_iff`).
-/

namespace RedArchKM.Agents

open List Option

open Workflow (AgentId AgentRunId AgentRunStatus)
open Lib (Moment History)
open Lib.Ancestry (Climb)

/-! ## Lines of runs -/

/-- What a run's place among the others depends on. -/
structure Link where
  trigger : RunTrigger
  parent : Option AgentRunId
  hops : Nat
deriving DecidableEq

def AgentRun.link (run : AgentRun) : Link where
  trigger := run.trigger
  parent := run.parentRunId
  hops := run.input.escalationHops.getD 0

def World.links (world : World) : List Link := world.runs.map AgentRun.link

section

variable (links : List Link) (id : AgentRunId)

def parentOf : Option AgentRunId := links[id]?.bind Link.parent

/-- Whether an escalation queued the run. -/
def escalated : Bool :=
  links[id]?.any fun link => link.trigger = .escalation

/-- The runs from one up to its root, along `parent_run_id`. -/
abbrev Line (line : List AgentRunId) : Prop :=
  Climb (parentOf links) (fun _ => (none : Option Unit)) id line none

end

def escalations (links : List Link) (line : List AgentRunId) : Nat := line.countP (escalated links)

/-! ## Runs of the org -/

/-- What can happen to the runs of an org. -/
inductive Move where
  | delegateTask (run : AgentRunId) (toolCallId : String) (args : Args)
  | escalate (run : AgentRunId) (toolCallId : String) (args : Args)
  | consultPeer (run : AgentRunId) (toolCallId : String) (args : Args)
  /-- A park, an answer, an approval, a lease requeue or an end: the rest of the input stays. -/
  | settle (run : AgentRunId) (status : AgentRunStatus) (resume : Option Resume)
      (leaseRequeues : Option Nat)
  /-- Somebody edits the org chart. -/
  | edit (agents : List Agent)

def World.settle (id : AgentRunId) (status : AgentRunStatus) (resume : Option Resume)
    (leaseRequeues : Option Nat) (world : World) : World :=
  { world with
    runs := world.runs.modify id fun run =>
      { run with status, input := { run.input with resume, leaseRequeues } } }

def perform (world : World) : Move → Option World
  | .delegateTask run toolCallId args =>
    (world.context? run toolCallId).map fun ctx => (delegateTask ctx args world).1
  | .escalate run toolCallId args =>
    (world.context? run toolCallId).map fun ctx => (escalate ctx args world).1
  | .consultPeer run toolCallId args =>
    (world.context? run toolCallId).map fun ctx => (consultPeer ctx args world).1
  | .settle run status resume leaseRequeues => some (world.settle run status resume leaseRequeues)
  | .edit agents => some { world with agents }

def Performs (world : World) (move : Move) (next : World) : Prop := perform world move = some next

/-- A root run: nobody's child, and not an escalation. -/
structure IsRoot (run : AgentRun) : Prop where
  parent : run.parentRunId = none
  trigger : run.trigger ≠ .escalation
  hops : run.input.escalationHops = none

/-- A history of the runs that one root run led to. -/
structure FromRoot (history : History Move World) : Prop where
  start : ∃ agents root, IsRoot root ∧
    History.Steps Performs { now := { agents, runs := [root] } } history

/-! ## What the handlers queue -/

section

variable (ctx : ToolContext)

include ctx

@[simp] theorem runs_diary (text : String) (world : World) :
    (world.diary ctx text).runs = world.runs := by
  unfold World.diary
  split <;> rfl

@[simp] theorem notifications_diary (text : String) (world : World) :
    (world.diary ctx text).notifications = world.notifications := by
  unfold World.diary
  split <;> rfl

@[simp] theorem link_childRun (target : Agent) (trigger : RunTrigger) (input : RunInput)
    (label : String) : (childRun ctx target trigger input label).link =
      ⟨trigger, ctx.runId, input.escalationHops.getD 0⟩ := rfl

theorem links_delegateTask (args : Args) (world : World) :
    (delegateTask ctx args world).1.links = world.links ∨
      (delegateTask ctx args world).1.links = world.links ++ [⟨.delegation, ctx.runId, 0⟩] := by
  unfold delegateTask
  dsimp only
  split
  · exact .inl rfl
  · split
    · exact .inl rfl
    · rename_i next run queued
      unfold delegate at queued
      split at queued
      · cases queued
      · split at queued
        · cases queued
        · cases queued
          simp [World.links]

theorem links_consultPeer (args : Args) (world : World) :
    (consultPeer ctx args world).1.links = world.links ∨
      (consultPeer ctx args world).1.links = world.links ++ [⟨.consult, ctx.runId, 0⟩] := by
  unfold consultPeer
  dsimp only
  split
  · exact .inl rfl
  · split
    · exact .inl rfl
    · rename_i peer runId toolCallId _ _ _ _
      split
      · exact .inl rfl
      · right
        simp [World.links, World.createRun, World.createQuestion, *]
    · exact .inl rfl

end

variable {world : World}

/-- With an enabled supervisor below the limit, an escalation with a reason queues a run. -/
theorem links_escalate_of_handler {ctx : ToolContext} {args : Args} {handler : Agent}
    (reason : (args "reason").isEmpty = false)
    (handled : escalationHandler ctx world = some handler) :
    (escalate ctx args world).1.links =
      world.links ++ [⟨.escalation, ctx.runId, escalationHops ctx world + 1⟩] := by
  simp [escalate, reason, handled, World.links, World.createRun, World.createNotification]

/-- **Without one it queues nothing and tells the admins.** -/
theorem escalate_of_no_handler {ctx : ToolContext} {args : Args}
    (reason : (args "reason").isEmpty = false) (unhandled : escalationHandler ctx world = none) :
    (escalate ctx args world).1.runs = world.runs ∧
      ∃ notice : AgentNotification, notice.recipientRole = some "org_admin" ∧
        (escalate ctx args world).1.notifications = world.notifications ++ [notice] := by
  simp only [escalate, reason, unhandled, Bool.false_eq_true, if_false]
  refine ⟨by simp [World.createNotification],
    escalationNotice ctx (escalationReason ctx world (args "reason")) none, rfl, ?_⟩
  simp [World.createNotification]

theorem links_escalate (ctx : ToolContext) (args : Args) (world : World) :
    (escalate ctx args world).1.links = world.links ∨
      (args "reason").isEmpty = false ∧ (escalationHandler ctx world).isSome ∧
        (escalate ctx args world).1.links =
          world.links ++ [⟨.escalation, ctx.runId, escalationHops ctx world + 1⟩] := by
  cases reason : (args "reason").isEmpty with
  | true => simp [escalate, reason]
  | false =>
    cases handled : escalationHandler ctx world with
    | none => exact .inl (by rw [World.links, (escalate_of_no_handler reason handled).1]; rfl)
    | some handler => exact .inr ⟨rfl, rfl, links_escalate_of_handler reason handled⟩

theorem links_settle (id : AgentRunId) (status : AgentRunStatus) (resume : Option Resume)
    (leaseRequeues : Option Nat) (world : World) :
    (world.settle id status resume leaseRequeues).links = world.links := by
  unfold World.links World.settle
  apply ext_getElem?
  intro i
  simp only [getElem?_map, getElem?_modify]
  cases world.runs[i]? with
  | none => rfl
  | some run => by_cases same : id = i <;> simp [same, AgentRun.link]

/-! ## What a count says -/

/-- How the links grow in one move: by nothing, by a run that starts its count again, or by an
escalation below the limit. -/
inductive Grows (world : World) (move : Move) : List Link → Prop
  | same : Grows world move world.links
  | reset {id : AgentRunId} {link : Link} {trigger : RunTrigger}
      (found : world.links[id]? = some link) (other : trigger ≠ .escalation) :
      Grows world move (world.links ++ [⟨trigger, some id, 0⟩])
  | climb {id : AgentRunId} {link : Link} {toolCallId : String} {args : Args} {ctx : ToolContext}
      (found : world.links[id]? = some link) (call : move = .escalate id toolCallId args)
      (reason : (args "reason").isEmpty = false)
      (context : world.context? id toolCallId = some ctx)
      (able : (supervisor ctx world).any Agent.enabled) (room : link.hops < maxEscalationHops) :
      Grows world move (world.links ++ [⟨.escalation, some id, link.hops + 1⟩])

theorem exists_link_of_context {id : AgentRunId} {toolCallId : String} {ctx : ToolContext}
    (context : world.context? id toolCallId = some ctx) :
    ctx.runId = some id ∧
      ∃ link, world.links[id]? = some link ∧ escalationHops ctx world = link.hops := by
  obtain ⟨run, found, rest⟩ := bind_eq_some_iff.mp context
  obtain ⟨agent, -, isCtx⟩ := bind_eq_some_iff.mp rest
  cases isCtx
  have linkAt : world.links[id]? = some run.link := by
    have inTable : world.runs[id]? = some run := found
    rw [World.links, getElem?_map, inTable]
    rfl
  refine ⟨rfl, run.link, linkAt, ?_⟩
  simp [escalationHops, contextOf, found, AgentRun.link]

theorem isSome_escalationHandler_iff (ctx : ToolContext) (world : World) :
    (escalationHandler ctx world).isSome ↔
      (supervisor ctx world).any Agent.enabled ∧ escalationHops ctx world < maxEscalationHops := by
  unfold escalationHandler
  cases supervisor ctx world with
  | none => simp
  | some agent => simp [filter_some, isSome_ite]

/-- **What one move does to the lines of the org.** -/
theorem Performs.grows {next : World} {move : Move} (performs : Performs world move next) :
    Grows world move next.links := by
  cases move with
  | delegateTask run toolCallId args =>
    obtain ⟨ctx, context, rfl⟩ := map_eq_some_iff.mp performs
    obtain ⟨ofRun, link, found, -⟩ := exists_link_of_context context
    rcases links_delegateTask ctx args world with kept | grown
    · rw [kept]
      exact .same
    · rw [grown, ofRun]
      exact .reset found (by decide)
  | escalate run toolCallId args =>
    obtain ⟨ctx, context, rfl⟩ := map_eq_some_iff.mp performs
    obtain ⟨ofRun, link, found, hops⟩ := exists_link_of_context context
    rcases links_escalate ctx args world with kept | ⟨reason, handled, grown⟩
    · rw [kept]
      exact .same
    · obtain ⟨able, room⟩ := (isSome_escalationHandler_iff ctx world).mp handled
      rw [grown, ofRun, hops]
      exact .climb found rfl reason context able (hops ▸ room)
  | consultPeer run toolCallId args =>
    obtain ⟨ctx, context, rfl⟩ := map_eq_some_iff.mp performs
    obtain ⟨ofRun, link, found, -⟩ := exists_link_of_context context
    rcases links_consultPeer ctx args world with kept | grown
    · rw [kept]
      exact .same
    · rw [grown, ofRun]
      exact .reset found (by decide)
  | settle run status resume leaseRequeues =>
    cases performs
    rw [links_settle]
    exact .same
  | edit agents =>
    cases performs
    exact .same

/-- Parents are older than their children, and a run counts the escalations right above it. -/
structure Counted (links : List Link) : Prop where
  older : ∀ {id parent : AgentRunId}, parentOf links id = some parent → parent < id
  counts : ∀ {id : AgentRunId} {link : Link} {line : List AgentRunId}, links[id]? = some link →
    Line links id line → link.hops = (line.takeWhile (escalated links)).length

section Growth

variable {links : List Link} {child : Link} {id : AgentRunId} {line : List AgentRunId}

theorem parentOf_append (inside : id < links.length) :
    parentOf (links ++ [child]) id = parentOf links id := by
  rw [parentOf, parentOf, getElem?_append_left inside]

theorem escalated_append (inside : id < links.length) :
    escalated (links ++ [child]) id = escalated links id := by
  rw [escalated, escalated, getElem?_append_left inside]

section

variable (counted : Counted links) (inside : id < links.length)
    (isLine : Line (links ++ [child]) id line)

include counted inside isLine

theorem Counted.line_inside : ∀ b ∈ line, b < links.length := by
  refine isLine.forall_mem inside fun b c old _ link => ?_
  rw [parentOf_append old] at link
  exact Nat.lt_trans (counted.older link) old

theorem Counted.line_of_append : Line links id line := by
  have old := counted.line_inside inside isLine
  have moved : Line links id (line.map fun b => b) :=
    isLine.map (fun b => b) (fun value => value) (fun _ _ => rfl)
      fun b visited _ => by simp [parentOf_append (old b visited)]
  simpa using moved

end

theorem Counted.line_of_new (counted : Counted links) {parent : AgentRunId}
    (childOf : child.parent = some parent) (inside : parent < links.length)
    (isLine : Line (links ++ [child]) links.length line) :
    ∃ rest, line = links.length :: rest ∧ Line links parent rest ∧ ∀ b ∈ rest, b < links.length := by
  have up : parentOf (links ++ [child]) links.length = some parent := by
    simp [parentOf, childOf]
  cases isLine with
  | root _ top => rw [up] at top; cases top
  | @up _ b rest _ _ link above =>
    cases up.symm.trans link
    exact ⟨rest, rfl, counted.line_of_append inside above, counted.line_inside inside above⟩

theorem takeWhile_escalated_append (old : ∀ b ∈ line, b < links.length) :
    line.takeWhile (escalated (links ++ [child])) = line.takeWhile (escalated links) := by
  induction line with
  | nil => rfl
  | cons first rest ih =>
    rw [forall_mem_cons] at old
    simp only [takeWhile_cons, escalated_append old.1, ih old.2]

theorem escalations_append (old : ∀ b ∈ line, b < links.length) :
    escalations (links ++ [child]) line = escalations links line := by
  apply countP_congr
  intro b visited
  rw [escalated_append (old b visited)]

/-- **A new run below an old one keeps the counts**, when its own count continues its parent's
or starts again. -/
theorem Counted.append (counted : Counted links) {parent : AgentRunId} {link : Link}
    (childOf : child.parent = some parent) (found : links[parent]? = some link)
    (count : child.hops = if child.trigger = .escalation then link.hops + 1 else 0) :
    Counted (links ++ [child]) := by
  have inside := (List.getElem?_eq_some_iff.mp found).1
  have isNew : ∀ {id : Nat} {old : Link}, (links ++ [child])[id]? = some old →
      id < links.length ∨ id = links.length ∧ old = child := by
    intro id old at_
    by_cases below : id < links.length
    · exact .inl below
    · rw [getElem?_append_right (Nat.not_lt.mp below)] at at_
      obtain ⟨bound, same⟩ := List.getElem?_eq_some_iff.mp at_
      simp only [length_singleton] at bound
      have atEnd : id = links.length := by omega
      subst atEnd
      exact .inr ⟨rfl, by simpa using same.symm⟩
  constructor
  · intro id up link
    cases at_ : (links ++ [child])[id]? with
    | none => simp [parentOf, at_] at link
    | some old =>
      rcases isNew at_ with below | ⟨rfl, rfl⟩
      · rw [parentOf_append below] at link
        exact counted.older link
      · rw [parentOf, at_, bind_some, childOf] at link
        exact some.inj link ▸ inside
  · intro id old line at_ isLine
    rcases isNew at_ with below | ⟨rfl, rfl⟩
    · rw [getElem?_append_left below] at at_
      rw [takeWhile_escalated_append (counted.line_inside below isLine)]
      exact counted.counts at_ (counted.line_of_append below isLine)
    · obtain ⟨rest, rfl, above, older⟩ := counted.line_of_new childOf inside isLine
      have own : escalated (links ++ [old]) links.length = decide (old.trigger = .escalation) := by
        simp [escalated]
      rw [takeWhile_cons, own, count, takeWhile_escalated_append older]
      by_cases climbs : old.trigger = .escalation
      · simp [climbs, counted.counts found above]
      · simp [climbs]

theorem Counted.grows {world : World} {move : Move} {links' : List Link}
    (counted : Counted world.links) (grows : Grows world move links') : Counted links' := by
  cases grows with
  | same => exact counted
  | reset found other => exact counted.append rfl found (by simp [other])
  | climb found => exact counted.append rfl found (by simp)

end Growth

theorem IsRoot.parentOf_eq_none {root : AgentRun} (isRoot : IsRoot root) (id : AgentRunId) :
    parentOf [root.link] id = none := by
  cases id with
  | zero => exact isRoot.parent
  | succ id => rfl

theorem IsRoot.counted {root : AgentRun} (isRoot : IsRoot root) : Counted [root.link] := by
  constructor
  · intro id parent link
    rw [isRoot.parentOf_eq_none] at link
    cases link
  · intro id link line found isLine
    cases id with
    | succ id => cases found
    | zero =>
      cases found
      cases isLine with
      | up _ link _ => rw [isRoot.parentOf_eq_none] at link; cases link
      | root =>
        have other : escalated [root.link] Nat.zero = false := by
          simp [escalated, AgentRun.link, isRoot.trigger]
        rw [takeWhile_cons, other]
        simp [AgentRun.link, isRoot.hops]

theorem le_length_takeWhile_iff {α : Type*} (p : α → Bool) (n : Nat) (list : List α) :
    n ≤ (list.takeWhile p).length ↔ n ≤ list.length ∧ ∀ a ∈ list.take n, p a := by
  induction list generalizing n with
  | nil => simp
  | cons first rest ih =>
    cases n with
    | zero => simp
    | succ n =>
      cases accepted : p first with
      | false => simp [accepted]
      | true => simp [accepted, ih n]

/-! ## The limit -/

/-- **An escalation chain is bounded**: no line ever holds more than `maxEscalationHops`
escalations, and a call that would make it longer queues nothing and tells the admins. -/
structure EscalationsBounded (history : History Move World) : Prop where
  bounded : ∀ world ∈ history.states, ∀ (id : AgentRunId) (line : List AgentRunId),
    id < world.links.length → Line world.links id line →
      escalations world.links line ≤ maxEscalationHops
  asksAPerson : ∀ moment ∈ history.past, ∀ (id : AgentRunId) (toolCallId : String) (args : Args)
    (line : List AgentRunId) (next : World), moment.event = .escalate id toolCallId args →
      perform moment.before moment.event = some next → (args "reason").isEmpty = false →
      Line moment.before.links id line →
      maxEscalationHops ≤ escalations moment.before.links line →
      next.runs = moment.before.runs ∧
        ∃ notice : AgentNotification, notice.recipientRole = some "org_admin" ∧
          next.notifications = moment.before.notifications ++ [notice]

/-- When an agent with an enabled supervisor escalates below `maxEscalationHops` escalations or
more, the nearest runs of its line are all escalations: none of them is forgotten. -/
def Remembered (moment : Moment Move World) : Prop :=
  ∀ (id : AgentRunId) (toolCallId : String) (args : Args) (ctx : ToolContext)
    (line : List AgentRunId), moment.event = .escalate id toolCallId args →
      (args "reason").isEmpty = false → moment.before.context? id toolCallId = some ctx →
      (supervisor ctx moment.before).any Agent.enabled → Line moment.before.links id line →
      maxEscalationHops ≤ escalations moment.before.links line →
      ∀ b ∈ line.take maxEscalationHops, escalated moment.before.links b

theorem Counted.forgets {links : List Link} (counted : Counted links) {id : AgentRunId}
    {link : Link} {line : List AgentRunId} (found : links[id]? = some link)
    (isLine : Line links id line) (atLimit : maxEscalationHops ≤ escalations links line) :
    maxEscalationHops ≤ link.hops ↔ ∀ b ∈ line.take maxEscalationHops, escalated links b := by
  rw [counted.counts found isLine, le_length_takeWhile_iff]
  exact and_iff_right (Nat.le_trans atLimit countP_le_length)

theorem Counted.escalations_of_append {links : List Link} {child : Link} {parent : AgentRunId}
    (counted : Counted links) (childOf : child.parent = some parent)
    (inside : parent < links.length) {id : AgentRunId} {line : List AgentRunId}
    (idInside : id < (links ++ [child]).length) (isLine : Line (links ++ [child]) id line) :
    (id < links.length ∧ Line links id line ∧
        escalations (links ++ [child]) line = escalations links line) ∨
      ∃ rest, Line links parent rest ∧ escalations (links ++ [child]) line =
        escalations links rest + if child.trigger = .escalation then 1 else 0 := by
  by_cases old : id < links.length
  · exact .inl ⟨old, counted.line_of_append old isLine,
      escalations_append (counted.line_inside old isLine)⟩
  · rw [length_append, length_singleton] at idInside
    obtain rfl := Nat.le_antisymm (Nat.le_of_lt_succ idInside) (Nat.not_lt.mp old)
    obtain ⟨rest, rfl, above, older⟩ := counted.line_of_new childOf inside isLine
    have own : escalated (links ++ [child]) links.length = decide (child.trigger = .escalation) := by
      simp [escalated]
    refine .inr ⟨rest, above, ?_⟩
    have kept : escalations (links ++ [child]) rest = escalations links rest :=
      escalations_append older
    rw [← kept, escalations, countP_cons, own]
    simp [escalations]

/-- No line of the org holds more escalations than the limit. -/
def WithinLimit (links : List Link) : Prop :=
  ∀ (id : AgentRunId) (line : List AgentRunId), id < links.length → Line links id line →
    escalations links line ≤ maxEscalationHops

theorem WithinLimit.grows {world : World} {move : Move} {links' : List Link}
    (within : WithinLimit world.links) (counted : Counted world.links)
    (remembered : Remembered ⟨move, world⟩) (grows : Grows world move links') :
    WithinLimit links' := by
  cases grows with
  | same => exact within
  | @reset parent link trigger found other =>
    have inside := (List.getElem?_eq_some_iff.mp found).1
    intro id line idInside isLine
    rcases counted.escalations_of_append rfl inside idInside isLine with
      ⟨old, oldLine, same⟩ | ⟨rest, above, count⟩
    · rw [same]
      exact within id line old oldLine
    · rw [count, if_neg other]
      exact within parent rest inside above
  | @climb parent link toolCallId args ctx found call reason context able room =>
    have inside := (List.getElem?_eq_some_iff.mp found).1
    intro id line idInside isLine
    rcases counted.escalations_of_append rfl inside idInside isLine with
      ⟨old, oldLine, same⟩ | ⟨rest, above, count⟩
    · rw [same]
      exact within id line old oldLine
    · rw [count, if_pos rfl]
      have below : ¬ maxEscalationHops ≤ escalations world.links rest := by
        intro atLimit
        have all := remembered parent toolCallId args ctx rest call reason context able above atLimit
        exact Nat.not_lt.mpr ((counted.forgets found above atLimit).mpr all) room
      exact Nat.lt_of_not_le below

theorem IsRoot.withinLimit {root : AgentRun} (isRoot : IsRoot root) : WithinLimit [root.link] := by
  intro id line inside isLine
  cases isLine with
  | up _ link _ => rw [isRoot.parentOf_eq_none] at link; cases link
  | root =>
    have single : escalations [root.link] [id] ≤ 1 := countP_le_length
    exact Nat.le_trans single (by decide)

theorem FromRoot.counted {history : History Move World} (fromRoot : FromRoot history) :
    ∀ world ∈ history.states, Counted world.links := by
  obtain ⟨agents, root, isRoot, steps⟩ := fromRoot.start
  refine steps.invariant (fun _ => True) (fun world move next performs _ counted =>
    counted.grows (Performs.grows performs)) (fun _ _ => trivial) ?_
  intro world start
  obtain rfl := mem_singleton.mp start
  exact isRoot.counted

theorem FromRoot.withinLimit {history : History Move World} (fromRoot : FromRoot history)
    (remembered : ∀ moment ∈ history.past, Remembered moment) :
    ∀ world ∈ history.states, WithinLimit world.links := by
  obtain ⟨agents, root, isRoot, steps⟩ := fromRoot.start
  have both := steps.invariant Remembered
    (P := fun world => Counted world.links ∧ WithinLimit world.links)
    (fun world move next performs allowed holds =>
      ⟨holds.1.grows (Performs.grows performs),
        holds.2.grows holds.1 allowed (Performs.grows performs)⟩) remembered ?_
  · exact fun world member => (both world member).2
  · intro world start
    obtain rfl := mem_singleton.mp start
    exact ⟨isRoot.counted, isRoot.withinLimit⟩

/-- **Escalation chains are bounded exactly as long as no call forgets an escalation.** -/
theorem escalationsBounded_iff (history : History Move World) (fromRoot : FromRoot history) :
    EscalationsBounded history ↔ ∀ moment ∈ history.past, Remembered moment := by
  have counted : ∀ moment ∈ history.past, Counted moment.before.links := fun moment member =>
    fromRoot.counted _ (History.before_mem_states member)
  constructor
  · intro bounded moment member id toolCallId args ctx line call reason context able isLine atLimit
    obtain ⟨ofRun, link, found, hops⟩ := exists_link_of_context context
    rw [← (counted moment member).forgets found isLine atLimit]
    apply Nat.not_lt.mp
    intro room
    have handled := (isSome_escalationHandler_iff ctx moment.before).mpr ⟨able, hops ▸ room⟩
    obtain ⟨handler, isHandler⟩ := isSome_iff_exists.mp handled
    have performed : perform moment.before moment.event =
        some (escalate ctx args moment.before).1 := by
      rw [call, perform, context, map_some]
    have kept := (bounded.asksAPerson moment member id toolCallId args line _ call performed reason
      isLine atLimit).1
    have grown := links_escalate_of_handler reason isHandler
    rw [World.links, kept] at grown
    exact absurd (congrArg List.length grown) (by simp [World.links])
  · intro remembered
    refine ⟨fromRoot.withinLimit remembered, ?_⟩
    intro moment member id toolCallId args line next call performed reason isLine atLimit
    rw [call] at performed
    obtain ⟨ctx, context, rfl⟩ := map_eq_some_iff.mp performed
    obtain ⟨ofRun, link, found, hops⟩ := exists_link_of_context context
    have unhandled : escalationHandler ctx moment.before = none := by
      rw [← not_isSome_iff_eq_none, isSome_escalationHandler_iff]
      rintro ⟨able, room⟩
      have all := remembered moment member id toolCallId args ctx line call reason context able
        isLine atLimit
      have enough := ((counted moment member).forgets found isLine atLimit).mpr all
      omega
    exact escalate_of_no_handler reason unhandled

/-! ## A supervisor and a report -/

def pairChart : List Agent :=
  [{ id := 0, name := "boss", kind := .coordinator },
    { id := 1, name := "worker", supervisorId := some 0 }]

/-- A run of the worker that somebody started by hand. -/
def pairStart : History Move World where
  now := { agents := pairChart, runs := [{ agentId := 1, trigger := .manual }] }

def pairArgs : Args
  | "agent" => "worker"
  | "task" => "Try again."
  | "reason" => "No access."
  | _ => ""

/-- The worker escalates, the boss delegates back, and so on. -/
def pairMoves : List Move :=
  [.escalate 0 "c" pairArgs, .delegateTask 1 "c" pairArgs, .escalate 2 "c" pairArgs,
    .delegateTask 3 "c" pairArgs, .escalate 4 "c" pairArgs, .delegateTask 5 "c" pairArgs,
    .escalate 6 "c" pairArgs, .delegateTask 7 "c" pairArgs, .escalate 8 "c" pairArgs]

theorem fromRoot_pair {moves : List Move} {history : History Move World}
    (played : History.play perform pairStart moves = some history) : FromRoot history :=
  ⟨pairChart, _, ⟨rfl, by decide, rfl⟩, History.steps_of_play played⟩

/-- **One escalation of the worker**, far below the limit. -/
theorem escalationsBounded_pair :
    ∃ history, History.play perform pairStart (pairMoves.take 1) = some history ∧
      EscalationsBounded history := by
  obtain ⟨history, played⟩ : ∃ history, History.play perform pairStart (pairMoves.take 1) = some history :=
    ⟨_, rfl⟩
  refine ⟨history, played, (escalationsBounded_iff history (fromRoot_pair played)).mpr ?_⟩
  cases played
  intro moment member id toolCallId args ctx line call reason context able isLine atLimit
  obtain rfl := mem_singleton.mp member
  have none_yet : escalations pairStart.now.links line = 0 := by
    apply countP_eq_zero.mpr
    intro b _
    match b with
    | 0 => decide
    | b + 1 => exact Bool.false_ne_true
  exact absurd (none_yet ▸ atLimit) (by decide)

/-- **Five escalations on one line**: each delegation starts the count again. -/
theorem not_escalationsBounded_pair :
    ∃ history, History.play perform pairStart pairMoves = some history ∧ FromRoot history ∧
      ¬ EscalationsBounded history := by
  have links : (History.play perform pairStart pairMoves).map (fun history => history.now.links) = some
      [⟨.manual, none, 0⟩, ⟨.escalation, some 0, 1⟩, ⟨.delegation, some 1, 0⟩,
        ⟨.escalation, some 2, 1⟩, ⟨.delegation, some 3, 0⟩, ⟨.escalation, some 4, 1⟩,
        ⟨.delegation, some 5, 0⟩, ⟨.escalation, some 6, 1⟩, ⟨.delegation, some 7, 0⟩,
        ⟨.escalation, some 8, 1⟩] := by decide
  obtain ⟨history, played, linksAre⟩ := map_eq_some_iff.mp links
  refine ⟨history, played, fromRoot_pair played, fun bounded => ?_⟩
  have isLine : Line history.now.links 9 [9, 8, 7, 6, 5, 4, 3, 2, 1, 0] := by
    rw [linksAre]
    iterate 9 refine .up rfl (by rfl) ?_
    exact .root rfl rfl
  have within := bounded.bounded _ history.now_mem_states 9 _ (by rw [linksAre]; decide) isLine
  rw [linksAre] at within
  exact absurd within (by decide)

end RedArchKM.Agents
