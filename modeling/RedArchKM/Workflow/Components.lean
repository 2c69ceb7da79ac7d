import Mathlib.Algebra.GroupWithZero.Nat
import Mathlib.Order.MinMax
import RedArchKM.Workflow.Definition

/-!
# The strongly connected components of a workflow

The validator looks for loops with a depth-first search that keeps its own work list. A frame of
the work list is a node with the number of its edges followed so far, and it owns a piece of the
stack: the node, and above it what has been finished since but could not be taken off (`Frames`).
The low-link of what a frame owns is the index of a node on the stack that is reached from there,
and no edge from there leads below it, so a piece is a component when its low-link is its own
index.
-/

namespace RedArchKM.Workflow.Components

open Lib.Reach List Function Option

structure Search where
  indexOf : NodeId → Option Nat := fun _ => none
  low : NodeId → Nat := fun _ => 0
  onStack : List NodeId := []
  stack : List NodeId := []
  sccs : List (List NodeId) := []
  counter : Nat := 0
  work : List (NodeId × Nat) := []

namespace Search

variable (search : Search) (node : NodeId)

/-- The node is met for the first time. -/
def enter : Search :=
  { search with
    indexOf := update search.indexOf node (some search.counter)
    low := update search.low node search.counter
    counter := search.counter + 1
    stack := node :: search.stack
    onStack := node :: search.onStack }

def lower (value : Nat) : Search :=
  { search with low := update search.low node (min (search.low node) value) }

end Search

def popTo (node : NodeId) : List NodeId → Option (List NodeId × List NodeId)
  | [] => none
  | top :: stack =>
    if top = node then some ([top], stack)
    else (popTo node stack).map fun popped => (top :: popped.1, popped.2)

variable (edges : List (NodeId × NodeId))

namespace Search

def pop (search : Search) (component stack : List NodeId) : Search :=
  { search with
    stack
    onStack := search.onStack.filter fun other => other ∉ component
    sccs := search.sccs ++ [component] }

def emit (search : Search) (node : NodeId) : Option Search :=
  if search.indexOf node = some (search.low node) then
    (popTo node search.stack).map fun popped => search.pop popped.1 popped.2
  else some search

/-- Follow the next edge of the top frame, or leave its node. -/
def advance (search : Search) (node : NodeId) (childIdx : Nat) (work : List (NodeId × Nat)) :
    Option Search :=
  match (successors edges node)[childIdx]? with
  | some next =>
    let search := { search with work := (node, childIdx + 1) :: work }
    match search.indexOf next with
    | none => some { search with work := (next, 0) :: search.work }
    | some index => some (if next ∈ search.onStack then search.lower node index else search)
  | none =>
    (search.emit node).map fun search =>
      match work with
      | [] => { search with work }
      | (parent, _) :: _ => { search with work }.lower parent (search.low node)

/-- The loop over the work list. -/
def explore : Nat → Search → Option Search
  | 0, _ => none
  | fuel + 1, search =>
    match search.work with
    | [] => some search
    | (node, childIdx) :: work =>
      ((if childIdx = 0 then search.enter node else search).advance edges node childIdx work).bind
        (explore fuel)

def visit (fuel : Nat) (search : Search) (root : NodeId) : Option Search :=
  if (search.indexOf root).isSome then some search
  else explore edges fuel { search with work := [(root, 0)] }

end Search

/-- More turns than the loop takes from any root. -/
def turns (nodeCount edgeCount : Nat) : Nat := nodeCount * (edgeCount + 2) + 1

/-- `_strongly_connected`, unless it raises or its turns run out. -/
def stronglyConnected (model : WorkflowDefinitionModel) : Option (List (List NodeId)) :=
  ((model.nodes.map WorkflowNode.id).foldlM (Search.visit model.adjacency
    (turns model.nodes.length model.edges.length)) {}).map Search.sccs

/-- A partition of the nodes by mutual reachability. -/
structure IsPartition (model : WorkflowDefinitionModel) (components : List (List NodeId)) :
    Prop where
  nonempty : [] ∉ components
  nodup : components.flatten.Nodup
  covers : ∀ node, node ∈ components.flatten ↔ node ∈ model.nodes.map WorkflowNode.id
  shares : ∀ node ∈ model.nodes.map WorkflowNode.id, ∀ other,
    (∃ component ∈ components, node ∈ component ∧ other ∈ component) ↔
      Reaches model.adjacency node other ∧ Reaches model.adjacency other node

/-! ## Frames -/

section Frames

variable (index low : NodeId → Nat) (closed : List NodeId)

/-- What holds of an edge from what a node owns once it is followed. -/
def Followed (stack : List NodeId) (node next : NodeId) : Prop :=
  next ∈ closed ∨ next ∈ stack ∧ low node ≤ index next

/-- The frame of a node that waits for a child, if any, with the finished nodes it owns. -/
structure Frame (child : Option NodeId) (node : NodeId) (childIdx : Nat)
    (owned stack : List NodeId) : Prop where
  waits : ∀ next, child = some next → next ∈ (successors edges node).take childIdx
  followed : ∀ next ∈ (successors edges node).take childIdx,
    child = some next ∨ Followed index low closed stack node next
  leads : ∀ other ∈ owned, ∀ next, Edge edges other next →
    Followed index low closed stack node next
  joined : ∀ other ∈ owned, Reaches edges node other ∧ Reaches edges other node
  low_le : low node ≤ index node
  target : ∃ target ∈ stack, index target = low node ∧ Reaches edges node target

/-- The frames of a work list and the stack they own. Each waits for the one above it. -/
inductive Frames : Option NodeId → List (NodeId × Nat) → List NodeId → Prop where
  | nil {child : Option NodeId} : Frames child [] []
  | cons {child : Option NodeId} {node : NodeId} {childIdx : Nat} {work : List (NodeId × Nat)}
      {owned below : List NodeId} (frames : Frames (some node) work below)
      (frame : Frame edges index low closed child node childIdx owned (owned ++ node :: below)) :
      Frames child ((node, childIdx) :: work) (owned ++ node :: below)

end Frames

section

variable {edges} {index index' low low' : NodeId → Nat} {child : Option NodeId}
  {closed closed' stack stack' owned below : List NodeId} {node next : NodeId} {childIdx : Nat}
  {work : List (NodeId × Nat)}

theorem mem_frame {other : NodeId} :
    other ∈ owned ++ node :: below ↔ other ∈ owned ∨ other = node ∨ other ∈ below := by
  rw [mem_append, mem_cons]

theorem node_mem : node ∈ owned ++ node :: below := mem_frame.mpr (.inr (.inl rfl))

theorem Frame.congr (frame : Frame edges index low closed child node childIdx owned stack)
    (sameIndex : ∀ other ∈ stack, index' other = index other) (sameLow : low' node = low node)
    (more : closed ⊆ closed') (isOn : node ∈ stack) (larger : stack ⊆ stack') :
    Frame edges index' low' closed' child node childIdx owned stack' := by
  have follows : ∀ next, Followed index low closed stack node next →
      Followed index' low' closed' stack' node next := by
    rintro next (isClosed | ⟨onStack, le⟩)
    · exact .inl (more isClosed)
    · exact .inr ⟨larger onStack, by rwa [sameLow, sameIndex next onStack]⟩
  obtain ⟨target, isTarget, isLow, path⟩ := frame.target
  exact ⟨frame.waits, fun next member => (frame.followed next member).imp_right (follows next),
    fun other member next edge => follows next (frame.leads other member next edge), frame.joined,
    by rw [sameLow, sameIndex node isOn]; exact frame.low_le,
    target, larger isTarget, by rw [sameIndex _ isTarget, isLow, sameLow], path⟩

theorem Frames.congr (frames : Frames edges index low closed child work stack)
    (sameIndex : ∀ other ∈ stack, index' other = index other)
    (sameLow : ∀ other ∈ stack, low' other = low other) (more : closed ⊆ closed') :
    Frames edges index' low' closed' child work stack := by
  induction frames with
  | nil => exact .nil
  | cons _ frame ih =>
    refine .cons (ih (fun other member => sameIndex other ?_) fun other member => sameLow other ?_)
      (frame.congr sameIndex (sameLow _ node_mem) more node_mem (Subset.refl _))
    · exact mem_frame.mpr (.inr (.inr member))
    · exact mem_frame.mpr (.inr (.inr member))

section

variable (frames : Frames edges index low closed (some next) work stack)

include frames

theorem Frames.settle (isClosed : next ∈ closed') (more : closed ⊆ closed') :
    Frames edges index low closed' none work stack := by
  have kept := frames.congr (fun _ _ => rfl) (fun _ _ => rfl) more
  cases kept with
  | nil => exact .nil
  | cons kept frame =>
    refine .cons kept { frame with waits := nofun, followed := fun other member => .inr ?_ }
    rcases frame.followed other member with isChild | followed
    · exact .inl (some.inj isChild ▸ isClosed)
    · exact followed

theorem Frames.entered : ∀ frame ∈ work.head?, frame.2 ≠ 0 := by
  rintro ⟨node, childIdx⟩ isTop rfl
  cases frames with
  | nil => cases isTop
  | cons _ frame =>
    cases isTop
    cases frame.waits next rfl

theorem Frames.reaches : ∀ other ∈ stack, Reaches edges other next := by
  generalize isChild : some next = child at frames
  induction frames generalizing next with
  | nil => nofun
  | cons _ frame ih =>
    intro other member
    have edge := mem_successors.mp (mem_of_mem_take (frame.waits next isChild.symm))
    rcases mem_frame.mp member with isOwned | rfl | isBelow
    · exact (frame.joined other isOwned).2.tail edge
    · exact .single edge
    · exact (ih rfl other isBelow).tail edge

end

theorem Frame.lower {value : Nat}
    (frame : Frame edges index low closed child node childIdx owned stack)
    (reaches : ∃ target ∈ stack, index target = value ∧ Reaches edges node target) :
    Frame edges index (update low node (min (low node) value)) closed child node childIdx
      owned stack := by
  have isLow : update low node (min (low node) value) node = min (low node) value :=
    update_self ..
  have follows : ∀ next, Followed index low closed stack node next →
      Followed index (update low node (min (low node) value)) closed stack node next :=
    fun next => Or.imp_right fun ⟨onStack, le⟩ =>
      ⟨onStack, isLow.trans_le (min_le_of_left_le le)⟩
  refine ⟨frame.waits, fun next member => (frame.followed next member).imp_right (follows next),
    fun other member next edge => follows next (frame.leads other member next edge), frame.joined,
    isLow.trans_le (min_le_of_left_le frame.low_le), ?_⟩
  rw [isLow]
  rcases min_choice (low node) value with isOld | isNew
  · rw [isOld]
    exact frame.target
  · rwa [isNew]

section

variable (frame : Frame edges index low closed none node childIdx owned stack)

include frame

theorem Frame.follow (isNext : (successors edges node)[childIdx]? = some next)
    (waits : ∀ other, child = some other → other = next)
    (followed : child = some next ∨ Followed index low closed stack node next) :
    Frame edges index low closed child node (childIdx + 1) owned stack := by
  have oneMore : (successors edges node).take (childIdx + 1) =
      (successors edges node).take childIdx ++ [next] := by
    rw [take_add_one, isNext]
    rfl
  refine { frame with waits := fun other isChild => ?_, followed := fun other member => ?_ }
  · rw [oneMore, waits other isChild]
    exact mem_append_right _ (mem_singleton_self next)
  · rw [oneMore] at member
    rcases mem_append.mp member with old | new
    · exact .inr ((frame.followed other old).resolve_left nofun)
    · obtain rfl := mem_singleton.mp new
      exact followed

variable (all : (successors edges node).length ≤ childIdx)

include all

theorem Frame.closes {other : NodeId} (member : other ∈ owned ++ [node])
    (edge : Edge edges other next) : Followed index low closed stack node next := by
  rcases mem_append.mp member with isOwned | new
  · exact frame.leads other isOwned next edge
  · obtain rfl := mem_singleton.mp new
    refine (frame.followed next ?_).resolve_left nofun
    rw [take_of_length_le all]
    exact mem_successors.mpr edge

theorem Frame.joins {other : NodeId} (member : other ∈ owned ++ [node]) :
    Reaches edges node other ∧ Reaches edges other node := by
  rcases mem_append.mp member with isOwned | new
  · exact frame.joined other isOwned
  · obtain rfl := mem_singleton.mp new
    exact ⟨.refl, .refl⟩

theorem Frame.absorb {parent : NodeId} {parentIdx : Nat} {owned' : List NodeId}
    (above : Frame edges index low closed (some node) parent parentIdx owned' stack)
    (onStack : node ∈ stack) (le : low parent ≤ low node) (back : Reaches edges node parent) :
    Frame edges index low closed none parent parentIdx (owned ++ node :: owned') stack := by
  have follows : ∀ next, Followed index low closed stack node next →
      Followed index low closed stack parent next :=
    fun next => Or.imp_right fun ⟨onStack, isLow⟩ => ⟨onStack, le.trans isLow⟩
  have edge : Edge edges parent node :=
    mem_successors.mp (mem_of_mem_take (above.waits node rfl))
  refine ⟨nofun, fun next member => .inr ?_, fun other member next out => ?_, fun other member => ?_,
    above.low_le, above.target⟩
  · rcases above.followed next member with isNode | followed
    · cases isNode
      exact .inr ⟨onStack, le.trans frame.low_le⟩
    · exact followed
  · rw [append_cons] at member
    rcases mem_append.mp member with mine | isOwned
    · exact follows next (frame.closes all mine out)
    · exact above.leads other isOwned next out
  · rw [append_cons] at member
    rcases mem_append.mp member with mine | isOwned
    · obtain ⟨forth, home⟩ := frame.joins all mine
      exact ⟨forth.head edge, home.trans back⟩
    · exact above.joined other isOwned

end

end

/-! ## The invariant -/

namespace Search

def index (search : Search) (node : NodeId) : Nat := (search.indexOf node).getD 0

def met (search : Search) : List NodeId := search.sccs.flatten ++ search.stack

/-- The search with the frames of the work list entered, the last of which waits for the child. -/
structure Inv (nodes : List NodeId) (search : Search) (child : Option NodeId)
    (work : List (NodeId × Nat)) : Prop where
  frames : Frames edges search.index search.low search.sccs.flatten child work search.stack
  sorted : search.stack.Pairwise fun upper lower => search.index lower < search.index upper
  fresh : ∀ node ∈ search.stack, search.index node < search.counter
  isMet : ∀ node, (search.indexOf node).isSome ↔ node ∈ search.met
  onStack : ∀ node, node ∈ search.onStack ↔ node ∈ search.stack
  nodup : search.met.Nodup
  inside : search.met ⊆ nodes
  closed : ∀ node ∈ search.sccs.flatten, ∀ next, Edge edges node next → next ∈ search.sccs.flatten
  nonempty : [] ∉ search.sccs
  components : ∀ component ∈ search.sccs, ∀ node ∈ component, ∀ other,
    other ∈ component ↔ Reaches edges node other ∧ Reaches edges other node

/-- The frame on top, with the stack above and below its node. -/
structure Top (search : Search) (child : Option NodeId) (node : NodeId) (childIdx : Nat)
    (work : List (NodeId × Nat)) (owned below : List NodeId) : Prop where
  isStack : search.stack = owned ++ node :: below
  frames : Frames edges search.index search.low search.sccs.flatten (some node) work below
  frame : Frame edges search.index search.low search.sccs.flatten child node childIdx owned
    search.stack
  apart : node ∉ owned ++ below
  above : ∀ other ∈ owned, search.index node < search.index other
  beneath : ∀ other ∈ below, search.index other < search.index node

variable {edges} {nodes : List NodeId} {search : Search} {child : Option NodeId}
  {node next : NodeId} {childIdx : Nat} {work : List (NodeId × Nat)}

theorem Inv.indexOf_eq (inv : Inv edges nodes search child work) (member : node ∈ search.stack) :
    search.indexOf node = some (search.index node) := by
  obtain ⟨index, isIndex⟩ := isSome_iff_exists.mp ((inv.isMet node).mpr (mem_append_right _ member))
  rw [Search.index, isIndex]
  rfl

theorem met_enter (search : Search) : search.met ⊆ (search.enter node).met := fun _ member =>
  mem_append.mpr ((mem_append.mp member).imp_right (mem_cons_of_mem _))

theorem Inv.enter (inv : Inv edges nodes search (some node) work)
    (unmet : search.indexOf node = none) (known : node ∈ nodes) :
    Inv edges nodes (search.enter node) none ((node, 0) :: work) := by
  have isNew : node ∉ search.met := fun isMet => by
    have isSome := (inv.isMet node).mpr isMet
    rw [unmet] at isSome
    cases isSome
  have same : ∀ {other}, other ≠ node →
      (search.enter node).indexOf other = search.indexOf other := (update_of_ne · ..)
  have apart : ∀ other ∈ search.stack, other ≠ node := by
    rintro other member rfl
    exact isNew (mem_append_right _ member)
  have sameIndex : ∀ other ∈ search.stack, (search.enter node).index other = search.index other :=
    fun other member => by rw [index, same (apart other member), index]
  have isIndex : (search.enter node).index node = search.counter := by
    have isSome : (search.enter node).indexOf node = some search.counter := update_self ..
    rw [index, isSome]
    rfl
  have isLow : (search.enter node).low node = search.counter := update_self ..
  refine ⟨?_, pairwise_cons.mpr ⟨fun other member => ?_, ?_⟩, ?_, fun other => ?_,
    fun other => ?_, ?_, ?_, inv.closed, inv.nonempty, inv.components⟩
  · exact @Frames.cons _ _ _ _ none node 0 work [] _ (inv.frames.congr sameIndex
      (fun other member => update_of_ne (apart other member) ..) (Subset.refl _))
      ⟨nofun, nofun, nofun, nofun, (isLow.trans isIndex.symm).le, node, mem_cons_self,
        isIndex.trans isLow.symm, .refl⟩
  · rw [isIndex, sameIndex other member]
    exact inv.fresh other member
  · refine inv.sorted.imp_of_mem fun upper lower less => ?_
    rwa [sameIndex _ upper, sameIndex _ lower]
  · intro other member
    rcases mem_cons.mp member with rfl | old
    · exact isIndex.trans_lt (Nat.lt_succ_self _)
    · rw [sameIndex other old]
      exact (inv.fresh other old).trans (Nat.lt_succ_self _)
  · by_cases isNode : other = node
    · simp [isNode, met, Search.enter]
    · rw [same isNode, inv.isMet other]
      simp [met, Search.enter, isNode]
  · exact (mem_cons.trans (or_congr_right (inv.onStack other))).trans mem_cons.symm
  · exact nodup_middle.mpr (nodup_cons.mpr ⟨isNew, inv.nodup⟩)
  · intro other member
    rcases mem_frame.mp member with old | rfl | old
    · exact inv.inside (mem_append_left _ old)
    · exact known
    · exact inv.inside (mem_append_right _ old)

theorem popTo_eq {owned below : List NodeId} (apart : node ∉ owned) :
    popTo node (owned ++ node :: below) = some (owned ++ [node], below) := by
  induction owned with
  | nil => exact if_pos rfl
  | cons top owned ih =>
    obtain ⟨different, apart⟩ := not_or.mp (mt mem_cons.mpr apart)
    rw [cons_append, popTo, if_neg (Ne.symm different), ih apart]
    rfl

theorem Inv.top (inv : Inv edges nodes search child ((node, childIdx) :: work)) :
    ∃ owned below, Top edges search child node childIdx work owned below := by
  have sorted := inv.sorted
  have nodup := (nodup_append.mp inv.nodup).2.1
  obtain ⟨stack, isStack⟩ : ∃ stack, search.stack = stack := ⟨_, rfl⟩
  have frames := inv.frames
  rw [isStack] at sorted nodup frames
  cases frames with
  | cons frames frame =>
    obtain ⟨-, isSorted, above⟩ := pairwise_append.mp sorted
    exact ⟨_, _, isStack, frames, isStack ▸ frame,
      (nodup_cons.mp (nodup_middle.mp nodup)).1,
      fun other member => above other member node mem_cons_self,
      (pairwise_cons.mp isSorted).1⟩

section

variable {owned below : List NodeId}
  (inv : Inv edges nodes search none ((node, childIdx) :: work))
  (top : Top edges search none node childIdx work owned below)
  (all : (successors edges node).length ≤ childIdx)

include inv top all

theorem Inv.component (root : search.low node = search.index node) {other : NodeId}
    (member : other ∈ owned ++ [node]) (next : NodeId) :
    (Edge edges other next → next ∈ search.sccs.flatten ∨ next ∈ owned ++ [node]) ∧
      (next ∈ owned ++ [node] ↔ Reaches edges other next ∧ Reaches edges next other) := by
  have leads : ∀ {other next}, other ∈ owned ++ [node] → Edge edges other next →
      next ∈ search.sccs.flatten ∨ next ∈ owned ++ [node] := by
    intro other next member edge
    refine (top.frame.closes all member edge).imp_right fun ⟨isOn, le⟩ => ?_
    rw [top.isStack, append_cons] at isOn
    exact (mem_append.mp isOn).resolve_right fun isBelow =>
      (root ▸ le).not_gt (top.beneath next isBelow)
  obtain ⟨forth, back⟩ := top.frame.joins all member
  refine ⟨leads member, fun isNext => ?_, ?_⟩
  · obtain ⟨forth', back'⟩ := top.frame.joins all isNext
    exact ⟨back.trans forth', back'.trans forth⟩
  · rintro ⟨path, backward⟩
    have ends : next ∈ search.sccs.flatten ∨ next ∈ owned ++ [node] := by
      clear backward
      induction path with
      | refl => exact .inr member
      | tail _ edge ih => exact ih.elim (fun isClosed => .inl (inv.closed _ isClosed _ edge)) (leads · edge)
    refine ends.resolve_left fun isClosed => ?_
    have stays : other ∈ search.sccs.flatten := by
      clear path ends member forth back
      induction backward with
      | refl => exact isClosed
      | tail _ edge ih => exact inv.closed _ ih _ edge
    refine (nodup_append.mp inv.nodup).2.2 _ stays _ ?_ rfl
    rw [top.isStack, append_cons]
    exact mem_append_left _ member

theorem Inv.leave_root (root : search.low node = search.index node) :
    ∃ search', search.advance edges node childIdx work = some search' ∧
      search'.work = work ∧ search'.met = search.met ∧ Inv edges nodes search' none work := by
  have isRoot : node ∈ owned ++ [node] := mem_append_right _ (mem_singleton_self node)
  have flat : (search.sccs ++ [owned ++ [node]]).flatten =
      search.sccs.flatten ++ (owned ++ [node]) := by simp
  have isStack : search.stack = owned ++ [node] ++ below := by rw [top.isStack, append_cons]
  have sameMet : met { search.pop (owned ++ [node]) below with work } = search.met := by
    rw [met, met, pop, flat, append_assoc, ← isStack]
  have closed : ∀ other ∈ (search.sccs ++ [owned ++ [node]]).flatten, ∀ next,
      Edge edges other next → next ∈ (search.sccs ++ [owned ++ [node]]).flatten := by
    rw [flat]
    intro other member next edge
    rcases mem_append.mp member with old | new
    · exact mem_append_left _ (inv.closed other old next edge)
    · exact mem_append.mpr ((inv.component top all root new next).1 edge)
  have sorted := inv.sorted
  have nodup := (nodup_append.mp inv.nodup).2.1
  rw [isStack] at sorted nodup
  have advances : search.advance edges node childIdx work =
      some { search.pop (owned ++ [node]) below with work } := by
    have emits : search.indexOf node = some (search.low node) := by
      rw [root, inv.indexOf_eq (top.isStack ▸ node_mem)]
    rw [advance, getElem?_eq_none all, emit, if_pos emits, top.isStack,
      popTo_eq fun isOwned => top.apart (mem_append_left _ isOwned)]
    have frames := top.frames
    have beneath := top.beneath
    cases frames with
    | nil => rfl
    | @cons _ parent _ _ owned' below' frames above =>
      have le : search.low parent ≤ search.low node :=
        above.low_le.trans (root ▸ (beneath parent node_mem).le)
      simp only [map_some, lower, pop, min_eq_left le, update_eq_self]
  refine ⟨_, advances, rfl, sameMet, ?_, (pairwise_append.mp sorted).2.1,
    fun other member => inv.fresh other (isStack ▸ mem_append_right _ member), fun other => ?_,
    fun other => ?_, ?_, ?_, closed, by simp [pop, inv.nonempty], ?_⟩
  · refine top.frames.settle ?_ ?_
    · exact flat ▸ mem_append_right _ isRoot
    · exact flat ▸ subset_append_left _ _
  · rw [sameMet]
    exact inv.isMet other
  · have outside : other ∈ below → other ∉ owned ++ [node] := fun isBelow isOwned =>
      (nodup_append.mp nodup).2.2 other isOwned other isBelow rfl
    simp only [pop, mem_filter, inv.onStack, isStack, mem_append, decide_eq_true_eq] at *
    tauto
  · rw [sameMet]
    exact inv.nodup
  · rw [sameMet]
    exact inv.inside
  · intro scc member other isIn next
    rcases mem_append.mp member with old | new
    · exact inv.components scc old other isIn next
    · obtain rfl := mem_singleton.mp new
      exact (inv.component top all root isIn next).2

theorem Inv.leave_other (other : search.low node ≠ search.index node) :
    ∃ search', search.advance edges node childIdx work = some search' ∧
      search'.work = work ∧ search'.met = search.met ∧ Inv edges nodes search' none work := by
  have less : search.low node < search.index node := lt_of_le_of_ne top.frame.low_le other
  have isNode : node ∈ search.stack := top.isStack ▸ node_mem
  have stays : search.emit node = some search := by
    refine if_neg fun isRoot => other ?_
    rw [inv.indexOf_eq isNode] at isRoot
    exact (some.inj isRoot).symm
  -- The low-link leads below the node.
  obtain ⟨target, isTarget, isLow, path⟩ := top.frame.target
  have isBelow : target ∈ below := by
    rw [top.isStack] at isTarget
    rcases mem_frame.mp isTarget with isOwned | rfl | isBelow
    · exact absurd (isLow.trans_lt less) (top.above target isOwned).not_gt
    · exact absurd isLow.symm other
    · exact isBelow
  have frames := top.frames
  have isStack := top.isStack
  cases frames with
  | nil => cases isBelow
  | @cons _ parent parentIdx work' owned' below' frames above =>
    have restack : search.stack = (owned ++ node :: owned') ++ parent :: below' := by simp [isStack]
    have nodup := (nodup_append.mp inv.nodup).2.1
    rw [restack] at nodup
    have apart := (nodup_cons.mp (nodup_middle.mp nodup)).1
    have sameLow : ∀ other ∈ (owned ++ node :: owned') ++ below',
        (search.lower parent (search.low node)).low other = search.low other :=
      fun other member => update_of_ne (by rintro rfl; exact apart member) ..
    have isNodeLow := sameLow node (mem_append_left _ node_mem)
    have edge : Edge edges parent node :=
      mem_successors.mp (mem_of_mem_take (above.waits node rfl))
    have back : Reaches edges target parent := by
      rcases mem_frame.mp isBelow with isOwned | rfl | isBelow
      · exact (above.joined target isOwned).2
      · exact .refl
      · exact frames.reaches target isBelow
    have larger : owned' ++ parent :: below' ⊆ search.stack := fun other member =>
      isStack ▸ mem_frame.mpr (.inr (.inr member))
    have lowered := (above.congr (fun _ _ => rfl) rfl (Subset.refl _) node_mem larger).lower
      ⟨target, isTarget, isLow, path.head edge⟩
    have kept := top.frame.congr (fun _ _ => rfl) isNodeLow (Subset.refl _) isNode (Subset.refl _)
    have absorbed := kept.absorb all lowered isNode
      (((update_self ..).trans_le (min_le_right _ _)).trans_eq isNodeLow.symm)
      (path.trans back)
    rw [restack] at absorbed
    have frames := Frames.cons (frames.congr (fun _ _ => rfl)
      (fun other member => sameLow other (mem_append_right _ member)) (Subset.refl _))
      absorbed
    rw [← restack] at frames
    refine ⟨{ search with work := (parent, parentIdx) :: work' }.lower parent (search.low node), ?_,
      rfl, rfl, { inv with frames := frames }⟩
    rw [advance, getElem?_eq_none all, stays]
    rfl

theorem Inv.leave : ∃ search', search.advance edges node childIdx work = some search' ∧
    search'.work = work ∧ search'.met = search.met ∧ Inv edges nodes search' none work := by
  by_cases root : search.low node = search.index node
  · exact inv.leave_root top all root
  · exact inv.leave_other top all root

end

theorem Inv.follow (inv : Inv edges nodes search none ((node, childIdx) :: work))
    (isNext : (successors edges node)[childIdx]? = some next) :
    ∃ search', search.advance edges node childIdx work = some search' ∧ search'.met = search.met ∧
      search'.indexOf = search.indexOf ∧
      (search.indexOf next = none ∧ search'.work = (next, 0) :: (node, childIdx + 1) :: work ∧
          Inv edges nodes search' (some next) ((node, childIdx + 1) :: work) ∨
        search'.work = (node, childIdx + 1) :: work ∧
          Inv edges nodes search' none ((node, childIdx + 1) :: work)) := by
  obtain ⟨owned, below, top⟩ := inv.top
  have reframe : ∀ {low child}, Frames edges search.index low search.sccs.flatten (some node) work
      below → Frame edges search.index low search.sccs.flatten child node (childIdx + 1) owned
        search.stack → Frames edges search.index low search.sccs.flatten child
        ((node, childIdx + 1) :: work) search.stack := by
    intro low child frames frame
    rw [top.isStack] at frame ⊢
    exact .cons frames frame
  cases isMet : search.indexOf next with
  | none =>
    refine ⟨{ search with work := (next, 0) :: (node, childIdx + 1) :: work }, ?_, rfl, rfl,
      .inl ⟨rfl, rfl, { inv with frames := reframe top.frames ?_ }⟩⟩
    · simp only [advance, isNext, isMet]
    · exact top.frame.follow isNext (fun _ isChild => (some.inj isChild).symm) (.inl rfl)
  | some index =>
    have isIndex : search.index next = index := by rw [Search.index, isMet]; rfl
    by_cases onStack : next ∈ search.onStack
    · refine ⟨{ search with work := (node, childIdx + 1) :: work }.lower node index, ?_, rfl, rfl,
        .inr ⟨rfl, { inv with frames := reframe (top.frames.congr (fun _ _ => rfl)
          (fun other member => update_of_ne ?_ ..) (Subset.refl _)) ?_ }⟩⟩
      · simp only [advance, isNext, isMet, if_pos onStack]
      · rintro rfl
        exact top.apart (mem_append_right _ member)
      · have isOn : next ∈ search.stack := (inv.onStack next).mp onStack
        have edge : Edge edges node next := mem_successors.mp (mem_of_getElem? isNext)
        refine (top.frame.lower ⟨next, isOn, isIndex, .single edge⟩).follow isNext nofun
          (.inr (.inr ⟨isOn, ?_⟩))
        exact (update_self ..).trans_le ((min_le_right _ _).trans_eq isIndex.symm)
    · refine ⟨{ search with work := (node, childIdx + 1) :: work }, ?_, rfl, rfl,
        .inr ⟨rfl, { inv with frames := reframe top.frames ?_ }⟩⟩
      · simp only [advance, isNext, isMet, if_neg onStack]
      · refine top.frame.follow isNext nofun (.inr (.inl ?_))
        refine (mem_append.mp ((inv.isMet next).mp (by rw [isMet]; rfl))).resolve_right ?_
        exact fun isOn => onStack ((inv.onStack next).mpr isOn)

/-! ## Runs of the loop -/

variable (edges) in
/-- The loop from a search whose top frame is entered. -/
def resume (fuel : Nat) (search : Search) : Option Search :=
  match search.work with
  | [] => some search
  | (node, childIdx) :: work =>
    (search.advance edges node childIdx work).bind (explore edges fuel)

theorem explore_succ (entered : ∀ frame ∈ search.work.head?, frame.2 ≠ 0) (fuel : Nat) :
    explore edges (fuel + 1) search = resume edges fuel search := by
  rw [explore, resume]
  cases isWork : search.work with
  | nil => rfl
  | cons frame work =>
    rw [isWork] at entered
    simp only [if_neg (entered frame rfl)]

variable (edges nodes) in
/-- An upper bound of the turns that are left. -/
def rest (search : Search) : Nat :=
  (search.work.map fun frame => (successors edges frame.1).length - frame.2 + 1).sum +
    (nodes.length - search.met.length) * (edges.length + 2)

theorem rest_enter (inv : Inv edges nodes (search.enter next) none ((next, 0) :: work))
    (isWork : search.work = (next, 0) :: work) :
    rest edges nodes (search.enter next) + 1 ≤ (work.map fun frame =>
      (successors edges frame.1).length - frame.2 + 1).sum +
        (nodes.length - search.met.length) * (edges.length + 2) := by
  have more : (search.enter next).met.length = search.met.length + 1 := by
    rw [met, met, length_append, length_append]
    rfl
  have bounded := inv.nodup.length_le_of_subset inv.inside
  have few : (successors edges next).length ≤ edges.length := by
    rw [successors, length_map]
    exact length_filter_le ..
  have unmet : nodes.length - search.met.length =
      nodes.length - (search.met.length + 1) + 1 := by omega
  have isWork' : (search.enter next).work = (next, 0) :: work := isWork
  rw [rest, more, isWork', unmet, Nat.succ_mul, map_cons, sum_cons]
  dsimp only
  omega

theorem Inv.stack_eq_nil (inv : Inv edges nodes search child []) : search.stack = [] := by
  have frames := inv.frames
  generalize search.stack = stack at frames ⊢
  cases frames
  rfl

section

variable (known : ∀ node next, Edge edges node next → next ∈ nodes)

include known

/-- The loop ends, and forgets nothing it has met. -/
theorem Inv.ends (inv : Inv edges nodes search none search.work) {fuel : Nat}
    (enough : rest edges nodes search < fuel) :
    ∃ last, resume edges fuel search = some last ∧ Inv edges nodes last none [] ∧
      search.met ⊆ last.met := by
  induction fuel generalizing search with
  | zero => exact absurd enough (Nat.not_lt_zero _)
  | succ fuel ih =>
    cases isWork : search.work with
    | nil => exact ⟨search, by rw [resume, isWork], isWork ▸ inv, Subset.refl _⟩
    | cons frame work =>
      obtain ⟨node, childIdx⟩ := frame
      rw [isWork] at inv
      rw [rest, isWork, map_cons, sum_cons] at enough
      rw [resume, isWork]
      cases isNext : (successors edges node)[childIdx]? with
      | none =>
        obtain ⟨owned, below, top⟩ := inv.top
        obtain ⟨search', advances, isWork', sameMet, inv'⟩ :=
          inv.leave top (getElem?_eq_none_iff.mp isNext)
        simp only [advances, bind_some]
        rw [explore_succ (isWork' ▸ top.frames.entered), ← sameMet]
        refine ih (isWork' ▸ inv') ?_
        rw [rest, isWork', sameMet]
        omega
      | some next =>
        have inside := (List.getElem?_eq_some_iff.mp isNext).1
        obtain ⟨search', advances, sameMet, sameIndex, ⟨unmet, isWork', inv'⟩ |
          ⟨isWork', inv'⟩⟩ := inv.follow isNext
        · have entered := inv'.enter (sameIndex ▸ unmet)
            (known node next (mem_successors.mp (mem_of_getElem? isNext)))
          have less := rest_enter entered isWork'
          rw [sameMet, map_cons, sum_cons] at less
          dsimp only at enough less
          have isWork'' : (search'.enter next).work = _ := isWork'
          obtain ⟨last, result, isLast, kept⟩ := ih (isWork'' ▸ entered) (by omega)
          refine ⟨last, ?_, isLast, sameMet ▸ Subset.trans search'.met_enter kept⟩
          rw [resume, isWork''] at result
          simp only [advances, bind_some, Search.explore, isWork', if_true]
          exact result
        · simp only [advances, bind_some]
          rw [explore_succ (by rw [isWork']; rintro frame ⟨rfl⟩; exact Nat.succ_ne_zero childIdx),
            ← sameMet]
          refine ih (isWork' ▸ inv') ?_
          rw [rest, isWork', sameMet, map_cons, sum_cons]
          dsimp only at enough ⊢
          omega

variable (inv : Inv edges nodes search none [])

include known inv

theorem Inv.visit {root : NodeId} (isNode : root ∈ nodes) :
    ∃ last, Search.visit edges (turns nodes.length edges.length) search root = some last ∧
      Inv edges nodes last none [] ∧ search.met ⊆ last.met ∧ root ∈ last.met := by
  cases isMet : search.indexOf root with
  | some index =>
    have isSome : (search.indexOf root).isSome := isMet ▸ rfl
    exact ⟨search, if_pos isSome, inv, Subset.refl _, (inv.isMet root).mp isSome⟩
  | none =>
    have waiting : Inv edges nodes { search with work := [(root, 0)] } (some root) [] :=
      { inv with frames := inv.stack_eq_nil ▸ .nil }
    have entered := waiting.enter isMet isNode
    have less := (rest_enter entered rfl).trans
      ((Nat.zero_add _).trans_le (Nat.mul_le_mul_right _ (Nat.sub_le ..)))
    obtain ⟨last, result, isLast, kept⟩ := entered.ends known less
    refine ⟨last, ?_, isLast, Subset.trans (met_enter _) kept,
      kept (mem_append_right _ mem_cons_self)⟩
    rwa [Search.visit, isMet]

theorem Inv.visits {roots : List NodeId} (areNodes : roots ⊆ nodes) :
    ∃ last, roots.foldlM (Search.visit edges (turns nodes.length edges.length)) search =
        some last ∧
      Inv edges nodes last none [] ∧ search.met ⊆ last.met ∧ roots ⊆ last.met := by
  induction roots generalizing search with
  | nil => exact ⟨search, rfl, inv, Subset.refl _, nil_subset _⟩
  | cons root roots ih =>
    obtain ⟨isNode, areNodes⟩ := cons_subset.mp areNodes
    obtain ⟨search', result, inv', kept, isMet⟩ := inv.visit known isNode
    obtain ⟨last, result', isLast, kept', areMet⟩ := ih inv' areNodes
    refine ⟨last, ?_, isLast, Subset.trans kept kept', cons_subset.mpr ⟨kept' isMet, areMet⟩⟩
    rwa [foldlM_cons, result]

end

end Search

/-- **The search ends with the partition by mutual reachability**, whatever the edges are. -/
theorem isPartition_stronglyConnected (model : WorkflowDefinitionModel) :
    ∃ components, stronglyConnected model = some components ∧ IsPartition model components := by
  have known : ∀ node next, Edge model.adjacency node next →
      next ∈ model.nodes.map WorkflowNode.id := by
    intro node next edge
    obtain ⟨link, member, isEdge⟩ := mem_map.mp edge
    obtain ⟨-, rfl⟩ := Prod.mk.inj isEdge
    exact model.targets_known link member
  have start : Search.Inv model.adjacency (model.nodes.map WorkflowNode.id) {} none [] :=
    ⟨.nil, .nil, nofun, fun _ => ⟨nofun, nofun⟩, fun _ => .rfl, .nil, nil_subset _, nofun,
      nofun, nofun⟩
  obtain ⟨last, result, inv, -, areMet⟩ := start.visits known (Subset.refl _)
  rw [length_map, WorkflowDefinitionModel.adjacency, length_map] at result
  have isMet : last.met = last.sccs.flatten := by
    rw [Search.met, inv.stack_eq_nil, append_nil]
  refine ⟨last.sccs, by rw [stronglyConnected, WorkflowDefinitionModel.adjacency, result]; rfl, inv.nonempty,
    isMet ▸ inv.nodup, fun node => ⟨fun member => inv.inside (isMet ▸ member),
      fun isNode => isMet ▸ areMet isNode⟩, fun node isNode other => ?_⟩
  obtain ⟨own, isOwn, inOwn⟩ := mem_flatten.mp (isMet ▸ areMet isNode)
  constructor
  · rintro ⟨component, member, here, there⟩
    exact (inv.components component member node here other).mp there
  · intro both
    exact ⟨own, isOwn, inOwn, (inv.components own isOwn node inOwn other).mpr both⟩

end RedArchKM.Workflow.Components
