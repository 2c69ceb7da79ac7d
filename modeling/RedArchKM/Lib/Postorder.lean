import Mathlib.Data.List.Dedup

/-!
# Nodes after those they lead to

A depth-first walk puts every node of a graph in order, after the nodes that it leads to, but turns
back where it meets a node that it is visiting already. Whatever the edges, each of the nodes is
there once (`nodup_postorder`, `mem_postorder`).
-/

namespace RedArchKM.Lib

open List

variable {α : Type}

/-- A walk: the nodes that it is visiting, and those that are in order already. -/
structure Walk (α : Type) where
  visiting : List α := []
  ordered : List α := []

namespace Walk

variable {next : α → List α} {nodes : List α} {walk : Walk α}

structure Orderly (nodes : List α) (walk : Walk α) : Prop where
  nodup : walk.ordered.Nodup
  isNode : ∀ node ∈ walk.ordered, node ∈ nodes
  notVisiting : ∀ node ∈ walk.ordered, node ∉ walk.visiting

structure GoesOn (nodes : List α) (walk after : Walk α) : Prop where
  orderly : Orderly nodes after
  visiting : after.visiting = walk.visiting
  ordered : walk.ordered <+: after.ordered

theorem GoesOn.refl (orderly : Orderly nodes walk) : GoesOn nodes walk walk :=
  ⟨orderly, rfl, prefix_refl _⟩

theorem GoesOn.trans {middle after : Walk α} (first : GoesOn nodes walk middle)
    (second : GoesOn nodes middle after) : GoesOn nodes walk after :=
  ⟨second.orderly, second.visiting.trans first.visiting, first.ordered.trans second.ordered⟩

theorem goesOn_foldl {step : Walk α → α → Walk α}
    (goesOn : ∀ walk target, Orderly nodes walk → GoesOn nodes walk (step walk target))
    (targets : List α) (orderly : Orderly nodes walk) :
    GoesOn nodes walk (targets.foldl step walk) := by
  induction targets generalizing walk with
  | nil => exact .refl orderly
  | cons target rest ih =>
    have first := goesOn walk target orderly
    exact first.trans (ih first.orderly)

theorem orderly_open {node : α} (orderly : Orderly nodes walk) (notOrdered : node ∉ walk.ordered) :
    Orderly nodes { walk with visiting := node :: walk.visiting } where
  nodup := orderly.nodup
  isNode := orderly.isNode
  notVisiting other isOrdered isVisiting := by
    rcases mem_cons.mp isVisiting with rfl | isEarlier
    · exact notOrdered isOrdered
    · exact orderly.notVisiting other isOrdered isEarlier

section Visits

variable [DecidableEq α]

variable (next nodes)

/-- Visit a node, nested at most so deep. -/
def visit : Nat → α → Walk α → Walk α
  | 0, _, walk => walk
  | depth + 1, node, walk =>
    if node ∈ walk.ordered ∨ node ∉ nodes then walk
    else if node ∈ walk.visiting then walk
    else
      let inner := (next node).foldl (fun walk target => visit depth target walk)
        { walk with visiting := node :: walk.visiting }
      { visiting := inner.visiting.erase node
        ordered := inner.ordered ++ [node] }

def postorder : List α :=
  (nodes.foldl (fun walk node => visit next nodes (nodes.length + 1) node walk) {}).ordered

variable {next nodes}

theorem goesOn_close {node : α} {inner : Walk α} (isNode : node ∈ nodes)
    (goesOn : GoesOn nodes { walk with visiting := node :: walk.visiting } inner)
    (notVisiting : node ∉ walk.visiting) :
    GoesOn nodes walk
      { visiting := inner.visiting.erase node, ordered := inner.ordered ++ [node] } := by
  have fresh : node ∉ inner.ordered := by
    intro isOrdered
    apply goesOn.orderly.notVisiting node isOrdered
    rw [goesOn.visiting]
    exact mem_cons_self
  have visiting : inner.visiting.erase node = walk.visiting := by
    rw [goesOn.visiting]
    exact erase_cons_head node walk.visiting
  refine ⟨⟨?_, ?_, ?_⟩, visiting, goesOn.ordered.trans (prefix_append _ _)⟩
  · exact nodup_append.mpr ⟨goesOn.orderly.nodup, nodup_singleton node,
      fun one isOrdered other isNew same => fresh (by
        rw [mem_singleton.mp isNew] at same
        exact same ▸ isOrdered)⟩
  · intro other isOrdered
    rcases mem_append.mp isOrdered with isInner | isNew
    · exact goesOn.orderly.isNode other isInner
    · rwa [mem_singleton.mp isNew]
  · intro other isOrdered
    rw [visiting]
    rcases mem_append.mp isOrdered with isInner | isNew
    · intro isVisiting
      apply goesOn.orderly.notVisiting other isInner
      rw [goesOn.visiting]
      exact mem_cons_of_mem node isVisiting
    · rwa [mem_singleton.mp isNew]

/-- **A visit goes on with the walk.** -/
theorem goesOn_visit (depth : Nat) (node : α) (orderly : Orderly nodes walk) :
    GoesOn nodes walk (visit next nodes depth node walk) := by
  induction depth generalizing node walk with
  | zero => exact .refl orderly
  | succ depth ih =>
    unfold visit
    split
    · exact .refl orderly
    · rename_i isNew
      obtain ⟨notOrdered, isNode⟩ := not_or.mp isNew
      split
      · exact .refl orderly
      · rename_i notVisiting
        exact goesOn_close (not_not.mp isNode)
          (goesOn_foldl (fun walk target isOrderly => ih target isOrderly) (next node)
            (orderly_open orderly notOrdered)) notVisiting

theorem mem_visit {depth : Nat} {node : α} (isNode : node ∈ nodes) (notVisiting : node ∉ walk.visiting) :
    node ∈ (visit next nodes (depth + 1) node walk).ordered := by
  unfold visit
  split
  · rename_i isKnown
    exact isKnown.resolve_right (not_not.mpr isNode)
  · exact mem_append_right _ mem_cons_self

theorem goesOn_postorder : GoesOn nodes {} (nodes.foldl
    (fun walk node => visit next nodes (nodes.length + 1) node walk) {}) := by
  refine goesOn_foldl (fun walk node => goesOn_visit _ node) nodes ⟨nodup_nil, ?_, ?_⟩ <;>
    exact fun node isOrdered => absurd isOrdered not_mem_nil

/-- **No node is in order twice.** -/
theorem nodup_postorder : (postorder next nodes).Nodup := goesOn_postorder.orderly.nodup

/-- **The nodes in order are the given ones.** -/
theorem mem_postorder {node : α} : node ∈ postorder next nodes ↔ node ∈ nodes := by
  refine ⟨goesOn_postorder.orderly.isNode node, fun isNode => ?_⟩
  -- the walk visits the node itself, and keeps what is in order
  obtain ⟨before, after, split⟩ := append_of_mem isNode
  have first : GoesOn nodes {} (before.foldl
      (fun walk node => visit next nodes (nodes.length + 1) node walk) {}) := by
    refine goesOn_foldl (fun walk node => goesOn_visit _ node) before ⟨nodup_nil, ?_, ?_⟩ <;>
      exact fun node isOrdered => absurd isOrdered not_mem_nil
  let reached := before.foldl (fun walk node => visit next nodes (nodes.length + 1) node walk) {}
  have visited : node ∈ (visit next nodes (nodes.length + 1) node reached).ordered :=
    mem_visit isNode (by rw [first.visiting]; exact not_mem_nil)
  have here : GoesOn nodes reached (visit next nodes (nodes.length + 1) node reached) :=
    goesOn_visit _ node first.orderly
  have later : GoesOn nodes (visit next nodes (nodes.length + 1) node reached) (after.foldl
      (fun walk node => visit next nodes (nodes.length + 1) node walk)
      (visit next nodes (nodes.length + 1) node reached)) :=
    goesOn_foldl (fun walk node => goesOn_visit _ node) after here.orderly
  have whole : postorder next nodes = ((node :: after).foldl
      (fun walk node => visit next nodes (nodes.length + 1) node walk)
      (before.foldl (fun walk node => visit next nodes (nodes.length + 1) node walk) {})).ordered := by
    rw [← foldl_append, ← split]
    rfl
  rw [whole]
  exact later.ordered.subset visited

end Visits

end Walk

end RedArchKM.Lib
