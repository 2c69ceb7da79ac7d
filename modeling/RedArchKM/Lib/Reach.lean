import Mathlib.Data.List.Nodup
import Mathlib.Logic.Relation

/-!
# Reachability over a finite list of edges

A directed graph is a list of edges. The nodes reachable from a list of starts are
computed by a worklist: pop a node, skip it when it was seen, otherwise mark it and append
the targets of its edges.

The loop is given as many turns as there are starts and edges. That is enough
(`mem_reachable`): every turn pops one entry of the worklist, and an edge enters the
worklist only at the one turn that marks its source.

When no edge lies on a cycle, the number of nodes below a node is a rank
(`rank_lt_of_edge`): it falls strictly along every edge.
-/

namespace RedArchKM.Lib.Reach

open List

variable {α : Type*}

section

variable (edges : List (α × α))

def Edge (a b : α) : Prop := (a, b) ∈ edges

/-- Reachable along finitely many edges. -/
abbrev Reaches : α → α → Prop := Relation.ReflTransGen (Edge edges)

/-- Reachable along at least one edge. -/
abbrev ReachesProperly : α → α → Prop := Relation.TransGen (Edge edges)

/-- No node reaches itself along at least one edge. -/
def Acyclic : Prop := ∀ a, ¬ ReachesProperly edges a a

end

variable {edges : List (α × α)}

variable {a : α} {edges' : List (α × α)}

theorem Reaches.through_edge {b : α} (reaches : Reaches edges a b) (different : a ≠ b) :
    ∃ c, Edge edges a c ∧ Reaches edges c b := by
  rcases Relation.ReflTransGen.cases_head reaches with same | ⟨c, edge, rest⟩
  · exact absurd same different
  · exact ⟨c, edge, rest⟩

theorem acyclic_of_height (height : α → Nat) (falls : ∀ a b, Edge edges a b → height b < height a) :
    Acyclic edges := by
  have lower : ∀ a b, ReachesProperly edges a b → height b < height a := by
    intro a b reaches
    induction reaches with
    | single edge => exact falls _ _ edge
    | tail _ edge ih => exact Nat.lt_trans (falls _ _ edge) ih
  exact fun a cycle => Nat.lt_irrefl _ (lower a a cycle)

/-- New edges out of one node close no cycle when their targets do not reach that node. -/
theorem Acyclic.relink (acyclic : Acyclic edges)
    (links : ∀ c d, Edge edges' c d → Edge edges c d ∨ c = a ∧ ¬ Reaches edges d a) :
    Acyclic edges' := by
  -- A path either uses old edges only, or it reaches `a` and ends after its last new edge.
  have split : ∀ c d, ReachesProperly edges' c d → ReachesProperly edges c d ∨
      Reaches edges c a ∧ ∃ b, ¬ Reaches edges b a ∧ Reaches edges b d := by
    intro c d reaches
    induction reaches with
    | single edge =>
      rcases links _ _ edge with old | ⟨rfl, apart⟩
      · exact .inl (.single old)
      · exact .inr ⟨.refl, _, apart, .refl⟩
    | tail _ edge ih =>
      rcases links _ _ edge with old | ⟨rfl, apart⟩
      · exact ih.imp (·.tail old) fun ⟨before, b, away, after⟩ =>
          ⟨before, b, away, after.tail old⟩
      · exact .inr ⟨ih.elim (·.to_reflTransGen) (·.1), _, apart, .refl⟩
  intro c cycle
  rcases split c c cycle with old | ⟨before, b, apart, after⟩
  · exact acyclic c old
  · exact apart (after.trans before)

theorem Reaches.of_kept {b : α} (reaches : Reaches edges b a)
    (kept : ∀ c d, c ≠ a → Edge edges c d → Edge edges' c d) : Reaches edges' b a := by
  induction reaches using Relation.ReflTransGen.head_induction_on with
  | refl => exact .refl
  | @head c d edge _ ih =>
    by_cases same : c = a
    · rw [same]
    · exact .head (kept c d same edge) ih

/-- New edges out of a node that is not reached lead nowhere new. -/
theorem Reaches.of_apart {b c : α} (reaches : Reaches edges' b c) (apart : ¬Reaches edges b a)
    (kept : ∀ c d, c ≠ a → Edge edges' c d → Edge edges c d) : Reaches edges b c := by
  induction reaches with
  | refl => exact .refl
  | @tail c d _ edge ih =>
    exact ih.tail (kept c d (fun same => apart (same ▸ ih)) edge)

/-- **Giving a node one edge in place of its own closes a cycle exactly if the target reaches it.** -/
theorem Acyclic.relink_iff {b : α} (acyclic : Acyclic edges)
    (links : ∀ c d, Edge edges' c d ↔ (c ≠ a ∧ Edge edges c d) ∨ (c = a ∧ d = b)) :
    Acyclic edges' ↔ ¬ Reaches edges b a := by
  constructor
  · intro acyclic' reaches
    have back : Reaches edges' b a :=
      reaches.of_kept fun c d differs edge => (links c d).mpr (.inl ⟨differs, edge⟩)
    exact acyclic' a (.head' ((links a b).mpr (.inr ⟨rfl, rfl⟩)) back)
  · intro apart
    refine acyclic.relink (a := a) fun c d edge => ?_
    rcases (links c d).mp edge with ⟨_, old⟩ | ⟨rfl, rfl⟩
    · exact .inl old
    · exact .inr ⟨rfl, apart⟩

variable [DecidableEq α]

def successors (edges : List (α × α)) (a : α) : List α :=
  (edges.filter fun edge => edge.1 = a).map Prod.snd

@[simp] theorem mem_successors {b : α} : b ∈ successors edges a ↔ Edge edges a b := by
  constructor
  · intro member
    obtain ⟨⟨source, target⟩, kept, rfl⟩ := mem_map.mp member
    obtain ⟨edge, same⟩ := mem_filter.mp kept
    obtain rfl : source = a := by simpa using same
    exact edge
  · intro edge
    exact mem_map.mpr ⟨(a, b), mem_filter.mpr ⟨edge, by simp⟩, rfl⟩

/-- The worklist loop: turns left, worklist, nodes seen so far. -/
def visit (edges : List (α × α)) : Nat → List α → List α → List α
  | 0, _, seen => seen
  | _ + 1, [], seen => seen
  | turns + 1, a :: queue, seen =>
    if a ∈ seen then visit edges turns queue seen
    else visit edges turns (queue ++ successors edges a) (seen ++ [a])

def reachable (edges : List (α × α)) (starts : List α) : List α :=
  visit edges (starts.length + edges.length) starts []

/-! ## The loop finds reachable nodes only -/

theorem reaches_of_mem_visit {edges : List (α × α)} {starts : List α} :
    ∀ (turns : Nat) (queue seen : List α),
      (∀ a ∈ queue, ∃ s ∈ starts, Reaches edges s a) →
      (∀ a ∈ seen, ∃ s ∈ starts, Reaches edges s a) →
      ∀ a ∈ visit edges turns queue seen, ∃ s ∈ starts, Reaches edges s a
  | 0, _, _, _, found => found
  | _ + 1, [], _, _, found => found
  | turns + 1, a :: queue, seen, waiting, found => by
    simp only [visit]
    split
    · exact reaches_of_mem_visit turns queue seen
        (fun b member => waiting b (mem_cons_of_mem _ member)) found
    · obtain ⟨s, start, path⟩ := waiting a mem_cons_self
      refine reaches_of_mem_visit turns _ _ (fun b member => ?_) (fun b member => ?_)
      · rcases mem_append.mp member with old | new
        · exact waiting b (mem_cons_of_mem _ old)
        · exact ⟨s, start, path.tail (mem_successors.mp new)⟩
      · rcases mem_append.mp member with old | new
        · exact found b old
        · obtain rfl := mem_singleton.mp new
          exact ⟨s, start, path⟩

/-! ## The turns suffice -/

/-- Edges that may still enter the worklist: those whose source was not seen. -/
def unexpanded (edges : List (α × α)) (seen : List α) : Nat :=
  (edges.filter fun edge => edge.1 ∉ seen).length

theorem unexpanded_mark (edges : List (α × α)) {seen : List α} (fresh : a ∉ seen) :
    unexpanded edges (seen ++ [a]) + (successors edges a).length = unexpanded edges seen := by
  induction edges with
  | nil => rfl
  | cons edge edges ih =>
    simp only [unexpanded, successors, length_map] at ih ⊢
    by_cases same : edge.1 = a
    · subst same
      simp [fresh] at ih ⊢
      omega
    · by_cases before : edge.1 ∈ seen
      · simpa [same, before] using ih
      · simp [same, before] at ih ⊢
        omega

theorem visit_closed (edges : List (α × α)) :
    ∀ (turns : Nat) (queue seen : List α),
      queue.length + unexpanded edges seen ≤ turns →
      (∀ a ∈ seen, ∀ b, Edge edges a b → b ∈ seen ∨ b ∈ queue) →
      (∀ a, a ∈ seen ∨ a ∈ queue → a ∈ visit edges turns queue seen) ∧
        ∀ a ∈ visit edges turns queue seen, ∀ b, Edge edges a b → b ∈ visit edges turns queue seen
  | 0, queue, seen, enough, closed => by
    have empty : queue = [] := length_eq_zero_iff.mp (by omega)
    subst empty
    exact ⟨fun a member => by simpa [visit] using member,
      fun a member b edge => by simpa [visit] using closed a member b edge⟩
  | _ + 1, [], seen, _, closed =>
    ⟨fun a member => by simpa [visit] using member,
      fun a member b edge => by simpa [visit] using closed a member b edge⟩
  | turns + 1, a :: queue, seen, enough, closed => by
    simp only [visit, length_cons] at enough ⊢
    split
    · rename_i before
      have inner := visit_closed edges turns queue seen (by omega) fun c member b edge => by
        rcases closed c member b edge with old | new
        · exact .inl old
        · rcases mem_cons.mp new with rfl | waiting
          · exact .inl before
          · exact .inr waiting
      refine ⟨fun c member => inner.1 c ?_, inner.2⟩
      rcases member with old | new
      · exact .inl old
      · rcases mem_cons.mp new with rfl | waiting
        · exact .inl before
        · exact .inr waiting
    · rename_i fresh
      have marked := unexpanded_mark edges fresh
      have inner := visit_closed edges turns (queue ++ successors edges a) (seen ++ [a])
        (by simp only [length_append]; omega) fun c member b edge => by
          rcases mem_append.mp member with old | new
          · rcases closed c old b edge with seenBefore | waiting
            · exact .inl (mem_append_left _ seenBefore)
            · rcases mem_cons.mp waiting with rfl | later
              · exact .inl (mem_append_right _ (mem_singleton.mpr rfl))
              · exact .inr (mem_append_left _ later)
          · obtain rfl := mem_singleton.mp new
            exact .inr (mem_append_right _ (mem_successors.mpr edge))
      refine ⟨fun c member => inner.1 c ?_, inner.2⟩
      rcases member with old | new
      · exact .inl (mem_append_left _ old)
      · rcases mem_cons.mp new with rfl | waiting
        · exact .inl (mem_append_right _ (mem_singleton.mpr rfl))
        · exact .inr (mem_append_left _ waiting)

/-- **The worklist computes reachability.** -/
theorem mem_reachable {starts : List α} :
    a ∈ reachable edges starts ↔ ∃ s ∈ starts, Reaches edges s a := by
  have bound : starts.length + unexpanded edges [] ≤ starts.length + edges.length :=
    Nat.add_le_add_left (length_filter_le _ _) _
  obtain ⟨keeps, closed⟩ :=
    visit_closed edges _ starts [] bound (fun a member => by simp at member)
  constructor
  · exact reaches_of_mem_visit _ starts []
      (fun b member => ⟨b, member, .refl⟩) (fun b member => by simp at member) a
  · rintro ⟨s, start, path⟩
    induction path with
    | refl => exact keeps s (.inr start)
    | tail _ edge ih => exact closed _ ih _ edge

instance decidableReaches (edges : List (α × α)) (a b : α) : Decidable (Reaches edges a b) :=
  decidable_of_iff (b ∈ reachable edges [a]) (by simp [mem_reachable])

/-! ## The rank of an acyclic graph -/

theorem nodup_visit {edges : List (α × α)} :
    ∀ (turns : Nat) (queue seen : List α), seen.Nodup → (visit edges turns queue seen).Nodup
  | 0, _, _, nodup => nodup
  | _ + 1, [], _, nodup => nodup
  | turns + 1, a :: queue, seen, nodup => by
    simp only [visit]
    split
    · exact nodup_visit turns queue seen nodup
    · rename_i fresh
      refine nodup_visit turns _ _ (nodup_append.mpr ⟨nodup, nodup_singleton a, ?_⟩)
      intro b old c new same
      obtain rfl := mem_singleton.mp new
      exact fresh (same ▸ old)

/-- The number of nodes properly below a node. -/
def rank (edges : List (α × α)) (a : α) : Nat :=
  (reachable edges (successors edges a)).length

theorem mem_below {b : α} :
    b ∈ reachable edges (successors edges a) ↔ ReachesProperly edges a b := by
  simp only [mem_reachable, mem_successors, ReachesProperly, Relation.TransGen.head'_iff]

/-- **In an acyclic graph the rank falls strictly along every edge.** -/
theorem rank_lt_of_edge (acyclic : Acyclic edges) {b : α} (edge : Edge edges a b) :
    rank edges b < rank edges a := by
  have nodup : (b :: reachable edges (successors edges b)).Nodup := by
    refine nodup_cons.mpr ⟨fun below => acyclic b (mem_below.mp below), ?_⟩
    exact nodup_visit _ _ _ nodup_nil
  have inside : b :: reachable edges (successors edges b) ⊆
      reachable edges (successors edges a) := by
    intro c member
    rcases mem_cons.mp member with rfl | below
    · exact mem_below.mpr (.single edge)
    · exact mem_below.mpr (.head edge (mem_below.mp below))
  exact nodup.length_le_of_subset inside

end RedArchKM.Lib.Reach
