import Mathlib.Data.List.Perm.Basic
import Mathlib.Order.Bounds.Basic

/-!
# Communities of entities

Entities that the graph relates form a community, found by a union-find over the relations: a map to
parents, in which a lookup redirects what it passes to the root it finds, and a union puts the larger
of two roots under the smaller.

The map always represents a function `community` from the entities to their smallest relatives
(`Represents`): parents are lower in the order and of the same community, and what is its own parent
represents its community. Lookups redirect to representatives and change nothing about that; a union
merges two communities. So the result gives each entity the least member of its component
(`detectCommunities_isLeast`), whatever the order of the entities and of the relations.
-/

namespace RedArchKM.Facts

open List Function Option

variable {α : Type*} [LinearOrder α]

/-- The first loop of `find`, within a number of turns. -/
def rootOf (parent : α → α) : Nat → α → Option α
  | 0, _ => none
  | turns + 1, x => if parent x = x then some x else rootOf parent turns (parent x)

/-- The second loop of `find`: path compression. -/
def compress (root : α) : Nat → (α → α) → α → Option (α → α)
  | 0, _, _ => none
  | turns + 1, parent, x =>
    if parent x = root then some parent
    else compress root turns (update parent x root) (parent x)

def find (turns : Nat) (parent : α → α) (x : α) : Option (α × (α → α)) := do
  let root ← rootOf parent turns x
  let parent ← compress root turns parent x
  return (root, parent)

def union (turns : Nat) (parent : α → α) (a b : α) : Option (α → α) := do
  let (ra, parent) ← find turns parent a
  let (rb, parent) ← find turns parent b
  if ra = rb then return parent
  let (lo, hi) := if ra < rb then (ra, rb) else (rb, ra)
  return update parent hi lo

/-- The loop over the edges. The keys of `parent` are always the entities. -/
def unions (turns : Nat) (entityIds : List α) : List (α × α) → (α → α) → Option (α → α)
  | [], parent => some parent
  | (a, b) :: edges, parent =>
    if a ∈ entityIds ∧ b ∈ entityIds then (union turns parent a b).bind (unions turns entityIds edges)
    else unions turns entityIds edges parent

def assign (turns : Nat) : List α → (α → α) → Option (List (α × α))
  | [], _ => some []
  | e :: rest, parent => do
    let (root, parent) ← find turns parent e
    let items ← assign turns rest parent
    return (e, root) :: items

section

variable (entityIds : List α) (edges : List (α × α))

/-- `detect_communities`, if no loop takes more turns than there are entities. -/
def detectCommunities : Option (List (α × α)) := do
  let parent ← unions entityIds.length entityIds edges id
  assign entityIds.length entityIds parent

def Related (a b : α) : Prop :=
  (a, b) ∈ edges ∧ a ∈ entityIds ∧ b ∈ entityIds

/-- The connected component of an entity. -/
def component (e : α) : Set α :=
  { x | Relation.EqvGen (Related entityIds edges) e x }

end

/-! ## What the map of parents represents -/

section Represents

variable {entityIds : List α} {parent community : α → α} {turns : Nat} {x : α}

structure Represents (entityIds : List α) (parent community : α → α) : Prop where
  mem : ∀ x ∈ entityIds, parent x ∈ entityIds
  le : ∀ x ∈ entityIds, parent x ≤ x
  same : ∀ x ∈ entityIds, community (parent x) = community x
  root : ∀ x ∈ entityIds, parent x = x → community x = x

/-- The number of entities that a loop may still pass. -/
def height (entityIds : List α) (x : α) : Nat := entityIds.countP (· < x)

theorem height_lt {y : α} (member : y ∈ entityIds) (lower : y < x) :
    height entityIds y < height entityIds x := by
  unfold height
  induction entityIds with
  | nil => cases member
  | cons e rest ih =>
    have mono : rest.countP (· < y) ≤ rest.countP (· < x) :=
      countP_mono_left fun z _ below => by
        simpa using (of_decide_eq_true below).trans lower
    rw [countP_cons, countP_cons]
    rcases mem_cons.mp member with rfl | later
    · simp only [lt_irrefl, decide_false, lower, decide_true]
      simp
      omega
    · have := ih later
      by_cases below : e < y
      · simp only [below, below.trans lower, decide_true]
        simpa using this
      · simp only [below, decide_false]
        simp
        omega

theorem height_lt_length (member : x ∈ entityIds) : height entityIds x < entityIds.length :=
  Nat.lt_of_le_of_ne countP_le_length fun all => by
    simpa using countP_eq_length.mp all x member

variable (represents : Represents entityIds parent community)
include represents

section

variable (member : x ∈ entityIds)

include member

theorem Represents.height_parent (moves : parent x ≠ x) :
    height entityIds (parent x) < height entityIds x :=
  height_lt (represents.mem x member) (lt_of_le_of_ne (represents.le x member) moves)

theorem Represents.rootOf (enough : height entityIds x < turns) :
    Facts.rootOf parent turns x = some (community x) ∧ community x ∈ entityIds ∧
      community x ≤ x ∧ parent (community x) = community x := by
  induction turns generalizing x with
  | zero => cases enough
  | succ turns ih =>
    unfold Facts.rootOf
    split
    · rename_i atRoot
      rw [represents.root x member atRoot]
      exact ⟨rfl, member, le_rfl, atRoot⟩
    · rename_i moves
      have lower := represents.height_parent member moves
      have above := ih (represents.mem x member) (by omega)
      rw [represents.same x member] at above
      exact ⟨above.1, above.2.1, above.2.2.1.trans (represents.le x member), above.2.2.2⟩

theorem Represents.spec : community x ∈ entityIds ∧ community x ≤ x ∧
    parent (community x) = community x :=
  (represents.rootOf member (Nat.lt_succ_self _)).2

theorem Represents.idem : community (community x) = community x := by
  obtain ⟨isEntity, -, atRoot⟩ := represents.spec member
  exact represents.root _ isEntity atRoot

theorem Represents.redirect : Represents entityIds (update parent x (community x)) community := by
  obtain ⟨isEntity, lower, -⟩ := represents.spec member
  constructor <;> intro y isY <;> by_cases here : y = x
  · rwa [here, update_self]
  · rw [update_of_ne here]
    exact represents.mem y isY
  · rwa [here, update_self]
  · rw [update_of_ne here]
    exact represents.le y isY
  · rw [here, update_self]
    exact represents.idem member
  · rw [update_of_ne here]
    exact represents.same y isY
  · rw [here, update_self]
    exact id
  · rw [update_of_ne here]
    exact represents.root y isY

theorem Represents.compress (enough : height entityIds x < turns) :
    ∃ parent', compress (community x) turns parent x = some parent' ∧
      Represents entityIds parent' community := by
  induction turns generalizing parent x with
  | zero => cases enough
  | succ turns ih =>
    unfold Facts.compress
    split
    · exact ⟨parent, rfl, represents⟩
    · rename_i further
      have moves : community x ≠ x := fun atRoot => by
        have fixed := (represents.spec member).2.2
        rw [atRoot] at fixed
        exact further (fixed.trans atRoot.symm)
      have notRoot : parent x ≠ x := fun atRoot => moves (represents.root x member atRoot)
      have lower := represents.height_parent member notRoot
      have above := ih (represents.redirect member) (represents.mem x member) (by omega)
      rwa [represents.same x member] at above

theorem Represents.find (enough : entityIds.length ≤ turns) :
    ∃ parent', find turns parent x = some (community x, parent') ∧
      Represents entityIds parent' community := by
  have high := Nat.lt_of_lt_of_le (height_lt_length member) enough
  obtain ⟨parent', compressed, represents'⟩ := represents.compress member high
  refine ⟨parent', ?_, represents'⟩
  rw [Facts.find, (represents.rootOf member high).1, bind_eq_bind, bind_some, compressed]
  rfl

end

theorem Represents.merge {lo hi : α} (isLo : lo ∈ entityIds) (lower : lo < hi)
    (loRoot : community lo = lo) (hiRoot : community hi = hi) :
    Represents entityIds (update parent hi lo)
      fun x => if community x = hi then lo else community x := by
  constructor <;> intro y isY <;> by_cases here : y = hi
  · rwa [here, update_self]
  · rw [update_of_ne here]
    exact represents.mem y isY
  · rw [here, update_self]
    exact lower.le
  · rw [update_of_ne here]
    exact represents.le y isY
  · rw [here, update_self, loRoot, if_neg lower.ne, if_pos hiRoot]
  · rw [update_of_ne here, represents.same y isY]
  · rw [here, update_self]
    exact fun same => absurd same lower.ne
  · rw [update_of_ne here]
    intro atRoot
    rw [represents.root y isY atRoot, if_neg here]

theorem Represents.union {a b : α} (isA : a ∈ entityIds) (isB : b ∈ entityIds)
    (enough : entityIds.length ≤ turns) :
    ∃ parent' community', union turns parent a b = some parent' ∧
      Represents entityIds parent' community' ∧ community' a = community' b ∧
      (∀ x y, community x = community y → community' x = community' y) ∧
      ∀ x, community' x = community x ∨ (community x = community a ∧ community' x = community b) ∨
        (community x = community b ∧ community' x = community a) := by
  obtain ⟨parent₁, foundA, represents₁⟩ := represents.find isA enough
  obtain ⟨parent₂, foundB, represents₂⟩ := represents₁.find isB enough
  unfold Facts.union
  simp only [foundA, foundB, bind_eq_bind, bind_some, pure]
  split
  · rename_i same
    exact ⟨parent₂, community, rfl, represents₂, same, fun _ _ => id, fun _ => .inl rfl⟩
  · rename_i differ
    have rootA := represents.spec isA
    have rootB := represents.spec isB
    by_cases less : community a < community b
    · refine ⟨_, _, by rw [if_pos less],
        represents₂.merge rootA.1 less (represents.idem isA) (represents.idem isB), ?_, ?_, ?_⟩
      · rw [if_neg differ, if_pos rfl]
      · intro x y same
        rw [same]
      · intro x
        split
        · rename_i isB
          exact .inr (.inr ⟨isB, rfl⟩)
        · exact .inl rfl
    · refine ⟨_, _, by rw [if_neg less], represents₂.merge rootB.1
        (lt_of_le_of_ne (not_lt.mp less) (Ne.symm differ)) (represents.idem isB)
        (represents.idem isA), ?_, ?_, ?_⟩
      · rw [if_pos rfl, if_neg (Ne.symm differ)]
      · intro x y same
        rw [same]
      · intro x
        split
        · rename_i isA
          exact .inr (.inl ⟨isA, rfl⟩)
        · exact .inl rfl

/-- The unions join what the edges join, and nothing that the graph does not connect. -/
theorem Represents.unions {edges rest : List (α × α)} (enough : entityIds.length ≤ turns)
    (near : ∀ x ∈ entityIds, Relation.EqvGen (Related entityIds edges) x (community x))
    (among : ∀ edge ∈ rest, edge ∈ edges) :
    ∃ parent' community', unions turns entityIds rest parent = some parent' ∧
      Represents entityIds parent' community' ∧
      (∀ x ∈ entityIds, Relation.EqvGen (Related entityIds edges) x (community' x)) ∧
      (∀ x y, community x = community y → community' x = community' y) ∧
      ∀ x y, Related entityIds rest x y → community' x = community' y := by
  induction rest generalizing parent community with
  | nil => exact ⟨parent, community, rfl, represents, near, fun _ _ => id, fun _ _ => nofun⟩
  | cons edge rest ih =>
    obtain ⟨a, b⟩ := edge
    obtain ⟨isEdge, among⟩ := forall_mem_cons.mp among
    unfold Facts.unions
    split
    · rename_i isBoth
      obtain ⟨parent₁, community₁, united, represents₁, joined, coarser, moved⟩ :=
        represents.union isBoth.1 isBoth.2 enough
      have toA := near a isBoth.1
      have toB := near b isBoth.2
      have across : Relation.EqvGen (Related entityIds edges) (community a) (community b) :=
        .trans _ _ _ (.symm _ _ toA) (.trans _ _ _ (.rel _ _ ⟨isEdge, isBoth⟩) toB)
      obtain ⟨parent₂, community₂, done, represents₂, near₂, coarser₂, joined₂⟩ :=
        ih represents₁ (fun x isX => by
          rcases moved x with same | ⟨same, moved⟩ | ⟨same, moved⟩
          · rw [same]
            exact near x isX
          · rw [moved]
            exact .trans _ _ _ (same ▸ near x isX) across
          · rw [moved]
            exact .trans _ _ _ (same ▸ near x isX) (.symm _ _ across)) among
      rw [united]
      refine ⟨parent₂, community₂, done, represents₂, near₂,
        fun x y same => coarser₂ x y (coarser x y same), fun x y related => ?_⟩
      rcases mem_cons.mp related.1 with here | later
      · cases here
        exact coarser₂ a b joined
      · exact joined₂ x y ⟨later, related.2⟩
    · rename_i notBoth
      obtain ⟨parent₁, community₁, done, represents₁, near₁, coarser₁, joined₁⟩ :=
        ih represents near among
      refine ⟨parent₁, community₁, done, represents₁, near₁, coarser₁, fun x y related => ?_⟩
      rcases mem_cons.mp related.1 with here | later
      · cases here
        exact absurd related.2 notBoth
      · exact joined₁ x y ⟨later, related.2⟩

theorem Represents.assign {rest : List α} (enough : entityIds.length ≤ turns)
    (among : ∀ e ∈ rest, e ∈ entityIds) :
    assign turns rest parent = some (rest.map fun e => (e, community e)) := by
  induction rest generalizing parent with
  | nil => rfl
  | cons e rest ih =>
    obtain ⟨isEntity, among⟩ := forall_mem_cons.mp among
    obtain ⟨parent', found, represents'⟩ := represents.find isEntity enough
    simp only [Facts.assign, found, bind_eq_bind, bind_some, ih represents' among]
    rfl

end Represents

/-! ## The result -/

theorem exists_detectCommunities (entityIds : List α) (edges : List (α × α)) :
    ∃ community : α → α,
      detectCommunities entityIds edges = some (entityIds.map fun e => (e, community e)) ∧
      ∀ e ∈ entityIds, IsLeast (component entityIds edges e) (community e) := by
  have initial : Represents entityIds id id :=
    ⟨fun _ => id, fun _ _ => le_rfl, fun _ _ => rfl, fun _ _ => id⟩
  obtain ⟨parent, community, united, represents, near, -, joined⟩ :=
    initial.unions le_rfl (fun x _ => .refl x) (fun _ => id)
  refine ⟨community, ?_, fun e isEntity => ⟨near e isEntity, fun x connected => ?_⟩⟩
  · rw [detectCommunities, united, bind_eq_bind, bind_some, represents.assign le_rfl fun _ => id]
  have alike : ∀ {a b}, Relation.EqvGen (Related entityIds edges) a b →
      (a ∈ entityIds ↔ b ∈ entityIds) ∧ community a = community b := by
    intro a b connected
    induction connected with
    | rel a b related => exact ⟨iff_of_true related.2.1 related.2.2, joined a b related⟩
    | refl => exact ⟨Iff.rfl, rfl⟩
    | symm _ _ _ ih => exact ⟨ih.1.symm, ih.2.symm⟩
    | trans _ _ _ _ _ first second => exact ⟨first.1.trans second.1, first.2.trans second.2⟩
  obtain ⟨isEntity', same⟩ := alike connected
  rw [same]
  exact (represents.spec (isEntity'.mp isEntity)).2.1

/-- **The detection ends, gives every entity the least member of its connected component, and depends
neither on the order of the entities nor on that of the edges.** -/
theorem detectCommunities_isLeast (entityIds : List α) (edges : List (α × α)) :
    ∃ items, detectCommunities entityIds edges = some items ∧ items.map Prod.fst = entityIds ∧
      (∀ item ∈ items, IsLeast (component entityIds edges item.1) item.2) ∧
      ∀ entityIds' edges', entityIds'.Perm entityIds → edges'.Perm edges →
        ∃ items', detectCommunities entityIds' edges' = some items' ∧ items'.Perm items := by
  obtain ⟨community, detected, least⟩ := exists_detectCommunities entityIds edges
  refine ⟨_, detected, ?_, ?_, fun entityIds' edges' sameIds sameEdges => ?_⟩
  · rw [List.map_map]
    exact List.map_id _
  · intro item member
    obtain ⟨e, isEntity, rfl⟩ := mem_map.mp member
    exact least e isEntity
  · obtain ⟨community', detected', least'⟩ := exists_detectCommunities entityIds' edges'
    refine ⟨_, detected', ?_⟩
    have related : Related entityIds' edges' = Related entityIds edges := by
      funext a b
      unfold Related
      rw [sameIds.mem_iff, sameIds.mem_iff, sameEdges.mem_iff]
    have same : ∀ e ∈ entityIds', community' e = community e := fun e isEntity => by
      have first := least' e isEntity
      unfold component at first
      rw [related] at first
      exact first.unique (least e (sameIds.mem_iff.mp isEntity))
    rw [map_congr_left fun e isEntity => by rw [same e isEntity]]
    exact sameIds.map _

end RedArchKM.Facts
