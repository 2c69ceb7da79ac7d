import Mathlib.Data.List.Perm.Lattice

/-!
# The place of an element in a stable sort

A stable sort by a key puts before an element exactly those that have a smaller key, and of
those with the same key the ones that already stood before it. How many these are is its place
in the sorted list, so a cut of the sorted list keeps an element exactly when fewer than that
many are ahead of it (`mem_take_sortedBy_iff`).
-/

namespace RedArchKM.Ranking

open List

variable {α : Type*} (key : α → Nat)

/-- The list sorted by the key; elements of one key stay in their order. -/
def sortedBy (items : List α) : List α := items.mergeSort fun first second => key first ≤ key second

/-- How many elements stand before one in the sorted list, when `before` and `behind` are
what is on its two sides in the list. -/
def ahead (before : List α) (item : α) (behind : List α) : Nat :=
  before.countP (fun other => key other ≤ key item) +
    behind.countP (fun other => key other < key item)

variable {key} {items before behind : List α} {item other : α}

@[simp] theorem mem_sortedBy : item ∈ sortedBy key items ↔ item ∈ items := by
  exact mem_mergeSort

theorem nodup_sortedBy (key : α → Nat) (nodup : items.Nodup) : (sortedBy key items).Nodup :=
  (mergeSort_perm items _).nodup_iff.mpr nodup

theorem pairwise_sortedBy :
    (sortedBy key items).Pairwise fun first second => key first ≤ key second := by
  have sorted := @pairwise_mergeSort α (fun first second => decide (key first ≤ key second))
    (fun first second third => by simpa using Nat.le_trans)
    (fun first second => by simpa using Nat.le_total (key first) (key second)) items
  simpa [sortedBy] using sorted

theorem pair_sublist_sortedBy (ordered : key other ≤ key item)
    (sublist : [other, item].Sublist items) : [other, item].Sublist (sortedBy key items) :=
  pair_sublist_mergeSort
    (fun first second third => by simpa using Nat.le_trans)
    (fun first second => by simpa using Nat.le_total (key first) (key second))
    (by simpa using ordered) sublist

section

variable (nodup : (before ++ item :: behind).Nodup)

include nodup

theorem mem_left_of_pair_sublist (sublist : [other, item].Sublist (before ++ item :: behind)) :
    other ∈ before := by
  by_contra notBefore
  have differs : other ≠ item := by
    have pair := nodup.sublist sublist
    simpa using pair
  have later : [other, item].Sublist (item :: behind) := by
    induction before with
    | nil => exact sublist
    | cons first rest ih =>
      have notFirst : other ≠ first := fun same => notBefore (same ▸ mem_cons_self)
      have notRest : other ∉ rest := fun member => notBefore (mem_cons_of_mem first member)
      have tail : [other, item].Sublist (rest ++ item :: behind) := by
        rcases sublist_cons_iff.mp sublist with kept | ⟨_, head, _⟩
        · exact kept
        · exact absurd (List.cons.inj head).1 notFirst
      exact ih (nodup_cons.mp nodup).2 tail notRest
  have inBehind : [other, item].Sublist behind := by
    rcases sublist_cons_iff.mp later with kept | ⟨_, head, _⟩
    · exact kept
    · exact absurd (List.cons.inj head).1 differs
  have here : item ∈ behind := inBehind.subset (by simp)
  exact (nodup_cons.mp (nodup_append.mp nodup).2.1).1 here

theorem mem_right_of_pair_sublist (sublist : [item, other].Sublist (before ++ item :: behind)) :
    other ∈ behind := by
  have mirrored : [other, item].Sublist (behind.reverse ++ item :: before.reverse) := by
    simpa using reverse_sublist.mpr sublist
  have nodup' : (behind.reverse ++ item :: before.reverse).Nodup := by
    simpa using nodup_reverse.mpr nodup
  simpa using mem_left_of_pair_sublist nodup' mirrored

theorem mem_left_sortedBy {left right : List α}
    (split : sortedBy key (before ++ item :: behind) = left ++ item :: right) :
    other ∈ left ↔ (other ∈ before ∧ key other ≤ key item) ∨
      (other ∈ behind ∧ key other < key item) := by
  have nodupSorted : (left ++ item :: right).Nodup := split ▸ nodup_sortedBy key nodup
  have ordered : (left ++ item :: right).Pairwise fun first second => key first ≤ key second :=
    split ▸ pairwise_sortedBy
  have notItself : item ∉ left := fun member =>
    (nodup_append.mp nodupSorted).2.2 item member item mem_cons_self rfl
  constructor
  · intro member
    have smaller : key other ≤ key item :=
      (pairwise_append.mp ordered).2.2 other member item mem_cons_self
    have kept : other ∈ before ++ item :: behind := by
      have inSorted : other ∈ sortedBy key (before ++ item :: behind) :=
        split ▸ mem_append_left _ member
      exact mem_sortedBy.mp inSorted
    rcases mem_append.mp kept with early | late
    · exact .inl ⟨early, smaller⟩
    rcases mem_cons.mp late with rfl | late
    · exact absurd member notItself
    refine .inr ⟨late, Nat.lt_of_le_of_ne smaller fun same => ?_⟩
    -- with one key the element would have kept its place on the right
    have pair : [item, other].Sublist (left ++ item :: right) := by
      rw [← split]
      refine pair_sublist_sortedBy (Nat.le_of_eq same.symm) ?_
      exact (Sublist.cons_cons item (singleton_sublist.mpr late)).trans
        (sublist_append_right before _)
    have onRight : other ∈ right := mem_right_of_pair_sublist nodupSorted pair
    exact (nodup_append.mp nodupSorted).2.2 other member other (mem_cons_of_mem item onRight) rfl
  · intro cases
    rcases cases with ⟨early, smaller⟩ | ⟨late, smaller⟩
    · refine mem_left_of_pair_sublist nodupSorted ?_
      rw [← split]
      refine pair_sublist_sortedBy smaller ?_
      exact (singleton_sublist.mpr early).append
        (singleton_sublist.mpr (mem_cons_self (l := behind)))
    · have kept : other ∈ left ++ item :: right := by
        rw [← split, mem_sortedBy]
        exact mem_append_right _ (mem_cons_of_mem item late)
      rcases mem_append.mp kept with onLeft | onRight
      · exact onLeft
      have larger : key item ≤ key other := by
        rcases mem_cons.mp onRight with rfl | onRight
        · exact Nat.le_refl _
        · exact (pairwise_cons.mp (pairwise_append.mp ordered).2.1).1 other onRight
      omega

theorem length_left_sortedBy {left right : List α}
    (split : sortedBy key (before ++ item :: behind) = left ++ item :: right) :
    left.length = ahead key before item behind := by
  have nodupLeft : left.Nodup :=
    (nodup_append.mp (split ▸ nodup_sortedBy key nodup)).1
  have parts := nodup_append.mp nodup
  have nodupAhead : (before.filter (fun other => decide (key other ≤ key item)) ++
      behind.filter (fun other => decide (key other < key item))).Nodup := by
    refine nodup_append.mpr ⟨parts.1.filter _, (nodup_cons.mp parts.2.1).2.filter _, ?_⟩
    intro first early second late
    exact parts.2.2 first (mem_of_mem_filter early) second
      (mem_cons_of_mem item (mem_of_mem_filter late))
  have same := (perm_ext_iff_of_nodup nodupLeft nodupAhead).mpr fun other => by
    rw [mem_left_sortedBy nodup split, mem_append, mem_filter, mem_filter,
      decide_eq_true_iff, decide_eq_true_iff]
  calc left.length
      = _ := same.length_eq
    _ = ahead key before item behind := by
      rw [length_append, ← countP_eq_length_filter, ← countP_eq_length_filter]
      rfl

/-- A cut of the sorted list keeps an element exactly when fewer are ahead of it. -/
theorem mem_take_sortedBy_iff {limit : Nat} :
    item ∈ (sortedBy key (before ++ item :: behind)).take limit ↔
      ahead key before item behind < limit := by
  have member : item ∈ sortedBy key (before ++ item :: behind) := by simp
  obtain ⟨left, right, split⟩ := append_of_mem member
  have notLeft : item ∉ left := fun early =>
    (nodup_append.mp (split ▸ nodup_sortedBy key nodup)).2.2 item early item mem_cons_self rfl
  rw [← length_left_sortedBy nodup split, split, take_append, mem_append]
  constructor
  · intro kept
    rcases kept with early | late
    · exact absurd (mem_of_mem_take early) notLeft
    · by_contra short
      have none : limit - left.length = 0 := by omega
      rw [none] at late
      exact absurd late not_mem_nil
  · intro short
    obtain ⟨rest, more⟩ : ∃ rest, limit - left.length = rest + 1 :=
      ⟨limit - left.length - 1, by omega⟩
    rw [more, take_succ_cons]
    exact .inr mem_cons_self

end

end RedArchKM.Ranking
