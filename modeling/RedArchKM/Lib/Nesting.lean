import Mathlib.Algebra.Group.Defs
import Mathlib.Data.List.Induction
import Mathlib.Data.List.Nodup

/-!
# Items that hang from items

A list of items, each with an id, perhaps the id of a parent, and a place that is counted from its
parent's. `At` adds the places up. No item of a list hangs from itself or from a later one if the
list descends (`Descends`); with all parents in it, the parents come first (`ParentsFirst`), and
every item is somewhere (`exists_at`). Where some items are copied under new ids, each copy is
where its item is, moved by the offset, unless it is moved with its parent (`At.copied`).
-/

namespace RedArchKM.Lib

open List

/-- How an item is named, what it hangs from, and where it is from there. -/
structure Nesting (α κ π : Type*) where
  id : α → κ
  parent : α → Option κ
  place : α → π

namespace Nesting

variable {α κ π : Type*} (nesting : Nesting α κ π)

def ids (items : List α) : List κ := items.map nesting.id

def ParentsFirst (items : List α) : Prop :=
  ∀ before item after, items = before ++ item :: after →
    ∀ above, nesting.parent item = some above → above ∈ nesting.ids before

/-- No item hangs from itself or from a later one. -/
structure Descends (items : List α) : Prop where
  irrefl : ∀ item ∈ items, nesting.parent item ≠ some (nesting.id item)
  later : items.Pairwise fun earlier item => nesting.parent earlier ≠ some (nesting.id item)

def rootsFirst (items : List α) : List α :=
  items.filter (fun item => (nesting.parent item).isNone) ++
    items.filter fun item => (nesting.parent item).isSome

variable {nesting} {items others : List α}

/-! ## Order -/

theorem rootsFirst_perm : (nesting.rootsFirst items).Perm items := by
  have others : (fun item => (nesting.parent item).isSome) =
      fun item => !(nesting.parent item).isNone := by
    funext item
    cases nesting.parent item <;> rfl
  rw [rootsFirst, others]
  exact filter_append_perm _ _

theorem mem_rootsFirst {item : α} : item ∈ nesting.rootsFirst items ↔ item ∈ items :=
  rootsFirst_perm.mem_iff

theorem mem_ids {item : α} (member : item ∈ items) : nesting.id item ∈ nesting.ids items :=
  mem_map_of_mem member

section

variable (descends : nesting.Descends items)

include descends

theorem Descends.sublist (fewer : others.Sublist items) : nesting.Descends others where
  irrefl item member := descends.irrefl item (fewer.subset member)
  later := descends.later.sublist fewer

theorem Descends.map {β : Type*} {other : Nesting β κ π} {f : α → β}
    (reflects : ∀ earlier ∈ items, ∀ item ∈ items,
      other.parent (f earlier) = some (other.id (f item)) → nesting.parent earlier = some (nesting.id item)) :
    other.Descends (items.map f) where
  irrefl := by
    intro copy isCopy same
    obtain ⟨item, member, rfl⟩ := mem_map.mp isCopy
    exact descends.irrefl item member (reflects item member item member same)
  later := by
    rw [pairwise_map]
    refine descends.later.imp_of_mem fun {earlier item} first second apart same => ?_
    exact apart (reflects earlier first item second same)

theorem Descends.append (further : nesting.Descends others)
    (apart : ∀ item ∈ items, ∀ other ∈ others, nesting.parent item ≠ some (nesting.id other)) :
    nesting.Descends (items ++ others) where
  irrefl item member := (mem_append.mp member).elim (descends.irrefl item) (further.irrefl item)
  later := pairwise_append.mpr ⟨descends.later, further.later, apart⟩

end

theorem descends_of_roots (roots : ∀ item ∈ items, nesting.parent item = none) :
    nesting.Descends items where
  irrefl item member same := by rw [roots item member] at same; cases same
  later := pairwise_of_forall_mem_list fun earlier first _ _ same => by
    rw [roots earlier first] at same
    cases same

theorem descends_rootsFirst
    (hanging : nesting.Descends (items.filter fun item => (nesting.parent item).isSome)) :
    nesting.Descends (nesting.rootsFirst items) := by
  have root : ∀ item ∈ items.filter (fun item => (nesting.parent item).isNone),
      nesting.parent item = none := fun item member =>
    Option.isNone_iff_eq_none.mp (mem_filter.mp member).2
  refine (descends_of_roots root).append hanging fun item member other _ same => ?_
  rw [root item member] at same
  cases same

theorem Descends.rootsFirst (descends : nesting.Descends items) :
    nesting.Descends (nesting.rootsFirst items) :=
  descends_rootsFirst (descends.sublist filter_sublist)

/-- **A list that descends and holds all parents has them first.** -/
theorem Descends.parentsFirst (descends : nesting.Descends items)
    (closed : ∀ item ∈ items, ∀ above, nesting.parent item = some above →
      above ∈ nesting.ids items) :
    nesting.ParentsFirst items := by
  intro before item after split above hangs
  have member : item ∈ items := split ▸ mem_append_right _ mem_cons_self
  obtain ⟨host, isHost, rfl⟩ := mem_map.mp (closed item member above hangs)
  rw [split] at isHost
  rcases mem_append.mp isHost with isBefore | behind
  · exact mem_ids isBefore
  rcases mem_cons.mp behind with rfl | isAfter
  · exact absurd hangs (descends.irrefl _ member)
  · have later := split ▸ descends.later
    exact absurd hangs ((pairwise_cons.mp (pairwise_append.mp later).2.1).1 host isAfter)

theorem ParentsFirst.descends (first : nesting.ParentsFirst items)
    (nodup : (nesting.ids items).Nodup) : nesting.Descends items where
  irrefl := by
    intro item member hangs
    obtain ⟨before, after, split⟩ := append_of_mem member
    have isBefore := first before item after split _ hangs
    rw [split, ids, map_append, map_cons] at nodup
    exact (nodup_append.mp nodup).2.2 _ isBefore _ mem_cons_self rfl
  later := by
    rw [pairwise_iff_forall_sublist]
    intro earlier item sublist hangs
    obtain ⟨front, back, split, isFront, isBack⟩ := cons_sublist_iff.mp sublist
    obtain ⟨before, between, rfl⟩ := append_of_mem isFront
    rw [append_assoc, cons_append] at split
    have isBefore := first before earlier _ split _ hangs
    rw [split, ids, map_append, map_cons, map_append] at nodup
    exact (nodup_append.mp nodup).2.2 _ isBefore _
      (mem_cons_of_mem _ (mem_append_right _
        (mem_map_of_mem (isBack.subset (mem_singleton_self item))))) rfl

/-! ## Places -/

section Places

variable [AddCommMonoid π]

inductive At (nesting : Nesting α κ π) (items : List α) : κ → π → Prop where
  | root {item : α} (member : item ∈ items) (isRoot : nesting.parent item = none) :
      At nesting items (nesting.id item) (nesting.place item)
  | child {item : α} {above : κ} {place : π} (member : item ∈ items)
      (hangs : nesting.parent item = some above) (isAbove : At nesting items above place) :
      At nesting items (nesting.id item) (place + nesting.place item)

/-- **Where parents come first, every item is somewhere.** -/
theorem exists_at (first : nesting.ParentsFirst items) {id : κ} (isId : id ∈ nesting.ids items) :
    ∃ place, nesting.At items id place := by
  have general : ∀ before after, items = before ++ after → ∀ item ∈ before,
      ∃ place, nesting.At items (nesting.id item) place := by
    intro before
    induction before using List.reverseRec with
    | nil => exact fun after _ item member => absurd member not_mem_nil
    | append_singleton before last ih =>
      intro after split item member
      rw [append_assoc, singleton_append] at split
      rcases mem_append.mp member with isBefore | isLast
      · exact ih _ split item isBefore
      · obtain rfl := mem_singleton.mp isLast
        have member : item ∈ items := split ▸ mem_append_right _ mem_cons_self
        rcases isHost : nesting.parent item with _ | above
        · exact ⟨_, .root member isHost⟩
        · obtain ⟨host, isBefore, rfl⟩ :=
            mem_map.mp (first before item after split above isHost)
          obtain ⟨place, isAt⟩ := ih _ split host isBefore
          exact ⟨_, .child member isHost isAt⟩
  obtain ⟨item, member, rfl⟩ := mem_map.mp isId
  exact general items [] (append_nil items).symm item member

theorem At.kept {inside : κ → Prop} (kept : ∀ item ∈ items, inside (nesting.id item) →
      (∃ same ∈ others, nesting.id same = nesting.id item ∧
        nesting.parent same = nesting.parent item ∧ nesting.place same = nesting.place item) ∧
      ∀ above, nesting.parent item = some above → inside above) {id : κ} {place : π}
    (isAt : nesting.At items id place) (isInside : inside id) : nesting.At others id place := by
  induction isAt with
  | @root item member isRoot =>
    obtain ⟨⟨same, isSame, sameId, sameParent, samePlace⟩, _⟩ := kept item member isInside
    rw [← sameId, ← samePlace]
    exact .root isSame (sameParent.trans isRoot)
  | @child item above place member hangs _ ih =>
    obtain ⟨⟨same, isSame, sameId, sameParent, samePlace⟩, further⟩ := kept item member isInside
    rw [← sameId, ← samePlace]
    exact .child isSame (sameParent.trans hangs) (ih (further above hangs))

/-- How one copy hangs: as its item does, or from the copy of its item's parent, which is then not
moved. -/
inductive Follows (nesting : Nesting α κ π) (items others : List α) (rename : κ → κ) (offset : π)
    (inside : κ → Prop) (item copy : α) : Prop where
  | root (isRoot : nesting.parent item = none) (same : nesting.parent copy = none)
  | outside (above : κ) (hangs : nesting.parent item = some above)
      (same : nesting.parent copy = some above)
      (kept : ∀ place, nesting.At items above place → nesting.At others above place)
  | inside (above : κ) (hangs : nesting.parent item = some above) (isInside : inside above)
      (renamed : nesting.parent copy = some (rename above)) (still : offset = 0)

/-- **Copies are where their items are, moved by the offset.** -/
theorem At.copied {rename : κ → κ} {offset : π} {inside : κ → Prop}
    (copies : ∀ item ∈ items, inside (nesting.id item) → ∃ copy ∈ others,
      nesting.id copy = rename (nesting.id item) ∧
        nesting.place copy = nesting.place item + offset ∧
          nesting.Follows items others rename offset inside item copy)
    {id : κ} {place : π} (isAt : nesting.At items id place) (isInside : inside id) :
    nesting.At others (rename id) (place + offset) := by
  induction isAt with
  | @root item member isRoot =>
    obtain ⟨copy, isCopy, sameId, samePlace, follows⟩ := copies item member isInside
    rw [← sameId, ← samePlace]
    cases follows with
    | root _ same => exact .root isCopy same
    | outside above hangs => exact absurd (isRoot.symm.trans hangs) (by simp)
    | inside above hangs => exact absurd (isRoot.symm.trans hangs) (by simp)
  | @child item above place member hangs isAbove ih =>
    obtain ⟨copy, isCopy, sameId, samePlace, follows⟩ := copies item member isInside
    rw [← sameId, add_assoc, ← samePlace]
    cases follows with
    | root isRoot => exact absurd (isRoot.symm.trans hangs) (by simp)
    | outside host hangs' same kept =>
      cases hangs.symm.trans hangs'
      exact .child isCopy same (kept place isAbove)
    | inside host hangs' isInside renamed still =>
      cases hangs.symm.trans hangs'
      have isThere := ih isInside
      rw [still, add_zero] at isThere
      exact .child isCopy renamed isThere

end Places

end Nesting

end RedArchKM.Lib
