import Mathlib.Data.List.Infix

/-!
# Finding a tagged word in a list

A tag opens with a mark that stands twice and nowhere else in the list. A needle that starts
with the tag is then found at the tag or not at all (`infix_tagged_iff`).
-/

namespace RedArchKM.Lib

open List

variable {α : Type*} {mark : α}

theorem infix_append_iff_of_not_mem {before rest needle : List α} (clean : mark ∉ before) :
    mark :: needle <:+: before ++ rest ↔ mark :: needle <:+: rest := by
  induction before with
  | nil => rfl
  | cons first before ih =>
    rw [mem_cons, not_or] at clean
    rw [cons_append, infix_cons_iff, ih clean.2, cons_prefix_cons]
    constructor
    · rintro (⟨same, -⟩ | found)
      · exact absurd same clean.1
      · exact found
    · exact .inr

theorem not_infix_of_not_mem {list needle : List α} (clean : mark ∉ list) :
    ¬ mark :: needle <:+: list := by
  intro found
  exact clean (found.subset mem_cons_self)

/-- **A tag is found where it stands.** -/
theorem infix_tagged_iff {before word rest suffix : List α} (cleanBefore : mark ∉ before)
    (cleanWord : mark ∉ word) (cleanRest : mark ∉ rest) :
    mark :: mark :: (word ++ suffix) <:+: before ++ mark :: mark :: (word ++ rest) ↔
      suffix <+: rest := by
  have clean : mark ∉ word ++ rest := by
    rw [mem_append, not_or]
    exact ⟨cleanWord, cleanRest⟩
  rw [infix_append_iff_of_not_mem cleanBefore, infix_cons_iff, infix_cons_iff,
    cons_prefix_cons, cons_prefix_cons, prefix_append_right_inj]
  constructor
  · rintro (⟨-, -, found⟩ | prefixed | found)
    · exact found
    · obtain ⟨-, later⟩ := cons_prefix_cons.mp prefixed
      exact absurd (later.subset mem_cons_self) clean
    · exact absurd found (not_infix_of_not_mem clean)
  · exact fun found => .inl ⟨rfl, rfl, found⟩

end RedArchKM.Lib
