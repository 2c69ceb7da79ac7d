import Mathlib.Data.List.Induction

/-!
# Partial maps under patches

A partial map is overlaid by a patch, a list of keys with values: a key of the patch takes the
patch's value and every other key keeps its own. Patches overlaid one after another keep every
key (`layered_ne_none_iff`).
-/

namespace RedArchKM.Lib.Overlay

variable {κ ν ω : Type*} [DecidableEq κ]

/-- The map with the patch written over it. -/
def overlay (base : κ → Option ν) (patch : List (κ × ν)) : κ → Option ν :=
  fun key => (patch.lookup key).or (base key)

@[simp] theorem overlay_nil (base : κ → Option ν) : overlay base [] = base := rfl

def keys (patch : List (κ × ν)) : List κ := patch.map Prod.fst

theorem lookup_ne_none_iff {patch : List (κ × ν)} {key : κ} :
    patch.lookup key ≠ none ↔ key ∈ keys patch := by
  induction patch with
  | nil => simp [keys]
  | cons entry patch ih =>
    obtain ⟨first, value⟩ := entry
    by_cases same : key = first
    · simp [keys, same]
    · simp [keys, List.lookup_cons, beq_eq_false_iff_ne.mpr same, same]

theorem overlay_ne_none_iff {base : κ → Option ν} {patch : List (κ × ν)} {key : κ} :
    overlay base patch key ≠ none ↔ base key ≠ none ∨ key ∈ keys patch := by
  rw [← lookup_ne_none_iff, overlay]
  cases patch.lookup key <;> simp

section

variable (patches : ω → List (κ × ν)) (base : κ → Option ν)

def layered (writers : List ω) : κ → Option ν :=
  writers.foldl (fun map writer => overlay map (patches writer)) base

@[simp] theorem layered_nil : layered patches base [] = base := rfl

theorem layered_concat (writers : List ω) (writer : ω) :
    layered patches base (writers ++ [writer]) =
      overlay (layered patches base writers) (patches writer) := by
  simp [layered]

end

/-- **Overlaid patches hold the keys of the base and of every patch, and no others.** -/
theorem layered_ne_none_iff {patches : ω → List (κ × ν)} {base : κ → Option ν}
    {writers : List ω} {key : κ} :
    layered patches base writers key ≠ none ↔
      base key ≠ none ∨ ∃ writer ∈ writers, key ∈ keys (patches writer) := by
  induction writers using List.reverseRecOn with
  | nil => simp
  | append_singleton writers writer ih =>
    rw [layered_concat, overlay_ne_none_iff, ih]
    simp only [List.mem_append, List.mem_singleton, or_and_right, exists_or, exists_eq_left,
      or_assoc]

end RedArchKM.Lib.Overlay
