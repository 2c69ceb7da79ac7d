import RedArchKM.Lib.Fields
import RedArchKM.Lib.JsonRoundTrip

/-!
# Values in the browser

The editors of the designer hold JSON values as texts, and build objects of them by assignment. An
assignment to `__proto__` adds no key. Keys have no order that the editors read, so objects are
compared key by key; an object that is built from one with different keys has the same fields
exactly if every key is kept with its value (`sameFields_rebuilt`).
-/

namespace RedArchKM.Designer

open Lib (trim)
open Lib.JsonText List

variable {ν : Type}

scoped instance : LawfulBEq Units := List.instLawfulBEq

/-- Numbers, with those that JSON has not. -/
structure Numbers (ν : Type) extends Numerals ν where
  isNaN : ν → Bool
  isInteger : ν → Bool

/-- What JavaScript promises of numbers: the finite ones read back, and are numbers. -/
structure Numbers.Lawful (numbers : Numbers ν) : Prop where
  numerals : numbers.toNumerals.Lawful
  isNaN_finite : ∀ value, numbers.isFinite value = true → numbers.isNaN value = false

/-! ## Texts -/

/-- White space and line ends. -/
def isWhite (unit : Nat) : Bool :=
  (9 ≤ unit && unit ≤ 13) || (0x2000 ≤ unit && unit ≤ 0x200A) ||
    unit ∈ [0x20, 0xA0, 0x1680, 0x2028, 0x2029, 0x202F, 0x205F, 0x3000, 0xFEFF]

/-- `text.trim()` -/
def trimmed (text : Units) : Units := trim isWhite text

theorem isWhite_of_visible {unit : Nat} (above : 33 ≤ unit) (below : unit ≤ 126) :
    isWhite unit = false := by
  simp only [isWhite, Bool.or_eq_false_iff, Bool.and_eq_false_iff, decide_eq_false_iff_not,
    mem_cons, not_mem_nil, or_false]
  omega

theorem trimmed_solid {text : Units} (solid : Solid text) : trimmed text = text := by
  obtain ⟨front, last, isLast, above, below⟩ := solid.last
  obtain ⟨first, rest, isFirst, above', below', _⟩ := solid.first
  have notWhite := isWhite_of_visible above below
  have notWhite' := isWhite_of_visible above' below'
  unfold trimmed
  rw [isLast, Lib.trim_concat notWhite, ← isLast, isFirst,
    dropWhile_cons_of_neg (by rw [notWhite']; exact Bool.false_ne_true)]

theorem trimmed_trimmed (text : Units) : trimmed (trimmed text) = trimmed text :=
  Lib.trim_trim text

/-! ## Objects -/

abbrev Fields (ν : Type) := List (Units × Value ν)

def prototypeKey : Units := units "__proto__"

/-- `object[key] = value` -/
def assign (key : Units) (value : Value ν) (object : Fields ν) : Fields ν :=
  if key = prototypeKey then object else put key value object

def SameFields (object other : Fields ν) : Prop := ∀ key, object.lookup key = other.lookup key

/-- A key as an editor keeps it. -/
def PlainKey (key : Units) : Prop := trimmed key = key ∧ key ≠ []

instance (key : Units) : Decidable (PlainKey key) := inferInstanceAs (Decidable (_ ∧ _))

section Rebuilt

variable {object : Fields ν} {f : Units × Value ν → Value ν}

theorem foldl_assign (nodup : (object.map Prod.fst).Nodup) :
    object.foldl (fun built entry => assign entry.1 (f entry) built) [] =
      (object.filter fun entry => entry.1 ≠ prototypeKey).map fun entry => (entry.1, f entry) := by
  have others : ∀ built : Fields ν,
      object.foldl (fun built entry => assign entry.1 (f entry) built) built =
        ((object.filter fun entry => entry.1 ≠ prototypeKey).map fun entry => (entry.1, f entry)).foldl
          (fun built entry => put entry.1 entry.2 built) built := by
    clear nodup
    induction object with
    | nil => exact fun built => rfl
    | cons entry rest ih =>
      intro built
      rw [foldl_cons, ih, assign]
      by_cases isPrototype : entry.1 = prototypeKey
      · rw [if_pos isPrototype, filter_cons_of_neg (by simpa using isPrototype)]
      · rw [if_neg isPrototype, filter_cons_of_pos (by simpa using isPrototype)]
        rfl
  rw [others, foldl_put, nil_append]
  rw [nil_append, map_map]
  exact (filter_sublist.map Prod.fst).nodup nodup

theorem lookup_of_mem_nodup {κ ω : Type} [BEq κ] [LawfulBEq κ] {entries : List (κ × ω)}
    (nodup : (entries.map Prod.fst).Nodup) {entry : κ × ω} (isEntry : entry ∈ entries) :
    entries.lookup entry.1 = some entry.2 := by
  obtain ⟨before, after, rfl⟩ := append_of_mem isEntry
  refine lookup_eq_some_iff.mpr ⟨before, after, rfl, fun other isBefore => ?_⟩
  rw [map_append, map_cons] at nodup
  refine bne_iff_ne.mpr fun same => ?_
  exact (nodup_append.mp nodup).2.2 _ (mem_map_of_mem isBefore) _ mem_cons_self same.symm

/-- **A rebuilt object has the same fields if each key is kept with its value.** -/
theorem sameFields_rebuilt (nodup : (object.map Prod.fst).Nodup) :
    SameFields (object.foldl (fun built entry => assign entry.1 (f entry) built) []) object ↔
      ∀ entry ∈ object, entry.1 ≠ prototypeKey ∧ f entry = entry.2 := by
  rw [foldl_assign nodup]
  constructor
  · intro same entry isEntry
    have found := (same entry.1).trans (lookup_of_mem_nodup nodup isEntry)
    obtain ⟨before, after, split, _⟩ := lookup_eq_some_iff.mp found
    have isBuilt : (entry.1, entry.2) ∈ (object.filter fun entry => entry.1 ≠ prototypeKey).map
        fun entry => (entry.1, f entry) := split ▸ mem_append_right _ mem_cons_self
    obtain ⟨other, isOther, isSame⟩ := mem_map.mp isBuilt
    obtain ⟨sameKey, sameValue⟩ := Prod.mk.inj isSame
    obtain ⟨isOther, notPrototype⟩ := mem_filter.mp isOther
    obtain rfl : other = entry := inj_on_of_nodup_map nodup isOther isEntry sameKey
    exact ⟨of_decide_eq_true notPrototype, sameValue⟩
  · intro kept key
    have all : (object.filter fun entry => entry.1 ≠ prototypeKey) = object :=
      filter_eq_self.mpr fun entry isEntry => decide_eq_true (kept entry isEntry).1
    have same : (object.map fun entry => (entry.1, f entry)) = object.map id :=
      map_congr_left fun entry isEntry => Prod.ext rfl (kept entry isEntry).2
    rw [all, same, map_id]

end Rebuilt

end RedArchKM.Designer
