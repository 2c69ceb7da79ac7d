import Mathlib.Algebra.Group.Nat.Defs
import Mathlib.Data.List.Induction
import Mathlib.Data.Nat.Bits

/-!
# Packed bit fields

A packed integer holds a list of fields, each a width and a value below `2 ^ width`, the
first field in the highest bits. Shifting by the width makes room for the next value, and a
bitwise or writes it there.

Two packings of in-range fields with the same widths agree only when the fields agree
(`pack_inj`).
-/

namespace RedArchKM.Lib.BitFields

open List

/-- A field: its width in bits and its value. -/
abbrev Field := Nat × Nat

/-- The value fits into the width. -/
def Fits (field : Field) : Prop := field.2 < 2 ^ field.1

def pack (fields : List Field) : Nat :=
  fields.foldl (fun packed field => packed <<< field.1 ||| field.2) 0

theorem pack_append_singleton (fields : List Field) (field : Field) :
    pack (fields ++ [field]) = pack fields <<< field.1 ||| field.2 := by
  simp [pack]

theorem shiftLeft_or_inj {width high low high' low' : Nat} (fits : low < 2 ^ width)
    (fits' : low' < 2 ^ width) :
    high <<< width ||| low = high' <<< width ||| low' ↔ high = high' ∧ low = low' := by
  rw [← Nat.shiftLeft_add_eq_or_of_lt fits, ← Nat.shiftLeft_add_eq_or_of_lt fits',
    Nat.shiftLeft_eq, Nat.shiftLeft_eq]
  constructor
  · intro same
    have highs := congrArg (· / 2 ^ width) same
    have lows := congrArg (· % 2 ^ width) same
    simp only [Nat.mul_comm _ (2 ^ width), Nat.mul_add_div (Nat.two_pow_pos width),
      Nat.mul_add_mod, Nat.div_eq_of_lt fits, Nat.div_eq_of_lt fits', Nat.mod_eq_of_lt fits,
      Nat.mod_eq_of_lt fits', Nat.add_zero] at highs lows
    exact ⟨highs, lows⟩
  · rintro ⟨rfl, rfl⟩
    rfl

/-- **Packing is injective on in-range fields of the same widths.** -/
theorem pack_inj {fields fields' : List Field} (widths : fields.map Prod.fst = fields'.map Prod.fst)
    (fits : ∀ field ∈ fields, Fits field) (fits' : ∀ field ∈ fields', Fits field)
    (same : pack fields = pack fields') : fields = fields' := by
  induction fields using List.reverseRecOn generalizing fields' with
  | nil => exact (map_eq_nil_iff.mp widths.symm).symm
  | append_singleton rest field ih =>
    cases fields' using List.reverseRecOn with
    | nil => simp at widths
    | append_singleton rest' field' =>
      obtain ⟨width, value⟩ := field
      obtain ⟨width', value'⟩ := field'
      simp only [map_append, map_cons, map_nil] at widths
      obtain ⟨restWidths, lastWidth⟩ := append_inj' widths rfl
      obtain rfl : width = width' := by simpa using lastWidth
      simp only [pack_append_singleton] at same
      obtain ⟨rests, rfl⟩ :=
        (shiftLeft_or_inj (fits (width, value) (by simp)) (fits' (width, value') (by simp))).mp same
      obtain rfl := ih restWidths (fun field member => fits field (by simp [member]))
        (fun field member => fits' field (by simp [member])) rests
      rfl

end RedArchKM.Lib.BitFields
