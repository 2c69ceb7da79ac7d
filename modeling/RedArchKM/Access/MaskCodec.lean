import RedArchKM.Access.MaskExpansion
import RedArchKM.Lib.Fallible

/-!
# Masks and their components

`encode` and `decode` undo each other wherever `encode` does not refuse (`encode_eq_ok_iff`), with
fixed-width integers too, which refuse the same components in the same words (`Go.encode_agrees`).
A document's mask is in the expansion of a requester's masks exactly if one of those matches it
(`Go.mem_expandMemberMasks`).
-/

namespace RedArchKM.Access

open Lib.Distinct Lib.Fallible List

theorem validateRange_eq_ok {name : String} {value maxVal : Nat} {done : Unit} :
    validateRange name value maxVal = .ok done ↔ value ≤ maxVal := by
  unfold validateRange
  split <;> simp [*]

/-- **The masks are the 32-bit numbers, and each encodes what it decodes to.** -/
theorem encode_eq_ok_iff (fields : MaskFields) (mask : Nat) :
    encode fields = .ok mask ↔ mask < 2 ^ 32 ∧ decode mask = fields := by
  constructor
  · intro encoded
    simp only [encode, bind_eq_ok, validateRange_eq_ok, pure_eq_ok] at encoded
    obtain ⟨_, org, _, region, _, role, _, group, _, dept, rfl⟩ := encoded
    have inRange : fields.InRange := ⟨org, region, role, group, dept⟩
    exact ⟨MaskFields.word_lt inRange, decode_word inRange⟩
  · rintro ⟨bits, rfl⟩
    rw [encode_of_inRange (inRange_decode mask), word_decode bits]

namespace Go

def encode (fields : DecodedMask) : Except String UInt32 := do
  if maxOrgId < fields.org then throw s!"org={fields.org} out of range [0, {maxOrgId}]"
  if maxRegion < fields.region then throw s!"region={fields.region} out of range [0, {maxRegion}]"
  if maxRole < fields.role then throw s!"role={fields.role} out of range [0, {maxRole}]"
  if maxGroup < fields.group then throw s!"group={fields.group} out of range [0, {maxGroup}]"
  if maxDept < fields.dept then throw s!"dept={fields.dept} out of range [0, {maxDept}]"
  return fields.word

def fieldMatches {T : Type} [DecidableEq T] (userVal docVal wildcard : T) : Bool :=
  docVal = wildcard || userVal = docVal

def matchesMask (userMask docMask : UInt32) : Bool :=
  let user := decode userMask
  let doc := decode docMask
  if user.org ≠ doc.org then false
  else
    fieldMatches user.region doc.region maxRegion && fieldMatches user.role doc.role maxRole &&
      fieldMatches user.group doc.group maxGroup && fieldMatches user.dept doc.dept maxDept

/-- A check agrees when it refuses the same values in the same words. -/
theorem check_agrees {α β : Type} {tooLarge : Prop} [Decidable tooLarge] {value maxVal : Nat}
    {name refusal : String} {rest : Except String α} {rest' : Except String β} {f : α → β}
    (same : tooLarge ↔ maxVal < value) (agrees : value ≤ maxVal → rest.map f = rest')
    (words : refusal = s!"{name}={value} out of range [0, {maxVal}]") :
    Except.map f (do
        if tooLarge then throw refusal
        rest) =
      (do
        validateRange name value maxVal
        rest') := by
  subst words
  by_cases fires : tooLarge
  · rw [if_pos fires, validateRange, if_neg (Nat.not_le.mpr (same.mp fires))]
    rfl
  · have inside : value ≤ maxVal := Nat.le_of_not_lt (mt same.mpr fires)
    rw [if_neg fires, validateRange_of_le inside]
    exact agrees inside

theorem fields_injective : Function.Injective DecodedMask.fields := by
  rintro ⟨_, _, _, _, _⟩ ⟨_, _, _, _, _⟩ same
  simpa [DecodedMask.fields, UInt8.toNat_inj, UInt16.toNat_inj] using same

theorem map_encode (fields : DecodedMask) :
    (encode fields).map UInt32.toNat = Access.encode fields.fields := by
  unfold encode Access.encode
  refine check_agrees UInt16.lt_iff_toNat_lt (fun org => ?_) rfl
  refine check_agrees UInt8.lt_iff_toNat_lt (fun region => ?_) rfl
  refine check_agrees UInt8.lt_iff_toNat_lt (fun role => ?_) rfl
  refine check_agrees UInt8.lt_iff_toNat_lt (fun group => ?_) rfl
  refine check_agrees UInt8.lt_iff_toNat_lt (fun dept => ?_) rfl
  exact congrArg Except.ok (toNat_word ⟨org, region, role, group, dept⟩)

/-- **The codec with fixed-width integers agrees with the other one**, in its refusals too, and
`decode` undoes it. -/
theorem encode_agrees (fields : DecodedMask) (mask : UInt32) :
    (encode fields).map UInt32.toNat = Access.encode fields.fields ∧
      (encode fields = .ok mask ↔ decode mask = fields) := by
  refine ⟨map_encode fields, ?_⟩
  have toNat : encode fields = .ok mask ↔ (encode fields).map UInt32.toNat = .ok mask.toNat := by
    cases encode fields <;> simp [Except.map, UInt32.toNat_inj]
  rw [toNat, map_encode, encode_eq_ok_iff, ← fields_decode, fields_injective.eq_iff]
  exact and_iff_right mask.toNat_lt

theorem matchesMask_eq (userMask docMask : UInt32) :
    matchesMask userMask docMask = Access.matchesMask userMask.toNat docMask.toNat := by
  simp only [matchesMask, Access.matchesMask, ← fields_decode, fieldMatches, Access.fieldMatches,
    DecodedMask.fields, ← UInt8.toNat_inj, ← UInt16.toNat_inj, ne_eq]
  rfl

/-- **A mask is in the expansion of some masks exactly if one of them matches it.** -/
theorem mem_expandMemberMasks (userMasks : List UInt32) (docMask : UInt32) :
    docMask ∈ expandMemberMasks userMasks ↔
      ∃ userMask ∈ userMasks, matchesMask userMask docMask = true := by
  rw [expandMemberMasks, keepFirst_eq, mem_eraseDups, mem_flatMap]
  refine exists_congr fun userMask => and_congr_right fun _ => ?_
  have userRange := inRange_decode userMask.toNat
  have variant := matchesMask_iff userRange (inRange_decode docMask.toNat)
  rw [word_decode userMask.toNat_lt, word_decode docMask.toNat_lt] at variant
  rw [matchesMask_eq, variant, ← mem_map_of_injective fun _ _ => UInt32.toNat_inj.mp,
    map_expandWildcards, mem_eraseDups, mem_map]
  constructor
  · rintro ⟨fields, isVariant, same⟩
    rwa [← same, decode_word (inRange_of_mem_variants userRange isVariant)]
  · exact fun isVariant => ⟨_, isVariant, word_decode docMask.toNat_lt⟩

end Go

end RedArchKM.Access
