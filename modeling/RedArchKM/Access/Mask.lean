import Mathlib.Data.List.Dedup
import RedArchKM.Lib.BitFields

/-!
# The 32-bit access mask

An access mask packs an org number, a region, a role, a group and a department. `encode`
refuses a component outside its range; inside the ranges the five shifted fields are a
packing (`MaskFields.word_eq_pack`), so the mask determines the fields
(`MaskFields.word_inj`).

A requester asserts, in every dimension, its own values and the dimension's wildcard. The
masks of the product are `memberMasks`.
-/

namespace RedArchKM.Access

open Lib List

/-! ## Bit layout -/

def orgBits : Nat := 11
def regionBits : Nat := 5
def roleBits : Nat := 5
def groupBits : Nat := 7
def deptBits : Nat := 4

def maxOrgId : Nat := (1 <<< orgBits) - 1
def maxRegion : Nat := (1 <<< regionBits) - 1
def maxRole : Nat := (1 <<< roleBits) - 1
def maxGroup : Nat := (1 <<< groupBits) - 1
def maxDept : Nat := (1 <<< deptBits) - 1

def orgShift : Nat := regionBits + roleBits + groupBits + deptBits
def regionShift : Nat := roleBits + groupBits + deptBits
def roleShift : Nat := groupBits + deptBits
def groupShift : Nat := deptBits
def deptShift : Nat := 0

/-- Upper bound on a requester's mask list. -/
def maxAccessKeys : Nat := 8192

structure MaskFields where
  org : Nat
  region : Nat
  role : Nat
  group : Nat
  dept : Nat

/-! ## Encoding -/

def validateRange (name : String) (value maxVal : Nat) : Except String Unit :=
  if value ≤ maxVal then .ok ()
  else .error s!"{name}={value} out of range [0, {maxVal}]"

namespace MaskFields

/-- The shifted components, or-ed together. -/
def word (fields : MaskFields) : Nat :=
  fields.org <<< orgShift ||| fields.region <<< regionShift ||| fields.role <<< roleShift |||
    fields.group <<< groupShift ||| fields.dept <<< deptShift

structure InRange (fields : MaskFields) : Prop where
  org : fields.org ≤ maxOrgId
  region : fields.region ≤ maxRegion
  role : fields.role ≤ maxRole
  group : fields.group ≤ maxGroup
  dept : fields.dept ≤ maxDept

end MaskFields

/-- Encode the components into a mask. -/
def encode (fields : MaskFields) : Except String Nat := do
  validateRange "org" fields.org maxOrgId
  validateRange "region" fields.region maxRegion
  validateRange "role" fields.role maxRole
  validateRange "group" fields.group maxGroup
  validateRange "dept" fields.dept maxDept
  return fields.word

theorem validateRange_of_le {name : String} {value maxVal : Nat} (le : value ≤ maxVal) :
    validateRange name value maxVal = .ok () := if_pos le

theorem encode_of_inRange {fields : MaskFields} (inRange : fields.InRange) :
    encode fields = .ok fields.word := by
  simp only [encode, validateRange_of_le inRange.org, validateRange_of_le inRange.region,
    validateRange_of_le inRange.role, validateRange_of_le inRange.group,
    validateRange_of_le inRange.dept]
  rfl

namespace MaskFields

def bitFields (fields : MaskFields) : List BitFields.Field :=
  [(orgBits, fields.org), (regionBits, fields.region), (roleBits, fields.role),
    (groupBits, fields.group), (deptBits, fields.dept)]

theorem word_eq_pack (fields : MaskFields) : fields.word = BitFields.pack fields.bitFields := by
  simp only [word, BitFields.pack, bitFields, foldl_cons, foldl_nil, orgShift,
    regionShift, roleShift, groupShift, deptShift, Nat.zero_shiftLeft, Nat.zero_or,
    Nat.shiftLeft_or_distrib, ← Nat.shiftLeft_add, Nat.shiftLeft_zero, Nat.add_assoc]

theorem InRange.fits {fields : MaskFields} (inRange : fields.InRange) :
    ∀ field ∈ fields.bitFields, BitFields.Fits field := by
  intro field member
  simp only [bitFields, mem_cons, not_mem_nil, or_false] at member
  rcases member with rfl | rfl | rfl | rfl | rfl
  · exact Nat.lt_of_le_of_lt inRange.org (by decide : maxOrgId < 2 ^ orgBits)
  · exact Nat.lt_of_le_of_lt inRange.region (by decide : maxRegion < 2 ^ regionBits)
  · exact Nat.lt_of_le_of_lt inRange.role (by decide : maxRole < 2 ^ roleBits)
  · exact Nat.lt_of_le_of_lt inRange.group (by decide : maxGroup < 2 ^ groupBits)
  · exact Nat.lt_of_le_of_lt inRange.dept (by decide : maxDept < 2 ^ deptBits)

/-- **The mask determines its components.** -/
theorem word_inj {fields fields' : MaskFields} (inRange : fields.InRange)
    (inRange' : fields'.InRange) : fields.word = fields'.word ↔ fields = fields' := by
  constructor
  · intro same
    rw [word_eq_pack, word_eq_pack] at same
    have components : fields.bitFields = fields'.bitFields :=
      BitFields.pack_inj rfl inRange.fits inRange'.fits same
    cases fields
    cases fields'
    simpa [bitFields] using components
  · rintro rfl
    rfl

end MaskFields

/-! ## The masks of a requester -/

def withWildcard (values : List Nat) (wildcard : Nat) : List Nat :=
  (values ++ [wildcard]).eraseDups

@[simp] theorem mem_withWildcard {values : List Nat} {wildcard value : Nat} :
    value ∈ withWildcard values wildcard ↔ value ∈ values ∨ value = wildcard := by
  simp [withWildcard, mem_eraseDups]

section

variable (org : Nat) (regions roles groups depts : List Nat)

/-- Every tuple of own values and wildcards. -/
def memberTuples : List MaskFields :=
  (withWildcard regions maxRegion).flatMap fun region =>
    (withWildcard roles maxRole).flatMap fun role =>
      (withWildcard groups maxGroup).flatMap fun group =>
        (withWildcard depts maxDept).map fun dept => ⟨org, region, role, group, dept⟩

/-- A member's full mask set, built per dimension. -/
def memberMasks : Except String (List Nat) :=
  (memberTuples org regions roles groups depts).mapM encode

end

section

variable {org : Nat} {regions roles groups depts : List Nat} {fields : MaskFields}

theorem mem_product : fields ∈ (regions.flatMap fun region => roles.flatMap fun role =>
      groups.flatMap fun group => depts.map fun dept => (⟨org, region, role, group, dept⟩ : MaskFields)) ↔
    fields.org = org ∧ fields.region ∈ regions ∧ fields.role ∈ roles ∧ fields.group ∈ groups ∧
      fields.dept ∈ depts := by
  cases fields
  simp only [mem_flatMap, mem_map, MaskFields.mk.injEq]
  constructor
  · rintro ⟨region, inRegions, role, inRoles, group, inGroups, dept, inDepts, rfl, rfl, rfl, rfl,
      rfl⟩
    exact ⟨rfl, inRegions, inRoles, inGroups, inDepts⟩
  · rintro ⟨rfl, inRegions, inRoles, inGroups, inDepts⟩
    exact ⟨_, inRegions, _, inRoles, _, inGroups, _, inDepts, rfl, rfl, rfl, rfl, rfl⟩

theorem mem_memberTuples : fields ∈ memberTuples org regions roles groups depts ↔
    fields.org = org ∧ (fields.region ∈ regions ∨ fields.region = maxRegion) ∧
      (fields.role ∈ roles ∨ fields.role = maxRole) ∧
      (fields.group ∈ groups ∨ fields.group = maxGroup) ∧
      (fields.dept ∈ depts ∨ fields.dept = maxDept) := by
  simp only [memberTuples, mem_product, mem_withWildcard]

end

theorem mapM_encode_of_inRange :
    ∀ (tuples : List MaskFields), (∀ fields ∈ tuples, fields.InRange) →
      tuples.mapM encode = .ok (tuples.map MaskFields.word)
  | [], _ => rfl
  | fields :: tuples, inRange => by
    rw [mapM_cons, encode_of_inRange (inRange fields mem_cons_self),
      mapM_encode_of_inRange tuples fun other member =>
        inRange other (mem_cons_of_mem _ member)]
    rfl

section InRange

variable {org : Nat} {regions roles groups depts : List Nat}

theorem memberTuples_inRange (orgRange : org ≤ maxOrgId)
    (regionRange : ∀ value ∈ regions, value ≤ maxRegion)
    (roleRange : ∀ value ∈ roles, value ≤ maxRole)
    (groupRange : ∀ value ∈ groups, value ≤ maxGroup)
    (deptRange : ∀ value ∈ depts, value ≤ maxDept) :
    ∀ fields ∈ memberTuples org regions roles groups depts, fields.InRange := by
  intro fields member
  obtain ⟨sameOrg, inRegions, inRoles, inGroups, inDepts⟩ := mem_memberTuples.mp member
  exact {
    org := sameOrg ▸ orgRange
    region := inRegions.elim (regionRange _) Nat.le_of_eq
    role := inRoles.elim (roleRange _) Nat.le_of_eq
    group := inGroups.elim (groupRange _) Nat.le_of_eq
    dept := inDepts.elim (deptRange _) Nat.le_of_eq }

end InRange

end RedArchKM.Access
