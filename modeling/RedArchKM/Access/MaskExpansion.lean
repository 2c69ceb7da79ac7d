import RedArchKM.Access.Mask
import RedArchKM.Lib.Distinct

/-!
# Expanding the wildcards of a mask

The stores compare masks for equality, so a requester asks for every mask that a document visible to
it can have. `expandWildcards` finds those of one mask, `expandMemberMasks` those of a list, and
`memberMasks` builds the same set from the values of each dimension (`Assignments.expands`): it
holds exactly the document masks that a tuple of the member's values `matchesMask`.

All of it is written a second time with fixed-width integers. There nothing overflows, and the lists
come out the same, in the same order (`Go.map_memberMasks`, `Go.map_expandMemberMasks`).
-/

namespace RedArchKM.Access

open Lib.Distinct List

/-! ## Decoding and matching -/

def decode (mask : Nat) : MaskFields where
  org := (mask >>> orgShift) &&& maxOrgId
  region := (mask >>> regionShift) &&& maxRegion
  role := (mask >>> roleShift) &&& maxRole
  group := (mask >>> groupShift) &&& maxGroup
  dept := (mask >>> deptShift) &&& maxDept

def fieldMatches (userVal docVal wildcard : Nat) : Bool :=
  docVal = wildcard || userVal = docVal

/-- The user's mask grants access to the document's; the org has no wildcard. -/
def matchesMask (userMask docMask : Nat) : Bool :=
  let user := decode userMask
  let doc := decode docMask
  if user.org ≠ doc.org then false
  else
    fieldMatches user.region doc.region maxRegion && fieldMatches user.role doc.role maxRole &&
      fieldMatches user.group doc.group maxGroup && fieldMatches user.dept doc.dept maxDept

/-! ## Expanding -/

/-- The user's value and the wildcard, in every dimension. -/
def variants (user : MaskFields) : List MaskFields :=
  [user.region, maxRegion].eraseDups.flatMap fun region =>
    [user.role, maxRole].eraseDups.flatMap fun role =>
      [user.group, maxGroup].eraseDups.flatMap fun group =>
        [user.dept, maxDept].eraseDups.map fun dept => ⟨user.org, region, role, group, dept⟩

def expandWildcards (userMask : Nat) : Except String (List Nat) := do
  return (← (variants (decode userMask)).mapM encode).eraseDups

def expandMemberMasks (userMasks : List Nat) : Except String (List Nat) := do
  return (← userMasks.mapM expandWildcards).flatten.eraseDups

/-- Every tuple of the values themselves. -/
def baseTuples (org : Nat) (regions roles groups depts : List Nat) : List MaskFields :=
  regions.flatMap fun region => roles.flatMap fun role => groups.flatMap fun group =>
    depts.map fun dept => ⟨org, region, role, group, dept⟩

/-! ## A mask and its components -/

namespace MaskFields

theorem word_eq_sum {fields : MaskFields} (inRange : fields.InRange) :
    fields.word = fields.org * 2 ^ 21 + fields.region * 2 ^ 16 + fields.role * 2 ^ 11 +
      fields.group * 2 ^ 4 + fields.dept := by
  have region : fields.region < 2 ^ 5 := Nat.lt_succ_of_le inRange.region
  have role : fields.role < 2 ^ 5 := Nat.lt_succ_of_le inRange.role
  have group : fields.group < 2 ^ 7 := Nat.lt_succ_of_le inRange.group
  have dept : fields.dept < 2 ^ 4 := Nat.lt_succ_of_le inRange.dept
  rw [word_eq_pack]
  simp only [Lib.BitFields.pack, bitFields, foldl_cons, foldl_nil, regionBits, roleBits,
    groupBits, deptBits, Nat.zero_shiftLeft, Nat.zero_or]
  rw [← Nat.shiftLeft_add_eq_or_of_lt region, ← Nat.shiftLeft_add_eq_or_of_lt role,
    ← Nat.shiftLeft_add_eq_or_of_lt group, ← Nat.shiftLeft_add_eq_or_of_lt dept]
  omega

theorem word_lt {fields : MaskFields} (inRange : fields.InRange) : fields.word < 2 ^ 32 := by
  have org : fields.org < 2 ^ 11 := Nat.lt_succ_of_le inRange.org
  have region : fields.region < 2 ^ 5 := Nat.lt_succ_of_le inRange.region
  have role : fields.role < 2 ^ 5 := Nat.lt_succ_of_le inRange.role
  have group : fields.group < 2 ^ 7 := Nat.lt_succ_of_le inRange.group
  have dept : fields.dept < 2 ^ 4 := Nat.lt_succ_of_le inRange.dept
  rw [word_eq_sum inRange]
  omega

end MaskFields

theorem decode_eq (mask : Nat) : decode mask =
    { org := mask / 2 ^ 21 % 2 ^ 11, region := mask / 2 ^ 16 % 2 ^ 5, role := mask / 2 ^ 11 % 2 ^ 5
      group := mask / 2 ^ 4 % 2 ^ 7, dept := mask % 2 ^ 4 } := by
  simp only [decode, maxOrgId, maxRegion, maxRole, maxGroup, maxDept, Nat.one_shiftLeft,
    Nat.and_two_pow_sub_one_eq_mod, Nat.shiftRight_eq_div_pow, orgShift, regionShift, roleShift,
    groupShift, deptShift, orgBits, regionBits, roleBits, groupBits, deptBits, Nat.pow_zero,
    Nat.div_one, Nat.reduceAdd]

theorem inRange_decode (mask : Nat) : (decode mask).InRange := by
  rw [decode_eq]
  exact {
    org := Nat.le_of_lt_succ (Nat.mod_lt _ (by decide))
    region := Nat.le_of_lt_succ (Nat.mod_lt _ (by decide))
    role := Nat.le_of_lt_succ (Nat.mod_lt _ (by decide))
    group := Nat.le_of_lt_succ (Nat.mod_lt _ (by decide))
    dept := Nat.le_of_lt_succ (Nat.mod_lt _ (by decide)) }

/-- **A 32-bit mask is the word of what it decodes to.** -/
theorem word_decode {mask : Nat} (bits : mask < 2 ^ 32) : (decode mask).word = mask := by
  rw [MaskFields.word_eq_sum (inRange_decode mask), decode_eq]
  dsimp only
  omega

@[simp] theorem decode_word {fields : MaskFields} (inRange : fields.InRange) :
    decode fields.word = fields :=
  (MaskFields.word_inj (inRange_decode _) inRange).mp (word_decode (MaskFields.word_lt inRange))

theorem fieldMatches_iff {userVal docVal wildcard : Nat} :
    fieldMatches userVal docVal wildcard = true ↔ docVal = userVal ∨ docVal = wildcard := by
  rw [fieldMatches, Bool.or_eq_true, decide_eq_true_eq, decide_eq_true_eq, Or.comm]
  exact or_congr_left eq_comm

/-- **A user's mask matches what its variants encode.** -/
theorem matchesMask_iff {user doc : MaskFields} (userRange : user.InRange)
    (docRange : doc.InRange) : matchesMask user.word doc.word = true ↔ doc ∈ variants user := by
  have isVariant : doc ∈ variants user ↔ doc ∈ memberTuples user.org [user.region] [user.role]
      [user.group] [user.dept] := Iff.rfl
  rw [isVariant, mem_memberTuples]
  simp only [matchesMask, decode_word userRange, decode_word docRange, mem_singleton]
  split
  · rename_i apart
    exact iff_of_false Bool.false_ne_true fun same => apart same.1.symm
  · rename_i same
    rw [Bool.and_eq_true, Bool.and_eq_true, Bool.and_eq_true, fieldMatches_iff, fieldMatches_iff,
      fieldMatches_iff, fieldMatches_iff, and_assoc, and_assoc]
    exact (and_iff_right (not_not.mp same).symm).symm

theorem mapM_ok {α β : Type} {f : α → Except String β} {g : α → β} {items : List α}
    (values : ∀ item ∈ items, f item = .ok (g item)) : items.mapM f = .ok (items.map g) := by
  induction items with
  | nil => rfl
  | cons item items ih =>
    rw [mapM_cons, values item mem_cons_self,
      ih fun other member => values other (mem_cons_of_mem _ member)]
    rfl

theorem inRange_of_mem_variants {user fields : MaskFields} (userRange : user.InRange)
    (member : fields ∈ variants user) : fields.InRange := by
  refine memberTuples_inRange userRange.org ?_ ?_ ?_ ?_ fields
    (show fields ∈ memberTuples user.org [user.region] [user.role] [user.group] [user.dept] from
      member)
  · exact fun value isValue => mem_singleton.mp isValue ▸ userRange.region
  · exact fun value isValue => mem_singleton.mp isValue ▸ userRange.role
  · exact fun value isValue => mem_singleton.mp isValue ▸ userRange.group
  · exact fun value isValue => mem_singleton.mp isValue ▸ userRange.dept

theorem expandWildcards_eq (userMask : Nat) : expandWildcards userMask =
    .ok ((variants (decode userMask)).map MaskFields.word).eraseDups := by
  rw [expandWildcards, mapM_encode_of_inRange _ fun _ => inRange_of_mem_variants (inRange_decode _)]
  rfl

theorem expandMemberMasks_eq (userMasks : List Nat) : expandMemberMasks userMasks =
    .ok (userMasks.flatMap fun mask =>
      ((variants (decode mask)).map MaskFields.word).eraseDups).eraseDups := by
  rw [expandMemberMasks, mapM_ok fun mask _ => expandWildcards_eq mask]
  rfl

/-! ## A member's assignments -/

/-- An org and the values assigned in each dimension, all in range and at least one in each. -/
structure Assignments where
  org : Nat
  regions : List Nat
  roles : List Nat
  groups : List Nat
  depts : List Nat
  org_le : org ≤ maxOrgId
  regions_le : ∀ value ∈ regions, value ≤ maxRegion
  roles_le : ∀ value ∈ roles, value ≤ maxRole
  groups_le : ∀ value ∈ groups, value ≤ maxGroup
  depts_le : ∀ value ∈ depts, value ≤ maxDept
  regions_ne : regions ≠ []
  roles_ne : roles ≠ []
  groups_ne : groups ≠ []
  depts_ne : depts ≠ []

namespace Assignments

variable (member : Assignments)

def tuples : List MaskFields :=
  memberTuples member.org member.regions member.roles member.groups member.depts

def base : List MaskFields :=
  baseTuples member.org member.regions member.roles member.groups member.depts

theorem mem_base {fields : MaskFields} : fields ∈ member.base ↔
    fields.org = member.org ∧ fields.region ∈ member.regions ∧ fields.role ∈ member.roles ∧
      fields.group ∈ member.groups ∧ fields.dept ∈ member.depts := mem_product

theorem inRange_of_mem_base : ∀ fields ∈ member.base, fields.InRange := by
  intro fields isBase
  obtain ⟨org, region, role, group, dept⟩ := member.mem_base.mp isBase
  exact ⟨org ▸ member.org_le, member.regions_le _ region, member.roles_le _ role,
    member.groups_le _ group, member.depts_le _ dept⟩

theorem inRange_of_mem_tuples : ∀ fields ∈ member.tuples, fields.InRange :=
  memberTuples_inRange member.org_le member.regions_le member.roles_le member.groups_le
    member.depts_le

theorem exists_value {values : List Nat} {value wildcard : Nat} (nonempty : values ≠ []) :
    (value ∈ values ∨ value = wildcard) ↔ ∃ own ∈ values, value = own ∨ value = wildcard := by
  constructor
  · rintro (isValue | isWildcard)
    · exact ⟨value, isValue, .inl rfl⟩
    · obtain ⟨own, isOwn⟩ := exists_mem_of_ne_nil values nonempty
      exact ⟨own, isOwn, .inr isWildcard⟩
  · rintro ⟨own, isOwn, rfl | isWildcard⟩
    · exact .inl isOwn
    · exact .inr isWildcard

/-- **A tuple of values and wildcards is a variant of a base tuple.** -/
theorem mem_tuples_iff {fields : MaskFields} :
    fields ∈ member.tuples ↔ ∃ user ∈ member.base, fields ∈ variants user := by
  have isVariant : ∀ user, fields ∈ variants user ↔ fields ∈ memberTuples user.org [user.region]
      [user.role] [user.group] [user.dept] := fun _ => Iff.rfl
  simp only [isVariant, tuples, mem_memberTuples, mem_singleton, mem_base]
  rw [exists_value member.regions_ne, exists_value member.roles_ne, exists_value member.groups_ne,
    exists_value member.depts_ne]
  constructor
  · rintro ⟨org, ⟨region, inRegions, isRegion⟩, ⟨role, inRoles, isRole⟩, ⟨group, inGroups, isGroup⟩,
      dept, inDepts, isDept⟩
    exact ⟨⟨member.org, region, role, group, dept⟩, ⟨rfl, inRegions, inRoles, inGroups, inDepts⟩, org,
      isRegion, isRole, isGroup, isDept⟩
  · rintro ⟨user, ⟨org, inRegions, inRoles, inGroups, inDepts⟩, same, isRegion, isRole, isGroup,
      isDept⟩
    exact ⟨same.trans org, ⟨_, inRegions, isRegion⟩, ⟨_, inRoles, isRole⟩, ⟨_, inGroups, isGroup⟩, _,
      inDepts, isDept⟩

theorem nodup_tuples : member.tuples.Nodup := by
  have nodup : ∀ (values : List Nat) (wildcard : Nat), (withWildcard values wildcard).Nodup :=
    fun values wildcard => nodup_eraseDups _
  refine nodup_flatMap_of_read MaskFields.region (nodup ..) (fun region _ => ?_) ?_
  · refine nodup_flatMap_of_read MaskFields.role (nodup ..) (fun role _ => ?_) ?_
    · refine nodup_flatMap_of_read MaskFields.group (nodup ..) (fun group _ => ?_) ?_
      · exact (nodup ..).map fun first second same => congrArg MaskFields.dept same
      · intro group fields isFields
        obtain ⟨dept, -, rfl⟩ := mem_map.mp isFields
        rfl
    · intro role fields isFields
      obtain ⟨group, -, isFields⟩ := mem_flatMap.mp isFields
      obtain ⟨dept, -, rfl⟩ := mem_map.mp isFields
      rfl
  · intro region fields isFields
    obtain ⟨role, -, isFields⟩ := mem_flatMap.mp isFields
    obtain ⟨group, -, isFields⟩ := mem_flatMap.mp isFields
    obtain ⟨dept, -, rfl⟩ := mem_map.mp isFields
    rfl

/-- The masks that are built per dimension. -/
def masks : List Nat := member.tuples.map MaskFields.word

def baseMasks : List Nat := member.base.map MaskFields.word

/-- What expanding each of them gives. -/
def expanded : List Nat :=
  (member.baseMasks.flatMap fun mask =>
    ((variants (decode mask)).map MaskFields.word).eraseDups).eraseDups

theorem memberMasks_eq :
    memberMasks member.org member.regions member.roles member.groups member.depts =
      .ok member.masks :=
  mapM_encode_of_inRange _ member.inRange_of_mem_tuples

theorem mapM_encode_base : member.base.mapM encode = .ok member.baseMasks :=
  mapM_encode_of_inRange _ member.inRange_of_mem_base

theorem nodup_masks : member.masks.Nodup :=
  (nodup_map_iff_inj_on member.nodup_tuples).mpr fun _ isFirst _ isSecond same =>
    (MaskFields.word_inj (member.inRange_of_mem_tuples _ isFirst)
      (member.inRange_of_mem_tuples _ isSecond)).mp same

theorem mem_masks_iff {mask : Nat} :
    mask ∈ member.masks ↔ ∃ user ∈ member.base, mask ∈ (variants user).map MaskFields.word := by
  simp only [masks, mem_map, mem_tuples_iff]
  constructor
  · rintro ⟨fields, ⟨user, isBase, isVariant⟩, rfl⟩
    exact ⟨user, isBase, fields, isVariant, rfl⟩
  · rintro ⟨user, isBase, fields, isVariant, rfl⟩
    exact ⟨fields, ⟨user, isBase, isVariant⟩, rfl⟩

theorem mem_expanded_iff {mask : Nat} : mask ∈ member.expanded ↔ mask ∈ member.masks := by
  rw [mem_masks_iff, expanded, mem_eraseDups, mem_flatMap]
  simp only [mem_eraseDups]
  constructor
  · rintro ⟨own, isOwn, isVariant⟩
    obtain ⟨user, isBase, rfl⟩ := mem_map.mp isOwn
    rw [decode_word (member.inRange_of_mem_base user isBase)] at isVariant
    exact ⟨user, isBase, isVariant⟩
  · rintro ⟨user, isBase, isVariant⟩
    refine ⟨user.word, mem_map_of_mem isBase, ?_⟩
    rwa [decode_word (member.inRange_of_mem_base user isBase)]

/-- **A 32-bit document mask is one of the member's masks exactly if a base tuple matches it.** -/
theorem mem_masks_iff_matches {docMask : Nat} (bits : docMask < 2 ^ 32) :
    docMask ∈ member.masks ↔ ∃ userMask ∈ member.baseMasks, matchesMask userMask docMask = true := by
  have isMatch : ∀ user ∈ member.base,
      (docMask ∈ (variants user).map MaskFields.word ↔ matchesMask user.word docMask = true) := by
    intro user isBase
    have userRange := member.inRange_of_mem_base user isBase
    rw [← word_decode bits, matchesMask_iff userRange (inRange_decode docMask)]
    constructor
    · intro isWord
      obtain ⟨fields, isVariant, same⟩ := mem_map.mp isWord
      obtain rfl := (MaskFields.word_inj (inRange_of_mem_variants userRange isVariant)
        (inRange_decode docMask)).mp same
      exact isVariant
    · exact mem_map_of_mem
  rw [mem_masks_iff]
  constructor
  · rintro ⟨user, isBase, isVariant⟩
    exact ⟨user.word, mem_map_of_mem isBase, (isMatch user isBase).mp isVariant⟩
  · rintro ⟨userMask, isOwn, isMatching⟩
    obtain ⟨user, isBase, rfl⟩ := mem_map.mp isOwn
    exact ⟨user, isBase, (isMatch user isBase).mpr isMatching⟩

end Assignments

/-! ## Fixed-width integers -/

namespace Go

/-- The components with the widths of their types. -/
structure DecodedMask where
  org : UInt16
  region : UInt8
  role : UInt8
  group : UInt8
  dept : UInt8

def maxOrgId : UInt16 := UInt16.ofNat ((1 <<< orgBits) - 1)
def maxRegion : UInt8 := UInt8.ofNat ((1 <<< regionBits) - 1)
def maxRole : UInt8 := UInt8.ofNat ((1 <<< roleBits) - 1)
def maxGroup : UInt8 := UInt8.ofNat ((1 <<< groupBits) - 1)
def maxDept : UInt8 := UInt8.ofNat ((1 <<< deptBits) - 1)

/-- The shifted components, or-ed together. -/
def DecodedMask.word (fields : DecodedMask) : UInt32 :=
  (fields.org.toUInt32 <<< 21) ||| (fields.region.toUInt32 <<< 16) |||
    (fields.role.toUInt32 <<< 11) ||| (fields.group.toUInt32 <<< 4) ||| (fields.dept.toUInt32 <<< 0)

def decode (mask : UInt32) : DecodedMask where
  org := ((mask >>> 21) &&& maxOrgId.toUInt32).toUInt16
  region := ((mask >>> 16) &&& maxRegion.toUInt32).toUInt8
  role := ((mask >>> 11) &&& maxRole.toUInt32).toUInt8
  group := ((mask >>> 4) &&& maxGroup.toUInt32).toUInt8
  dept := ((mask >>> 0) &&& maxDept.toUInt32).toUInt8

/-- The value and the wildcard, once if they are the same. -/
def distinct (own wildcard : UInt8) : List UInt8 :=
  if own = wildcard then [own] else [own, wildcard]

def expandWildcards (userMask : UInt32) : List UInt32 :=
  let user := decode userMask
  keepFirst ((distinct user.region maxRegion).flatMap fun region =>
    (distinct user.role maxRole).flatMap fun role =>
      (distinct user.group maxGroup).flatMap fun group =>
        (distinct user.dept maxDept).map fun dept =>
          DecodedMask.word ⟨user.org, region, role, group, dept⟩)

def expandMemberMasks (userMasks : List UInt32) : List UInt32 :=
  keepFirst (userMasks.flatMap expandWildcards)

def withWildcard (values : List UInt8) (wildcard : UInt8) : List UInt8 :=
  keepFirst (values ++ [wildcard])

def memberMasks (org : UInt16) (regions roles groups depts : List UInt8) : List UInt32 :=
  (withWildcard regions maxRegion).flatMap fun region =>
    (withWildcard roles maxRole).flatMap fun role =>
      (withWildcard groups maxGroup).flatMap fun group =>
        (withWildcard depts maxDept).map fun dept =>
          DecodedMask.word ⟨org, region, role, group, dept⟩

/-! ### The same numbers -/

/-- The components as natural numbers. -/
def DecodedMask.fields (fields : DecodedMask) : MaskFields where
  org := fields.org.toNat
  region := fields.region.toNat
  role := fields.role.toNat
  group := fields.group.toNat
  dept := fields.dept.toNat

/-- **No component is shifted out.** -/
theorem toNat_word {fields : DecodedMask} (inRange : fields.fields.InRange) :
    fields.word.toNat = fields.fields.word := by
  have org : fields.org.toNat < 2 ^ 11 := Nat.lt_succ_of_le inRange.org
  have shifted : ∀ {value shift bound : Nat}, value < 2 ^ bound → bound + shift ≤ 32 →
      value <<< shift % 2 ^ 32 = value <<< shift := by
    intro value shift bound fits room
    refine Nat.mod_eq_of_lt ?_
    rw [Nat.shiftLeft_eq]
    calc value * 2 ^ shift < 2 ^ bound * 2 ^ shift :=
          Nat.mul_lt_mul_of_pos_right fits (Nat.two_pow_pos shift)
      _ = 2 ^ (bound + shift) := (Nat.pow_add ..).symm
      _ ≤ 2 ^ 32 := Nat.pow_le_pow_right (by decide) room
  have region : fields.region.toNat < 2 ^ 5 := Nat.lt_succ_of_le inRange.region
  have role : fields.role.toNat < 2 ^ 5 := Nat.lt_succ_of_le inRange.role
  have group : fields.group.toNat < 2 ^ 7 := Nat.lt_succ_of_le inRange.group
  have dept : fields.dept.toNat < 2 ^ 4 := Nat.lt_succ_of_le inRange.dept
  simp only [DecodedMask.word, UInt32.toNat_or, UInt32.toNat_shiftLeft, UInt16.toNat_toUInt32,
    UInt8.toNat_toUInt32, UInt32.reduceToNat, Nat.reduceMod]
  rw [shifted org (by decide), shifted region (by decide), shifted role (by decide),
    shifted group (by decide), shifted dept (by decide)]
  rfl

theorem toNat_component (mask : UInt32) {shift bound : UInt32} {bits : Nat} (small : shift.toNat < 32)
    (fits : bound.toNat < 2 ^ bits) :
    ((mask >>> shift) &&& bound).toNat % 2 ^ bits = (mask.toNat >>> shift.toNat) &&& bound.toNat := by
  rw [UInt32.toNat_and, UInt32.toNat_shiftRight, Nat.mod_eq_of_lt small]
  exact Nat.mod_eq_of_lt (Nat.lt_of_le_of_lt Nat.and_le_right fits)

theorem fields_decode (mask : UInt32) : (decode mask).fields = Access.decode mask.toNat := by
  simp only [decode, DecodedMask.fields, UInt32.toNat_toUInt16, UInt32.toNat_toUInt8]
  rw [toNat_component mask (by decide) (by decide), toNat_component mask (by decide) (by decide),
    toNat_component mask (by decide) (by decide), toNat_component mask (by decide) (by decide),
    toNat_component mask (by decide) (by decide)]
  rfl

theorem map_keepFirst {values : List UInt32} :
    (keepFirst values).map UInt32.toNat = (values.map UInt32.toNat).eraseDups := by
  rw [keepFirst_eq, eraseDups_map fun first second => UInt32.toNat_inj.mp]

theorem map_distinct (own wildcard : UInt8) :
    (distinct own wildcard).map UInt8.toNat = [own.toNat, wildcard.toNat].eraseDups := by
  unfold distinct
  split
  · rename_i same
    simp [same, eraseDups_cons]
  · rename_i differ
    have apart : wildcard.toNat ≠ own.toNat := fun same => differ (UInt8.toNat_inj.mp same.symm)
    simp [eraseDups_cons, apart]

theorem map_withWildcard (values : List UInt8) (wildcard : UInt8) :
    (withWildcard values wildcard).map UInt8.toNat =
      Access.withWildcard (values.map UInt8.toNat) wildcard.toNat := by
  rw [withWildcard, keepFirst_eq, ← eraseDups_map fun first second => UInt8.toNat_inj.mp,
    map_append]
  rfl

theorem map_flatMap_of_numbers {values : List UInt8} {body : UInt8 → List UInt32}
    {body' : Nat → List MaskFields}
    (bodies : ∀ value ∈ values,
      (body value).map UInt32.toNat = (body' value.toNat).map MaskFields.word) :
    (values.flatMap body).map UInt32.toNat =
      ((values.map UInt8.toNat).flatMap body').map MaskFields.word := by
  induction values with
  | nil => rfl
  | cons value values ih =>
    rw [flatMap_cons, map_append, bodies value mem_cons_self,
      ih fun other member => bodies other (mem_cons_of_mem _ member), map_cons,
      flatMap_cons, map_append]

/-- **The nested loops write the same words.** -/
theorem map_product {org : UInt16} {regions roles groups depts : List UInt8}
    (orgRange : org.toNat ≤ Access.maxOrgId)
    (regionRange : ∀ value ∈ regions, value.toNat ≤ Access.maxRegion)
    (roleRange : ∀ value ∈ roles, value.toNat ≤ Access.maxRole)
    (groupRange : ∀ value ∈ groups, value.toNat ≤ Access.maxGroup)
    (deptRange : ∀ value ∈ depts, value.toNat ≤ Access.maxDept) :
    (regions.flatMap fun region => roles.flatMap fun role => groups.flatMap fun group =>
        depts.map fun dept => DecodedMask.word ⟨org, region, role, group, dept⟩).map UInt32.toNat =
      (baseTuples org.toNat (regions.map UInt8.toNat) (roles.map UInt8.toNat)
        (groups.map UInt8.toNat) (depts.map UInt8.toNat)).map MaskFields.word := by
  refine map_flatMap_of_numbers fun region isRegion => ?_
  refine map_flatMap_of_numbers fun role isRole => ?_
  refine map_flatMap_of_numbers fun group isGroup => ?_
  rw [map_map, map_map, map_map]
  refine map_congr_left fun dept isDept => ?_
  exact toNat_word ⟨orgRange, regionRange region isRegion, roleRange role isRole,
    groupRange group isGroup, deptRange dept isDept⟩

theorem map_expandWildcards (userMask : UInt32) : (expandWildcards userMask).map UInt32.toNat =
    ((variants (Access.decode userMask.toNat)).map MaskFields.word).eraseDups := by
  have inRange := inRange_decode userMask.toNat
  rw [← fields_decode] at inRange ⊢
  have range : ∀ {own wildcard : UInt8} {bound : Nat}, own.toNat ≤ bound → wildcard.toNat ≤ bound →
      ∀ value ∈ distinct own wildcard, value.toNat ≤ bound := by
    intro own wildcard bound ownRange wildcardRange value isValue
    unfold distinct at isValue
    split at isValue
    · exact mem_singleton.mp isValue ▸ ownRange
    · rcases mem_pair.mp isValue with rfl | rfl
      · exact ownRange
      · exact wildcardRange
  rw [expandWildcards, map_keepFirst, map_product inRange.org (range inRange.region (by decide))
    (range inRange.role (by decide)) (range inRange.group (by decide))
    (range inRange.dept (by decide)), map_distinct, map_distinct, map_distinct, map_distinct]
  rfl

/-- **The expansion of a list comes out the same.** -/
theorem map_expandMemberMasks (userMasks : List UInt32) :
    Access.expandMemberMasks (userMasks.map UInt32.toNat) =
      .ok ((expandMemberMasks userMasks).map UInt32.toNat) := by
  rw [expandMemberMasks_eq, expandMemberMasks, map_keepFirst, map_flatMap, flatMap_map]
  simp only [map_expandWildcards]

theorem map_ofNat {values : List Nat} {bound : Nat} (small : bound < 2 ^ 8)
    (range : ∀ value ∈ values, value ≤ bound) :
    (values.map UInt8.ofNat).map UInt8.toNat = values := by
  rw [map_map]
  refine (map_congr_left fun value isValue => ?_).trans (map_id values)
  exact UInt8.toNat_ofNat_of_lt' (Nat.lt_of_le_of_lt (range value isValue) small)

/-- **The masks that are built per dimension come out the same.** -/
theorem map_memberMasks (member : Assignments) :
    (memberMasks (.ofNat member.org) (member.regions.map .ofNat) (member.roles.map .ofNat)
      (member.groups.map .ofNat) (member.depts.map .ofNat)).map UInt32.toNat = member.masks := by
  have org : (UInt16.ofNat member.org).toNat = member.org :=
    UInt16.toNat_ofNat_of_lt' (Nat.lt_of_le_of_lt member.org_le (by decide))
  have range : ∀ {values : List Nat} {wildcard : UInt8}, (∀ value ∈ values, value ≤ wildcard.toNat) →
      ∀ value ∈ withWildcard (values.map .ofNat) wildcard, value.toNat ≤ wildcard.toNat := by
    intro values wildcard inRange value isValue
    rw [withWildcard, keepFirst_eq, mem_eraseDups, mem_append, mem_singleton] at isValue
    rcases isValue with isOwn | rfl
    · obtain ⟨number, isNumber, rfl⟩ := mem_map.mp isOwn
      rw [UInt8.toNat_ofNat_of_lt' (Nat.lt_of_le_of_lt (inRange number isNumber) wildcard.toNat_lt)]
      exact inRange number isNumber
    · exact Nat.le_refl _
  rw [memberMasks, map_product (by rw [org]; exact member.org_le) (range member.regions_le)
    (range member.roles_le) (range member.groups_le) (range member.depts_le), map_withWildcard,
    map_withWildcard, map_withWildcard, map_withWildcard, org,
    map_ofNat (by decide) member.regions_le, map_ofNat (by decide) member.roles_le,
    map_ofNat (by decide) member.groups_le, map_ofNat (by decide) member.depts_le]
  rfl

end Go

/-! ## The three constructions -/

namespace Assignments

/-- What is promised of the masks of a member, of the encodings of its base tuples and of what
those expand to. -/
structure Agree (member : Assignments) (masks base expanded : List Nat) : Prop where
  nodup : masks.Nodup
  sameSet : ∀ mask, mask ∈ masks ↔ mask ∈ expanded
  decides : ∀ docMask < 2 ^ 32,
    docMask ∈ masks ↔ ∃ userMask ∈ base, matchesMask userMask docMask = true
  goMasks : (Go.memberMasks (.ofNat member.org) (member.regions.map .ofNat)
    (member.roles.map .ofNat) (member.groups.map .ofNat) (member.depts.map .ofNat)).map
      UInt32.toNat = masks
  goExpanded : (Go.expandMemberMasks (base.map UInt32.ofNat)).map UInt32.toNat = expanded

/-- **Building the masks per dimension, expanding the tuples and matching agree**, in both
languages. -/
theorem expands (member : Assignments) : ∃ masks base expanded,
    memberMasks member.org member.regions member.roles member.groups member.depts = .ok masks ∧
      (baseTuples member.org member.regions member.roles member.groups member.depts).mapM encode =
        .ok base ∧
      expandMemberMasks base = .ok expanded ∧ member.Agree masks base expanded := by
  refine ⟨_, _, _, member.memberMasks_eq, member.mapM_encode_base, expandMemberMasks_eq _, ?_⟩
  have words : (member.baseMasks.map UInt32.ofNat).map UInt32.toNat = member.baseMasks := by
    rw [map_map]
    refine (map_congr_left fun mask isMask => ?_).trans (map_id _)
    obtain ⟨fields, isBase, rfl⟩ := mem_map.mp isMask
    exact UInt32.toNat_ofNat_of_lt' (MaskFields.word_lt (member.inRange_of_mem_base fields isBase))
  have expanded := Go.map_expandMemberMasks (member.baseMasks.map UInt32.ofNat)
  rw [words, expandMemberMasks_eq] at expanded
  exact {
    nodup := member.nodup_masks
    sameSet := fun mask => member.mem_expanded_iff.symm
    decides := fun docMask bits => member.mem_masks_iff_matches bits
    goMasks := Go.map_memberMasks member
    goExpanded := (Except.ok.inj expanded).symm }

/-- A member with a region assigned twice, and the wildcard among its roles. -/
def repeatedValues : Assignments where
  org := 5
  regions := [2, 2]
  roles := [3, maxRole]
  groups := [1]
  depts := [1]
  org_le := by decide
  regions_le := by decide
  roles_le := by decide
  groups_le := by decide
  depts_le := by decide
  regions_ne := by decide
  roles_ne := by decide
  groups_ne := by decide
  depts_ne := by decide

theorem expands_repeatedValues : ∃ masks base expanded,
    memberMasks 5 [2, 2] [3, maxRole] [1] [1] = .ok masks ∧
      (baseTuples 5 [2, 2] [3, maxRole] [1] [1]).mapM encode = .ok base ∧
      expandMemberMasks base = .ok expanded ∧ repeatedValues.Agree masks base expanded :=
  repeatedValues.expands

end Assignments

end RedArchKM.Access
