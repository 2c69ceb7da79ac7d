import RedArchKM.Access.Mask

/-!
# Permission configs and membership masks

A permission config is a list of entries, each naming some of the four dimensions.
`permissionConfigToMasks` resolves the names against the org's dimension tables and encodes
one mask per resolved entry, a dimension left out becoming its wildcard. A membership asserts
the product of its assigned numbers, `0` standing for an unassigned dimension, with the
wildcards.

The masks decide exactly the config: the two lists share an integer when some entry is
granted by the membership (`sharesMask_iff`), and no config mask is the public sentinel
(`publicMask_notMem_viewerMasks`).
-/

namespace RedArchKM.Access

open List

/-! ## Dimension tables -/

/-- A row of a dimension table: a region, a role, a group or a department of an org. Its
number lies strictly between the number of "unassigned" and the wildcard. -/
structure Dimension (wildcard : Nat) where
  name : String
  permissionNumber : Nat
  pos : 0 < permissionNumber
  lt_wildcard : permissionNumber < wildcard
deriving DecidableEq

/-- The rows of one dimension of an org. Names are unique in an org, and so are the numbers
that creation hands out. -/
structure DimensionTable (wildcard : Nat) where
  rows : List (Dimension wildcard)
  names_nodup : (rows.map Dimension.name).Nodup
  numbers_nodup : (rows.map Dimension.permissionNumber).Nodup

structure Org where
  permissionNumber : Nat
  regions : DimensionTable maxRegion
  departments : DimensionTable maxDept
  roles : DimensionTable maxRole
  groups : DimensionTable maxGroup
  number_le : permissionNumber ≤ maxOrgId

theorem le_foldr_max {numbers : List Nat} {number : Nat} (member : number ∈ numbers) :
    number ≤ numbers.foldr max 0 := by
  induction numbers with
  | nil => simp at member
  | cons first rest ih =>
    rcases mem_cons.mp member with rfl | later
    · exact Nat.le_max_left _ _
    · exact Nat.le_trans (ih later) (Nat.le_max_right _ _)

namespace DimensionTable

variable {wildcard : Nat}

def empty (wildcard : Nat) : DimensionTable wildcard := ⟨[], nodup_nil, nodup_nil⟩

section

variable (table : DimensionTable wildcard)

/-- The highest number in use, `0` in an empty table. -/
def lastNum : Nat :=
  (table.rows.map Dimension.permissionNumber).foldr max 0

theorem le_lastNum {dimension : Dimension wildcard} (member : dimension ∈ table.rows) :
    dimension.permissionNumber ≤ table.lastNum :=
  le_foldr_max (mem_map_of_mem member)

theorem succ_lastNum_notMem : table.lastNum + 1 ∉ table.rows.map Dimension.permissionNumber := by
  intro used
  obtain ⟨dimension, member, same⟩ := mem_map.mp used
  have := table.le_lastNum member
  omega

end

inductive CreateError where
  | dimensionLimitReached
  | nameTaken

/-- Create a dimension: it gets the number after the highest one in use, unless that would be
the wildcard. -/
def create (table : DimensionTable wildcard) (name : String) :
    Except CreateError (DimensionTable wildcard) :=
  if room : table.lastNum + 1 < wildcard then
    if taken : name ∈ table.rows.map Dimension.name then .error .nameTaken
    else .ok {
      rows := table.rows ++ [⟨name, table.lastNum + 1, Nat.succ_pos _, room⟩]
      names_nodup := by
        simpa [map_append] using Nodup.concat taken table.names_nodup
      numbers_nodup := by
        simpa [map_append] using
          Nodup.concat table.succ_lastNum_notMem table.numbers_nodup }
  else .error .dimensionLimitReached

end DimensionTable

def resolveDimensionNumber {wildcard : Nat} (table : DimensionTable wildcard) (name : String) :
    Option Nat :=
  (table.rows.find? fun dimension => dimension.name = name).map Dimension.permissionNumber

/-! ## Configs to masks -/

/-- One entry of a permission config: the dimensions it names. -/
structure ConfigEntry where
  region : Option String := none
  department : Option String := none
  role : Option String := none
  group : Option String := none
deriving DecidableEq

/-- The number a config entry asks for in a dimension: a dimension it does not name is the
wildcard, and a name that does not resolve has none. -/
def namedOrWildcard {wildcard : Nat} (table : DimensionTable wildcard) : Option String → Option Nat
  | some name => resolveDimensionNumber table name
  | none => some wildcard

/-- The fields of an entry's mask; none when a named dimension does not resolve. -/
def resolveEntry (org : Org) (entry : ConfigEntry) : Option MaskFields := do
  let region ← namedOrWildcard org.regions entry.region
  let dept ← namedOrWildcard org.departments entry.department
  let role ← namedOrWildcard org.roles entry.role
  let group ← namedOrWildcard org.groups entry.group
  return ⟨org.permissionNumber, region, role, group, dept⟩

/-- Convert a permission config to a list of masks. Entries that do not resolve are skipped. -/
def permissionConfigToMasks (org : Option Org) (config : Option (List ConfigEntry)) :
    Except String (List Nat) :=
  match config, org with
  | none, _ => .ok []
  | some [], _ => .ok []
  | some (_ :: _), none => .ok []
  | some (entry :: entries), some org =>
    ((entry :: entries).filterMap (resolveEntry org)).mapM encode

/-! ## Memberships to masks -/

/-- A membership of an org: the dimensions of the org assigned to a member. -/
structure Membership (org : Org) where
  regions : List (Dimension maxRegion)
  departments : List (Dimension maxDept)
  roles : List (Dimension maxRole)
  groups : List (Dimension maxGroup)
  regions_subset : regions ⊆ org.regions.rows
  departments_subset : departments ⊆ org.departments.rows
  roles_subset : roles ⊆ org.roles.rows
  groups_subset : groups ⊆ org.groups.rows

/-- An unassigned dimension contributes `0`. -/
def orZero : List Nat → List Nat
  | [] => [0]
  | numbers => numbers

def tooManyAccessMasks (count : Nat) : String :=
  s!"This membership or API key has too many permission assignments to filter on " ++
  s!"({count} masks; the limit is {maxAccessKeys}). Ask an org admin to reduce its " ++
  "regions, departments, roles or groups."

/-- Every mask a set of dimension assignments can match, with wildcard variants. -/
def calculateMasksFromAssignments (orgNumber : Nat) (regions departments roles groups : List Nat) :
    Except String (List Nat) := do
  let masks ← memberMasks orgNumber (orZero regions) (orZero roles) (orZero groups)
    (orZero departments)
  if masks.length > maxAccessKeys then throw (tooManyAccessMasks masks.length)
  return masks

/-- Every mask a member can match. -/
def calculateUserMasksFromMembership {org : Org} (membership : Membership org) (orgNumber : Nat) :
    Except String (List Nat) :=
  calculateMasksFromAssignments orgNumber (membership.regions.map Dimension.permissionNumber)
    (membership.departments.map Dimension.permissionNumber)
    (membership.roles.map Dimension.permissionNumber)
    (membership.groups.map Dimension.permissionNumber)

/-- The sentinel mask of public content. -/
def publicMask : Nat := 0

/-! ## What a membership satisfies -/

/-- What an entry asks for in one dimension is met: a dimension it names exists in the org and
is assigned. -/
def DimensionSatisfied {wildcard : Nat} (table : DimensionTable wildcard)
    (assigned : List (Dimension wildcard)) (named : Option String) : Prop :=
  ∀ name, named = some name →
    ∃ dimension ∈ table.rows, dimension.name = name ∧ dimension ∈ assigned

/-- All named dimensions of the entry resolve, and each of them is assigned to the membership. -/
structure Membership.Satisfies {org : Org} (membership : Membership org) (entry : ConfigEntry) :
    Prop where
  region : DimensionSatisfied org.regions membership.regions entry.region
  department : DimensionSatisfied org.departments membership.departments entry.department
  role : DimensionSatisfied org.roles membership.roles entry.role
  group : DimensionSatisfied org.groups membership.groups entry.group

section Dimension

variable {wildcard : Nat} {table : DimensionTable wildcard}

theorem resolveDimensionNumber_eq_some {name : String} {number : Nat} :
    resolveDimensionNumber table name = some number ↔
      ∃ dimension ∈ table.rows, dimension.name = name ∧ dimension.permissionNumber = number := by
  simp only [resolveDimensionNumber, Option.map_eq_some_iff]
  constructor
  · rintro ⟨dimension, found, rfl⟩
    exact ⟨dimension, mem_of_find?_eq_some found, by simpa using find?_some found, rfl⟩
  · rintro ⟨dimension, member, rfl, rfl⟩
    cases found : table.rows.find? fun row => row.name = dimension.name with
    | none => simpa using find?_eq_none.mp found dimension member
    | some row =>
      have same : row.name = dimension.name := by simpa using find?_some found
      obtain rfl := inj_on_of_nodup_map table.names_nodup (mem_of_find?_eq_some found) member same
      exact ⟨row, rfl, rfl⟩

theorem namedOrWildcard_bounds {named : Option String} {number : Nat} (maximum : 0 < wildcard)
    (asked : namedOrWildcard table named = some number) : 0 < number ∧ number ≤ wildcard := by
  cases named with
  | none =>
    obtain rfl : wildcard = number := by simpa [namedOrWildcard] using asked
    exact ⟨maximum, Nat.le_refl _⟩
  | some name =>
    obtain ⟨dimension, -, -, rfl⟩ := resolveDimensionNumber_eq_some.mp asked
    exact ⟨dimension.pos, Nat.le_of_lt dimension.lt_wildcard⟩

theorem mem_orZero_of_pos {numbers : List Nat} {number : Nat} (pos : 0 < number) :
    number ∈ orZero numbers ↔ number ∈ numbers := by
  cases numbers with
  | nil => simp [orZero, Nat.ne_of_gt pos]
  | cons _ _ => rfl

/-- **One dimension of a mask match.** The number asked for is among the asserted values exactly
when the dimension is satisfied. -/
theorem dimensionSatisfied_iff {assigned : List (Dimension wildcard)} (named : Option String)
    (subset : assigned ⊆ table.rows) :
    DimensionSatisfied table assigned named ↔
      ∃ number, namedOrWildcard table named = some number ∧
        (number ∈ orZero (assigned.map Dimension.permissionNumber) ∨ number = wildcard) := by
  cases named with
  | none => exact ⟨fun _ => ⟨wildcard, rfl, .inr rfl⟩, fun _ _ absent => by cases absent⟩
  | some name =>
    constructor
    · intro satisfied
      obtain ⟨dimension, member, named, given⟩ := satisfied name rfl
      refine ⟨dimension.permissionNumber,
        resolveDimensionNumber_eq_some.mpr ⟨dimension, member, named, rfl⟩, .inl ?_⟩
      exact (mem_orZero_of_pos dimension.pos).mpr (mem_map_of_mem given)
    · rintro ⟨number, asked, asserted⟩ _ ⟨⟩
      obtain ⟨dimension, member, named, rfl⟩ := resolveDimensionNumber_eq_some.mp asked
      refine ⟨dimension, member, named, ?_⟩
      have own := asserted.resolve_right (Nat.ne_of_lt dimension.lt_wildcard)
      obtain ⟨given, inAssigned, sameNumber⟩ :=
        mem_map.mp ((mem_orZero_of_pos dimension.pos).mp own)
      exact inj_on_of_nodup_map table.numbers_nodup (subset inAssigned) member sameNumber ▸
        inAssigned

end Dimension

/-! ## Resolved entries -/

section Entries

variable {org : Org}

theorem resolveEntry_eq_some {entry : ConfigEntry} {fields : MaskFields} :
    resolveEntry org entry = some fields ↔
      fields.org = org.permissionNumber ∧
        namedOrWildcard org.regions entry.region = some fields.region ∧
        namedOrWildcard org.departments entry.department = some fields.dept ∧
        namedOrWildcard org.roles entry.role = some fields.role ∧
        namedOrWildcard org.groups entry.group = some fields.group := by
  cases fields
  simp only [resolveEntry, Option.bind_eq_bind, Option.bind_eq_some_iff, Option.pure_def,
    Option.some.injEq, MaskFields.mk.injEq]
  grind

theorem inRange_of_resolveEntry {entry : ConfigEntry} {fields : MaskFields}
    (resolved : resolveEntry org entry = some fields) : fields.InRange := by
  obtain ⟨sameOrg, region, dept, role, group⟩ := resolveEntry_eq_some.mp resolved
  exact {
    org := sameOrg ▸ org.number_le
    region := (namedOrWildcard_bounds (by decide) region).2
    role := (namedOrWildcard_bounds (by decide) role).2
    group := (namedOrWildcard_bounds (by decide) group).2
    dept := (namedOrWildcard_bounds (by decide) dept).2 }

def viewerMasks (org : Org) (entries : List ConfigEntry) : List Nat :=
  (entries.filterMap (resolveEntry org)).map MaskFields.word

theorem mem_viewerMasks {entries : List ConfigEntry} {mask : Nat} :
    mask ∈ viewerMasks org entries ↔
      ∃ entry ∈ entries, ∃ fields, resolveEntry org entry = some fields ∧ fields.word = mask := by
  simp only [viewerMasks, mem_map, mem_filterMap]
  grind

theorem permissionConfigToMasks_some (config : Option (List ConfigEntry)) :
    permissionConfigToMasks (some org) config = .ok (viewerMasks org (config.getD [])) := by
  match config with
  | none => rfl
  | some [] => rfl
  | some (entry :: entries) =>
    refine mapM_encode_of_inRange _ fun fields member => ?_
    obtain ⟨source, -, resolved⟩ := mem_filterMap.mp member
    exact inRange_of_resolveEntry resolved

end Entries

/-! ## Asserted masks -/

namespace Membership

variable {org : Org} (membership : Membership org)

def tuples : List MaskFields :=
  memberTuples org.permissionNumber
    (orZero (membership.regions.map Dimension.permissionNumber))
    (orZero (membership.roles.map Dimension.permissionNumber))
    (orZero (membership.groups.map Dimension.permissionNumber))
    (orZero (membership.departments.map Dimension.permissionNumber))

def masks : List Nat := membership.tuples.map MaskFields.word

/-- The membership expands to no more masks than the stores filter on. -/
def UnderCap : Prop := membership.tuples.length ≤ maxAccessKeys

end Membership

theorem orZero_le {wildcard : Nat} (assigned : List (Dimension wildcard)) :
    ∀ value ∈ orZero (assigned.map Dimension.permissionNumber), value ≤ wildcard := by
  intro value member
  rcases Nat.eq_zero_or_pos value with rfl | pos
  · exact Nat.zero_le _
  · obtain ⟨dimension, -, rfl⟩ := mem_map.mp ((mem_orZero_of_pos pos).mp member)
    exact Nat.le_of_lt dimension.lt_wildcard

section Masks

variable {org : Org} {membership : Membership org}

theorem tuples_inRange : ∀ fields ∈ membership.tuples, fields.InRange :=
  memberTuples_inRange org.number_le (orZero_le _) (orZero_le _) (orZero_le _) (orZero_le _)

theorem calculateUserMasks_of_underCap (cap : membership.UnderCap) :
    calculateUserMasksFromMembership membership org.permissionNumber = .ok membership.masks := by
  have expanded : memberMasks org.permissionNumber
      (orZero (membership.regions.map Dimension.permissionNumber))
      (orZero (membership.roles.map Dimension.permissionNumber))
      (orZero (membership.groups.map Dimension.permissionNumber))
      (orZero (membership.departments.map Dimension.permissionNumber)) = .ok membership.masks :=
    mapM_encode_of_inRange _ tuples_inRange
  have small : ¬ membership.masks.length > maxAccessKeys := by
    simpa [Membership.masks] using Nat.not_lt.mpr cap
  simp only [calculateUserMasksFromMembership, calculateMasksFromAssignments, expanded]
  simp only [bind, Except.bind, if_neg small]
  rfl

theorem satisfies_iff {entry : ConfigEntry} :
    membership.Satisfies entry ↔
      ∃ fields, resolveEntry org entry = some fields ∧ fields ∈ membership.tuples := by
  constructor
  · intro satisfied
    obtain ⟨region, askedRegion, inRegions⟩ :=
      (dimensionSatisfied_iff _ membership.regions_subset).mp satisfied.region
    obtain ⟨dept, askedDept, inDepts⟩ :=
      (dimensionSatisfied_iff _ membership.departments_subset).mp satisfied.department
    obtain ⟨role, askedRole, inRoles⟩ :=
      (dimensionSatisfied_iff _ membership.roles_subset).mp satisfied.role
    obtain ⟨group, askedGroup, inGroups⟩ :=
      (dimensionSatisfied_iff _ membership.groups_subset).mp satisfied.group
    exact ⟨⟨org.permissionNumber, region, role, group, dept⟩,
      resolveEntry_eq_some.mpr ⟨rfl, askedRegion, askedDept, askedRole, askedGroup⟩,
      mem_memberTuples.mpr ⟨rfl, inRegions, inRoles, inGroups, inDepts⟩⟩
  · rintro ⟨fields, resolved, asserted⟩
    obtain ⟨-, region, dept, role, group⟩ := resolveEntry_eq_some.mp resolved
    obtain ⟨-, inRegions, inRoles, inGroups, inDepts⟩ := mem_memberTuples.mp asserted
    exact {
      region := (dimensionSatisfied_iff _ membership.regions_subset).mpr ⟨_, region, inRegions⟩
      department :=
        (dimensionSatisfied_iff _ membership.departments_subset).mpr ⟨_, dept, inDepts⟩
      role := (dimensionSatisfied_iff _ membership.roles_subset).mpr ⟨_, role, inRoles⟩
      group := (dimensionSatisfied_iff _ membership.groups_subset).mpr ⟨_, group, inGroups⟩ }

/-- **Sharing a mask is satisfying an entry.** -/
theorem sharesMask_iff {entries : List ConfigEntry} :
    (∃ mask ∈ viewerMasks org entries, mask ∈ membership.masks) ↔
      ∃ entry ∈ entries, membership.Satisfies entry := by
  constructor
  · rintro ⟨mask, viewer, asserted⟩
    obtain ⟨entry, member, fields, resolved, rfl⟩ := mem_viewerMasks.mp viewer
    obtain ⟨own, inTuples, same⟩ := mem_map.mp asserted
    obtain rfl :=
      (MaskFields.word_inj (tuples_inRange own inTuples) (inRange_of_resolveEntry resolved)).mp same
    exact ⟨entry, member, satisfies_iff.mpr ⟨own, resolved, inTuples⟩⟩
  · rintro ⟨entry, member, satisfied⟩
    obtain ⟨fields, resolved, inTuples⟩ := satisfies_iff.mp satisfied
    exact ⟨fields.word, mem_viewerMasks.mpr ⟨entry, member, fields, resolved, rfl⟩,
      mem_map_of_mem inTuples⟩

end Masks

/-! ## The masks of an org -/

def OfOrg (org : Org) (mask : Nat) : Prop :=
  ∃ fields : MaskFields, fields.InRange ∧ fields.org = org.permissionNumber ∧ fields.word = mask

theorem ofOrg_of_mem_viewerMasks {org : Org} {entries : List ConfigEntry} {mask : Nat}
    (member : mask ∈ viewerMasks org entries) : OfOrg org mask := by
  obtain ⟨entry, -, fields, resolved, rfl⟩ := mem_viewerMasks.mp member
  exact ⟨fields, inRange_of_resolveEntry resolved, (resolveEntry_eq_some.mp resolved).1, rfl⟩

theorem ofOrg_of_mem_masks {org : Org} {membership : Membership org} {mask : Nat}
    (member : mask ∈ membership.masks) : OfOrg org mask := by
  obtain ⟨fields, inTuples, rfl⟩ := mem_map.mp member
  exact ⟨fields, tuples_inRange fields inTuples, (mem_memberTuples.mp inTuples).1, rfl⟩

theorem OfOrg.number_unique {org other : Org} {mask : Nat} (first : OfOrg org mask)
    (second : OfOrg other mask) : org.permissionNumber = other.permissionNumber := by
  obtain ⟨fields, inRange, sameOrg, rfl⟩ := first
  obtain ⟨fields', inRange', sameOrg', same⟩ := second
  obtain rfl := (MaskFields.word_inj inRange' inRange).mp same
  exact sameOrg.symm.trans sameOrg'

/-- No config mask is the public sentinel: a config names a number or the wildcard in every
dimension, never `0`. -/
theorem publicMask_notMem_viewerMasks {org : Org} {entries : List ConfigEntry} :
    publicMask ∉ viewerMasks org entries := by
  intro member
  obtain ⟨entry, -, fields, resolved, zero⟩ := mem_viewerMasks.mp member
  have inRange := inRange_of_resolveEntry resolved
  have nowhere : MaskFields.InRange ⟨0, 0, 0, 0, 0⟩ := by constructor <;> decide
  obtain rfl := (MaskFields.word_inj inRange nowhere).mp zero
  have region := (resolveEntry_eq_some.mp resolved).2.1
  exact Nat.lt_irrefl 0 (namedOrWildcard_bounds (by decide) region).1

/-- **Mask matching decides exactly the permission config.** -/
theorem permissionConfig_decides {org : Org} (config : Option (List ConfigEntry))
    (membership : Membership org) (cap : membership.UnderCap) :
    ∃ viewer masks,
      permissionConfigToMasks (some org) config = .ok viewer ∧
      calculateUserMasksFromMembership membership org.permissionNumber = .ok masks ∧
      ((∃ mask ∈ viewer, mask ∈ masks) ↔
        ∃ entry ∈ config.getD [], membership.Satisfies entry) ∧
      publicMask ∉ viewer ∧
      ∀ (other : Org) (otherConfig : Option (List ConfigEntry)) (otherMembership : Membership other),
        other.permissionNumber ≠ org.permissionNumber → otherMembership.UnderCap →
        ∃ otherViewer otherMasks,
          permissionConfigToMasks (some other) otherConfig = .ok otherViewer ∧
          calculateUserMasksFromMembership otherMembership other.permissionNumber =
            .ok otherMasks ∧
          ∀ mask ∈ viewer ++ masks, mask ∉ otherViewer ++ otherMasks := by
  refine ⟨_, _, permissionConfigToMasks_some config, calculateUserMasks_of_underCap cap,
    sharesMask_iff, publicMask_notMem_viewerMasks, ?_⟩
  intro other otherConfig otherMembership different otherCap
  refine ⟨_, _, permissionConfigToMasks_some otherConfig, calculateUserMasks_of_underCap otherCap,
    fun mask here there => different ?_⟩
  have own : OfOrg org mask :=
    (mem_append.mp here).elim ofOrg_of_mem_viewerMasks ofOrg_of_mem_masks
  have foreign : OfOrg other mask :=
    (mem_append.mp there).elim ofOrg_of_mem_viewerMasks ofOrg_of_mem_masks
  exact foreign.number_unique own

/-! ## An org with two regions -/

def north : Dimension maxRegion := ⟨"North", 1, by decide, by decide⟩

def south : Dimension maxRegion := ⟨"South", 2, by decide, by decide⟩

def twoRegions : Org where
  permissionNumber := 1
  regions := ⟨[north, south], by decide, by decide⟩
  departments := .empty _
  roles := .empty _
  groups := .empty _
  number_le := by decide

/-- A member assigned to the north, and to nothing else. -/
def northerner : Membership twoRegions where
  regions := [north]
  departments := []
  roles := []
  groups := []
  regions_subset := by simp [twoRegions]
  departments_subset := nil_subset _
  roles_subset := nil_subset _
  groups_subset := nil_subset _

theorem northerner_underCap : northerner.UnderCap := by
  unfold Membership.UnderCap
  decide

/-- A config that names the north shares a mask with the northerner. -/
theorem permissionConfig_decides_northerner :
    ∃ viewer masks,
      permissionConfigToMasks (some twoRegions) (some [{ region := some "North" }]) = .ok viewer ∧
      calculateUserMasksFromMembership northerner 1 = .ok masks ∧
      ∃ mask ∈ viewer, mask ∈ masks := by
  obtain ⟨viewer, masks, resolved, expanded, decides, -⟩ :=
    permissionConfig_decides (some [{ region := some "North" }]) northerner northerner_underCap
  refine ⟨viewer, masks, resolved, expanded, decides.mpr ⟨_, mem_singleton_self _, ?_⟩⟩
  constructor
  · intro name named
    obtain rfl : "North" = name := by simpa using named
    exact ⟨north, by simp [twoRegions], rfl, by simp [northerner]⟩
  all_goals exact fun _ absent => by cases absent

end RedArchKM.Access
