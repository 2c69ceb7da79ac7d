import Mathlib.Data.Set.Function
import RedArchKM.Promotion.Diff

/-!
# What fingerprints see

A fingerprint is meant to see the content of an object and not the ids that an environment gave
to it and to what it refers to.

It replaces ids under a list of keys, so ids that stand anywhere else are compared as they are:
`fingerprint_rename_iff` says exactly which renamings of local ids it does not see. And it drops
the keys of identity at every depth, not only where an object has its own.
-/

namespace RedArchKM.Promotion

open List

open Workflow (Fields Json)

variable {str : Json → String}

/-! ## Renamed bundles -/

section Rename

variable (newId : String → String)

mutual

/-- The tree with other local ids. Lineage ids stay. -/
def renameTree : Json → Json
  | .null => .null
  | .bool value => .bool value
  | .num value => .num value
  | .str value => .str (newId value)
  | .arr items => .arr (renameItems items)
  | .obj fields => .obj (renameFields fields)

def renameItems : List Json → List Json
  | [] => []
  | item :: items => renameTree item :: renameItems items

def renameFields : Fields → Fields
  | [] => []
  | (key, value) :: fields =>
    (key, if key = "lineage_id" then value else renameTree value) :: renameFields fields

end

/-- The bundle with other local ids. -/
def renameResources (resources : Resources) : Resources :=
  resources.map fun entry => (entry.1, entry.2.map (renameFields newId))

end Rename

mutual

/-- Lineage ids are ids: neither objects nor arrays. -/
def plainLineages : Json → Bool
  | .null => true
  | .bool _ => true
  | .num _ => true
  | .str _ => true
  | .arr items => plainLineagesItems items
  | .obj fields => plainLineagesFields fields

def plainLineagesItems : List Json → Bool
  | [] => true
  | item :: items => plainLineages item && plainLineagesItems items

def plainLineagesFields : Fields → Bool
  | [] => true
  | (key, value) :: fields =>
    (match key == "lineage_id", value with
      | true, .arr _ => false
      | true, .obj _ => false
      | _, _ => true) && plainLineages value && plainLineagesFields fields

end

def rowColumns : List String := ["fields", "relationships"]

/-- The id of an object, and those of the rows in it. -/
def localIdsOf (obj : Fields) : List Json :=
  Fields.get obj "id" :: rowColumns.flatMap fun column =>
    match Fields.get obj column with
    | .arr rows => rows.map fun row => match row with
        | .obj fields => Fields.get fields "id"
        | _ => .null
    | _ => []

def Resources.strings (resources : Resources) : List String :=
  resources.flatMap fun entry => entry.2.flatMap fun obj =>
    (Json.strings (· ≠ "lineage_id") none (.obj obj)).map Prod.snd

/-- Other ids for the objects of a bundle, different where they were different before. -/
structure Renaming (resources : Resources) (newId : String → String) : Prop where
  plain : ∀ entry ∈ resources, ∀ obj ∈ entry.2, plainLineages (.obj obj) = true
  /-- Only local ids are renamed. -/
  moves : ∀ id, newId id ≠ id →
    ∃ entry ∈ resources, ∃ obj ∈ entry.2, Json.str id ∈ localIdsOf obj
  isUuid : ∀ id, newId id ≠ id → isUuid id = true ∧ isUuid (newId id) = true
  injective : ∀ left ∈ resources.strings, ∀ right ∈ resources.strings,
    newId left = newId right → left = right

/-- The fingerprint sees no change in this string: it is not renamed, or it is replaced by the
lineage of what it refers to. -/
def Unseen (index : LineageIndex) (newId : String → String) (key : Option String)
    (value : String) : Prop :=
  newId value = value ∨ isRefKey key = true ∧ ∃ lineage, index.entry value = some (some lineage)

instance (index : LineageIndex) (newId : String → String) (key : Option String)
    (value : String) : Decidable (Unseen index newId key value) :=
  decidable_of_iff (newId value = value ∨ isRefKey key = true ∧ (index.entry value).join.isSome)
    (by
      unfold Unseen
      cases index.entry value with
      | none => simp
      | some lineage => cases lineage <;> simp)

/-- The fingerprint of the object sees nothing of the renaming. -/
def UnseenIn (index : LineageIndex) (newId : String → String) (obj : Fields) : Prop :=
  ∀ found ∈ Json.strings (· ∉ volatileKeys) none (.obj obj), Unseen index newId found.1 found.2

instance (index : LineageIndex) (newId : String → String) (obj : Fields) :
    Decidable (UnseenIn index newId obj) :=
  inferInstanceAs (Decidable (∀ found ∈ Json.strings (· ∉ volatileKeys) none (.obj obj),
    Unseen index newId found.1 found.2))

/-! ## The lineages of a renamed bundle -/

section Lemmas

variable {newId : String → String}

theorem lookup_renameFields (fields : Fields) (key : String) :
    (renameFields newId fields).lookup key = (fields.lookup key).map fun value =>
        if key = "lineage_id" then value else renameTree newId value := by
  induction fields with
  | nil => rfl
  | cons field fields ih =>
    obtain ⟨name, value⟩ := field
    simp only [renameFields, lookup_cons]
    cases here : key == name with
    | true =>
      obtain rfl := beq_iff_eq.mp here
      rfl
    | false => exact ih

@[simp] theorem lineageOf_renameFields (obj : Fields) :
    lineageOf str (renameFields newId obj) = lineageOf str obj := by
  have lineage : Fields.get (renameFields newId obj) "lineage_id" =
      Fields.get obj "lineage_id" := by
    simp only [Fields.get, lookup_renameFields, if_true, Option.map_id_fun', id_eq]
  unfold lineageOf
  rw [lineage]

/-- Ids are renamed to ids. -/
def KeepsUuids (newId : String → String) : Prop := ∀ id, isUuid (newId id) = isUuid id

variable {resources : Resources} {obj : Fields} {rtype : ResourceType}

theorem Renaming.keepsUuids (renames : Renaming resources newId) : KeepsUuids newId := by
  intro id
  by_cases moved : newId id = id
  · rw [moved]
  · obtain ⟨old, new⟩ := renames.isUuid id moved
    rw [old, new]

/-- The entries of an index under other ids. -/
def LineageIndex.rename (newId : String → String) (index : LineageIndex) : LineageIndex :=
  index.map fun entry => (newId entry.1, entry.2)

theorem lineageEntry_renameFields (uuids : KeepsUuids newId) (obj : Fields) :
    lineageEntry str (renameFields newId obj) = (lineageEntry str obj).rename newId := by
  have id_ : Fields.get (renameFields newId obj) "id" = renameTree newId (Fields.get obj "id") := by
    simp only [Fields.get, lookup_renameFields]
    cases obj.lookup "id" <;> rfl
  unfold lineageEntry
  rw [id_]
  cases Fields.get obj "id" <;> simp only [renameTree, LineageIndex.rename, map_nil]
  rename_i id
  rw [uuids id, lineageOf_renameFields]
  split <;> rfl

theorem LineageIndex.rename_append (left right : LineageIndex) :
    LineageIndex.rename newId (left ++ right) = left.rename newId ++ right.rename newId :=
  map_append

/-- **The index of a renamed tree** has the renamed ids, with the lineages they had. -/
theorem collectLineage_renameTree (uuids : KeepsUuids newId) (tree : Json)
    (plain : plainLineages tree = true) :
    collectLineage str (renameTree newId tree) = (collectLineage str tree).rename newId := by
  induction tree using Json.treeInduction with
  | null => rfl
  | bool _ => rfl
  | num _ => rfl
  | str _ => rfl
  | arr items ih =>
    simp only [renameTree, collectLineage]
    induction items with
    | nil => rfl
    | cons item items rest =>
      obtain ⟨first, others⟩ := forall_mem_cons.mp ih
      simp only [plainLineages, plainLineagesItems, Bool.and_eq_true] at plain
      simp only [renameItems, collectLineageItems, LineageIndex.rename_append]
      rw [first plain.1, rest others plain.2]
  | obj fields ih =>
    simp only [renameTree, collectLineage, LineageIndex.rename_append]
    rw [lineageEntry_renameFields uuids]
    congr 1
    induction fields with
    | nil => rfl
    | cons field fields rest =>
      obtain ⟨key, value⟩ := field
      obtain ⟨first, others⟩ := forall_mem_cons.mp ih
      simp only [plainLineages, plainLineagesFields, Bool.and_eq_true] at plain rest
      simp only [renameFields, collectLineageFields, LineageIndex.rename_append]
      rw [rest others plain.2]
      congr 1
      split
      · rename_i here
        -- A plain lineage id has no ids in it.
        subst here
        have scalar := plain.1.1
        cases value <;> first | rfl | cases scalar
      · exact first plain.1.2

theorem buildLineageIndex_renameResources (renames : Renaming resources newId) :
    buildLineageIndex str (renameResources newId resources) =
      (buildLineageIndex str resources).rename newId := by
  unfold buildLineageIndex renameResources LineageIndex.rename
  rw [flatMap_map, map_flatMap]
  refine flatMap_congr fun entry member => ?_
  rw [flatMap_map, map_flatMap]
  refine flatMap_congr fun obj isObj => ?_
  exact collectLineage_renameTree renames.keepsUuids (.obj obj) (renames.plain entry member obj isObj)

/-! ## Fingerprints of a renamed bundle -/

theorem walk_renameTree {keep : String → Bool} {rewrite : Option String → String → String}
    (dropped : keep "lineage_id" = false) (tree : Json) : ∀ key,
    Json.walk keep rewrite key (renameTree newId tree) =
      Json.walk keep (fun key value => rewrite key (newId value)) key tree := by
  induction tree using Json.treeInduction with
  | null => intro key; rfl
  | bool _ => intro key; rfl
  | num _ => intro key; rfl
  | str _ => intro key; rfl
  | arr items ih =>
    intro key
    simp only [renameTree, Json.walk, Json.arr.injEq]
    induction items with
    | nil => rfl
    | cons item items rest =>
      obtain ⟨first, others⟩ := forall_mem_cons.mp ih
      simp only [renameItems, Json.walkItems]
      rw [first key, rest others]
  | obj fields ih =>
    intro key
    simp only [renameTree, Json.walk, Json.obj.injEq]
    induction fields with
    | nil => rfl
    | cons field fields rest =>
      obtain ⟨name, value⟩ := field
      obtain ⟨first, others⟩ := forall_mem_cons.mp ih
      simp only [renameFields, Json.walkFields]
      rw [rest others]
      by_cases lineage : name = "lineage_id"
      · subst lineage
        simp only [dropped, Bool.false_eq_true, if_false]
      · rw [if_neg lineage, first (some name)]

theorem mem_strings_of_mem_lineageEntry {fields : Fields} {entry : String × Option String}
    (member : entry ∈ lineageEntry str fields) :
    entry.1 ∈ (Json.stringsOfFields (· ≠ "lineage_id") fields).map Prod.snd := by
  unfold lineageEntry at member
  split at member
  · rename_i id here
    split at member
    · obtain rfl := mem_singleton.mp member
      clear member
      unfold Fields.get at here
      induction fields with
      | nil => cases here
      | cons field fields ih =>
        obtain ⟨name, value⟩ := field
        simp only [Json.stringsOfFields, map_append, mem_append]
        rw [lookup_cons] at here
        cases isId : "id" == name with
        | true =>
          obtain rfl := beq_iff_eq.mp isId
          subst here
          left
          exact mem_singleton_self id
        | false =>
          simp only [isId] at here
          exact .inr (ih here)
    · cases member
  · cases member

theorem mem_strings_of_mem_collectLineage (tree : Json) (plain : plainLineages tree = true) :
    ∀ key, ∀ entry ∈ collectLineage str tree,
      entry.1 ∈ (Json.strings (· ≠ "lineage_id") key tree).map Prod.snd := by
  induction tree using Json.treeInduction with
  | null => intro key entry member; cases member
  | bool _ => intro key entry member; cases member
  | num _ => intro key entry member; cases member
  | str _ => intro key entry member; cases member
  | arr items ih =>
    intro key entry member
    simp only [Json.strings, collectLineage, plainLineages] at plain member ⊢
    induction items with
    | nil => cases member
    | cons item items rest =>
      obtain ⟨first, others⟩ := forall_mem_cons.mp ih
      simp only [plainLineagesItems, Bool.and_eq_true] at plain
      simp only [Json.stringsOfItems, map_append, mem_append]
      rcases mem_append.mp member with here | there
      · exact .inl (first plain.1 key entry here)
      · exact .inr (rest others plain.2 there)
  | obj fields ih =>
    intro key entry member
    simp only [Json.strings, collectLineage, plainLineages] at plain member ⊢
    rcases mem_append.mp member with own | nested
    · exact mem_strings_of_mem_lineageEntry own
    · clear member
      induction fields with
      | nil => cases nested
      | cons field fields rest =>
        obtain ⟨name, value⟩ := field
        obtain ⟨first, others⟩ := forall_mem_cons.mp ih
        simp only [plainLineagesFields, Bool.and_eq_true] at plain
        simp only [Json.stringsOfFields, map_append, mem_append]
        rcases mem_append.mp nested with here | there
        · left
          by_cases lineage : name = "lineage_id"
          · subst lineage
            have scalar := plain.1.1
            cases value <;> first | cases here | cases scalar
          · rw [if_pos (decide_eq_true lineage)]
            exact first plain.1.2 (some name) entry here
        · exact .inr (rest others plain.2 there)

theorem mem_strings_of_mem_index (renames : Renaming resources newId)
    {entry : String × Option String} (member : entry ∈ buildLineageIndex str resources) :
    entry.1 ∈ resources.strings := by
  obtain ⟨kind, isKind, member⟩ := mem_flatMap.mp member
  obtain ⟨obj, isObj, member⟩ := mem_flatMap.mp member
  refine mem_flatMap.mpr ⟨kind, isKind, mem_flatMap.mpr ⟨obj, isObj, ?_⟩⟩
  exact mem_strings_of_mem_collectLineage (.obj obj) (renames.plain kind isKind obj isObj) none
    entry member

theorem entry_rename {ids : List String} (index : LineageIndex)
    (injective : ∀ left ∈ ids, ∀ right ∈ ids, newId left = newId right → left = right)
    (known : ∀ entry ∈ index, entry.1 ∈ ids) {id : String} (member : id ∈ ids) :
    (index.rename newId).entry (newId id) = index.entry id := by
  unfold LineageIndex.entry LineageIndex.rename
  rw [← map_reverse]
  have known' : ∀ entry ∈ index.reverse, entry.1 ∈ ids :=
    fun entry isEntry => known entry (mem_reverse.mp isEntry)
  generalize index.reverse = entries at known' ⊢
  induction entries with
  | nil => rfl
  | cons entry entries ih =>
    obtain ⟨found, lineage⟩ := entry
    obtain ⟨first, others⟩ := forall_mem_cons.mp known'
    have same : (newId id == newId found) = (id == found) := by
      rw [Bool.eq_iff_iff, beq_iff_eq, beq_iff_eq]
      exact ⟨injective id member found first, fun equal => by rw [equal]⟩
    simp only [map_cons, lookup_cons, same, ih others]

/-- A string reads the same in the fingerprints of both bundles exactly when its renaming is
unseen. -/
theorem normalizeRef_rename_iff (renames : Renaming resources newId) {value : String}
    (member : value ∈ resources.strings) (key : Option String) :
    normalizeRef (buildLineageIndex str resources) key value =
        normalizeRef ((buildLineageIndex str resources).rename newId) key (newId value) ↔
      Unseen (buildLineageIndex str resources) newId key value := by
  have sameEntry := entry_rename (buildLineageIndex str resources) renames.injective
    (fun entry isEntry => mem_strings_of_mem_index renames isEntry) member
  have sameKind := renames.keepsUuids value
  unfold normalizeRef Unseen LineageIndex.resolve
  rw [sameEntry, sameKind]
  by_cases kept : newId value = value
  · simp only [kept, true_or]
  · have uuid := (renames.isUuid value kept).1
    rw [uuid, Bool.and_true]
    by_cases isRef : isRefKey key = true
    · rw [if_pos isRef, if_pos isRef]
      cases (buildLineageIndex str resources).entry value with
      | none => simp [isRef, eq_comm]
      | some lineage => cases lineage <;> simp [isRef, eq_comm]
    · rw [if_neg isRef, if_neg isRef]
      simp only [isRef, false_and, or_false, Bool.false_eq_true]
      exact eq_comm

theorem mem_strings_of_read {entry : ResourceType × List Fields} (member : entry ∈ resources)
    (isObj : obj ∈ entry.2) {found : Option String × String}
    (read : found ∈ Json.strings (· ∉ volatileKeys) none (.obj obj)) :
    found.2 ∈ resources.strings := by
  have less : ∀ key : String, decide (key ∉ volatileKeys) = true →
      decide (key ≠ "lineage_id") = true := by
    intro key kept
    simp only [volatileKeys, mem_cons, not_or, decide_eq_true_eq] at kept ⊢
    exact kept.2.1
  refine mem_flatMap.mpr ⟨entry, member, mem_flatMap.mpr ⟨obj, isObj, ?_⟩⟩
  exact mem_map_of_mem (Json.strings_subset less (.obj obj) none read)

/-- **What renamings a fingerprint sees.** -/
theorem fingerprint_rename_iff (renames : Renaming resources newId)
    {entry : ResourceType × List Fields} (member : entry ∈ resources) (isObj : obj ∈ entry.2) :
    fingerprint obj (buildLineageIndex str resources) =
        fingerprint (renameFields newId obj)
          (buildLineageIndex str (renameResources newId resources)) ↔
      UnseenIn (buildLineageIndex str resources) newId obj := by
  have dropped : decide ("lineage_id" ∉ volatileKeys) = false := by decide
  unfold fingerprint canonicalize
  rw [buildLineageIndex_renameResources renames]
  rw [show Json.obj (renameFields newId obj) = renameTree newId (.obj obj) from rfl,
    walk_renameTree dropped, Json.sortKeys_walk_eq_iff]
  refine forall₂_congr fun found read => ?_
  exact normalizeRef_rename_iff renames (mem_strings_of_read member isObj read) found.1

/-! ## The diff with a renamed copy -/

/-- As they are exported: every config object has a lineage, different from the others of its
type. -/
def Identified (str : Json → String) (resources : Resources) : Prop :=
  ∀ rtype ∉ dataResourceTypes,
    (∀ obj ∈ resources.get rtype, ∃ lineage, lineageOf str obj = some lineage) ∧
      ((resources.get rtype).map (lineageOf str)).Nodup

instance (str : Json → String) (resources : Resources) : Decidable (Identified str resources) :=
  decidable_of_iff
    (∀ rtype ∉ dataResourceTypes,
      (∀ obj ∈ resources.get rtype, (lineageOf str obj).isSome = true) ∧
        ((resources.get rtype).map (lineageOf str)).Nodup)
    (by simp only [Identified, Option.isSome_iff_exists])

theorem filter_eq_singleton {α β : Type} [DecidableEq β] (column : α → β) {rows : List α}
    (distinct : (rows.map column).Nodup) {row : α} (member : row ∈ rows) :
    rows.filter (fun other => column other = column row) = [row] := by
  induction rows with
  | nil => cases member
  | cons first rows ih =>
    obtain ⟨fresh, distinct⟩ := nodup_cons.mp distinct
    rcases mem_cons.mp member with rfl | member
    · rw [filter_cons_of_pos (by simp), List.cons.injEq, filter_eq_nil_iff]
      refine ⟨rfl, fun other isOther same => fresh ?_⟩
      rw [← of_decide_eq_true same]
      exact mem_map_of_mem isOther
    · rw [filter_cons_of_neg, ih distinct member]
      intro same
      refine fresh ?_
      rw [of_decide_eq_true same]
      exact mem_map_of_mem member

theorem mem_of_mem_get (isObj : obj ∈ resources.get rtype) :
    ∃ entry ∈ resources, obj ∈ entry.2 := by
  unfold Resources.get at isObj
  cases here : resources.lookup rtype with
  | none => rw [here] at isObj; cases isObj
  | some objs =>
    rw [here] at isObj
    obtain ⟨before, after, split, -⟩ := lookup_eq_some_iff.mp here
    exact ⟨(rtype, objs), split ▸ mem_append_right before mem_cons_self, isObj⟩

theorem get_renameResources (resources : Resources) (rtype : ResourceType) :
    (renameResources newId resources).get rtype =
      (resources.get rtype).map (renameFields newId) := by
  unfold Resources.get renameResources
  induction resources with
  | nil => rfl
  | cons entry resources ih =>
    obtain ⟨kind, objs⟩ := entry
    simp only [map_cons, lookup_cons]
    cases rtype == kind with
    | true => rfl
    | false => exact ih

theorem matchTarget_rename (identified : Identified str resources)
    (config : rtype ∉ dataResourceTypes) (isObj : obj ∈ resources.get rtype) :
    matchTarget str rtype obj ((renameResources newId resources).get rtype) =
      some (renameFields newId obj) := by
  obtain ⟨lineages, distinct⟩ := identified rtype config
  obtain ⟨lineage, here⟩ := lineages obj isObj
  have own := filter_eq_singleton (lineageOf str) distinct isObj
  rw [here] at own
  unfold matchTarget
  rw [get_renameResources, here, Option.bind_some, filter_map]
  have through : ((fun target => decide (lineageOf str target = some lineage)) ∘
      renameFields newId) = fun target => decide (lineageOf str target = some lineage) := by
    funext target
    simp only [Function.comp_apply, lineageOf_renameFields]
  rw [through, own]
  rfl

theorem statusOf_rename_iff (renames : Renaming resources newId)
    (identified : Identified str resources) (config : rtype ∉ dataResourceTypes)
    (isObj : obj ∈ resources.get rtype) :
    statusOf str resources (renameResources newId resources) rtype obj = .unchanged ↔
      UnseenIn (buildLineageIndex str resources) newId obj := by
  obtain ⟨entry, member, isEntry⟩ := mem_of_mem_get isObj
  rw [← fingerprint_rename_iff renames member isEntry]
  unfold statusOf
  rw [matchTarget_rename identified config isObj]
  dsimp only
  split <;> rename_i same <;> simp [same]

theorem matched_rename (identified : Identified str resources) (config : rtype ∉ dataResourceTypes)
    {target : Fields} (isTarget : target ∈ (renameResources newId resources).get rtype) :
    idOf str target ∈ (resources.get rtype).filterMap fun src =>
      (matchTarget str rtype src ((renameResources newId resources).get rtype)).map (idOf str) := by
  rw [get_renameResources] at isTarget
  obtain ⟨obj, isObj, rfl⟩ := mem_map.mp isTarget
  refine mem_filterMap.mpr ⟨obj, isObj, ?_⟩
  rw [matchTarget_rename identified config isObj, Option.map_some]

theorem diffResource_rename_iff (renames : Renaming resources newId)
    (identified : Identified str resources) (manage : List ResourceType)
    (config : rtype ∉ dataResourceTypes) :
    ((diffResource str resources (renameResources newId resources) false manage rtype).unchanged =
          (resources.get rtype).length ∧
        (diffResource str resources (renameResources newId resources) false manage
          rtype).objects = []) ↔
      ∀ obj ∈ resources.get rtype, UnseenIn (buildLineageIndex str resources) newId obj := by
  have statuses : ∀ obj ∈ resources.get rtype,
      (statusOf str resources (renameResources newId resources) rtype obj = .unchanged ↔
        UnseenIn (buildLineageIndex str resources) newId obj) :=
    fun obj isObj => statusOf_rename_iff renames identified config isObj
  unfold diffResource
  simp only [config, false_and, if_false, map_map]
  constructor
  · rintro ⟨all, -⟩ obj isObj
    rw [← length_map (Prod.snd ∘ fun src =>
      (src, statusOf str resources (renameResources newId resources) rtype src))] at all
    refine (statuses obj isObj).mp ?_
    exact (count_eq_length.mp all _ (mem_map_of_mem isObj)).symm
  · intro unseen
    refine ⟨?_, append_eq_nil_iff.mpr ⟨?_, ?_⟩⟩
    · conv_rhs => rw [← length_map (Prod.snd ∘ fun src =>
        (src, statusOf str resources (renameResources newId resources) rtype src))]
      refine count_eq_length.mpr fun status member => ?_
      obtain ⟨obj, isObj, rfl⟩ := mem_map.mp member
      exact ((statuses obj isObj).mpr (unseen obj isObj)).symm
    · refine map_eq_nil_iff.mpr (filter_eq_nil_iff.mpr fun entry member => ?_)
      obtain ⟨obj, isObj, rfl⟩ := mem_map.mp member
      rw [(statuses obj isObj).mpr (unseen obj isObj)]
      exact fun changed => of_decide_eq_true changed rfl
    · refine map_eq_nil_iff.mpr ?_
      split
      · refine filter_eq_nil_iff.mpr fun target isTarget gone => ?_
        rw [Bool.and_eq_true] at gone
        exact of_decide_eq_true gone.1 (matched_rename identified config isTarget)
      · rfl

/-- The diff reports every config object as unchanged: unchanged objects are counted, others are
listed. -/
def ReportsUnchanged (resources : Resources) (diff : BundleDiff) : Prop :=
  ∀ found ∈ diff.resources, found.countOnly = false →
    found.unchanged = (resources.get found.resourceType).length ∧ found.objects = []

theorem resourceType_diffResource (source target : Resources) (includeData : Bool)
    (manage : List ResourceType) (rtype : ResourceType) :
    (diffResource str source target includeData manage rtype).resourceType = rtype := by
  unfold diffResource
  split <;> rfl

theorem countOnly_diffResource (source target : Resources) (manage : List ResourceType)
    (rtype : ResourceType) :
    (diffResource str source target false manage rtype).countOnly = false ↔
      rtype ∉ dataResourceTypes := by
  unfold diffResource
  split
  · rename_i data
    simp [data.1]
  · rename_i config
    simpa using config

/-- **What renamings the diff sees.** -/
theorem computeDiff_rename_iff (renames : Renaming resources newId)
    (identified : Identified str resources) (manageDeletesFor : Option (List ResourceType)) :
    ReportsUnchanged resources
        (computeDiff str resources (renameResources newId resources) false manageDeletesFor) ↔
      ∀ rtype ∉ dataResourceTypes, ∀ obj ∈ resources.get rtype,
        UnseenIn (buildLineageIndex str resources) newId obj := by
  unfold ReportsUnchanged computeDiff
  simp only [forall_mem_map, countOnly_diffResource, resourceType_diffResource]
  constructor
  · intro reports rtype config
    exact (diffResource_rename_iff renames identified _ config).mp
      (reports rtype (mem_resourceOrder rtype) config)
  · intro unseen rtype _ config
    exact (diffResource_rename_iff renames identified _ config).mpr (unseen rtype config)

end Lemmas

/-! ## Content -/

def identityKeys : List String := ["id", "lineage_id"]

def stripRow : Json → Json
  | .obj fields => .obj (fields.filter fun field => field.1 ∉ identityKeys)
  | value => value

def stripIdentity (obj : Fields) : Fields :=
  (obj.filter fun field => field.1 ∉ identityKeys).map fun field =>
    match field.2 with
    | .arr rows => (field.1, .arr (if field.1 ∈ rowColumns then rows.map stripRow else rows))
    | value => (field.1, value)

/-- What is exported of an object but for its local ids: the references are read as lineages. -/
def content (index : LineageIndex) (obj : Fields) : Json :=
  Json.sortKeys
    (Json.walk (fun _ => true) (normalizeRef index) none (.obj (stripIdentity obj)))

/-- Nothing in the object but its own identity stands under a volatile key. -/
def Bare (obj : Fields) : Prop :=
  Json.keysKept (· ∉ volatileKeys) (.obj (stripIdentity obj)) = true

instance (obj : Fields) : Decidable (Bare obj) :=
  inferInstanceAs (Decidable (_ = true))

section Content

variable {index : LineageIndex}

theorem volatile_of_identity {key : String} (identity : key ∈ identityKeys) :
    decide (key ∉ volatileKeys) = false := by
  refine decide_eq_false (not_not_intro ?_)
  simp only [identityKeys, volatileKeys, mem_cons] at identity ⊢
  tauto

theorem not_mem_identityKeys_eq_false {key : String}
    (identity : decide (key ∉ identityKeys) = false) : key ∈ identityKeys :=
  not_not.mp (of_decide_eq_false identity)

theorem walk_stripRow (rewrite : Option String → String → String) (key : Option String) (row : Json) :
    Json.walk (· ∉ volatileKeys) rewrite key (stripRow row) =
      Json.walk (· ∉ volatileKeys) rewrite key row := by
  cases row with
  | obj fields =>
    simp only [stripRow, Json.walk]
    rw [Json.walkFields_filter]
    exact fun field identity => volatile_of_identity (not_mem_identityKeys_eq_false identity)
  | _ => rfl

theorem fingerprint_eq_stripIdentity (obj : Fields) :
    fingerprint obj index =
      Json.sortKeys (Json.walk (· ∉ volatileKeys) (normalizeRef index) none
        (.obj (stripIdentity obj))) := by
  unfold fingerprint canonicalize stripIdentity
  simp only [Json.walk]
  rw [Json.walkFields_map, Json.walkFields_filter]
  · exact fun field identity => volatile_of_identity (not_mem_identityKeys_eq_false identity)
  · intro field
    split <;> rfl
  · intro field
    split
    · rename_i rows here
      split
      · rw [here, Json.walk, Json.walk, Json.walkItems_eq_map, Json.walkItems_eq_map, map_map]
        congr 2
        funext row
        exact walk_stripRow (normalizeRef index) (some field.1) row
      · rw [here]
    · rfl

theorem fingerprint_eq_content {obj : Fields} (bare : Bare obj) :
    fingerprint obj index = content index obj := by
  rw [fingerprint_eq_stripIdentity, content, Json.walk_of_keysKept _ bare]

/-- The object with nothing left that a fingerprint drops, but for its identity. -/
def bareOf (obj : Fields) : Fields :=
  obj.filter (fun field => field.1 ∈ identityKeys) ++
    Json.walkFields (· ∉ volatileKeys) (fun _ value => value) (stripIdentity obj)

theorem fingerprint_bareOf (obj : Fields) :
    fingerprint (bareOf obj) index = fingerprint obj index := by
  have own : ∀ field ∈ obj.filter (fun field => field.1 ∈ identityKeys),
      decide (field.1 ∉ volatileKeys) = false := by
    intro field member
    exact volatile_of_identity (of_decide_eq_true (mem_filter.mp member).2)
  rw [fingerprint_eq_stripIdentity obj, ← Json.walk_walk]
  unfold fingerprint canonicalize bareOf
  simp only [Json.walk]
  rw [Json.walkFields_append, Json.walkFields_eq_nil own, nil_append]

theorem lookup_filter_of_chosen (chosen : String → Bool) {key : String} (here : chosen key = true)
    (fields : Fields) :
    (fields.filter fun field => chosen field.1).lookup key = fields.lookup key := by
  induction fields with
  | nil => rfl
  | cons field fields ih =>
    obtain ⟨name, value⟩ := field
    rw [filter_cons]
    cases same : key == name with
    | true =>
      obtain rfl := beq_iff_eq.mp same
      rw [if_pos here, lookup_cons, lookup_cons, same]
    | false =>
      rw [lookup_cons, same]
      split
      · rwa [lookup_cons, same]
      · exact ih

theorem lineageOf_bareOf (obj : Fields) : lineageOf str (bareOf obj) = lineageOf str obj := by
  have none_ : (Json.walkFields (· ∉ volatileKeys) (fun _ value => value)
      (stripIdentity obj)).lookup "lineage_id" = none :=
    Json.lookup_walkFields_of_dropped (volatile_of_identity (by decide)) _
  have same : (bareOf obj).lookup "lineage_id" = obj.lookup "lineage_id" := by
    unfold bareOf
    rw [lookup_append, none_, Option.or_none]
    exact lookup_filter_of_chosen (fun key => decide (key ∈ identityKeys)) (by decide) obj
  unfold lineageOf Fields.get
  rw [same]

theorem fieldCount_stripRow_le (row : Json) : Json.fieldCount (stripRow row) ≤ Json.fieldCount row := by
  cases row with
  | obj fields => exact Json.fieldCountFields_filter_le _ fields
  | _ => exact Nat.le_refl _

theorem fieldCount_stripIdentity_le (obj : Fields) :
    Json.fieldCountFields (stripIdentity obj) ≤ Json.fieldCountFields obj := by
  refine Nat.le_trans (Json.fieldCountFields_map_le ?_ _) (Json.fieldCountFields_filter_le _ obj)
  intro field
  split
  · rename_i rows here
    rw [here]
    split
    · exact Json.fieldCountItems_map_le fieldCount_stripRow_le rows
    · exact Nat.le_refl _
  · exact Nat.le_refl _

theorem content_bareOf_ne {obj : Fields} (hidden : ¬Bare obj) :
    content index (bareOf obj) ≠ content index obj := by
  have lost : Json.fieldCount (Json.walk (· ∉ volatileKeys) (fun _ value => value) none
      (.obj (stripIdentity obj))) < Json.fieldCount (.obj (stripIdentity obj)) := by
    obtain ⟨fewer, same⟩ := Json.fieldCount_walk (.obj (stripIdentity obj)) _ none
    exact Nat.lt_of_le_of_ne fewer (fun equal => hidden (same.mp equal))
  have rest : stripIdentity (bareOf obj) = stripIdentity
      (Json.walkFields (· ∉ volatileKeys) (fun _ value => value) (stripIdentity obj)) := by
    have own : (obj.filter fun field => field.1 ∈ identityKeys).filter
        (fun field => field.1 ∉ identityKeys) = [] := by
      rw [filter_filter, filter_eq_nil_iff]
      intro field _ both
      simp only [Bool.and_eq_true, decide_eq_true_eq] at both
      exact both.1 both.2
    unfold bareOf
    rw [stripIdentity, filter_append, own, nil_append]
    rfl
  intro equal
  have counts := congrArg Json.fieldCount equal
  unfold content at counts
  rw [Json.fieldCount_sortKeys, Json.fieldCount_sortKeys, Json.fieldCount_walk_true,
    Json.fieldCount_walk_true, rest] at counts
  have kept := fieldCount_stripIdentity_le
    (Json.walkFields (· ∉ volatileKeys) (fun _ value => value) (stripIdentity obj))
  simp only [Json.walk, Json.fieldCount] at counts lost
  omega

theorem fingerprint_ne_of_content_ne {other : LineageIndex} {left right : Fields}
    (bareLeft : Bare left) (bareRight : Bare right)
    (differ : content index left ≠ content other right) :
    fingerprint left index ≠ fingerprint right other := by
  rwa [fingerprint_eq_content bareLeft, fingerprint_eq_content bareRight]

end Content

/-- **What the diff sees.** A fingerprint does not change with the local ids exactly when every
renamed id that it reads stands under one of its keys and refers to an exported object; and it
tells objects apart by their content exactly where nothing of them stands under a volatile key. -/
theorem fingerprints_of_renamed_bundle {newId : String → String} {resources : Resources}
    (renames : Renaming resources newId) (identified : Identified str resources) :
    (∀ entry ∈ resources, ∀ obj ∈ entry.2,
        (fingerprint obj (buildLineageIndex str resources) =
            fingerprint (renameFields newId obj)
              (buildLineageIndex str (renameResources newId resources)) ↔
          UnseenIn (buildLineageIndex str resources) newId obj)) ∧
      (∀ manageDeletesFor,
        ReportsUnchanged resources
            (computeDiff str resources (renameResources newId resources) false manageDeletesFor) ↔
          ∀ rtype ∉ dataResourceTypes, ∀ obj ∈ resources.get rtype,
            UnseenIn (buildLineageIndex str resources) newId obj) ∧
      (∀ index other left right, Bare left → Bare right →
        content index left ≠ content other right →
          fingerprint left index ≠ fingerprint right other) ∧
      ∀ index obj, ¬Bare obj → ∃ other, lineageOf str other = lineageOf str obj ∧
        content index other ≠ content index obj ∧ fingerprint other index = fingerprint obj index := by
  refine ⟨?_, ?_, ?_, ?_⟩
  · intro entry member obj isObj
    exact fingerprint_rename_iff renames member isObj
  · intro manageDeletesFor
    exact computeDiff_rename_iff renames identified manageDeletesFor
  · intro index other left right bareLeft bareRight differ
    exact fingerprint_ne_of_content_ne bareLeft bareRight differ
  · intro index obj hidden
    exact ⟨bareOf obj, lineageOf_bareOf obj, content_bareOf_ne hidden, fingerprint_bareOf obj⟩

/-! ## Forms and folders -/

/-- `str` of `None` -/
def strOfNone : Json → String := fun _ => "None"

/-- One id is renamed. -/
def renameOne (old new : String) (id : String) : String := if id = old then new else id

def companyId : String := "11111111-1111-4111-8111-111111111111"

def otherCompanyId : String := "99999999-9999-4999-8999-999999999999"

/-- A form of an entity. -/
def formBundle : Resources :=
  [(.entities, [[("id", .str companyId), ("lineage_id", .str companyId),
      ("name", .str "Company"), ("slug", .str "company"), ("description", .null),
      ("is_active", .bool true), ("fields", .arr []), ("relationships", .arr [])]]),
    (.forms, [[("id", .str "22222222-2222-4222-8222-222222222222"),
      ("lineage_id", .str "22222222-2222-4222-8222-222222222222"),
      ("name", .str "New company"), ("slug", .str "new-company"), ("description", .null),
      ("entity_definition_id", .str companyId), ("config", .obj []), ("is_active", .bool true)]])]

theorem renaming_of_renameOne {resources : Resources} {old new : String}
    (plain : ∀ entry ∈ resources, ∀ obj ∈ entry.2, plainLineages (.obj obj) = true)
    (owned : ∃ entry ∈ resources, ∃ obj ∈ entry.2, Json.str old ∈ localIdsOf obj)
    (uuids : isUuid old = true ∧ isUuid new = true) (fresh : new ∉ resources.strings) :
    Renaming resources (renameOne old new) := by
  have moved : ∀ id, renameOne old new id ≠ id → id = old := by
    intro id changed
    by_contra other
    exact changed (if_neg other)
  refine ⟨plain, ?_, ?_, ?_⟩
  · intro id changed
    rwa [moved id changed]
  · intro id changed
    rwa [moved id changed, renameOne, if_pos rfl]
  · intro left isLeft right isRight same
    unfold renameOne at same
    by_cases oldLeft : left = old <;> by_cases oldRight : right = old
    · rw [oldLeft, oldRight]
    · rw [if_pos oldLeft, if_neg oldRight] at same
      exact absurd (same ▸ isRight) fresh
    · rw [if_neg oldLeft, if_pos oldRight] at same
      exact absurd (same ▸ isLeft) fresh
    · rwa [if_neg oldLeft, if_neg oldRight] at same

theorem renaming_formBundle : Renaming formBundle (renameOne companyId otherCompanyId) :=
  renaming_of_renameOne (by decide +kernel)
    ⟨_, mem_cons_self, _, mem_cons_self, by decide +kernel⟩ (by decide +kernel)
    (by decide +kernel)

/-- The reference of a form to its entity is not seen. -/
theorem fingerprints_of_renamed_bundle_form :
    ReportsUnchanged formBundle
      (computeDiff strOfNone formBundle
        (renameResources (renameOne companyId otherCompanyId) formBundle) false none) :=
  ((fingerprints_of_renamed_bundle renaming_formBundle (by decide +kernel)).2.1 none).mpr
    (by decide +kernel)

def parentId : String := "33333333-3333-4333-8333-333333333333"

def otherParentId : String := "88888888-8888-4888-8888-888888888888"

/-- A folder in another. -/
def nestedFolder : Fields :=
  [("id", .str "44444444-4444-4444-8444-444444444444"),
    ("lineage_id", .str "44444444-4444-4444-8444-444444444444"), ("name", .str "Contracts"),
    ("description", .null), ("dot_path", .str "legal.contracts"), ("parent_id", .str parentId),
    ("order", .num 0), ("viewer_permissions_config", .null),
    ("contributor_permissions_config", .null)]

def folderBundle : Resources :=
  [(.folders, [[("id", .str parentId), ("lineage_id", .str parentId), ("name", .str "Legal"),
      ("description", .null), ("dot_path", .str "legal"), ("parent_id", .null),
      ("order", .num 0), ("viewer_permissions_config", .null),
      ("contributor_permissions_config", .null)], nestedFolder])]

/-- A workflow of two nodes with the edge from the node of that id. -/
def workflowOf (first second : String) : Fields :=
  [("id", .str "55555555-5555-4555-8555-555555555555"),
    ("lineage_id", .str "55555555-5555-4555-8555-555555555555"), ("name", .str "Onboarding"),
    ("description", .null), ("entity_definition_id", .null), ("enabled", .bool true),
    ("run_permission", .obj []), ("active_version_number", .num 1),
    ("versions", .arr [.obj [("version_number", .num 1), ("status", .str "published"),
      ("definition", .obj [
        ("nodes", .arr [.obj [("id", .str first), ("type", .str "trigger")],
          .obj [("id", .str second), ("type", .str "send_email")]]),
        ("edges", .arr [.obj [("source", .str "a"), ("target", .str "b")]])])]])]

/-- A renamed parent folder changes the fingerprint of its children, so the copy is reported as
changed; and a workflow whose trigger comes first has the fingerprint of one whose trigger comes
last, because the ids of the nodes are dropped. -/
theorem fingerprint_sees_parent_and_not_nodes :
    (Renaming folderBundle (renameOne parentId otherParentId) ∧ Identified strOfNone folderBundle ∧
        fingerprint nestedFolder (buildLineageIndex strOfNone folderBundle) ≠
          fingerprint (renameFields (renameOne parentId otherParentId) nestedFolder)
            (buildLineageIndex strOfNone
              (renameResources (renameOne parentId otherParentId) folderBundle)) ∧
        ¬ReportsUnchanged folderBundle
          (computeDiff strOfNone folderBundle
            (renameResources (renameOne parentId otherParentId) folderBundle) false none)) ∧
      (lineageOf strOfNone (workflowOf "a" "b") = lineageOf strOfNone (workflowOf "b" "a") ∧
        content [] (workflowOf "a" "b") ≠ content [] (workflowOf "b" "a") ∧
        fingerprint (workflowOf "a" "b") [] = fingerprint (workflowOf "b" "a") []) := by
  have renames : Renaming folderBundle (renameOne parentId otherParentId) :=
    renaming_of_renameOne (by decide +kernel)
      ⟨_, mem_cons_self, _, mem_cons_self, by decide +kernel⟩ (by decide +kernel)
      (by decide +kernel)
  have identified : Identified strOfNone folderBundle := by decide +kernel
  have child : nestedFolder ∈ folderBundle.get .folders := by decide +kernel
  have seen : ¬UnseenIn (buildLineageIndex strOfNone folderBundle)
      (renameOne parentId otherParentId) nestedFolder := by decide +kernel
  refine ⟨⟨renames, identified, ?_, ?_⟩, by decide +kernel, by decide +kernel, by decide +kernel⟩
  · intro same
    exact seen ((fingerprint_rename_iff renames mem_cons_self
      (mem_cons_of_mem _ mem_cons_self)).mp same)
  · intro reports
    exact seen ((computeDiff_rename_iff renames identified none).mp reports .folders (by decide)
      nestedFolder child)

end RedArchKM.Promotion
