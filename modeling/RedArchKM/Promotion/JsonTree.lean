import RedArchKM.Workflow.Json

/-!
# Walks through JSON trees

A walk rewrites the strings of a tree, each by the key it stands under, and drops the fields of
some keys; the items of an array stand under the key of the array. Two walks that drop the same
fields give the same tree exactly when they rewrite every string alike that the tree has left
(`sortKeys_walk_eq_iff`), whatever order the fields are written in.
-/

namespace RedArchKM.Workflow.Json

open List

/-! ## Trees -/

@[elab_as_elim]
theorem treeInduction {motive : Json → Prop} (null : motive .null)
    (bool : ∀ value, motive (.bool value)) (num : ∀ value, motive (.num value))
    (str : ∀ value, motive (.str value))
    (arr : ∀ items, (∀ item ∈ items, motive item) → motive (.arr items))
    (obj : ∀ fields, (∀ field ∈ fields, motive field.2) → motive (.obj fields)) (tree : Json) :
    motive tree := by
  refine @Json.rec motive (fun items => ∀ item ∈ items, motive item)
    (fun fields => ∀ field ∈ fields, motive field.2) (fun field => motive field.2)
    null bool num str arr obj ?_ ?_ ?_ ?_ ?_ tree
  · exact fun _ member => by cases member
  · exact fun _ _ first rest => forall_mem_cons.mpr ⟨first, rest⟩
  · exact fun _ member => by cases member
  · exact fun _ _ first rest => forall_mem_cons.mpr ⟨first, rest⟩
  · exact fun _ _ value => value

mutual

/-- Whether two trees are equal. -/
def same : Json → Json → Bool
  | .null, .null => true
  | .bool value, .bool other => value = other
  | .num value, .num other => value = other
  | .str value, .str other => value = other
  | .arr items, .arr others => sameItems items others
  | .obj fields, .obj others => sameFields fields others
  | _, _ => false

def sameItems : List Json → List Json → Bool
  | [], [] => true
  | item :: items, other :: others => same item other && sameItems items others
  | _, _ => false

def sameFields : Fields → Fields → Bool
  | [], [] => true
  | (key, value) :: fields, (other, otherValue) :: others =>
    key = other && same value otherValue && sameFields fields others
  | _, _ => false

end

theorem same_iff (tree : Json) : ∀ other, tree.same other = true ↔ tree = other := by
  induction tree using treeInduction with
  | null => intro other; cases other <;> simp [same]
  | bool value => intro other; cases other <;> simp [same]
  | num value => intro other; cases other <;> simp [same]
  | str value => intro other; cases other <;> simp [same]
  | arr items ih =>
    intro other
    cases other <;> simp only [same, reduceCtorEq, Bool.false_eq_true, Json.arr.injEq]
    rename_i others
    induction items generalizing others with
    | nil => cases others <;> simp [sameItems]
    | cons item items rest =>
      obtain ⟨first, remaining⟩ := forall_mem_cons.mp ih
      cases others with
      | nil => simp [sameItems]
      | cons other others =>
        simp only [sameItems, Bool.and_eq_true, List.cons.injEq]
        rw [first, rest remaining]
  | obj fields ih =>
    intro other
    cases other <;> simp only [same, reduceCtorEq, Bool.false_eq_true, Json.obj.injEq]
    rename_i others
    induction fields generalizing others with
    | nil => cases others <;> simp [sameFields]
    | cons field fields rest =>
      obtain ⟨first, remaining⟩ := forall_mem_cons.mp ih
      cases others with
      | nil => simp [sameFields]
      | cons other others =>
        simp only [sameFields, Bool.and_eq_true, decide_eq_true_eq, List.cons.injEq, Prod.ext_iff]
        rw [first, rest remaining]

instance : DecidableEq Json := fun tree other => decidable_of_iff _ (same_iff tree other)

/-! ## Walks -/

section Walk

variable (keep : String → Bool) (rewrite : Option String → String → String)

mutual

/-- Rewrite the strings under their keys, and drop the fields of the keys that are not kept. -/
def walk (key : Option String) : Json → Json
  | .null => .null
  | .bool value => .bool value
  | .num value => .num value
  | .str value => .str (rewrite key value)
  | .arr items => .arr (walkItems key items)
  | .obj fields => .obj (walkFields fields)

def walkItems (key : Option String) : List Json → List Json
  | [] => []
  | item :: items => walk key item :: walkItems key items

def walkFields : Fields → Fields
  | [] => []
  | (key, value) :: fields =>
    if keep key then (key, walk (some key) value) :: walkFields fields else walkFields fields

end

mutual

def strings (key : Option String) : Json → List (Option String × String)
  | .null => []
  | .bool _ => []
  | .num _ => []
  | .str value => [(key, value)]
  | .arr items => stringsOfItems key items
  | .obj fields => stringsOfFields fields

def stringsOfItems (key : Option String) : List Json → List (Option String × String)
  | [] => []
  | item :: items => strings key item ++ stringsOfItems key items

def stringsOfFields : Fields → List (Option String × String)
  | [] => []
  | (key, value) :: fields =>
    (if keep key then strings (some key) value else []) ++ stringsOfFields fields

end

end Walk

theorem walkItems_eq_map (keep : String → Bool) (rewrite : Option String → String → String)
    (key : Option String) (items : List Json) :
    walkItems keep rewrite key items = items.map (walk keep rewrite key) := by
  induction items with
  | nil => rfl
  | cons item items ih => simp only [walkItems, map_cons, ih]

section Fields

variable {keep : String → Bool} {rewrite : Option String → String → String}

theorem walkFields_append (left right : Fields) :
    walkFields keep rewrite (left ++ right) =
      walkFields keep rewrite left ++ walkFields keep rewrite right := by
  induction left with
  | nil => rfl
  | cons field left ih =>
    simp only [cons_append, walkFields, ih]
    split <;> rfl

theorem walkFields_filter {chosen : String × Json → Bool}
    (dropped : ∀ field, chosen field = false → keep field.1 = false) (fields : Fields) :
    walkFields keep rewrite (fields.filter chosen) = walkFields keep rewrite fields := by
  induction fields with
  | nil => rfl
  | cons field fields ih =>
    by_cases here : chosen field = true
    · rw [filter_cons_of_pos here, walkFields, walkFields, ih]
    · rw [filter_cons_of_neg here, walkFields, ih, dropped field (Bool.eq_false_iff.mpr here)]
      rfl

theorem walkFields_eq_nil {fields : Fields} (dropped : ∀ field ∈ fields, keep field.1 = false) :
    walkFields keep rewrite fields = [] := by
  induction fields with
  | nil => rfl
  | cons field fields ih =>
    obtain ⟨first, others⟩ := forall_mem_cons.mp dropped
    rw [walkFields, first, ih others]
    rfl

theorem walkFields_map {change : String × Json → String × Json}
    (keys : ∀ field, (change field).1 = field.1)
    (values : ∀ field, walk keep rewrite (some field.1) (change field).2 =
      walk keep rewrite (some field.1) field.2) (fields : Fields) :
    walkFields keep rewrite (fields.map change) = walkFields keep rewrite fields := by
  induction fields with
  | nil => rfl
  | cons field fields ih =>
    rw [map_cons, walkFields, walkFields, ih, keys, values]

theorem lookup_walkFields_of_dropped {key : String} (dropped : keep key = false)
    (fields : Fields) : (walkFields keep rewrite fields).lookup key = none := by
  induction fields with
  | nil => rfl
  | cons field fields ih =>
    obtain ⟨name, value⟩ := field
    simp only [walkFields]
    split
    · rename_i kept
      have other : (key == name) = false := by
        refine beq_eq_false_iff_ne.mpr fun same => ?_
        rw [same, kept] at dropped
        cases dropped
      rwa [lookup_cons, other]
    · exact ih

end Fields

section Keys

variable {keep other : String → Bool}

theorem strings_subset (less : ∀ key, keep key = true → other key = true) (tree : Json) :
    ∀ key, strings keep key tree ⊆ strings other key tree := by
  induction tree using treeInduction with
  | null => intro key; exact Subset.refl _
  | bool value => intro key; exact Subset.refl _
  | num value => intro key; exact Subset.refl _
  | str value => intro key; exact Subset.refl _
  | arr items ih =>
    intro key
    induction items with
    | nil => exact Subset.refl _
    | cons item items rest =>
      obtain ⟨first, others⟩ := forall_mem_cons.mp ih
      exact append_subset.mpr
        ⟨Subset.trans (first key) (subset_append_left _ _),
          Subset.trans (rest others) (subset_append_right _ _)⟩
  | obj fields ih =>
    intro key
    induction fields with
    | nil => exact Subset.refl _
    | cons field fields rest =>
      obtain ⟨name, value⟩ := field
      obtain ⟨first, others⟩ := forall_mem_cons.mp ih
      refine append_subset.mpr ⟨?_, Subset.trans (rest others) (subset_append_right _ _)⟩
      refine Subset.trans ?_ (subset_append_left _ _)
      by_cases kept : keep name = true
      · rw [if_pos kept, if_pos (less name kept)]
        exact first (some name)
      · rw [if_neg kept]
        exact nil_subset _

variable (keep)

mutual

/-- No field is dropped, at any depth. -/
def keysKept : Json → Bool
  | .null => true
  | .bool _ => true
  | .num _ => true
  | .str _ => true
  | .arr items => keysKeptItems items
  | .obj fields => keysKeptFields fields

def keysKeptItems : List Json → Bool
  | [] => true
  | item :: items => keysKept item && keysKeptItems items

def keysKeptFields : Fields → Bool
  | [] => true
  | (key, value) :: fields => keep key && keysKept value && keysKeptFields fields

end

mutual

/-- The number of fields, at every depth. -/
def fieldCount : Json → Nat
  | .null => 0
  | .bool _ => 0
  | .num _ => 0
  | .str _ => 0
  | .arr items => fieldCountItems items
  | .obj fields => fieldCountFields fields

def fieldCountItems : List Json → Nat
  | [] => 0
  | item :: items => fieldCount item + fieldCountItems items

def fieldCountFields : Fields → Nat
  | [] => 0
  | (_, value) :: fields => fieldCount value + 1 + fieldCountFields fields

end

variable {keep}

mutual

theorem keysKept_true : ∀ tree : Json, keysKept (fun _ => true) tree = true
  | .null => rfl
  | .bool _ => rfl
  | .num _ => rfl
  | .str _ => rfl
  | .arr items => keysKeptItems_true items
  | .obj fields => keysKeptFields_true fields

theorem keysKeptItems_true : ∀ items : List Json, keysKeptItems (fun _ => true) items = true
  | [] => rfl
  | item :: items => by
    rw [keysKeptItems, keysKept_true item, keysKeptItems_true items]
    rfl

theorem keysKeptFields_true : ∀ fields : Fields, keysKeptFields (fun _ => true) fields = true
  | [] => rfl
  | (_, value) :: fields => by
    rw [keysKeptFields, keysKept_true value, keysKeptFields_true fields]
    rfl

end

theorem fieldCountFields_filter_le (chosen : String × Json → Bool) (fields : Fields) :
    fieldCountFields (fields.filter chosen) ≤ fieldCountFields fields := by
  induction fields with
  | nil => exact Nat.le_refl _
  | cons field fields ih =>
    rw [filter_cons]
    split
    · exact Nat.add_le_add_left ih _
    · exact Nat.le_trans ih (Nat.le_add_left _ _)

theorem fieldCountFields_map_le {change : String × Json → String × Json}
    (fewer : ∀ field, fieldCount (change field).2 ≤ fieldCount field.2) (fields : Fields) :
    fieldCountFields (fields.map change) ≤ fieldCountFields fields := by
  induction fields with
  | nil => exact Nat.le_refl _
  | cons field fields ih =>
    exact Nat.add_le_add (Nat.add_le_add_right (fewer field) 1) ih

theorem fieldCountItems_map_le {change : Json → Json}
    (fewer : ∀ item, fieldCount (change item) ≤ fieldCount item) (items : List Json) :
    fieldCountItems (items.map change) ≤ fieldCountItems items := by
  induction items with
  | nil => exact Nat.le_refl _
  | cons item items ih => exact Nat.add_le_add (fewer item) ih

theorem walk_of_keysKept (tree : Json) : keysKept keep tree = true →
    ∀ (rewrite : Option String → String → String) key,
      walk keep rewrite key tree = walk (fun _ => true) rewrite key tree := by
  induction tree using treeInduction with
  | null => intro _ rewrite key; rfl
  | bool value => intro _ rewrite key; rfl
  | num value => intro _ rewrite key; rfl
  | str value => intro _ rewrite key; rfl
  | arr items ih =>
    intro kept rewrite key
    simp only [walk, keysKept, Json.arr.injEq] at kept ⊢
    induction items with
    | nil => rfl
    | cons item items rest =>
      obtain ⟨first, others⟩ := forall_mem_cons.mp ih
      simp only [keysKeptItems, Bool.and_eq_true] at kept
      simp only [walkItems]
      rw [first kept.1 rewrite key, rest others kept.2]
  | obj fields ih =>
    intro kept rewrite key
    simp only [walk, keysKept, Json.obj.injEq] at kept ⊢
    induction fields with
    | nil => rfl
    | cons field fields rest =>
      obtain ⟨name, value⟩ := field
      obtain ⟨first, others⟩ := forall_mem_cons.mp ih
      simp only [keysKeptFields, Bool.and_eq_true] at kept
      simp only [walkFields]
      rw [if_pos kept.1.1, if_pos trivial, first kept.1.2 rewrite (some name), rest others kept.2]

section

variable (tree : Json) (rewrite : Option String → String → String)

theorem fieldCount_walk : ∀ key,
    fieldCount (walk keep rewrite key tree) ≤ fieldCount tree ∧
      (fieldCount (walk keep rewrite key tree) = fieldCount tree ↔ keysKept keep tree = true) := by
  induction tree using treeInduction with
  | null => intro key; simp [walk, fieldCount, keysKept]
  | bool value => intro key; simp [walk, fieldCount, keysKept]
  | num value => intro key; simp [walk, fieldCount, keysKept]
  | str value => intro key; simp [walk, fieldCount, keysKept]
  | arr items ih =>
    intro key
    simp only [walk, fieldCount, keysKept]
    induction items with
    | nil => simp [walkItems, fieldCountItems, keysKeptItems]
    | cons item items rest =>
      obtain ⟨first, others⟩ := forall_mem_cons.mp ih
      obtain ⟨fewer, all⟩ := first key
      obtain ⟨fewerOthers, allOthers⟩ := rest others
      simp only [walkItems, fieldCountItems, keysKeptItems, Bool.and_eq_true]
      rw [← all, ← allOthers]
      omega
  | obj fields ih =>
    intro key
    simp only [walk, fieldCount, keysKept]
    induction fields with
    | nil => simp [walkFields, fieldCountFields, keysKeptFields]
    | cons field fields rest =>
      obtain ⟨name, value⟩ := field
      obtain ⟨first, others⟩ := forall_mem_cons.mp ih
      obtain ⟨fewer, all⟩ := first (some name)
      dsimp only at fewer all
      obtain ⟨fewerOthers, allOthers⟩ := rest others
      simp only [walkFields, fieldCountFields, keysKeptFields, Bool.and_eq_true]
      rw [← all, ← allOthers]
      by_cases kept : keep name = true
      · simp only [kept, if_true, fieldCountFields, true_and]
        omega
      · simp only [kept, Bool.false_eq_true, if_false, false_and, iff_false]
        omega

theorem fieldCount_walk_true (key : Option String) :
    fieldCount (walk (fun _ => true) rewrite key tree) = fieldCount tree :=
  (fieldCount_walk tree rewrite key).2.mpr (keysKept_true tree)

end

theorem walk_walk (rewrite : Option String → String → String) (tree : Json) : ∀ key,
    walk keep rewrite key (walk keep (fun _ value => value) key tree) =
      walk keep rewrite key tree := by
  induction tree using treeInduction with
  | null => intro key; rfl
  | bool value => intro key; rfl
  | num value => intro key; rfl
  | str value => intro key; rfl
  | arr items ih =>
    intro key
    simp only [walk, Json.arr.injEq]
    induction items with
    | nil => rfl
    | cons item items rest =>
      obtain ⟨first, others⟩ := forall_mem_cons.mp ih
      simp only [walkItems]
      rw [first key, rest others]
  | obj fields ih =>
    intro key
    simp only [walk, Json.obj.injEq]
    induction fields with
    | nil => rfl
    | cons field fields rest =>
      obtain ⟨name, value⟩ := field
      obtain ⟨first, others⟩ := forall_mem_cons.mp ih
      simp only [walkFields]
      by_cases kept : keep name = true
      · simp only [kept, if_true, walkFields]
        rw [first (some name), rest others]
      · simp only [kept, Bool.false_eq_true, if_false]
        exact rest others

end Keys

/-! ## Sorted keys -/

/-- Put a field where its key belongs among sorted ones. -/
def insertField (field : String × Json) : Fields → Fields
  | [] => [field]
  | first :: fields =>
    if field.1 ≤ first.1 then field :: first :: fields else first :: insertField field fields

mutual

def sortKeys : Json → Json
  | .null => .null
  | .bool value => .bool value
  | .num value => .num value
  | .str value => .str value
  | .arr items => .arr (sortItems items)
  | .obj fields => .obj (sortFields fields)

def sortItems : List Json → List Json
  | [] => []
  | item :: items => sortKeys item :: sortItems items

def sortFields : Fields → Fields
  | [] => []
  | (key, value) :: fields => insertField (key, sortKeys value) (sortFields fields)

end

theorem insertField_congr {key : String} {value other : Json} {left right : Fields}
    (keys : left.map Prod.fst = right.map Prod.fst) :
    (insertField (key, value) left).map Prod.fst = (insertField (key, other) right).map Prod.fst ∧
      (insertField (key, value) left = insertField (key, other) right ↔
        value = other ∧ left = right) := by
  induction left generalizing right with
  | nil =>
    obtain rfl := map_eq_nil_iff.mp keys.symm
    exact ⟨rfl, by simp [insertField]⟩
  | cons first left ih =>
    cases right with
    | nil => cases keys
    | cons second right =>
      obtain ⟨same, rest⟩ := List.cons.inj keys
      obtain ⟨sameKeys, inj⟩ := ih rest
      simp only [insertField, same]
      split
      · exact ⟨by simp only [map_cons, same, rest], by simp⟩
      · refine ⟨by rw [map_cons, map_cons, same, sameKeys], ?_⟩
        rw [List.cons.injEq, inj, List.cons.injEq]
        tauto

theorem fieldCount_insertField (key : String) (value : Json) (fields : Fields) :
    fieldCountFields (insertField (key, value) fields) =
      fieldCount value + 1 + fieldCountFields fields := by
  induction fields with
  | nil => rfl
  | cons first fields ih =>
    simp only [insertField]
    split
    · rfl
    · simp only [fieldCountFields, ih]
      omega

mutual

theorem fieldCount_sortKeys : ∀ tree : Json, fieldCount (sortKeys tree) = fieldCount tree
  | .null => rfl
  | .bool _ => rfl
  | .num _ => rfl
  | .str _ => rfl
  | .arr items => fieldCount_sortItems items
  | .obj fields => fieldCount_sortFields fields

theorem fieldCount_sortItems : ∀ items : List Json,
    fieldCountItems (sortItems items) = fieldCountItems items
  | [] => rfl
  | item :: items => by
    simp only [sortItems, fieldCountItems, fieldCount_sortKeys item, fieldCount_sortItems items]

theorem fieldCount_sortFields : ∀ fields : Fields,
    fieldCountFields (sortFields fields) = fieldCountFields fields
  | [] => rfl
  | (key, value) :: fields => by
    simp only [sortFields, fieldCountFields, fieldCount_insertField, fieldCount_sortKeys value,
      fieldCount_sortFields fields]

end

section Walks

variable {keep : String → Bool} {rewrite other : Option String → String → String}

theorem map_fst_sortFields_walkFields (fields : Fields) :
    (sortFields (walkFields keep rewrite fields)).map Prod.fst =
      (sortFields (walkFields keep other fields)).map Prod.fst := by
  induction fields with
  | nil => rfl
  | cons field fields ih =>
    simp only [walkFields]
    split
    · exact (insertField_congr ih).1
    · exact ih

/-- **Walks agree up to the order of the fields exactly when they rewrite alike.** -/
theorem sortKeys_walk_eq_iff (tree : Json) : ∀ key,
    sortKeys (walk keep rewrite key tree) = sortKeys (walk keep other key tree) ↔
      ∀ found ∈ strings keep key tree, rewrite found.1 found.2 = other found.1 found.2 := by
  induction tree using treeInduction with
  | null => intro key; simp [walk, strings]
  | bool value => intro key; simp [walk, strings]
  | num value => intro key; simp [walk, strings]
  | str value => intro key; simp [walk, strings, sortKeys]
  | arr items ih =>
    intro key
    simp only [walk, strings, sortKeys, Json.arr.injEq]
    induction items with
    | nil => simp [walkItems, stringsOfItems]
    | cons item items rest =>
      obtain ⟨first, others⟩ := forall_mem_cons.mp ih
      simp only [walkItems, stringsOfItems, sortItems, List.cons.injEq, forall_mem_append]
      rw [first key, rest others]
  | obj fields ih =>
    intro key
    simp only [walk, strings, sortKeys, Json.obj.injEq]
    induction fields with
    | nil => simp [walkFields, stringsOfFields]
    | cons field fields rest =>
      obtain ⟨name, value⟩ := field
      obtain ⟨first, others⟩ := forall_mem_cons.mp ih
      simp only [walkFields, stringsOfFields]
      split
      · rw [sortFields, sortFields, (insertField_congr (map_fst_sortFields_walkFields fields)).2,
          first (some name), rest others, forall_mem_append]
      · rw [rest others, nil_append]

end Walks

end RedArchKM.Workflow.Json
