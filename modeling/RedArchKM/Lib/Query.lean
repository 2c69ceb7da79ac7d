import Mathlib.Data.List.Induction
import Mathlib.Data.List.ReduceOption

/-!
# Queries over one table

A row gives every column a cell, and a cell without a value is null. A selection filters, sorts and
limits the rows; a grouping collects the rows that agree on its keys and folds each group. What a
value is, and how values compare, is the engine's.

A query reads columns. Erasing columns that it does not read makes no difference: a selection from
the erased table is the erased selection (`Selection.run_erase`), and the groups of the erased
table give what the groups of the table give (`Grouping.run_erase`).
-/

namespace RedArchKM.Lib.Query

open List

variable {κ ν : Type}

/-! ## Values -/

inductive Comparator where
  | eq
  | ne
  | gt
  | gte
  | lt
  | lte
deriving DecidableEq

/-- What a database does with values. -/
structure Engine (ν : Type) where
  equal : ν → ν → Bool
  less : ν → ν → Bool
  lower : ν → ν
  /-- Whether a value matches a pattern, in any case. -/
  like : ν → String → Bool
  truncate : String → ν → ν
  number : Nat → ν
  sum : List ν → ν
  average : List ν → ν

namespace Engine

variable (engine : Engine ν)

def compares : Comparator → ν → ν → Bool
  | .eq, a, b => engine.equal a b
  | .ne, a, b => !engine.equal a b
  | .gt, a, b => engine.less b a
  | .gte, a, b => engine.less b a || engine.equal b a
  | .lt, a, b => engine.less a b
  | .lte, a, b => engine.less a b || engine.equal a b

def same : Option ν → Option ν → Bool
  | none, none => true
  | some a, some b => engine.equal a b
  | _, _ => false

def distinct (values : List ν) : List ν :=
  values.foldl (fun seen value => if seen.any (engine.equal value) then seen else seen ++ [value]) []

def least : List ν → Option ν
  | [] => none
  | value :: rest => some (rest.foldl (fun best next => if engine.less next best then next else best) value)

def greatest : List ν → Option ν
  | [] => none
  | value :: rest => some (rest.foldl (fun best next => if engine.less best next then next else best) value)

/-- The order of two cells under a sort. -/
def orders (descending nullsFirst : Bool) : Option ν → Option ν → Ordering
  | none, none => .eq
  | none, some _ => if nullsFirst then .lt else .gt
  | some _, none => if nullsFirst then .gt else .lt
  | some a, some b =>
    let ascending := if engine.less a b then .lt else if engine.less b a then .gt else .eq
    if descending then ascending.swap else ascending

end Engine

/-! ## Rows -/

abbrev Row (κ ν : Type) := κ → Option ν

def assign [DecidableEq κ] (row : Row κ ν) (values : List (κ × Option ν)) : Row κ ν :=
  fun column => (values.lookup column).getD (row column)

def erase (hidden : κ → Bool) (row : Row κ ν) : Row κ ν :=
  fun column => if hidden column then none else row column

section Erase

variable {hidden : κ → Bool} {row : Row κ ν} {column : κ}

@[simp] theorem erase_visible (visible : hidden column = false) :
    erase hidden row column = row column := by
  rw [erase, visible]
  rfl

variable {values : List (κ × Option ν)}

theorem lookup_hidden [BEq κ] [LawfulBEq κ] (visible : ∀ entry ∈ values, hidden entry.1 = false)
    (isHidden : hidden column = true) : values.lookup column = none := by
  rw [lookup_eq_none_iff]
  intro entry member
  rw [bne_iff_ne]
  rintro rfl
  rw [visible entry member] at isHidden
  cases isHidden

theorem assign_cases [DecidableEq κ] (row : Row κ ν) (values : List (κ × Option ν)) (column : κ) :
    (∃ value, (column, value) ∈ values ∧ assign row values column = value) ∨
      assign row values column = row column := by
  unfold assign
  cases found : values.lookup column with
  | none => exact .inr rfl
  | some value =>
    obtain ⟨before, after, rfl, _⟩ := lookup_eq_some_iff.mp found
    exact .inl ⟨value, by simp, rfl⟩

theorem assign_of_ne [DecidableEq κ] (others : ∀ entry ∈ values, entry.1 ≠ column) :
    assign row values column = row column := by
  rcases assign_cases row values column with ⟨value, member, _⟩ | same
  · exact absurd rfl (others _ member)
  · exact same

theorem assign_hidden [DecidableEq κ] {values : List (κ × Option ν)}
    (visible : ∀ entry ∈ values, hidden entry.1 = false) (isHidden : hidden column = true) :
    assign row values column = row column := by
  rw [assign, lookup_hidden visible isHidden, Option.getD_none]

theorem erase_assign [DecidableEq κ] (visible : ∀ entry ∈ values, hidden entry.1 = false) :
    erase hidden (assign row values) = assign (erase hidden row) values := by
  funext column
  cases isHidden : hidden column with
  | false => rw [erase_visible isHidden, assign, assign, erase_visible isHidden]
  | true => rw [assign_hidden visible isHidden, erase, erase, if_pos isHidden, if_pos isHidden]

end Erase

/-! ## Terms and conditions -/

inductive Term (κ : Type) where
  | column (name : κ)
  | lower (term : Term κ)
  | truncate (unit : String) (term : Term κ)

namespace Term

def eval (engine : Engine ν) : Term κ → Row κ ν → Option ν
  | .column name, row => row name
  | .lower term, row => (term.eval engine row).map engine.lower
  | .truncate unit term, row => (term.eval engine row).map (engine.truncate unit)

def reads : Term κ → κ
  | .column name => name
  | .lower term => term.reads
  | .truncate _ term => term.reads

theorem eval_erase (engine : Engine ν) {hidden : κ → Bool} (row : Row κ ν) {term : Term κ}
    (visible : hidden term.reads = false) :
    term.eval engine (erase hidden row) = term.eval engine row := by
  induction term with
  | column name => exact erase_visible visible
  | lower term ih => exact congrArg (Option.map engine.lower) (ih visible)
  | truncate unit term ih => exact congrArg (Option.map (engine.truncate unit)) (ih visible)

end Term

/-- A condition on a row. One that compares a null does not hold. -/
inductive Condition (κ ν : Type) where
  | compare (comparator : Comparator) (term : Term κ) (value : ν)
  | isNull (term : Term κ)
  | isNotNull (term : Term κ)
  | among (term : Term κ) (values : List (Option ν))
  | like (term : Term κ) (pattern : String)
  | never
  | both (first second : Condition κ ν)
  | either (first second : Condition κ ν)

namespace Condition

def holds (engine : Engine ν) : Condition κ ν → Row κ ν → Bool
  | .compare comparator term value, row =>
    (term.eval engine row).any fun cell => engine.compares comparator cell value
  | .isNull term, row => (term.eval engine row).isNone
  | .isNotNull term, row => (term.eval engine row).isSome
  | .among term values, row =>
    (term.eval engine row).any fun cell => values.any fun value => value.any (engine.equal cell)
  | .like term pattern, row => (term.eval engine row).any fun cell => engine.like cell pattern
  | .never, _ => false
  | .both first second, row => first.holds engine row && second.holds engine row
  | .either first second, row => first.holds engine row || second.holds engine row

def bound : Condition κ ν → List (κ × ν)
  | .compare _ term value => [(term.reads, value)]
  | .among term values => values.filterMap fun value => value.map (term.reads, ·)
  | .both first second => first.bound ++ second.bound
  | .either first second => first.bound ++ second.bound
  | _ => []

def anyOf (conditions : List (Condition κ ν)) : Condition κ ν := conditions.foldr .either .never

def Visible (hidden : κ → Bool) : Condition κ ν → Prop
  | .compare _ term _ => hidden term.reads = false
  | .isNull term => hidden term.reads = false
  | .isNotNull term => hidden term.reads = false
  | .among term _ => hidden term.reads = false
  | .like term _ => hidden term.reads = false
  | .never => True
  | .both first second => first.Visible hidden ∧ second.Visible hidden
  | .either first second => first.Visible hidden ∧ second.Visible hidden

variable {hidden : κ → Bool}

theorem visible_anyOf {conditions : List (Condition κ ν)}
    (visible : ∀ condition ∈ conditions, condition.Visible hidden) :
    (anyOf conditions).Visible hidden := by
  induction conditions with
  | nil => trivial
  | cons condition rest ih =>
    exact ⟨visible condition (by simp), ih fun other member => visible other (by simp [member])⟩

theorem holds_erase (engine : Engine ν) (row : Row κ ν) {condition : Condition κ ν}
    (visible : condition.Visible hidden) :
    condition.holds engine (erase hidden row) = condition.holds engine row := by
  induction condition with
  | compare comparator term value => simp only [holds, term.eval_erase engine row visible]
  | isNull term => simp only [holds, term.eval_erase engine row visible]
  | isNotNull term => simp only [holds, term.eval_erase engine row visible]
  | among term values => simp only [holds, term.eval_erase engine row visible]
  | like term pattern => simp only [holds, term.eval_erase engine row visible]
  | never => rfl
  | both first second ihFirst ihSecond =>
    simp only [holds, ihFirst visible.1, ihSecond visible.2]
  | either first second ihFirst ihSecond =>
    simp only [holds, ihFirst visible.1, ihSecond visible.2]

end Condition

def allHold (engine : Engine ν) (conditions : List (Condition κ ν)) (row : Row κ ν) : Bool :=
  conditions.all fun condition => condition.holds engine row

variable {hidden : κ → Bool}

theorem allHold_erase (engine : Engine ν) {conditions : List (Condition κ ν)}
    (visible : ∀ condition ∈ conditions, condition.Visible hidden) (row : Row κ ν) :
    allHold engine conditions (erase hidden row) = allHold engine conditions row := by
  unfold allHold
  induction conditions with
  | nil => rfl
  | cons condition rest ih =>
    rw [all_cons, all_cons, condition.holds_erase engine row (visible condition (by simp)),
      ih fun other member => visible other (by simp [member])]

theorem filter_map_erase (engine : Engine ν) {conditions : List (Condition κ ν)}
    (visible : ∀ condition ∈ conditions, condition.Visible hidden) (rows : List (Row κ ν)) :
    (rows.map (erase hidden)).filter (allHold engine conditions) =
      (rows.filter (allHold engine conditions)).map (erase hidden) := by
  rw [filter_map]
  congr 1
  apply filter_congr
  intro row _
  exact allHold_erase engine visible row

/-! ## Selections -/

def decideFirst (orderings : List Ordering) : Ordering := orderings.foldr Ordering.then .eq

structure Sorting (κ : Type) where
  term : Term κ
  descending : Bool
  nullsFirst : Bool

def Sorting.orders (engine : Engine ν) (sorting : Sorting κ) (a b : Row κ ν) : Ordering :=
  engine.orders sorting.descending sorting.nullsFirst (sorting.term.eval engine a)
    (sorting.term.eval engine b)

structure Selection (κ ν : Type) where
  conditions : List (Condition κ ν)
  orderBy : List (Sorting κ)
  limit : Nat

namespace Selection

variable (engine : Engine ν) (selection : Selection κ ν)

def precedes (a b : Row κ ν) : Bool :=
  (decideFirst (selection.orderBy.map fun sorting => sorting.orders engine a b)).isLE

def run (rows : List (Row κ ν)) : List (Row κ ν) :=
  ((rows.filter (allHold engine selection.conditions)).mergeSort
    (selection.precedes engine)).take selection.limit

def bound : List (κ × ν) := selection.conditions.flatMap Condition.bound

structure Visible (hidden : κ → Bool) (selection : Selection κ ν) : Prop where
  conditions : ∀ condition ∈ selection.conditions, condition.Visible hidden
  orderBy : ∀ sorting ∈ selection.orderBy, hidden sorting.term.reads = false

variable {engine selection} {hidden : κ → Bool}

theorem precedes_erase (visible : selection.Visible hidden) (a b : Row κ ν) :
    selection.precedes engine (erase hidden a) (erase hidden b) =
      selection.precedes engine a b := by
  unfold precedes
  congr 2
  apply map_congr_left
  intro sorting member
  have isVisible := visible.orderBy sorting member
  simp only [Sorting.orders, sorting.term.eval_erase engine _ isVisible]

/-- **A selection that reads no hidden column commutes with their erasure.** -/
theorem run_erase (visible : selection.Visible hidden) (rows : List (Row κ ν)) :
    selection.run engine (rows.map (erase hidden)) =
      (selection.run engine rows).map (erase hidden) := by
  unfold run
  rw [filter_map_erase engine visible.conditions, map_take, map_mergeSort]
  intro a _ b _
  exact (precedes_erase visible a b).symm

end Selection

/-! ## Groupings -/

inductive Fold where
  | count
  | countDistinct
  | sum
  | average
  | least
  | greatest

/-- A result column: a key of the group, or a fold over its rows. Rows are counted without a
term. -/
inductive Output (κ : Type) where
  | key (term : Term κ)
  | count
  | folded (fold : Fold) (term : Term κ)

/-- The cells of a group folded into one. Nulls are left out, and no values fold to null. -/
def Fold.apply (engine : Engine ν) (fold : Fold) (cells : List (Option ν)) : Option ν :=
  let values := cells.reduceOption
  match fold with
  | .count => some (engine.number values.length)
  | .countDistinct => some (engine.number (engine.distinct values).length)
  | .sum => if values.isEmpty then none else some (engine.sum values)
  | .average => if values.isEmpty then none else some (engine.average values)
  | .least => engine.least values
  | .greatest => engine.greatest values

namespace Output

def eval (engine : Engine ν) : Output κ → List (Row κ ν) → Option ν
  | .key term, group => group.head?.bind (term.eval engine)
  | .count, group => some (engine.number group.length)
  | .folded fold term, group => fold.apply engine (group.map (term.eval engine))

def Visible (hidden : κ → Bool) : Output κ → Prop
  | .key term => hidden term.reads = false
  | .count => True
  | .folded _ term => hidden term.reads = false

theorem eval_erase (engine : Engine ν) {hidden : κ → Bool} {output : Output κ}
    (visible : output.Visible hidden) (group : List (Row κ ν)) :
    output.eval engine (group.map (erase hidden)) = output.eval engine group := by
  cases output with
  | key term =>
    rw [eval, eval, head?_map]
    cases group.head? with
    | none => rfl
    | some row => exact term.eval_erase engine row visible
  | count => rw [eval, eval, length_map]
  | folded fold term =>
    rw [eval, eval, map_map]
    congr 1
    apply map_congr_left
    intro row _
    exact term.eval_erase engine row visible

end Output

def agree (engine : Engine ν) (keys : List (Term κ)) (a b : Row κ ν) : Bool :=
  keys.all fun term => engine.same (term.eval engine a) (term.eval engine b)

theorem agree_erase (engine : Engine ν) {keys : List (Term κ)}
    (visible : ∀ term ∈ keys, hidden term.reads = false) (a b : Row κ ν) :
    agree engine keys (erase hidden a) (erase hidden b) = agree engine keys a b := by
  unfold agree
  induction keys with
  | nil => rfl
  | cons term rest ih =>
    have isVisible := visible term (by simp)
    rw [all_cons, all_cons, term.eval_erase engine a isVisible,
      term.eval_erase engine b isVisible, ih fun other member => visible other (by simp [member])]

def join (engine : Engine ν) (keys : List (Term κ)) (row : Row κ ν) :
    List (List (Row κ ν)) → List (List (Row κ ν))
  | [] => [[row]]
  | group :: rest =>
    if group.head?.any (agree engine keys row) then (group ++ [row]) :: rest
    else group :: join engine keys row rest

/-- The groups of the rows. Without keys all rows are one group, even if there are none. -/
def groups (engine : Engine ν) (keys : List (Term κ)) (rows : List (Row κ ν)) :
    List (List (Row κ ν)) :=
  if keys.isEmpty then [rows] else rows.foldl (fun groups row => join engine keys row groups) []

section Groups

variable {engine : Engine ν} {hidden : κ → Bool} {keys : List (Term κ)}
  (visible : ∀ term ∈ keys, hidden term.reads = false)
include visible

theorem join_erase (row : Row κ ν) (groups : List (List (Row κ ν))) :
    join engine keys (erase hidden row) (groups.map (List.map (erase hidden))) =
      (join engine keys row groups).map (List.map (erase hidden)) := by
  induction groups with
  | nil => rfl
  | cons group rest ih =>
    have sameHead : (group.map (erase hidden)).head?.any (agree engine keys (erase hidden row)) =
        group.head?.any (agree engine keys row) := by
      rw [head?_map]
      cases group.head? with
      | none => rfl
      | some first => exact agree_erase engine visible row first
    rw [map_cons, join, join, sameHead, ih]
    split
    · rw [map_cons, map_append, map_singleton]
    · rw [map_cons]

theorem groups_erase (rows : List (Row κ ν)) :
    groups engine keys (rows.map (erase hidden)) =
      (groups engine keys rows).map (List.map (erase hidden)) := by
  unfold groups
  split
  · rfl
  · induction rows using List.reverseRecOn with
    | nil => rfl
    | append_singleton rows row ih =>
      rw [map_append, foldl_append, foldl_append, ih]
      exact join_erase visible row _

end Groups

structure Grouping (κ ν : Type) where
  keys : List (Term κ)
  outputs : List (Output κ)
  conditions : List (Condition κ ν)
  having : List (Output κ × Comparator × ν)
  orderBy : List (Output κ × Bool)
  limit : Nat

namespace Grouping

variable (engine : Engine ν) (grouping : Grouping κ ν)

def keeps (group : List (Row κ ν)) : Bool :=
  grouping.having.all fun (output, comparator, value) =>
    (output.eval engine group).any fun cell => engine.compares comparator cell value

/-- Nulls come last, whatever the direction. -/
def precedes (a b : List (Row κ ν)) : Bool :=
  (decideFirst (grouping.orderBy.map fun (output, descending) =>
    engine.orders descending false (output.eval engine a) (output.eval engine b))).isLE

def run (rows : List (Row κ ν)) : List (List (Option ν)) :=
  ((((groups engine grouping.keys (rows.filter (allHold engine grouping.conditions))).filter
    (grouping.keeps engine)).mergeSort (grouping.precedes engine)).take grouping.limit).map
      fun group => grouping.outputs.map fun output => output.eval engine group

def bound : List (κ × ν) := grouping.conditions.flatMap Condition.bound

structure Visible (hidden : κ → Bool) (grouping : Grouping κ ν) : Prop where
  keys : ∀ term ∈ grouping.keys, hidden term.reads = false
  outputs : ∀ output ∈ grouping.outputs, output.Visible hidden
  conditions : ∀ condition ∈ grouping.conditions, condition.Visible hidden
  having : ∀ entry ∈ grouping.having, entry.1.Visible hidden
  orderBy : ∀ entry ∈ grouping.orderBy, entry.1.Visible hidden

variable {engine grouping} {hidden : κ → Bool}

section

variable (visible : grouping.Visible hidden)

include visible

theorem keeps_erase (group : List (Row κ ν)) :
    grouping.keeps engine (group.map (erase hidden)) = grouping.keeps engine group := by
  unfold keeps
  rw [Bool.eq_iff_iff, all_eq_true, all_eq_true]
  apply forall₂_congr
  rintro ⟨output, comparator, value⟩ member
  have isVisible := visible.having (output, comparator, value) member
  dsimp only
  rw [output.eval_erase engine isVisible]

theorem precedes_erase (a b : List (Row κ ν)) :
    grouping.precedes engine (a.map (erase hidden)) (b.map (erase hidden)) =
      grouping.precedes engine a b := by
  unfold precedes
  congr 2
  apply map_congr_left
  rintro ⟨output, descending⟩ member
  have isVisible := visible.orderBy (output, descending) member
  dsimp only
  rw [output.eval_erase engine isVisible, output.eval_erase engine isVisible]

/-- **A grouping that reads no hidden column gives the same without their values.** -/
theorem run_erase (rows : List (Row κ ν)) :
    grouping.run engine (rows.map (erase hidden)) = grouping.run engine rows := by
  unfold run
  rw [filter_map_erase engine visible.conditions, groups_erase visible.keys, filter_map]
  have sameKept : grouping.keeps engine ∘ List.map (erase hidden) = grouping.keeps engine := by
    funext group
    exact keeps_erase visible group
  rw [sameKept, ← map_mergeSort (fun a _ b _ => (precedes_erase visible a b).symm),
    ← map_take, map_map]
  apply map_congr_left
  intro group _
  apply map_congr_left
  intro output member
  exact output.eval_erase engine (visible.outputs output member) group

end

end Grouping

end RedArchKM.Lib.Query
