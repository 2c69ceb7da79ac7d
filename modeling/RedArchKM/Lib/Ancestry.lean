import Mathlib.Data.List.Nodup

/-!
# Inheriting along parent links

Every node of a forest has at most one parent and may own a value. A node inherits the value
of the nearest node on its way up that owns one.

`Climb` is the way up: the nodes visited and the value found at its end. There is at most one
climb from a node (`Climb.unique`) and it visits no node twice (`Climb.nodup`), so a walk with
as many steps as there are nodes finds what the climb finds (`nearest_of_climb`), also when
parent links form cycles elsewhere. On cycles too, walks with enough steps agree
(`nearest_congr`). Where parent links lead to lower nodes, every node has a climb
(`exists_climb`).

Two forests that agree along a climb inherit alike (`Climb.map`).

`Descends` is the way down: whatever a node has from its parent, all descendants of a root have
from it (`Descends.inherit`).
-/

namespace RedArchKM.Lib.Ancestry

open List

variable {α β : Type*}

/-- The way up from a node: it ends at the first node that owns a value, or at a root. -/
inductive Climb (parent : α → Option α) (own : α → Option β) : α → List α → Option β → Prop
  | own {a : α} {value : β} (owned : own a = some value) : Climb parent own a [a] (some value)
  | root {a : α} (bare : own a = none) (top : parent a = none) : Climb parent own a [a] none
  | up {a b : α} {path : List α} {value : Option β} (bare : own a = none)
      (link : parent a = some b) (rest : Climb parent own b path value) :
      Climb parent own a (a :: path) value

/-- The walk that looks for the value, with a bound on its steps. -/
def nearest (parent : α → Option α) (own : α → Option β) : Nat → α → Option β
  | 0, _ => none
  | steps + 1, a =>
    match own a, parent a with
    | some value, _ => some value
    | none, none => none
    | none, some b => nearest parent own steps b

def chain (parent : α → Option α) : Nat → Option α → List α
  | 0, _ => []
  | _ + 1, none => []
  | steps + 1, some a => a :: chain parent steps (parent a)

variable {parent : α → Option α} {own : α → Option β}

namespace Climb

variable {path : List α} {value : Option β}

theorem unique {a : α} {path' : List α} {value' : Option β} (first : Climb parent own a path value)
    (second : Climb parent own a path' value') : path = path' ∧ value = value' := by
  induction first generalizing path' value' with
  | own owned => cases second <;> simp_all
  | root bare top => cases second <;> simp_all
  | up bare link rest ih =>
    cases second with
    | own owned => simp_all
    | root _ top => simp_all
    | up _ link' rest' =>
      cases link.symm.trans link'
      obtain ⟨rfl, rfl⟩ := ih rest'
      exact ⟨rfl, rfl⟩

/-- From every node visited, the rest of the way is its own climb, to the same value. -/
theorem of_mem {a b : α} (climb : Climb parent own a path value) (visited : b ∈ path) :
    ∃ rest, rest <:+ path ∧ Climb parent own b rest value := by
  induction climb with
  | own owned =>
    obtain rfl := mem_singleton.mp visited
    exact ⟨_, suffix_refl _, .own owned⟩
  | root bare top =>
    obtain rfl := mem_singleton.mp visited
    exact ⟨_, suffix_refl _, .root bare top⟩
  | up bare link rest ih =>
    rcases mem_cons.mp visited with rfl | later
    · exact ⟨_, suffix_refl _, .up bare link rest⟩
    · obtain ⟨tail, suffix, tailClimb⟩ := ih later
      exact ⟨tail, suffix.trans (suffix_cons _ _), tailClimb⟩

theorem nodup {a : α} (climb : Climb parent own a path value) : path.Nodup := by
  induction climb with
  | own => exact nodup_singleton _
  | root => exact nodup_singleton _
  | @up a b path value bare link rest ih =>
    refine nodup_cons.mpr ⟨fun again => ?_, ih⟩
    obtain ⟨tail, suffix, tailClimb⟩ := rest.of_mem again
    obtain ⟨rfl, -⟩ := tailClimb.unique (.up bare link rest)
    exact absurd suffix.length_le (by simp)

theorem forall_mem {a : α} (climb : Climb parent own a path value) {P : α → Prop} (start : P a)
    (links : ∀ b c, P b → own b = none → parent b = some c → P c) : ∀ b ∈ path, P b := by
  induction climb with
  | own => simpa using start
  | root => simpa using start
  | up bare link _ ih => exact forall_mem_cons.mpr ⟨start, ih (links _ _ start bare link)⟩

/-- A climb is carried over by a map that keeps what is owned along it, and the links it
uses. -/
theorem map {γ δ : Type*} {parent' : γ → Option γ} {own' : γ → Option δ} (image : α → γ)
    (value' : β → δ) {a : α} (climb : Climb parent own a path value)
    (owns : ∀ b ∈ path, own' (image b) = (own b).map value')
    (links : ∀ b ∈ path, own b = none → parent' (image b) = (parent b).map image) :
    Climb parent' own' (image a) (path.map image) (value.map value') := by
  induction climb with
  | own owned => exact .own (by simp [owns, owned])
  | root bare top => exact .root (by simp [owns, bare]) (by simp [links, bare, top])
  | @up a b path value bare link rest ih =>
    refine .up (b := image b) ?_ ?_ (ih (fun c visited => ?_) fun c visited => ?_)
    · simp [owns a mem_cons_self, bare]
    · simp [links a mem_cons_self bare, link]
    · exact owns c (mem_cons_of_mem _ visited)
    · exact links c (mem_cons_of_mem _ visited)

theorem owner {a : α} {value : β} (climb : Climb parent own a path (some value)) :
    ∃ b ∈ path, own b = some value := by
  generalize found : some value = result at climb
  induction climb with
  | own owned => exact ⟨_, mem_cons_self, found ▸ owned⟩
  | root => cases found
  | up _ _ _ ih =>
    obtain ⟨b, visited, owned⟩ := ih found
    exact ⟨b, mem_cons_of_mem _ visited, owned⟩

end Climb

/-! ## The walks -/

variable {steps : Nat}

/-- **A walk with enough steps finds what the climb finds.** -/
theorem nearest_of_climb {a : α} {path : List α} {value : Option β}
    (climb : Climb parent own a path value) (enough : path.length ≤ steps) :
    nearest parent own steps a = value := by
  induction climb generalizing steps with
  | own owned =>
    obtain ⟨steps, rfl⟩ := Nat.exists_eq_add_of_le' enough
    simp [nearest, owned]
  | root bare top =>
    obtain ⟨steps, rfl⟩ := Nat.exists_eq_add_of_le' enough
    simp [nearest, bare, top]
  | up bare link _ ih =>
    obtain ⟨steps, rfl⟩ := Nat.exists_eq_add_of_le' (Nat.le_trans (Nat.le_add_left 1 _) enough)
    simp only [nearest, bare, link]
    exact ih (by simpa using enough)

/-- The visited nodes being among some nodes, their number bounds the steps needed. -/
theorem nearest_of_climb_subset {a : α} {path nodes : List α} {value : Option β}
    (climb : Climb parent own a path value) (inside : path ⊆ nodes) (enough : nodes.length ≤ steps) :
    nearest parent own steps a = value :=
  nearest_of_climb climb (Nat.le_trans (climb.nodup.length_le_of_subset inside) enough)

theorem climb_of_nearest {a : α} {value : β} (found : nearest parent own steps a = some value) :
    ∃ path, Climb parent own a path (some value) := by
  induction steps generalizing a with
  | zero => cases found
  | succ steps ih =>
    cases owned : own a with
    | some other =>
      rw [nearest, owned] at found
      cases found
      exact ⟨_, .own owned⟩
    | none =>
      cases link : parent a with
      | none => simp [nearest, owned, link] at found
      | some b =>
        rw [nearest, owned, link] at found
        obtain ⟨path, rest⟩ := ih found
        exact ⟨_, .up owned link rest⟩

/-- **Walks along links that agree find the same, also where the links run in cycles**, if each has
as many steps as there are nodes on the way. -/
theorem nearest_congr {parent' : α → Option α} (P : α → Prop) {a : α} (start : P a)
    (links : ∀ b, P b → parent' b = parent b) (keeps : ∀ b c, P b → parent b = some c → P c)
    {nodes nodes' : List α} (inside : ∀ b, P b → b ∈ nodes) (inside' : ∀ b, P b → b ∈ nodes')
    {steps' : Nat} (enough : nodes.length ≤ steps) (enough' : nodes'.length ≤ steps') :
    nearest parent own steps a = nearest parent' own steps' a := by
  have across : ∀ {path : List α} {value : Option β}, Climb parent own a path value →
      (∀ b ∈ path, P b) ∧ Climb parent' own a path value := by
    intro path value climb
    have visits := climb.forall_mem start fun b c kept _ link => keeps b c kept link
    have carried := climb.map id id (fun b _ => (Option.map_id_apply).symm) fun b visited _ =>
      (links b (visits b visited)).trans (Option.map_id_apply).symm
    rw [map_id, Option.map_id_apply] at carried
    exact ⟨visits, carried⟩
  have back : ∀ {path : List α} {value : Option β}, Climb parent' own a path value →
      Climb parent own a path value := by
    intro path value climb
    have visits := climb.forall_mem start fun b c kept _ link =>
      keeps b c kept ((links b kept).symm.trans link)
    have carried := climb.map id id (fun b _ => (Option.map_id_apply).symm) fun b visited _ =>
      (links b (visits b visited)).symm.trans (Option.map_id_apply).symm
    rwa [map_id, Option.map_id_apply] at carried
  refine Option.ext fun value => ⟨fun found => ?_, fun found => ?_⟩
  · obtain ⟨path, climb⟩ := climb_of_nearest found
    obtain ⟨visits, carried⟩ := across climb
    exact nearest_of_climb_subset carried (fun b visited => inside' b (visits b visited)) enough'
  · obtain ⟨path, climb⟩ := climb_of_nearest found
    have carried := back climb
    obtain ⟨visits, -⟩ := across carried
    exact nearest_of_climb_subset carried (fun b visited => inside b (visits b visited)) enough

theorem forall_mem_chain {P : α → Prop} (links : ∀ a b, parent a = some b → P b) (steps : Nat)
    {start : Option α} (first : ∀ a ∈ start, P a) : ∀ a ∈ chain parent steps start, P a := by
  induction steps generalizing start with
  | zero => simp [chain]
  | succ steps ih =>
    cases start with
    | none => simp [chain]
    | some a => exact forall_mem_cons.mpr ⟨first a rfl, ih fun b link => links a b link⟩

theorem findSome?_chain (steps : Nat) (start : Option α) :
    (chain parent steps start).findSome? own = start.bind (nearest parent own steps) := by
  induction steps generalizing start with
  | zero => cases start <;> rfl
  | succ steps ih =>
    cases start with
    | none => rfl
    | some a =>
      cases owned : own a with
      | some value => simp [chain, nearest, owned]
      | none =>
        simp only [chain, findSome?_cons, owned, ih, Option.bind_some, nearest]
        cases parent a <;> rfl

theorem exists_climb {P : α → Prop} (height : α → Nat)
    (falls : ∀ a b, P a → parent a = some b → P b ∧ height b < height a) (own : α → Option β)
    {a : α} (start : P a) : ∃ path value, Climb parent own a path value := by
  cases owned : own a with
  | some value => exact ⟨_, _, .own owned⟩
  | none =>
    cases link : parent a with
    | none => exact ⟨_, _, .root owned link⟩
    | some b =>
      obtain ⟨kept, lower⟩ := falls a b start link
      obtain ⟨path, value, rest⟩ := exists_climb height falls own kept
      exact ⟨_, _, .up owned link rest⟩
termination_by height a

/-! ## Descendants -/

/-- A node is a descendant of another, or the node itself. -/
inductive Descends (parent : α → Option α) (root : α) : α → Prop
  | self : Descends parent root root
  | child {a b : α} (link : parent a = some b) (rest : Descends parent root b) :
      Descends parent root a

namespace Descends

theorem inherit {γ : Type*} {f : α → γ} (keeps : ∀ a b, parent a = some b → f a = f b) {root a : α}
    (descends : Descends parent root a) : f a = f root := by
  induction descends with
  | self => rfl
  | child link _ ih => exact (keeps _ _ link).trans ih

theorem of_old {parent parent' : Nat → Option Nat} {size root a : Nat}
    (same : ∀ a < size, parent' a = parent a) (falls : ∀ a b, parent' a = some b → b < a)
    (descends : Descends parent' root a) (old : a < size) :
    root < size ∧ Descends parent root a := by
  induction descends with
  | self => exact ⟨old, .self⟩
  | child link _ ih =>
    obtain ⟨rootOld, rest⟩ := ih (Nat.lt_trans (falls _ _ link) old)
    exact ⟨rootOld, .child ((same _ old).symm.trans link) rest⟩

end Descends

end RedArchKM.Lib.Ancestry
