import Mathlib.Init

/-!
# Computations that may fail

How a sequence of fallible computations can succeed: every part does
(`bind_eq_ok`), and no guard in it fires (`guard_eq_ok`); the check of a list, when every check
does (`forM_eq_ok`). What every way to succeed ends in, the computation ensures (`Ensures`).

Two computations agree along a relation when both fail, and alike, or both succeed with related
results (`Agree`); a sequence agrees when its parts do (`Agree.bind`).
-/

namespace RedArchKM.Lib.Fallible

open List

universe u

variable {ε : Type*} {α β : Type u}

@[simp] theorem bind_eq_ok {first : Except ε α} {next : α → Except ε β} {result : β} :
    first >>= next = .ok result ↔ ∃ value, first = .ok value ∧ next value = .ok result := by
  cases first with
  | error => exact ⟨fun failed => (by cases failed), fun ⟨_, failed, _⟩ => (by cases failed)⟩
  | ok value =>
    exact ⟨fun done => ⟨value, rfl, done⟩, fun ⟨_, same, done⟩ => Except.ok.inj same ▸ done⟩

@[simp] theorem pure_eq_ok {value result : α} :
    (pure value : Except ε α) = .ok result ↔ value = result :=
  ⟨Except.ok.inj, fun same => same ▸ rfl⟩

theorem map_eq_ok {f : α → β} {computation : Except ε α} {result : β} :
    f <$> computation = .ok result ↔ ∃ value, computation = .ok value ∧ f value = result := by
  cases computation with
  | error => exact ⟨fun failed => (by cases failed), fun ⟨_, failed, _⟩ => (by cases failed)⟩
  | ok value =>
    exact ⟨fun done => ⟨value, rfl, Except.ok.inj done⟩,
      fun ⟨_, same, done⟩ => congrArg Except.ok (Except.ok.inj same ▸ done)⟩

theorem guard_eq_ok {condition : Prop} [Decidable condition] {refusal rest : Except ε α}
    {result : α} (refuses : ∀ value, refusal ≠ .ok value) :
    (if condition then refusal else rest) = .ok result ↔ ¬ condition ∧ rest = .ok result := by
  by_cases fires : condition
  · simp [fires, refuses]
  · simp [fires]

theorem forM_eq_ok {ι : Type*} {check : ι → Except ε PUnit.{u + 1}} {items : List ι} :
    items.forM check = .ok PUnit.unit ↔ ∀ item ∈ items, check item = .ok PUnit.unit := by
  induction items with
  | nil => exact iff_of_true rfl (forall_mem_nil _)
  | cons item rest ih =>
    change (check item >>= fun _ => rest.forM check) = _ ↔ _
    rw [bind_eq_ok, forall_mem_cons, ← ih]
    exact ⟨fun ⟨_, first, later⟩ => ⟨first, later⟩, fun ⟨first, later⟩ => ⟨_, first, later⟩⟩

section Reading

variable {ι : Type*} {read : ι → Except ε α} {step : β → α → Except ε β} {items : List ι}
  {start result : β}

/-- A loop that reads each item before its step, where all items read. -/
theorem foldlM_bind_of_mapM {values : List α} (areRead : items.mapM read = .ok values) :
    items.foldlM (fun acc item => read item >>= step acc) start = values.foldlM step start := by
  induction items generalizing values start with
  | nil =>
    cases areRead
    rfl
  | cons item rest ih =>
    rw [mapM_cons] at areRead
    obtain ⟨value, isRead, others⟩ := bind_eq_ok.mp areRead
    obtain ⟨later, areLater, same⟩ := bind_eq_ok.mp others
    obtain rfl := pure_eq_ok.mp same
    rw [foldlM_cons, foldlM_cons, isRead]
    change step start value >>= _ = _
    congr 1
    funext next
    exact ih areLater

theorem exists_mapM_of_foldlM_bind
    (done : items.foldlM (fun acc item => read item >>= step acc) start = .ok result) :
    ∃ values, items.mapM read = .ok values := by
  induction items generalizing start with
  | nil => exact ⟨[], rfl⟩
  | cons item rest ih =>
    obtain ⟨next, stepped, later⟩ := bind_eq_ok.mp (foldlM_cons.symm.trans done)
    obtain ⟨value, isRead, _⟩ := bind_eq_ok.mp stepped
    obtain ⟨values, areRead⟩ := ih later
    refine ⟨value :: values, ?_⟩
    rw [mapM_cons]
    exact bind_eq_ok.mpr ⟨value, isRead, bind_eq_ok.mpr ⟨values, areRead, rfl⟩⟩

end Reading

/-! ## What a computation ensures -/

/-- If it succeeds, the result has the property. -/
def Ensures (P : β → Prop) (computation : Except ε β) : Prop :=
  ∀ result, computation = .ok result → P result

namespace Ensures

variable {P : β → Prop}

theorem pure {result : β} (holds : P result) : Ensures P (Pure.pure result : Except ε β) := by
  intro value same
  obtain rfl := pure_eq_ok.mp same
  exact holds

theorem error (error : ε) : Ensures P (.error error : Except ε β) := fun _ failed => by cases failed

theorem bind {first : Except ε α} {next : α → Except ε β}
    (rest : ∀ value, first = .ok value → Ensures P (next value)) : Ensures P (first >>= next) := by
  intro result done
  obtain ⟨value, succeeded, remaining⟩ := bind_eq_ok.mp done
  exact rest value succeeded result remaining

theorem guard {condition : Prop} [Decidable condition] {refusal : ε} {rest : Except ε β}
    (passed : ¬condition → Ensures P rest) :
    Ensures P (do
      if condition then throw refusal
      rest) := by
  by_cases fires : condition
  · rw [if_pos fires]
    exact fun _ failed => by cases failed
  · rw [if_neg fires]
    exact passed fires

theorem mapM {f : α → Except ε β} {items : List α} (each : ∀ item ∈ items, Ensures P (f item)) :
    Ensures (fun results => ∀ result ∈ results, P result) (items.mapM f) := by
  induction items with
  | nil =>
    exact pure fun _ member => absurd member not_mem_nil
  | cons item rest ih =>
    rw [mapM_cons]
    refine bind fun first isFirst => bind fun others areOthers => pure ?_
    intro result member
    rcases mem_cons.mp member with rfl | later
    · exact each item mem_cons_self result isFirst
    · exact ih (fun other isOther => each other (mem_cons_of_mem item isOther)) others
        areOthers result later

theorem foldlM {f : β → α → Except ε β} {items : List α} {start : β} (starts : P start)
    (each : ∀ item ∈ items, ∀ result, P result → Ensures P (f result item)) :
    Ensures P (items.foldlM f start) := by
  induction items generalizing start with
  | nil => exact pure starts
  | cons item rest ih =>
    exact bind fun next isNext => ih (each item mem_cons_self start starts next isNext)
      fun other member => each other (mem_cons_of_mem item member)

theorem bind_congr {Q : α → Prop} {first : Except ε α} {next next' : α → Except ε β}
    (ensures : Ensures Q first) (same : ∀ value, Q value → next value = next' value) :
    first >>= next = first >>= next' := by
  cases first with
  | error error => rfl
  | ok value => exact same value (ensures value rfl)

section Folds

variable {f : β → α → Except ε β} {items : List α} {start : β} (starts : P start)
  (each : ∀ item ∈ items, ∀ result, P result → Ensures P (f result item))
include starts each

theorem foldlM_congr {g : β → α → Except ε β}
    (same : ∀ item ∈ items, ∀ result, P result → f result item = g result item) :
    items.foldlM f start = items.foldlM g start := by
  induction items generalizing start with
  | nil => rfl
  | cons item rest ih =>
    rw [foldlM_cons, foldlM_cons, ← same item mem_cons_self start starts]
    refine bind_congr (each item mem_cons_self start starts) fun next holds => ?_
    exact ih holds (fun other member => each other (mem_cons_of_mem item member))
      fun other member => same other (mem_cons_of_mem item member)

theorem foldlM_filter {p : α → Bool}
    (skips : ∀ item ∈ items, p item = false → ∀ result, P result → f result item = .ok result) :
    items.foldlM f start = (items.filter p).foldlM f start := by
  induction items generalizing start with
  | nil => rfl
  | cons item rest ih =>
    have later : ∀ next, P next → rest.foldlM f next = (rest.filter p).foldlM f next :=
      fun next holds => ih holds
        (fun other member => each other (mem_cons_of_mem item member))
        fun other member => skips other (mem_cons_of_mem item member)
    rw [foldlM_cons]
    cases kept : p item with
    | true =>
      rw [filter_cons_of_pos kept, foldlM_cons]
      exact bind_congr (each item mem_cons_self start starts) later
    | false =>
      rw [filter_cons_of_neg (by simp [kept]), skips item mem_cons_self kept start starts]
      exact later start starts

end Folds

end Ensures

theorem foldlM_eq_of_map_eq {γ : Type*} {view : α → γ} {f : β → α → Except ε β}
    {items items' : List α} {start : β} (same : items.map view = items'.map view)
    (congr : ∀ item ∈ items, ∀ item' ∈ items', view item = view item' → ∀ result,
      f result item = f result item') :
    items.foldlM f start = items'.foldlM f start := by
  induction items generalizing items' start with
  | nil => rw [map_eq_nil_iff.mp same.symm]
  | cons item rest ih =>
    obtain ⟨item', rest', rfl, isSeen, later⟩ := map_eq_cons_iff.mp same.symm
    rw [foldlM_cons, foldlM_cons,
      congr item mem_cons_self item' mem_cons_self isSeen.symm]
    congr 1
    funext next
    exact ih later.symm fun other member other' member' =>
      congr other (mem_cons_of_mem item member) other' (mem_cons_of_mem item' member')

/-! ## Computations that agree -/

/-- Both fail with the same error, or both succeed with related results. -/
inductive Agree {β' : Type u} (Related : β → β' → Prop) : Except ε β → Except ε β' → Prop where
  | error (error : ε) : Agree Related (.error error) (.error error)
  | ok {result : β} {result' : β'} (related : Related result result') :
      Agree Related (.ok result) (.ok result')

namespace Agree

variable {α' β' : Type u} {Related : α → α' → Prop} {Related' : β → β' → Prop}
  {first : Except ε α} {first' : Except ε α'} {next : α → Except ε β} {next' : α' → Except ε β'}

section

variable (agree : Agree Related first first')

include agree

theorem bind
    (agrees : ∀ value value', Related value value' → Agree Related' (next value) (next' value')) :
    Agree Related' (first >>= next) (first' >>= next') := by
  cases agree with
  | error error => exact .error error
  | ok related => exact agrees _ _ related

theorem exists_ok_iff : (∃ value, first = .ok value) ↔ ∃ value', first' = .ok value' := by
  cases agree with
  | error error => exact ⟨nofun, nofun⟩
  | ok related => exact ⟨fun _ => ⟨_, rfl⟩, fun _ => ⟨_, rfl⟩⟩

theorem ok_left {value : α} (isOk : first = .ok value) :
    ∃ value', first' = .ok value' ∧ Related value value' := by
  cases agree with
  | error error => cases isOk
  | ok related =>
    cases isOk
    exact ⟨_, rfl, related⟩

end

end Agree

end RedArchKM.Lib.Fallible
