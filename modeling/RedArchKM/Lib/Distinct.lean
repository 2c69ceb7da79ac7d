import Mathlib.Data.List.Nodup

/-!
# The first of equals

A loop that appends what it has not appended before keeps the first of equal values, in order
(`keepFirst_eq`). What it keeps has no repetition (`nodup_eraseDups`), and it may run before or
after an injective change (`eraseDups_map`).
-/

namespace RedArchKM.Lib.Distinct

variable {α β : Type*}

section Loop

variable [DecidableEq α] [DecidableEq β]

/-- Append each value that is not there yet. -/
def keepFirst (values : List α) : List α :=
  values.foldl (fun out value => if value ∈ out then out else out ++ [value]) []

theorem foldl_keepFirst (values out : List α) :
    values.foldl (fun out value => if value ∈ out then out else out ++ [value]) out =
      out ++ (values.filter (· ∉ out)).eraseDups := by
  induction values generalizing out with
  | nil => simp
  | cons value values ih =>
    rw [List.foldl_cons, ih]
    by_cases known : value ∈ out
    · simp [known]
    · have others : values.filter (· ∉ out ++ [value]) =
          (values.filter (· ∉ out)).filter fun other => !other == value := by
        rw [List.filter_filter]
        refine List.filter_congr fun other _ => ?_
        simp [not_or, and_comm, beq_eq_decide]
      rw [if_neg known, List.filter_cons_of_pos (by simpa using known), List.eraseDups_cons, others,
        List.append_assoc, List.singleton_append]

theorem keepFirst_eq (values : List α) : keepFirst values = values.eraseDups := by
  rw [keepFirst, foldl_keepFirst]
  simp

theorem nodup_eraseDups (values : List α) : values.eraseDups.Nodup := by
  have keeps : ∀ (values out : List α), out.Nodup →
      (values.foldl (fun out value => if value ∈ out then out else out ++ [value]) out).Nodup := by
    intro values
    induction values with
    | nil => exact fun out nodup => nodup
    | cons value values ih =>
      intro out nodup
      refine ih _ ?_
      dsimp only
      split
      · exact nodup
      · rename_i fresh
        refine List.nodup_append.mpr ⟨nodup, List.nodup_singleton value, ?_⟩
        rintro old member new isNew rfl
        exact fresh (List.mem_singleton.mp isNew ▸ member)
  rw [← keepFirst_eq]
  exact keeps values [] List.nodup_nil

theorem eraseDups_map {f : α → β} (injective : Function.Injective f) (values : List α) :
    (values.map f).eraseDups = values.eraseDups.map f := by
  have loops : ∀ (values out : List α),
      (values.map f).foldl (fun out value => if value ∈ out then out else out ++ [value]) (out.map f) =
        (values.foldl (fun out value => if value ∈ out then out else out ++ [value]) out).map f := by
    intro values
    induction values with
    | nil => exact fun out => rfl
    | cons value values ih =>
      intro out
      rw [List.map_cons, List.foldl_cons, List.foldl_cons, ← ih]
      congr 1
      by_cases known : value ∈ out
      · rw [if_pos known, if_pos (List.mem_map_of_mem known)]
      · rw [if_neg known, if_neg fun member => known ((List.mem_map_of_injective injective).mp member),
          List.map_append, List.map_singleton]
  rw [← keepFirst_eq, ← keepFirst_eq]
  exact loops values []

end Loop

/-- Lists that are told apart by what is read from their members have no member in common. -/
theorem nodup_flatMap_of_read {values : List α} {f : α → List β} (read : β → α)
    (nodup : values.Nodup) (each : ∀ value ∈ values, (f value).Nodup)
    (reads : ∀ value, ∀ item ∈ f value, read item = value) : (values.flatMap f).Nodup := by
  refine List.nodup_flatMap.mpr ⟨each, nodup.imp fun {first second} differ => ?_⟩
  intro item isFirst isSecond
  exact differ ((reads first item isFirst).symm.trans (reads second item isSecond))

end RedArchKM.Lib.Distinct
