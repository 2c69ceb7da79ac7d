import Mathlib.Data.Nat.Digits.Lemmas
import RedArchKM.Designer.RecordFields

/-!
# Opening and saving a node's values

Both value editors put every value into a text cell and type it again when it is saved. An object is
saved as it was exactly if every cell keeps its value (`saved_iff`). A blank string of a transform
and a `null` of a record are lost (`not_saved_blank`).
-/

namespace RedArchKM.Designer

open Lib.JsonText List

variable {ν : Type}

/-- **An editor saves what it opened exactly if it keeps every key and every value.** -/
theorem saved_iff {numbers : Numbers ν} (lawful : numbers.Lawful) :
    (∀ transform : Fields ν, (Value.object transform).Wf numbers.toNumerals →
        (∀ entry ∈ transform, PlainKey entry.1) →
          (SameFields (rowsToTransform numbers (transformToRows numbers (.object transform)))
              transform ↔
            ∀ entry ∈ transform, entry.1 ≠ prototypeKey ∧ KeepsExpr numbers entry.2)) ∧
      ∀ (fields : List EntityField) (object : Fields ν) (rows : List RecordRow),
        (Value.object object).Wf numbers.toNumerals → (∀ entry ∈ object, PlainKey entry.1) →
          objectToRows numbers (some (.object object)) = some rows →
            (SameFields (rowsToObject numbers fields rows) object ↔
              ∀ entry ∈ object, entry.1 ≠ prototypeKey ∧
                KeepsValue numbers (Coercion.of (fieldOf fields entry.1)) entry.2) :=
  ⟨fun _ wf plain => sameFields_transform_iff lawful wf plain,
    fun _ _ _ wf plain accepted => sameFields_record_iff lawful wf plain accepted⟩

/-! ## Natural numbers -/

def decimal (n : Nat) : Units :=
  if n = 0 then ['0'.toNat] else (Nat.digits 10 n).reverse.map ('0'.toNat + ·)

def readDecimal (text : Units) : Option Nat :=
  if text.all isDigit then some (Nat.ofDigits 10 (text.reverse.map (· - '0'.toNat))) else none

/-- Natural numbers as they are written, and no other numbers. -/
def naturals : Numbers (Option Nat) where
  isFinite := Option.isSome
  text n := n.elim (units "NaN") decimal
  number := readDecimal
  isNaN := Option.isNone
  isInteger := Option.isSome

theorem isNumeral_of_digits {first : Nat} {rest : Units}
    (areDigits : ∀ unit ∈ first :: rest, isDigit unit = true)
    (noZero : first ≠ '0'.toNat) : isNumeral (first :: rest) = true := by
  have notSign : first ∉ ['-'.toNat] := by
    intro isSign
    have isMinus := mem_singleton.mp isSign
    have isFirst := areDigits first mem_cons_self
    rw [isMinus] at isFirst
    revert isFirst
    decide
  have read : digits (first :: rest) = some [] := by
    unfold digits
    rw [takeWhile_eq_self_iff.mpr areDigits, dropWhile_eq_nil_iff.mpr areDigits]
    rfl
  have noSign : afterSign ['-'.toNat] (first :: rest) = first :: rest := if_neg notSign
  have isIntegral : integral (first :: rest) = some [] := (if_neg noZero).trans read
  unfold isNumeral
  rw [noSign, isIntegral]
  rfl

theorem decimal_digits (n : Nat) : ∀ unit ∈ decimal n, isDigit unit = true := by
  unfold decimal
  split
  · decide
  · intro unit isUnit
    obtain ⟨digit, isDigitOf, rfl⟩ := mem_map.mp isUnit
    have small := Nat.digits_lt_base (by decide) (mem_reverse.mp isDigitOf)
    have bounds : '0'.toNat = 48 ∧ '9'.toNat = 57 := by decide
    refine decide_eq_true ?_
    omega

theorem readDecimal_decimal (n : Nat) : readDecimal (decimal n) = some n := by
  unfold readDecimal
  rw [if_pos (all_eq_true.mpr (decimal_digits n))]
  unfold decimal
  split
  · rename_i isZero
    rw [isZero]
    rfl
  · have digitsBack : ∀ digits : List Nat,
        (digits.map ('0'.toNat + ·)).map (· - '0'.toNat) = digits := by
      intro digits
      rw [map_map]
      refine (map_congr_left fun digit _ => ?_).trans (map_id _)
      exact Nat.add_sub_cancel_left _ _
    rw [← map_reverse, reverse_reverse, digitsBack, Nat.ofDigits_digits]

theorem isNumeral_decimal (n : Nat) : isNumeral (decimal n) = true := by
  by_cases isZero : n = 0
  · subst isZero
    decide
  · have areDigits := decimal_digits n
    have isText : decimal n = (Nat.digits 10 n).reverse.map ('0'.toNat + ·) := if_neg isZero
    have notEmpty : Nat.digits 10 n ≠ [] := Nat.digits_ne_nil_iff_ne_zero.mpr isZero
    have lastNotZero := Nat.getLast_digit_ne_zero 10 isZero
    obtain ⟨front, last, split⟩ : ∃ front last, Nat.digits 10 n = front ++ [last] :=
      ⟨_, _, (dropLast_append_getLast notEmpty).symm⟩
    have isLast : (Nat.digits 10 n).getLast notEmpty = last := by
      simp only [split, getLast_concat]
    rw [split, reverse_append, reverse_singleton, singleton_append, map_cons] at isText
    rw [isText] at areDigits ⊢
    refine isNumeral_of_digits areDigits ?_
    omega

theorem lawful_naturals : naturals.Lawful where
  numerals :=
    { isNumeral_text := fun value finite => by
        obtain ⟨n, rfl⟩ := Option.isSome_iff_exists.mp finite
        exact isNumeral_decimal n
      number_text := fun value finite => by
        obtain ⟨n, rfl⟩ := Option.isSome_iff_exists.mp finite
        exact readDecimal_decimal n }
  isNaN_finite value finite := by
    obtain ⟨n, rfl⟩ := Option.isSome_iff_exists.mp finite
    rfl

/-! ## A script and a record -/

def script : Fields (Option Nat) :=
  [(units "label", .string (units "done")),
    (units "name", .object [(units "var", .string (units "after.name"))]),
    (units "code", .string (units "true"))]

def draft : Fields (Option Nat) :=
  [(units "title", .string (units "Minutes")), (units "owner", makeRef (units "author"))]

def draftFields : List EntityField := [⟨units "title", .text⟩, ⟨units "owner", .uuid⟩]

theorem wf_script : (Value.object script).Wf naturals.toNumerals := by
  refine .object script (by decide) fun entry isEntry => ?_
  simp only [script, mem_cons, not_mem_nil, or_false] at isEntry
  rcases isEntry with rfl | rfl | rfl
  · exact .string _
  · refine .object _ (by decide) fun field isField => ?_
    rw [mem_singleton.mp isField]
    exact .string _
  · exact .string _

theorem wf_draft : (Value.object draft).Wf naturals.toNumerals := by
  refine .object draft (by decide) fun entry isEntry => ?_
  simp only [draft, mem_cons, not_mem_nil, or_false] at isEntry
  rcases isEntry with rfl | rfl
  · exact .string _
  · refine .object _ (by decide) fun field isField => ?_
    rw [mem_singleton.mp isField]
    exact .string _

theorem saved_script :
    SameFields (rowsToTransform naturals (transformToRows naturals (.object script))) script ∧
      ∃ rows, objectToRows naturals (some (.object draft)) = some rows ∧
        SameFields (rowsToObject naturals draftFields rows) draft := by
  obtain ⟨ofScript, ofDraft⟩ := saved_iff lawful_naturals
  refine ⟨(ofScript script wf_script (by decide)).mpr fun entry isEntry => ?_, _, rfl,
    (ofDraft draftFields draft _ wf_draft (by decide) rfl).mpr fun entry isEntry => ?_⟩
  · simp only [script, mem_cons, not_mem_nil, or_false] at isEntry
    rcases isEntry with rfl | rfl | rfl
    · exact ⟨by decide, .inr (.inr ⟨by decide, rfl⟩)⟩
    · exact ⟨by decide, trivial⟩
    · exact ⟨by decide, .inr (.inl rfl)⟩
  · simp only [draft, mem_cons, not_mem_nil, or_false] at isEntry
    rcases isEntry with rfl | rfl
    · exact ⟨by decide, trivial⟩
    · have isRef : parseRef (makeRef (units "author") : Value (Option Nat)) ≠ some [] := by decide
      exact ⟨by decide, isRef⟩

/-- A blank string becomes empty, and `null` a text. -/
theorem not_saved_blank :
    ¬SameFields (rowsToTransform naturals
        (transformToRows naturals (.object [(units "note", .string (units " "))])))
        [(units "note", .string (units " "))] ∧
      objectToRows naturals (some (.object [(units "note", .null)])) =
          some [{ key := units "note", value := [] }] ∧
        ¬SameFields (rowsToObject naturals [⟨units "note", .text⟩]
          [{ key := units "note", value := [] }]) [(units "note", .null)] := by
  refine ⟨fun same => ?_, rfl, fun same => ?_⟩
  · cases same (units "note")
  · cases same (units "note")

end RedArchKM.Designer
