import Mathlib.Data.List.DropRight

/-!
# The fields of a text

The fields of a text are the longest parts of it without a space, for any notion of space. A space
between two texts keeps their fields apart (`fields_append_space`), so spaces at the ends of a text
count for nothing (`fields_trim`). A scan that counts where a field begins counts the fields
(`countFields_eq`).
-/

namespace RedArchKM.Lib

open List

variable {α : Type} (isSpace : α → Bool)

def fields (text : List α) : List (List α) := (text.splitOnP isSpace).filter fun part => !part.isEmpty

def trim (text : List α) : List α := (text.dropWhile isSpace).rdropWhile isSpace

/-- The fields of a text, of which the first counts only if none is open. -/
def countFields : Bool → List α → Nat
  | _, [] => 0
  | isOpen, item :: rest =>
    if isSpace item then countFields false rest
    else if isOpen then countFields true rest
    else countFields true rest + 1

variable {isSpace}

@[simp] theorem fields_nil : fields isSpace [] = [] := rfl

theorem fields_append_space {text more : List α} {space : α} (isSep : isSpace space) :
    fields isSpace (text ++ space :: more) = fields isSpace text ++ fields isSpace more := by
  unfold fields
  rw [splitOnP_append_cons text more isSep, filter_append]

variable {text spaces : List α}

theorem fields_cons_space {space : α} (isSep : isSpace space) :
    fields isSpace (space :: text) = fields isSpace text :=
  @fields_append_space α isSpace [] text space isSep

theorem fields_concat_space {space : α} (isSep : isSpace space) :
    fields isSpace (text ++ [space]) = fields isSpace text := by
  rw [fields_append_space isSep, fields_nil, append_nil]

theorem fields_solid (solid : ∀ item ∈ text, isSpace item = false) (notEmpty : text ≠ []) :
    fields isSpace text = [text] := by
  unfold fields
  rw [splitOnP_eq_singleton solid]
  cases text with
  | nil => exact absurd rfl notEmpty
  | cons item rest => rfl

theorem fields_blank (blank : ∀ item ∈ text, isSpace item) : fields isSpace text = [] := by
  induction text with
  | nil => rfl
  | cons item rest ih =>
    rw [fields_cons_space (blank item mem_cons_self)]
    exact ih fun other member => blank other (mem_cons_of_mem _ member)

theorem fields_append_blank (blank : ∀ item ∈ spaces, isSpace item) :
    fields isSpace (text ++ spaces) = fields isSpace text := by
  cases spaces with
  | nil => rw [append_nil]
  | cons item rest =>
    rw [fields_append_space (blank item mem_cons_self),
      fields_blank fun other member => blank other (mem_cons_of_mem _ member),
      append_nil]

theorem fields_append_spaces {more : List α} (notEmpty : spaces ≠ [])
    (blank : ∀ item ∈ spaces, isSpace item) :
    fields isSpace (text ++ (spaces ++ more)) = fields isSpace text ++ fields isSpace more := by
  induction spaces generalizing text with
  | nil => exact absurd rfl notEmpty
  | cons item rest ih =>
    rw [cons_append, fields_append_space (blank item mem_cons_self)]
    cases rest with
    | nil => rfl
    | cons next others =>
      have later := @ih [] (cons_ne_nil _ _)
        fun other member => blank other (mem_cons_of_mem _ member)
      rw [nil_append, fields_nil, nil_append] at later
      rw [later]

theorem fields_dropWhile (text : List α) :
    fields isSpace (text.dropWhile isSpace) = fields isSpace text := by
  induction text with
  | nil => rfl
  | cons item rest ih =>
    by_cases isSep : isSpace item
    · rw [dropWhile_cons_of_pos isSep, fields_cons_space isSep, ih]
    · rw [dropWhile_cons_of_neg isSep]

theorem fields_rdropWhile (text : List α) :
    fields isSpace (text.rdropWhile isSpace) = fields isSpace text := by
  induction text using List.reverseRecOn with
  | nil => rfl
  | append_singleton text item ih =>
    by_cases isSep : isSpace item
    · rw [rdropWhile_concat_pos _ _ _ isSep, fields_concat_space isSep, ih]
    · rw [rdropWhile_concat_neg _ _ _ isSep]

theorem fields_trim (text : List α) : fields isSpace (trim isSpace text) = fields isSpace text := by
  unfold trim
  rw [fields_rdropWhile, fields_dropWhile]

theorem fields_intercalate {space : α} (isSep : isSpace space) (texts : List (List α)) :
    fields isSpace ([space].intercalate texts) = texts.flatMap (fields isSpace) := by
  induction texts with
  | nil => rfl
  | cons text rest ih =>
    cases rest with
    | nil => rw [intercalate_singleton, flatMap_singleton]
    | cons next others =>
      rw [intercalate_cons_cons, append_assoc, singleton_append, fields_append_space isSep, ih]
      rfl

/-! ## Texts without spaces at their ends -/

theorem trim_eq_nil_iff : trim isSpace text = [] ↔ ∀ item ∈ text, isSpace item := by
  unfold trim
  rw [rdropWhile_eq_nil_iff]
  constructor
  · intro blank item member
    rw [← takeWhile_append_dropWhile (p := isSpace) (l := text)] at member
    rcases mem_append.mp member with isFirst | isLater
    · exact mem_takeWhile_imp isFirst
    · exact blank item isLater
  · intro blank item member
    exact blank item ((dropWhile_suffix isSpace).mem member)

theorem exists_concat_trim (notBlank : trim isSpace text ≠ []) :
    ∃ body last, trim isSpace text = body ++ [last] ∧ isSpace last = false := by
  have solid := rdropWhile_last_not isSpace (text.dropWhile isSpace) notBlank
  exact ⟨_, _, (dropLast_append_getLast notBlank).symm, Bool.eq_false_iff.mpr solid⟩

theorem trim_concat {body : List α} {last : α} (solid : isSpace last = false) :
    trim isSpace (body ++ [last]) = (body ++ [last]).dropWhile isSpace := by
  have notSpace : ¬isSpace last = true := by simp [solid]
  unfold trim
  rw [rdropWhile_eq_self_iff]
  intro notEmpty
  have isLast := (dropWhile_suffix isSpace (l := body ++ [last])).getLast notEmpty
  rw [isLast]
  simpa using notSpace

theorem trim_trim (text : List α) : trim isSpace (trim isSpace text) = trim isSpace text := by
  cases isTrimmed : trim isSpace text with
  | nil => rfl
  | cons first rest =>
    have notBlank : trim isSpace text ≠ [] := by
      rw [isTrimmed]
      exact cons_ne_nil first rest
    obtain ⟨body, last, isText, solid⟩ := exists_concat_trim notBlank
    -- the first item is that of the text without its leading spaces
    obtain ⟨after, isBefore⟩ := rdropWhile_prefix isSpace (text.dropWhile isSpace)
    have isFirst : text.dropWhile isSpace = first :: (rest ++ after) := by
      rw [← isBefore]
      exact congrArg (· ++ after) isTrimmed
    have notSpace : isSpace first = false := by
      have found := head?_dropWhile_not isSpace text
      rw [isFirst] at found
      simpa using found
    rw [← isTrimmed, isText, trim_concat solid, ← isText, isTrimmed,
      dropWhile_cons_of_neg (by rw [notSpace]; exact Bool.false_ne_true)]

/-! ## Counting -/

theorem countFields_eq_splitOnP (text : List α) :
    countFields isSpace true text =
        ((text.splitOnP isSpace).tail.filter fun part => !part.isEmpty).length ∧
      countFields isSpace false text = (fields isSpace text).length := by
  induction text with
  | nil => exact ⟨rfl, rfl⟩
  | cons item rest ih =>
    obtain ⟨whenOpen, whenClosed⟩ := ih
    unfold countFields fields
    rw [splitOnP_cons_eq_if_modifyHead]
    by_cases isSep : isSpace item
    · rw [if_pos isSep, if_pos isSep, if_pos isSep]
      exact ⟨whenClosed, whenClosed⟩
    · obtain ⟨first, others, parts⟩ := exists_cons_of_ne_nil (splitOnP_ne_nil isSpace rest)
      rw [parts] at whenOpen
      rw [if_neg isSep, if_neg isSep, if_neg isSep, parts]
      exact ⟨whenOpen, congrArg (· + 1) whenOpen⟩

/-- **The scan counts the fields.** -/
theorem countFields_eq (text : List α) :
    countFields isSpace false text = (fields isSpace text).length :=
  (countFields_eq_splitOnP text).2

theorem countFields_concat_append {body more : List α} {last : α} (solid : isSpace last = false)
    (isOpen : Bool) :
    countFields isSpace isOpen (body ++ [last] ++ more) =
      countFields isSpace isOpen (body ++ [last]) + countFields isSpace true more := by
  induction body generalizing isOpen with
  | nil => cases isOpen <;> simp [countFields, solid, Nat.add_comm]
  | cons item rest ih =>
    simp only [cons_append, countFields] at ih ⊢
    rw [ih false, ih true]
    split
    · rfl
    · split
      · rfl
      · omega

theorem countFields_blank (blank : ∀ item ∈ spaces, isSpace item) (isOpen : Bool) :
    countFields isSpace isOpen spaces = 0 := by
  induction spaces generalizing isOpen with
  | nil => rfl
  | cons item rest ih =>
    unfold countFields
    rw [if_pos (blank item mem_cons_self)]
    exact ih (fun other member => blank other (mem_cons_of_mem _ member)) false

theorem countFields_solid (solid : ∀ item ∈ text, isSpace item = false)
    (blank : ∀ item ∈ spaces, isSpace item) : countFields isSpace true (text ++ spaces) = 0 := by
  induction text with
  | nil => exact countFields_blank blank true
  | cons item rest ih =>
    rw [cons_append]
    unfold countFields
    rw [solid item mem_cons_self]
    exact ih fun other member => solid other (mem_cons_of_mem _ member)

end RedArchKM.Lib
