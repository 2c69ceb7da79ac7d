import RedArchKM.Designer.Transform
import RedArchKM.Records.Catalog

/-!
# The fields of a record

A record action holds an object whose values are scalars, or references to fields of the record that
triggered the run. The editor shows each value as a text and coerces it to the type of the entity's
field when it is saved. So a value is kept if its type is that of its field (`keptValue_iff`), except
that `null` has no text of its own, that a string in a JSON field is read as JSON, and that a
reference to no field is taken for a text.
-/

namespace RedArchKM.Designer

open Lib.JsonText List Option
open Records (FieldType)

variable {ν : Type}

structure EntityField where
  slug : Units
  fieldType : FieldType

structure RecordRow where
  key : Units
  value : Units
  /-- The field of the triggering record that the value is read from. -/
  ref : Option Units := none

/-! ## References -/

def refPrefix : Units := units "after."

/-- `REF_KEY` -/
def refKey : Units := units "$ref"

def parseRef : Value ν → Option Units
  | .object fields =>
    match fields.lookup refKey with
    | some (.string raw) =>
      if fields.length = 1 ∧ refPrefix <+: raw then some (raw.drop refPrefix.length) else none
    | _ => none
  | _ => none

def makeRef (sourceSlug : Units) : Value ν := .object [(refKey, .string (refPrefix ++ sourceSlug))]

theorem makeRef_of_parseRef {value : Value ν} {slug : Units} (isRef : parseRef value = some slug) :
    makeRef slug = value := by
  unfold parseRef at isRef
  split at isRef
  · rename_i fields
    split at isRef
    · rename_i raw isRaw
      split at isRef
      · rename_i isOnly
        obtain ⟨only, same⟩ := length_eq_one_iff.mp isOnly.1
        obtain ⟨before, after, split, _⟩ := lookup_eq_some_iff.mp isRaw
        have isEntry : (refKey, Value.string raw) ∈ fields :=
          split ▸ mem_append_right _ mem_cons_self
        rw [same] at isEntry ⊢
        rw [← mem_singleton.mp isEntry, ← some.inj isRef]
        obtain ⟨suffix, rfl⟩ := isOnly.2
        unfold makeRef
        rw [drop_left]
      · cases isRef
    · cases isRef
  · cases isRef

/-! ## The editor -/

/-- The cases of `coerceValue`. -/
inductive Coercion where
  | boolean
  | whole
  | numeric
  | json
  | none

def Coercion.of (field : Option EntityField) : Coercion :=
  match field.map EntityField.fieldType with
  | some .boolean => .boolean
  | some .integer | some .bigint => .whole
  | some .numeric => .numeric
  | some .json => .json
  | _ => .none

section Editor

variable (numbers : Numbers ν) (fields : List EntityField)

def scalarToString : Value ν → Units
  | .null => []
  | .bool value => units (if value then "true" else "false")
  | .number value => numbers.text value
  | .string value => value
  -- arrays and objects are no scalars
  | .array _ => []
  | .object _ => []

def isScalar : Value ν → Bool
  | .array _ => false
  | .object _ => false
  | _ => true

/-- `toObject`; nothing is `undefined`. -/
def toObject : Option (Value ν) → Option (Fields ν)
  | none => some []
  | some .null => some []
  | some (.string text) =>
    if trimmed text = [] then some []
    else
      match parse numbers.toNumerals (trimmed text) with
      | some (.object parsed) => some parsed
      | _ => none
  | some (.object object) => some object
  | some _ => none

def rowOf (entry : Units × Value ν) : Option RecordRow :=
  match parseRef entry.2 with
  | some ref => some { key := entry.1, value := [], ref := some ref }
  | none =>
    if isScalar entry.2 then some { key := entry.1, value := scalarToString numbers entry.2 }
    else none

def objectToRows (value : Option (Value ν)) : Option (List RecordRow) :=
  (toObject numbers value).bind fun object => object.mapM (rowOf numbers)

/-- `fieldMap(fields).get(key)` -/
def fieldOf (key : Units) : Option EntityField :=
  fields.reverse.find? fun field => field.slug = key

def coerceValue (field : Option EntityField) (raw : Units) : Value ν :=
  match Coercion.of field with
  | .boolean => .bool (trimmed raw = units "true")
  | .whole =>
    if trimmed raw = [] then .string raw
    else
      let n := numbers.number (trimmed raw)
      if numbers.isInteger n then .number n else .string raw
  | .numeric =>
    let n := numbers.number (trimmed raw)
    if trimmed raw = [] ∨ numbers.isNaN n = true then .string raw else .number n
  | .json => (parse numbers.toNumerals raw).getD (.string raw)
  | .none => .string raw

def rowValue (row : RecordRow) : Value ν :=
  match row.ref with
  | some (first :: rest) => makeRef (first :: rest)
  | _ => coerceValue numbers (fieldOf fields (trimmed row.key)) row.value

def rowsToObject (rows : List RecordRow) : Fields ν :=
  rows.foldl (fun object row =>
    if trimmed row.key = [] then object
    else assign (trimmed row.key) (rowValue numbers fields row) object) []

/-- A value that its row keeps. -/
def KeepsValue (coercion : Coercion) : Value ν → Prop
  | .null => False
  | .bool _ => coercion = .boolean ∨ coercion = .json
  | .number n =>
    match coercion with
    | .whole => numbers.isInteger n = true
    | .numeric | .json => True
    | .boolean | .none => False
  | .string text =>
    match coercion with
    | .boolean => False
    | .whole => trimmed text = [] ∨ numbers.isInteger (numbers.number (trimmed text)) = false
    | .numeric => trimmed text = [] ∨ numbers.isNaN (numbers.number (trimmed text)) = true
    | .json => parse numbers.toNumerals text = none
    | .none => True
  | .array _ => True
  | .object object => parseRef (.object object) ≠ some []

end Editor

/-! ## What a row keeps -/

section Kept

variable {numbers : Numbers ν} {field : Option EntityField}

theorem coerceValue_nil :
    coerceValue numbers field [] = .string [] ∨ coerceValue numbers field [] = .bool false := by
  unfold coerceValue
  cases Coercion.of field with
  | boolean => exact .inr rfl
  | whole => exact .inl rfl
  | numeric => exact .inl (if_pos (.inl rfl))
  | json => exact .inl rfl
  | none => exact .inl rfl

theorem coerceValue_null_ne : coerceValue numbers field (scalarToString numbers .null) ≠ .null := by
  rw [scalarToString]
  rcases @coerceValue_nil ν numbers field with isText | isFalse
  · rw [isText]
    exact fun same => by cases same
  · rw [isFalse]
    exact fun same => by cases same

theorem keptBool_iff (lawful : numbers.Lawful) (value : Bool) :
    coerceValue numbers field (scalarToString numbers (.bool value)) = .bool value ↔
      KeepsValue numbers (Coercion.of field) (.bool value) := by
  have isJson := parse_stringify lawful.numerals (.bool value)
  rw [stringify] at isJson
  rw [scalarToString, coerceValue, isJson, KeepsValue]
  cases Coercion.of field with
  | boolean =>
    cases value
    · exact iff_of_true rfl (.inl rfl)
    · exact iff_of_true rfl (.inl rfl)
  | whole =>
    dsimp only
    split_ifs <;> simp
  | numeric =>
    dsimp only
    split_ifs <;> simp
  | json => exact iff_of_true rfl (.inr rfl)
  | none => simp

theorem keptNumber_iff (lawful : numbers.Lawful) {value : ν}
    (finite : numbers.isFinite value = true) :
    coerceValue numbers field (scalarToString numbers (.number value)) = .number value ↔
      KeepsValue numbers (Coercion.of field) (.number value) := by
  have wf : (Value.number value).Wf numbers.toNumerals := .number value finite
  have isJson := parse_stringify lawful.numerals wf
  have solid := solid_stringify lawful.numerals wf
  rw [stringify, if_pos finite] at isJson solid
  obtain ⟨first, rest, isFirst, _⟩ := solid.first
  have notEmpty : numbers.text value ≠ [] := by
    rw [isFirst]
    exact cons_ne_nil _ _
  rw [scalarToString, coerceValue, isJson, trimmed_solid solid,
    lawful.numerals.number_text value finite, if_neg notEmpty]
  unfold KeepsValue
  cases Coercion.of field with
  | boolean => exact iff_of_false (fun same => by cases same) fun kept => kept
  | whole =>
    dsimp only
    split_ifs with isWhole
    · exact iff_of_true rfl isWhole
    · exact iff_of_false (fun same => by cases same) isWhole
  | numeric => simp [notEmpty, lawful.isNaN_finite value finite]
  | json => exact iff_of_true rfl trivial
  | none => exact iff_of_false (fun same => by cases same) fun kept => kept

theorem keptString_iff (text : Units) :
    coerceValue numbers field (scalarToString numbers (.string text)) = .string text ↔
      KeepsValue numbers (Coercion.of field) (.string text) := by
  rw [scalarToString, coerceValue]
  unfold KeepsValue
  cases Coercion.of field with
  | boolean => exact iff_of_false (fun same => by cases same) fun kept => kept
  | whole =>
    dsimp only
    split_ifs with isBlank isWhole
    · exact iff_of_true rfl (.inl isBlank)
    · simp [isBlank, isWhole]
    · simp [isWhole]
  | numeric =>
    dsimp only
    split_ifs with isText
    · exact iff_of_true rfl isText
    · exact iff_of_false (fun same => by cases same) isText
  | json =>
    dsimp only
    cases isJson : parse numbers.toNumerals text with
    | none => exact iff_of_true rfl rfl
    | some value =>
      refine iff_of_false (fun same => ?_) fun notJson => by cases notJson
      have shorter := length_of_parse_string (isJson.trans (congrArg some same))
      omega
  | none => exact iff_of_true rfl trivial

theorem keptValue_iff (lawful : numbers.Lawful) {fields : List EntityField}
    {entry : Units × Value ν} {row : RecordRow} (wf : entry.2.Wf numbers.toNumerals)
    (isRow : rowOf numbers entry = some row) :
    row.key = entry.1 ∧ (rowValue numbers fields row = entry.2 ↔
      KeepsValue numbers (Coercion.of (fieldOf fields (trimmed entry.1))) entry.2) := by
  obtain ⟨key, value⟩ := entry
  unfold rowOf at isRow
  cases isRef : parseRef value with
  | some slug =>
    rw [isRef] at isRow
    cases isRow
    refine ⟨rfl, ?_⟩
    have same := makeRef_of_parseRef isRef
    subst same
    cases slug with
    | cons first rest => exact iff_of_true rfl fun same => by cases same
    | nil =>
      refine iff_of_false (fun same => ?_) fun notEmpty => notEmpty rfl
      rcases @coerceValue_nil ν numbers (fieldOf fields (trimmed key)) with isText | isFalse
      · cases isText.symm.trans same
      · cases isFalse.symm.trans same
  | none =>
    rw [isRef] at isRow
    dsimp only at isRow
    split at isRow
    · rename_i scalar
      cases isRow
      refine ⟨rfl, ?_⟩
      cases wf with
      | null => exact iff_of_false coerceValue_null_ne fun kept => kept
      | bool value => exact keptBool_iff lawful value
      | number value finite => exact keptNumber_iff lawful finite
      | string text => exact keptString_iff text
      | array items _ => cases scalar
      | object object _ _ => cases scalar
    · cases isRow

end Kept

/-! ## Opening and saving -/

section Saved

variable {numbers : Numbers ν} {fields : List EntityField}

variable {object : Fields ν} {rows : List RecordRow}

theorem exists_row (areRows : object.mapM (rowOf numbers) = some rows) {entry : Units × Value ν}
    (isEntry : entry ∈ object) : ∃ row, rowOf numbers entry = some row := by
  induction object generalizing rows with
  | nil => exact absurd isEntry not_mem_nil
  | cons first rest ih =>
    rw [mapM_cons] at areRows
    obtain ⟨row, isRow, later⟩ := bind_eq_some_iff.mp areRows
    obtain ⟨others, areOthers, _⟩ := bind_eq_some_iff.mp later
    rcases mem_cons.mp isEntry with rfl | isLater
    · exact ⟨row, isRow⟩
    · exact ih areOthers isLater

theorem foldl_rows (areRows : object.mapM (rowOf numbers) = some rows)
    (plain : ∀ entry ∈ object, PlainKey entry.1) (lawful : numbers.Lawful)
    (wf : ∀ entry ∈ object, entry.2.Wf numbers.toNumerals) (built : Fields ν) :
    rows.foldl (fun object row =>
        if trimmed row.key = [] then object
        else assign (trimmed row.key) (rowValue numbers fields row) object) built =
      object.foldl (fun built entry => assign entry.1
        (((rowOf numbers entry).map (rowValue numbers fields)).getD entry.2) built) built := by
  induction object generalizing rows built with
  | nil =>
    cases areRows
    rfl
  | cons entry rest ih =>
    rw [mapM_cons] at areRows
    obtain ⟨row, isRow, later⟩ := bind_eq_some_iff.mp areRows
    obtain ⟨others, areOthers, same⟩ := bind_eq_some_iff.mp later
    cases same
    obtain ⟨isTrimmed, notBlank⟩ := plain entry mem_cons_self
    obtain ⟨isKey, _⟩ := @keptValue_iff ν numbers lawful fields entry row (wf entry mem_cons_self)
      isRow
    rw [foldl_cons, foldl_cons, isKey, isTrimmed, if_neg notBlank, isRow]
    exact ih areOthers (fun other isOther => plain other (mem_cons_of_mem entry isOther))
      (fun other isOther => wf other (mem_cons_of_mem entry isOther)) _

/-- **The record that is saved is the one that was opened** exactly if no key is `__proto__` and each
row keeps its value. -/
theorem sameFields_record_iff (lawful : numbers.Lawful)
    (wf : (Value.object object).Wf numbers.toNumerals) (plain : ∀ entry ∈ object, PlainKey entry.1)
    (accepted : objectToRows numbers (some (.object object)) = some rows) :
    SameFields (rowsToObject numbers fields rows) object ↔
      ∀ entry ∈ object, entry.1 ≠ prototypeKey ∧
        KeepsValue numbers (Coercion.of (fieldOf fields entry.1)) entry.2 := by
  cases wf with
  | object _ keys each =>
    have areRows : object.mapM (rowOf numbers) = some rows := accepted
    unfold rowsToObject
    rw [foldl_rows areRows plain lawful each, sameFields_rebuilt keys]
    refine forall₂_congr fun entry isEntry => and_congr_right fun _ => ?_
    obtain ⟨row, isRow⟩ := exists_row areRows isEntry
    have kept := (@keptValue_iff ν numbers lawful fields entry row (each entry isEntry) isRow).2
    rw [(plain entry isEntry).1] at kept
    rwa [isRow, map_some, getD_some]

end Saved

end RedArchKM.Designer
