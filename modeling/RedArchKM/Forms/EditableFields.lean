import RedArchKM.Forms.FormWrites

/-!
# What a submission may change

A form lets its filler edit fields of the target record, of the records that its sections link, of
the rows of its blocks and of the tables that are not read only, and of the records that such rows
link. The layout says so; the bindings that a submission is written through do not hold whether a
table is read only, so its rows are written like those of any other table.

Where the payload leaves the rows of the read-only tables alone and sets no link as if it were a
field, every cell that a submission changes or fills is one that the form lets the filler edit, or a
link to a new record.
-/

namespace RedArchKM.Forms

open Lib List
open Lib.Fallible (Ensures bind_eq_ok)
open Lib.Query (Row assign)
open Records (Catalog Public Repository baseColumns baseReadColumns put lookup_put mem_put)

variable {ν ε : Type}

/-! ## What a form lets its filler edit -/

def FormElement.locked : FormElement ε → Bool
  | .tableElement _ table => table.readOnly
  | _ => false

def Site.readRows (site : Site ν ε) (data : Option ν) : Except FormFailure (List (SentRow ν)) := do
  let rows ← site.rowsOf data
  if rows.length > maxSectionRows then .error .tooManyRows
  else rows.mapM site.readRow

def Site.sentRows (site : Site ν ε) (payload : FormSubmit ν) (relId : Nat) : List (SentRow ν) :=
  (site.readRows (site.relatedTo payload relId)).toOption.getD []

def Site.idOf (site : Site ν ε) (row : SentRow ν) : Option ν :=
  row.id.bind fun given => site.env.python.uuid (site.env.python.str (some given))

/-- A form that is filled for a record of a database. -/
structure Filling (ν ε : Type) where
  site : Site ν ε
  form : Form ε
  bindings : Bindings ε
  flat : flatten site.rels form.elements = some bindings
  targetId : ν
  initial : Tables ν

namespace Filling

variable (fill : Filling ν ε)

def rootId : Nat := fill.form.entityDefinitionId

/-- A section, a block or a table that is not read only. -/
def Open (container : Container ε) : Prop :=
  ∃ element ∈ walkAll fill.form.elements, element.locked = false ∧
    bindContainer fill.site.rels element = some (some container)

def Owns (binding : RowsBinding ε) (row : Row String ν) : Prop :=
  ∃ slug, fill.site.relSlug binding.relId = some slug ∧
    fill.site.env.python.str (fill.site.valueIn binding.entityId slug row) =
      fill.site.env.python.str (some fill.targetId)

def Links (entityId : Nat) (slug : String) (row linked : Row String ν) : Prop :=
  ∃ value id, fill.site.valueIn entityId slug row = some value ∧
    fill.site.env.python.uuid (fill.site.env.python.str (some value)) = some id ∧
    fill.site.isRow id linked = true

/-- An id that the database draws. -/
def Fresh (value : Option ν) : Prop := ∃ n, value = some (fill.site.ids n)

/-- The filler may edit the field of the stored row. -/
inductive MayEdit : Nat → Row String ν → String → Prop where
  | target {row : Row String ν} {slug : String} (isTarget : fill.site.isRow fill.targetId row = true)
      (written : slug ∈ fill.bindings.root.written) : MayEdit fill.rootId row slug
  | linked {binding : SectionBinding ε} {relSlug slug : String} {target row : Row String ν}
      (isOpen : fill.Open (.ofSection binding))
      (isRel : fill.site.relSlug binding.relId = some relSlug)
      (stored : target ∈ fill.initial fill.rootId)
      (isTarget : fill.site.isRow fill.targetId target = true)
      (links : fill.Links fill.rootId relSlug target row)
      (written : slug ∈ binding.fields.written) : MayEdit binding.entityId row slug
  | row {binding : RowsBinding ε} {slug : String} {row : Row String ν}
      (isOpen : fill.Open (.ofRows binding)) (owns : fill.Owns binding row)
      (written : slug ∈ binding.fields.written) : MayEdit binding.entityId row slug
  | related {binding : RowsBinding ε} {column : RelatedColBinding} {relSlug : String}
      {child row : Row String ν} (isOpen : fill.Open (.ofRows binding))
      (isColumn : column ∈ binding.relatedCols) (editable : column.editable = true)
      (isRel : fill.site.relSlug column.relId = some relSlug)
      (stored : child ∈ fill.initial binding.entityId) (owns : fill.Owns binding child)
      (links : fill.Links binding.entityId relSlug child row) :
      MayEdit column.entityId row column.slug

inductive MayLink : Nat → Row String ν → String → Prop where
  | target {binding : SectionBinding ε} {relSlug : String} {row : Row String ν}
      (isOpen : fill.Open (.ofSection binding))
      (isRel : fill.site.relSlug binding.relId = some relSlug)
      (isTarget : fill.site.isRow fill.targetId row = true) : MayLink fill.rootId row relSlug
  | row {binding : RowsBinding ε} {column : RelatedColBinding} {relSlug : String}
      {row : Row String ν} (isOpen : fill.Open (.ofRows binding)) (owns : fill.Owns binding row)
      (isColumn : column ∈ binding.relatedCols) (editable : column.editable = true)
      (isRel : fill.site.relSlug column.relId = some relSlug) : MayLink binding.entityId row relSlug

inductive MayCreate : Nat → String → Prop where
  | linked {binding : SectionBinding ε} {slug : String} (isOpen : fill.Open (.ofSection binding))
      (written : slug ∈ binding.fields.written) : MayCreate binding.entityId slug
  | row {binding : RowsBinding ε} {slug : String} (isOpen : fill.Open (.ofRows binding))
      (written : slug ∈ binding.fields.written) : MayCreate binding.entityId slug
  | related {binding : RowsBinding ε} {column : RelatedColBinding}
      (isOpen : fill.Open (.ofRows binding)) (isColumn : column ∈ binding.relatedCols)
      (editable : column.editable = true) : MayCreate column.entityId column.slug

/-- New rows are linked to the target under the slug. -/
inductive Anchors : Nat → String → Prop where
  | row {binding : RowsBinding ε} {relSlug : String} (isOpen : fill.Open (.ofRows binding))
      (isRel : fill.site.relSlug binding.relId = some relSlug) : Anchors binding.entityId relSlug

inductive LinksNew : Nat → String → Prop where
  | row {binding : RowsBinding ε} {column : RelatedColBinding} {relSlug : String}
      (isOpen : fill.Open (.ofRows binding)) (isColumn : column ∈ binding.relatedCols)
      (editable : column.editable = true)
      (isRel : fill.site.relSlug column.relId = some relSlug) : LinksNew binding.entityId relSlug

/-- A row of the payload is new, or that of a record that belongs to the target. -/
def Concerned (binding : RowsBinding ε) (row : SentRow ν) : Prop :=
  row.id = none ∨ ∃ id, fill.site.idOf row = some id ∧
    ∃ stored ∈ fill.initial binding.entityId, fill.site.isRow id stored = true ∧
      fill.Owns binding stored

/-- For the payload, the form sets the field of a record, stored or new. -/
inductive Sets (payload : FormSubmit ν) : Nat → String → Prop where
  | target {slug : String} (set : slug ∈ fill.bindings.root.setBy payload.values) :
      Sets payload fill.rootId slug
  | linked {binding : SectionBinding ε} {values : List (String × Option ν)} {slug : String}
      (isOpen : fill.Open (.ofSection binding))
      (sent : fill.site.sectionValues (fill.site.relatedTo payload binding.relId) = .ok values)
      (set : slug ∈ binding.fields.setBy values) : Sets payload binding.entityId slug
  | row {binding : RowsBinding ε} {row : SentRow ν} {slug : String}
      (isOpen : fill.Open (.ofRows binding))
      (isSent : row ∈ fill.site.sentRows payload binding.relId)
      (concerned : fill.Concerned binding row) (set : slug ∈ binding.fields.setBy row.values) :
      Sets payload binding.entityId slug
  | related {binding : RowsBinding ε} {row : SentRow ν} {column : RelatedColBinding}
      {data : SentCell ν} (isOpen : fill.Open (.ofRows binding))
      (isSent : row ∈ fill.site.sentRows payload binding.relId)
      (concerned : fill.Concerned binding row) (isColumn : column ∈ binding.relatedCols)
      (editable : column.editable = true)
      (isRead : fill.site.readCell row.related column.relId = .ok data)
      (filled : cleaned [column.slug] data.values ≠ []) : Sets payload column.entityId column.slug

/-- For the payload, the form gives a new record a value under the slug. Of a new row it matters
where the row links records in turn. -/
inductive Fills (payload : FormSubmit ν) : Nat → String → Prop where
  | linked {binding : SectionBinding ε} {relSlug slug : String} {target : Row String ν}
      {values : List (String × Option ν)} (isOpen : fill.Open (.ofSection binding))
      (isRel : fill.site.relSlug binding.relId = some relSlug)
      (stored : target ∈ fill.initial fill.rootId)
      (isTarget : fill.site.isRow fill.targetId target = true)
      (unlinked : fill.site.valueIn fill.rootId relSlug target = none)
      (sent : fill.site.sectionValues (fill.site.relatedTo payload binding.relId) = .ok values)
      (set : slug ∈ binding.fields.setBy values) : Fills payload binding.entityId slug
  | row {binding : RowsBinding ε} {relSlug slug : String} {row : SentRow ν}
      (isOpen : fill.Open (.ofRows binding))
      (isRel : fill.site.relSlug binding.relId = some relSlug)
      (isSent : row ∈ fill.site.sentRows payload binding.relId) (isNew : row.id = none)
      (links : binding.relatedCols ≠ [])
      (set : slug = relSlug ∨ slug ∈ binding.fields.setBy row.values) :
      Fills payload binding.entityId slug
  | related {binding : RowsBinding ε} {row : SentRow ν} {column : RelatedColBinding}
      {data : SentCell ν} (isOpen : fill.Open (.ofRows binding))
      (isSent : row ∈ fill.site.sentRows payload binding.relId)
      (concerned : fill.Concerned binding row) (isColumn : column ∈ binding.relatedCols)
      (editable : column.editable = true)
      (isRead : fill.site.readCell row.related column.relId = .ok data)
      (filled : cleaned [column.slug] data.values ≠ []) : Fills payload column.entityId column.slug

section Payload

variable (payload : FormSubmit ν)

/-- A cell of a stored row that the filler may change to the value, and of a field only if the form
sets it for the payload. -/
def Edited (entityId : Nat) (row : Row String ν) (column : String) (value : Option ν) : Prop :=
  ∃ slug, fill.site.columnOf entityId slug = some column ∧
    ((fill.MayEdit entityId row slug ∧ fill.Sets payload entityId slug) ∨
      (fill.MayLink entityId row slug ∧ fill.Fresh value))

def Created (entityId : Nat) (column : String) (value : Option ν) : Prop :=
  ∃ slug, fill.site.columnOf entityId slug = some column ∧
    (fill.MayCreate entityId slug ∨
      (fill.Anchors entityId slug ∧ value = some fill.targetId) ∨
      (fill.LinksNew entityId slug ∧ fill.Fresh value))

/-- The stored row, after changes that the form allows. -/
structure KeptRow (entityId : Nat) (stored row : Row String ν) : Prop where
  id : row "id" = stored "id"
  org : row "org_id" = stored "org_id"
  stamps : ∀ column ∈ baseReadColumns,
    row column = stored column ∨ row column = some fill.site.now
  fields : ∀ column, column ∉ baseColumns →
    row column = stored column ∨ fill.Edited payload entityId stored column (row column)

structure NewRow (entityId : Nat) (row : Row String ν) : Prop where
  id : fill.Fresh (row "id")
  fields : ∀ column, column ∉ baseColumns →
    row column = none ∨ fill.Created entityId column (row column)

/-- **The tables have changed as the form allows**: stored rows are kept in their places, and new
ones follow. -/
def Changes (tables : Tables ν) : Prop :=
  ∀ entityId, ∃ kept new, tables entityId = kept ++ new ∧
    List.Forall₂ (fill.KeptRow payload entityId) (fill.initial entityId) kept ∧
    ∀ row ∈ new, fill.NewRow entityId row

end Payload

/-! ## Conditions -/

/-- The form follows or sets the link of a record. -/
inductive Relates : Nat → String → Prop where
  | target {binding : SectionBinding ε} {relSlug : String}
      (member : .ofSection binding ∈ fill.bindings.containers)
      (isRel : fill.site.relSlug binding.relId = some relSlug) : Relates fill.rootId relSlug
  | anchor {binding : RowsBinding ε} {relSlug : String}
      (member : .ofRows binding ∈ fill.bindings.containers)
      (isRel : fill.site.relSlug binding.relId = some relSlug) : Relates binding.entityId relSlug
  | related {binding : RowsBinding ε} {column : RelatedColBinding} {relSlug : String}
      (member : .ofRows binding ∈ fill.bindings.containers)
      (isColumn : column ∈ binding.relatedCols) (editable : column.editable = true)
      (isRel : fill.site.relSlug column.relId = some relSlug) : Relates binding.entityId relSlug

/-- For the payload, the form sets no field whose slug is also that of a link that it follows, and
gives no new record a value under the slug of its id. -/
structure Plain (payload : FormSubmit ν) : Prop where
  apart : ∀ entityId slug, fill.Sets payload entityId slug → ¬fill.Relates entityId slug
  noId : ∀ entityId, ¬fill.Fills payload entityId "id"

/-- An id names at most one row. -/
def Keyed : Prop :=
  ∀ entityId id, ∀ row ∈ fill.initial entityId, ∀ other ∈ fill.initial entityId,
    fill.site.isRow id row = true → fill.site.isRow id other = true → row = other

/-- Ids are read back from their texts and are no texts themselves, those that the database draws are
not in use and not in the payload, and the time is not read as one. -/
structure FreshIds (payload : FormSubmit ν) : Prop where
  strTarget : ∀ n, fill.site.env.python.str (some (fill.site.ids n)) ≠
    fill.site.env.python.str (some fill.targetId)
  notTarget : ∀ n, fill.site.env.engine.equal (fill.site.ids n) fill.targetId = false
  unused : ∀ n entityId, ∀ row ∈ fill.initial entityId,
    fill.site.isRow (fill.site.ids n) row = false
  notNamed : ∀ relId, ∀ row ∈ fill.site.sentRows payload relId, ∀ id n,
    fill.site.idOf row = some id → fill.site.env.engine.equal (fill.site.ids n) id = false
  parsed : ∀ n, fill.site.env.python.uuid (fill.site.env.python.str (some (fill.site.ids n))) =
    some (fill.site.ids n)
  noText : ∀ n, fill.site.env.python.text (fill.site.ids n) = none
  targetNoText : fill.site.env.python.text fill.targetId = none
  noneIsNoId : fill.site.env.python.uuid (fill.site.env.python.str none) = none
  nowIsNoId : fill.site.env.python.uuid (fill.site.env.python.str (some fill.site.now)) = none
  nowNotTarget : fill.site.env.python.str (some fill.site.now) ≠
    fill.site.env.python.str (some fill.targetId)

/-- **The payload names no row of a read-only table**: neither a new one, nor one that belongs to
the target. -/
def Spares (payload : FormSubmit ν) : Prop :=
  ∀ element ∈ walkAll fill.form.elements, element.locked = true →
    ∀ binding, bindContainer fill.site.rels element = some (some (.ofRows binding)) →
      ∀ row ∈ fill.site.sentRows payload binding.relId, ¬fill.Concerned binding row

/-! ## Rows of changed tables -/

variable {fill} {tables : Tables ν} {entityId : Nat} {payload : FormSubmit ν}

variable {row : Row String ν}

theorem KeptRow.refl (row : Row String ν) : fill.KeptRow payload entityId row row :=
  ⟨rfl, rfl, fun _ _ => .inl rfl, fun _ _ => .inl rfl⟩

theorem KeptRow.isRow {id : ν} {stored : Row String ν}
    (kept : fill.KeptRow payload entityId stored row) :
    fill.site.isRow id row = fill.site.isRow id stored := Site.isRow_congr kept.id kept.org

theorem NewRow.isRow_eq_false {id : ν} (new : fill.NewRow entityId row)
    (differs : ∀ n, fill.site.env.engine.equal (fill.site.ids n) id = false) :
    fill.site.isRow id row = false := by
  obtain ⟨n, isId⟩ := new.id
  simp only [Site.isRow, Query.allHold, all_cons, Query.Condition.holds, Query.Term.eval, isId,
    Option.any_some, Query.Engine.compares, differs n, Bool.false_and]

theorem changes_initial : fill.Changes payload fill.initial := fun entityId =>
  ⟨fill.initial entityId, [], (append_nil _).symm,
    forall₂_same.mpr fun row _ => KeptRow.refl row, fun _ member =>
      absurd member not_mem_nil⟩

theorem mem_right_of_forall₂ {α β : Type} {R : α → β → Prop} {left : List α} {right : List β}
    (related : List.Forall₂ R left right) {b : β} (member : b ∈ right) :
    ∃ a ∈ left, R a b := by
  induction related with
  | nil => cases member
  | cons here _ ih =>
    rcases mem_cons.mp member with rfl | later
    · exact ⟨_, mem_cons_self, here⟩
    · obtain ⟨a, inLeft, isRelated⟩ := ih later
      exact ⟨a, mem_cons_of_mem _ inLeft, isRelated⟩

theorem Changes.row_cases (changes : fill.Changes payload tables) (member : row ∈ tables entityId) :
    (∃ stored ∈ fill.initial entityId, fill.KeptRow payload entityId stored row) ∨
      fill.NewRow entityId row := by
  obtain ⟨kept, new, same, areKept, areNew⟩ := changes entityId
  rw [same] at member
  rcases mem_append.mp member with isKept | isNew
  · exact .inl (mem_right_of_forall₂ areKept isKept)
  · exact .inr (areNew row isNew)

/-- **A link that the form follows is the stored one**, or one to a new record; where a timestamp
stands for it, it may be the time. -/
theorem KeptRow.valueIn (plain : fill.Plain payload) {stored : Row String ν}
    (kept : fill.KeptRow payload entityId stored row) {slug : String}
    (relates : fill.Relates entityId slug) :
    fill.site.valueIn entityId slug row = fill.site.valueIn entityId slug stored ∨
      fill.Fresh (fill.site.valueIn entityId slug row) ∨
        fill.site.valueIn entityId slug row = some fill.site.now := by
  rcases Site.valueIn_cases fill.site entityId slug with
    ⟨column, isColumn, cell⟩ | empty | ⟨isBase, cell⟩
  · rw [cell, cell]
    rcases kept.fields column (Site.columnOf_not_base isColumn) with same | ⟨other, isOther, may⟩
    · exact .inl same
    · obtain rfl := Site.columnOf_inj isColumn isOther
      rcases may with ⟨_, sets⟩ | ⟨_, isFresh⟩
      · exact absurd relates (plain.apart entityId slug sets)
      · exact .inr (.inl isFresh)
  · exact .inl (by rw [empty, empty])
  · rw [cell, cell]
    exact (kept.stamps slug isBase).imp_right .inr

theorem KeptRow.owns (plain : fill.Plain payload) (fresh : fill.FreshIds payload)
    {binding : RowsBinding ε} {stored row : Row String ν}
    (kept : fill.KeptRow payload binding.entityId stored row)
    (member : .ofRows binding ∈ fill.bindings.containers) (owns : fill.Owns binding row) :
    fill.Owns binding stored := by
  obtain ⟨slug, isRel, points⟩ := owns
  refine ⟨slug, isRel, ?_⟩
  rcases kept.valueIn plain (.anchor member isRel) with same | ⟨n, isNew⟩ | isNow
  · rwa [← same]
  · rw [isNew] at points
    exact absurd points (fresh.strTarget n)
  · rw [isNow] at points
    exact absurd points fresh.nowNotTarget

/-! ## One write -/

theorem forall₂_map_of_mem {α β : Type} {R S : α → β → Prop} {f : β → β} {left : List α}
    {right : List β} (related : List.Forall₂ R left right)
    (keeps : ∀ a ∈ left, ∀ b, R a b → S a (f b)) : List.Forall₂ S left (right.map f) := by
  induction related with
  | nil => exact .nil
  | cons here _ ih =>
    exact .cons (keeps _ mem_cons_self _ here)
      (ih fun a member => keeps a (mem_cons_of_mem _ member))

/-- The cells of a patch are those of its slugs, or a timestamp. -/
def PatchCells (fill : Filling ν ε) (entityId : Nat) (patch cells : List (String × Option ν)) :
    Prop :=
  ∀ cell ∈ cells, fill.site.Writes entityId patch cell ∨
    cell = ("updated_at", some fill.site.now)

theorem PatchCells.base {patch cells : List (String × Option ν)}
    (isCell : fill.PatchCells entityId patch cells) {column : String}
    (isBase : column ∈ ["id", "org_id"]) (row : Row String ν) :
    assign row cells column = row column := by
  apply Query.assign_of_ne
  intro cell member
  rintro rfl
  rcases isCell cell member with ⟨entry, _, found, _⟩ | isStamp
  · refine Site.columnOf_not_base found ?_
    revert isBase
    generalize cell.1 = column
    revert column
    decide
  · rw [isStamp] at isBase
    simp at isBase

/-- The cells of a patch leave a timestamp as it is, or put the time. -/
theorem PatchCells.stamp {patch cells : List (String × Option ν)}
    (isCell : fill.PatchCells entityId patch cells) {column : String}
    (isBase : column ∈ baseReadColumns) (row : Row String ν) :
    assign row cells column = row column ∨ assign row cells column = some fill.site.now := by
  rcases Query.assign_cases row cells column with ⟨value, member, same⟩ | same
  · rcases isCell _ member with ⟨entry, _, found, _⟩ | isStamp
    · have areBase : ∀ column ∈ baseReadColumns, column ∈ baseColumns := by decide
      exact absurd (areBase column isBase) (Site.columnOf_not_base found)
    · exact .inr (same.trans (Prod.mk.inj isStamp).2)
  · exact .inl same

def TakesKept (fill : Filling ν ε) (payload : FormSubmit ν) (entityId : Nat)
    (stored : Row String ν) (entry : String × Option ν) : Prop :=
  (fill.MayEdit entityId stored entry.1 ∧ fill.Sets payload entityId entry.1) ∨
    (fill.MayLink entityId stored entry.1 ∧ fill.Fresh entry.2)

def TakesNew (fill : Filling ν ε) (entityId : Nat) (entry : String × Option ν) : Prop :=
  fill.MayCreate entityId entry.1 ∨ (fill.Anchors entityId entry.1 ∧ entry.2 = some fill.targetId) ∨
    (fill.LinksNew entityId entry.1 ∧ fill.Fresh entry.2)

section Takes

variable (fresh : fill.FreshIds payload)
include fresh

theorem writes_fresh {value given : Option ν} (isFresh : fill.Fresh given)
    (written : (∀ id, given = some id → fill.site.env.python.text id = none) → value = given) :
    fill.Fresh value := by
  obtain ⟨n, same⟩ := isFresh
  refine ⟨n, (written fun id isId => ?_).trans same⟩
  cases same.symm.trans isId
  exact fresh.noText n

variable {patch : List (String × Option ν)}

theorem edited_of_writes {stored : Row String ν} {cell : String × Option ν}
    (takes : ∀ entry ∈ patch, fill.TakesKept payload entityId stored entry)
    (writes : fill.site.Writes entityId patch cell) :
    fill.Edited payload entityId stored cell.1 cell.2 := by
  obtain ⟨entry, isEntry, found, written⟩ := writes
  rcases takes entry isEntry with may | ⟨may, isFresh⟩
  · exact ⟨entry.1, found, .inl may⟩
  · exact ⟨entry.1, found, .inr ⟨may, writes_fresh fresh isFresh written⟩⟩

theorem created_of_writes {cell : String × Option ν}
    (takes : ∀ entry ∈ patch, fill.TakesNew entityId entry)
    (writes : fill.site.Writes entityId patch cell) : fill.Created entityId cell.1 cell.2 := by
  obtain ⟨entry, isEntry, found, written⟩ := writes
  rcases takes entry isEntry with may | ⟨anchors, isTarget⟩ | ⟨may, isFresh⟩
  · exact ⟨entry.1, found, .inl may⟩
  · refine ⟨entry.1, found, .inr (.inl ⟨anchors, (written fun id isId => ?_).trans isTarget⟩)⟩
    cases isTarget.symm.trans isId
    exact fresh.targetNoText
  · exact ⟨entry.1, found, .inr (.inr ⟨may, writes_fresh fresh isFresh written⟩)⟩

theorem KeptRow.assign {stored row : Row String ν} {patch cells : List (String × Option ν)}
    (kept : fill.KeptRow payload entityId stored row) (isCell : fill.PatchCells entityId patch cells)
    (takes : ∀ entry ∈ patch, fill.TakesKept payload entityId stored entry) :
    fill.KeptRow payload entityId stored (assign row cells) := by
  refine ⟨(isCell.base (by decide) row).trans kept.id, (isCell.base (by decide) row).trans kept.org,
    fun column isBase => ?_, fun column notBase => ?_⟩
  · rcases isCell.stamp isBase row with same | isNow
    · rw [same]
      exact kept.stamps column isBase
    · exact .inr isNow
  rcases Query.assign_cases row cells column with ⟨value, member, same⟩ | same
  · rw [same]
    rcases isCell _ member with writes | isStamp
    · exact .inr (edited_of_writes fresh takes writes)
    · obtain ⟨rfl, _⟩ := Prod.mk.inj isStamp
      exact absurd (by decide) notBase
  · rw [same]
    exact kept.fields column notBase

theorem NewRow.assign {row : Row String ν} {patch cells : List (String × Option ν)}
    (new : fill.NewRow entityId row) (isCell : fill.PatchCells entityId patch cells)
    (takes : ∀ entry ∈ patch, fill.TakesNew entityId entry) :
    fill.NewRow entityId (assign row cells) := by
  refine ⟨?_, fun column notBase => ?_⟩
  · rw [isCell.base (by decide) row]
    exact new.id
  rcases Query.assign_cases row cells column with ⟨value, member, same⟩ | same
  · rw [same]
    rcases isCell _ member with writes | isStamp
    · exact .inr (created_of_writes fresh takes writes)
    · obtain ⟨rfl, _⟩ := Prod.mk.inj isStamp
      exact absurd (by decide) notBase
  · rw [same]
    exact new.fields column notBase

/-- **An update changes what the form allows**, if the rows that it meets may take its patch. -/
theorem Changes.updateRecord {store : Store ν} {recordId : ν} (changes : fill.Changes payload store.tables)
    (takesKept : ∀ stored ∈ fill.initial entityId, fill.site.isRow recordId stored = true →
      ∀ entry ∈ patch, fill.TakesKept payload entityId stored entry)
    (takesNew : (∃ row, fill.NewRow entityId row ∧ fill.site.isRow recordId row = true) →
      ∀ entry ∈ patch, fill.TakesNew entityId entry) :
    Ensures (fun result => fill.Changes payload result.2.tables)
      (fill.site.updateRecord entityId recordId patch store) := by
  rintro ⟨record, after⟩ updated
  obtain ⟨cells, isCell, _, rfl⟩ := Site.updateRecord_ok updated
  intro other
  dsimp only [Site.withRows]
  split
  · rename_i same
    subst same
    obtain ⟨kept, new, split, areKept, areNew⟩ := changes other
    refine ⟨_, _, by rw [split, map_append], forall₂_map_of_mem areKept ?_, ?_⟩
    · intro stored member row isKept
      split
      · rename_i isRow
        exact isKept.assign fresh isCell (takesKept stored member (isKept.isRow.symm.trans isRow))
      · exact isKept
    · intro row member
      obtain ⟨old, isOld, rfl⟩ := mem_map.mp member
      split
      · rename_i isRow
        exact (areNew old isOld).assign fresh isCell (takesNew ⟨old, areNew old isOld, isRow⟩)
      · exact areNew old isOld
  · exact changes other

/-- **A creation adds a row that the form allows**, if a new row may take its payload. -/
theorem Changes.createRecord {store : Store ν} {entries : List (String × Option ν)}
    (changes : fill.Changes payload store.tables)
    (takes : ∀ entry ∈ entries, fill.TakesNew entityId entry) :
    Ensures (fun result => fill.Changes payload result.2.tables)
      (fill.site.createRecord entityId entries store) := by
  rintro ⟨record, after⟩ created
  obtain ⟨row, ⟨cells, isCell, isRow⟩, _, rfl, _⟩ := Site.createRecord_ok created
  have isNew : fill.NewRow entityId row := by
    rw [isRow]
    refine ⟨⟨store.drawn, Site.newRow_id isCell⟩, fun column notBase => ?_⟩
    rcases Site.newRow_field notBase with isNone | ⟨cell, member, isColumn, same⟩
    · exact .inl isNone
    · rw [same, ← isColumn]
      exact .inr (created_of_writes fresh takes (isCell cell member))
  intro other
  dsimp only [Site.withRows]
  split
  · rename_i same
    subst same
    obtain ⟨kept, new, split, areKept, areNew⟩ := changes other
    refine ⟨kept, new ++ [row], by rw [split, append_assoc], areKept, fun added member => ?_⟩
    rcases mem_append.mp member with isEarlier | isRow
    · exact areNew added isEarlier
    · rwa [mem_singleton.mp isRow]
  · exact changes other

end Takes

end Filling

end RedArchKM.Forms
