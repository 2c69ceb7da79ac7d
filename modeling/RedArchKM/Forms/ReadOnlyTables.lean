import RedArchKM.Forms.SubmittedParts

/-!
# Read-only tables

A table that is read only is to be shown with all cells locked, and without adding rows. The
submission does not know of it: a payload that names a row of such a table edits it
(`readOnly_cell_changed`). A submission that leaves these rows alone changes only what the form lets
its filler edit, and nothing else in the payload counts (`submission_confined`).
-/

namespace RedArchKM.Forms

open Lib List Option
open Lib.Fallible (Ensures)
open Lib.Query (Row)
open Records (Catalog Environment)

variable {ν ε : Type}

namespace Filling

/-- The submission of a payload, when some ids have been drawn. -/
def submit (fill : Filling ν ε) (payload : FormSubmit ν) (drawn : Nat) :
    Except FormFailure (Store ν) :=
  fill.site.applySubmit fill.form fill.targetId payload { tables := fill.initial, drawn := drawn }

end Filling

/-- **A submission that spares the read-only tables changes what the form lets its filler edit**, and
payloads that agree on that have the same outcome. -/
theorem submission_confined (fill : Filling ν ε) (keyed : fill.Keyed) (payload : FormSubmit ν)
    (plain : fill.Plain payload) (fresh : fill.FreshIds payload) (spares : fill.Spares payload)
    (drawn : Nat) :
    Ensures (fun after => fill.Changes payload after.tables) (fill.submit payload drawn) ∧
      ∀ payload', fill.Plain payload' → fill.FreshIds payload' → fill.Spares payload' →
        fill.ReadAlike payload payload' → fill.Agree payload payload' →
          fill.submit payload drawn = fill.submit payload' drawn :=
  ⟨Filling.changes_applySubmit plain fresh keyed spares rfl,
    fun _ plain' fresh' spares' alike agree =>
      agree.applySubmit keyed plain plain' fresh fresh' spares spares' alike rfl⟩

/-! ## An order with its items locked -/

/-- Ids, and the values of JSON. -/
inductive Cell where
  | id (n : Nat)
  | text (value : String)
  | list (items : List Cell)
  | dict (entries : List (String × Cell))

def Cell.equal : Cell → Cell → Bool
  | .id a, .id b => a = b
  | .text a, .text b => a = b
  | _, _ => false

/-- The text of an id is a row of strokes. -/
def strokes (n : Nat) : String := String.ofList (List.replicate (n + 1) 'i')

def readStrokes (text : String) : Option Cell :=
  if text.toList.all (fun letter => letter = 'i') && !text.toList.isEmpty then
    some (.id (text.toList.length - 1))
  else none

def cells : Environment (Tables Cell) Cell where
  engine :=
    { equal := Cell.equal
      less := fun _ _ => false
      lower := id
      like := fun _ _ => false
      truncate := fun _ value => value
      number := .id
      sum := fun _ => .id 0
      average := fun _ => .id 0 }
  python :=
    { text := fun value => match value with
        | .text value => some value
        | _ => none
      bool := fun _ => none
      items := fun value => match value with
        | .list items => some (items.map some)
        | _ => none
      isUuid := fun value => match value with
        | .id _ => true
        | _ => false
      isFinite := fun _ => true
      str := fun value => match value with
        | none => "None"
        | some (.id n) => strokes n
        | some (.text value) => value
        | some (.list _) => "list"
        | some (.dict _) => "dict"
      repr := id
      strip := id
      casefold := String.toLower
      lower := String.toLower
      ofText := .text
      ofBool := fun value => .text (toString value)
      date := fun value => some (.text value)
      datetime := fun value => some (.text value)
      int := fun value => some (.text value)
      decimal := fun value => some (.text value)
      uuid := readStrokes }
  accepts := fun _ _ => true
  physicalTable := fun _ _ => none
  idsIn := fun _ _ => []
  onDelete := fun _ _ _ => none

def orders : Catalog where
  definition := { id := 0, slug := "order", physicalTable := "ce_0" }
  fields := [{ slug := "title", physicalColumn := "f_0", fieldType := .text }]
  relationships := []
  fieldSlugs_nodup := by decide
  relationshipSlugs_nodup := List.nodup_nil
  columns_nodup := by decide

def items : Catalog where
  definition := { id := 1, slug := "item", physicalTable := "ce_1" }
  fields := [{ slug := "quantity", physicalColumn := "f_1", fieldType := .text }]
  relationships :=
    [{ slug := "order"
       physicalName := "rel_7"
       cardinality := .manyToOne
       targetDefinitionId := 0 }]
  fieldSlugs_nodup := by decide
  relationshipSlugs_nodup := by decide
  columns_nodup := by decide

def shop : Site Cell Unit where
  env := cells
  truthy := fun value => match value with
    | .id _ => true
    | .text value => value ≠ ""
    | .list items => !items.isEmpty
    | .dict entries => !entries.isEmpty
  entries := fun value => match value with
    | .dict entries => some (entries.map fun entry => (entry.1, some entry.2))
    | _ => none
  relKey := strokes
  catalogs := fun entityId =>
    if entityId = 0 then some orders else if entityId = 1 then some items else none
  rels := fun relId => if relId = 7 then some ⟨1, 0, "order"⟩ else none
  orgId := .text "shop"
  evaluate := fun _ _ => none
  now := .text "2024-02-01"
  ids := fun n => .id (n + 3)

def orderElements : List (FormElement Unit) :=
  [.leafElement { kind := .field "title" false },
    .tableElement []
      { anchorRelationshipId := 7, columns := [.field "quantity" false], readOnly := true }]

def itemRows : RowsBinding Unit where
  relId := 7
  entityId := 1
  fields := { displaySlugs := ["quantity"], writeSlugs := ["quantity"] }

def orderTables : Tables Cell := fun entityId =>
  if entityId = 0 then
    [Query.assign (fun _ => none) [("id", some (.id 0)), ("org_id", some (.text "shop")),
      ("f_0", some (.text "First"))]]
  else if entityId = 1 then
    [Query.assign (fun _ => none) [("id", some (.id 1)), ("org_id", some (.text "shop")),
      ("f_1", some (.text "2")), ("rel_7", some (.id 0))]]
  else []

/-- The form of an order, which shows its items locked. -/
def order : Filling Cell Unit where
  site := shop
  form := { entityDefinitionId := 0, elements := orderElements }
  bindings :=
    { root := { displaySlugs := ["title"], writeSlugs := ["title"] }
      containers := [.ofRows itemRows] }
  flat := rfl
  targetId := .id 0
  initial := orderTables

example : validate (fun entityId => if entityId = 0 then some ["title"] else some ["quantity"])
    shop.rels orderElements 0 = .ok () := rfl

def itemRow (id quantity : String) : Cell :=
  .dict [("rows", .list [.dict [("id", .text id), ("values", .dict [("quantity", .text quantity)])]])]

/-- The title of the order, a field that the form does not write, and a row of no item. -/
def titleEdit (total : String) : FormSubmit Cell where
  values := [("title", some (.text "Second")), ("total", some (.text total))]
  related := [(strokes 7, some (itemRow "iii" "9"))]

def quantityEdit : FormSubmit Cell where
  related := [(strokes 7, some (itemRow "ii" "9"))]

example : order.submit { related := [(strokes 7, some (.text "ii"))] } 0 = .error .raised := rfl

theorem readStrokes_strokes (n : Nat) : readStrokes (strokes n) = some (.id n) := by
  have letters : (strokes n).toList = List.replicate (n + 1) 'i' := String.toList_ofList
  unfold readStrokes
  rw [letters]
  simp [replicate_succ]

variable {payload : FormSubmit Cell}

/-- What is sent for the items is sent for no other relationship. -/
theorem sentRows_items {data : Option Cell} (related : payload.related = [(strokes 7, data)])
    {relId : Nat} {row : SentRow Cell} (isSent : row ∈ shop.sentRows payload relId) :
    relId = 7 := by
  by_contra other
  have differs : (strokes relId == strokes 7) = false := by
    refine beq_eq_false_iff_ne.mpr fun same => other ?_
    have read := (readStrokes_strokes relId).symm.trans ((congrArg _ same).trans (readStrokes_strokes 7))
    exact Cell.id.inj (some.inj read)
  have nothing : shop.relatedTo payload relId = none := by
    change (((payload.related.lookup (strokes relId)).join).filter shop.truthy) = none
    rw [related, lookup_cons, differs]
    rfl
  unfold Site.sentRows at isSent
  rw [nothing] at isSent
  cases isSent

theorem order_closed (container : Container Unit) : ¬order.Open container := by
  rintro ⟨element, member, isUnlocked, isBound⟩
  have cases : element = .leafElement { kind := .field "title" false } ∨ element.locked = true := by
    rcases mem_cons.mp member with rfl | isTable
    · exact .inl rfl
    · rw [mem_singleton.mp isTable]
      exact .inr rfl
  rcases cases with rfl | isLocked
  · cases isBound
  · rw [isLocked] at isUnlocked
    cases isUnlocked

variable {entityId : Nat}

variable {slug : String} {row : Row String Cell}

theorem order_mayEdit (may : order.MayEdit entityId row slug) : entityId = 0 := by
  cases may with
  | target _ _ => rfl
  | linked isOpen _ _ _ _ _ => exact absurd isOpen (order_closed _)
  | row isOpen _ _ => exact absurd isOpen (order_closed _)
  | related isOpen _ _ _ _ _ _ => exact absurd isOpen (order_closed _)

theorem order_mayLink : ¬order.MayLink entityId row slug := by
  intro may
  cases may with
  | target isOpen _ _ => exact order_closed _ isOpen
  | row isOpen _ _ _ _ => exact order_closed _ isOpen

theorem order_relates (relates : order.Relates entityId slug) : entityId = 1 ∧ slug = "order" := by
  cases relates with
  | target member isRel => cases mem_singleton.mp member
  | anchor member isRel =>
    cases mem_singleton.mp member
    exact ⟨rfl, (some.inj isRel).symm⟩
  | related member isColumn _ _ =>
    cases mem_singleton.mp member
    exact absurd isColumn not_mem_nil

theorem order_fills : ¬order.Fills payload entityId slug := by
  intro fills
  cases fills with
  | linked isOpen _ _ _ _ _ _ => exact order_closed _ isOpen
  | row isOpen _ _ _ _ _ => exact order_closed _ isOpen
  | related isOpen _ _ _ _ _ _ => exact order_closed _ isOpen

theorem order_plain (payload : FormSubmit Cell) : order.Plain payload where
  noId entityId := order_fills
  apart entityId slug sets relates := by
    obtain ⟨isItem, _⟩ := order_relates relates
    cases sets with
    | target _ => cases isItem
    | linked isOpen _ _ => exact order_closed _ isOpen
    | row isOpen _ _ _ => exact order_closed _ isOpen
    | related isOpen _ _ _ _ _ _ => exact order_closed _ isOpen

theorem order_rows (member : row ∈ order.initial entityId) :
    order.initial entityId = [row] ∧ (row "id" = some (.id 0) ∨ row "id" = some (.id 1)) := by
  change row ∈ orderTables entityId at member
  change orderTables entityId = [row] ∧ _
  unfold orderTables at member ⊢
  split at member
  · rename_i isOrder
    rw [if_pos isOrder]
    cases mem_singleton.mp member
    exact ⟨rfl, .inl rfl⟩
  · rename_i notOrder
    split at member
    · rename_i isItem
      rw [if_neg notOrder, if_pos isItem]
      cases mem_singleton.mp member
      exact ⟨rfl, .inr rfl⟩
    · cases member

theorem order_keyed : order.Keyed := by
  intro entityId id row member other member' _ _
  have same := (order_rows member).1
  rw [same] at member'
  exact (mem_singleton.mp member').symm

theorem order_freshIds (named : ∀ relId, ∀ row ∈ shop.sentRows payload relId, ∀ id,
      shop.idOf row = some id → ∃ n < 3, id = .id n) : order.FreshIds payload where
  strTarget n same := by
    have shown := congrArg readStrokes same
    change readStrokes (strokes (n + 3)) = readStrokes (strokes 0) at shown
    rw [readStrokes_strokes, readStrokes_strokes] at shown
    cases shown
  notTarget n := rfl
  unused n entityId row member := by
    rcases (order_rows member).2 with isId | isId <;>
      simp [Site.isRow, Query.allHold, Query.Condition.holds, Query.Term.eval, isId,
        Query.Engine.compares, order, shop, cells, Cell.equal]
  notNamed relId row isSent id n parsed := by
    obtain ⟨k, small, rfl⟩ := named relId row isSent id parsed
    refine decide_eq_false fun same => ?_
    omega
  parsed n := readStrokes_strokes (n + 3)
  noText n := rfl
  targetNoText := rfl
  noneIsNoId := rfl
  nowIsNoId := rfl
  nowNotTarget := by decide

theorem titleEdit_rows {total : String} {relId : Nat} {row : SentRow Cell}
    (isSent : row ∈ shop.sentRows (titleEdit total) relId) : row.id = some (.text "iii") := by
  obtain rfl := sentRows_items rfl isSent
  rw [mem_singleton.mp isSent]
  rfl

theorem titleEdit_idOf {total : String} {relId : Nat} {row : SentRow Cell}
    (isSent : row ∈ shop.sentRows (titleEdit total) relId) : shop.idOf row = some (.id 2) := by
  rw [Site.idOf, titleEdit_rows isSent]
  rfl

theorem titleEdit_fresh (total : String) : order.FreshIds (titleEdit total) := by
  refine order_freshIds fun relId row isSent id parsed => ⟨2, by decide, ?_⟩
  rw [titleEdit_idOf isSent] at parsed
  exact (some.inj parsed).symm

theorem titleEdit_notConcerned {total : String} {binding : RowsBinding Unit} {row : SentRow Cell}
    (isSent : row ∈ shop.sentRows (titleEdit total) binding.relId) :
    ¬order.Concerned binding row := by
  rintro (isNew | ⟨id, parsed, stored, member, isRow, _⟩)
  · rw [titleEdit_rows isSent] at isNew
    cases isNew
  · have isId := (titleEdit_idOf isSent).symm.trans parsed
    cases isId
    rcases (order_rows member).2 with isId | isId <;>
      simp [Site.isRow, Query.allHold, Query.Condition.holds, Query.Term.eval, isId,
        Query.Engine.compares, order, shop, cells, Cell.equal] at isRow

theorem titleEdit_spares (total : String) : order.Spares (titleEdit total) :=
  fun _ _ _ _ _ _ isSent => titleEdit_notConcerned isSent

theorem titleEdit_readAlike : order.ReadAlike (titleEdit "1") (titleEdit "2") := by
  intro container member
  cases mem_singleton.mp member
  exact .inl rfl

theorem titleEdit_agree : order.Agree (titleEdit "1") (titleEdit "2") where
  root := rfl
  sections _ _ := rfl
  rows _ _ := rfl

/-- The new title is stored and the items stay, whatever else is sent. -/
theorem submission_confined_titleEdit :
    (∃ after, order.submit (titleEdit "1") 0 = .ok after ∧
      (after.tables 0).map (fun row => row "f_0") = [some (.text "Second")] ∧
      order.Changes (titleEdit "1") after.tables) ∧
      order.submit (titleEdit "1") 0 = order.submit (titleEdit "2") 0 := by
  obtain ⟨changes, agrees⟩ := submission_confined order order_keyed (titleEdit "1")
    (order_plain _) (titleEdit_fresh "1") (titleEdit_spares "1") 0
  exact ⟨⟨_, rfl, rfl, changes _ rfl⟩, agrees (titleEdit "2") (order_plain _) (titleEdit_fresh "2")
    (titleEdit_spares "2") titleEdit_readAlike titleEdit_agree⟩

/-- **A payload that names a row of a read-only table changes it.** -/
theorem readOnly_cell_changed :
    order.Plain quantityEdit ∧ order.Keyed ∧ order.FreshIds quantityEdit ∧
      ∃ after, order.submit quantityEdit 0 = .ok after ∧
        (after.tables 1).map (fun row => row "f_1") = [some (.text "9")] ∧
        ¬order.Changes quantityEdit after.tables := by
  have fresh : order.FreshIds quantityEdit := by
    refine order_freshIds fun relId row isSent id parsed => ⟨1, by decide, ?_⟩
    obtain rfl := sentRows_items rfl isSent
    rw [mem_singleton.mp isSent] at parsed
    exact (some.inj parsed).symm
  refine ⟨order_plain _, order_keyed, fresh, _, rfl, rfl, fun changes => ?_⟩
  obtain ⟨kept, new, same, areKept, _⟩ := changes 1
  cases areKept with
  | cons isKept rest =>
    obtain ⟨isRow, _⟩ := List.cons.inj same
    rcases isKept.fields "f_1" (by decide) with unchanged | ⟨slug, _, may⟩
    · rw [← isRow] at unchanged
      have same : some (Cell.text "9") = some (.text "2") := unchanged
      exact absurd (Cell.text.inj (some.inj same)) (by decide)
    · rcases may with ⟨may, _⟩ | ⟨may, _⟩
      · exact absurd (order_mayEdit may) (by decide)
      · exact order_mayLink may

end RedArchKM.Forms
