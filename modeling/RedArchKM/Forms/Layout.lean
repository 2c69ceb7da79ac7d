import Mathlib.Data.List.Basic
import RedArchKM.Lib.Fallible

/-!
# Form layouts

A layout is a tree of elements. Layout containers keep the entity of their parent; a section binds
its children to the record that the root links, and a block or a table to the records that link the
root. `validate` refuses a tree that names a field or a relationship that is not there, and
`flatten` reads off what a form shows and writes: the root's fields, and the containers one after
the other.

What an element reads without showing a field (a gate, a puzzle, a template of a link) is given by
the slugs in it.
-/

namespace RedArchKM.Forms

open List

open Lib.Fallible (bind_eq_ok guard_eq_ok forM_eq_ok)

variable {ε : Type}

/-! ## Elements -/

/-- What a leaf is. Expressions of calculated elements are of any kind. -/
inductive LeafKind (ε : Type) where
  | field (slug : String) (readOnly : Bool)
  | calculated (targetSlug : Option String) (expression : ε)
  | puzzlePad (slugs : List String)
  | countdown (slugs : List String)
  | qrCode (slugs : List String)
  | progress (slugs : List String)
  | slides (slugs : List String)
  | presentational
  | unsupported

/-- A leaf with the slugs that its gate reads. -/
structure Leaf (ε : Type) where
  kind : LeafKind ε
  gate : List String := []

inductive TableColumn where
  | field (slug : String) (readOnly : Bool)
  | related (relationshipId : Nat) (slug : String) (editable : Bool)
  | link (slugs : List String)

structure TableElement where
  anchorRelationshipId : Nat
  columns : List TableColumn
  readOnly : Bool := false
  sortBy : Option String := none
  sortDescending : Bool := false

inductive FormElement (ε : Type) where
  | leafElement (leaf : Leaf ε)
  | sectionElement (gate : List String) (relationshipId : Nat) (elements : List (Leaf ε))
  | blockElement (gate : List String) (anchorRelationshipId : Nat) (elements : List (Leaf ε))
  | tableElement (gate : List String) (table : TableElement)
  /-- Tabs, panes, columns, a panel or a card. -/
  | layoutElement (gate : List String) (children : List (FormElement ε))

/-! ## Validation -/

structure RelInfo where
  sourceId : Nat
  targetId : Nat
  slug : String

inductive LayoutError where
  | tooDeep
  | entityNotAvailable (entityId : Nat)
  | unknownField (slug : String) (entityId : Nat)
  | unknownRelationship (relationshipId : Nat)
  | notToOne (relationshipId : Nat)
  | notTargeting (relationshipId : Nat)
  | notOnTable (relationshipId : Nat)
  | unknownElement

def maxTreeDepth : Nat := 8

mutual

/-- How deep the containers below an element are nested. -/
def FormElement.depth : FormElement ε → Nat
  | .leafElement _ => 0
  | .sectionElement _ _ elements => if elements.isEmpty then 0 else 1
  | .blockElement _ _ elements => if elements.isEmpty then 0 else 1
  | .tableElement _ _ => 0
  | .layoutElement _ children => if children.isEmpty then 0 else treeDepth children + 1

def treeDepth : List (FormElement ε) → Nat
  | [] => 0
  | element :: rest => max element.depth (treeDepth rest)

end

section Validation

variable (fieldsByEntity : Nat → Option (List String)) (rels : Nat → Option RelInfo)

def requireField (entityId : Nat) (slug : String) : Except LayoutError Unit :=
  match fieldsByEntity entityId with
  | none => .error (.entityNotAvailable entityId)
  | some fields => if slug ∈ fields then return else .error (.unknownField slug entityId)

def requireRel (relationshipId : Nat) : Except LayoutError RelInfo :=
  match rels relationshipId with
  | none => .error (.unknownRelationship relationshipId)
  | some info => return info

def validateLeaf (entityId : Nat) (leaf : Leaf ε) : Except LayoutError Unit :=
  match leaf.kind with
  | .field slug _ => requireField fieldsByEntity entityId slug
  | .calculated (some slug) _ => requireField fieldsByEntity entityId slug
  | .calculated none _ => return
  | .puzzlePad slugs => slugs.forM (requireField fieldsByEntity entityId)
  | .countdown slugs => slugs.forM (requireField fieldsByEntity entityId)
  | .qrCode slugs => slugs.forM (requireField fieldsByEntity entityId)
  | .progress _ => return
  | .slides _ => return
  | .presentational => return
  | .unsupported => .error .unknownElement

/-- `_validate_table_columns`, for one column -/
def validateColumn (childEntity : Nat) : TableColumn → Except LayoutError Unit
  | .field slug _ => requireField fieldsByEntity childEntity slug
  | .link _ => return
  | .related relationshipId slug _ => do
      let info ← requireRel rels relationshipId
      if info.sourceId ≠ childEntity then .error (.notOnTable relationshipId)
      else requireField fieldsByEntity info.targetId slug

mutual

def validateElement (entityId : Nat) : FormElement ε → Except LayoutError Unit
  | .leafElement leaf => validateLeaf fieldsByEntity entityId leaf
  | .sectionElement _ relationshipId elements => do
      let info ← requireRel rels relationshipId
      if info.sourceId ≠ entityId then .error (.notToOne relationshipId)
      else elements.forM (validateLeaf fieldsByEntity info.targetId)
  | .blockElement _ anchorRelationshipId elements => do
      let info ← requireRel rels anchorRelationshipId
      if info.targetId ≠ entityId then .error (.notTargeting anchorRelationshipId)
      else elements.forM (validateLeaf fieldsByEntity info.sourceId)
  | .tableElement _ table => do
      let info ← requireRel rels table.anchorRelationshipId
      if info.targetId ≠ entityId then .error (.notTargeting table.anchorRelationshipId)
      else
        table.columns.forM (validateColumn fieldsByEntity rels info.sourceId)
        table.sortBy.toList.forM (requireField fieldsByEntity info.sourceId)
  | .layoutElement _ children => validateList entityId children

def validateList (entityId : Nat) : List (FormElement ε) → Except LayoutError Unit
  | [] => return
  | element :: rest => do
      validateElement entityId element
      validateList entityId rest

end

def validate (elements : List (FormElement ε)) (rootEntityId : Nat) : Except LayoutError Unit :=
  if treeDepth elements > maxTreeDepth then .error .tooDeep
  else validateList fieldsByEntity rels rootEntityId elements

end Validation

/-! ## Bindings -/

structure CalcBinding (ε : Type) where
  targetSlug : String
  expression : ε

/-- What the fields of one record show and write. -/
structure FieldBinding (ε : Type) where
  displaySlugs : List String := []
  writeSlugs : List String := []
  calculations : List (CalcBinding ε) := []

structure SectionBinding (ε : Type) where
  relId : Nat
  entityId : Nat
  fields : FieldBinding ε

structure RelatedColBinding where
  relId : Nat
  entityId : Nat
  slug : String
  editable : Bool

/-- A block, or a table, which has related columns and an order. -/
structure RowsBinding (ε : Type) where
  relId : Nat
  entityId : Nat
  fields : FieldBinding ε
  relatedCols : List RelatedColBinding := []
  sortBy : Option String := none
  sortDescending : Bool := false

inductive Container (ε : Type) where
  | ofSection (binding : SectionBinding ε)
  | ofRows (binding : RowsBinding ε)

structure Bindings (ε : Type) where
  root : FieldBinding ε := {}
  containers : List (Container ε) := []

namespace FieldBinding

section

variable (binding : FieldBinding ε)

def declare (slug : String) : FieldBinding ε :=
  if slug ∈ binding.displaySlugs then binding
  else { binding with displaySlugs := binding.displaySlugs ++ [slug] }

def declareAll (slugs : List String) : FieldBinding ε :=
  slugs.foldl declare binding

def showField (slug : String) (readOnly : Bool) : FieldBinding ε :=
  { binding with
    displaySlugs := binding.displaySlugs ++ [slug]
    writeSlugs := if readOnly then binding.writeSlugs else binding.writeSlugs ++ [slug] }

def calculate (targetSlug : Option String) (expression : ε) : FieldBinding ε :=
  { binding with
    calculations := binding.calculations ++ (targetSlug.map fun slug => ⟨slug, expression⟩).toList }

def written : List String :=
  binding.writeSlugs ++ binding.calculations.map CalcBinding.targetSlug

end

end FieldBinding

/-- `_leaf_slugs`: a child of a section or a block. Only a puzzle reads besides the gates. -/
def bindLeaf (binding : FieldBinding ε) (leaf : Leaf ε) : FieldBinding ε :=
  let gated := binding.declareAll leaf.gate
  match leaf.kind with
  | .field slug readOnly => gated.showField slug readOnly
  | .calculated targetSlug expression => gated.calculate targetSlug expression
  | .puzzlePad slugs => gated.declareAll slugs
  | _ => gated

def leafSlugs (elements : List (Leaf ε)) : FieldBinding ε := elements.foldl bindLeaf {}

def bindRootLeaf (binding : FieldBinding ε) (leaf : Leaf ε) : FieldBinding ε :=
  let gated := binding.declareAll leaf.gate
  match leaf.kind with
  | .field slug readOnly => gated.showField slug readOnly
  | .calculated targetSlug expression => gated.calculate targetSlug expression
  | .puzzlePad slugs => gated.declareAll slugs
  | .countdown slugs => gated.declareAll slugs
  | .qrCode slugs => gated.declareAll slugs
  | .progress slugs => gated.declareAll slugs
  | .slides slugs => gated.declareAll slugs
  | .presentational => gated
  | .unsupported => gated

section Flatten

variable (rels : Nat → Option RelInfo)

def bindColumn (binding : FieldBinding ε) : TableColumn → FieldBinding ε
  | .field slug readOnly => binding.showField slug readOnly
  | .link slugs => binding.declareAll slugs
  | .related _ _ _ => binding

def bindRelatedColumn : TableColumn → Option (Option RelatedColBinding)
  | .related relationshipId slug editable =>
    (rels relationshipId).map fun info => some ⟨relationshipId, info.targetId, slug, editable⟩
  | _ => some none

/-- The binding of a table. What the element says of being read only is not in it. -/
def bindTable (table : TableElement) : Option (RowsBinding ε) := do
  let info ← rels table.anchorRelationshipId
  let related ← table.columns.mapM (bindRelatedColumn rels)
  return { relId := table.anchorRelationshipId
           entityId := info.sourceId
           fields := table.columns.foldl bindColumn {}
           relatedCols := related.reduceOption
           sortBy := table.sortBy
           sortDescending := table.sortDescending }

/-- The binding of a section, a block or a table. A relationship that is not there is a
`KeyError`. -/
def bindContainer : FormElement ε → Option (Option (Container ε))
  | .sectionElement _ relationshipId elements =>
    (rels relationshipId).map fun info =>
      some (.ofSection ⟨relationshipId, info.targetId, leafSlugs elements⟩)
  | .blockElement _ anchorRelationshipId elements =>
    (rels anchorRelationshipId).map fun info =>
      some (.ofRows
        { relId := anchorRelationshipId, entityId := info.sourceId, fields := leafSlugs elements })
  | .tableElement _ table => (bindTable rels table).map fun binding => some (.ofRows binding)
  | _ => some none

def FormElement.gate : FormElement ε → List String
  | .leafElement leaf => leaf.gate
  | .sectionElement gate _ _ => gate
  | .blockElement gate _ _ => gate
  | .tableElement gate _ => gate
  | .layoutElement gate _ => gate

mutual

/-- The elements outside sections, blocks and tables, each container before its children. -/
def FormElement.walk : FormElement ε → List (FormElement ε)
  | .layoutElement gate children => .layoutElement gate children :: walkAll children
  | element => [element]

def walkAll : List (FormElement ε) → List (FormElement ε)
  | [] => []
  | element :: rest => element.walk ++ walkAll rest

end

/-- `visit`, for one element -/
def bindElement (bindings : Bindings ε) (element : FormElement ε) : Option (Bindings ε) := do
  let root :=
    match element with
    | .leafElement leaf => bindRootLeaf bindings.root leaf
    | _ => bindings.root.declareAll element.gate
  let container ← bindContainer rels element
  return { root := root, containers := bindings.containers ++ container.toList }

def flatten (elements : List (FormElement ε)) : Option (Bindings ε) :=
  (walkAll elements).foldlM (bindElement rels) {}

end Flatten

/-! ## Where a container comes from -/

section Origins

variable {rels : Nat → Option RelInfo}

variable {bindings : Bindings ε}

theorem bindElement_containers {after : Bindings ε} {element : FormElement ε}
    (bound : bindElement rels bindings element = some after) :
    ∃ container, bindContainer rels element = some container ∧
      after.containers = bindings.containers ++ container.toList := by
  obtain ⟨container, isBound, same⟩ := Option.bind_eq_some_iff.mp bound
  exact ⟨container, isBound, by rw [← Option.some.inj same]⟩

/-- **Every container of the bindings is that of an element.** -/
theorem exists_element_of_container {elements : List (FormElement ε)}
    (flat : flatten rels elements = some bindings) {container : Container ε}
    (member : container ∈ bindings.containers) :
    ∃ element ∈ walkAll elements, bindContainer rels element = some (some container) := by
  suffices general : ∀ (walked : List (FormElement ε)) (before after : Bindings ε),
      walked.foldlM (bindElement rels) before = some after → container ∈ after.containers →
        container ∈ before.containers ∨
          ∃ element ∈ walked, bindContainer rels element = some (some container) by
    rcases general _ _ _ flat member with earlier | found
    · exact absurd earlier not_mem_nil
    · exact found
  intro walked
  induction walked with
  | nil =>
    intro before after same isContainer
    cases same
    exact .inl isContainer
  | cons element rest ih =>
    intro before after folded isContainer
    obtain ⟨middle, bound, later⟩ := Option.bind_eq_some_iff.mp folded
    obtain ⟨bindable, isBound, same⟩ := bindElement_containers bound
    rcases ih middle after later isContainer with inMiddle | ⟨other, isLater, found⟩
    · rw [same] at inMiddle
      rcases mem_append.mp inMiddle with earlier | isHere
      · exact .inl earlier
      · refine .inr ⟨element, mem_cons_self, ?_⟩
        rw [isBound, Option.mem_toList.mp isHere]
    · exact .inr ⟨other, mem_cons_of_mem element isLater, found⟩

theorem container_mem {elements : List (FormElement ε)}
    (flat : flatten rels elements = some bindings) {element : FormElement ε}
    (member : element ∈ walkAll elements) {container : Container ε}
    (isBound : bindContainer rels element = some (some container)) :
    container ∈ bindings.containers := by
  suffices general : ∀ (walked : List (FormElement ε)) (before after : Bindings ε),
      walked.foldlM (bindElement rels) before = some after →
        container ∈ before.containers ∨ element ∈ walked → container ∈ after.containers from
    general _ _ _ flat (.inr member)
  intro walked
  induction walked with
  | nil =>
    intro before after same isContainer
    cases same
    exact isContainer.resolve_right not_mem_nil
  | cons first rest ih =>
    intro before after folded isContainer
    obtain ⟨middle, bound, later⟩ := Option.bind_eq_some_iff.mp folded
    obtain ⟨bindable, isBindable, same⟩ := bindElement_containers bound
    refine ih middle after later ?_
    rw [same, mem_append, Option.mem_toList]
    rcases isContainer with earlier | walked
    · exact .inl (.inl earlier)
    · rcases mem_cons.mp walked with rfl | isLater
      · exact .inl (.inr (Option.some.inj (isBindable.symm.trans isBound)))
      · exact .inr isLater

end Origins

/-! ## What is fetched -/

section Fetched

variable {binding : FieldBinding ε} {slug : String}

theorem FieldBinding.mem_declare {declared : String} :
    slug ∈ (binding.declare declared).displaySlugs ↔
      slug ∈ binding.displaySlugs ∨ slug = declared := by
  unfold FieldBinding.declare
  split
  · rename_i known
    exact ⟨.inl, fun either => either.elim id fun same => same ▸ known⟩
  · exact mem_append.trans (or_congr_right mem_singleton)

@[simp] theorem FieldBinding.mem_declareAll {slugs : List String} :
    slug ∈ (binding.declareAll slugs).displaySlugs ↔
      slug ∈ binding.displaySlugs ∨ slug ∈ slugs := by
  induction slugs generalizing binding with
  | nil => exact (or_iff_left not_mem_nil).symm
  | cons first rest ih =>
    have later : slug ∈ ((binding.declare first).declareAll rest).displaySlugs ↔
        slug ∈ (binding.declare first).displaySlugs ∨ slug ∈ rest := ih
    refine later.trans ?_
    rw [FieldBinding.mem_declare, or_assoc, mem_cons]

@[simp] theorem FieldBinding.mem_showField {shown : String} {readOnly : Bool} :
    slug ∈ (binding.showField shown readOnly).displaySlugs ↔
      slug ∈ binding.displaySlugs ∨ slug = shown :=
  mem_append.trans (or_congr_right mem_singleton)

@[simp] theorem FieldBinding.mem_calculate {targetSlug : Option String} {expression : ε} :
    slug ∈ (binding.calculate targetSlug expression).displaySlugs ↔
      slug ∈ binding.displaySlugs := Iff.rfl

end Fetched

/-! ## Layouts that validate -/

section Valid

variable {fieldsByEntity : Nat → Option (List String)} {rels : Nat → Option RelInfo}

theorem requireRel_ok {relationshipId : Nat} {info : RelInfo}
    (found : requireRel rels relationshipId = .ok info) : rels relationshipId = some info := by
  unfold requireRel at found
  split at found
  · cases found
  · rename_i known isKnown
    rw [isKnown, Except.ok.inj found]

theorem isSome_bindRelatedColumn {childEntity : Nat} {column : TableColumn}
    (valid : validateColumn fieldsByEntity rels childEntity column = .ok ()) :
    (bindRelatedColumn rels column).isSome := by
  cases column with
  | field slug readOnly => rfl
  | link slugs => rfl
  | related relationshipId slug editable =>
    obtain ⟨info, isInfo, _⟩ := bind_eq_ok.mp valid
    rw [bindRelatedColumn, requireRel_ok isInfo]
    rfl

theorem isSome_mapM {α β : Type} {f : α → Option β} {items : List α}
    (each : ∀ item ∈ items, (f item).isSome) : (items.mapM f).isSome := by
  induction items with
  | nil => rfl
  | cons first rest ih =>
    obtain ⟨value, isValue⟩ := Option.isSome_iff_exists.mp (each first mem_cons_self)
    obtain ⟨others, areOthers⟩ := Option.isSome_iff_exists.mp
      (ih fun item member => each item (mem_cons_of_mem first member))
    rw [mapM_cons, isValue, areOthers]
    rfl

theorem isSome_bindTable {entityId : Nat} {gate : List String} {table : TableElement}
    (valid : validateElement fieldsByEntity rels entityId (.tableElement gate table : FormElement ε) =
      .ok ()) : (bindTable (ε := ε) rels table).isSome := by
  obtain ⟨info, isInfo, rest⟩ := bind_eq_ok.mp valid
  obtain ⟨_, columns⟩ := (guard_eq_ok (by nofun)).mp rest
  obtain ⟨_, isColumns, _⟩ := bind_eq_ok.mp columns
  obtain ⟨related, isRelated⟩ := Option.isSome_iff_exists.mp (isSome_mapM fun column member =>
    isSome_bindRelatedColumn (forM_eq_ok.mp isColumns column member))
  rw [bindTable, requireRel_ok isInfo]
  rw [isRelated]
  rfl

mutual

theorem isSome_bindContainer_of_walk : ∀ (element : FormElement ε) (entityId : Nat),
    validateElement fieldsByEntity rels entityId element = .ok () →
      ∀ inner ∈ element.walk, (bindContainer rels inner).isSome
  | .leafElement leaf, _, _, inner, member => by
    rw [mem_singleton.mp member]
    rfl
  | .sectionElement gate relationshipId elements, _, valid, inner, member => by
    obtain ⟨info, isInfo, _⟩ := bind_eq_ok.mp valid
    rw [mem_singleton.mp member, bindContainer, requireRel_ok isInfo]
    rfl
  | .blockElement gate relationshipId elements, _, valid, inner, member => by
    obtain ⟨info, isInfo, _⟩ := bind_eq_ok.mp valid
    rw [mem_singleton.mp member, bindContainer, requireRel_ok isInfo]
    rfl
  | .tableElement gate table, _, valid, inner, member => by
    rw [mem_singleton.mp member, bindContainer, Option.isSome_map]
    exact isSome_bindTable valid
  | .layoutElement gate children, entityId, valid, inner, member => by
    rcases mem_cons.mp member with rfl | below
    · rfl
    · exact isSome_bindContainer_of_walkAll children entityId valid inner below

theorem isSome_bindContainer_of_walkAll : ∀ (elements : List (FormElement ε)) (entityId : Nat),
    validateList fieldsByEntity rels entityId elements = .ok () →
      ∀ inner ∈ walkAll elements, (bindContainer rels inner).isSome
  | [], _, _, _, member => absurd member not_mem_nil
  | element :: rest, entityId, valid, inner, member => by
    obtain ⟨_, isFirst, later⟩ := bind_eq_ok.mp valid
    rcases mem_append.mp member with here | below
    · exact isSome_bindContainer_of_walk element entityId isFirst inner here
    · exact isSome_bindContainer_of_walkAll rest entityId later inner below

end

/-- **A layout that validates has bindings.** -/
theorem exists_flatten_of_validate {elements : List (FormElement ε)} {rootEntityId : Nat}
    (valid : validate fieldsByEntity rels elements rootEntityId = .ok ()) :
    ∃ bindings, flatten rels elements = some bindings := by
  obtain ⟨_, isValid⟩ := (guard_eq_ok (by nofun)).mp valid
  have bindable := isSome_bindContainer_of_walkAll elements rootEntityId isValid
  have general : ∀ (walked : List (FormElement ε)) (before : Bindings ε),
      (∀ inner ∈ walked, (bindContainer rels inner).isSome) →
        ∃ after, walked.foldlM (bindElement rels) before = some after := by
    intro walked
    induction walked with
    | nil => exact fun before _ => ⟨before, rfl⟩
    | cons element rest ih =>
      intro before each
      obtain ⟨container, isBound⟩ := Option.isSome_iff_exists.mp (each element mem_cons_self)
      obtain ⟨middle, isMiddle⟩ : ∃ middle, bindElement rels before element = some middle := by
        unfold bindElement
        rw [isBound]
        exact ⟨_, rfl⟩
      obtain ⟨after, isAfter⟩ := ih middle fun inner member =>
        each inner (mem_cons_of_mem element member)
      refine ⟨after, ?_⟩
      rwa [foldlM_cons, isMiddle]
  exact general (walkAll elements) {} bindable

end Valid

end RedArchKM.Forms
