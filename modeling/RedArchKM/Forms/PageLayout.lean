import RedArchKM.Forms.Elements
import RedArchKM.Forms.Layout

/-!
# Layouts of pages

A layout sees of an element the slugs in its attributes: those of a gate and of a progress value
are the variables of an expression, those of a puzzle pad also the placeholders of its spec, those
of a QR code the placeholders of its url. Validation and flattening of a page are those of its
layout.

Validation accepts a page exactly if every binding in it stands in the right scope, except that it
refuses the elements of work orders, which bind nothing and are missing in its list
(`validatesExactly_iff`).
-/

namespace RedArchKM.Forms.Elements

open List

open Workflow (Json Fields)
open Lib.Fallible (bind_eq_ok guard_eq_ok forM_eq_ok)

/-! ## Placeholders and variables -/

/-- The matches of a placeholder pattern in a text: an open brace, a run of characters of which
the first and the others are of a kind, and a closing brace. -/
def placeholders (first other : Char → Bool) : Option (List Char) → List Char → List String
  | _, [] => []
  | run, next :: rest =>
    if next = '{' then placeholders first other (some []) rest
    else
      match run with
      | none => placeholders first other none rest
      | some read =>
        if next = '}' ∧ read ≠ [] then
          String.ofList read.reverse :: placeholders first other none rest
        else if (if read.isEmpty then first next else other next) then
          placeholders first other (some (next :: read)) rest
        else placeholders first other none rest

section Slugs

-- the characters that `\w` matches
variable (isWord : Char → Bool)

def linkFieldTokens (hrefTemplate : String) : List String :=
  (placeholders isWord isWord none hrefTemplate.toList).filter (· != "id")

end Slugs

def isLower (char : Char) : Bool := 'a' ≤ char && char ≤ 'z'

def specTokens (text : String) : List String :=
  placeholders isLower (fun char => isLower char || char.isDigit || char == '_') none text.toList

mutual

/-- The placeholders in the dump of a spec: they can only stand in its texts and its keys. -/
def dumpTokens : Json → List String
  | .str text => specTokens text
  | .arr items => dumpTokensOfItems items
  | .obj fields => dumpTokensOfFields fields
  | _ => []

def dumpTokensOfItems : List Json → List String
  | [] => []
  | item :: rest => dumpTokens item ++ dumpTokensOfItems rest

def dumpTokensOfFields : List (String × Json) → List String
  | [] => []
  | (key, value) :: rest => specTokens key ++ dumpTokens value ++ dumpTokensOfFields rest

end

/-- The entries that are texts with something in them. -/
def givenSlugs (names : List (Option String)) : List String :=
  names.reduceOption.filter (· != "")

def puzzlePadSlugs (element : PuzzlePadElement) : List String :=
  let named := givenSlugs [element.kindField, element.specField, element.promptField,
    element.hintField, element.answerField]
  (named ++ dumpTokensOfFields (element.spec.getD [])).eraseDups

def countdownSlugs (element : CountdownElement) : List String :=
  (givenSlugs [element.untilField, element.fromField, element.secondsField]).eraseDups

/-- The slug that a `var` names, when it is a text. -/
def varSlug : Json → List String
  | .str slug => [slug]
  | .arr (.str slug :: _) => [slug]
  | _ => []

mutual

def exprVarSlugs : Json → List String
  | .arr items => exprVarSlugsOfItems items
  | .obj fields => exprVarSlugsOfFields fields
  | _ => []

def exprVarSlugsOfItems : List Json → List String
  | [] => []
  | item :: rest => exprVarSlugs item ++ exprVarSlugsOfItems rest

def exprVarSlugsOfFields : List (String × Json) → List String
  | [] => []
  | (op, arg) :: rest =>
    (if op = "var" then varSlug arg else exprVarSlugs arg) ++ exprVarSlugsOfFields rest

end

/-! ## The layout of a page -/

section Layout

variable (isWord : Char → Bool)

/-- What a layout sees of a leaf. The types that bind nothing are those of a list kept by hand,
in which the elements of work orders are missing. -/
def leafKind : Leaf → Forms.LeafKind Json
  | .field slug readOnly => .field slug readOnly
  | .calculated element => .calculated element.targetSlug element.expression
  | .puzzlePad element => .puzzlePad (puzzlePadSlugs element)
  | .countdown element => .countdown (countdownSlugs element)
  | .qrCode url => .qrCode (linkFieldTokens isWord url)
  | .progress value => .progress (exprVarSlugs value)
  | .slides slug => .slides (givenSlugs [slug])
  | .label | .button _ | .formRef | .input | .liveValue | .image _ | .chat _ | .report | .stat
  | .recordList _ _ | .plot | .model3d _ _ _ | .keypad _ _ => .presentational
  | .workOrder _ => .unsupported

def layoutLeaf (visibleWhen : Json) (leaf : Leaf) : Forms.Leaf Json where
  kind := leafKind isWord leaf
  gate := exprVarSlugs visibleWhen

def layoutChild (child : SectionChild) : Forms.Leaf Json :=
  layoutLeaf isWord child.visibleWhen child.leaf.toLeaf

def layoutColumn : TableColumn → Forms.TableColumn
  | .field slug readOnly => .field slug readOnly
  | .related relationshipId slug editable => .related relationshipId slug editable
  | .link hrefTemplate => .link (linkFieldTokens isWord hrefTemplate)

def layoutTable (table : TableElement) : Forms.TableElement where
  anchorRelationshipId := table.anchorRelationshipId
  columns := table.columns.map (layoutColumn isWord)
  readOnly := table.readOnly
  sortBy := table.sortBy
  sortDescending := table.sortDescending

mutual

def layoutElement : FormElement → Forms.FormElement Json
  | .leaf visibleWhen leaf => .leafElement (layoutLeaf isWord visibleWhen leaf)
  | .table visibleWhen table => .tableElement (exprVarSlugs visibleWhen) (layoutTable isWord table)
  | .section visibleWhen relationshipId elements =>
    .sectionElement (exprVarSlugs visibleWhen) relationshipId (elements.map (layoutChild isWord))
  | .block visibleWhen anchorRelationshipId elements =>
    .blockElement (exprVarSlugs visibleWhen) anchorRelationshipId
      (elements.map (layoutChild isWord))
  | .region visibleWhen _ elements => .layoutElement (exprVarSlugs visibleWhen) (layoutOf elements)
  | .parts visibleWhen _ parts => .layoutElement (exprVarSlugs visibleWhen) (layoutParts parts)

def layoutOf : List FormElement → List (Forms.FormElement Json)
  | [] => []
  | element :: rest => layoutElement element :: layoutOf rest

def layoutParts : List (List FormElement) → List (Forms.FormElement Json)
  | [] => []
  | part :: rest => layoutOf part ++ layoutParts rest

end

variable (fieldsByEntity : Nat → Option (List String)) (rels : Nat → Option RelInfo)

/-- `validate` -/
def validatePage (elements : List FormElement) (rootEntityId : Nat) : Except LayoutError Unit :=
  Forms.validate fieldsByEntity rels (layoutOf isWord elements) rootEntityId

/-- `flatten` -/
def flattenPage (elements : List FormElement) : Option (Bindings Json) :=
  Forms.flatten rels (layoutOf isWord elements)

/-! ## What it means that a page binds -/

def HasField (entityId : Nat) (slug : String) : Prop :=
  ∃ fields, fieldsByEntity entityId = some fields ∧ slug ∈ fields

/-- The fields of the record in scope that a leaf is bound to. -/
def boundSlugs : Leaf → List String
  | .field slug _ => [slug]
  | .calculated element => element.targetSlug.toList
  | .puzzlePad element => puzzlePadSlugs element
  | .countdown element => countdownSlugs element
  | .qrCode url => linkFieldTokens isWord url
  | _ => []

def LeafBinds (entityId : Nat) (leaf : Leaf) : Prop :=
  ∀ slug ∈ boundSlugs isWord leaf, HasField fieldsByEntity entityId slug

def ColumnBinds (childEntity : Nat) : TableColumn → Prop
  | .field slug _ => HasField fieldsByEntity childEntity slug
  | .link _ => True
  | .related relationshipId slug _ => ∃ info, rels relationshipId = some info ∧
      info.sourceId = childEntity ∧ HasField fieldsByEntity info.targetId slug

mutual

/-- Every reference in the element names what stands in its scope: a section follows a
relationship from the entity in scope, a table or a block one to it. -/
def Binds (entityId : Nat) : FormElement → Prop
  | .leaf _ leaf => LeafBinds isWord fieldsByEntity entityId leaf
  | .table _ table => ∃ info, rels table.anchorRelationshipId = some info ∧
      info.targetId = entityId ∧
      (∀ column ∈ table.columns, ColumnBinds fieldsByEntity rels info.sourceId column) ∧
      ∀ slug ∈ table.sortBy, HasField fieldsByEntity info.sourceId slug
  | .section _ relationshipId elements => ∃ info, rels relationshipId = some info ∧
      info.sourceId = entityId ∧
      ∀ child ∈ elements, LeafBinds isWord fieldsByEntity info.targetId child.leaf.toLeaf
  | .block _ anchorRelationshipId elements => ∃ info, rels anchorRelationshipId = some info ∧
      info.targetId = entityId ∧
      ∀ child ∈ elements, LeafBinds isWord fieldsByEntity info.sourceId child.leaf.toLeaf
  | .region _ _ elements => AllBind entityId elements
  | .parts _ _ parts => PartsBind entityId parts

def AllBind (entityId : Nat) : List FormElement → Prop
  | [] => True
  | element :: rest => Binds entityId element ∧ AllBind entityId rest

def PartsBind (entityId : Nat) : List (List FormElement) → Prop
  | [] => True
  | part :: rest => AllBind entityId part ∧ PartsBind entityId rest

end

end Layout

def FormElement.isWorkOrder : FormElement → Bool
  | .leaf _ (.workOrder _) => true
  | _ => false

/-! ## The depth of a layout -/

def deepest (walked : List (FormElement × Nat)) : Nat := (walked.map Prod.snd).foldr max 0

@[simp] theorem deepest_cons (element : FormElement) (depth : Nat)
    (walked : List (FormElement × Nat)) :
    deepest ((element, depth) :: walked) = max depth (deepest walked) := rfl

theorem deepest_append (walked later : List (FormElement × Nat)) :
    deepest (walked ++ later) = max (deepest walked) (deepest later) := by
  induction walked with
  | nil => exact (Nat.zero_max _).symm
  | cons visited rest ih =>
    rw [cons_append, deepest_cons, deepest_cons, ih, Nat.max_assoc]

theorem treeDepth_append {ε : Type} (elements later : List (Forms.FormElement ε)) :
    Forms.treeDepth (elements ++ later) =
      max (Forms.treeDepth elements) (Forms.treeDepth later) := by
  induction elements with
  | nil => exact (Nat.zero_max _).symm
  | cons element rest ih =>
    rw [cons_append, Forms.treeDepth, Forms.treeDepth, ih, Nat.max_assoc]

section Depth

variable (isWord : Char → Bool)

def depthFrom (depth : Nat) (elements : List (Forms.FormElement Json)) : Nat :=
  if elements.isEmpty then 0 else depth + Forms.treeDepth elements

theorem depthFrom_append (depth : Nat) (elements later : List (Forms.FormElement Json)) :
    depthFrom depth (elements ++ later) =
      max (depthFrom depth elements) (depthFrom depth later) := by
  unfold depthFrom
  cases elements with
  | nil => exact (Nat.zero_max _).symm
  | cons element rest =>
    cases later with
    | nil => simp
    | cons other others =>
      rw [treeDepth_append]
      simp [Nat.add_max_add_left]

theorem deepest_children (children : List SectionChild) (depth : Nat) :
    deepest (children.map fun child => (child.toElement, depth)) =
      if children.isEmpty then 0 else depth := by
  induction children with
  | nil => rfl
  | cons child rest ih =>
    rw [map_cons, deepest_cons, ih]
    cases rest with
    | nil => exact Nat.max_zero depth
    | cons other others => exact Nat.max_self depth

theorem deepest_scope (element : FormElement) (children : List SectionChild) (depth : Nat) :
    deepest ((element, depth) :: children.map fun child => (child.toElement, depth + 1)) =
      depth + if (children.map (layoutChild isWord)).isEmpty then 0 else 1 := by
  rw [deepest_cons, deepest_children, isEmpty_map]
  split <;> omega

mutual

theorem deepest_walkElement : ∀ (element : FormElement) (depth : Nat),
    deepest (walkElement false depth element) = depth + (layoutElement isWord element).depth
  | .leaf visibleWhen leaf, depth => by
    rw [layoutElement, Forms.FormElement.depth]
    exact Nat.max_zero depth
  | .table visibleWhen table, depth => by
    rw [layoutElement, Forms.FormElement.depth]
    exact Nat.max_zero depth
  | .section visibleWhen relationshipId elements, depth => by
    rw [layoutElement, Forms.FormElement.depth]
    exact deepest_scope isWord _ elements depth
  | .block visibleWhen anchorRelationshipId elements, depth => by
    rw [layoutElement, Forms.FormElement.depth]
    exact deepest_scope isWord _ elements depth
  | .region visibleWhen kind elements, depth => by
    rw [walkElement, deepest_cons, deepest_walk elements, layoutElement, Forms.FormElement.depth]
    unfold depthFrom
    split <;> omega
  | .parts visibleWhen kind parts, depth => by
    rw [walkElement, deepest_cons, deepest_walkParts parts, layoutElement, Forms.FormElement.depth]
    unfold depthFrom
    split <;> omega

theorem deepest_walk : ∀ (elements : List FormElement) (depth : Nat),
    deepest (walk false depth elements) = depthFrom depth (layoutOf isWord elements)
  | [], depth => rfl
  | element :: rest, depth => by
    rw [walk, deepest_append, deepest_walkElement element, deepest_walk rest, layoutOf,
      ← singleton_append, depthFrom_append]
    simp [depthFrom, Forms.treeDepth]

theorem deepest_walkParts : ∀ (parts : List (List FormElement)) (depth : Nat),
    deepest (walkParts false depth parts) = depthFrom depth (layoutParts isWord parts)
  | [], depth => rfl
  | part :: rest, depth => by
    rw [walkParts, deepest_append, deepest_walk part, deepest_walkParts rest, layoutParts,
      depthFrom_append]

end

theorem treeDepth_layoutOf (elements : List FormElement) :
    Forms.treeDepth (layoutOf isWord elements) = treeDepth elements := by
  refine Eq.trans ?_ (deepest_walk isWord elements 0).symm
  unfold depthFrom
  cases elements with
  | nil => rfl
  | cons element rest => simp [layoutOf]

end Depth

/-! ## Validation is exact but for work orders -/

section Validation

variable {isWord : Char → Bool} {fieldsByEntity : Nat → Option (List String)}
  {rels : Nat → Option RelInfo}

variable {entityId : Nat}

theorem requireField_eq_ok {slug : String} :
    requireField fieldsByEntity entityId slug = .ok () ↔ HasField fieldsByEntity entityId slug := by
  unfold requireField HasField
  cases fieldsByEntity entityId with
  | none => exact iff_of_false nofun (by rintro ⟨fields, isNone, _⟩; cases isNone)
  | some fields => by_cases member : slug ∈ fields <;> simp [member]

theorem requireRel_eq_ok {relationshipId : Nat} {info : RelInfo} :
    requireRel rels relationshipId = .ok info ↔ rels relationshipId = some info := by
  refine ⟨requireRel_ok, fun found => ?_⟩
  rw [requireRel, found]
  rfl

theorem bind_unit_eq_ok {first rest : Except LayoutError Unit} :
    (first >>= fun _ => rest) = .ok () ↔ first = .ok () ∧ rest = .ok () :=
  bind_eq_ok.trans Unique.exists_iff

theorem forM_requireField {slugs : List String} :
    slugs.forM (requireField fieldsByEntity entityId) = .ok () ↔
      ∀ slug ∈ slugs, HasField fieldsByEntity entityId slug :=
  forM_eq_ok.trans (forall₂_congr fun _ _ => requireField_eq_ok)

theorem requireRel_bind {relationshipId : Nat} {wrong : RelInfo → Prop} [DecidablePred wrong]
    {refusal : LayoutError} {rest : RelInfo → Except LayoutError Unit} :
    (requireRel rels relationshipId >>= fun info =>
        if wrong info then .error refusal else rest info) = .ok () ↔
      ∃ info, rels relationshipId = some info ∧ ¬wrong info ∧ rest info = .ok () := by
  rw [bind_eq_ok]
  exact exists_congr fun info => and_congr requireRel_eq_ok (guard_eq_ok nofun)

theorem validateLeaf_iff {visibleWhen : Json} {leaf : Leaf} :
    validateLeaf fieldsByEntity entityId (layoutLeaf isWord visibleWhen leaf) = .ok () ↔
      LeafBinds isWord fieldsByEntity entityId leaf ∧
        (FormElement.leaf visibleWhen leaf).isWorkOrder = false := by
  have isOther : ∀ {valid binds : Prop}, (valid ↔ binds) → (valid ↔ binds ∧ false = false) :=
    fun same => same.trans (and_iff_left rfl).symm
  cases leaf with
  | field slug readOnly => exact isOther (requireField_eq_ok.trans forall_mem_singleton.symm)
  | calculated element =>
    obtain ⟨expression, target⟩ := element
    cases target with
    | none => exact isOther (iff_of_true rfl (forall_mem_nil _))
    | some slug => exact isOther (requireField_eq_ok.trans forall_mem_singleton.symm)
  | puzzlePad element => exact isOther forM_requireField
  | countdown element => exact isOther forM_requireField
  | qrCode url => exact isOther forM_requireField
  | workOrder element => exact iff_of_false nofun fun binds => by cases binds.2
  | _ => exact isOther (iff_of_true rfl (forall_mem_nil _))

theorem validateChildren_iff {children : List SectionChild} :
    (children.map (layoutChild isWord)).forM (validateLeaf fieldsByEntity entityId) = .ok () ↔
      ∀ child ∈ children, LeafBinds isWord fieldsByEntity entityId child.leaf.toLeaf := by
  rw [forM_eq_ok, forall_mem_map]
  refine forall₂_congr fun child member => validateLeaf_iff.trans (and_iff_left ?_)
  obtain ⟨visibleWhen, leaf⟩ := child
  cases leaf <;> rfl

theorem validateColumn_iff {childEntity : Nat} {column : TableColumn} :
    validateColumn fieldsByEntity rels childEntity (layoutColumn isWord column) = .ok () ↔
      ColumnBinds fieldsByEntity rels childEntity column := by
  cases column with
  | field slug readOnly => exact requireField_eq_ok
  | link hrefTemplate => exact iff_of_true rfl trivial
  | related relationshipId slug editable =>
    refine requireRel_bind.trans (exists_congr fun info => and_congr_right fun _ => ?_)
    exact and_congr not_not requireField_eq_ok

theorem validateList_append {ε : Type} (elements later : List (Forms.FormElement ε)) :
    validateList fieldsByEntity rels entityId (elements ++ later) = .ok () ↔
      validateList fieldsByEntity rels entityId elements = .ok () ∧
        validateList fieldsByEntity rels entityId later = .ok () := by
  induction elements with
  | nil => exact (and_iff_right rfl).symm
  | cons element rest ih =>
    rw [cons_append, validateList, validateList, bind_unit_eq_ok, bind_unit_eq_ok, ih, and_assoc]

def NoWorkOrder (walked : List (FormElement × Nat)) : Prop :=
  ∀ visited ∈ walked, visited.1.isWorkOrder = false

theorem noWorkOrder_cons {element : FormElement} {depth : Nat} {walked : List (FormElement × Nat)} :
    NoWorkOrder ((element, depth) :: walked) ↔
      element.isWorkOrder = false ∧ NoWorkOrder walked := forall_mem_cons

theorem noWorkOrder_append {walked later : List (FormElement × Nat)} :
    NoWorkOrder (walked ++ later) ↔ NoWorkOrder walked ∧ NoWorkOrder later :=
  forall_mem_append

theorem noWorkOrder_children (children : List SectionChild) (depth : Nat) :
    NoWorkOrder (children.map fun child => (child.toElement, depth)) := by
  intro visited member
  obtain ⟨⟨visibleWhen, leaf⟩, _, rfl⟩ := mem_map.mp member
  cases leaf <;> rfl

mutual

theorem validateElement_iff : ∀ (element : FormElement) (entityId depth : Nat),
    validateElement fieldsByEntity rels entityId (layoutElement isWord element) = .ok () ↔
      Binds isWord fieldsByEntity rels entityId element ∧
        NoWorkOrder (walkElement false depth element)
  | .leaf visibleWhen leaf, entityId, depth => by
    rw [layoutElement, validateElement, Binds, walkElement, noWorkOrder_cons]
    exact validateLeaf_iff.trans (and_congr_right fun _ =>
      (and_iff_left (forall_mem_nil _)).symm)
  | .table visibleWhen table, entityId, depth => by
    rw [layoutElement, validateElement, Binds, walkElement, noWorkOrder_cons,
      and_iff_left ⟨rfl, forall_mem_nil _⟩]
    refine requireRel_bind.trans (exists_congr fun info => and_congr_right fun _ => ?_)
    refine and_congr not_not (bind_unit_eq_ok.trans (and_congr ?_ ?_))
    · exact forM_eq_ok.trans (forall_mem_map.trans (forall₂_congr fun _ _ => validateColumn_iff))
    · exact forM_requireField.trans (forall_congr' fun slug => by rw [Option.mem_toList]; rfl)
  | .section visibleWhen relationshipId elements, entityId, depth => by
    rw [layoutElement, validateElement, Binds, walkElement, noWorkOrder_cons,
      and_iff_left ⟨rfl, noWorkOrder_children elements (depth + 1)⟩]
    refine requireRel_bind.trans (exists_congr fun info => and_congr_right fun _ => ?_)
    exact and_congr not_not validateChildren_iff
  | .block visibleWhen anchorRelationshipId elements, entityId, depth => by
    rw [layoutElement, validateElement, Binds, walkElement, noWorkOrder_cons,
      and_iff_left ⟨rfl, noWorkOrder_children elements (depth + 1)⟩]
    refine requireRel_bind.trans (exists_congr fun info => and_congr_right fun _ => ?_)
    exact and_congr not_not validateChildren_iff
  | .region visibleWhen kind elements, entityId, depth => by
    rw [layoutElement, validateElement, Binds, validateList_iff elements entityId (depth + 1),
      walkElement, noWorkOrder_cons]
    exact and_congr_right fun _ => (and_iff_right rfl).symm
  | .parts visibleWhen kind parts, entityId, depth => by
    rw [layoutElement, validateElement, Binds, validateParts_iff parts entityId (depth + 1),
      walkElement, noWorkOrder_cons]
    exact and_congr_right fun _ => (and_iff_right rfl).symm

theorem validateList_iff : ∀ (elements : List FormElement) (entityId depth : Nat),
    validateList fieldsByEntity rels entityId (layoutOf isWord elements) = .ok () ↔
      AllBind isWord fieldsByEntity rels entityId elements ∧ NoWorkOrder (walk false depth elements)
  | [], entityId, depth => iff_of_true rfl ⟨trivial, forall_mem_nil _⟩
  | element :: rest, entityId, depth => by
    rw [layoutOf, validateList, bind_unit_eq_ok, validateElement_iff element entityId depth,
      validateList_iff rest entityId depth, AllBind, walk, noWorkOrder_append]
    exact and_and_and_comm

theorem validateParts_iff : ∀ (parts : List (List FormElement)) (entityId depth : Nat),
    validateList fieldsByEntity rels entityId (layoutParts isWord parts) = .ok () ↔
      PartsBind isWord fieldsByEntity rels entityId parts ∧ NoWorkOrder (walkParts false depth parts)
  | [], entityId, depth => iff_of_true rfl ⟨trivial, forall_mem_nil _⟩
  | part :: rest, entityId, depth => by
    rw [layoutParts, validateList_append, validateList_iff part entityId depth,
      validateParts_iff rest entityId depth, PartsBind, walkParts, noWorkOrder_append]
    exact and_and_and_comm

end

theorem noWorkOrder_iterElements {elements : List FormElement} :
    NoWorkOrder (iterElements false elements) ↔
      ∀ element, Occurs false element elements → element.isWorkOrder = false := by
  constructor
  · intro noWorkOrder element occurs
    obtain ⟨level, visited⟩ := mem_iterElements.mpr occurs
    exact noWorkOrder (element, level) visited
  · intro none visited member
    exact none visited.1 (mem_iterElements.mp ⟨visited.2, member⟩)

variable (isWord fieldsByEntity rels)

/-- A page that is not too deep validates exactly if it binds, and flattens if it validates. -/
def ValidatesExactly (elements : List FormElement) (rootEntityId : Nat) : Prop :=
  (treeDepth elements ≤ maxTreeDepth →
      (validatePage isWord fieldsByEntity rels elements rootEntityId = .ok () ↔
        AllBind isWord fieldsByEntity rels rootEntityId elements)) ∧
    (validatePage isWord fieldsByEntity rels elements rootEntityId = .ok () →
      ∃ bindings, flattenPage isWord rels elements = some bindings)

/-- Validation is exact unless an element of a work order stands on a page that binds. -/
theorem validatesExactly_iff (elements : List FormElement) (rootEntityId : Nat) :
    ValidatesExactly isWord fieldsByEntity rels elements rootEntityId ↔
      (treeDepth elements ≤ maxTreeDepth →
        AllBind isWord fieldsByEntity rels rootEntityId elements →
        ∀ element, Occurs false element elements → element.isWorkOrder = false) := by
  have accepts : treeDepth elements ≤ maxTreeDepth →
      (validatePage isWord fieldsByEntity rels elements rootEntityId = .ok () ↔
        AllBind isWord fieldsByEntity rels rootEntityId elements ∧
          ∀ element, Occurs false element elements → element.isWorkOrder = false) := by
    intro shallow
    rw [validatePage, validate, treeDepth_layoutOf, if_neg (Nat.not_lt.mpr shallow),
      ← noWorkOrder_iterElements]
    exact validateList_iff elements rootEntityId 0
  constructor
  · intro exact_ shallow binds
    exact ((accepts shallow).mp ((exact_.1 shallow).mpr binds)).2
  · intro noWorkOrder
    refine ⟨fun shallow => ?_, exists_flatten_of_validate⟩
    rw [accepts shallow]
    exact and_iff_left_of_imp (noWorkOrder shallow)

/-- A page with a timeline of an agent is refused. -/
theorem not_validatesExactly_timeline :
    ¬ValidatesExactly Char.isAlphanum (fun _ => some []) (fun _ => none)
      [.leaf .null (.workOrder .agentTimeline)] 0 := by
  intro exact_
  have binds : AllBind Char.isAlphanum (fun _ => some []) (fun _ => none) 0
      [.leaf .null (.workOrder .agentTimeline)] := ⟨forall_mem_nil _, trivial⟩
  cases (exact_.1 (Nat.zero_le _)).mpr binds

end Validation

end RedArchKM.Forms.Elements
