import RedArchKM.Forms.PageLayout

/-!
# What the elements of a page read

The browser draws an element from the fields of the record in its scope: the slug of a field, the
variables of its gate, of a progress value, of a calculation and of the inputs of a button or a
pad, and the placeholders of its urls. It sees only the fields that the page declares.

The flattener declares gates, progress values, pads, countdowns, slides and the urls of QR codes,
and of a variable its whole path. So every read is fetched exactly if each of the others
(`blindReads`) is declared by some element of the same scope (`fetchesWhatItReads_iff`).
-/

namespace RedArchKM.Forms.Elements

open List

open Workflow (Json Fields)

/-! ## Variables that an expression reads -/

def pathField (path : String) : String := String.ofList (path.toList.takeWhile (· != '.'))

def firstArg : Json → Option Json
  | .arr items => items.head?
  | arg => some arg

/-- What a `var` reads by its path, when that is a text. -/
def pathReads : Option Json → List String
  | some (.str path) => if path = "" then [] else [pathField path]
  | _ => []

/-- What a `var` reads at the start of a path of several parts. -/
def longPathReads : Option Json → List String
  | some (.str path) => if pathField path = path then [] else [pathField path]
  | _ => []

mutual

/-- The fields that the evaluation of an expression reads: an object with one key is a call, of
which all arguments are evaluated, and everything else is a literal. -/
def varReads : Json → List String
  | .obj fields => callReads fields
  | _ => []

def callReads : List (String × Json) → List String
  | [(op, arg)] => (if op = "var" then pathReads (firstArg arg) else []) ++ argReads arg
  | _ => []

def argReads : Json → List String
  | .arr items => itemReads items
  | .obj fields => callReads fields
  | _ => []

def itemReads : List Json → List String
  | [] => []
  | item :: rest => varReads item ++ itemReads rest

end

mutual

/-- The fields that an expression reads at the start of a longer path, or in the arguments of a
variable. -/
def hiddenReads : Json → List String
  | .obj fields => hiddenCallReads fields
  | _ => []

def hiddenCallReads : List (String × Json) → List String
  | [(op, arg)] =>
    if op = "var" then longPathReads (firstArg arg) ++ argReads arg else hiddenArgReads arg
  | _ => []

def hiddenArgReads : Json → List String
  | .arr items => hiddenItemReads items
  | .obj fields => hiddenCallReads fields
  | _ => []

def hiddenItemReads : List Json → List String
  | [] => []
  | item :: rest => hiddenReads item ++ hiddenItemReads rest

end

def inputReads (inputs : Fields) : List String := inputs.flatMap fun input => varReads input.2

section Variables

variable {slug : String}

theorem mem_pathReads {arg : Json} (read : slug ∈ pathReads (firstArg arg)) :
    slug ∈ varSlug arg ∨ slug ∈ longPathReads (firstArg arg) := by
  have ofPath : ∀ path, slug ∈ pathReads (some (.str path)) →
      slug = path ∨ slug ∈ longPathReads (some (.str path)) := by
    intro path read
    by_cases empty : path = ""
    · simp [pathReads, empty] at read
    · simp only [pathReads, if_neg empty, mem_singleton] at read
      by_cases whole : pathField path = path
      · exact .inl (read.trans whole)
      · exact .inr (by simpa [longPathReads, whole] using read)
  match arg with
  | .str path => exact (ofPath path read).imp_left mem_singleton.mpr
  | .arr (.str path :: _) => exact (ofPath path read).imp_left mem_singleton.mpr
  | .null | .bool _ | .num _ | .obj _ | .arr [] => exact absurd read not_mem_nil
  | .arr (.null :: _) | .arr (.bool _ :: _) | .arr (.num _ :: _) | .arr (.obj _ :: _)
  | .arr (.arr _ :: _) => exact absurd read not_mem_nil

theorem mem_pathReads_of_longPathReads {path : Option Json} (read : slug ∈ longPathReads path) :
    slug ∈ pathReads path := by
  match path with
  | some (.str path) =>
    by_cases whole : pathField path = path
    · simp [longPathReads, whole] at read
    · have nonempty : path ≠ "" := by
        rintro rfl
        exact whole rfl
      simpa [longPathReads, pathReads, whole, nonempty] using read
  | none | some .null | some (.bool _) | some (.num _) | some (.arr _) | some (.obj _) =>
    exact absurd read not_mem_nil

mutual

theorem mem_varReads : ∀ expr : Json, slug ∈ varReads expr →
    slug ∈ exprVarSlugs expr ∨ slug ∈ hiddenReads expr
  | .obj fields, read => mem_callReads fields read
  | .null, read | .bool _, read | .num _, read | .str _, read | .arr _, read =>
    absurd read not_mem_nil

theorem mem_callReads : ∀ fields : List (String × Json), slug ∈ callReads fields →
    slug ∈ exprVarSlugsOfFields fields ∨ slug ∈ hiddenCallReads fields
  | [(op, arg)], read => by
    have inArg := mem_argReads arg
    rw [callReads, mem_append] at read
    rw [exprVarSlugsOfFields, exprVarSlugsOfFields, append_nil, hiddenCallReads]
    by_cases isVar : op = "var"
    · rw [if_pos isVar] at read ⊢
      rw [if_pos isVar, mem_append]
      rcases read with byPath | byArg
      · exact (mem_pathReads byPath).imp_right .inl
      · exact .inr (.inr byArg)
    · rw [if_neg isVar] at read ⊢
      rw [if_neg isVar]
      exact inArg (read.resolve_left not_mem_nil)
  | [], read => absurd read not_mem_nil
  | _ :: _ :: _, read => absurd read not_mem_nil

theorem mem_argReads : ∀ arg : Json, slug ∈ argReads arg →
    slug ∈ exprVarSlugs arg ∨ slug ∈ hiddenArgReads arg
  | .arr items, read => mem_itemReads items read
  | .obj fields, read => mem_callReads fields read
  | .null, read | .bool _, read | .num _, read | .str _, read => absurd read not_mem_nil

theorem mem_itemReads : ∀ items : List Json, slug ∈ itemReads items →
    slug ∈ exprVarSlugsOfItems items ∨ slug ∈ hiddenItemReads items
  | [], read => absurd read not_mem_nil
  | item :: rest, read => by
    rw [exprVarSlugsOfItems, hiddenItemReads, mem_append, mem_append]
    rcases mem_append.mp read with here | later
    · exact (mem_varReads item here).imp .inl .inl
    · exact (mem_itemReads rest later).imp .inr .inr

end

mutual

theorem mem_varReads_of_hiddenReads : ∀ expr : Json, slug ∈ hiddenReads expr →
    slug ∈ varReads expr
  | .obj fields, read => mem_callReads_of_hidden fields read
  | .null, read | .bool _, read | .num _, read | .str _, read | .arr _, read =>
    absurd read not_mem_nil

theorem mem_callReads_of_hidden : ∀ fields : List (String × Json),
    slug ∈ hiddenCallReads fields → slug ∈ callReads fields
  | [(op, arg)], read => by
    have inArg := mem_argReads_of_hidden arg
    rw [hiddenCallReads] at read
    rw [callReads, mem_append]
    by_cases isVar : op = "var"
    · rw [if_pos isVar, mem_append] at read
      rw [if_pos isVar]
      exact read.imp_left mem_pathReads_of_longPathReads
    · rw [if_neg isVar] at read
      exact .inr (inArg read)
  | [], read => absurd read not_mem_nil
  | _ :: _ :: _, read => absurd read not_mem_nil

theorem mem_argReads_of_hidden : ∀ arg : Json, slug ∈ hiddenArgReads arg → slug ∈ argReads arg
  | .arr items, read => mem_itemReads_of_hidden items read
  | .obj fields, read => mem_callReads_of_hidden fields read
  | .null, read | .bool _, read | .num _, read | .str _, read => absurd read not_mem_nil

theorem mem_itemReads_of_hidden : ∀ items : List Json, slug ∈ hiddenItemReads items →
    slug ∈ itemReads items
  | [], read => absurd read not_mem_nil
  | item :: rest, read =>
    mem_append.mpr ((mem_append.mp read).imp (mem_varReads_of_hiddenReads item)
      (mem_itemReads_of_hidden rest))

end

end Variables

/-! ## What an element reads -/

/-- The slugs of a leaf; a container or a table has none of its own. -/
def FormElement.ofLeaf (slugs : Leaf → List String) : FormElement → List String
  | .leaf _ own => slugs own
  | _ => []

section Reads

variable (isWord : Char → Bool)

def actionReads : ButtonAction → List String
  | .submit => []
  | .runWorkflow _ inputs => inputReads inputs
  | .link href => linkFieldTokens isWord href
  | .copyLink href => linkFieldTokens isWord href
  | .callConnection body => inputReads body

/-- What a puzzle pad adds to the values of its scope when it is done. -/
def outcomeNames : List String := ["solved", "answer", "attempts", "elapsed_ms"]

def completionReads (element : PuzzlePadElement) : List String :=
  (inputReads ((element.onComplete.map RunWorkflowAction.inputs).getD [])).filter
    (· ∉ outcomeNames)

def leafReads : Leaf → List String
  | .field slug _ => [slug]
  | .calculated element => varReads element.expression
  | .image url => linkFieldTokens isWord url
  | .qrCode url => linkFieldTokens isWord url
  | .progress value => varReads value
  | .countdown element => countdownSlugs element
  | .slides slug => givenSlugs [slug]
  | .model3d url glowUrl accentUrl =>
    (url :: ([glowUrl, accentUrl].reduceOption)).flatMap (linkFieldTokens isWord)
  | .keypad _ inputs => inputReads inputs
  | .button action => actionReads isWord action
  | .puzzlePad element => puzzlePadSlugs element ++ completionReads element
  | _ => []

/-- The fields of the record in scope that the element's own attributes read. -/
def elementReads (element : FormElement) : List String :=
  varReads element.visibleWhen ++ element.ofLeaf (leafReads isWord)

def leafBlindReads : Leaf → List String
  | .calculated element => varReads element.expression
  | .image url => linkFieldTokens isWord url
  | .progress value => hiddenReads value
  | .model3d url glowUrl accentUrl =>
    (url :: ([glowUrl, accentUrl].reduceOption)).flatMap (linkFieldTokens isWord)
  | .keypad _ inputs => inputReads inputs
  | .button action => actionReads isWord action
  | .puzzlePad element => completionReads element
  | _ => []

def blindReads (element : FormElement) : List String :=
  hiddenReads element.visibleWhen ++ element.ofLeaf (leafBlindReads isWord)

/-- What the flattener declares for a leaf, its gate aside. -/
def leafDeclares : Leaf → List String
  | .field slug _ => [slug]
  | .qrCode url => linkFieldTokens isWord url
  | .progress value => exprVarSlugs value
  | .countdown element => countdownSlugs element
  | .slides slug => givenSlugs [slug]
  | .puzzlePad element => puzzlePadSlugs element
  | _ => []

def declares (element : FormElement) : List String :=
  exprVarSlugs element.visibleWhen ++ element.ofLeaf (leafDeclares isWord)

end Reads

section Blind

variable {isWord : Char → Bool} {slug : String}

theorem mem_leafReads {leaf : Leaf} (read : slug ∈ leafReads isWord leaf) :
    slug ∈ leafDeclares isWord leaf ∨ slug ∈ leafBlindReads isWord leaf := by
  cases leaf with
  | field slug readOnly => exact .inl read
  | qrCode url => exact .inl read
  | countdown element => exact .inl read
  | slides slug => exact .inl read
  | progress value => exact mem_varReads value read
  | puzzlePad element => exact mem_append.mp read
  | _ => exact .inr read

theorem mem_leafReads_of_blind {leaf : Leaf} (read : slug ∈ leafBlindReads isWord leaf) :
    slug ∈ leafReads isWord leaf := by
  cases leaf with
  | progress value => exact mem_varReads_of_hiddenReads value read
  | puzzlePad element => exact mem_append_right _ read
  | field | qrCode | countdown | slides => cases read
  | _ => exact read

theorem mem_elementReads {element : FormElement} (read : slug ∈ elementReads isWord element) :
    slug ∈ declares isWord element ∨ slug ∈ blindReads isWord element := by
  rw [declares, blindReads, mem_append, mem_append]
  rcases mem_append.mp read with byGate | byLeaf
  · exact (mem_varReads _ byGate).imp .inl .inl
  · cases element with
    | leaf visibleWhen leaf => exact (mem_leafReads byLeaf).imp .inr .inr
    | _ => cases byLeaf

theorem mem_elementReads_of_blind {element : FormElement}
    (read : slug ∈ blindReads isWord element) : slug ∈ elementReads isWord element := by
  rw [elementReads, mem_append]
  rcases mem_append.mp read with byGate | byLeaf
  · exact .inl (mem_varReads_of_hiddenReads _ byGate)
  · cases element with
    | leaf visibleWhen leaf => exact .inr (mem_leafReads_of_blind byLeaf)
    | _ => cases byLeaf

end Blind

/-! ## What a page fetches -/

section Fetching

variable {isWord : Char → Bool} {rels : Nat → Option RelInfo} {slug : String}

theorem walkAll_append {ε : Type} (elements later : List (Forms.FormElement ε)) :
    walkAll (elements ++ later) = walkAll elements ++ walkAll later := by
  induction elements with
  | nil => rfl
  | cons element rest ih =>
    rw [cons_append, walkAll, walkAll, ih, append_assoc]

mutual

theorem walk_layoutElement : ∀ (element : FormElement) (depth : Nat),
    (layoutElement isWord element).walk =
      (walkElement true depth element).map fun visited => layoutElement isWord visited.1
  | .leaf visibleWhen leaf, depth => by
    rw [layoutElement]
    rfl
  | .table visibleWhen table, depth => by
    rw [layoutElement]
    rfl
  | .section visibleWhen relationshipId elements, depth => by
    rw [layoutElement]
    rfl
  | .block visibleWhen anchorRelationshipId elements, depth => by
    rw [layoutElement]
    rfl
  | .region visibleWhen kind elements, depth => by
    rw [layoutElement, Forms.FormElement.walk, walkAll_layoutOf elements (depth + 1),
      walkElement, map_cons, layoutElement]
  | .parts visibleWhen kind parts, depth => by
    rw [layoutElement, Forms.FormElement.walk, walkAll_layoutParts parts (depth + 1),
      walkElement, map_cons, layoutElement]

theorem walkAll_layoutOf : ∀ (elements : List FormElement) (depth : Nat),
    walkAll (layoutOf isWord elements) =
      (walk true depth elements).map fun visited => layoutElement isWord visited.1
  | [], depth => rfl
  | element :: rest, depth => by
    rw [layoutOf, walkAll, walk_layoutElement element depth, walkAll_layoutOf rest depth, walk,
      map_append]

theorem walkAll_layoutParts : ∀ (parts : List (List FormElement)) (depth : Nat),
    walkAll (layoutParts isWord parts) =
      (walkParts true depth parts).map fun visited => layoutElement isWord visited.1
  | [], depth => rfl
  | part :: rest, depth => by
    rw [layoutParts, walkAll_append, walkAll_layoutOf part depth,
      walkAll_layoutParts rest depth, walkParts, map_append]

end

theorem mem_bindRootLeaf {binding : FieldBinding Json} {visibleWhen : Json} {leaf : Leaf} :
    slug ∈ (bindRootLeaf binding (layoutLeaf isWord visibleWhen leaf)).displaySlugs ↔
      slug ∈ binding.displaySlugs ∨ slug ∈ declares isWord (.leaf visibleWhen leaf) := by
  rw [declares, mem_append]
  cases leaf with
  | _ => simp [bindRootLeaf, layoutLeaf, leafKind, FormElement.ofLeaf, leafDeclares,
      FormElement.visibleWhen, or_assoc]

theorem mem_bindElement {before after : Bindings Json} {element : FormElement}
    (bound : bindElement rels before (layoutElement isWord element) = some after) :
    slug ∈ after.root.displaySlugs ↔
      slug ∈ before.root.displaySlugs ∨ slug ∈ declares isWord element := by
  obtain ⟨container, _, same⟩ := Option.bind_eq_some_iff.mp bound
  rw [← Option.some.inj same]
  cases element with
  | leaf visibleWhen leaf =>
    exact mem_bindRootLeaf
  | _ =>
    simp [layoutElement, Forms.FormElement.gate, declares, FormElement.ofLeaf,
      FormElement.visibleWhen]

/-- **The root of a page fetches what its elements declare.** -/
theorem mem_root_flattenPage {elements : List FormElement} {bindings : Bindings Json}
    (flat : flattenPage isWord rels elements = some bindings) :
    slug ∈ bindings.root.displaySlugs ↔
      ∃ element, Occurs true element elements ∧ slug ∈ declares isWord element := by
  have general : ∀ (walked : List (FormElement × Nat)) (before after : Bindings Json),
      (walked.map fun visited => layoutElement isWord visited.1).foldlM (bindElement rels) before =
          some after →
        (slug ∈ after.root.displaySlugs ↔ slug ∈ before.root.displaySlugs ∨
          ∃ visited ∈ walked, slug ∈ declares isWord visited.1) := by
    intro walked
    induction walked with
    | nil =>
      intro before after same
      cases same
      simp
    | cons visited rest ih =>
      intro before after folded
      obtain ⟨middle, bound, later⟩ := Option.bind_eq_some_iff.mp folded
      rw [ih middle after later, mem_bindElement bound, or_assoc, exists_mem_cons_iff]
  rw [flattenPage, flatten, walkAll_layoutOf elements 0] at flat
  rw [general _ _ _ flat, or_iff_right not_mem_nil]
  constructor
  · rintro ⟨⟨element, level⟩, visited, declared⟩
    exact ⟨element, mem_iterElements.mp ⟨level, visited⟩, declared⟩
  · rintro ⟨element, occurs, declared⟩
    obtain ⟨level, visited⟩ := mem_iterElements.mpr occurs
    exact ⟨(element, level), visited, declared⟩

theorem mem_bindLeaf {binding : FieldBinding Json} {child : SectionChild} :
    slug ∈ (bindLeaf binding (layoutChild isWord child)).displaySlugs ↔
      slug ∈ binding.displaySlugs ∨ slug ∈ declares isWord child.toElement := by
  obtain ⟨visibleWhen, leaf⟩ := child
  rw [declares, mem_append]
  cases leaf with
  | _ => simp [bindLeaf, layoutChild, layoutLeaf, leafKind, SectionChild.toElement,
      ChildLeaf.toLeaf, FormElement.ofLeaf, leafDeclares, FormElement.visibleWhen, or_assoc]

/-- **A section or a block fetches what its children declare.** -/
theorem mem_leafSlugs {children : List SectionChild} :
    slug ∈ (leafSlugs (children.map (layoutChild isWord))).displaySlugs ↔
      ∃ child ∈ children, slug ∈ declares isWord child.toElement := by
  have general : ∀ binding : FieldBinding Json,
      slug ∈ ((children.map (layoutChild isWord)).foldl bindLeaf binding).displaySlugs ↔
        slug ∈ binding.displaySlugs ∨
          ∃ child ∈ children, slug ∈ declares isWord child.toElement := by
    induction children with
    | nil => simp
    | cons child rest ih =>
      intro binding
      rw [map_cons, foldl_cons, ih, mem_bindLeaf, or_assoc, exists_mem_cons_iff]
  exact (general {}).trans (or_iff_right not_mem_nil)

end Fetching

/-! ## Every read is fetched -/

/-- The entity that a section or a block binds its children to, with the children. -/
def childScope (rels : Nat → Option RelInfo) : FormElement → Option (Nat × List SectionChild)
  | .section _ relationshipId elements =>
    (rels relationshipId).map fun info => (info.targetId, elements)
  | .block _ anchorRelationshipId elements =>
    (rels anchorRelationshipId).map fun info => (info.sourceId, elements)
  | _ => none

def containerFields : Container Json → FieldBinding Json
  | .ofSection binding => binding.fields
  | .ofRows binding => binding.fields

section EveryRead

variable (isWord : Char → Bool) (fieldsByEntity : Nat → Option (List String))
  (rels : Nat → Option RelInfo) (elements : List FormElement) (rootEntityId : Nat)

structure EveryReadFetched (bindings : Bindings Json) : Prop where
  root : ∀ element, Occurs true element elements → ∀ slug ∈ elementReads isWord element,
    HasField fieldsByEntity rootEntityId slug → slug ∈ bindings.root.displaySlugs
  scopes : ∀ element, Occurs true element elements → ∀ entityId children,
    childScope rels element = some (entityId, children) → ∃ container ∈ bindings.containers,
      bindContainer rels (layoutElement isWord element) = some (some container) ∧
        ∀ child ∈ children, ∀ slug ∈ elementReads isWord child.toElement,
          HasField fieldsByEntity entityId slug → slug ∈ (containerFields container).displaySlugs

/-- What the elements of a scope read blindly another element of the same scope declares. -/
structure BlindReadsDeclared : Prop where
  root : ∀ element, Occurs true element elements → ∀ slug ∈ blindReads isWord element,
    HasField fieldsByEntity rootEntityId slug →
      ∃ other, Occurs true other elements ∧ slug ∈ declares isWord other
  scopes : ∀ element, Occurs true element elements → ∀ entityId children,
    childScope rels element = some (entityId, children) →
      ∀ child ∈ children, ∀ slug ∈ blindReads isWord child.toElement,
        HasField fieldsByEntity entityId slug →
          ∃ other ∈ children, slug ∈ declares isWord other.toElement

variable {isWord fieldsByEntity rels elements rootEntityId}

theorem exists_container {bindings : Bindings Json}
    (flat : flattenPage isWord rels elements = some bindings) {element : FormElement}
    (occurs : Occurs true element elements) {entityId : Nat} {children : List SectionChild}
    (isScope : childScope rels element = some (entityId, children)) :
    ∃ container ∈ bindings.containers,
      bindContainer rels (layoutElement isWord element) = some (some container) ∧
        containerFields container = leafSlugs (children.map (layoutChild isWord)) := by
  have walked : layoutElement isWord element ∈ walkAll (layoutOf isWord elements) := by
    obtain ⟨level, visited⟩ := mem_iterElements.mpr occurs
    rw [walkAll_layoutOf elements 0]
    exact mem_map.mpr ⟨(element, level), visited, rfl⟩
  cases element with
  | «section» visibleWhen relationshipId children =>
    obtain ⟨info, isInfo, same⟩ := Option.map_eq_some_iff.mp isScope
    cases same
    have isBound : bindContainer rels (layoutElement isWord
        (.section visibleWhen relationshipId children)) = some (some (.ofSection
          ⟨relationshipId, info.targetId, leafSlugs (children.map (layoutChild isWord))⟩)) := by
      rw [layoutElement, bindContainer, isInfo]
      rfl
    exact ⟨_, container_mem flat walked isBound, isBound, rfl⟩
  | block visibleWhen anchorRelationshipId children =>
    obtain ⟨info, isInfo, same⟩ := Option.map_eq_some_iff.mp isScope
    cases same
    have isBound : bindContainer rels (layoutElement isWord
        (.block visibleWhen anchorRelationshipId children)) = some (some (.ofRows
          { relId := anchorRelationshipId, entityId := info.sourceId
            fields := leafSlugs (children.map (layoutChild isWord)) })) := by
      rw [layoutElement, bindContainer, isInfo]
      rfl
    exact ⟨_, container_mem flat walked isBound, isBound, rfl⟩
  | _ => cases isScope

theorem everyRead_iff {bindings : Bindings Json}
    (flat : flattenPage isWord rels elements = some bindings) :
    EveryReadFetched isWord fieldsByEntity rels elements rootEntityId bindings ↔
      BlindReadsDeclared isWord fieldsByEntity rels elements rootEntityId := by
  constructor
  · intro fetched
    refine ⟨fun element occurs slug blind isField => ?_,
      fun element occurs entityId children isScope child isChild slug blind isField => ?_⟩
    · exact (mem_root_flattenPage flat).mp
        (fetched.root element occurs slug (mem_elementReads_of_blind blind) isField)
    · obtain ⟨container, _, isBound, fetches⟩ :=
        fetched.scopes element occurs entityId children isScope
      obtain ⟨other, _, isOther, same⟩ := exists_container flat occurs isScope
      cases Option.some.inj (isBound.symm.trans isOther)
      have shown := fetches child isChild slug (mem_elementReads_of_blind blind) isField
      rw [same] at shown
      exact mem_leafSlugs.mp shown
  · intro declared
    refine ⟨fun element occurs slug read isField => ?_,
      fun element occurs entityId children isScope => ?_⟩
    · refine (mem_root_flattenPage flat).mpr ?_
      rcases mem_elementReads read with own | blind
      · exact ⟨element, occurs, own⟩
      · exact declared.root element occurs slug blind isField
    · obtain ⟨container, member, isBound, same⟩ := exists_container flat occurs isScope
      refine ⟨container, member, isBound, fun child isChild slug read isField => ?_⟩
      rw [same]
      refine mem_leafSlugs.mpr ?_
      rcases mem_elementReads read with own | blind
      · exact ⟨child, isChild, own⟩
      · exact declared.scopes element occurs entityId children isScope child isChild slug blind
          isField

variable (isWord fieldsByEntity rels elements rootEntityId)

/-- A page that validates fetches every field that its elements read. -/
def FetchesWhatItReads : Prop :=
  validatePage isWord fieldsByEntity rels elements rootEntityId = .ok () →
    ∀ bindings, flattenPage isWord rels elements = some bindings →
      EveryReadFetched isWord fieldsByEntity rels elements rootEntityId bindings

/-- A valid page fetches what it reads exactly if every field that an expression of a calculation,
the inputs or the link of a button, the inputs of a pad, the url of an image or a model, or a
hidden variable reads is declared by an element of the same scope. -/
theorem fetchesWhatItReads_iff :
    FetchesWhatItReads isWord fieldsByEntity rels elements rootEntityId ↔
      (validatePage isWord fieldsByEntity rels elements rootEntityId = .ok () →
        BlindReadsDeclared isWord fieldsByEntity rels elements rootEntityId) := by
  refine forall_congr' fun valid => ?_
  obtain ⟨bindings, flat⟩ := exists_flatten_of_validate valid
  constructor
  · intro fetched
    exact (everyRead_iff flat).mp (fetched bindings flat)
  · intro declared others flat'
    exact (everyRead_iff flat').mpr declared

end EveryRead

/-- A button passes a field that nothing on the page declares. -/
def buttonPage : List FormElement :=
  [.leaf .null (.button (.runWorkflow 1 [("unit", .obj [("var", .str "unit_code")])]))]

theorem not_fetchesWhatItReads_button :
    ¬FetchesWhatItReads Char.isAlphanum (fun _ => some ["unit_code"]) (fun _ => none)
      buttonPage 0 := by
  intro fetches
  have fetched := (fetches rfl _ rfl).root _ (.here mem_cons_self) "unit_code" (by decide)
    ⟨_, rfl, by decide⟩
  exact not_mem_nil fetched

end RedArchKM.Forms.Elements
