import RedArchKM.Forms.ReadOnlyTables
import RedArchKM.Lib.JsonText

/-!
# Pages that anyone may see

The render of a page carries the values of its records, and a catalog of the entities that it
touches with all their fields. For a visitor with a share link the catalog is cut down to the
fields whose slugs are among the slugs of the values that are sent. These are collected over all
entities, and those of related columns are left out.

So the catalog discloses what the page shows (`disclosesExactly_iff`) when no slug that is sent for
one entity names an unsent field of another, and the slug of every related column that is sent also
stands among the values of some record, a row or the root.
-/

namespace RedArchKM.Forms

open Lib List Option
open Lib.Fallible (Ensures bind_eq_ok)
open Records (EntityField Public)

variable {ν ε : Type}

/-! ## The render -/

/-- The record that a row links, as it is shown. -/
structure RelatedCell (ν : Type) where
  id : String
  values : Public ν

structure RowData (ν : Type) where
  id : String
  values : Public ν
  related : List (Nat × RelatedCell ν)

/-- What is sent for a relationship: the record that a section shows, or the rows of a block or a
table. -/
inductive RelatedPayload (ν : Type) where
  | linked (id : String) (values : Public ν)
  | rows (rows : List (RowData ν))

structure EntityCatalogEntry where
  entityId : Nat
  fields : List EntityField

structure FormRenderRead (ν : Type) where
  rootEntityId : Option Nat
  recordId : Option ν := none
  catalog : List EntityCatalogEntry := []
  values : Public ν := []
  related : List (Nat × RelatedPayload ν) := []

def shownValues (slugs : List String) (record : Public ν) : Public ν :=
  slugs.eraseDups.map fun slug => (slug, valueOf record slug)

def RowsBinding.order (binding : RowsBinding ε) : Records.Repository.ListRequest ν :=
  match binding.sortBy with
  | none => {}
  | some slug =>
    if slug = "" then {}
    else { orderBy := some slug, orderDir := if binding.sortDescending then "desc" else "asc" }

/-- The entities that a page touches. -/
def neededEntities (rootId : Nat) (bindings : Bindings ε) : List Nat :=
  rootId :: bindings.containers.flatMap fun container =>
    match container with
    | .ofSection binding => [binding.entityId]
    | .ofRows binding => binding.entityId :: binding.relatedCols.map RelatedColBinding.entityId

namespace Site

variable (site : Site ν ε)

def buildCatalog (rootId : Nat) (bindings : Bindings ε) : List EntityCatalogEntry :=
  (neededEntities rootId bindings).eraseDups.filterMap fun entityId =>
    (site.catalogs entityId).map fun catalog => ⟨entityId, catalog.fields⟩

def linkedRecord (entityId : Nat) (linked : ν) (store : Store ν) :
    Except FormFailure (Option (Public ν)) := do
  let _ ← site.repo entityId
  let linkedId ← site.asUuid (site.env.python.str (some linked))
  site.getRecord entityId linkedId store

/-- One column of `_prefill_row_related`. -/
def prefillRelatedCol (childRow : Public ν) (store : Store ν) (cells : List (Nat × RelatedCell ν))
    (column : RelatedColBinding) : Except FormFailure (List (Nat × RelatedCell ν)) :=
  match (site.relSlug column.relId).bind (valueOf childRow) with
  | none => return cells
  | some linked => do
      match ← site.linkedRecord column.entityId linked store with
      | none => return cells
      | some record =>
        return JsonText.put column.relId
          { id := site.env.python.str (valueOf record "id")
            values := [(column.slug, valueOf record column.slug)] } cells

def prefillRow (binding : RowsBinding ε) (store : Store ν) (item : Public ν) :
    Except FormFailure (RowData ν) := do
  let related ← binding.relatedCols.foldlM (site.prefillRelatedCol item store) []
  return { id := site.env.python.str (valueOf item "id")
           values := shownValues binding.fields.displaySlugs item
           related := related }

def listRows (binding : RowsBinding ε) (relSlug : String) (rootId : ν) (store : Store ν) :
    Except FormFailure (List (Public ν)) := do
  let repo ← site.repo binding.entityId
  match repo.list site.env
      { (binding.order : Records.Repository.ListRequest ν) with
        filters := .byValue [(relSlug, some rootId)], limit := maxSectionRows }
      (database store binding.entityId) with
  | .error failure => .error (.record failure)
  | .ok (items, _) => return items

/-- One container of `_prefill_related`. -/
def prefillContainer (rootRecord : Public ν) (rootId : ν) (store : Store ν)
    (related : List (Nat × RelatedPayload ν)) (container : Container ε) :
    Except FormFailure (List (Nat × RelatedPayload ν)) :=
  match container with
  | .ofSection binding =>
    match (site.relSlug binding.relId).bind (valueOf rootRecord) with
    | none => return related
    | some linked => do
        match ← site.linkedRecord binding.entityId linked store with
        | none => return related
        | some record =>
          return JsonText.put binding.relId
            (.linked (site.env.python.str (valueOf record "id"))
              (shownValues binding.fields.displaySlugs record)) related
  | .ofRows binding =>
    match site.relSlug binding.relId with
    | none => return related
    | some relSlug => do
        let items ← site.listRows binding relSlug rootId store
        let rows ← items.mapM (site.prefillRow binding store)
        return JsonText.put binding.relId (.rows rows) related

def prefillRelated (bindings : Bindings ε) (rootRecord : Public ν) (rootId : ν) (store : Store ν) :
    Except FormFailure (List (Nat × RelatedPayload ν)) :=
  bindings.containers.foldlM (site.prefillContainer rootRecord rootId store) []

def buildRender (form : Form ε) (targetRecordId : Option ν) (store : Store ν) :
    Except FormFailure (FormRenderRead ν) := do
  let _ ← site.repo form.entityDefinitionId
  match flatten site.rels form.elements with
  | none => .error .unknownRelationship
  | some bindings =>
    let unbound : FormRenderRead ν :=
      { rootEntityId := some form.entityDefinitionId
        catalog := site.buildCatalog form.entityDefinitionId bindings }
    match targetRecordId with
    | none => return unbound
    | some rootId =>
      match ← site.getRecord form.entityDefinitionId rootId store with
      | none => return unbound
      | some rootRecord =>
        let related ← site.prefillRelated bindings rootRecord rootId store
        return { unbound with
          recordId := some rootId
          values := shownValues bindings.root.displaySlugs rootRecord
          related := related }

end Site

/-! ## The shared page -/

/-- A view with a share link: whether the link is live, and which record it shows. -/
structure PublicView (ν ε : Type) where
  entityDefinitionId : Option Nat
  elements : List (FormElement ε)
  live : Bool := true
  publicRecordId : Option ν := none
  publicRecordFollow : Bool := false

inductive PublicFailure where
  /-- There is no such link, or it is expired or switched off. -/
  | notAvailable
  | form (failure : FormFailure)

/-- `_record_id`; the newest record of an entity is given. -/
def PublicView.recordId (view : PublicView ν ε) (latest : Nat → Option ν) : Option ν :=
  if view.publicRecordFollow then view.entityDefinitionId.bind latest else view.publicRecordId

/-- `ViewService.render`. A view without an entity has only its config. -/
def Site.renderView (site : Site ν ε) (view : PublicView ν ε) (recordId : Option ν)
    (store : Store ν) : Except FormFailure (FormRenderRead ν) :=
  match view.entityDefinitionId with
  | some entityDefinitionId => site.buildRender ⟨entityDefinitionId, view.elements⟩ recordId store
  | none => return { rootEntityId := none, recordId := recordId }

namespace FormRenderRead

variable (render : FormRenderRead ν)

def visibleSlugs : List String :=
  render.values.map Prod.fst ++ render.related.flatMap fun entry =>
    match entry.2 with
    | .linked _ values => values.map Prod.fst
    | .rows rows => rows.flatMap fun row => row.values.map Prod.fst

def trimCatalog : FormRenderRead ν :=
  { render with
    catalog := render.catalog.map fun entry =>
      { entry with fields := entry.fields.filter fun field => field.slug ∈ render.visibleSlugs } }

end FormRenderRead

/-- `PublicViewService.render` -/
def Site.renderPublic (site : Site ν ε) (view : PublicView ν ε) (latest : Nat → Option ν)
    (store : Store ν) : Except PublicFailure (FormRenderRead ν) :=
  if !view.live then .error .notAvailable
  else
    match site.renderView view (view.recordId latest) store with
    | .error failure => .error (.form failure)
    | .ok render => return render.trimCatalog

/-! ## What is sent and what is disclosed -/

namespace FormRenderRead

variable (rels : Nat → Option RelInfo) (render : FormRenderRead ν)

inductive SentAbove (entityId : Nat) (slug : String) : Prop
  | root (isRoot : render.rootEntityId = some entityId)
      (sent : slug ∈ render.values.map Prod.fst) : SentAbove entityId slug
  | linked (relId : Nat) (info : RelInfo) (id : String) (values : Public ν)
      (member : (relId, RelatedPayload.linked id values) ∈ render.related)
      (isRel : rels relId = some info) (isTarget : info.targetId = entityId)
      (sent : slug ∈ values.map Prod.fst) : SentAbove entityId slug
  | row (relId : Nat) (info : RelInfo) (rows : List (RowData ν)) (row : RowData ν)
      (member : (relId, RelatedPayload.rows rows) ∈ render.related)
      (isRel : rels relId = some info) (isSource : info.sourceId = entityId)
      (isRow : row ∈ rows) (sent : slug ∈ row.values.map Prod.fst) : SentAbove entityId slug

section

variable (entityId : Nat) (slug : String)

def SentBelow : Prop :=
  ∃ relId rows row cell info, (relId, RelatedPayload.rows rows) ∈ render.related ∧ row ∈ rows ∧
    cell ∈ row.related ∧ rels cell.1 = some info ∧ info.targetId = entityId ∧
      slug ∈ cell.2.values.map Prod.fst

def Sent : Prop :=
  render.SentAbove rels entityId slug ∨ render.SentBelow rels entityId slug

def Discloses : Prop :=
  ∃ entry ∈ render.catalog, entry.entityId = entityId ∧ slug ∈ entry.fields.map EntityField.slug

end

end FormRenderRead

inductive Displays (rootId : Nat) (bindings : Bindings ε) (entityId : Nat) (slug : String) : Prop
  | root (isRoot : rootId = entityId) (shown : slug ∈ bindings.root.displaySlugs) :
      Displays rootId bindings entityId slug
  | «section» (binding : SectionBinding ε) (member : .ofSection binding ∈ bindings.containers)
      (isEntity : binding.entityId = entityId) (shown : slug ∈ binding.fields.displaySlugs) :
      Displays rootId bindings entityId slug
  | rows (binding : RowsBinding ε) (member : .ofRows binding ∈ bindings.containers)
      (isEntity : binding.entityId = entityId) (shown : slug ∈ binding.fields.displaySlugs) :
      Displays rootId bindings entityId slug
  | column (binding : RowsBinding ε) (member : .ofRows binding ∈ bindings.containers)
      (column : RelatedColBinding) (isColumn : column ∈ binding.relatedCols)
      (isEntity : column.entityId = entityId) (shown : column.slug = slug) :
      Displays rootId bindings entityId slug

def PublicView.Displays (site : Site ν ε) (view : PublicView ν ε) (entityId : Nat)
    (slug : String) : Prop :=
  ∃ rootId bindings, view.entityDefinitionId = some rootId ∧
    flatten site.rels view.elements = some bindings ∧ Forms.Displays rootId bindings entityId slug

/-! ## What is sent is displayed -/

theorem mem_shownValues {slugs : List String} {record : Public ν} {slug : String} :
    slug ∈ (shownValues slugs record).map Prod.fst ↔ slug ∈ slugs := by
  simp [shownValues, mem_eraseDups]

structure FitsRow (binding : RowsBinding ε) (row : RowData ν) : Prop where
  values : ∀ slug ∈ row.values.map Prod.fst, slug ∈ binding.fields.displaySlugs
  related : ∀ cell ∈ row.related, ∃ column ∈ binding.relatedCols, cell.1 = column.relId ∧
    ∀ slug ∈ cell.2.values.map Prod.fst, column.slug = slug

/-- What is sent for a relationship is what a container with it shows. -/
def Fits (bindings : Bindings ε) (relId : Nat) : RelatedPayload ν → Prop
  | .linked _ values => ∃ binding, .ofSection binding ∈ bindings.containers ∧
      binding.relId = relId ∧ ∀ slug ∈ values.map Prod.fst, slug ∈ binding.fields.displaySlugs
  | .rows rows => ∃ binding, .ofRows binding ∈ bindings.containers ∧ binding.relId = relId ∧
      ∀ row ∈ rows, FitsRow binding row

section Sending

variable (site : Site ν ε) {bindings : Bindings ε} {store : Store ν}

theorem fitsRow_prefillRow (binding : RowsBinding ε) (item : Public ν) :
    Ensures (FitsRow binding) (site.prefillRow binding store item) := by
  refine .bind fun related isRelated => .pure ⟨fun slug shown => ?_, ?_⟩
  · exact mem_shownValues.mp shown
  refine Ensures.foldlM
    (P := fun cells : List (Nat × RelatedCell ν) => ∀ cell ∈ cells,
      ∃ column ∈ binding.relatedCols, cell.1 = column.relId ∧
        ∀ slug ∈ cell.2.values.map Prod.fst, column.slug = slug)
    (forall_mem_nil _) (fun column isColumn cells fits => ?_) related isRelated
  unfold Site.prefillRelatedCol
  split
  · exact .pure fits
  · refine .bind fun record _ => ?_
    cases record with
    | none => exact .pure fits
    | some record =>
      refine .pure fun cell member => ?_
      rcases JsonText.mem_put member with rfl | earlier
      · exact ⟨column, isColumn, rfl, fun slug shown => (mem_singleton.mp shown).symm⟩
      · exact fits cell earlier

/-- **All that is sent for relationships fits the bindings.** -/
theorem fits_prefillRelated (rootRecord : Public ν) (rootId : ν) :
    Ensures (fun related => ∀ entry ∈ related, Fits bindings entry.1 entry.2)
      (site.prefillRelated bindings rootRecord rootId store) := by
  refine Ensures.foldlM (forall_mem_nil _) fun container isContainer related fits => ?_
  cases container with
  | ofSection binding =>
    unfold Site.prefillContainer
    dsimp only
    split
    · exact .pure fits
    · refine .bind fun record _ => ?_
      cases record with
      | none => exact .pure fits
      | some record =>
        refine .pure fun entry member => ?_
        rcases JsonText.mem_put member with rfl | earlier
        · exact ⟨binding, isContainer, rfl, fun slug => mem_shownValues.mp⟩
        · exact fits entry earlier
  | ofRows binding =>
    unfold Site.prefillContainer
    dsimp only
    split
    · exact .pure fits
    · refine .bind fun items _ => .bind fun rows areRows => ?_
      have fitRows : ∀ row ∈ rows, FitsRow binding row :=
        Ensures.mapM (fun item _ => fitsRow_prefillRow site binding item) rows areRows
      refine .pure fun entry member => ?_
      rcases JsonText.mem_put member with rfl | earlier
      · exact ⟨binding, isContainer, rfl, fitRows⟩
      · exact fits entry earlier

end Sending

/-! ## The entities of containers -/

def Container.Typed (rels : Nat → Option RelInfo) : Container ε → Prop
  | .ofSection binding => ∃ info, rels binding.relId = some info ∧ info.targetId = binding.entityId
  | .ofRows binding => (∃ info, rels binding.relId = some info ∧ info.sourceId = binding.entityId) ∧
      ∀ column ∈ binding.relatedCols, ∃ info, rels column.relId = some info ∧
        info.targetId = column.entityId

section Entities

variable {rels : Nat → Option RelInfo}

theorem exists_of_mem_mapM {α β : Type} {f : α → Option β} {items : List α} {results : List β}
    (mapped : items.mapM f = some results) : ∀ result ∈ results, ∃ item ∈ items,
      f item = some result := by
  induction items generalizing results with
  | nil =>
    cases mapped
    exact forall_mem_nil _
  | cons first rest ih =>
    rw [mapM_cons] at mapped
    obtain ⟨value, isValue, later⟩ := bind_eq_some_iff.mp mapped
    obtain ⟨others, areOthers, same⟩ := bind_eq_some_iff.mp later
    cases same
    intro result member
    rcases mem_cons.mp member with rfl | isOther
    · exact ⟨first, mem_cons_self, isValue⟩
    · obtain ⟨item, isItem, found⟩ := ih areOthers result isOther
      exact ⟨item, mem_cons_of_mem first isItem, found⟩

theorem typed_bindRelatedColumn {column : TableColumn} {related : RelatedColBinding}
    (bound : bindRelatedColumn rels column = some (some related)) :
    ∃ info, rels related.relId = some info ∧ info.targetId = related.entityId := by
  cases column with
  | related relationshipId slug editable =>
    obtain ⟨info, isInfo, same⟩ := map_eq_some_iff.mp bound
    cases same
    exact ⟨info, isInfo, rfl⟩
  | _ => cases some.inj bound

theorem typed_bindContainer {element : FormElement ε} {container : Container ε}
    (bound : bindContainer rels element = some (some container)) : container.Typed rels := by
  cases element with
  | sectionElement gate relationshipId elements =>
    obtain ⟨info, isInfo, same⟩ := map_eq_some_iff.mp bound
    cases same
    exact ⟨info, isInfo, rfl⟩
  | blockElement gate anchorRelationshipId elements =>
    obtain ⟨info, isInfo, same⟩ := map_eq_some_iff.mp bound
    cases same
    exact ⟨⟨info, isInfo, rfl⟩, forall_mem_nil _⟩
  | tableElement gate table =>
    obtain ⟨binding, isTable, same⟩ := map_eq_some_iff.mp bound
    cases same
    obtain ⟨info, isInfo, later⟩ := bind_eq_some_iff.mp isTable
    obtain ⟨related, areRelated, isBinding⟩ := bind_eq_some_iff.mp later
    cases isBinding
    refine ⟨⟨info, isInfo, rfl⟩, fun column isColumn => ?_⟩
    obtain ⟨_, _, found⟩ := exists_of_mem_mapM areRelated _ (reduceOption_mem_iff.mp isColumn)
    exact typed_bindRelatedColumn found
  | leafElement | layoutElement => cases some.inj bound

theorem typed_of_flatten {elements : List (FormElement ε)} {bindings : Bindings ε}
    (flat : flatten rels elements = some bindings) {container : Container ε}
    (member : container ∈ bindings.containers) : container.Typed rels := by
  obtain ⟨element, _, bound⟩ := exists_element_of_container flat member
  exact typed_bindContainer bound

end Entities

/-! ## Exact disclosure -/

section Disclosure

variable (site : Site ν ε)

def Site.IsField (entityId : Nat) (slug : String) : Prop :=
  ∃ catalog, site.catalogs entityId = some catalog ∧ slug ∈ catalog.fields.map EntityField.slug

variable {site}

/-- What the render of a bound page is made of. -/
structure Sends (site : Site ν ε) (rootId : Nat) (bindings : Bindings ε)
    (render : FormRenderRead ν) : Prop where
  root : render.rootEntityId = some rootId
  catalog : render.catalog = site.buildCatalog rootId bindings
  values : ∀ slug ∈ render.values.map Prod.fst, slug ∈ bindings.root.displaySlugs
  related : ∀ entry ∈ render.related, Fits bindings entry.1 entry.2

theorem sends_buildRender {form : Form ε} {bindings : Bindings ε}
    (flat : flatten site.rels form.elements = some bindings) (recordId : Option ν)
    (store : Store ν) :
    Ensures (Sends site form.entityDefinitionId bindings)
      (site.buildRender form recordId store) := by
  refine .bind fun _ _ => ?_
  rw [flat]
  cases recordId with
  | none => exact .pure ⟨rfl, rfl, forall_mem_nil _, forall_mem_nil _⟩
  | some rootId =>
    refine .bind fun record _ => ?_
    cases record with
    | none => exact .pure ⟨rfl, rfl, forall_mem_nil _, forall_mem_nil _⟩
    | some rootRecord =>
      refine .bind fun related isRelated => .pure ⟨rfl, rfl, ?_, ?_⟩
      · exact fun slug => mem_shownValues.mp
      · exact fits_prefillRelated site rootRecord rootId related isRelated

variable {render : FormRenderRead ν}

theorem flatten_of_buildRender {form : Form ε} {recordId : Option ν} {store : Store ν}
    (built : site.buildRender form recordId store = .ok render) :
    ∃ bindings, flatten site.rels form.elements = some bindings := by
  obtain ⟨_, _, later⟩ := bind_eq_ok.mp built
  cases flat : flatten site.rels form.elements with
  | none =>
    rw [flat] at later
    cases later
  | some bindings => exact ⟨bindings, rfl⟩

variable {entityId : Nat}

theorem discloses_trimCatalog {slug : String} :
    render.trimCatalog.Discloses entityId slug ↔
      render.Discloses entityId slug ∧ slug ∈ render.visibleSlugs := by
  constructor
  · rintro ⟨_, member, rfl, isField⟩
    obtain ⟨entry, isEntry, rfl⟩ := mem_map.mp member
    obtain ⟨field, kept, rfl⟩ := mem_map.mp isField
    obtain ⟨isField, visible⟩ := mem_filter.mp kept
    exact ⟨⟨entry, isEntry, rfl, mem_map_of_mem isField⟩, of_decide_eq_true visible⟩
  · rintro ⟨⟨entry, isEntry, rfl, isField⟩, visible⟩
    obtain ⟨field, member, rfl⟩ := mem_map.mp isField
    exact ⟨_, mem_map_of_mem isEntry, rfl,
      mem_map_of_mem (mem_filter.mpr ⟨member, decide_eq_true visible⟩)⟩

theorem sentAbove_trimCatalog {slug : String} :
    render.trimCatalog.SentAbove site.rels entityId slug ↔
      render.SentAbove site.rels entityId slug := by
  constructor
  · intro sent
    cases sent with
    | root isRoot sent => exact .root isRoot sent
    | linked relId info id values member isRel isTarget sent =>
      exact .linked relId info id values member isRel isTarget sent
    | row relId info rows row member isRel isSource isRow sent =>
      exact .row relId info rows row member isRel isSource isRow sent
  · intro sent
    cases sent with
    | root isRoot sent => exact .root isRoot sent
    | linked relId info id values member isRel isTarget sent =>
      exact .linked relId info id values member isRel isTarget sent
    | row relId info rows row member isRel isSource isRow sent =>
      exact .row relId info rows row member isRel isSource isRow sent

theorem sent_trimCatalog {slug : String} :
    render.trimCatalog.Sent site.rels entityId slug ↔ render.Sent site.rels entityId slug :=
  or_congr sentAbove_trimCatalog Iff.rfl

namespace Sends

variable {rootId : Nat} {bindings : Bindings ε} {render : FormRenderRead ν} {entityId : Nat}
  {slug : String}

theorem isField_of_discloses (sends : Sends site rootId bindings render)
    (discloses : render.Discloses entityId slug) : site.IsField entityId slug := by
  obtain ⟨entry, member, rfl, isField⟩ := discloses
  rw [sends.catalog] at member
  obtain ⟨needed, _, same⟩ := mem_filterMap.mp member
  obtain ⟨catalog, isCatalog, rfl⟩ := map_eq_some_iff.mp same
  exact ⟨catalog, isCatalog, isField⟩

theorem discloses_of_displays (sends : Sends site rootId bindings render)
    (displays : Displays rootId bindings entityId slug) (isField : site.IsField entityId slug) :
    render.Discloses entityId slug := by
  obtain ⟨catalog, isCatalog, isField⟩ := isField
  refine ⟨⟨entityId, catalog.fields⟩, ?_, rfl, isField⟩
  rw [sends.catalog]
  refine mem_filterMap.mpr ⟨entityId, mem_eraseDups.mpr ?_, ?_⟩
  · cases displays with
    | root isRoot shown => exact mem_cons.mpr (.inl isRoot.symm)
    | «section» binding member isEntity shown =>
      refine mem_cons_of_mem _ (mem_flatMap.mpr ⟨_, member, ?_⟩)
      exact mem_singleton.mpr isEntity.symm
    | rows binding member isEntity shown =>
      refine mem_cons_of_mem _ (mem_flatMap.mpr ⟨_, member, ?_⟩)
      exact mem_cons.mpr (.inl isEntity.symm)
    | column binding member column isColumn isEntity shown =>
      refine mem_cons_of_mem _ (mem_flatMap.mpr ⟨_, member, ?_⟩)
      exact mem_cons_of_mem _ (mem_map.mpr ⟨column, isColumn, isEntity⟩)
  · rw [isCatalog]
    rfl

variable {elements : List (FormElement ε)}

section

variable (sends : Sends site rootId bindings render)
    (flat : flatten site.rels elements = some bindings)

include sends flat

theorem displays_of_sentAbove (sent : render.SentAbove site.rels entityId slug) :
    Displays rootId bindings entityId slug := by
  cases sent with
  | root isRoot sent =>
    exact .root (some.inj (sends.root.symm.trans isRoot)) (sends.values slug sent)
  | linked relId info id values member isRel isTarget sent =>
    obtain ⟨binding, isBinding, rfl, shows⟩ := sends.related _ member
    obtain ⟨other, isOther, isEntity⟩ := typed_of_flatten flat isBinding
    cases isRel.symm.trans isOther
    exact .section binding isBinding (isEntity.symm.trans isTarget) (shows slug sent)
  | row relId info rows row member isRel isSource isRow sent =>
    obtain ⟨binding, isBinding, rfl, fits⟩ := sends.related _ member
    obtain ⟨⟨other, isOther, isEntity⟩, _⟩ := typed_of_flatten flat isBinding
    cases isRel.symm.trans isOther
    exact .rows binding isBinding (isEntity.symm.trans isSource) ((fits row isRow).values slug sent)

theorem displays_of_sentBelow (sent : render.SentBelow site.rels entityId slug) :
    Displays rootId bindings entityId slug := by
  obtain ⟨relId, rows, row, cell, info, member, isRow, isCell, isRel, isTarget, sent⟩ := sent
  obtain ⟨binding, isBinding, rfl, fits⟩ := sends.related _ member
  obtain ⟨column, isColumn, same, shows⟩ := (fits row isRow).related cell isCell
  obtain ⟨_, columns⟩ := typed_of_flatten flat isBinding
  obtain ⟨other, isOther, isEntity⟩ := columns column isColumn
  rw [same] at isRel
  cases isRel.symm.trans isOther
  exact .column binding isBinding column isColumn (isEntity.symm.trans isTarget) (shows slug sent)

theorem mem_visibleSlugs :
    slug ∈ render.visibleSlugs ↔ ∃ otherId, render.SentAbove site.rels otherId slug := by
  rw [FormRenderRead.visibleSlugs, mem_append, mem_flatMap]
  constructor
  · rintro (isRoot | ⟨⟨relId, payload⟩, member, shown⟩)
    · exact ⟨rootId, .root sends.root isRoot⟩
    · cases payload with
      | linked id values =>
        obtain ⟨binding, isBinding, rfl, _⟩ := sends.related _ member
        obtain ⟨info, isRel, isEntity⟩ := typed_of_flatten flat isBinding
        exact ⟨_, .linked _ info id values member isRel rfl shown⟩
      | rows rows =>
        obtain ⟨binding, isBinding, rfl, _⟩ := sends.related _ member
        obtain ⟨⟨info, isRel, isEntity⟩, _⟩ := typed_of_flatten flat isBinding
        obtain ⟨row, isRow, shown⟩ := mem_flatMap.mp shown
        exact ⟨_, .row _ info rows row member isRel rfl isRow shown⟩
  · rintro ⟨otherId, sent⟩
    cases sent with
    | root isRoot sent => exact .inl sent
    | linked relId info id values member isRel isTarget sent => exact .inr ⟨_, member, sent⟩
    | row relId info rows row member isRel isSource isRow sent =>
      exact .inr ⟨_, member, mem_flatMap.mpr ⟨row, isRow, sent⟩⟩

theorem displays_of_sent (sent : render.Sent site.rels entityId slug) :
    Displays rootId bindings entityId slug :=
  sent.elim (sends.displays_of_sentAbove flat) (sends.displays_of_sentBelow flat)

end

end Sends

variable (site)

/-- The catalog of every render of a shared page has a field of an entity exactly if the page
displays it and a value of it is sent. -/
def PublicView.DisclosesExactly (view : PublicView ν ε) (latest : Nat → Option ν)
    (store : Store ν) : Prop :=
  ∀ render, site.renderPublic view latest store = .ok render →
    ∀ entityId slug, site.IsField entityId slug →
      (render.Discloses entityId slug ↔
        view.Displays site entityId slug ∧ render.Sent site.rels entityId slug)

/-- Among the values of a render, before its catalog is cut down, no slug that is sent for one
entity names an unsent field of another, and those of related columns are also sent elsewhere. -/
structure Unmixed (render : FormRenderRead ν) : Prop where
  noCoincidence : ∀ otherId slug, render.SentAbove site.rels otherId slug →
    ∀ entityId, render.Discloses entityId slug → render.Sent site.rels entityId slug
  columns : ∀ entityId slug, render.SentBelow site.rels entityId slug →
    site.IsField entityId slug → ∃ otherId, render.SentAbove site.rels otherId slug

variable {site}

theorem Sends.exact_iff {rootId : Nat} {bindings : Bindings ε} {elements : List (FormElement ε)}
    (sends : Sends site rootId bindings render) (flat : flatten site.rels elements = some bindings) :
    (∀ entityId slug, site.IsField entityId slug →
      (render.trimCatalog.Discloses entityId slug ↔
        Displays rootId bindings entityId slug ∧ render.Sent site.rels entityId slug)) ↔
      Unmixed site render := by
  constructor
  · intro exact_
    constructor
    · intro otherId slug sent entityId discloses
      have visible := (sends.mem_visibleSlugs flat).mpr ⟨otherId, sent⟩
      exact ((exact_ entityId slug (sends.isField_of_discloses discloses)).mp
        (discloses_trimCatalog.mpr ⟨discloses, visible⟩)).2
    · intro entityId slug sent isField
      have displays := sends.displays_of_sentBelow flat sent
      have kept := (exact_ entityId slug isField).mpr ⟨displays, .inr sent⟩
      exact (sends.mem_visibleSlugs flat).mp (discloses_trimCatalog.mp kept).2
  · intro unmixed entityId slug isField
    rw [discloses_trimCatalog]
    constructor
    · rintro ⟨discloses, visible⟩
      obtain ⟨otherId, sent⟩ := (sends.mem_visibleSlugs flat).mp visible
      have sentHere := unmixed.noCoincidence otherId slug sent entityId discloses
      exact ⟨sends.displays_of_sent flat sentHere, sentHere⟩
    · rintro ⟨displays, sent⟩
      refine ⟨sends.discloses_of_displays displays isField, (sends.mem_visibleSlugs flat).mpr ?_⟩
      rcases sent with above | column
      · exact ⟨entityId, above⟩
      · exact unmixed.columns entityId slug column isField

theorem renderPublic_eq_ok {view : PublicView ν ε} {latest : Nat → Option ν} {store : Store ν}
    {trimmed : FormRenderRead ν} : site.renderPublic view latest store = .ok trimmed ↔
      view.live = true ∧ ∃ render, site.renderView view (view.recordId latest) store = .ok render ∧
        render.trimCatalog = trimmed := by
  unfold Site.renderPublic
  cases live : view.live with
  | false => exact iff_of_false nofun fun ⟨isLive, _⟩ => by cases isLive
  | true =>
    cases site.renderView view (view.recordId latest) store with
    | error failure => exact iff_of_false nofun fun ⟨_, _, failed, _⟩ => by cases failed
    | ok render =>
      refine ⟨fun done => ⟨rfl, render, rfl, Except.ok.inj done⟩, ?_⟩
      rintro ⟨_, _, same, rfl⟩
      cases same
      rfl

/-- **A shared page discloses exactly what it shows, if its values are unmixed.** -/
theorem disclosesExactly_iff (site : Site ν ε) (view : PublicView ν ε) (latest : Nat → Option ν)
    (store : Store ν) : view.DisclosesExactly site latest store ↔
      (view.live = true → ∀ render,
        site.renderView view (view.recordId latest) store = .ok render → Unmixed site render) := by
  have perRender : ∀ render, site.renderView view (view.recordId latest) store = .ok render →
      ((∀ entityId slug, site.IsField entityId slug →
        (render.trimCatalog.Discloses entityId slug ↔
          view.Displays site entityId slug ∧ render.trimCatalog.Sent site.rels entityId slug)) ↔
        Unmixed site render) := by
    intro render rendered
    unfold Site.renderView at rendered
    simp only [sent_trimCatalog, PublicView.Displays]
    cases isRoot : view.entityDefinitionId with
    | none =>
      rw [isRoot] at rendered
      cases rendered
      have nothing : ∀ otherId slug, ¬FormRenderRead.SentAbove site.rels
          ({ rootEntityId := none, recordId := view.recordId latest } : FormRenderRead ν)
            otherId slug := by
        intro otherId slug sent
        cases sent with
        | root isRoot sent => cases isRoot
        | linked relId info id values member isRel isTarget sent => cases member
        | row relId info rows row member isRel isSource isRow sent => cases member
      refine iff_of_true (fun entityId slug isField => ?_) ⟨?_, ?_⟩
      · exact iff_of_false (fun ⟨_, member, _⟩ => not_mem_nil member)
          fun ⟨⟨_, _, isSome, _⟩, _⟩ => by cases isSome
      · exact fun otherId slug sent => absurd sent (nothing otherId slug)
      · rintro entityId slug ⟨_, _, _, _, _, member, _⟩
        cases member
    | some rootId =>
      rw [isRoot] at rendered
      obtain ⟨bindings, flat⟩ := flatten_of_buildRender rendered
      have sends := sends_buildRender flat _ store render rendered
      rw [← sends.exact_iff flat]
      have displays : ∀ entityId slug, (∃ other shown, some rootId = some other ∧
          flatten site.rels view.elements = some shown ∧
            Forms.Displays other shown entityId slug) ↔
          Forms.Displays rootId bindings entityId slug := by
        intro entityId slug
        constructor
        · rintro ⟨other, shown, same, flat', displays⟩
          cases same
          cases flat.symm.trans flat'
          exact displays
        · exact fun displays => ⟨rootId, bindings, rfl, flat, displays⟩
      simp only [displays]
  constructor
  · intro exact_ live render rendered
    exact (perRender render rendered).mp
      (exact_ _ (renderPublic_eq_ok.mpr ⟨live, render, rendered, rfl⟩))
  · intro unmixed trimmed isTrimmed
    obtain ⟨live, render, rendered, rfl⟩ := renderPublic_eq_ok.mp isTrimmed
    exact (perRender render rendered).mpr (unmixed live render rendered)

end Disclosure

def countedOrders : Records.Catalog where
  definition := { id := 0, slug := "order", physicalTable := "ce_0" }
  fields := [{ slug := "title", physicalColumn := "f_0", fieldType := .text },
    { slug := "quantity", physicalColumn := "f_2", fieldType := .text }]
  relationships := []
  fieldSlugs_nodup := by decide
  relationshipSlugs_nodup := List.nodup_nil
  columns_nodup := by decide

def countedShop : Site Cell Unit :=
  { shop with
    catalogs := fun entityId =>
      if entityId = 0 then some countedOrders else if entityId = 1 then some items else none }

/-- An item without an order. -/
def looseItem : Tables Cell := fun entityId =>
  if entityId = 1 then
    [Query.assign (fun _ => none) [("id", some (.id 1)), ("org_id", some (.text "shop")),
      ("f_1", some (.text "2"))]]
  else []

/-- The page of an item, with the title of its order. -/
def itemPage : PublicView Cell Unit where
  entityDefinitionId := some 1
  elements := [.leafElement { kind := .field "quantity" true },
    .sectionElement [] 7 [{ kind := .field "title" true }]]
  publicRecordId := some (.id 1)

/-- The quantity of an order is disclosed, of which nothing is shown, since that of the item is
sent. -/
theorem not_disclosesExactly_itemPage :
    ¬itemPage.DisclosesExactly countedShop (fun _ => none) { tables := looseItem } := by
  intro exact_
  have isField : countedShop.IsField 0 "quantity" := ⟨countedOrders, rfl, by decide⟩
  obtain ⟨⟨rootId, bindings, isRoot, flat, displays⟩, _⟩ := (exact_ _ rfl 0 "quantity" isField).mp
    ⟨⟨0, _⟩, mem_cons_of_mem _ mem_cons_self, rfl, by decide⟩
  cases isRoot
  cases flat
  cases displays with
  | root isRoot shown => cases isRoot
  | «section» binding member isEntity shown =>
    cases mem_singleton.mp member
    exact absurd shown (by decide)
  | rows binding member isEntity shown => cases mem_singleton.mp member
  | column binding member column isColumn isEntity shown => cases mem_singleton.mp member

end RedArchKM.Forms
