import RedArchKM.Forms.EditableFields

/-!
# The writes of a submission change what the form allows

One lemma for each write: a section, a related column, a row, the rows of a container, and a
container. Each keeps `Changes`, for a payload that spares the read-only tables, and so does the
submission (`changes_applySubmit`).
-/

namespace RedArchKM.Forms

open Lib List Option
open Lib.Fallible (Ensures bind_eq_ok)
open Lib.Query (Row)
open Records (Public)

variable {ν ε : Type}

namespace Filling

variable {fill : Filling ν ε} {payload : FormSubmit ν} {entityId : Nat} {store : Store ν}

/-- The record shows the stored links of the target, or the time where a timestamp stands for one. -/
def RootRecord (fill : Filling ν ε) (record : Public ν) : Prop :=
  ∃ stored ∈ fill.initial fill.rootId, fill.site.isRow fill.targetId stored = true ∧
    ∀ slug, fill.Relates fill.rootId slug →
      valueOf record slug = fill.site.valueIn fill.rootId slug stored ∨
        valueOf record slug = some fill.site.now

theorem asUuid_ok {text : String} {id : ν} (parsed : fill.site.asUuid text = .ok id) :
    fill.site.env.python.uuid text = some id := by
  unfold Site.asUuid at parsed
  split at parsed
  · rename_i found isFound
    rw [isFound, Except.ok.inj parsed]
  · cases parsed

theorem not_isRow_fresh (fresh : fill.FreshIds payload) {stored : Row String ν}
    (member : stored ∈ fill.initial entityId) {n : Nat} {P : Prop}
    (isRow : fill.site.isRow (fill.site.ids n) stored = true) : P := by
  rw [fresh.unused n entityId stored member] at isRow
  cases isRow

variable (plain : fill.Plain payload) (fresh : fill.FreshIds payload)
include plain fresh

theorem Changes.writeSection {binding : SectionBinding ε} {relSlug : String} {record : Public ν}
    (changes : fill.Changes payload store.tables) (isOpen : fill.Open (.ofSection binding))
    (member : .ofSection binding ∈ fill.bindings.containers)
    (isRel : fill.site.relSlug binding.relId = some relSlug) (root : fill.RootRecord record) :
    Ensures (fun after => fill.Changes payload after.tables)
      (fill.site.writeSection binding relSlug fill.rootId fill.targetId record
        (fill.site.relatedTo payload binding.relId) store) := by
  obtain ⟨target, stored, isTarget, shows⟩ := root
  refine .bind fun values sent => .bind fun repo _ => ?_
  split
  · rename_i linked isLinked
    refine .bind fun linkedId isId => .bind fun current _ => ?_
    have parsed := asUuid_ok isId
    have isStored : fill.site.valueIn fill.rootId relSlug target = some linked := by
      rcases shows relSlug (.target member isRel) with same | isNow
      · exact same.symm.trans isLinked
      · rw [isLinked] at isNow
        rw [isNow, fresh.nowIsNoId] at parsed
        cases parsed
    dsimp only
    split
    · exact .pure changes
    · refine .bind fun result isResult => .pure ?_
      refine changes.updateRecord fresh ?_ ?_ result isResult
      · intro row _ isRow entry isEntry
        have set := Site.mem_patchOf fill.site isEntry
        exact .inl ⟨.linked isOpen isRel stored isTarget ⟨linked, linkedId, isStored, parsed, isRow⟩
          (Site.written_of_setBy set), .linked isOpen sent set⟩
      · intro _ entry isEntry
        exact .inl (.linked isOpen (Site.written_of_setBy (Site.mem_patchOf fill.site isEntry)))
  · rename_i isUnlinked
    have unlinked : fill.site.valueIn fill.rootId relSlug target = none := by
      rcases shows relSlug (.target member isRel) with same | isNow
      · exact same.symm.trans isUnlinked
      · cases isUnlinked.symm.trans isNow
    dsimp only
    split
    · exact .pure changes
    · refine .bind fun created isCreated => ?_
      refine .bind fun result isResult => .pure ?_
      have isNew : valueOf created.1 "id" = some (fill.site.ids store.drawn) := by
        refine Site.valueOf_created fresh.noneIsNoId isCreated fun entry isEntry isId => ?_
        refine plain.noId binding.entityId (isId ▸ ?_)
        exact .linked isOpen isRel stored isTarget unlinked sent
          (Site.mem_newValues fill.site isEntry)
      have grown := changes.createRecord fresh (fun entry isEntry =>
        .inl (.linked isOpen (Site.written_of_setBy (Site.mem_newValues fill.site isEntry))))
        created isCreated
      refine grown.updateRecord fresh ?_ ?_ result isResult
      · intro row _ isRow entry isEntry
        obtain rfl := mem_singleton.mp isEntry
        exact .inr ⟨.target isOpen isRel isRow, store.drawn, isNew⟩
      · rintro ⟨row, isNewRow, isRow⟩
        rw [isNewRow.isRow_eq_false fresh.notTarget] at isRow
        cases isRow

/-- What the form knows of a row whose links it follows: the stored rows of its id point at the
target, and its links are theirs, lead to new records, or are no ids. -/
structure Child (fill : Filling ν ε) (binding : RowsBinding ε) (childId : ν)
    (current : Option (Public ν)) : Prop where
  owns : ∀ stored ∈ fill.initial binding.entityId, fill.site.isRow childId stored = true →
    fill.Owns binding stored
  links : ∀ slug, fill.Relates binding.entityId slug → ∀ value,
    (current.bind fun record => valueOf record slug) = some value →
      fill.Fresh (some value) ∨ value = fill.site.now ∨
        ∃ stored ∈ fill.initial binding.entityId, fill.Owns binding stored ∧
          fill.site.valueIn binding.entityId slug stored = some value

variable {binding : RowsBinding ε} {childId : ν} {current : Option (Public ν)}

omit plain in
/-- **A link to a stored row was stored.** -/
theorem Child.exists_link (child : fill.Child binding childId current) {slug : String}
    (relates : fill.Relates binding.entityId slug) {value linkedId : ν}
    (isValue : (current.bind fun record => valueOf record slug) = some value)
    (parsed : fill.site.env.python.uuid (fill.site.env.python.str (some value)) = some linkedId)
    {linked : Row String ν} (isStored : linked ∈ fill.initial entityId)
    (isRow : fill.site.isRow linkedId linked = true) :
    ∃ stored ∈ fill.initial binding.entityId, fill.Owns binding stored ∧
      fill.site.valueIn binding.entityId slug stored = some value := by
  rcases child.links slug relates value isValue with ⟨n, isFresh⟩ | isNow | exists_stored
  · rw [isFresh, fresh.parsed n] at parsed
    cases parsed
    exact not_isRow_fresh fresh isStored isRow
  · rw [isNow, fresh.nowIsNoId] at parsed
    cases parsed
  · exact exists_stored

section

variable {row : SentRow ν} (changes : fill.Changes payload store.tables)
  (isOpen : fill.Open (.ofRows binding)) (member : .ofRows binding ∈ fill.bindings.containers)
  (isSent : row ∈ fill.site.sentRows payload binding.relId)
  (concerned : fill.Concerned binding row) (child : fill.Child binding childId current)

include changes isOpen member isSent concerned child

theorem Changes.writeRelatedCol {column : RelatedColBinding}
    (isColumn : column ∈ binding.relatedCols) :
    Ensures (fun after => fill.Changes payload after.tables)
      (fill.site.writeRelatedCol binding.entityId childId current row store column) := by
  unfold Site.writeRelatedCol
  split
  · exact .pure changes
  · rename_i slug isRel
    split
    · exact .pure changes
    · rename_i isEditable
      have editable : column.editable = true := by simpa using isEditable
      refine .bind fun data isRead => ?_
      unfold Site.writeCell
      dsimp only
      split
      · exact .pure changes
      · rename_i isFilled
        have filled : cleaned [column.slug] data.values ≠ [] := fun empty => isFilled (by simp [empty])
        have isSlug : ∀ entry ∈ cleaned [column.slug] data.values, entry.1 = column.slug :=
          fun entry isEntry => mem_singleton.mp (Site.mem_cleaned isEntry)
        have mayCreate : ∀ entry ∈ cleaned [column.slug] data.values,
            fill.MayCreate column.entityId entry.1 := by
          intro entry isEntry
          rw [isSlug entry isEntry]
          exact .related isOpen isColumn editable
        refine .bind fun repo _ => ?_
        split
        · rename_i isLinked
          simp only [Bool.and_eq_true, decide_eq_true_eq] at isLinked
          obtain ⟨⟨_, isSome⟩, isText⟩ := isLinked
          obtain ⟨value, isValue⟩ := isSome_iff_exists.mp isSome
          rw [isValue] at isText
          refine .bind fun linkedId isId => .bind fun result isResult => .pure ?_
          have parsed := asUuid_ok isId
          rw [isText] at parsed
          refine changes.updateRecord fresh ?_ ?_ result isResult
          · intro linked isStored isRow entry isEntry
            obtain ⟨stored, isChild, owns, links⟩ := child.exists_link fresh
              (.related member isColumn editable isRel) isValue parsed isStored isRow
            rw [TakesKept, isSlug entry isEntry]
            exact .inl ⟨.related isOpen isColumn editable isRel isChild owns
              ⟨value, linkedId, links, parsed, isRow⟩,
              .related isOpen isSent concerned isColumn editable isRead filled⟩
          · intro _ entry isEntry
            exact .inl (mayCreate entry isEntry)
        · refine .bind fun created isCreated => ?_
          refine .bind fun result isResult => .pure ?_
          have isNew : valueOf created.1 "id" = some (fill.site.ids store.drawn) := by
            refine Site.valueOf_created fresh.noneIsNoId isCreated fun entry isEntry isId => ?_
            refine plain.noId column.entityId (isId ▸ isSlug entry isEntry ▸ ?_)
            exact .related isOpen isSent concerned isColumn editable isRead filled
          have grown := changes.createRecord fresh
            (fun entry isEntry => .inl (mayCreate entry isEntry)) created isCreated
          refine grown.updateRecord fresh ?_ ?_ result isResult
          · intro stored isStored isRow entry isEntry
            obtain rfl := mem_singleton.mp isEntry
            exact .inr ⟨.row isOpen (child.owns stored isStored isRow) isColumn editable isRel,
              store.drawn, isNew⟩
          · intro _ entry isEntry
            obtain rfl := mem_singleton.mp isEntry
            exact .inr (.inr ⟨.row isOpen isColumn editable isRel, store.drawn, isNew⟩)

theorem Changes.foldlM_related : Ensures (fun after => fill.Changes payload after.tables)
    (binding.relatedCols.foldlM
      (fill.site.writeRelatedCol binding.entityId childId current row) store) :=
  Ensures.foldlM changes fun _ isColumn _ kept =>
    kept.writeRelatedCol plain fresh isOpen member isSent concerned child isColumn

end

omit plain fresh in
theorem open_or_locked {container : Container ε} (member : container ∈ fill.bindings.containers) :
    fill.Open container ∨ ∃ element ∈ walkAll fill.form.elements, element.locked = true ∧
      bindContainer fill.site.rels element = some (some container) := by
  obtain ⟨element, isElement, isBound⟩ := exists_element_of_container fill.flat member
  cases isLocked : element.locked with
  | false => exact .inl ⟨element, isElement, isLocked, isBound⟩
  | true => exact .inr ⟨element, isElement, isLocked, isBound⟩

omit plain fresh in
theorem open_ofSection {binding : SectionBinding ε}
    (member : .ofSection binding ∈ fill.bindings.containers) : fill.Open (.ofSection binding) := by
  rcases open_or_locked member with isOpen | ⟨element, _, isLocked, isBound⟩
  · exact isOpen
  · cases element with
    | tableElement gate table =>
      obtain ⟨rows, _, same⟩ := map_eq_some_iff.mp isBound
      cases same
    | leafElement leaf => cases isLocked
    | sectionElement gate relationshipId elements => cases isLocked
    | blockElement gate anchorRelationshipId elements => cases isLocked
    | layoutElement gate children => cases isLocked

omit plain fresh in
theorem open_of_concerned (spares : fill.Spares payload) {binding : RowsBinding ε}
    (member : .ofRows binding ∈ fill.bindings.containers) {row : SentRow ν}
    (isSent : row ∈ fill.site.sentRows payload binding.relId)
    (concerned : fill.Concerned binding row) : fill.Open (.ofRows binding) := by
  rcases open_or_locked member with isOpen | ⟨element, isElement, isLocked, isBound⟩
  · exact isOpen
  · exact absurd concerned (spares element isElement isLocked binding isBound row isSent)

/-- **A row that points at the target is a stored one that did so before.** -/
theorem Changes.exists_owned (changes : fill.Changes payload store.tables)
    (member : .ofRows binding ∈ fill.bindings.containers) {id : ν}
    (notNew : ∀ n, fill.site.env.engine.equal (fill.site.ids n) id = false) {row : Row String ν}
    (isStored : row ∈ store.tables binding.entityId) (isRow : fill.site.isRow id row = true)
    (owns : fill.Owns binding row) :
    ∃ stored ∈ fill.initial binding.entityId, fill.site.isRow id stored = true ∧
      fill.Owns binding stored ∧ fill.KeptRow payload binding.entityId stored row := by
  rcases changes.row_cases isStored with ⟨stored, isInitial, kept⟩ | new
  · exact ⟨stored, isInitial, kept.isRow.symm.trans isRow, kept.owns plain fresh member owns, kept⟩
  · rw [new.isRow_eq_false notNew] at isRow
    cases isRow

section

variable (keyed : fill.Keyed) (spares : fill.Spares payload)
  (changes : fill.Changes payload store.tables)

include keyed spares changes

theorem Changes.writeSentRow {relSlug : String} {row : SentRow ν}
    (member : .ofRows binding ∈ fill.bindings.containers)
    (isRel : fill.site.relSlug binding.relId = some relSlug)
    (isSent : row ∈ fill.site.sentRows payload binding.relId) :
    Ensures (fun after => fill.Changes payload after.tables)
      (fill.site.writeSentRow binding relSlug fill.targetId store row) := by
  unfold Site.writeSentRow
  split
  · rename_i given isGiven
    refine .bind fun childId isId => .bind fun found isFound => ?_
    have parsed : fill.site.idOf row = some childId := by
      rw [Site.idOf, isGiven]
      exact asUuid_ok isId
    split
    · exact .pure changes
    · rename_i existing
      split
      · exact .pure changes
      · rename_i points
        obtain ⟨old, isOld, isHit, rfl⟩ := Site.getRecord_some isFound
        have owns : fill.Owns binding old := ⟨relSlug, isRel, of_not_not points⟩
        obtain ⟨stored, isStored, isRow, ownsStored, kept⟩ := changes.exists_owned plain fresh member
          (fun n => fresh.notNamed binding.relId row isSent childId n parsed) isOld isHit owns
        have concerned : fill.Concerned binding row :=
          .inr ⟨childId, parsed, stored, isStored, isRow, ownsStored⟩
        have isOpen := open_of_concerned spares member isSent concerned
        have child : fill.Child binding childId (some (fill.site.publicOf binding.entityId old)) := by
          refine ⟨fun other isOther isToo => ?_, fun slug relates value isValue => ?_⟩
          · rwa [← keyed binding.entityId childId stored isStored other isOther isRow isToo]
          · have isLink : fill.site.valueIn binding.entityId slug old = some value := isValue
            rcases kept.valueIn plain relates with same | isFresh | isNow
            · exact .inr (.inr ⟨stored, isStored, ownsStored, same.symm.trans isLink⟩)
            · rw [isLink] at isFresh
              exact .inl isFresh
            · exact .inr (.inl (some.inj (isLink.symm.trans isNow)))
        refine .bind fun result isResult => ?_
        refine Changes.foldlM_related plain fresh ?_ isOpen member isSent concerned child
        refine changes.updateRecord fresh ?_ ?_ result isResult
        · intro other isOther isToo entry isEntry
          have set := Site.mem_patchOf fill.site isEntry
          exact .inl ⟨.row isOpen (child.owns other isOther isToo) (Site.written_of_setBy set),
            .row isOpen isSent concerned set⟩
        · intro _ entry isEntry
          exact .inl (.row isOpen (Site.written_of_setBy (Site.mem_patchOf fill.site isEntry)))
  · rename_i isNew
    have concerned : fill.Concerned binding row := .inl isNew
    have isOpen := open_of_concerned spares member isSent concerned
    have takes : ∀ entry ∈ overlaid [(relSlug, some fill.targetId)]
        (fill.site.newValues binding.fields row.values),
        entry.1 ∈ binding.fields.setBy row.values ∨ entry = (relSlug, some fill.targetId) := by
      intro entry isEntry
      rcases mem_overlaid isEntry with isAnchor | isValue
      · exact .inr (mem_singleton.mp isAnchor)
      · exact .inl (Site.mem_newValues fill.site isValue)
    refine .bind fun created isCreated => .bind fun childId isId => ?_
    have grown : fill.Changes payload created.2.tables := by
      refine changes.createRecord fresh (fun entry isEntry => ?_) created isCreated
      rcases takes entry isEntry with set | rfl
      · exact .inl (.row isOpen (Site.written_of_setBy set))
      · exact .inr (.inl ⟨.row isOpen isRel, rfl⟩)
    by_cases links : binding.relatedCols = []
    · rw [links]
      exact .pure grown
    · have isDrawn : valueOf created.1 "id" = some (fill.site.ids store.drawn) := by
        refine Site.valueOf_created fresh.noneIsNoId isCreated fun entry isEntry isEntryId => ?_
        refine plain.noId binding.entityId (isEntryId ▸ .row isOpen isRel isSent isNew links ?_)
        exact (takes entry isEntry).symm.imp_left (congrArg Prod.fst)
      rw [isDrawn] at isId
      cases (asUuid_ok isId).symm.trans (fresh.parsed store.drawn)
      refine Changes.foldlM_related plain fresh grown isOpen member isSent concerned ?_
      exact ⟨fun stored isStored isRow => not_isRow_fresh fresh isStored isRow, nofun⟩

theorem Changes.writeRows {relSlug : String} (member : .ofRows binding ∈ fill.bindings.containers)
    (isRel : fill.site.relSlug binding.relId = some relSlug) {rows : List (Option ν)}
    (areRows : fill.site.rowsOf (fill.site.relatedTo payload binding.relId) = .ok rows) :
    Ensures (fun after => fill.Changes payload after.tables)
      (fill.site.writeRows binding relSlug fill.targetId rows store) := by
  intro after written
  unfold Site.writeRows at written
  split at written
  · cases written
  · rename_i withinLimit
    obtain ⟨repo, _, looped⟩ := bind_eq_ok.mp written
    obtain ⟨sent, areRead⟩ := Fallible.exists_mapM_of_foldlM_bind looped
    replace looped := (Fallible.foldlM_bind_of_mapM areRead).symm.trans looped
    have sentRows : fill.site.sentRows payload binding.relId = sent := by
      unfold Site.sentRows Site.readRows
      rw [areRows]
      change (if rows.length > maxSectionRows then _ else _ : Except _ _).toOption.getD [] = sent
      rw [if_neg withinLimit, areRead]
      rfl
    refine Ensures.foldlM (P := fun later => fill.Changes payload later.tables) changes
      (fun row isSent middle kept => ?_) after looped
    exact kept.writeSentRow plain fresh keyed spares member isRel (sentRows ▸ isSent)

theorem Changes.writeContainer {record : Public ν} {container : Container ε}
    (member : container ∈ fill.bindings.containers) (root : fill.RootRecord record) :
    Ensures (fun after => fill.Changes payload after.tables)
      (fill.site.writeContainer fill.rootId fill.targetId record payload store container) := by
  cases container with
  | ofSection binding =>
    unfold Site.writeContainer
    dsimp only
    split
    · exact .pure changes
    · rename_i slug isRel
      exact changes.writeSection plain fresh (open_ofSection member) member isRel root
  | ofRows binding =>
    unfold Site.writeContainer
    dsimp only
    split
    · exact .pure changes
    · rename_i slug isRel
      exact .bind fun rows areRows =>
        changes.writeRows plain fresh keyed spares member isRel areRows

end

theorem rootRecord_updated {entries : List (String × Option ν)} {record : Public ν}
    {after : Store ν} (isInitial : store.tables = fill.initial)
    (set : ∀ entry ∈ entries, entry.1 ∈ fill.bindings.root.setBy payload.values)
    (updated : fill.site.updateRecord fill.rootId fill.targetId entries store =
      .ok (some record, after)) : fill.RootRecord record ∧ fill.Changes payload after.tables := by
  have changes : fill.Changes payload store.tables := isInitial ▸ changes_initial
  constructor
  · obtain ⟨cells, isCell, isRecord, _⟩ := Site.updateRecord_ok updated
    obtain ⟨row, isFound, rfl⟩ := map_eq_some_iff.mp isRecord.symm
    refine ⟨row, isInitial ▸ mem_of_find?_eq_some isFound, find?_some isFound,
      fun slug relates => ?_⟩
    change fill.site.valueIn fill.rootId slug (Query.assign row cells) = _ ∨
      fill.site.valueIn fill.rootId slug (Query.assign row cells) = _
    rcases Site.valueIn_cases fill.site fill.rootId slug with
      ⟨column, isColumn, shows⟩ | empty | ⟨isBase, shows⟩
    · left
      rw [shows, shows]
      refine Query.assign_of_ne fun cell member => ?_
      rintro rfl
      rcases isCell cell member with ⟨entry, isEntry, found, _⟩ | isStamp
      · obtain rfl := Site.columnOf_inj isColumn found
        exact plain.apart _ _ (.target (set entry isEntry)) relates
      · rw [isStamp] at isColumn
        exact Site.columnOf_not_base isColumn (by simp [Records.baseColumns])
    · exact .inl (by rw [empty, empty])
    · rw [shows, shows]
      exact PatchCells.stamp isCell isBase row
  · refine changes.updateRecord fresh ?_ ?_ _ updated
    · intro stored _ isRow entry isEntry
      have isSet := set entry isEntry
      exact .inl ⟨.target isRow (Site.written_of_setBy isSet), .target isSet⟩
    · rintro ⟨row, isNewRow, isRow⟩
      rw [isNewRow.isRow_eq_false fresh.notTarget] at isRow
      cases isRow

/-- **A submission changes what the form allows**, if it spares the read-only tables. -/
theorem changes_applySubmit (keyed : fill.Keyed) (spares : fill.Spares payload)
    (isInitial : store.tables = fill.initial) :
    Ensures (fun after => fill.Changes payload after.tables)
      (fill.site.applySubmit fill.form fill.targetId payload store) := by
  unfold Site.applySubmit
  rw [fill.flat]
  refine .bind fun current _ => ?_
  split
  · exact .error _
  · refine .bind fun result isUpdated => ?_
    obtain ⟨updated, middle⟩ := result
    dsimp only
    split
    · exact .error _
    · rename_i record
      obtain ⟨root, changes⟩ := rootRecord_updated plain fresh isInitial
        (fun entry isEntry => Site.mem_patchOf fill.site isEntry) isUpdated
      exact Ensures.foldlM changes fun container member later kept =>
        kept.writeContainer plain fresh keyed spares member root

end Filling

end RedArchKM.Forms
