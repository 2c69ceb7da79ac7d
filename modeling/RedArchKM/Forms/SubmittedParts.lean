import RedArchKM.Forms.AllowedWrites

/-!
# The parts of a submission that count

Of a payload count the values of the written fields of the target and of the records that the
sections link, and the rows that are new or belong to the target, of each the written fields and the
editable related columns (`Agree`). Two payloads that agree on these have the same outcome, if for
each container they send the same or neither is refused for what it sends (`ReadAlike`).
-/

namespace RedArchKM.Forms

open Lib List
open Lib.Fallible (Ensures bind_eq_ok)
open Lib.Query (Row)
open Records (Public)

variable {ν ε : Type}

/-! ## Parts of a row -/

structure RowPart (ν : Type) where
  id : Option ν
  values : List (String × Option ν)
  related : List (Option (Option String × List (String × Option ν)))

namespace Site

variable (site : Site ν ε)

/-- What counts of what a row carries for a column: nothing, or the text of an id and the value of
the column. -/
def dataPart (column : RelatedColBinding) (data : SentCell ν) :
    Option (Option String × List (String × Option ν)) :=
  let clean := cleaned [column.slug] data.values
  if clean.isEmpty then none
  else some (data.id.map fun given => site.env.python.str (some given), clean)

def cellPart (row : SentRow ν) (column : RelatedColBinding) :
    Option (Option String × List (String × Option ν)) :=
  if !column.editable then none
  else (site.readCell row.related column.relId).toOption.bind (site.dataPart column)

def rowPart (binding : RowsBinding ε) (row : SentRow ν) : RowPart ν where
  id := site.idOf row
  values := cleaned binding.fields.writeSlugs row.values
  related := binding.relatedCols.map (site.cellPart row)

def CellReads (row : SentRow ν) (column : RelatedColBinding) : Prop :=
  column.editable = true → (site.relSlug column.relId).isSome →
    ∃ data, site.readCell row.related column.relId = .ok data

def IdReads (row : SentRow ν) : Prop :=
  row.id = none ∨ (site.idOf row).isSome

variable {site}

variable {values values' : List (String × Option ν)}

theorem patchOf_congr {fields : FieldBinding ε} {current : Public ν}
    (same : cleaned fields.writeSlugs values = cleaned fields.writeSlugs values') :
    site.patchOf fields current values = site.patchOf fields current values' := by
  unfold patchOf
  rw [same]

theorem newValues_congr {fields : FieldBinding ε}
    (same : cleaned fields.writeSlugs values = cleaned fields.writeSlugs values') :
    site.newValues fields values = site.newValues fields values' := by
  unfold newValues
  rw [same]

variable {store : Store ν}

theorem writeSection_congr {binding : SectionBinding ε} {relSlug : String} {rootEntityId : Nat}
    {rootId : ν} {record : Public ν} {data data' : Option ν}
    (isRead : site.sectionValues data = .ok values)
    (isRead' : site.sectionValues data' = .ok values')
    (same : cleaned binding.fields.writeSlugs values = cleaned binding.fields.writeSlugs values') :
    site.writeSection binding relSlug rootEntityId rootId record data store =
      site.writeSection binding relSlug rootEntityId rootId record data' store := by
  unfold writeSection
  rw [isRead, isRead']
  change (site.repo binding.entityId >>= _) = (site.repo binding.entityId >>= _)
  simp only [patchOf_congr same, newValues_congr same]

section Columns

variable {childEntityId : Nat} {childId : ν} {current : Option (Public ν)}
  {column : RelatedColBinding}

theorem writeCell_congr {slug : String} {data data' : SentCell ν}
    (same : site.dataPart column data = site.dataPart column data') :
    site.writeCell childEntityId childId current column slug data store =
      site.writeCell childEntityId childId current column slug data' store := by
  unfold dataPart at same
  unfold writeCell
  dsimp only at same ⊢
  split at same <;> split at same
  · rename_i isEmpty isEmpty'
    rw [if_pos isEmpty, if_pos isEmpty']
  · cases same
  · cases same
  · rename_i isFilled isFilled'
    obtain ⟨isId, isClean⟩ := Prod.mk.inj (Option.some.inj same)
    rw [if_neg isFilled, if_neg isFilled', isClean]
    cases given : data.id with
    | none =>
      rw [given] at isId
      rw [Option.map_eq_none_iff.mp isId.symm]
    | some id =>
      rw [given] at isId
      obtain ⟨id', given', isText⟩ := Option.map_eq_some_iff.mp isId.symm
      rw [given', isText]
      rfl

theorem writeRelatedCol_congr {row row' : SentRow ν} (reads : site.CellReads row column)
    (reads' : site.CellReads row' column)
    (same : site.cellPart row column = site.cellPart row' column) :
    site.writeRelatedCol childEntityId childId current row store column =
      site.writeRelatedCol childEntityId childId current row' store column := by
  unfold writeRelatedCol
  cases isRel : site.relSlug column.relId with
  | none => rfl
  | some slug =>
    cases editable : column.editable with
    | false => rfl
    | true =>
      obtain ⟨data, isRead⟩ := reads editable (by rw [isRel]; rfl)
      obtain ⟨data', isRead'⟩ := reads' editable (by rw [isRel]; rfl)
      unfold cellPart at same
      rw [isRead, isRead', editable] at same
      rw [isRead, isRead']
      exact writeCell_congr same

end Columns

/-- **Rows of which the same counts are written alike.** -/
theorem writeSentRow_congr {binding : RowsBinding ε} {relSlug : String} {rootId : ν}
    {row row' : SentRow ν} (idReads : site.IdReads row) (idReads' : site.IdReads row')
    (reads : ∀ column ∈ binding.relatedCols, site.CellReads row column)
    (reads' : ∀ column ∈ binding.relatedCols, site.CellReads row' column)
    (same : site.rowPart binding row = site.rowPart binding row') :
    site.writeSentRow binding relSlug rootId store row =
      site.writeSentRow binding relSlug rootId store row' := by
  obtain ⟨isId, isValues, isRelated⟩ := RowPart.mk.inj same
  have related (childId : ν) (current : Option (Public ν)) (start : Store ν) :
      binding.relatedCols.foldlM
          (site.writeRelatedCol binding.entityId childId current row) start =
        binding.relatedCols.foldlM
          (site.writeRelatedCol binding.entityId childId current row') start :=
    Ensures.foldlM_congr (P := fun _ => True) trivial (fun _ _ _ _ _ _ => trivial)
      fun column isColumn _ _ => writeRelatedCol_congr (reads column isColumn)
        (reads' column isColumn) (map_inj_left.mp isRelated column isColumn)
  unfold writeSentRow
  simp only [patchOf_congr isValues, newValues_congr isValues, related]
  cases given : row.id with
  | none =>
    cases given' : row'.id with
    | none => rfl
    | some id' =>
      rw [IdReads, ← isId, idOf, given, given'] at idReads'
      simp at idReads'
  | some id =>
    have parsed : (site.idOf row).isSome := idReads.resolve_left (by simp [given])
    cases given' : row'.id with
    | none =>
      rw [isId, idOf, given'] at parsed
      cases parsed
    | some id' =>
      obtain ⟨childId, isChild⟩ := Option.isSome_iff_exists.mp parsed
      have isChild' := isId.symm.trans isChild
      have asUuid_same : site.asUuid (site.env.python.str (some id)) =
          site.asUuid (site.env.python.str (some id')) := by
        rw [idOf, given, Option.bind_some] at isChild
        rw [idOf, given', Option.bind_some] at isChild'
        unfold asUuid
        rw [isChild, isChild']
      dsimp only
      rw [asUuid_same]

end Site

/-! ## Payloads -/

def Site.sentValues (site : Site ν ε) (payload : FormSubmit ν) (relId : Nat) :
    List (String × Option ν) :=
  (site.sectionValues (site.relatedTo payload relId)).toOption.getD []

namespace Filling

variable (fill : Filling ν ε)

open Classical in
/-- The rows of a payload that are new or belong to the target. -/
noncomputable def concernedRows (binding : RowsBinding ε) (payload : FormSubmit ν) :
    List (SentRow ν) :=
  (fill.site.sentRows payload binding.relId).filter fun row => fill.Concerned binding row

/-- The payloads agree on what the form lets the filler edit. -/
structure Agree (payload payload' : FormSubmit ν) : Prop where
  root : cleaned fill.bindings.root.writeSlugs payload.values =
    cleaned fill.bindings.root.writeSlugs payload'.values
  sections : ∀ binding, fill.Open (.ofSection binding) →
    cleaned binding.fields.writeSlugs (fill.site.sentValues payload binding.relId) =
      cleaned binding.fields.writeSlugs (fill.site.sentValues payload' binding.relId)
  rows : ∀ binding, fill.Open (.ofRows binding) →
    (fill.concernedRows binding payload).map (fill.site.rowPart binding) =
      (fill.concernedRows binding payload').map (fill.site.rowPart binding)

/-- What is sent for the rows reads: they are not too many, their ids are ids, and so does what the
rows that concern the target carry for related columns. -/
structure RowsRead (binding : RowsBinding ε) (data : Option ν) (rows : List (SentRow ν)) : Prop where
  read : fill.site.readRows data = .ok rows
  ids : ∀ row ∈ rows, fill.site.IdReads row
  cells : ∀ row ∈ rows, fill.Concerned binding row → ∀ column ∈ binding.relatedCols,
    fill.site.CellReads row column

/-- For the container, the payloads send the same, or what both send reads. -/
def ReadsAlike (payload payload' : FormSubmit ν) : Container ε → Prop
  | .ofSection binding =>
    fill.site.relatedTo payload binding.relId = fill.site.relatedTo payload' binding.relId ∨
      (∃ values, fill.site.sectionValues (fill.site.relatedTo payload binding.relId) = .ok values) ∧
        ∃ values, fill.site.sectionValues (fill.site.relatedTo payload' binding.relId) = .ok values
  | .ofRows binding =>
    fill.site.relatedTo payload binding.relId = fill.site.relatedTo payload' binding.relId ∨
      (∃ rows, fill.RowsRead binding (fill.site.relatedTo payload binding.relId) rows) ∧
        ∃ rows, fill.RowsRead binding (fill.site.relatedTo payload' binding.relId) rows

/-- Neither payload is refused for what it sends where the other may not be. -/
def ReadAlike (payload payload' : FormSubmit ν) : Prop :=
  ∀ container ∈ fill.bindings.containers, fill.ReadsAlike payload payload' container

variable {fill} {payload payload' : FormSubmit ν} {store : Store ν}

open Classical in
theorem Agree.rows_of_spares (agree : fill.Agree payload payload') (spares : fill.Spares payload)
    (spares' : fill.Spares payload') {binding : RowsBinding ε}
    (member : .ofRows binding ∈ fill.bindings.containers) :
    (fill.concernedRows binding payload).map (fill.site.rowPart binding) =
      (fill.concernedRows binding payload').map (fill.site.rowPart binding) := by
  by_cases isOpen : fill.Open (.ofRows binding)
  · exact agree.rows binding isOpen
  · have empty {sent : FormSubmit ν} (spared : fill.Spares sent) :
        fill.concernedRows binding sent = [] := by
      refine filter_eq_nil_iff.mpr fun row isSent concerned => isOpen ?_
      exact open_of_concerned spared member isSent (of_decide_eq_true concerned)
    rw [empty spares, empty spares']

variable {binding : RowsBinding ε}

variable {rows : List (SentRow ν)}

theorem RowsRead.sentRows
    (reads : fill.RowsRead binding (fill.site.relatedTo payload binding.relId) rows) :
    fill.site.sentRows payload binding.relId = rows := by
  rw [Site.sentRows, reads.read]
  rfl

open Classical in
theorem RowsRead.of_mem_concernedRows {row : SentRow ν}
    (reads : fill.RowsRead binding (fill.site.relatedTo payload binding.relId) rows)
    (member : row ∈ fill.concernedRows binding payload) :
    row ∈ rows ∧ fill.Concerned binding row := by
  unfold concernedRows at member
  rw [reads.sentRows] at member
  obtain ⟨isSent, concerned⟩ := mem_filter.mp member
  exact ⟨isSent, of_decide_eq_true concerned⟩

theorem writeRow_of_not_concerned (plain : fill.Plain payload) (fresh : fill.FreshIds payload)
    (changes : fill.Changes payload store.tables) {relSlug : String} {row : SentRow ν}
    {repo : Records.Repository ν} (member : .ofRows binding ∈ fill.bindings.containers)
    (isRel : fill.site.relSlug binding.relId = some relSlug)
    (isRepo : fill.site.repo binding.entityId = .ok repo)
    (isSent : row ∈ fill.site.sentRows payload binding.relId) (idReads : fill.site.IdReads row)
    (notConcerned : ¬fill.Concerned binding row) :
    fill.site.writeSentRow binding relSlug fill.targetId store row = .ok store := by
  obtain ⟨id, parsed⟩ := Option.isSome_iff_exists.mp
    (idReads.resolve_left fun isNew => notConcerned (.inl isNew))
  obtain ⟨given, isGiven, isUuid⟩ := Option.bind_eq_some_iff.mp parsed
  have isId : fill.site.asUuid (fill.site.env.python.str (some given)) = .ok id := by
    unfold Site.asUuid
    rw [isUuid]
    rfl
  obtain ⟨found, isFound⟩ : ∃ found, fill.site.getRecord binding.entityId id store = .ok found := by
    unfold Site.getRecord
    rw [isRepo]
    exact ⟨_, rfl⟩
  unfold Site.writeSentRow
  rw [isGiven]
  dsimp only
  rw [isId]
  change (fill.site.getRecord binding.entityId id store >>= _) = _
  rw [isFound]
  cases found with
  | none => rfl
  | some existing =>
    refine if_pos fun points => notConcerned ?_
    obtain ⟨old, isOld, isHit, rfl⟩ := Site.getRecord_some isFound
    obtain ⟨stored, isStored, isRow, owns, _⟩ := changes.exists_owned plain fresh member
      (fun n => fresh.notNamed binding.relId row isSent id n parsed) isOld isHit
      ⟨relSlug, isRel, points⟩
    exact .inr ⟨id, parsed, stored, isStored, isRow, owns⟩

open Classical in
/-- **Only the rows that concern the target count.** -/
theorem writeRows_eq (plain : fill.Plain payload) (fresh : fill.FreshIds payload)
    (keyed : fill.Keyed) (spares : fill.Spares payload)
    (changes : fill.Changes payload store.tables)
    (reads : fill.RowsRead binding (fill.site.relatedTo payload binding.relId) rows)
    {relSlug : String} (member : .ofRows binding ∈ fill.bindings.containers)
    (isRel : fill.site.relSlug binding.relId = some relSlug) :
    (do
      let rows ← fill.site.rowsOf (fill.site.relatedTo payload binding.relId)
      fill.site.writeRows binding relSlug fill.targetId rows store) =
      (do
        let _ ← fill.site.repo binding.entityId
        (fill.concernedRows binding payload).foldlM
          (fill.site.writeSentRow binding relSlug fill.targetId) store) := by
  obtain ⟨raw, areRows, read⟩ := bind_eq_ok.mp reads.read
  split at read
  · cases read
  · rename_i withinLimit
    rw [areRows]
    change fill.site.writeRows binding relSlug fill.targetId raw store = _
    unfold Site.writeRows
    rw [if_neg withinLimit]
    cases isRepo : fill.site.repo binding.entityId with
    | error failure => rfl
    | ok repo =>
      change raw.foldlM _ store = (fill.concernedRows binding payload).foldlM _ store
      refine (Fallible.foldlM_bind_of_mapM read).trans ?_
      unfold concernedRows
      rw [reads.sentRows]
      refine Ensures.foldlM_filter (P := fun after => fill.Changes payload after.tables) changes
        (fun row isSent middle kept => ?_) fun row isSent skipped middle kept => ?_
      · exact kept.writeSentRow plain fresh keyed spares member isRel (reads.sentRows.symm ▸ isSent)
      · exact writeRow_of_not_concerned plain fresh kept member isRel isRepo
          (reads.sentRows.symm ▸ isSent) (reads.ids row isSent) (of_decide_eq_false skipped)

section

variable (agree : fill.Agree payload payload') (keyed : fill.Keyed) (plain : fill.Plain payload)
  (plain' : fill.Plain payload') (fresh : fill.FreshIds payload) (fresh' : fill.FreshIds payload')
  (spares : fill.Spares payload) (spares' : fill.Spares payload')
  (alike : fill.ReadAlike payload payload')

include agree keyed plain plain' fresh fresh' spares spares' alike

theorem Agree.writeContainer {record : Public ν} {container : Container ε}
    (member : container ∈ fill.bindings.containers) (changes : fill.Changes payload store.tables)
    (changes' : fill.Changes payload' store.tables) :
    fill.site.writeContainer fill.rootId fill.targetId record payload store container =
      fill.site.writeContainer fill.rootId fill.targetId record payload' store container := by
  have reads := alike container member
  unfold Site.writeContainer
  cases container with
  | ofSection binding =>
    rcases reads with same | ⟨⟨values, read⟩, values', read'⟩
    · dsimp only
      rw [same]
    · have agrees := agree.sections binding (open_ofSection member)
      unfold Site.sentValues at agrees
      rw [read, read'] at agrees
      dsimp only
      split
      · rfl
      · exact Site.writeSection_congr read read' agrees
  | ofRows binding =>
    rcases reads with same | ⟨⟨rows, reads⟩, rows', reads'⟩
    · dsimp only
      rw [same]
    · dsimp only
      split
      · rfl
      · rename_i slug isRel
        rw [writeRows_eq plain fresh keyed spares changes reads member isRel,
          writeRows_eq plain' fresh' keyed spares' changes' reads' member isRel]
        congr 1
        funext repo
        refine Fallible.foldlM_eq_of_map_eq (agree.rows_of_spares spares spares' member) ?_
        intro row isRow row' isRow' same middle
        obtain ⟨isSent, concerned⟩ := reads.of_mem_concernedRows isRow
        obtain ⟨isSent', concerned'⟩ := reads'.of_mem_concernedRows isRow'
        exact Site.writeSentRow_congr (reads.ids row isSent) (reads'.ids row' isSent')
          (reads.cells row isSent concerned) (reads'.cells row' isSent' concerned') same

/-- **Payloads that agree have the same outcome.** -/
theorem Agree.applySubmit (isInitial : store.tables = fill.initial) :
    fill.site.applySubmit fill.form fill.targetId payload store =
      fill.site.applySubmit fill.form fill.targetId payload' store := by
  unfold Site.applySubmit
  rw [fill.flat]
  refine Ensures.bind_congr (Q := fun _ => True) (fun _ _ => trivial) fun current _ => ?_
  split
  · rfl
  · rename_i record
    have samePatch : fill.site.patchOf fill.bindings.root record payload.values =
        fill.site.patchOf fill.bindings.root record payload'.values :=
      Site.patchOf_congr agree.root
    refine samePatch ▸ ?_
    refine Ensures.bind_congr (Q := fun result => ∀ updated, result.1 = some updated →
      fill.RootRecord updated ∧ fill.Changes payload result.2.tables ∧
        fill.Changes payload' result.2.tables) ?_ ?_
    · rintro ⟨found, after⟩ isUpdated updated rfl
      obtain ⟨root, changes⟩ := rootRecord_updated plain fresh isInitial
        (fun entry isEntry => Site.mem_patchOf fill.site isEntry) isUpdated
      obtain ⟨_, changes'⟩ := rootRecord_updated plain' fresh' isInitial
        (fun entry isEntry => Site.mem_patchOf fill.site (samePatch ▸ isEntry)) isUpdated
      exact ⟨root, changes, changes'⟩
    · rintro ⟨found, after⟩ facts
      dsimp only
      split
      · rfl
      · rename_i updated
        obtain ⟨root, changes, changes'⟩ := facts updated rfl
        have sameWrite (container) (member : container ∈ fill.bindings.containers) (middle : Store ν)
            (kept : fill.Changes payload middle.tables ∧ fill.Changes payload' middle.tables) :
            fill.site.writeContainer fill.rootId fill.targetId updated payload middle container =
              fill.site.writeContainer fill.rootId fill.targetId updated payload' middle
                container :=
          agree.writeContainer keyed plain plain' fresh fresh' spares spares' alike member kept.1
            kept.2
        refine Ensures.foldlM_congr
          (P := fun later => fill.Changes payload later.tables ∧ fill.Changes payload' later.tables)
          ⟨changes, changes'⟩ (fun container member middle kept later written => ⟨?_, ?_⟩) sameWrite
        · exact kept.1.writeContainer plain fresh keyed spares member root later written
        · have written' := (sameWrite container member middle kept).symm.trans written
          exact kept.2.writeContainer plain' fresh' keyed spares' member root later written'

end

end Filling

end RedArchKM.Forms
