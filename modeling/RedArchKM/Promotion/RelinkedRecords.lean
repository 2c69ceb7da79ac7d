import RedArchKM.Promotion.RecordLinks
import RedArchKM.Records.HiddenFields

/-!
# Imported records link as the exported ones do

An export of records is a graph: a record links to another where it holds the other's id. So are the
rows of an import. If the export is closed and nothing is refused, the two are isomorphic: each record
has a row of its own, under the id that it is mapped to, and a row links to another exactly if the
records do (`relinked_importRecords`). The order of creation settles which of the two passes sets a
link, and nothing else.
-/

namespace RedArchKM.Promotion

open List Option

open Lib (Walk)
open Lib.Fallible (Ensures bind_eq_ok pure_eq_ok)
open Lib.Query (Row)
open Records (Failure Public Repository)

variable {ν : Type}

def exportedRecords (recordSets : List (RecordSet ν)) : List (String × Public ν) :=
  recordSets.flatMap fun set => set.records.map (set.entitySlug, ·)

namespace TargetOrg

/-! ## The two graphs -/

section Graphs

variable (org : TargetOrg ν) (entities : List BundledEntity)

/-- The record's relationship points to the other record. -/
def LinksTo (item : String × Public ν) (key : String) (other : String × Public ν) : Prop :=
  fkTarget entities item.1 key = some other.1 ∧
    ∃ value, (item.2.lookup key).join = some value ∧ org.idText other.2 = some (org.text value)

def RowLinksTo (row : Row String ν) (column : String) (other : Row String ν) : Prop :=
  ∃ cell id, row column = some cell ∧ other "id" = some id ∧ org.text cell = org.text id

def IsRowOf (state : RecordImport ν) (item : String × Public ν) (row : Row String ν) : Prop :=
  ∃ oldId definitionId repo i, org.repoFor entities item.1 = some (definitionId, repo) ∧
    org.idText item.2 = some oldId ∧
      state.ids.lookup (item.1, oldId) = some (org.text (org.ids i)) ∧
        row "id" = some (org.ids i) ∧
          (state.tables definitionId).filter (repo.isRecord org.env (org.ids i)) = [row]

/-- The column of the relationship in the table of the record's entity. -/
def IsColumnOf (item : String × Public ν) (key column : String) : Prop :=
  (∃ target, fkTarget entities item.1 key = some target) ∧
    ∃ definitionId repo, org.repoFor entities item.1 = some (definitionId, repo) ∧
      repo.IsLink key column

/-- The rows of the records link as the records do. -/
structure Relinked (items : List (String × Public ν)) (state : RecordImport ν) : Prop where
  rows : ∀ item ∈ items, ∃ row, org.IsRowOf entities state item row
  apart : ∀ item ∈ items, ∀ other ∈ items, ∀ row, org.IsRowOf entities state item row →
    org.IsRowOf entities state other row → item = other
  links : ∀ item ∈ items, ∀ other ∈ items, ∀ row otherRow key column,
    org.IsRowOf entities state item row → org.IsRowOf entities state other otherRow →
      org.IsColumnOf entities item key column →
        (org.LinksTo entities item key other ↔ org.RowLinksTo row column otherRow)
  nulls : ∀ item ∈ items, ∀ row key column, org.IsRowOf entities state item row →
    org.IsColumnOf entities item key column →
      ((item.2.lookup key).join = none ↔ row column = none)
  closed : ∀ item ∈ items, ∀ row key column, org.IsRowOf entities state item row →
    org.IsColumnOf entities item key column → row column ≠ none →
      ∃ other ∈ items, ∃ otherRow, org.IsRowOf entities state other otherRow ∧
        org.RowLinksTo row column otherRow

end Graphs

variable {org : TargetOrg ν} {entities : List BundledEntity}

/-! ## The records in order -/

section Order

variable {recordSets : List (RecordSet ν)}

theorem find_set (oneSet : (recordSets.map RecordSet.entitySlug).Nodup) {set : RecordSet ν}
    (isSet : set ∈ recordSets) :
    recordSets.find? (fun other => other.entitySlug = set.entitySlug) = some set := by
  obtain ⟨before, after, rfl⟩ := append_of_mem isSet
  refine find?_eq_some_iff_append.mpr
    ⟨decide_eq_true rfl, before, after, rfl, fun other isBefore => ?_⟩
  rw [map_append, map_cons] at oneSet
  have differ := (nodup_append.mp oneSet).2.2 _ (mem_map_of_mem isBefore) set.entitySlug
  simpa using differ

theorem set_of_find {slug : String} {set : RecordSet ν}
    (found : recordSets.find? (fun other => other.entitySlug = slug) = some set) :
    set ∈ recordSets ∧ set.entitySlug = slug := by
  have isSlug := find?_some found
  exact ⟨mem_of_find?_eq_some found, of_decide_eq_true isSlug⟩

/-- **Every record is imported**, whatever the order of the entities. -/
theorem mem_importOrder (oneSet : (recordSets.map RecordSet.entitySlug).Nodup)
    {item : String × Public ν} :
    item ∈ org.importOrder entities recordSets ↔ item ∈ exportedRecords recordSets := by
  unfold importOrder exportedRecords
  rw [mem_flatMap, mem_flatMap]
  constructor
  · rintro ⟨slug, _, isItem⟩
    cases found : recordSets.find? fun set => set.entitySlug = slug with
    | none =>
      rw [found] at isItem
      exact absurd isItem not_mem_nil
    | some set =>
      obtain ⟨isSet, rfl⟩ := set_of_find found
      rw [found] at isItem
      exact ⟨set, isSet, isItem⟩
  · rintro ⟨set, isSet, isItem⟩
    refine ⟨set.entitySlug, ?_, ?_⟩
    · exact Walk.mem_postorder.mpr (mem_map_of_mem isSet)
    · rwa [find_set oneSet isSet]

theorem nodup_importOrder (exported : Exported org entities recordSets) :
    ((org.importOrder entities recordSets).map fun item => (item.1, org.idText item.2)).Nodup := by
  unfold importOrder
  rw [map_flatMap]
  refine nodup_flatMap.mpr ⟨fun slug _ => ?_, ?_⟩
  · cases found : recordSets.find? fun set => set.entitySlug = slug with
    | none => exact nodup_nil
    | some set =>
      have idsOfSet := exported.ids set (set_of_find found).1
      rw [List.map_map]
      refine Nodup.of_map Prod.snd ?_
      rwa [List.map_map]
  · refine Walk.nodup_postorder.imp fun {slug other} differ => ?_
    intro key isFirst isSecond
    obtain ⟨item, isItem, rfl⟩ := mem_map.mp isFirst
    obtain ⟨item', isItem', same⟩ := mem_map.mp isSecond
    obtain ⟨_, _, rfl⟩ := mem_map.mp isItem
    obtain ⟨_, _, rfl⟩ := mem_map.mp isItem'
    exact differ (Prod.mk.inj same).1.symm

end Order

/-! ## Quiet runs -/

theorem warnings_importRecord (state : RecordImport ν) (item : String × Public ν) :
    Ensures (fun next => state.warnings <+: next.warnings) (org.importRecord entities state item) := by
  intro next imported
  unfold importRecord at imported
  split at imported
  · cases pure_eq_ok.mp imported
    exact prefix_refl _
  · dsimp only at imported
    split at imported
    · cases pure_eq_ok.mp imported
      exact prefix_refl _
    · split at imported
      · cases pure_eq_ok.mp imported
        exact prefix_append _ _
      · cases imported

theorem warnings_linkRecord (state : RecordImport ν) (link : DeferredLink) :
    Ensures (fun next => state.warnings <+: next.warnings) (org.linkRecord entities state link) := by
  intro next linked
  unfold linkRecord at linked
  split at linked
  · split at linked
    · cases pure_eq_ok.mp linked
      exact prefix_refl _
    · split at linked
      · cases linked
      · dsimp only at linked
        split at linked
        · cases pure_eq_ok.mp linked
          exact prefix_refl _
        · split at linked
          · cases pure_eq_ok.mp linked
            exact prefix_append _ _
          · cases linked
  · cases pure_eq_ok.mp linked
    exact prefix_refl _

variable {last state : RecordImport ν}

theorem quiet_of_run {ι : Type} {step : RecordImport ν → ι → Except Failure (RecordImport ν)}
    (grow : ∀ state item, Ensures (fun next => state.warnings <+: next.warnings) (step state item))
    {items : List ι} (ran : items.foldlM step state = .ok last) (quiet : last.warnings = []) :
    state.warnings = [] := by
  have grown : state.warnings <+: last.warnings := by
    refine Ensures.foldlM (P := fun next => state.warnings <+: next.warnings)
      (prefix_refl _) (fun item _ middle within next stepped => ?_) last ran
    exact List.IsPrefix.trans within (grow middle item next stepped)
  rw [quiet] at grown
  exact prefix_nil.mp grown

/-! ## The two passes -/

theorem Progress.run_records (lawful : Lawful org) {items done : List (String × Public ν)}
    (progress : Progress org entities done state.deferred state)
    (each : ∀ item ∈ items, (∃ definitionId repo, Ready org entities item.1 definitionId repo) ∧
      (∃ oldId, org.idText item.2 = some oldId) ∧ (item.2.map Prod.fst).Nodup)
    (nodup : ((done ++ items).map fun item => (item.1, org.idText item.2)).Nodup)
    (ran : items.foldlM (org.importRecord entities) state = .ok last) (quiet : last.warnings = []) :
    Progress org entities (done ++ items) last.deferred last := by
  induction items generalizing done state with
  | nil =>
    cases pure_eq_ok.mp ran
    rwa [append_nil]
  | cons item rest ih =>
    obtain ⟨next, imported, ranRest⟩ := bind_eq_ok.mp ran
    obtain ⟨⟨definitionId, repo, ready⟩, ⟨oldId, isOld⟩, keys⟩ := each item mem_cons_self
    have quietNext := quiet_of_run warnings_importRecord ranRest quiet
    have isNew : ∀ other ∈ done, other.1 = item.1 → org.idText other.2 ≠ some oldId := by
      intro other isDone same sameId
      rw [map_append, map_cons] at nodup
      refine (nodup_append.mp nodup).2.2 _ (mem_map_of_mem isDone) _ mem_cons_self ?_
      rw [same, sameId, isOld]
    have extended := progress.importRecord lawful ready isOld keys isNew imported quietNext
    rw [append_cons] at nodup ⊢
    exact ih extended (fun other isOther => each other (mem_cons_of_mem item isOther)) nodup ranRest

/-- The second pass over the links that are still deferred, if their targets are imported. -/
theorem Progress.run_links (lawful : Lawful org) {done : List (String × Public ν)}
    (apart : Apart org done)
    (closed : ∀ item ∈ done, ∀ key target value, fkTarget entities item.1 key = some target →
      (item.2.lookup key).join = some value →
        ∃ other ∈ done, other.1 = target ∧ org.idText other.2 = some (org.text value))
    {pending : List DeferredLink} (progress : Progress org entities done pending state)
    (ran : pending.foldlM (org.linkRecord entities) state = .ok last) (quiet : last.warnings = []) :
    Progress org entities done [] last := by
  induction pending generalizing state with
  | nil =>
    cases pure_eq_ok.mp ran
    exact progress
  | cons link rest ih =>
    obtain ⟨next, linked, ranRest⟩ := bind_eq_ok.mp ran
    have quietNext := quiet_of_run warnings_linkRecord ranRest quiet
    obtain ⟨source, isDone, isSlug, _, isLink, value, isValue, isText⟩ :=
      progress.deferred link mem_cons_self
    obtain ⟨other, isOther, isTarget, otherId⟩ :=
      closed source isDone link.fkSlug link.targetSlug value (isSlug ▸ isLink) isValue
    obtain ⟨oldId, _, _, i, _, has⟩ := progress.imported other isOther
    have sameId : oldId = link.oldTargetId :=
      (some.inj (has.isOld.symm.trans otherId)).trans isText
    have isMapped := has.mapped
    rw [isTarget, sameId] at isMapped
    exact ih (progress.linkRecord lawful apart isMapped linked quietNext) ranRest

/-! ## The rows of an import that is done -/

section Rows

variable {done : List (String × Public ν)} {state : RecordImport ν}

theorem Lawful.ids_eq (lawful : Lawful org) {i j : Nat}
    (same : org.text (org.ids i) = org.text (org.ids j)) : org.ids i = org.ids j := by
  have sameId := congrArg org.env.python.uuid same
  rw [lawful.uuid_text, lawful.uuid_text] at sameId
  exact some.inj sameId

variable {item : String × Public ν}

theorem Progress.exists_row {pending : List DeferredLink}
    (progress : Progress org entities done pending state) (isDone : item ∈ done) :
    ∃ row, org.IsRowOf entities state item row := by
  obtain ⟨oldId, definitionId, repo, i, row, has⟩ := progress.imported item isDone
  exact ⟨row, oldId, definitionId, repo, i, has.ready.repoFor, has.isOld, has.mapped, has.id,
    has.isRow⟩

section

variable (lawful : Lawful org) (progress : Progress org entities done [] state)
    (isDone : item ∈ done)

include lawful progress isDone

theorem Progress.linkCell {row : Row String ν} {key column : String}
    (isRowOf : org.IsRowOf entities state item row)
    (isColumnOf : org.IsColumnOf entities item key column) :
    ∃ target, fkTarget entities item.1 key = some target ∧
      match (item.2.lookup key).join with
      | none => row column = none
      | some value => ∃ mapped, state.ids.lookup (target, org.text value) = some mapped ∧
          row column = some (org.env.python.ofText mapped) := by
  obtain ⟨oldId, definitionId, repo, i, isRepo, isOld, isMapped, _, isRow⟩ := isRowOf
  obtain ⟨⟨target, isKey⟩, definitionId', repo', isRepo', isColumn⟩ := isColumnOf
  obtain ⟨oldId', definitionId'', repo'', j, row', has⟩ := progress.imported item isDone
  cases has.ready.repoFor.symm.trans isRepo
  cases has.ready.repoFor.symm.trans isRepo'
  cases has.isOld.symm.trans isOld
  have sameRow := has.isRow
  rw [lawful.ids_eq (some.inj (has.mapped.symm.trans isMapped)), isRow] at sameRow
  obtain rfl := (List.cons.inj sameRow).1
  refine ⟨target, isKey, ?_⟩
  have isCell := has.links key column target isKey isColumn
  unfold LinkCell at isCell
  split
  · rename_i isNull
    rw [isNull] at isCell
    exact isCell
  · rename_i value isValue
    rw [isValue] at isCell
    exact isCell.resolve_right fun ⟨_, isPending⟩ => not_mem_nil isPending

theorem Progress.linksTo_iff {other : String × Public ν} {row otherRow : Row String ν}
    {key column : String} (isRowOf : org.IsRowOf entities state item row)
    (isOtherRow : org.IsRowOf entities state other otherRow)
    (isColumnOf : org.IsColumnOf entities item key column) :
    org.LinksTo entities item key other ↔ org.RowLinksTo row column otherRow := by
  obtain ⟨target, isKey, isCell⟩ := progress.linkCell lawful isDone isRowOf isColumnOf
  obtain ⟨otherId, _, _, j, _, isOther, isMapped, hasId, _⟩ := isOtherRow
  unfold LinksTo RowLinksTo
  rw [isKey, isOther, hasId]
  cases isValue : (item.2.lookup key).join with
  | none =>
    rw [isValue] at isCell
    rw [show row column = none from isCell]
    simp
  | some value =>
    rw [isValue] at isCell
    obtain ⟨mapped, isTarget, isSet⟩ := isCell
    rw [isSet]
    constructor
    · rintro ⟨sameTarget, value', isSame, sameId⟩
      cases isSame
      cases sameTarget
      refine ⟨_, _, rfl, rfl, ?_⟩
      rw [lawful.text_ofText]
      rw [← some.inj sameId] at isTarget
      exact some.inj (isTarget.symm.trans isMapped)
    · rintro ⟨cell, id, isCell, isId, sameText⟩
      cases isCell
      cases isId
      rw [lawful.text_ofText] at sameText
      rw [sameText] at isTarget
      cases progress.distinct _ _ _ isTarget isMapped
      exact ⟨rfl, value, rfl, rfl⟩

theorem Progress.null_iff {row : Row String ν} {key column : String}
    (isRowOf : org.IsRowOf entities state item row)
    (isColumnOf : org.IsColumnOf entities item key column) :
    (item.2.lookup key).join = none ↔ row column = none := by
  obtain ⟨target, _, isCell⟩ := progress.linkCell lawful isDone isRowOf isColumnOf
  cases isValue : (item.2.lookup key).join with
  | none =>
    rw [isValue] at isCell
    exact iff_of_true rfl isCell
  | some value =>
    rw [isValue] at isCell
    obtain ⟨mapped, _, isSet⟩ := isCell
    rw [isSet]
    exact iff_of_false (fun same => by cases same) fun same => by cases same

end

/-- **Records that are all imported, with no link deferred, are linked as before.** -/
theorem Progress.relinked (lawful : Lawful org)
    (closed : ∀ item ∈ done, ∀ key target value, fkTarget entities item.1 key = some target →
      (item.2.lookup key).join = some value →
        ∃ other ∈ done, other.1 = target ∧ org.idText other.2 = some (org.text value))
    (apart : Apart org done) (progress : Progress org entities done [] state) :
    org.Relinked entities done state where
  rows item isDone := progress.exists_row isDone
  apart := by
    rintro item isDone other isOther row ⟨oldId, _, _, i, _, isOld, isMapped, hasId, _⟩
      ⟨otherId, _, _, j, _, isOther', isMapped', hasId', _⟩
    have sameId : org.ids i = org.ids j := some.inj (hasId.symm.trans hasId')
    rw [← sameId] at isMapped'
    obtain ⟨sameSlug, rfl⟩ := Prod.mk.inj (progress.distinct _ _ _ isMapped isMapped')
    exact apart item isDone other isOther sameSlug (isOld.trans isOther'.symm)
  links item isDone other _ row otherRow key column isRowOf isOtherRow isColumnOf :=
    progress.linksTo_iff lawful isDone isRowOf isOtherRow isColumnOf
  nulls item isDone row key column isRowOf isColumnOf :=
    progress.null_iff lawful isDone isRowOf isColumnOf
  closed := by
    intro item isDone row key column isRowOf isColumnOf notNull
    obtain ⟨target, isKey⟩ := isColumnOf.1
    have isLinked := mt (progress.null_iff lawful isDone isRowOf isColumnOf).mp notNull
    obtain ⟨value, isValue⟩ := ne_none_iff_exists'.mp isLinked
    obtain ⟨other, isOther, rfl, otherId⟩ := closed item isDone key target value isKey isValue
    obtain ⟨otherRow, isOtherRow⟩ := progress.exists_row isOther
    exact ⟨other, isOther, otherRow, isOtherRow,
      (progress.linksTo_iff lawful isDone isRowOf isOtherRow isColumnOf).mp
        ⟨isKey, value, isValue, otherId⟩⟩

theorem Relinked.of_mem {items : List (String × Public ν)}
    (relinked : org.Relinked entities done state) (same : ∀ item, item ∈ items ↔ item ∈ done) :
    org.Relinked entities items state where
  rows item isItem := relinked.rows item ((same item).mp isItem)
  apart item isItem other isOther :=
    relinked.apart item ((same item).mp isItem) other ((same other).mp isOther)
  links item isItem other isOther :=
    relinked.links item ((same item).mp isItem) other ((same other).mp isOther)
  nulls item isItem := relinked.nulls item ((same item).mp isItem)
  closed item isItem row key column isRowOf isColumnOf notNull := by
    obtain ⟨other, isDone, found⟩ :=
      relinked.closed item ((same item).mp isItem) row key column isRowOf isColumnOf notNull
    exact ⟨other, (same other).mpr isDone, found⟩

end Rows

/-- **An import that refuses nothing rebuilds the graph of the exported records.** -/
theorem relinked_importRecords (lawful : Lawful org) {recordSets : List (RecordSet ν)}
    (exported : Exported org entities recordSets)
    (ready : ∀ set ∈ recordSets, ∃ definitionId repo,
      Ready org entities set.entitySlug definitionId repo) {tables : RecordTables ν}
    {state : RecordImport ν} (imported : org.importRecords entities recordSets tables = .ok state)
    (quiet : state.warnings = []) :
    org.Relinked entities (exportedRecords recordSets) state := by
  obtain ⟨middle, first, second⟩ := bind_eq_ok.mp imported
  have isRecord : ∀ item, item ∈ org.importOrder entities recordSets ↔
      item ∈ exportedRecords recordSets := fun item => mem_importOrder exported.oneSet
  have ofSet : ∀ item ∈ org.importOrder entities recordSets, ∃ set ∈ recordSets,
      ∃ record ∈ set.records, item = (set.entitySlug, record) := by
    intro item isItem
    obtain ⟨set, isSet, isItemOf⟩ := mem_flatMap.mp ((isRecord item).mp isItem)
    obtain ⟨record, isRecordOf, rfl⟩ := mem_map.mp isItemOf
    exact ⟨set, isSet, record, isRecordOf, rfl⟩
  have closed : ∀ item ∈ org.importOrder entities recordSets, ∀ key target value,
      fkTarget entities item.1 key = some target → (item.2.lookup key).join = some value →
        ∃ other ∈ org.importOrder entities recordSets, other.1 = target ∧
          org.idText other.2 = some (org.text value) := by
    intro item isItem key target value isKey isValue
    obtain ⟨set, isSet, record, isRecordOf, rfl⟩ := ofSet item isItem
    obtain ⟨other, isOther, rfl, one, isOne, sameId⟩ :=
      exported.closed set isSet record isRecordOf key target value isKey isValue
    refine ⟨(other.entitySlug, one), (isRecord _).mpr ?_, rfl, sameId⟩
    exact mem_flatMap.mpr ⟨other, isOther, mem_map_of_mem isOne⟩
  have nodup := nodup_importOrder exported
  have apart : Apart org (org.importOrder entities recordSets) :=
    fun item isItem other isOther sameSlug sameId =>
      inj_on_of_nodup_map nodup isItem isOther (Prod.ext sameSlug sameId)
  have created : Progress org entities (org.importOrder entities recordSets) middle.deferred middle := by
    refine Progress.run_records lawful (progress_start tables) (fun item isItem => ?_) nodup first
      (quiet_of_run warnings_linkRecord second quiet)
    obtain ⟨set, isSet, record, isRecordOf, rfl⟩ := ofSet item isItem
    exact ⟨ready set isSet, exported.hasId set isSet record isRecordOf,
      exported.keys set isSet record isRecordOf⟩
  have linked := created.run_links lawful apart closed second quiet
  exact (linked.relinked lawful closed apart).of_mem fun item => (isRecord item).symm

end TargetOrg

/-! ## Departments and the people in them -/

/-- A department has a head, who is in a department and may have a manager. -/
def company : List BundledEntity :=
  [⟨"e1", "department", [⟨"head", "e2", .manyToOne⟩]⟩,
    ⟨"e2", "person", [⟨"department", "e1", .manyToOne⟩, ⟨"manager", "e2", .manyToOne⟩]⟩]

def companyRecords : List (RecordSet String) :=
  [⟨"department", [[("id", some "d1"), ("head", some "p2")], [("id", some "d2"), ("head", none)]]⟩,
    ⟨"person",
      [[("id", some "p1"), ("department", some "d1"), ("manager", some "p2")],
        [("id", some "p2"), ("department", some "d2"), ("manager", some "p2")]]⟩]

def departments : Records.Catalog where
  definition := { id := 0, slug := "department", physicalTable := "ce_0" }
  fields := []
  relationships :=
    [{ slug := "head", physicalName := "rel_0", cardinality := .manyToOne, targetDefinitionId := 1 }]
  fieldSlugs_nodup := by decide
  relationshipSlugs_nodup := by decide
  columns_nodup := by decide

def people : Records.Catalog where
  definition := { id := 1, slug := "person", physicalTable := "ce_1" }
  fields := []
  relationships :=
    [{ slug := "department"
       physicalName := "rel_1"
       cardinality := .manyToOne
       targetDefinitionId := 0 },
      { slug := "manager"
        physicalName := "rel_2"
        cardinality := .manyToOne
        targetDefinitionId := 1 }]
  fieldSlugs_nodup := by decide
  relationshipSlugs_nodup := by decide
  columns_nodup := by decide

/-- An org with the tables of the company, where ids are rows of strokes. -/
def branch : TargetOrg String where
  env :=
    { engine := Records.texts.engine
      python := Records.texts.python
      accepts := fun _ _ => true
      physicalTable := fun _ definitionId => [(0, "ce_0"), (1, "ce_1")].lookup definitionId
      idsIn := fun tables table =>
        ([("ce_0", 0), ("ce_1", 1)].lookup table).elim [] fun definitionId =>
          (tables definitionId).filterMap fun row => row "id"
      onDelete := fun _ _ _ => none }
  orgId := "branch"
  entityIds := fun id => [("e1", 0), ("e2", 1)].lookup id
  catalogs := fun id => [(0, departments), (1, people)].lookup id
  now := "2024-01-01"
  ids := fun i => String.ofList (List.replicate (i + 1) 'i')
  setOrder := id

theorem lawful_branch : branch.Lawful where
  text_ofText _ := rfl
  uuid_text _ := rfl
  equal_self value := decide_eq_true rfl
  equal_comm value other := decide_eq_decide.mpr eq_comm
  ids_differ i j differ := by
    refine decide_eq_false fun same => differ ?_
    have letters := congrArg (fun text => text.toList.length) same
    simpa [branch] using letters

theorem relTargets_of_fkTarget {entities : List BundledEntity} {slug key target : String}
    (isLink : fkTarget entities slug key = some target) :
    (key, target) ∈ relTargets entities slug := by
  obtain ⟨before, after, split, _⟩ := lookup_eq_some_iff.mp isLink
  rw [← mem_reverse, split]
  exact mem_append_right _ mem_cons_self

theorem exported_company : branch.Exported company companyRecords where
  oneSet := by decide
  keys := by decide
  hasId := by
    have hasId : ∀ set ∈ companyRecords, ∀ record ∈ set.records,
        (branch.idText record).isSome = true := by decide
    exact fun set isSet record isRecord => isSome_iff_exists.mp (hasId set isSet record isRecord)
  ids := by decide
  closed := by
    have closed : ∀ set ∈ companyRecords, ∀ record ∈ set.records,
        ∀ link ∈ relTargets company set.entitySlug, ∀ value ∈ (record.lookup link.1).join,
          ∃ other ∈ companyRecords, other.entitySlug = link.2 ∧
            ∃ one ∈ other.records, branch.idText one = some (branch.text value) := by decide
    exact fun set isSet record isRecord key target value isLink isValue =>
      closed set isSet record isRecord (key, target) (relTargets_of_fkTarget isLink) value isValue

theorem ready_company : ∀ set ∈ companyRecords, ∃ definitionId repo,
    branch.Ready company set.entitySlug definitionId repo := by
  have columns : ∀ set ∈ companyRecords, ∃ found ∈ branch.repoFor company set.entitySlug,
      found.2.catalog.slugToCol "id" = none ∧ ∀ link ∈ relTargets company set.entitySlug,
        found.2.catalog.fieldBySlug link.1 = none ∧
          (found.2.catalog.relBySlug link.1).isSome = true := by
    decide
  intro set isSet
  obtain ⟨⟨definitionId, repo⟩, isRepo, noId, areColumns⟩ := columns set isSet
  refine ⟨definitionId, repo, isRepo, noId, fun key target isLink => ?_⟩
  obtain ⟨noField, isRelationship⟩ := areColumns (key, target) (relTargets_of_fkTarget isLink)
  obtain ⟨relationship, found⟩ := isSome_iff_exists.mp isRelationship
  exact ⟨relationship.physicalName, noField, relationship, found, rfl⟩

theorem relinked_importRecords_company : ∃ state,
    branch.importRecords company companyRecords (fun _ => []) = .ok state ∧
      branch.Relinked company (exportedRecords companyRecords) state := by
  have quiet : (branch.importRecords company companyRecords (fun _ => [])).toOption.map
      (fun state => state.warnings.length) = some 0 := by
    decide +kernel
  cases imported : branch.importRecords company companyRecords (fun _ => []) with
  | error failure =>
    rw [imported] at quiet
    cases quiet
  | ok state =>
    rw [imported] at quiet
    exact ⟨state, rfl, TargetOrg.relinked_importRecords lawful_branch exported_company ready_company
      imported (length_eq_zero_iff.mp (some.inj quiet))⟩

end RedArchKM.Promotion
