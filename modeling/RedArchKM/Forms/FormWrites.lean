import RedArchKM.Forms.Submission
import RedArchKM.Records.Writes

/-!
# What the writes of a submission do

A read finds the row of the record (`getRecord_ok`); an update assigns cells of its patch to that
row (`updateRecord_ok`); a creation appends a row with cells of its payload, and the record shows
the id drawn for it (`createRecord_ok`, `valueOf_created`).
-/

namespace RedArchKM.Forms

open Lib List Option
open Lib.Fallible (Ensures bind_eq_ok)
open Lib.Query (Row assign)
open Records (Catalog Public Repository baseColumns baseReadColumns put lookup_put mem_put)

variable {ν ε : Type}

theorem mem_overlaid {record values : Public ν} {entry : String × Option ν}
    (member : entry ∈ overlaid record values) : entry ∈ record ∨ entry ∈ values := by
  induction values generalizing record with
  | nil => exact .inl member
  | cons first rest ih =>
    rcases ih member with isPut | later
    · rcases mem_put isPut with rfl | earlier
      · exact .inr mem_cons_self
      · exact .inl earlier
    · exact .inr (mem_cons_of_mem first later)

/-- The fields that are written for some values: those of the taken values, and the calculated
ones. -/
def FieldBinding.setBy (fields : FieldBinding ε)
    (values : List (String × Option ν)) : List String :=
  (cleaned fields.writeSlugs values).map Prod.fst ++
    fields.calculations.map CalcBinding.targetSlug

namespace Site

variable (site : Site ν ε)

variable {entry : String × Option ν} {values payload : List (String × Option ν)} {recordId : ν}
  {entityId : Nat} {store : Store ν}

theorem mem_applyCalc {clean context : Public ν} {calculations : List (CalcBinding ε)}
    (member : entry ∈ site.applyCalc clean calculations context) :
    entry.1 ∈ calculations.map CalcBinding.targetSlug ∨ entry ∈ clean := by
  induction calculations generalizing clean with
  | nil => exact .inr member
  | cons first rest ih =>
    rcases ih member with later | isPut
    · exact .inl (mem_cons_of_mem _ later)
    · rcases mem_put isPut with rfl | earlier
      · exact .inl mem_cons_self
      · exact .inr earlier

theorem mem_cleaned {slugs : List String} (member : entry ∈ cleaned slugs values) :
    entry.1 ∈ slugs :=
  of_decide_eq_true (mem_filter.mp member).2

variable {fields : FieldBinding ε} {slug : String} {record : Public ν} {after : Store ν}

theorem written_of_setBy (set : slug ∈ fields.setBy values) : slug ∈ fields.written := by
  rcases mem_append.mp set with isTaken | calculated
  · obtain ⟨entry, member, rfl⟩ := mem_map.mp isTaken
    exact mem_append_left _ (mem_cleaned member)
  · exact mem_append_right _ calculated

theorem mem_setBy {context : Public ν}
    (member : entry ∈ site.applyCalc (cleaned fields.writeSlugs values) fields.calculations
      context) : entry.1 ∈ fields.setBy values := by
  rcases mem_applyCalc site member with calculated | isTaken
  · exact mem_append_right _ calculated
  · exact mem_append_left _ (mem_map_of_mem isTaken)

theorem mem_patchOf {current : Public ν} (member : entry ∈ site.patchOf fields current values) :
    entry.1 ∈ fields.setBy values :=
  mem_setBy site member

theorem mem_newValues (member : entry ∈ site.newValues fields values) :
    entry.1 ∈ fields.setBy values :=
  mem_setBy site member

def isRow (recordId : ν) (row : Row String ν) : Bool :=
  Query.allHold site.env.engine
    [.compare .eq (.column "id") recordId, .compare .eq (.column "org_id") site.orgId] row

section

variable (entityId : Nat)

def columnOf (slug : String) : Option String :=
  (site.catalogs entityId).bind fun catalog => catalog.slugToCol slug

/-- The record of a row, as a form sees it. -/
def publicOf (row : Row String ν) : Public ν :=
  match site.catalogs entityId with
  | some catalog => Repository.toPublic { catalog := catalog, orgId := site.orgId } row
  | none => []

def valueIn (slug : String) (row : Row String ν) : Option ν :=
  valueOf (site.publicOf entityId row) slug

/-- The cell is that of an entry. Values other than texts are written as they are. -/
def Writes (payload : List (String × Option ν)) (cell : String × Option ν) : Prop :=
  ∃ entry ∈ payload, site.columnOf entityId entry.1 = some cell.1 ∧
    ((∀ value, entry.2 = some value → site.env.python.text value = none) → cell.2 = entry.2)

end

variable {site}

theorem isRow_congr {row row' : Row String ν} (id : row "id" = row' "id")
    (org : row "org_id" = row' "org_id") : site.isRow recordId row = site.isRow recordId row' := by
  simp only [isRow, Query.allHold, Query.Condition.holds, Query.Term.eval, all_cons, id, org,
    all_nil]

theorem columnOf_not_base {column : String} (found : site.columnOf entityId slug = some column) :
    column ∉ baseColumns := by
  obtain ⟨catalog, _, isColumn⟩ := bind_eq_some_iff.mp found
  exact Catalog.slugToCol_not_base isColumn

theorem columnOf_inj {other column : String} (found : site.columnOf entityId slug = some column)
    (alsoFound : site.columnOf entityId other = some column) : slug = other := by
  obtain ⟨catalog, isCatalog, isColumn⟩ := bind_eq_some_iff.mp found
  obtain ⟨another, isAnother, alsoColumn⟩ := bind_eq_some_iff.mp alsoFound
  cases isCatalog.symm.trans isAnother
  exact Catalog.slugToCol_inj isColumn alsoColumn

theorem valueIn_cases (site : Site ν ε) (entityId : Nat) (slug : String) :
    (∃ column, site.columnOf entityId slug = some column ∧
      ∀ row : Row String ν, site.valueIn entityId slug row = row column) ∨
      (∀ row : Row String ν, site.valueIn entityId slug row = none) ∨
        (slug ∈ baseReadColumns ∧
          ∀ row : Row String ν, site.valueIn entityId slug row = row slug) := by
  cases isCatalog : site.catalogs entityId with
  | none =>
    refine .inr (.inl fun row => ?_)
    rw [valueIn, publicOf, isCatalog]
    rfl
  | some catalog =>
    have shown (row : Row String ν) : site.valueIn entityId slug row =
        ((Repository.toPublic { catalog := catalog, orgId := site.orgId } row).lookup slug).join := by
      rw [valueIn, publicOf, isCatalog, valueOf]
    simp only [shown, Repository.lookup_toPublic]
    split
    · rename_i column found
      refine .inl ⟨column, ?_, fun row => rfl⟩
      split at found
      · exact bind_eq_some_iff.mpr ⟨catalog, isCatalog, found⟩
      · cases found
    · by_cases isBase : slug ∈ baseReadColumns
      · exact .inr (.inr ⟨isBase, fun row => by rw [if_pos isBase]; rfl⟩)
      · exact .inr (.inl fun row => by rw [if_neg isBase]; rfl)

theorem repo_ok {opened : Repository ν} (found : site.repo entityId = .ok opened) :
    ∃ catalog, site.catalogs entityId = some catalog ∧
      opened = { catalog := catalog, orgId := site.orgId } := by
  unfold repo at found
  split at found
  · rename_i catalog isCatalog
    exact ⟨catalog, isCatalog, (Except.ok.inj found).symm⟩
  · cases found

theorem writes_of_cellOf {catalog : Catalog} (isCatalog : site.catalogs entityId = some catalog)
    {cell : String × Option ν}
    (isCell : Repository.CellOf site.env { catalog := catalog, orgId := site.orgId } payload cell) :
    site.Writes entityId payload cell := by
  obtain ⟨entry, member, found, coerced⟩ := isCell
  refine ⟨entry, member, bind_eq_some_iff.mpr ⟨catalog, isCatalog, found⟩, fun noText => ?_⟩
  have isKept : entry.2.bind site.env.python.text = none := by
    cases same : entry.2 with
    | none => rfl
    | some value => exact noText value same
  unfold Records.coerceValue at coerced
  rw [isKept] at coerced
  split at coerced
  · rename_i hit
    cases hit
  · exact (Except.ok.inj coerced).symm

/-! ## Reads, updates and creations -/

theorem getRecord_ok {record : Option (Public ν)}
    (found : site.getRecord entityId recordId store = .ok record) :
    record = ((store.tables entityId).find? (site.isRow recordId)).map (site.publicOf entityId) := by
  obtain ⟨repo, isRepo, isRecord⟩ := bind_eq_ok.mp found
  obtain ⟨catalog, isCatalog, rfl⟩ := repo_ok isRepo
  have shows : site.publicOf entityId =
      Repository.toPublic { catalog := catalog, orgId := site.orgId } := by
    funext row
    rw [publicOf, isCatalog]
  rw [← Except.ok.inj isRecord, shows]
  rfl

theorem getRecord_some (found : site.getRecord entityId recordId store = .ok (some record)) :
    ∃ row ∈ store.tables entityId, site.isRow recordId row = true ∧
      record = site.publicOf entityId row := by
  obtain ⟨row, isFound, same⟩ := map_eq_some_iff.mp (getRecord_ok found).symm
  exact ⟨row, mem_of_find?_eq_some isFound, find?_some isFound, same.symm⟩

/-- **An update assigns cells of its patch to the row of the record.** -/
theorem updateRecord_ok {patch : List (String × Option ν)} {record : Option (Public ν)}
    (updated : site.updateRecord entityId recordId patch store = .ok (record, after)) :
    ∃ cells, (∀ cell ∈ cells, site.Writes entityId patch cell ∨
        cell = ("updated_at", some site.now)) ∧
      record = ((store.tables entityId).find? (site.isRow recordId)).map
        (fun row => site.publicOf entityId (assign row cells)) ∧
      after = withRows store entityId ((store.tables entityId).map fun row =>
        if site.isRow recordId row then assign row cells else row) := by
  obtain ⟨repo, isRepo, isUpdated⟩ := bind_eq_ok.mp updated
  obtain ⟨catalog, isCatalog, rfl⟩ := repo_ok isRepo
  split at isUpdated
  · cases isUpdated
  · rename_i found db isDone
    cases isUpdated
    obtain ⟨cells, isCell, isRecord, isRows⟩ := Repository.update_ok isDone
    refine ⟨cells, fun cell member => ?_, ?_, by rw [isRows]; rfl⟩
    · exact (isCell cell member).imp_left (writes_of_cellOf isCatalog)
    · have shows : (fun row => site.publicOf entityId (assign row cells)) = fun row =>
          Repository.toPublic { catalog := catalog, orgId := site.orgId } (assign row cells) := by
        funext row
        rw [publicOf, isCatalog]
      rwa [shows]

/-- **A creation appends a row with cells of its payload.** -/
theorem createRecord_ok (created : site.createRecord entityId payload store = .ok (record, after)) :
    ∃ row, (∃ cells, (∀ cell ∈ cells, site.Writes entityId payload cell) ∧
        row = assign (Repository.blank ⟨site.now, site.ids store.drawn⟩)
          (cells ++ [("org_id", some site.orgId)])) ∧
      record = site.publicOf entityId row ∧
      after = { withRows store entityId (store.tables entityId ++ [row]) with
        drawn := store.drawn + 1 } ∧
      ∃ id, site.env.python.uuid (site.env.python.str (valueOf record "id")) = some id := by
  obtain ⟨repo, isRepo, isCreated⟩ := bind_eq_ok.mp created
  obtain ⟨catalog, isCatalog, rfl⟩ := repo_ok isRepo
  split at isCreated
  · cases isCreated
  · rename_i found db isDone
    cases isCreated
    obtain ⟨cells, isCell, isRecord, isRows, hasId⟩ := Repository.create_ok isDone
    refine ⟨_, ⟨cells, fun cell member => writes_of_cellOf isCatalog (isCell cell member), rfl⟩,
      ?_, by rw [isRows]; rfl, hasId⟩
    rwa [publicOf, isCatalog]

/-! ## New rows -/

section NewRows

variable {entityId : Nat} {payload : List (String × Option ν)} {moment : Repository.Moment ν}
  {cells : List (String × Option ν)}
  (isCell : ∀ cell ∈ cells, site.Writes entityId payload cell)

include isCell

theorem newRow_base {column : String} (isBase : column ∈ ["id", "created_at", "updated_at"]) :
    assign (Repository.blank moment) (cells ++ [("org_id", some site.orgId)]) column =
      Repository.blank moment column := by
  apply Query.assign_of_ne
  intro cell member
  rcases mem_append.mp member with isCellOf | isOrg
  · obtain ⟨entry, _, found, _⟩ := isCell cell isCellOf
    rintro rfl
    refine columnOf_not_base found ?_
    revert isBase
    generalize cell.1 = column
    revert column
    decide
  · cases mem_singleton.mp isOrg
    rintro rfl
    simp at isBase

theorem newRow_id :
    assign (Repository.blank moment) (cells ++ [("org_id", some site.orgId)]) "id" =
      some moment.newId := by
  rw [newRow_base isCell (by decide)]
  rfl

omit isCell in
theorem newRow_field {column : String} (notBase : column ∉ baseColumns) :
    assign (Repository.blank moment) (cells ++ [("org_id", some site.orgId)]) column = none ∨
      ∃ cell ∈ cells, cell.1 = column ∧
        assign (Repository.blank moment) (cells ++ [("org_id", some site.orgId)]) column =
          cell.2 := by
  rcases Query.assign_cases (Repository.blank moment) (cells ++ [("org_id", some site.orgId)])
    column with ⟨value, member, same⟩ | same
  · rcases mem_append.mp member with isCellOf | isOrg
    · exact .inr ⟨(column, value), isCellOf, rfl, same⟩
    · cases mem_singleton.mp isOrg
      exact absurd (by decide) notBase
  · refine .inl (same.trans (Query.assign_of_ne ?_))
    intro entry member
    have isBase : entry.1 ∈ ["id", "created_at", "updated_at"] := mem_map_of_mem member
    rintro rfl
    apply notBase
    revert isBase
    generalize entry.1 = column
    revert column
    decide

end NewRows

/-- **The record of a new row shows the id drawn for it**, if nothing is written under that name. -/
theorem valueOf_created (noneIsNoId : site.env.python.uuid (site.env.python.str none) = none)
    (created : site.createRecord entityId payload store = .ok (record, after))
    (noId : ∀ entry ∈ payload, entry.1 ≠ "id") :
    valueOf record "id" = some (site.ids store.drawn) := by
  obtain ⟨row, ⟨cells, isCell, rfl⟩, rfl, _, id, isId⟩ := createRecord_ok created
  obtain ⟨repo, isRepo, _⟩ := bind_eq_ok.mp created
  obtain ⟨catalog, isCatalog, rfl⟩ := repo_ok isRepo
  unfold publicOf valueOf at isId ⊢
  rw [isCatalog] at isId ⊢
  rw [Repository.lookup_toPublic] at isId ⊢
  split
  · rename_i column found
    rw [found] at isId
    -- another column stands for the slug, and nothing is written to it
    have isColumn : site.columnOf entityId "id" = some column := by
      split at found
      · exact bind_eq_some_iff.mpr ⟨catalog, isCatalog, found⟩
      · cases found
    have empty : assign (Repository.blank ⟨site.now, site.ids store.drawn⟩)
        (cells ++ [("org_id", some site.orgId)]) column = none := by
      rcases newRow_field (columnOf_not_base isColumn) with isNone | ⟨cell, member, same, _⟩
      · exact isNone
      · obtain ⟨entry, isEntry, alsoColumn, _⟩ := isCell cell member
        rw [same] at alsoColumn
        exact absurd (columnOf_inj alsoColumn isColumn) (noId entry isEntry)
    rw [join_some, empty, noneIsNoId] at isId
    cases isId
  · rw [if_pos (by decide), newRow_id isCell]
    rfl

end Site

end RedArchKM.Forms
