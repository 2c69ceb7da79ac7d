import RedArchKM.Records.Repository

/-!
# What a write does to a table

An update assigns cells to the rows of the record, and a creation appends a row with such cells.
Each cell is that of an entry of the payload, coerced to the type of its field, or a timestamp
(`update_ok`, `create_ok`). A record read by slug shows the column of the slug (`lookup_toPublic`).
-/

namespace RedArchKM.Records

open Lib List
open Lib.Query (Row)

variable {σ ν : Type}

theorem lookup_put (slug other : String) (value : Option ν) (out : Public ν) :
    (put slug value out).lookup other = if other = slug then some value else out.lookup other := by
  induction out with
  | nil =>
    rw [put, lookup_cons]
    by_cases same : other = slug
    · simp [same]
    · simp [same, beq_eq_false_iff_ne.mpr same]
  | cons entry rest ih =>
    obtain ⟨first, old⟩ := entry
    unfold put
    by_cases isHere : first = slug
    · subst isHere
      by_cases same : other = first
      · simp [same]
      · simp [same, lookup_cons, beq_eq_false_iff_ne.mpr same]
    · rw [if_neg isHere, lookup_cons, lookup_cons, ih]
      by_cases same : other = first
      · subst same
        simp [isHere]
      · simp [beq_eq_false_iff_ne.mpr same]

theorem mem_put {slug : String} {value : Option ν} {out : Public ν} {entry : String × Option ν}
    (member : entry ∈ put slug value out) : entry = (slug, value) ∨ entry ∈ out := by
  induction out with
  | nil => exact .inl (mem_singleton.mp member)
  | cons first rest ih =>
    unfold put at member
    split at member
    · exact (mem_cons.mp member).imp_right (mem_cons_of_mem first)
    · rcases mem_cons.mp member with rfl | later
      · exact .inr mem_cons_self
      · exact (ih later).imp_right (mem_cons_of_mem first)

namespace Repository

variable {env : Environment σ ν} {repo : Repository ν}

/-! ## Records by slug -/

/-- The slug is shown to the caller. -/
def Shows (repo : Repository ν) (slug : String) : Prop :=
  slug ∈ repo.catalog.slugs ∧ repo.hides slug = false

instance (repo : Repository ν) (slug : String) : Decidable (repo.Shows slug) :=
  inferInstanceAs (Decidable (_ ∧ _))

section

variable (row : Row String ν)

include row

theorem lookup_bases (slug : String) (columns : List String) :
    (columns.map fun column => (column, row column)).lookup slug =
      if slug ∈ columns then some (row slug) else none := by
  induction columns with
  | nil => rfl
  | cons first rest ih =>
    rw [map_cons, lookup_cons, ih]
    by_cases same : slug = first
    · simp [same]
    · simp [same, beq_eq_false_iff_ne.mpr same]

theorem lookup_showSlug (out : Public ν) (first slug : String) :
    (repo.showSlug row out first).lookup slug =
      if slug = first then
        match repo.catalog.slugToCol slug with
        | some column => some (row column)
        | none => out.lookup slug
      else out.lookup slug := by
  unfold showSlug
  by_cases same : slug = first
  · subst same
    rw [if_pos rfl]
    cases repo.catalog.slugToCol slug with
    | none => rfl
    | some column => exact (lookup_put slug slug _ out).trans (if_pos rfl)
  · rw [if_neg same]
    cases repo.catalog.slugToCol first with
    | none => rfl
    | some column => exact (lookup_put first slug _ out).trans (if_neg same)

theorem lookup_shown (shown : List String) (out : Public ν) (slug : String) :
    (shown.foldl (repo.showSlug row) out).lookup slug =
      match (if slug ∈ shown then repo.catalog.slugToCol slug else none) with
      | some column => some (row column)
      | none => out.lookup slug := by
  induction shown generalizing out with
  | nil => rfl
  | cons first rest ih =>
    rw [foldl_cons, ih, lookup_showSlug]
    by_cases same : slug = first
    · subst same
      cases repo.catalog.slugToCol slug with
      | none => simp
      | some column => split <;> simp_all
    · simp [same]

theorem lookup_toPublic (slug : String) : (repo.toPublic row).lookup slug =
      match (if repo.Shows slug then repo.catalog.slugToCol slug else none) with
      | some column => some (row column)
      | none => if slug ∈ baseReadColumns then some (row slug) else none := by
  have shown : slug ∈ repo.catalog.slugs.filter (fun slug => !repo.hides slug) ↔
      repo.Shows slug := by
    rw [mem_filter, Shows, Bool.not_eq_true']
  rw [toPublic, lookup_shown, lookup_bases]
  simp only [shown]

end

/-! ## Cells -/

def CellOf (env : Environment σ ν) (repo : Repository ν) (payload : List (String × Option ν))
    (cell : String × Option ν) : Prop :=
  ∃ entry ∈ payload, repo.catalog.slugToCol entry.1 = some cell.1 ∧
    coerceValue env.python (repo.catalog.fieldBySlug entry.1) entry.2 = .ok cell.2

open Fallible (Ensures)

variable {payload cells : List (String × Option ν)} {db after : Database σ ν} {moment : Moment ν}
  {column slug : String}

theorem writeCell_ok {entry : String × Option ν} (member : entry ∈ payload) :
    Ensures (CellOf env repo payload) (repo.writeCell env entry) := by
  unfold writeCell
  dsimp only
  split
  · exact .error _
  · split
    · exact .error _
    · split
      · rename_i column found
        exact .bind fun value isValue => .pure ⟨entry, member, found, isValue⟩
      · exact .error _

section

variable (payload : List (String × Option ν)) (forCreate : Bool)

theorem toRow_ok : Ensures (fun row => ∀ cell ∈ row, CellOf env repo payload cell)
      (repo.toRow env payload forCreate) := by
  unfold toRow
  dsimp only
  split
  · exact .error _
  · split
    · exact .error _
    · refine .bind fun row isRow => ?_
      split
      · exact .error _
      · exact .pure (Ensures.mapM
          (fun entry member => writeCell_ok (mem_of_mem_filter member)) row isRow)

theorem prepare_ok (db : Database σ ν) :
    Ensures (fun row => ∀ cell ∈ row, CellOf env repo payload cell)
      (repo.prepare env payload forCreate db) :=
  .bind fun _ _ => .bind fun _ _ => toRow_ok payload forCreate

end

/-! ## Updates and creations -/

variable {recordId : ν}

theorem changedRow_ok {values : List (String × Option ν)} {changed : Option (Row String ν)}
    (isChanged : repo.changedRow env recordId values db = .ok changed) :
    changed = (db.rows.find? (repo.isRecord env recordId)).map (Query.assign · values) := by
  unfold changedRow execute at isChanged
  split at isChanged
  · cases found : db.rows.find? (repo.isRecord env recordId) with
    | none =>
      rw [found] at isChanged
      exact (Except.ok.inj isChanged).symm
    | some row =>
      rw [found, pure_bind] at isChanged
      dsimp only at isChanged
      split at isChanged
      · cases isChanged
      · exact (Except.ok.inj isChanged).symm
  · cases isChanged

/-- **An update assigns cells of its patch to the rows of the record.** -/
theorem update_ok {patch : List (String × Option ν)} {record : Option (Public ν)}
    (updated : repo.update env moment recordId patch db = (.ok record, after)) :
    ∃ cells, (∀ cell ∈ cells, CellOf env repo patch cell ∨
        cell = ("updated_at", some moment.now)) ∧
      record = (db.rows.find? (repo.isRecord env recordId)).map
        (fun row => repo.toPublic (Query.assign row cells)) ∧
      after.rows = db.rows.map fun row =>
        if repo.isRecord env recordId row then Query.assign row cells else row := by
  have untouched : (fun row : Row String ν =>
      if repo.isRecord env recordId row then Query.assign row [] else row) = id := by
    funext row
    split <;> rfl
  unfold update at updated
  split at updated
  · cases updated
  · cases updated
    refine ⟨[], fun _ member => absurd member not_mem_nil, rfl, ?_⟩
    rw [untouched, map_id]
  · rename_i row notNil isRow
    have isCell := prepare_ok patch false db row isRow
    dsimp only at updated
    split at updated
    · cases updated
    · rename_i isChanged
      cases updated
      have notFound := (Option.map_eq_none_iff.mp (changedRow_ok isChanged).symm)
      refine ⟨[], fun _ member => absurd member not_mem_nil, ?_, ?_⟩
      · rw [notFound]
        rfl
      · rw [untouched, map_id]
    · rename_i changed isChanged
      cases updated
      refine ⟨row ++ [("updated_at", some moment.now)], fun cell member => ?_, ?_, rfl⟩
      · rcases mem_append.mp member with earlier | isLast
        · exact .inl (isCell cell earlier)
        · rw [mem_singleton.mp isLast]
          exact .inr rfl
      · have found := changedRow_ok isChanged
        cases isFound : db.rows.find? (repo.isRecord env recordId) with
        | none =>
          rw [isFound] at found
          cases found
        | some old =>
          rw [isFound] at found
          rw [Option.some.inj found]
          rfl

theorem newRow_ok (moment : Moment ν) (payload : List (String × Option ν)) (db : Database σ ν) :
    Ensures (fun created => ∃ cells, (∀ cell ∈ cells, CellOf env repo payload cell) ∧
        created = Query.assign (blank moment) (cells ++ [("org_id", some repo.orgId)]))
      (repo.newRow env moment payload db) := by
  refine .bind fun row isRow => .bind fun found _ => ?_
  split
  · exact .error _
  · exact .pure ⟨row, prepare_ok payload true db row isRow, rfl⟩

/-- **A creation appends a row with cells of its payload, under an id that the record shows.** -/
theorem create_ok {record : Public ν}
    (created : repo.create env moment payload db = (.ok record, after)) :
    ∃ cells, (∀ cell ∈ cells, CellOf env repo payload cell) ∧
      record = repo.toPublic
        (Query.assign (blank moment) (cells ++ [("org_id", some repo.orgId)])) ∧
      after.rows =
        db.rows ++ [Query.assign (blank moment) (cells ++ [("org_id", some repo.orgId)])] ∧
      ∃ id, env.python.uuid (env.python.str (record.lookup "id").join) = some id := by
  unfold create at created
  split at created
  · cases created
  · rename_i row isRow
    obtain ⟨cells, isCell, rfl⟩ := newRow_ok moment payload db row isRow
    dsimp only at created
    split at created
    · cases created
    · rename_i id isId
      cases created
      exact ⟨cells, isCell, rfl, rfl, id, isId⟩

/-! ## Links -/

theorem writeCell_eq_ok {entry cell : String × Option ν}
    (written : repo.writeCell env entry = .ok cell) :
    repo.catalog.slugToCol entry.1 = some cell.1 ∧
      coerceValue env.python (repo.catalog.fieldBySlug entry.1) entry.2 = .ok cell.2 := by
  obtain ⟨_, isEntry, found, coerced⟩ := writeCell_ok (mem_singleton.mpr rfl) cell written
  rw [mem_singleton.mp isEntry] at found coerced
  exact ⟨found, coerced⟩

def IsLink (repo : Repository ν) (slug column : String) : Prop :=
  repo.catalog.fieldBySlug slug = none ∧
    ∃ relationship, repo.catalog.relBySlug slug = some relationship ∧
      relationship.physicalName = column

section

variable (isLink : repo.IsLink slug column)

include isLink

theorem IsLink.slugToCol : repo.catalog.slugToCol slug = some column := by
  obtain ⟨_, relationship, isRelationship, rfl⟩ := isLink
  unfold Catalog.slugToCol
  rw [isRelationship]

theorem IsLink.not_base : column ∉ baseColumns := Catalog.slugToCol_not_base isLink.slugToCol

theorem IsLink.not_hidden : repo.hides slug = false := by
  have notField : slug ∉ repo.catalog.serverOnlySlugs := by
    intro isHidden
    obtain ⟨field, isField, rfl⟩ := mem_map.mp isHidden
    have found := find?_eq_none.mp isLink.1 field (mem_of_mem_filter isField)
    simp at found
  unfold hides
  simp [notField]

theorem lookup_cells {entries : List (String × Option ν)}
    (written : entries.mapM (repo.writeCell env) = .ok cells) :
    cells.lookup column = entries.lookup slug := by
  induction entries generalizing cells with
  | nil =>
    cases written
    rfl
  | cons entry rest ih =>
    rw [mapM_cons] at written
    obtain ⟨cell, isCell, later⟩ := Fallible.bind_eq_ok.mp written
    obtain ⟨others, areCells, same⟩ := Fallible.bind_eq_ok.mp later
    cases Fallible.pure_eq_ok.mp same
    obtain ⟨found, coerced⟩ := writeCell_eq_ok isCell
    rw [lookup_cons, lookup_cons, ih areCells]
    by_cases isSlug : slug = entry.1
    · subst isSlug
      have isColumn : column = cell.1 := Option.some.inj (isLink.slugToCol.symm.trans found)
      rw [isLink.1] at coerced
      rw [isColumn, beq_self_eq_true, beq_self_eq_true]
      exact congrArg some (Except.ok.inj coerced).symm
    · have notColumn : column ≠ cell.1 := by
        rintro rfl
        exact isSlug (Catalog.slugToCol_inj isLink.slugToCol found)
      rw [beq_eq_false_iff_ne.mpr isSlug, beq_eq_false_iff_ne.mpr notColumn]

end

theorem lookup_filter_shown (isShown : repo.hides slug = false) (payload : List (String × Option ν)) :
    (payload.filter fun entry => !repo.hides entry.1).lookup slug = payload.lookup slug := by
  induction payload with
  | nil => rfl
  | cons entry rest ih =>
    rw [filter_cons, lookup_cons]
    by_cases isSlug : slug = entry.1
    · subst isSlug
      rw [isShown, beq_self_eq_true, Bool.not_false, if_pos rfl, lookup_cons, beq_self_eq_true]
    · rw [beq_eq_false_iff_ne.mpr isSlug, ← ih]
      split
      · rw [lookup_cons, beq_eq_false_iff_ne.mpr isSlug]
      · rfl

theorem lookup_prepared (isLink : repo.IsLink slug column) {forCreate : Bool}
    (prepared : repo.prepare env payload forCreate db = .ok cells) :
    cells.lookup column = payload.lookup slug := by
  obtain ⟨_, _, afterGuard⟩ := Fallible.bind_eq_ok.mp prepared
  obtain ⟨_, _, isRow⟩ := Fallible.bind_eq_ok.mp afterGuard
  unfold toRow at isRow
  dsimp only at isRow
  split at isRow
  · cases isRow
  · split at isRow
    · cases isRow
    · obtain ⟨row, written, same⟩ := Fallible.bind_eq_ok.mp isRow
      have isCells : row = cells := by
        split at same
        · cases same
        · exact Fallible.pure_eq_ok.mp same
      rw [← isCells, lookup_cells isLink written, lookup_filter_shown isLink.not_hidden]

theorem newRow_eq_ok {created : Row String ν}
    (isNew : repo.newRow env moment payload db = .ok created) :
    ∃ cells, repo.prepare env payload true db = .ok cells ∧
      created = Query.assign (blank moment) (cells ++ [("org_id", some repo.orgId)]) ∧
      repo.conflict env db.rows created = none := by
  obtain ⟨cells, prepared, afterPrepare⟩ := Fallible.bind_eq_ok.mp isNew
  obtain ⟨found, isFound, isCreated⟩ := Fallible.bind_eq_ok.mp afterPrepare
  unfold execute at isFound
  split at isFound
  · cases isFound
    split at isCreated
    · cases isCreated
    · rename_i noConflict
      cases isCreated
      exact ⟨cells, prepared, rfl, noConflict⟩
  · cases isFound

theorem id_fresh {others : List (Row String ν)} {row other : Row String ν} {id : ν}
    (noConflict : repo.conflict env others row = none) (isId : row "id" = some id)
    (isOther : other ∈ others) {otherId : ν} (hasId : other "id" = some otherId) :
    env.engine.equal id otherId = false := by
  have noneFound := find?_eq_none.mp (Option.map_eq_none_iff.mp noConflict) ("id", none)
    mem_cons_self
  rw [Bool.eq_false_iff]
  intro isEqual
  apply noneFound
  simp only [isId, Option.any_some, decide_true, Bool.true_or, Bool.true_and, any_eq_true]
  exact ⟨other, isOther, by rw [hasId]; exact isEqual⟩

structure NewRow (repo : Repository ν) (moment : Moment ν) (payload : List (String × Option ν))
    (row : Row String ν) : Prop where
  id : row "id" = some moment.newId
  org : row "org_id" = some repo.orgId
  links : ∀ slug column, repo.IsLink slug column → row column = (payload.lookup slug).getD none

theorem lookup_base {forCreate : Bool}
    (prepared : repo.prepare env payload forCreate db = .ok cells) (isBase : column ∈ baseColumns) :
    cells.lookup column = none := by
  rw [lookup_eq_none_iff]
  intro cell isCell
  obtain ⟨_, _, found, _⟩ := prepare_ok payload forCreate db cells prepared cell isCell
  rw [bne_iff_ne]
  rintro rfl
  exact Catalog.slugToCol_not_base found isBase

theorem blank_of_not_base (notBase : column ∉ baseColumns) : blank moment column = none := by
  refine Query.assign_of_ne fun entry isEntry => ?_
  rintro rfl
  simp only [mem_cons, not_mem_nil, or_false] at isEntry
  rcases isEntry with rfl | rfl | rfl <;> exact notBase (by simp [baseColumns])

/-- **A creation appends a row with the links of its payload**, under an id that no row has. -/
theorem create_links {record : Public ν} (noId : repo.catalog.slugToCol "id" = none)
    (created : repo.create env moment payload db = (.ok record, after)) :
    ∃ row, NewRow repo moment payload row ∧ after.rows = db.rows ++ [row] ∧
      record.lookup "id" = some (some moment.newId) ∧
      ∀ other ∈ db.rows, ∀ otherId, other "id" = some otherId →
        env.engine.equal moment.newId otherId = false := by
  unfold create at created
  split at created
  · cases created
  · rename_i row isRow
    obtain ⟨cells, prepared, isCreated, noConflict⟩ := newRow_eq_ok isRow
    have isNew : NewRow repo moment payload row := by
      subst isCreated
      refine ⟨?_, ?_, fun slug column isLink => ?_⟩
      · rw [Query.assign, lookup_append, lookup_base prepared (by decide)]
        rfl
      · rw [Query.assign, lookup_append, lookup_base prepared (by decide)]
        rfl
      · have notOrg : (column == "org_id") = false := by
          rw [beq_eq_false_iff_ne]
          rintro rfl
          exact isLink.not_base (by decide)
        rw [Query.assign, lookup_append, lookup_prepared isLink prepared,
          blank_of_not_base isLink.not_base, lookup_cons, notOrg]
        cases payload.lookup slug <;> rfl
    dsimp only at created
    split at created
    · cases created
    · cases created
      refine ⟨row, isNew, rfl, ?_, fun other isOther otherId hasId =>
        id_fresh noConflict isNew.id isOther hasId⟩
      have shown := repo.lookup_toPublic row "id"
      rw [noId, ite_self] at shown
      rw [shown, ← isNew.id]
      rfl

/-- **An update assigns the links of its patch to the row of the record.** -/
theorem update_links {patch : List (String × Option ν)} {record : Option (Public ν)}
    (updated : repo.update env moment recordId patch db = (.ok record, after)) :
    ∃ change : Row String ν → Row String ν,
      (∀ row, change row "id" = row "id" ∧ change row "org_id" = row "org_id" ∧
        ∀ slug column, repo.IsLink slug column →
          change row column = (patch.lookup slug).getD (row column)) ∧
      after.rows = db.rows.map fun row => if repo.isRecord env recordId row then change row else row := by
  have assigned : ∀ cells : List (String × Option ν),
      repo.prepare env patch false db = .ok cells → ∀ row : Row String ν,
        ∀ slug column, repo.IsLink slug column →
          Query.assign row (cells ++ [("updated_at", some moment.now)]) column =
            (patch.lookup slug).getD (row column) := by
    intro cells prepared row slug column isLink
    have notUpdated : (column == "updated_at") = false := by
      rw [beq_eq_false_iff_ne]
      rintro rfl
      exact isLink.not_base (by decide)
    rw [Query.assign, lookup_append, lookup_prepared isLink prepared, lookup_cons, notUpdated]
    cases patch.lookup slug <;> rfl
  have kept : ∀ cells : List (String × Option ν),
      repo.prepare env patch false db = .ok cells → ∀ (row : Row String ν) (column : String),
        column = "id" ∨ column = "org_id" →
          Query.assign row (cells ++ [("updated_at", some moment.now)]) column = row column := by
    intro cells prepared row column isKept
    have isBase : column ∈ baseColumns := by rcases isKept with rfl | rfl <;> decide
    rw [Query.assign, lookup_append, lookup_base prepared isBase]
    rcases isKept with rfl | rfl <;> rfl
  have changes : ∀ cells : List (String × Option ν), repo.prepare env patch false db = .ok cells →
      ∀ row : Row String ν,
        let change := fun row => Query.assign row (cells ++ [("updated_at", some moment.now)])
        change row "id" = row "id" ∧ change row "org_id" = row "org_id" ∧
          ∀ slug column, repo.IsLink slug column →
            change row column = (patch.lookup slug).getD (row column) :=
    fun cells prepared row => ⟨kept cells prepared row _ (.inl rfl),
      kept cells prepared row _ (.inr rfl), assigned cells prepared row⟩
  unfold update at updated
  split at updated
  · cases updated
  · rename_i prepared
    cases updated
    refine ⟨id, fun row => ⟨rfl, rfl, fun slug column isLink => ?_⟩, ?_⟩
    · rw [← lookup_prepared isLink prepared]
      rfl
    · simp
  · rename_i cells notNil prepared
    dsimp only at updated
    split at updated
    · cases updated
    · rename_i isChanged
      cases updated
      have notFound := Option.map_eq_none_iff.mp (changedRow_ok isChanged).symm
      refine ⟨_, changes cells prepared, ?_⟩
      conv_lhs => rw [← map_id db.rows]
      refine map_congr_left fun row isRow => ?_
      rw [if_neg (find?_eq_none.mp notFound row isRow)]
      rfl
    · cases updated
      exact ⟨_, changes cells prepared, rfl⟩

end Repository

end RedArchKM.Records
