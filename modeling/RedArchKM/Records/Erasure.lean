import Mathlib.Data.List.Find
import RedArchKM.Records.Repository

/-!
# What a caller without privileges reads and writes

Every statement that the repository builds for such a caller reads columns that they may see
(`listStatement_visible`, `findCondition_visible`, `buildAggregate_visible`), and what they write
goes to such columns (`toRow_writable`). So each operation works on a table as it does on the table
without the values of the fields flagged `server_only` (`list_erased`, `aggregate_erased`,
`create_erased`, `update_erased`, `delete_erased`).
-/

namespace RedArchKM.Records

open Lib List Function
open Lib.Fallible (Ensures)
open Lib.Query (Comparator Condition Grouping Output Row Selection Sorting Term)

variable {σ ν : Type}

/-! ## Statements -/

namespace Repository

variable {env : Environment σ ν} {repo : Repository ν}

theorem ensures_refuse {α : Type} {P : α → Prop} (error : EntityRecordError) :
    Ensures P (refuse error) := .error _

theorem serverOnly_of_not_hides (blind : repo.privileged = false) {slug column : String}
    (open_ : repo.hides slug = false) (found : repo.catalog.slugToCol slug = some column) :
    repo.catalog.serverOnly column = false := by
  rw [hides, blind, Bool.not_false, Bool.true_and, decide_eq_false_iff_not] at open_
  exact Catalog.serverOnly_slugToCol found open_

section Statements

variable (blind : repo.privileged = false)
include blind

/-- **A slug is resolved to a column that the caller may read, or refused.** -/
theorem column_visible (slug : String) :
    Ensures (fun term => repo.catalog.serverOnly term.reads = false) (repo.column slug) := by
  unfold column
  split
  · rename_i isBase
    refine .pure (Catalog.serverOnly_base ?_)
    revert isBase
    simp only [baseReadColumns, baseColumns, mem_cons, not_mem_nil, or_false, Term.reads]
    tauto
  · split
    · exact ensures_refuse _
    · rename_i column found
      split
      · exact ensures_refuse _
      · rename_i isOpen
        exact .pure (serverOnly_of_not_hides blind (by simpa using isOpen) found)

end Statements

theorem compare_visible {hidden : String → Bool} {comparator : Comparator} {term : Term String}
    {value : Option ν} (visible : hidden term.reads = false) :
    Ensures (Condition.Visible hidden) (compare env comparator term value) := by
  unfold compare
  split
  · exact .pure visible
  · exact .pure visible
  · exact .error _
  · split
    · exact .error _
    · exact .pure visible

theorem inOrg_visible : (inOrg repo).Visible repo.catalog.serverOnly :=
  Catalog.serverOnly_base (by decide)

theorem serverOnly_id : repo.catalog.serverOnly "id" = false := Catalog.serverOnly_base (by decide)

theorem keysetAfter_visible {term : Term String} {orderValue : Option ν} {id : ν}
    {descending : Bool} (visible : repo.catalog.serverOnly term.reads = false) :
    Ensures (Condition.Visible repo.catalog.serverOnly)
      (keysetAfter env term orderValue id descending) := by
  have tie : (Condition.compare .lt (.column "id") id).Visible repo.catalog.serverOnly :=
    serverOnly_id
  unfold keysetAfter
  split
  · split
    · exact .pure ⟨⟨visible, tie⟩, visible⟩
    · exact .pure ⟨visible, tie⟩
  · refine .bind fun equal isEqual => ?_
    have equalVisible := compare_visible visible equal isEqual
    split
    · exact .bind fun less isLess =>
        .pure ⟨compare_visible visible less isLess, equalVisible, tie⟩
    · exact .bind fun greater isGreater =>
        .pure ⟨compare_visible visible greater isGreater, visible, equalVisible, tie⟩

section Built

variable (blind : repo.privileged = false)
include blind

/-- **A filter reads a column that the caller may read.** -/
theorem filterCondition_visible (slug op : String) (value : Option ν) :
    Ensures (Condition.Visible repo.catalog.serverOnly)
      (repo.filterCondition env slug op value) := by
  refine .bind fun term isTerm => ?_
  have visible := column_visible blind slug term isTerm
  split
  · refine .pure ?_
    split <;> exact visible
  · dsimp only
    split
    · exact .pure trivial
    · split
      · exact ensures_refuse _
      · exact .bind fun values _ => .pure visible
  · split
    · exact .pure visible
    · exact ensures_refuse _
  · split
    · exact ensures_refuse _
    · exact .bind fun coerced _ => compare_visible visible

theorem searchCondition_visible (text : String) {condition : Condition String ν}
    (built : repo.searchCondition text = some condition) :
    condition.Visible repo.catalog.serverOnly := by
  unfold searchCondition at built
  dsimp only at built
  split at built
  · cases built
  · cases built
    apply Condition.visible_anyOf
    intro part member
    obtain ⟨field, isSearchable, rfl⟩ := mem_map.mp member
    obtain ⟨isField, searchable⟩ := mem_filter.mp isSearchable
    have isOpen : field.slug ∉ repo.catalog.serverOnlySlugs := by
      rw [Bool.and_eq_true, hides, blind] at searchable
      simpa using searchable.2
    exact Catalog.serverOnly_field isField isOpen

omit blind in
theorem cursorCondition_visible {request : ListRequest ν} {term : Term String}
    {descending : Bool} (visible : repo.catalog.serverOnly term.reads = false) :
    Ensures (fun conditions => ∀ condition ∈ conditions, condition.Visible repo.catalog.serverOnly)
      (repo.cursorCondition env request term descending) := by
  unfold cursorCondition
  split
  · exact .pure fun _ member => absurd member not_mem_nil
  · split
    · exact ensures_refuse _
    · refine .bind fun orderValue _ => .bind fun after isAfter => .pure ?_
      intro condition member
      obtain rfl := mem_singleton.mp member
      exact keysetAfter_visible visible _ isAfter

omit blind in
variable (env) in
theorem pageStatement_visible (request : ListRequest ν) {term : Term String}
    {filters : List (Condition String ν)} {searched : Option (Condition String ν)}
    (termVisible : repo.catalog.serverOnly term.reads = false)
    (filtersVisible : ∀ condition ∈ filters, condition.Visible repo.catalog.serverOnly)
    (searchVisible : ∀ condition, searched = some condition →
      condition.Visible repo.catalog.serverOnly) :
    Ensures (fun statement => repo.catalog.serverOnly statement.1.reads = false ∧
        statement.2.2.Visible repo.catalog.serverOnly)
      (repo.pageStatement env request term filters searched) := by
  refine .bind fun after isAfter => .pure ⟨termVisible, ?_, ?_⟩
  · intro condition member
    simp only [mem_append, mem_singleton, Option.mem_toList] at member
    rcases member with ((rfl | isFilter) | isSearch) | isCursor
    · exact inOrg_visible
    · exact filtersVisible condition isFilter
    · exact searchVisible condition isSearch
    · exact cursorCondition_visible termVisible after isAfter condition isCursor
  · intro sorting member
    rcases mem_cons.mp member with rfl | isId
    · exact termVisible
    · obtain rfl := mem_singleton.mp isId
      exact serverOnly_id

/-- **The statement of a page reads no hidden column, and its cursor holds none.** -/
theorem listStatement_visible (request : ListRequest ν) :
    Ensures (fun found => ∀ statement, found = some statement →
        repo.catalog.serverOnly statement.1.reads = false ∧
          statement.2.2.Visible repo.catalog.serverOnly)
      (repo.listStatement env request) := by
  refine .bind fun term isTerm => .bind fun filters areFilters => ?_
  have termVisible := column_visible blind request.orderSlug term isTerm
  have filtersVisible := Ensures.mapM
    (fun clause _ => filterCondition_visible blind clause.1 clause.2.1 clause.2.2) filters areFilters
  have page {searched : Option (Condition String ν)} (searchVisible : ∀ condition,
      searched = some condition → condition.Visible repo.catalog.serverOnly) :=
    (pageStatement_visible env request termVisible filtersVisible searchVisible)
  dsimp only
  cases (request.search.map env.python.strip).filter (· ≠ "") with
  | none =>
    refine .bind fun statement isStatement => .pure ?_
    intro other same
    cases same
    have noSearch : ∀ condition : Condition String ν, none = some condition →
        condition.Visible repo.catalog.serverOnly := nofun
    exact page noSearch statement isStatement
  | some text =>
    cases built : repo.searchCondition text with
    | none =>
      rw [Option.map_some, built]
      exact .pure nofun
    | some condition =>
      rw [Option.map_some, built]
      refine .bind fun statement isStatement => .pure ?_
      intro found isFound
      cases isFound
      refine page (fun other same => ?_) statement isStatement
      cases same
      exact searchCondition_visible blind text built

/-! ## Aggregates -/

/-- **What a metric folds, the caller may read.** -/
theorem aggregateExpr_visible (op : AggOp) (field : Option String) :
    Ensures (Output.Visible repo.catalog.serverOnly) (repo.aggregateExpr op field) := by
  have folded (slug : String) (fold : Query.Fold) (accepted : Bool) (error : EntityRecordError) :
      Ensures (Output.Visible repo.catalog.serverOnly) (do
        let term ← repo.column slug
        if accepted then return .folded fold term
        else refuse error) := by
    refine .bind fun term isTerm => ?_
    split
    · exact .pure (column_visible blind slug term isTerm)
    · exact ensures_refuse _
  cases op with
  | count => exact .pure trivial
  | countDistinct =>
    cases field with
    | none => exact ensures_refuse _
    | some slug => exact .bind fun term isTerm => .pure (column_visible blind slug term isTerm)
  | sum =>
    cases field with
    | none => exact ensures_refuse _
    | some slug => exact folded slug _ _ _
  | avg =>
    cases field with
    | none => exact ensures_refuse _
    | some slug => exact folded slug _ _ _
  | min =>
    cases field with
    | none => exact ensures_refuse _
    | some slug => exact folded slug _ _ _
  | max =>
    cases field with
    | none => exact ensures_refuse _
    | some slug => exact folded slug _ _ _

omit blind in
theorem claim_visible {columns : List ResultColumn} {column : ResultColumn}
    (visible : ∀ other ∈ columns, other.output.Visible repo.catalog.serverOnly)
    (columnVisible : column.output.Visible repo.catalog.serverOnly) :
    Ensures (fun result => ∀ other ∈ result, other.output.Visible repo.catalog.serverOnly)
      (claim columns column) := by
  unfold claim
  split
  · exact ensures_refuse _
  · refine .pure fun other member => ?_
    rcases mem_append.mp member with earlier | isColumn
    · exact visible other earlier
    · obtain rfl := mem_singleton.mp isColumn
      exact columnVisible

theorem groupTerm_visible (group : GroupBy) :
    Ensures (fun named => repo.catalog.serverOnly named.2.reads = false)
      (repo.groupTerm group) := by
  refine .bind fun term isTerm => ?_
  have visible := column_visible blind group.field term isTerm
  dsimp only
  split
  · split
    · exact .pure visible
    · exact ensures_refuse _
  · split
    · exact ensures_refuse _
    · exact .pure visible

theorem addGroup_visible (columns : List ResultColumn) (group : GroupBy)
    (visible : ∀ other ∈ columns, other.output.Visible repo.catalog.serverOnly) :
    Ensures (fun result => ∀ other ∈ result, other.output.Visible repo.catalog.serverOnly)
      (repo.addGroup columns group) :=
  .bind fun named isNamed => claim_visible visible (groupTerm_visible blind group named isNamed)

theorem addMetric_visible (columns : List ResultColumn) (metric : Metric)
    (visible : ∀ other ∈ columns, other.output.Visible repo.catalog.serverOnly) :
    Ensures (fun result => ∀ other ∈ result, other.output.Visible repo.catalog.serverOnly)
      (repo.addMetric columns metric) :=
  .bind fun output isOutput =>
    claim_visible visible (aggregateExpr_visible blind metric.op metric.field output isOutput)

omit blind in
theorem havingClause_visible {metrics : List ResultColumn} (spec : HavingSpec ν)
    (visible : ∀ metric ∈ metrics, metric.output.Visible repo.catalog.serverOnly) :
    Ensures (fun entry => entry.1.Visible repo.catalog.serverOnly) (havingClause metrics spec) := by
  unfold havingClause
  split
  · exact ensures_refuse _
  · rename_i metric found
    split
    · exact ensures_refuse _
    · exact .pure (visible metric (mem_of_find?_eq_some found))

omit blind in
theorem orderClause_visible {columns : List ResultColumn} (spec : OrderSpec)
    (visible : ∀ column ∈ columns, column.output.Visible repo.catalog.serverOnly) :
    Ensures (fun entry => entry.1.Visible repo.catalog.serverOnly) (orderClause columns spec) := by
  unfold orderClause
  split
  · exact ensures_refuse _
  · rename_i column found
    exact .pure (visible column (mem_of_find?_eq_some found))

omit blind in
theorem orderClauses_visible {groups columns : List ResultColumn} (specs : List OrderSpec)
    (groupsVisible : ∀ group ∈ groups, group.output.Visible repo.catalog.serverOnly)
    (columnsVisible : ∀ column ∈ columns, column.output.Visible repo.catalog.serverOnly) :
    Ensures (fun orderBy => ∀ entry ∈ orderBy, entry.1.Visible repo.catalog.serverOnly)
      (orderClauses groups columns specs) := by
  unfold orderClauses
  split
  · refine .pure fun entry member => ?_
    obtain ⟨group, isGroup, rfl⟩ := mem_map.mp member
    exact groupsVisible group isGroup
  · exact .mapM fun spec _ => orderClause_visible spec columnsVisible

/-- **An aggregate reads no hidden column.** -/
theorem buildAggregate_visible (query : AggregateQuery ν) :
    Ensures (fun built => built.2.2.Visible repo.catalog.serverOnly)
      (repo.buildAggregate env query) := by
  refine .bind fun groups areGroups => .bind fun columns areColumns => ?_
  have groupsVisible := Ensures.foldlM (fun _ member => absurd member not_mem_nil)
    (fun group _ columns => addGroup_visible blind columns group) groups areGroups
  have columnsVisible := Ensures.foldlM groupsVisible
    (fun metric _ columns => addMetric_visible blind columns metric) columns areColumns
  refine .bind fun conditions areConditions => .bind fun having areHaving =>
    .bind fun orderBy areOrders => .pure ?_
  refine ⟨?_, ?_, ?_, ?_, ?_⟩
  · intro term member
    obtain ⟨group, isGroup, isKey⟩ := mem_filterMap.mp member
    have visible := groupsVisible group isGroup
    cases same : group.output with
    | key other =>
      rw [same] at isKey visible
      cases isKey
      exact visible
    | count =>
      rw [same] at isKey
      cases isKey
    | folded fold other =>
      rw [same] at isKey
      cases isKey
  · intro output member
    obtain ⟨column, isColumn, rfl⟩ := mem_map.mp member
    exact columnsVisible column isColumn
  · intro condition member
    rcases mem_append.mp member with isOrg | isFilter
    · obtain rfl := mem_singleton.mp isOrg
      exact inOrg_visible
    · exact Ensures.mapM (fun clause _ =>
        filterCondition_visible blind clause.1 clause.2.1 clause.2.2) conditions areConditions
          condition isFilter
  · exact Ensures.mapM (fun spec _ => havingClause_visible spec fun metric member =>
      columnsVisible metric (mem_of_mem_drop member)) having areHaving
  · exact orderClauses_visible query.orderBy groupsVisible columnsVisible orderBy areOrders

/-! ## What is written and returned -/

theorem toPublic_erase (row : Row String ν) :
    repo.toPublic (Query.erase repo.catalog.serverOnly row) = repo.toPublic row := by
  have bases : (baseReadColumns.map fun column =>
      (column, Query.erase repo.catalog.serverOnly row column)) =
        baseReadColumns.map fun column => (column, row column) := by
    apply map_congr_left
    intro column member
    have isBase : column ∈ baseColumns := by
      revert member
      simp only [baseReadColumns, baseColumns, mem_cons, not_mem_nil, or_false]
      tauto
    rw [Query.erase_visible (Catalog.serverOnly_base isBase)]
  rw [toPublic, toPublic, bases]
  apply foldl_ext
  intro out slug member
  have isOpen : repo.hides slug = false := by simpa using (mem_filter.mp member).2
  unfold showSlug
  split
  · rename_i column found
    rw [Query.erase_visible (serverOnly_of_not_hides blind isOpen found)]
  · rfl

/-- A column that a payload may write: no hidden one, and not the id. -/
def Writable (repo : Repository ν) (column : String) : Prop :=
  repo.catalog.serverOnly column = false ∧ column ≠ "id"

theorem writeCell_writable {entry : String × Option ν} (isOpen : repo.hides entry.1 = false) :
    Ensures (fun cell => repo.Writable cell.1) (repo.writeCell env entry) := by
  unfold writeCell
  dsimp only
  split
  · exact ensures_refuse _
  · split
    · exact ensures_refuse _
    · split
      · rename_i column found
        refine .bind fun value _ => .pure ⟨serverOnly_of_not_hides blind isOpen found, ?_⟩
        rintro rfl
        exact Catalog.slugToCol_not_base found (by decide)
      · exact ensures_refuse _

section

variable (payload : List (String × Option ν)) (forCreate : Bool)

/-- **A payload writes no hidden column.** -/
theorem toRow_writable :
    Ensures (fun row => ∀ cell ∈ row, repo.Writable cell.1) (repo.toRow env payload forCreate) := by
  unfold toRow
  dsimp only
  split
  · exact ensures_refuse _
  · split
    · exact ensures_refuse _
    · refine .bind fun row isRow => ?_
      split
      · exact ensures_refuse _
      · refine .pure (Ensures.mapM (fun entry member => ?_) row isRow)
        exact writeCell_writable blind (by simpa using (mem_filter.mp member).2)

theorem prepare_writable (db : Database σ ν) :
    Ensures (fun row => ∀ cell ∈ row, repo.Writable cell.1)
      (repo.prepare env payload forCreate db) :=
  .bind fun _ _ => .bind fun _ _ => toRow_writable blind payload forCreate

end

end Built

/-! ## The table without the hidden values -/

/-- The database with empty hidden columns. -/
def erased (repo : Repository ν) (db : Database σ ν) : Database σ ν :=
  { db with rows := db.rows.map (Query.erase repo.catalog.serverOnly) }

theorem isRecord_erase (recordId : ν) (row : Row String ν) :
    repo.isRecord env recordId (Query.erase repo.catalog.serverOnly row) =
      repo.isRecord env recordId row := by
  refine Query.allHold_erase env.engine (fun condition member => ?_) row
  rcases mem_cons.mp member with rfl | isOrg
  · exact serverOnly_id
  · obtain rfl := mem_singleton.mp isOrg
    exact inOrg_visible

theorem find_erased (recordId : ν) (db : Database σ ν) :
    (repo.erased db).rows.find? (repo.isRecord env recordId) =
      (db.rows.find? (repo.isRecord env recordId)).map (Query.erase repo.catalog.serverOnly) := by
  rw [erased, find?_map]
  congr 2
  funext row
  exact isRecord_erase recordId row

theorem recordIds_erased (table : String) (db : Database σ ν) :
    repo.recordIds env table (repo.erased db) = repo.recordIds env table db := by
  unfold recordIds
  split
  · have onlyOrg : ∀ condition ∈ [repo.inOrg], condition.Visible repo.catalog.serverOnly := by
      intro condition member
      obtain rfl := mem_singleton.mp member
      exact inOrg_visible
    rw [erased, Query.filter_map_erase env.engine onlyOrg, filterMap_map]
    apply filterMap_congr
    intro row _
    exact Query.erase_visible serverOnly_id
  · rfl

theorem validateRelationships_erased (payload : List (String × Option ν)) (db : Database σ ν) :
    repo.validateRelationships env payload (repo.erased db) =
      repo.validateRelationships env payload db := by
  unfold validateRelationships
  simp only [recordIds_erased]
  rfl

theorem prepare_erased (payload : List (String × Option ν)) (forCreate : Bool) (db : Database σ ν) :
    repo.prepare env payload forCreate (repo.erased db) = repo.prepare env payload forCreate db := by
  rw [prepare, prepare, validateRelationships_erased]

theorem execute_congr {α β : Type} {bound : List (String × ν)} {result result' : α}
    {next : α → β} (same : next result = next result') :
    next <$> execute env bound result = next <$> execute env bound result' := by
  unfold execute
  split
  · exact congrArg Except.ok same
  · rfl

/-! ### Reads -/

section Reads

variable (blind : repo.privileged = false)
include blind

theorem get_erased (recordId : ν) (db : Database σ ν) :
    repo.get env recordId (repo.erased db) = repo.get env recordId db := by
  rw [get, get, find_erased, Option.map_map]
  congr 1
  funext row
  exact toPublic_erase blind row

theorem findCondition_visible (slug : String) (value : Option ν) (caseInsensitive : Bool) :
    Ensures (Condition.Visible repo.catalog.serverOnly)
      (repo.findCondition env slug value caseInsensitive) := by
  refine .bind fun term isTerm => ?_
  have visible := column_visible blind slug term isTerm
  dsimp only
  split
  · exact .pure visible
  · exact .bind fun coerced _ => compare_visible visible

omit blind in
theorem findSelection_visible {condition : Condition String ν}
    (visible : condition.Visible repo.catalog.serverOnly) :
    (repo.findSelection condition).Visible repo.catalog.serverOnly := by
  refine ⟨?_, ?_⟩
  · intro other member
    simp only [findSelection, mem_cons, not_mem_nil, or_false] at member
    rcases member with rfl | rfl
    · exact inOrg_visible
    · exact visible
  · intro sorting member
    simp only [findSelection, mem_cons, not_mem_nil, or_false] at member
    rcases member with rfl | rfl
    · exact Catalog.serverOnly_base (by decide)
    · exact serverOnly_id

theorem findOneByField_erased (slug : String) (value : Option ν) (caseInsensitive : Bool)
    (db : Database σ ν) :
    repo.findOneByField env slug value caseInsensitive (repo.erased db) =
      repo.findOneByField env slug value caseInsensitive db := by
  refine Ensures.bind_congr (findCondition_visible blind slug value caseInsensitive)
    fun condition visible => ?_
  dsimp only
  rw [erased, Selection.run_erase (findSelection_visible visible)]
  refine execute_congr ?_
  rw [head?_map, Option.map_map]
  congr 1
  funext row
  exact toPublic_erase blind row

theorem pageOf_erase (request : ListRequest ν) {term : Term String} (descending : Bool)
    (visible : repo.catalog.serverOnly term.reads = false) (rows : List (Row String ν)) :
    repo.pageOf request term descending (rows.map (Query.erase repo.catalog.serverOnly)) =
      repo.pageOf request term descending rows := by
  have records : repo.toPublic ∘ Query.erase repo.catalog.serverOnly = repo.toPublic := by
    funext row
    exact toPublic_erase blind row
  simp only [pageOf, ← map_take, map_map, records, getLast?_map, length_map]
  cases (rows.take request.pageSize).getLast? with
  | none => rfl
  | some row =>
    simp only [Option.map_some, Option.filter_some]
    split
    · simp only [Option.bind_some, Query.erase_visible serverOnly_id, Query.erase_visible visible]
    · rfl

theorem list_erased (request : ListRequest ν) (db : Database σ ν) :
    repo.list env request (repo.erased db) = repo.list env request db := by
  refine Ensures.bind_congr (listStatement_visible blind request) fun statement visible => ?_
  cases statement with
  | none => rfl
  | some statement =>
    obtain ⟨termVisible, selectionVisible⟩ := visible statement rfl
    dsimp only
    rw [erased, Selection.run_erase selectionVisible]
    exact execute_congr (pageOf_erase blind request statement.2.1 termVisible _)

theorem aggregate_erased (query : AggregateQuery ν) (db : Database σ ν) :
    repo.aggregate env query (repo.erased db) = repo.aggregate env query db := by
  refine Ensures.bind_congr (buildAggregate_visible blind query) fun built visible => ?_
  dsimp only
  rw [erased, Grouping.run_erase visible]

end Reads

/-! ### Writes -/

/-- No hidden column has a unique constraint. -/
def Unconstrained (repo : Repository ν) : Prop :=
  ∀ field ∈ repo.catalog.fields, field.readAccess = .serverOnly → field.isUnique = false

section Writes

variable (blind : repo.privileged = false) (unconstrained : repo.Unconstrained)

include unconstrained in
theorem uniqueColumns_visible {entry : String × Option String}
    (member : entry ∈ repo.uniqueColumns) : repo.catalog.serverOnly entry.1 = false := by
  rcases mem_append.mp member with isField | isRelationship
  · rcases mem_cons.mp isField with rfl | isField
    · exact serverOnly_id
    · obtain ⟨field, isUnique, rfl⟩ := mem_map.mp isField
      obtain ⟨inFields, isUnique⟩ := mem_filter.mp isUnique
      refine Catalog.serverOnly_field inFields fun isHidden => ?_
      obtain ⟨other, isOther, sameSlug⟩ := mem_map.mp isHidden
      obtain ⟨inOthers, isServerOnly⟩ := mem_filter.mp isOther
      obtain rfl := inj_on_of_nodup_map repo.catalog.fieldSlugs_nodup inOthers inFields sameSlug
      rw [unconstrained other inOthers (by simpa using isServerOnly)] at isUnique
      cases isUnique
  · obtain ⟨relationship, isLink, rfl⟩ := mem_map.mp isRelationship
    exact Catalog.serverOnly_relationship (mem_filter.mp isLink).1

include unconstrained in
variable (env) in
theorem conflict_erase (others : List (Row String ν)) (row : Row String ν) :
    repo.conflict env (others.map (Query.erase repo.catalog.serverOnly))
        (Query.erase repo.catalog.serverOnly row) = repo.conflict env others row := by
  have org : repo.catalog.serverOnly "org_id" = false := Catalog.serverOnly_base (by decide)
  unfold conflict
  congr 1
  apply find?_congr
  rintro ⟨column, slug⟩ member
  have visible := uniqueColumns_visible unconstrained member
  simp only [Query.erase_visible visible, Query.erase_visible org, any_map, comp_def]

theorem erase_assign_of_writable {row : Row String ν} {values : List (String × Option ν)}
    (writable : ∀ cell ∈ values, repo.Writable cell.1) :
    Query.erase repo.catalog.serverOnly (Query.assign row values) =
      Query.assign (Query.erase repo.catalog.serverOnly row) values :=
  Query.erase_assign fun cell member => (writable cell member).1

theorem writable_concat {row : List (String × Option ν)} (column : String) (value : Option ν)
    (writable : ∀ cell ∈ row, repo.Writable cell.1)
    (isBase : column ∈ ["org_id", "updated_at"]) :
    ∀ cell ∈ row ++ [(column, value)], repo.Writable cell.1 := by
  have base : column ∈ baseColumns ∧ column ≠ "id" := by
    revert column
    decide
  intro other member
  rcases mem_append.mp member with earlier | isLast
  · exact writable other earlier
  · rw [mem_singleton.mp isLast]
    exact ⟨Catalog.serverOnly_base base.1, base.2⟩

theorem erase_blank (moment : Moment ν) :
    Query.erase repo.catalog.serverOnly (blank moment) = blank moment := by
  have empty : Query.erase repo.catalog.serverOnly (fun _ : String => (none : Option ν)) =
      fun _ => none := by
    funext column
    exact ite_self none
  refine (Query.erase_assign fun cell member => ?_).trans (by rw [empty]; rfl)
  have isBase : cell.1 ∈ ["id", "created_at", "updated_at"] := mem_map_of_mem member
  apply Catalog.serverOnly_base
  revert isBase
  generalize cell.1 = column
  revert column
  decide

include blind in
theorem newRow_erase (moment : Moment ν) (payload : List (String × Option ν)) (db : Database σ ν) :
    Ensures (fun created => Query.erase repo.catalog.serverOnly created = created)
      (repo.newRow env moment payload db) := by
  refine .bind fun row isRow => .bind fun found _ => ?_
  have writable := writable_concat "org_id" (some repo.orgId)
    (prepare_writable blind payload true db row isRow) (by decide)
  split
  · exact .error _
  · exact .pure (by rw [erase_assign_of_writable writable, erase_blank])

include blind unconstrained in
theorem newRow_erased (moment : Moment ν) (payload : List (String × Option ν)) (db : Database σ ν) :
    repo.newRow env moment payload (repo.erased db) = repo.newRow env moment payload db := by
  unfold newRow
  rw [prepare_erased]
  refine Ensures.bind_congr (prepare_writable blind payload true db) fun row writable => ?_
  have allWritable := writable_concat "org_id" (some repo.orgId) writable (by decide)
  have noHidden : Query.erase repo.catalog.serverOnly
      (Query.assign (blank moment) (row ++ [("org_id", some repo.orgId)])) =
        Query.assign (blank moment) (row ++ [("org_id", some repo.orgId)]) := by
    rw [erase_assign_of_writable allWritable, erase_blank]
  have sameConflict := conflict_erase env unconstrained db.rows
    (Query.assign (blank moment) (row ++ [("org_id", some repo.orgId)]))
  rw [noHidden] at sameConflict
  dsimp only [erased]
  rw [sameConflict]

include blind unconstrained in
theorem create_erased (moment : Moment ν) (payload : List (String × Option ν)) (db : Database σ ν) :
    repo.create env moment payload (repo.erased db) =
      ((repo.create env moment payload db).1, repo.erased (repo.create env moment payload db).2) := by
  rw [create, create, newRow_erased blind unconstrained]
  cases isRow : repo.newRow env moment payload db with
  | error failure => rfl
  | ok created =>
    have same : ({ repo.erased db with rows := (repo.erased db).rows ++ [created] } :
        Database σ ν) = repo.erased { db with rows := db.rows ++ [created] } := by
      rw [erased, erased, map_append, map_singleton,
        newRow_erase blind moment payload db created isRow]
    dsimp only
    rw [same]
    split <;> rfl

include unconstrained in
theorem changedRow_erased (recordId : ν) {values : List (String × Option ν)}
    (writable : ∀ cell ∈ values, repo.Writable cell.1) (db : Database σ ν) :
    repo.changedRow env recordId values (repo.erased db) =
      (repo.changedRow env recordId values db).map
        (Option.map (Query.erase repo.catalog.serverOnly)) := by
  unfold changedRow execute
  rw [find_erased]
  have others : (repo.erased db).rows.filter (fun other => !repo.isRecord env recordId other) =
      (db.rows.filter fun other => !repo.isRecord env recordId other).map
        (Query.erase repo.catalog.serverOnly) := by
    rw [erased, filter_map]
    congr 2
    funext row
    exact congrArg _ (isRecord_erase recordId row)
  split
  · cases db.rows.find? (repo.isRecord env recordId) with
    | none => rfl
    | some found =>
      have sameConflict := conflict_erase env unconstrained
        (db.rows.filter fun other => !repo.isRecord env recordId other)
        (Query.assign found values)
      rw [erase_assign_of_writable writable] at sameConflict
      simp only [Option.map_some, others, sameConflict, pure_bind]
      split
      · rfl
      · exact congrArg (fun row => Except.ok (some row)) (erase_assign_of_writable writable).symm
  · rfl

theorem changed_erase (recordId : ν) {values : List (String × Option ν)}
    (writable : ∀ cell ∈ values, repo.Writable cell.1) (rows : List (Row String ν)) :
    ((rows.map (Query.erase repo.catalog.serverOnly)).map fun row =>
        if repo.isRecord env recordId row then Query.assign row values else row) =
      (rows.map fun row =>
        if repo.isRecord env recordId row then Query.assign row values else row).map
          (Query.erase repo.catalog.serverOnly) := by
  rw [map_map, map_map]
  apply map_congr_left
  intro row _
  simp only [comp_apply, isRecord_erase]
  split
  · exact (erase_assign_of_writable writable).symm
  · rfl

include blind unconstrained in
theorem update_erased (moment : Moment ν) (recordId : ν) (patch : List (String × Option ν))
    (db : Database σ ν) :
    repo.update env moment recordId patch (repo.erased db) =
      ((repo.update env moment recordId patch db).1,
        repo.erased (repo.update env moment recordId patch db).2) := by
  rw [update, update, prepare_erased]
  cases isRow : repo.prepare env patch false db with
  | error failure => rfl
  | ok row =>
    have writable := prepare_writable blind patch false db row isRow
    cases row with
    | nil => exact congrArg (fun found => (Except.ok found, _)) (get_erased blind recordId db)
    | cons cell rest =>
      have allWritable := writable_concat "updated_at" (some moment.now) writable (by decide)
      dsimp only
      rw [changedRow_erased unconstrained recordId allWritable]
      cases repo.changedRow env recordId _ db with
      | error failure => rfl
      | ok changed =>
        cases changed with
        | none => rfl
        | some changed =>
          refine Prod.ext ?_ ?_
          · exact congrArg (fun record => Except.ok (some record)) (toPublic_erase blind changed)
          · exact congrArg (fun rows => ({ db with rows := rows } : Database σ ν))
              (changed_erase recordId allWritable db.rows)

theorem links_erase (row : Row String ν) :
    repo.links (Query.erase repo.catalog.serverOnly row) = repo.links row := by
  unfold links
  rw [Query.erase_visible serverOnly_id]
  congr 1
  apply map_congr_left
  intro relationship member
  rw [Query.erase_visible (Catalog.serverOnly_relationship member)]

theorem unlink_writable {unlinked : List (ν × String)} {row : Row String ν} :
    ∀ cell ∈ (((toOne repo.catalog.relationships).filter fun relationship =>
      unlinked.any fun (id, column) =>
        column = relationship.physicalName && (row "id").any (env.engine.equal id)).map
          fun relationship => (relationship.physicalName, (none : Option ν))),
      repo.Writable cell.1 := by
  intro cell member
  obtain ⟨relationship, isLink, rfl⟩ := mem_map.mp member
  have inLinks := (mem_filter.mp isLink).1
  refine ⟨Catalog.serverOnly_relationship inLinks, ?_⟩
  intro isId
  refine Catalog.relationship_not_base inLinks ?_
  rw [show relationship.physicalName = "id" from isId]
  decide

theorem unlink_erase (unlinked : List (ν × String)) (row : Row String ν) :
    repo.unlink env unlinked (Query.erase repo.catalog.serverOnly row) =
      Query.erase repo.catalog.serverOnly (repo.unlink env unlinked row) := by
  rw [unlink, unlink, Query.erase_visible serverOnly_id, erase_assign_of_writable unlink_writable]

theorem delete_erased (recordId : ν) (db : Database σ ν) :
    repo.delete env recordId (repo.erased db) =
      ((repo.delete env recordId db).1, repo.erased (repo.delete env recordId db).2) := by
  unfold delete
  cases repo.guardWritable with
  | error failure => rfl
  | ok _ =>
    have records : repo.isRecord env recordId ∘ Query.erase repo.catalog.serverOnly =
        repo.isRecord env recordId := by
      funext row
      exact isRecord_erase recordId row
    have allLinks : repo.links ∘ Query.erase repo.catalog.serverOnly = repo.links := by
      funext row
      exact links_erase row
    simp only [erased, any_map, map_map, records, allLinks]
    split
    · cases env.onDelete db.rest (db.rows.map repo.links) recordId with
      | none => rfl
      | some cascade =>
        refine Prod.ext rfl ?_
        simp only [filter_map, map_map]
        congr 1
        have goes : ((fun row : Row String ν => !(repo.isRecord env recordId row ||
            (row "id").any fun id => cascade.removed.any (env.engine.equal id))) ∘
              Query.erase repo.catalog.serverOnly) =
            fun row => !(repo.isRecord env recordId row ||
              (row "id").any fun id => cascade.removed.any (env.engine.equal id)) := by
          funext row
          simp only [comp_apply, isRecord_erase, Query.erase_visible serverOnly_id]
        rw [goes]
        apply map_congr_left
        intro row _
        exact unlink_erase cascade.unlinked row
    · rfl

end Writes

end Repository

end RedArchKM.Records
