import RedArchKM.Lib.Fallible
import RedArchKM.Records.Catalog

/-!
# The repository of an entity's records

Slugs become columns, and a payload or a query that names others is refused. A caller without
privileges neither reads nor writes the fields that are flagged `server_only`: they are dropped from
a payload, left out of a record, and refused in a filter, a sort or an aggregate.

What the database and Python do with values, and what is in the other tables, is an environment. A
deletion may remove other rows or null links to the row, as the foreign keys say.
-/

namespace RedArchKM.Records

open Lib
open Lib.Query (Comparator Condition Grouping Output Row Selection Sorting Term)

variable {σ ν : Type}

/-! ## The environment -/

/-- The id of a row and the cells of its foreign keys. -/
structure Links (ν : Type) where
  id : Option ν
  cells : List (String × Option ν)

/-- What a deletion does besides: rows that go with the row, and links that become null. -/
structure Cascade (σ ν : Type) where
  rest : σ
  removed : List ν
  unlinked : List (ν × String)

structure Environment (σ ν : Type) where
  engine : Query.Engine ν
  python : Python ν
  /-- Whether the driver can hand the value to the column. -/
  accepts : String → ν → Bool
  physicalTable : σ → Nat → Option String
  /-- The org's records in another table. -/
  idsIn : σ → String → List ν
  /-- The `ON DELETE` actions, unless a foreign key forbids the deletion. -/
  onDelete : σ → List (Links ν) → ν → Option (Cascade σ ν)

structure Database (σ ν : Type) where
  rows : List (Row String ν)
  rest : σ

structure Repository (ν : Type) where
  catalog : Catalog
  orgId : ν
  privileged : Bool := false

/-- A record as it is returned, by slug. -/
abbrev Public (ν : Type) := List (String × Option ν)

/-- `out[slug] = value` -/
def put (slug : String) (value : Option ν) : Public ν → Public ν
  | [] => [(slug, value)]
  | entry :: rest => if entry.1 = slug then (slug, value) :: rest else entry :: put slug value rest

def maxPayloadKeys : Nat := 500

/-- `_MAX_IN_VALUES` -/
def maxInValues : Nat := 200

namespace Repository

variable (env : Environment σ ν) (repo : Repository ν)

/-- The field is hidden from the caller. -/
def hides (slug : String) : Bool := !repo.privileged && slug ∈ repo.catalog.serverOnlySlugs

/-! ## Payloads and records -/

def guardWritable : Except Failure Unit :=
  if !repo.privileged && repo.catalog.definition.writeAccess = .workflowOnly then
    .error (.access repo.catalog.definition.slug)
  else return

def writeCell (entry : String × Option ν) : Except Failure (String × Option ν) := do
  let (slug, value) := entry
  let field := repo.catalog.fieldBySlug slug
  let isRequired := field.any EntityField.isRequired ||
    (repo.catalog.relBySlug slug).any EntityRelationship.isRequired
  if value.isNone && isRequired then refuse (.requiredNull slug)
  else
    match field.filter fun field => field.fieldType = .picklist && value.isSome &&
        !(value.bind env.python.text).any (· ∈ field.picklistOptions) with
    | some field => refuse (.notAnOption slug field.picklistOptions)
    | none =>
      match repo.catalog.slugToCol slug with
      | some column => return (column, ← coerceValue env.python field value)
      -- an unknown slug is refused before
      | none => refuse (.unknownFields [slug])

def missing (payload : List (String × Option ν)) : Option String :=
  let isMissing (slug : String) : Bool := (payload.lookup slug).join.isNone
  let fields := (repo.catalog.fields.filter EntityField.isRequired).map EntityField.slug
  let relationships := ((toOne repo.catalog.relationships).filter
    EntityRelationship.isRequired).map EntityRelationship.slug
  (fields ++ relationships).find? isMissing

def toRow (payload : List (String × Option ν)) (forCreate : Bool) :
    Except Failure (List (String × Option ν)) := do
  -- the fields that the caller may not see are ignored
  let payload := payload.filter fun entry => !repo.hides entry.1
  let unknown := (payload.map Prod.fst).filter fun slug => (repo.catalog.slugToCol slug).isNone
  if payload.length > maxPayloadKeys then refuse .tooManyFields
  else if !unknown.isEmpty then
    refuse (.unknownFields (unknown.mergeSort fun a b => decide (a ≤ b)))
  else do
    let row ← payload.mapM (repo.writeCell env)
    match (if forCreate then repo.missing payload else none) with
    | some slug => refuse (.required slug)
    | none => return row

def showSlug (row : Row String ν) (out : Public ν) (slug : String) : Public ν :=
  match repo.catalog.slugToCol slug with
  | some column => put slug (row column) out
  | none => out

def toPublic (row : Row String ν) : Public ν :=
  (repo.catalog.slugs.filter fun slug => !repo.hides slug).foldl (repo.showSlug row)
    (baseReadColumns.map fun column => (column, row column))

/-! ## Conditions -/

def column (slug : String) : Except Failure (Term String) :=
  if slug ∈ baseReadColumns then return .column slug
  else
    match repo.catalog.slugToCol slug with
    | none => refuse (.unknownField slug)
    | some column => if repo.hides slug then refuse (.notReadable slug) else return .column column

/-- Comparisons as the query builder makes them: `None` is compared by `IS`, and neither `None` nor
a truth value has an order. -/
def compare (comparator : Comparator) (term : Term String) (value : Option ν) :
    Except Failure (Condition String ν) :=
  match comparator, value with
  | .eq, none => return .isNull term
  | .ne, none => return .isNotNull term
  | _, none => .error .argument
  | comparator, some value =>
    if (env.python.bool value).isSome && comparator ≠ .eq && comparator ≠ .ne then .error .argument
    else return .compare comparator term value

def comparators : List (String × Comparator) :=
  [("eq", .eq), ("ne", .ne), ("gt", .gt), ("gte", .gte), ("lt", .lt), ("lte", .lte)]

def escapeLike (value : String) : String :=
  ((value.replace "\\" "\\\\").replace "%" "\\%").replace "_" "\\_"

def likePattern (text : String) : String := "%" ++ escapeLike text ++ "%"

/-- Whether an `isnull` filter asks for nulls. -/
def wantsNull (value : Option ν) : Bool :=
  match value with
  | none => true
  | some given =>
    match env.python.bool given with
    | some wanted => wanted
    | none =>
      env.python.text given = some "" ||
        env.python.casefold (env.python.strip (env.python.str value)) ∈ trueStrings

/-- The values of an `in` filter. A text is a list with commas. -/
def inValues (value : Option ν) : List (Option ν) :=
  match value.bind env.python.text, value.bind env.python.items with
  | some text, _ =>
    ((text.splitOn ",").filter (· ≠ "")).map fun part => some (env.python.ofText part)
  | none, some items => items
  | none, none => [value]

def filterCondition (slug op : String) (value : Option ν) :
    Except Failure (Condition String ν) := do
  let term ← repo.column slug
  match op with
  | "isnull" => return if wantsNull env value then .isNull term else .isNotNull term
  | "in" =>
    let values := inValues env value
    if values.isEmpty then return .never
    else if values.length > maxInValues then refuse .tooManyInValues
    else return .among term (← values.mapM (coerceBySlug env.python repo.catalog slug))
  | "contains" =>
    if (repo.catalog.fieldBySlug slug).any fun field => field.fieldType ∈ searchableFieldTypes then
      return .like term (likePattern (env.python.str value))
    else refuse (.notSearchable slug)
  | op =>
    match comparators.lookup op with
    | none => refuse (.unknownOperator op)
    | some comparator =>
      compare env comparator term (← coerceBySlug env.python repo.catalog slug value)

def inOrg : Condition String ν := .compare .eq (.column "org_id") repo.orgId

/-- `_keyset_after` -/
def keysetAfter (term : Term String) (orderValue : Option ν) (id : ν) (descending : Bool) :
    Except Failure (Condition String ν) := do
  let tie := Condition.compare .lt (.column "id") id
  match orderValue with
  | none =>
    if descending then return .either (.both (.isNull term) tie) (.isNotNull term)
    else return .both (.isNull term) tie
  | some _ =>
    let equal ← compare env .eq term orderValue
    if descending then return .either (← compare env .lt term orderValue) (.both equal tie)
    else
      return .either (← compare env .gt term orderValue) (.either (.isNull term) (.both equal tie))

/-! ## Reads -/

/-- The values are handed to the database, if the driver can. -/
def execute {α : Type} (bound : List (String × ν)) (result : α) : Except Failure α :=
  if bound.all fun (column, value) => env.accepts column value then return result
  else .error .driver

def isRecord (recordId : ν) (row : Row String ν) : Bool :=
  Query.allHold env.engine [.compare .eq (.column "id") recordId, repo.inOrg] row

def get (recordId : ν) (db : Database σ ν) : Option (Public ν) :=
  (db.rows.find? (repo.isRecord env recordId)).map repo.toPublic

def findCondition (slug : String) (value : Option ν) (caseInsensitive : Bool) :
    Except Failure (Condition String ν) := do
  let term ← repo.column slug
  let searchable := (repo.catalog.fieldBySlug slug).any fun field =>
    field.fieldType ∈ searchableFieldTypes
  match (value.bind env.python.text).filter fun _ => caseInsensitive && searchable with
  | some text => return .compare .eq (.lower term) (env.python.ofText (env.python.lower text))
  | none => compare env .eq term (← coerceBySlug env.python repo.catalog slug value)

/-- The oldest record that meets the condition. -/
def findSelection (condition : Condition String ν) : Selection String ν where
  conditions := [repo.inOrg, condition]
  orderBy := [⟨.column "created_at", false, false⟩, ⟨.column "id", false, false⟩]
  limit := 1

def findOneByField (slug : String) (value : Option ν) (caseInsensitive : Bool)
    (db : Database σ ν) : Except Failure (Option (Public ν)) := do
  let selection := repo.findSelection (← repo.findCondition env slug value caseInsensitive)
  let found ← execute env selection.bound (selection.run env.engine db.rows)
  return found.head?.map repo.toPublic

inductive Filters (ν : Type) where
  | byValue (values : List (String × Option ν))
  | clauses (clauses : List (String × String × Option ν))

/-- `_normalize_filters` -/
def Filters.normalize : Filters ν → List (String × String × Option ν)
  | .byValue values => values.map fun (slug, value) => (slug, "eq", value)
  | .clauses given => given

structure RecordCursor (ν : Type) where
  orderSlug : String
  orderDir : String
  orderValue : Option ν
  id : ν

structure ListRequest (ν : Type) where
  filters : Filters ν := .clauses []
  search : Option String := none
  cursor : Option (RecordCursor ν) := none
  limit : Int := 50
  orderBy : Option String := none
  orderDir : String := "desc"

def ListRequest.orderSlug (request : ListRequest ν) : String :=
  match request.orderBy with
  | some slug => if slug = "" then "created_at" else slug
  | none => "created_at"

def ListRequest.pageSize (request : ListRequest ν) : Nat := (max 1 (min request.limit 200)).toNat

def searchCondition (text : String) : Option (Condition String ν) :=
  let searchable := repo.catalog.fields.filter fun field =>
    field.fieldType ∈ searchableFieldTypes && !repo.hides field.slug
  if searchable.isEmpty then none
  else some (.anyOf (searchable.map fun field =>
    .like (.column field.physicalColumn) (likePattern text)))

section

variable (request : ListRequest ν)

def cursorCondition (term : Term String) (descending : Bool) :
    Except Failure (List (Condition String ν)) :=
  match request.cursor with
  | none => return []
  | some cursor =>
    if cursor.orderSlug ≠ request.orderSlug ∨ (cursor.orderDir = "desc") ≠ descending then
      refuse .cursorMismatch
    else do
      let orderValue ←
        coerceBySlug env.python repo.catalog request.orderSlug cursor.orderValue
      return [← keysetAfter env term orderValue cursor.id descending]

def pageStatement (term : Term String) (filters : List (Condition String ν))
    (searched : Option (Condition String ν)) :
    Except Failure (Term String × Bool × Selection String ν) := do
  let descending : Bool := env.python.lower request.orderDir ≠ "asc"
  let after ← repo.cursorCondition env request term descending
  return (term, descending,
    { conditions := [repo.inOrg] ++ filters ++ searched.toList ++ after
      orderBy := [⟨term, descending, descending⟩, ⟨.column "id", true, true⟩]
      limit := request.pageSize + 1 })

def listStatement : Except Failure (Option (Term String × Bool × Selection String ν)) := do
  let term ← repo.column request.orderSlug
  let filters ← request.filters.normalize.mapM fun (slug, op, value) =>
    repo.filterCondition env slug op value
  let text := (request.search.map env.python.strip).filter (· ≠ "")
  match text.map repo.searchCondition with
  | some none => return none
  | searched => return some (← repo.pageStatement env request term filters searched.join)

def pageOf (term : Term String) (descending : Bool) (rows : List (Row String ν)) :
    List (Public ν) × Option (RecordCursor ν) :=
  let page := rows.take request.pageSize
  let last := page.getLast?.filter fun _ => rows.length > request.pageSize
  (page.map repo.toPublic,
    last.bind fun row => (row "id").map fun id =>
      { orderSlug := request.orderSlug
        orderDir := if descending then "desc" else "asc"
        orderValue := row term.reads
        id := id })

def list (db : Database σ ν) : Except Failure (List (Public ν) × Option (RecordCursor ν)) := do
  match ← repo.listStatement env request with
  | none => return ([], none)
  | some (term, descending, selection) =>
    let rows ← execute env selection.bound (selection.run env.engine db.rows)
    return repo.pageOf request term descending rows

end

/-! ## Aggregates -/

inductive DateBucket where
  | hour
  | day
  | week
  | month
  | quarter
  | year

def DateBucket.name : DateBucket → String
  | .hour => "hour"
  | .day => "day"
  | .week => "week"
  | .month => "month"
  | .quarter => "quarter"
  | .year => "year"

inductive AggOp where
  | count
  | countDistinct
  | sum
  | avg
  | min
  | max
deriving DecidableEq

def AggOp.name : AggOp → String
  | .count => "count"
  | .countDistinct => "count_distinct"
  | .sum => "sum"
  | .avg => "avg"
  | .min => "min"
  | .max => "max"

structure GroupBy where
  field : String
  bucket : Option DateBucket := none
  label : Option String := none

structure Metric where
  op : AggOp
  field : Option String := none
  label : Option String := none

structure HavingSpec (ν : Type) where
  metric : String
  op : Comparator := .gt
  value : ν

structure OrderSpec where
  key : String
  descending : Bool := true

structure AggregateQuery (ν : Type) where
  groupBy : List GroupBy := []
  metrics : List Metric := []
  filters : List (String × String × Option ν) := []
  having : List (HavingSpec ν) := []
  orderBy : List OrderSpec := []
  limit : Nat := 100

def AggregateQuery.effectiveMetrics (query : AggregateQuery ν) : List Metric :=
  if query.metrics.isEmpty then [{ op := .count, label := some "count" }] else query.metrics

structure AggregateResult (ν : Type) where
  groupBy : List String
  metrics : List String
  rows : List (Public ν)

def aggregateExpr (op : AggOp) (field : Option String) : Except Failure (Output String) :=
  match op, field with
  | .count, _ => return .count
  | _, none => refuse (.fieldMissing op.name)
  | .countDistinct, some field => return .folded .countDistinct (← repo.column field)
  | .sum, some field => do
      let term ← repo.column field
      if (repo.catalog.fieldType field).any (· ∈ numericFieldTypes) then return .folded .sum term
      else refuse (.notNumeric op.name field (repo.catalog.fieldType field))
  | .avg, some field => do
      let term ← repo.column field
      if (repo.catalog.fieldType field).any (· ∈ numericFieldTypes) then return .folded .average term
      else refuse (.notNumeric op.name field (repo.catalog.fieldType field))
  | .min, some field => do
      let term ← repo.column field
      if (repo.catalog.fieldType field).any (· ∈ orderableFieldTypes) then return .folded .least term
      else refuse (.notOrderable op.name field (repo.catalog.fieldType field))
  | .max, some field => do
      let term ← repo.column field
      if (repo.catalog.fieldType field).any (· ∈ orderableFieldTypes) then
        return .folded .greatest term
      else refuse (.notOrderable op.name field (repo.catalog.fieldType field))

structure ResultColumn where
  name : String
  output : Output String
  type : Option FieldType := none

def claim (columns : List ResultColumn) (column : ResultColumn) :
    Except Failure (List ResultColumn) :=
  if columns.any fun other => other.name = column.name then refuse (.duplicateResult column.name)
  else return columns ++ [column]

def groupTerm (group : GroupBy) : Except Failure (String × Term String) := do
  let term ← repo.column group.field
  let type := repo.catalog.fieldType group.field
  match group.bucket with
  | some bucket =>
    if type.any (· ∈ dateFieldTypes) then
      return (group.label.getD (group.field ++ "_" ++ bucket.name), .truncate bucket.name term)
    else refuse (.notDateField group.field bucket.name)
  | none =>
    if type.any (· ∈ nonGroupableFieldTypes) then refuse (.notGroupable group.field type)
    else return (group.label.getD group.field, term)

def addGroup (columns : List ResultColumn) (group : GroupBy) :
    Except Failure (List ResultColumn) := do
  let (name, term) ← repo.groupTerm group
  claim columns { name := name, output := .key term }

def addMetric (columns : List ResultColumn) (metric : Metric) :
    Except Failure (List ResultColumn) := do
  let output ← repo.aggregateExpr metric.op metric.field
  let default :=
    if metric.op = .count then "count" else metric.op.name ++ "_" ++ metric.field.getD ""
  claim columns
    { name := metric.label.getD default
      output := output
      type := (metric.field.filter (· ≠ "")).bind repo.catalog.fieldType }

/-- The condition of a `having` clause on one of the metrics. -/
def havingClause (metrics : List ResultColumn) (spec : HavingSpec ν) :
    Except Failure (Output String × Comparator × ν) :=
  match metrics.find? fun metric => metric.name = spec.metric with
  | none => refuse (.unknownMetric spec.metric)
  | some metric =>
    if metric.type.any (· ∈ dateFieldTypes) then refuse (.dateHaving spec.metric)
    else return (metric.output, spec.op, spec.value)

def orderClause (columns : List ResultColumn) (spec : OrderSpec) :
    Except Failure (Output String × Bool) :=
  match columns.find? fun column => column.name = spec.key with
  | none => refuse (.unknownOrderKey spec.key)
  | some column => return (column.output, spec.descending)

/-- Without an order the groups are ordered by their keys. -/
def orderClauses (groups columns : List ResultColumn) (specs : List OrderSpec) :
    Except Failure (List (Output String × Bool)) :=
  if specs.isEmpty then return groups.map fun group => (group.output, false)
  else specs.mapM (orderClause columns)

def keyTerm : Output String → Option (Term String)
  | .key term => some term
  | _ => none

/-- `build_aggregate`: the columns of the groups, those of the metrics, and the statement. -/
def buildAggregate (query : AggregateQuery ν) :
    Except Failure (List ResultColumn × List ResultColumn × Grouping String ν) := do
  let groups ← query.groupBy.foldlM repo.addGroup []
  let columns ← query.effectiveMetrics.foldlM repo.addMetric groups
  let metrics := columns.drop groups.length
  let conditions ← query.filters.mapM fun (slug, op, value) =>
    repo.filterCondition env slug op value
  let having ← query.having.mapM (havingClause metrics)
  let orderBy ← orderClauses groups columns query.orderBy
  return (groups, metrics,
    { keys := groups.filterMap fun group => keyTerm group.output
      outputs := columns.map ResultColumn.output
      conditions := [repo.inOrg] ++ conditions
      having := having
      orderBy := orderBy
      limit := query.limit })

def aggregate (query : AggregateQuery ν) (db : Database σ ν) :
    Except Failure (AggregateResult ν) := do
  let (groups, metrics, grouping) ← repo.buildAggregate env query
  let rows ← execute env grouping.bound (grouping.run env.engine db.rows)
  let names := (groups ++ metrics).map ResultColumn.name
  return { groupBy := groups.map ResultColumn.name
           metrics := metrics.map ResultColumn.name
           rows := rows.map fun row => names.zip row }

/-! ## Writes -/

/-- The moment of a statement, and the id for a new row. -/
structure Moment (ν : Type) where
  now : ν
  newId : ν

/-- The links of a payload that are set, with the ids that they stand for. -/
def presentLinks (payload : List (String × Option ν)) :
    Except Failure (List (EntityRelationship × ν)) :=
  ((toOne repo.catalog.relationships).filterMap fun relationship =>
    (payload.lookup relationship.slug).join.map (relationship, ·)).mapM fun (relationship, value) =>
      return (relationship,
        ← orRefuse (.notAnId relationship.slug) (env.python.uuid (env.python.str (some value))))

def recordIds (table : String) (db : Database σ ν) : List ν :=
  if table = repo.catalog.definition.physicalTable then
    (db.rows.filter (Query.allHold env.engine [repo.inOrg])).filterMap fun row => row "id"
  else env.idsIn db.rest table

def validateRelationships (payload : List (String × Option ν)) (db : Database σ ν) :
    Except Failure Unit := do
  let present ← repo.presentLinks env payload
  let located ← present.mapM fun (relationship, id) =>
    return (relationship.slug, id,
      ← orRefuse (.unknownTarget relationship.slug)
        (env.physicalTable db.rest relationship.targetDefinitionId))
  let isMissing (table : String) (id : ν) : Bool :=
    !(repo.recordIds env table db).any (env.engine.equal id)
  match (located.map fun link => link.2.2).eraseDups.findSome? fun table =>
      located.find? fun (_, id, target) => target = table && isMissing table id with
  | some (slug, _) => refuse (.outsideOrg slug)
  | none => return

def uniqueColumns : List (String × Option String) :=
  ("id", none) ::
    ((repo.catalog.fields.filter EntityField.isUnique).map fun field =>
      (field.physicalColumn, some field.slug)) ++
    ((toOne repo.catalog.relationships).filter fun relationship =>
      relationship.cardinality = .oneToOne).map fun relationship =>
        (relationship.physicalName, some relationship.slug)

/-- A unique constraint that the row would violate. Ids are unique, other values within an org. -/
def conflict (others : List (Row String ν)) (row : Row String ν) : Option (Option String) :=
  (repo.uniqueColumns.find? fun (column, _) =>
    (row column).any fun value => others.any fun other =>
      (column = "id" || env.engine.same (row "org_id") (other "org_id")) &&
        (other column).any (env.engine.equal value)).map Prod.snd

/-- The values of a row that are handed to the database. -/
def writtenValues (values : List (String × Option ν)) : List (String × ν) :=
  values.filterMap fun (column, value) => value.map (column, ·)

def blank (moment : Moment ν) : Row String ν :=
  Query.assign (fun _ => none)
    [("id", some moment.newId), ("created_at", some moment.now), ("updated_at", some moment.now)]

def prepare (payload : List (String × Option ν)) (forCreate : Bool) (db : Database σ ν) :
    Except Failure (List (String × Option ν)) := do
  repo.guardWritable
  repo.validateRelationships env payload db
  repo.toRow env payload forCreate

section

variable (moment : Moment ν) (payload : List (String × Option ν)) (db : Database σ ν)

def newRow : Except Failure (Row String ν) := do
  let row ← repo.prepare env payload true db
  let values := row ++ [("org_id", some repo.orgId)]
  let created := Query.assign (blank moment) values
  match ← execute env (writtenValues values) (repo.conflict env db.rows created) with
  | some slug => .error (.conflict slug.toList)
  | none => return created

def create : Except Failure (Public ν) × Database σ ν :=
  match repo.newRow env moment payload db with
  | .error failure => (.error failure, db)
  | .ok created =>
    let record := repo.toPublic created
    let after := { db with rows := db.rows ++ [created] }
    match env.python.uuid (env.python.str (record.lookup "id").join) with
    | none => (.error .value, after)
    | some _ => (.ok record, after)

end

def changedRow (recordId : ν) (values : List (String × Option ν)) (db : Database σ ν) :
    Except Failure (Option (Row String ν)) := do
  match ← execute env (writtenValues values) (db.rows.find? (repo.isRecord env recordId)) with
  | none => return none
  | some found =>
    let others := db.rows.filter fun other => !repo.isRecord env recordId other
    match repo.conflict env others (Query.assign found values) with
    | some slug => .error (.conflict slug.toList)
    | none => return some (Query.assign found values)

def update (moment : Moment ν) (recordId : ν) (patch : List (String × Option ν))
    (db : Database σ ν) : Except Failure (Option (Public ν)) × Database σ ν :=
  match repo.prepare env patch false db with
  | .error failure => (.error failure, db)
  | .ok [] => (.ok (repo.get env recordId db), db)
  | .ok row =>
    let values := row ++ [("updated_at", some moment.now)]
    match repo.changedRow env recordId values db with
    | .error failure => (.error failure, db)
    | .ok none => (.ok none, db)
    | .ok (some changed) =>
      (.ok (some (repo.toPublic changed)),
        { db with rows := db.rows.map fun row =>
            if repo.isRecord env recordId row then Query.assign row values else row })

def links (row : Row String ν) : Links ν where
  id := row "id"
  cells := (toOne repo.catalog.relationships).map fun relationship =>
    (relationship.physicalName, row relationship.physicalName)

/-- What the foreign keys leave of a row. -/
def unlink (unlinked : List (ν × String)) (row : Row String ν) : Row String ν :=
  Query.assign row
    (((toOne repo.catalog.relationships).filter fun relationship =>
      unlinked.any fun (id, column) =>
        column = relationship.physicalName && (row "id").any (env.engine.equal id)).map
          fun relationship => (relationship.physicalName, none))

def delete (recordId : ν) (db : Database σ ν) : Except Failure Bool × Database σ ν :=
  match repo.guardWritable with
  | .error failure => (.error failure, db)
  | .ok _ =>
    if db.rows.any (repo.isRecord env recordId) then
      match env.onDelete db.rest (db.rows.map repo.links) recordId with
      | none => (.error .integrity, db)
      | some cascade =>
        let goes (row : Row String ν) : Bool :=
          repo.isRecord env recordId row ||
            (row "id").any fun id => cascade.removed.any (env.engine.equal id)
        (.ok true,
          { rows := (db.rows.filter fun row => !goes row).map (repo.unlink env cascade.unlinked)
            rest := cascade.rest })
    else (.ok false, db)

end Repository

end RedArchKM.Records
