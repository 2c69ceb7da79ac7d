import RedArchKM.Promotion.RecordImport

/-!
# The links of imported records

A link of an exported record is set when its row is created, if the record that it points to has a
row by then; else it is deferred, and the second pass sets it. Every step keeps that each record has
one row, under the id that it is mapped to, whose links are set or still deferred
(`Progress.importRecord`, `Progress.linkRecord`), so after the second pass they are all set.
-/

namespace RedArchKM.Promotion

open List Option

open Lib (Walk)
open Lib.Fallible (bind_eq_ok pure_eq_ok)
open Lib.Query (Row)
open Records (Failure Public Repository)

variable {ν : Type}

namespace TargetOrg

variable (org : TargetOrg ν) (entities : List BundledEntity)

/-! ## What is assumed -/

/-- Texts and ids are read back as they are, and drawn ids differ. -/
structure Lawful : Prop where
  text_ofText : ∀ text, org.text (org.env.python.ofText text) = text
  uuid_text : ∀ i, org.env.python.uuid (org.text (org.ids i)) = some (org.ids i)
  equal_self : ∀ value, org.env.engine.equal value value = true
  equal_comm : ∀ value other, org.env.engine.equal value other = org.env.engine.equal other value
  ids_differ : ∀ i j, i ≠ j → org.env.engine.equal (org.ids i) (org.ids j) = false

/-- The entity has a table in the org, with a column for each link. -/
structure Ready (slug : String) (definitionId : Nat) (repo : Repository ν) : Prop where
  repoFor : org.repoFor entities slug = some (definitionId, repo)
  noId : repo.catalog.slugToCol "id" = none
  links : ∀ key target, fkTarget entities slug key = some target →
    ∃ column, repo.IsLink key column

/-- Records as an export has them: one set for each entity, records with different ids, and no
record that links to one outside. -/
structure Exported (recordSets : List (RecordSet ν)) : Prop where
  oneSet : (recordSets.map RecordSet.entitySlug).Nodup
  keys : ∀ set ∈ recordSets, ∀ record ∈ set.records, (record.map Prod.fst).Nodup
  hasId : ∀ set ∈ recordSets, ∀ record ∈ set.records, ∃ oldId, org.idText record = some oldId
  ids : ∀ set ∈ recordSets, (set.records.map org.idText).Nodup
  closed : ∀ set ∈ recordSets, ∀ record ∈ set.records, ∀ key target value,
    fkTarget entities set.entitySlug key = some target →
      (record.lookup key).join = some value →
        ∃ other ∈ recordSets, other.entitySlug = target ∧
          ∃ one ∈ other.records, org.idText one = some (org.text value)

/-! ## How far the import is -/

variable {org entities}

/-- The cell of a link: it is set to the new id of its target, or deferred and still null. -/
def LinkCell (org : TargetOrg ν) (ids : List ((String × String) × String))
    (pending : List DeferredLink) (item : String × Public ν) (oldId key target : String)
    (cell : Option ν) : Prop :=
  match (item.2.lookup key).join with
  | none => cell = none
  | some value =>
    (∃ mapped, ids.lookup (target, org.text value) = some mapped ∧
      cell = some (org.env.python.ofText mapped)) ∨
    (cell = none ∧ ⟨item.1, oldId, key, target, org.text value⟩ ∈ pending)

/-- The record has a row, under the id that it is mapped to. -/
structure HasRow (org : TargetOrg ν) (entities : List BundledEntity) (state : RecordImport ν)
    (pending : List DeferredLink) (item : String × Public ν) (oldId : String) (definitionId : Nat)
    (repo : Repository ν) (i : Nat) (row : Row String ν) : Prop where
  ready : Ready org entities item.1 definitionId repo
  isOld : org.idText item.2 = some oldId
  drawn : i < state.drawn
  mapped : state.ids.lookup (item.1, oldId) = some (org.text (org.ids i))
  id : row "id" = some (org.ids i)
  isRow : (state.tables definitionId).filter (repo.isRecord org.env (org.ids i)) = [row]
  links : ∀ key column target, fkTarget entities item.1 key = some target →
    repo.IsLink key column → LinkCell org state.ids pending item oldId key target (row column)

/-- The records that are done have rows, and their deferred links are pending. -/
structure Progress (org : TargetOrg ν) (entities : List BundledEntity)
    (done : List (String × Public ν)) (pending : List DeferredLink) (state : RecordImport ν) :
    Prop where
  imported : ∀ item ∈ done, ∃ oldId definitionId repo i row,
    HasRow org entities state pending item oldId definitionId repo i row
  isDone : ∀ key mapped, state.ids.lookup key = some mapped →
    (∃ item ∈ done, item.1 = key.1 ∧ org.idText item.2 = some key.2) ∧
      ∃ i, i < state.drawn ∧ mapped = org.text (org.ids i)
  distinct : ∀ key other mapped, state.ids.lookup key = some mapped →
    state.ids.lookup other = some mapped → key = other
  deferred : ∀ link ∈ pending, ∃ item ∈ done, item.1 = link.entitySlug ∧
    org.idText item.2 = some link.oldId ∧
      fkTarget entities link.entitySlug link.fkSlug = some link.targetSlug ∧
        ∃ value, (item.2.lookup link.fkSlug).join = some value ∧
          org.text value = link.oldTargetId

theorem progress_start (tables : RecordTables ν) :
    Progress org entities [] [] { tables := tables } where
  imported item isDone := absurd isDone not_mem_nil
  isDone key mapped found := by cases found
  distinct key other mapped found := by cases found
  deferred link isPending := absurd isPending not_mem_nil

/-! ## Rows -/

section Rows

variable {repo : Repository ν} {i j : Nat} {row : Row String ν}

theorem isRecord_eq (id : ν) (row : Row String ν) :
    repo.isRecord org.env id row =
      ((row "id").any (fun cell => org.env.engine.equal cell id) &&
        (row "org_id").any fun cell => org.env.engine.equal cell repo.orgId) := by
  simp [Repository.isRecord, Repository.inOrg, Lib.Query.allHold, Lib.Query.Condition.holds,
    Lib.Query.Term.eval, Lib.Query.Engine.compares]

theorem isRecord_new (lawful : Lawful org) (id : row "id" = some (org.ids i))
    (isOrg : row "org_id" = some repo.orgId) : repo.isRecord org.env (org.ids i) row = true := by
  rw [isRecord_eq, id, isOrg]
  simp [lawful.equal_self]

theorem isRecord_other (lawful : Lawful org) (id : row "id" = some (org.ids i)) (differ : i ≠ j) :
    repo.isRecord org.env (org.ids j) row = false := by
  rw [isRecord_eq, id]
  simp [lawful.ids_differ i j differ]

end Rows

/-! ## The first pass -/

section Payloads

variable {slug key target : String} {ids : List ((String × String) × String)}
  {record : Public ν}

theorem payloadEntry_key {item entry : String × Option ν}
    (isEntry : org.payloadEntry entities slug ids item = some entry) : entry.1 = item.1 := by
  unfold payloadEntry at isEntry
  split at isEntry
  · cases isEntry
  · split at isEntry
    · cases isEntry
    · split at isEntry
      · cases isEntry
        rfl
      · obtain ⟨mapped, _, rfl⟩ := map_eq_some_iff.mp isEntry
        rfl

theorem payloadEntry_link {item : String × Option ν} (notId : item.1 ≠ "id")
    (isLink : fkTarget entities slug item.1 = some target) :
    org.payloadEntry entities slug ids item = item.2.bind fun value =>
      (ids.lookup (target, org.text value)).map fun mapped =>
        (item.1, some (org.env.python.ofText mapped)) := by
  unfold payloadEntry
  rw [if_neg notId, isLink]
  cases item.2 <;> rfl

theorem lookup_payload (keys : (record.map Prod.fst).Nodup) (notId : key ≠ "id")
    (isLink : fkTarget entities slug key = some target) :
    (record.filterMap (org.payloadEntry entities slug ids)).lookup key =
      (record.lookup key).join.bind fun value =>
        (ids.lookup (target, org.text value)).map fun mapped =>
          some (org.env.python.ofText mapped) := by
  induction record with
  | nil => rfl
  | cons item rest ih =>
    obtain ⟨isNew, keysRest⟩ := nodup_cons.mp keys
    have later := ih keysRest
    rw [lookup_cons, filterMap_cons]
    by_cases isKey : key = item.1
    · subst isKey
      have noMore : rest.lookup item.1 = none :=
        lookup_eq_none_iff.mpr fun other isOther => bne_iff_ne.mpr fun same =>
          isNew (same ▸ mem_map_of_mem isOther)
      rw [noMore] at later
      rw [payloadEntry_link notId isLink, beq_self_eq_true]
      cases item.2 with
      | none => exact later
      | some value =>
        dsimp only [bind_some, join_some]
        cases ids.lookup (target, org.text value) with
        | none => exact later
        | some mapped =>
          exact lookup_cons_self
    · rw [beq_eq_false_iff_ne.mpr isKey, ← later]
      split
      · rfl
      · rename_i entry isEntry
        rw [lookup_cons, payloadEntry_key isEntry, beq_eq_false_iff_ne.mpr isKey]

theorem mem_of_lookup_join {value : ν} (found : (record.lookup key).join = some value) :
    (key, some value) ∈ record := by
  have isItem : record.lookup key = some (some value) := join_eq_some_iff.mp found
  obtain ⟨before, after, rfl, _⟩ := lookup_eq_some_iff.mp isItem
  exact mem_append_right _ mem_cons_self

theorem lookup_of_mem (keys : (record.map Prod.fst).Nodup) {value : Option ν}
    (isItem : (key, value) ∈ record) : record.lookup key = some value := by
  obtain ⟨before, after, rfl⟩ := append_of_mem isItem
  refine lookup_eq_some_iff.mpr ⟨before, after, rfl, fun other isBefore => ?_⟩
  rw [map_append, map_cons] at keys
  refine bne_iff_ne.mpr fun same => ?_
  exact (nodup_append.mp keys).2.2 _ (mem_map_of_mem isBefore) key mem_cons_self same.symm

theorem mem_deferred {oldId : String} {value : ν} (found : (record.lookup key).join = some value)
    (notId : key ≠ "id") (isLink : fkTarget entities slug key = some target)
    (notMapped : ids.lookup (target, org.text value) = none) :
    ⟨slug, oldId, key, target, org.text value⟩ ∈
      record.filterMap (org.deferredLink entities slug ids oldId) := by
  refine mem_filterMap.mpr ⟨(key, some value), mem_of_lookup_join found, ?_⟩
  unfold deferredLink
  rw [if_neg notId, isLink]
  dsimp only
  rw [notMapped]

theorem deferredLink_spec (keys : (record.map Prod.fst).Nodup) {oldId : String}
    {link : DeferredLink}
    (isDeferred : link ∈ record.filterMap (org.deferredLink entities slug ids oldId)) :
    link.entitySlug = slug ∧ link.oldId = oldId ∧
      fkTarget entities slug link.fkSlug = some link.targetSlug ∧
        ∃ value, (record.lookup link.fkSlug).join = some value ∧
          org.text value = link.oldTargetId := by
  obtain ⟨⟨key, value⟩, isItem, isLink⟩ := mem_filterMap.mp isDeferred
  unfold deferredLink at isLink
  split at isLink
  · cases isLink
  · split at isLink
    · cases isLink
    · rename_i value' isValue
      split at isLink
      · cases isLink
      · rename_i target isTarget
        split at isLink
        · cases isLink
        · cases isLink
          refine ⟨rfl, rfl, isTarget, value', ?_, rfl⟩
          rwa [lookup_of_mem keys isItem]

end Payloads

variable {definitionId : Nat} {item : String × Public ν} {next state : RecordImport ν}
  {oldId target : String} {repo : Repository ν}

theorem importRecord_ok (ready : Ready org entities item.1 definitionId repo)
    (isOld : org.idText item.2 = some oldId)
    (imported : org.importRecord entities state item = .ok next) (quiet : next.warnings = []) :
    ∃ row, Repository.NewRow repo ⟨org.now, org.ids state.drawn⟩
        (item.2.filterMap (org.payloadEntry entities item.1 state.ids)) row ∧
      (∀ other ∈ state.tables definitionId, ∀ otherId, other "id" = some otherId →
        org.env.engine.equal (org.ids state.drawn) otherId = false) ∧
      next.tables = withTable state.tables definitionId (state.tables definitionId ++ [row]) ∧
      next.ids = ((item.1, oldId), org.text (org.ids state.drawn)) :: state.ids ∧
      next.deferred = state.deferred ++
        item.2.filterMap (org.deferredLink entities item.1 state.ids oldId) ∧
      next.drawn = state.drawn + 1 := by
  unfold importRecord at imported
  rw [ready.repoFor] at imported
  dsimp only at imported
  rw [isOld] at imported
  split at imported
  · rename_i record isCreated
    obtain ⟨row, isNew, isRows, hasId, fresh⟩ :=
      Repository.create_links ready.noId (Prod.ext isCreated rfl)
    cases pure_eq_ok.mp imported
    refine ⟨row, isNew, fresh, ?_, ?_, rfl, rfl⟩
    · dsimp only
      rw [isRows]
    · dsimp only
      rw [hasId]
      rfl
  · split at imported
    · cases pure_eq_ok.mp imported
      simp at quiet
    · cases imported

variable {key : String} {pending : List DeferredLink}

theorem LinkCell.mono {ids ids' : List ((String × String) × String)} {pending' : List DeferredLink}
    {cell : Option ν} (isCell : LinkCell org ids pending item oldId key target cell)
    (kept : ∀ other mapped, ids.lookup other = some mapped → ids'.lookup other = some mapped)
    (subset : pending ⊆ pending') : LinkCell org ids' pending' item oldId key target cell := by
  unfold LinkCell at isCell ⊢
  split
  · rename_i isNull
    rw [isNull] at isCell
    exact isCell
  · rename_i value isValue
    rw [isValue] at isCell
    rcases isCell with ⟨mapped, isMapped, isSet⟩ | ⟨isNull, isPending⟩
    · exact .inl ⟨mapped, kept _ _ isMapped, isSet⟩
    · exact .inr ⟨isNull, subset isPending⟩

theorem LinkCell.of_pending {ids : List ((String × String) × String)} {pending' : List DeferredLink}
    {cell : Option ν} (isCell : LinkCell org ids pending item oldId key target cell)
    (still : ∀ text, (⟨item.1, oldId, key, target, text⟩ : DeferredLink) ∈ pending →
      (⟨item.1, oldId, key, target, text⟩ : DeferredLink) ∈ pending') :
    LinkCell org ids pending' item oldId key target cell := by
  unfold LinkCell at isCell ⊢
  split
  · rename_i isNull
    rw [isNull] at isCell
    exact isCell
  · rename_i value isValue
    rw [isValue] at isCell
    exact isCell.imp_right fun ⟨isNull, isPending⟩ => ⟨isNull, still _ isPending⟩

theorem Ready.ne_id {slug : String} (ready : Ready org entities slug definitionId repo)
    (isLink : fkTarget entities slug key = some target) : key ≠ "id" := by
  rintro rfl
  obtain ⟨column, isColumn⟩ := ready.links "id" target isLink
  have found := isColumn.slugToCol
  rw [ready.noId] at found
  cases found

theorem linkCell_new {row : Row String ν} (ready : Ready org entities item.1 definitionId repo)
    (keys : (item.2.map Prod.fst).Nodup)
    (isNew : Repository.NewRow repo ⟨org.now, org.ids state.drawn⟩
      (item.2.filterMap (org.payloadEntry entities item.1 state.ids)) row) {column : String}
    (isLink : fkTarget entities item.1 key = some target) (isColumn : repo.IsLink key column) :
    LinkCell org state.ids (item.2.filterMap (org.deferredLink entities item.1 state.ids oldId))
      item oldId key target (row column) := by
  have notId := ready.ne_id isLink
  have cell := isNew.links key column isColumn
  rw [lookup_payload keys notId isLink] at cell
  unfold LinkCell
  split
  · rename_i isNull
    rw [cell, isNull]
    rfl
  · rename_i value isValue
    rw [isValue, bind_some] at cell
    cases isMapped : state.ids.lookup (target, org.text value) with
    | none =>
      rw [isMapped] at cell
      exact .inr ⟨cell, mem_deferred isValue notId isLink isMapped⟩
    | some mapped =>
      rw [isMapped] at cell
      exact .inl ⟨mapped, rfl, cell⟩

/-- **The first pass goes on with a record**: it gets a row, with its links set or deferred. -/
theorem Progress.importRecord (lawful : Lawful org) {done : List (String × Public ν)}
    (progress : Progress org entities done state.deferred state)
    (ready : Ready org entities item.1 definitionId repo) (isOld : org.idText item.2 = some oldId)
    (keys : (item.2.map Prod.fst).Nodup)
    (isNew : ∀ other ∈ done, other.1 = item.1 → org.idText other.2 ≠ some oldId)
    (imported : org.importRecord entities state item = .ok next) (quiet : next.warnings = []) :
    Progress org entities (done ++ [item]) next.deferred next := by
  obtain ⟨row, isRow, fresh, tables, ids, deferred, drawn⟩ :=
    importRecord_ok ready isOld imported quiet
  have notMapped : state.ids.lookup (item.1, oldId) = none := by
    cases isMapped : state.ids.lookup (item.1, oldId) with
    | none => rfl
    | some mapped =>
      obtain ⟨⟨other, isDone, same, hasId⟩, _⟩ := progress.isDone _ _ isMapped
      exact absurd hasId (isNew other isDone same)
  have kept : ∀ key mapped, state.ids.lookup key = some mapped →
      next.ids.lookup key = some mapped := by
    intro key mapped isMapped
    rw [ids, lookup_cons]
    have other : (key == (item.1, oldId)) = false := by
      rw [beq_eq_false_iff_ne]
      rintro rfl
      rw [notMapped] at isMapped
      cases isMapped
    rwa [other]
  have unseen : ∀ key mapped, next.ids.lookup key = some mapped →
      (key = (item.1, oldId) ∧ mapped = org.text (org.ids state.drawn)) ∨
        state.ids.lookup key = some mapped := by
    intro key mapped isMapped
    rw [ids, lookup_cons] at isMapped
    split at isMapped
    · rename_i same
      exact .inl ⟨eq_of_beq same, (some.inj isMapped).symm⟩
    · exact .inr isMapped
  constructor
  · intro other isDone
    rcases mem_append.mp isDone with isEarlier | isLast
    · obtain ⟨otherId, otherDefinition, otherRepo, j, otherRow, has⟩ := progress.imported other isEarlier
      refine ⟨otherId, otherDefinition, otherRepo, j, otherRow, has.ready, has.isOld, ?_, kept _ _ has.mapped,
        has.id, ?_, fun key column target isLink isColumn => ?_⟩
      · rw [drawn]
        exact Nat.lt_succ_of_lt has.drawn
      · rw [tables]
        unfold withTable
        split
        · rename_i sameTable
          have notOther : otherRepo.isRecord org.env (org.ids j) row = false :=
            isRecord_other lawful isRow.id (Nat.ne_of_gt has.drawn)
          rw [filter_append, ← sameTable, has.isRow, filter_cons, notOther]
          rfl
        · exact has.isRow
      · refine (has.links key column target isLink isColumn).mono kept ?_
        rw [deferred]
        exact subset_append_left _ _
    · rw [mem_singleton.mp isLast]
      refine ⟨oldId, definitionId, repo, state.drawn, row, ready, isOld, ?_, ?_, isRow.id, ?_,
        fun key column target isLink isColumn => ?_⟩
      · rw [drawn]
        exact Nat.lt_succ_self _
      · rw [ids]
        exact lookup_cons_self
      · have noneBefore : (state.tables definitionId).filter
            (repo.isRecord org.env (org.ids state.drawn)) = [] := by
          refine filter_eq_nil_iff.mpr fun other isOther => ?_
          rw [isRecord_eq]
          cases hasId : other "id" with
          | none => simp
          | some otherId =>
            have differ := fresh other isOther otherId hasId
            rw [lawful.equal_comm] at differ
            simp [differ]
        rw [tables]
        unfold withTable
        rw [if_pos rfl, filter_append, noneBefore, filter_cons,
          isRecord_new lawful isRow.id isRow.org]
        rfl
      · refine (linkCell_new ready keys isRow isLink isColumn).mono kept ?_
        rw [deferred]
        exact subset_append_right _ _
  · intro key mapped isMapped
    rcases unseen key mapped isMapped with ⟨rfl, rfl⟩ | isEarlier
    · refine ⟨⟨item, mem_append_right _ mem_cons_self, rfl, isOld⟩, state.drawn, ?_, rfl⟩
      rw [drawn]
      exact Nat.lt_succ_self _
    · obtain ⟨⟨other, isDone, same, hasId⟩, j, isDrawn, rfl⟩ := progress.isDone key mapped isEarlier
      refine ⟨⟨other, mem_append_left _ isDone, same, hasId⟩, j, ?_, rfl⟩
      rw [drawn]
      exact Nat.lt_succ_of_lt isDrawn
  · -- the new id is no earlier one
    have apart : ∀ key, state.ids.lookup key ≠ some (org.text (org.ids state.drawn)) := by
      intro key isMapped
      obtain ⟨_, j, isDrawn, same⟩ := progress.isDone key _ isMapped
      have sameId := congrArg org.env.python.uuid same
      rw [lawful.uuid_text, lawful.uuid_text] at sameId
      have equal := lawful.ids_differ state.drawn j (Nat.ne_of_gt isDrawn)
      rw [some.inj sameId, lawful.equal_self] at equal
      cases equal
    intro key other mapped isMapped alsoMapped
    rcases unseen key mapped isMapped with ⟨rfl, rfl⟩ | isEarlier
    · rcases unseen other _ alsoMapped with ⟨rfl, _⟩ | alsoEarlier
      · rfl
      · exact absurd alsoEarlier (apart other)
    · rcases unseen other mapped alsoMapped with ⟨rfl, rfl⟩ | alsoEarlier
      · exact absurd isEarlier (apart key)
      · exact progress.distinct key other mapped isEarlier alsoEarlier
  · intro link isPending
    rw [deferred] at isPending
    rcases mem_append.mp isPending with isEarlier | isLast
    · obtain ⟨other, isDone, spec⟩ := progress.deferred link isEarlier
      exact ⟨other, mem_append_left _ isDone, spec⟩
    · obtain ⟨sameSlug, sameId, isLink, isValue⟩ := deferredLink_spec keys isLast
      exact ⟨item, mem_append_right _ mem_cons_self, sameSlug.symm, sameId ▸ isOld,
        sameSlug ▸ isLink, isValue⟩

/-! ## The second pass -/

theorem linkRecord_ok {link : DeferredLink} {newTarget : String} {i : Nat} (lawful : Lawful org)
    (isRepo : org.repoFor entities link.entitySlug = some (definitionId, repo))
    (isSource : state.ids.lookup (link.entitySlug, link.oldId) = some (org.text (org.ids i)))
    (isTarget : state.ids.lookup (link.targetSlug, link.oldTargetId) = some newTarget)
    (linked : org.linkRecord entities state link = .ok next) (quiet : next.warnings = []) :
    ∃ change : Row String ν → Row String ν,
      (∀ row, change row "id" = row "id" ∧ change row "org_id" = row "org_id" ∧
        ∀ slug column, repo.IsLink slug column → change row column =
          (([(link.fkSlug, some (org.env.python.ofText newTarget))] : Public ν).lookup slug).getD
            (row column)) ∧
      next = { state with
        tables := withTable state.tables definitionId ((state.tables definitionId).map fun row =>
          if repo.isRecord org.env (org.ids i) row then change row else row) } := by
  unfold linkRecord at linked
  rw [isSource, isTarget, isRepo] at linked
  dsimp only at linked
  rw [lawful.uuid_text] at linked
  dsimp only at linked
  split at linked
  · rename_i record isUpdated
    obtain ⟨change, changes, isRows⟩ := Repository.update_links (Prod.ext isUpdated rfl)
    cases pure_eq_ok.mp linked
    refine ⟨change, changes, ?_⟩
    rw [isRows]
  · split at linked
    · cases pure_eq_ok.mp linked
      simp at quiet
    · cases linked

/-- No two of the records have the same entity and id. -/
def Apart (org : TargetOrg ν) (items : List (String × Public ν)) : Prop :=
  ∀ item ∈ items, ∀ other ∈ items, item.1 = other.1 → org.idText item.2 = org.idText other.2 →
    item = other

theorem filter_changed {change : Row String ν → Row String ν}
    (kept : ∀ row, change row "id" = row "id" ∧ change row "org_id" = row "org_id") (id : ν)
    (rows : List (Row String ν)) :
    (rows.map change).filter (repo.isRecord org.env id) =
      (rows.filter (repo.isRecord org.env id)).map change := by
  have same : repo.isRecord org.env id ∘ change = repo.isRecord org.env id := by
    funext row
    rw [Function.comp_apply, isRecord_eq, isRecord_eq, (kept row).1, (kept row).2]
  rw [List.filter_map, same]

/-- **The second pass goes on with a link**: it is set, and no longer deferred. -/
theorem Progress.linkRecord (lawful : Lawful org) {done : List (String × Public ν)}
    {link : DeferredLink} {newTarget : String}
    (progress : Progress org entities done (link :: pending) state) (apart : Apart org done)
    (isTarget : state.ids.lookup (link.targetSlug, link.oldTargetId) = some newTarget)
    (linked : org.linkRecord entities state link = .ok next) (quiet : next.warnings = []) :
    Progress org entities done pending next := by
  obtain ⟨source, isDone, isSlug, isOld, isLink, value, isValue, isText⟩ :=
    progress.deferred link mem_cons_self
  obtain ⟨oldId, definitionId, repo, i, row, has⟩ := progress.imported source isDone
  have sameId : oldId = link.oldId := some.inj (has.isOld.symm.trans isOld)
  obtain ⟨change, changes, rfl⟩ := linkRecord_ok lawful (isSlug ▸ has.ready.repoFor)
    (by rw [← isSlug, ← sameId]; exact has.mapped) isTarget linked quiet
  have kept : ∀ row : Row String ν,
      (if repo.isRecord org.env (org.ids i) row then change row else row) "id" = row "id" ∧
        (if repo.isRecord org.env (org.ids i) row then change row else row) "org_id" =
          row "org_id" := by
    intro row
    split
    · exact ⟨(changes row).1, (changes row).2.1⟩
    · exact ⟨rfl, rfl⟩
  -- links of other records are still deferred
  have stillPending : ∀ item ∈ done, ∀ key target oldId' (text : String),
      org.idText item.2 = some oldId' → item ≠ source ∨ key ≠ link.fkSlug →
        (⟨item.1, oldId', key, target, text⟩ : DeferredLink) ∈ link :: pending →
          (⟨item.1, oldId', key, target, text⟩ : DeferredLink) ∈ pending := by
    intro item isItem key target oldId' text hasId other isPending
    rcases mem_cons.mp isPending with isHead | isRest
    · rcases other with notSource | notKey
      · refine absurd (apart item isItem source isDone ?_ ?_) notSource
        · rw [isSlug, ← isHead]
        · rw [hasId, isOld, ← isHead]
      · exact absurd (congrArg DeferredLink.fkSlug isHead) notKey
    · exact isRest
  constructor
  · intro item isItem
    by_cases isSource : item = source
    · subst isSource
      have isRecord : repo.isRecord org.env (org.ids i) row = true :=
        (mem_filter.mp (has.isRow ▸ mem_cons_self)).2
      refine ⟨oldId, definitionId, repo, i, change row, has.ready, has.isOld, has.drawn, has.mapped,
        (changes row).1.trans has.id, ?_, fun key column target isKey isColumn => ?_⟩
      · dsimp only [withTable]
        rw [if_pos rfl, filter_changed kept, has.isRow, map_singleton, if_pos isRecord]
      · have cell := (changes row).2.2 key column isColumn
        by_cases same : key = link.fkSlug
        · subst same
          have sameTarget : target = link.targetSlug :=
            some.inj (isKey.symm.trans (isSlug ▸ isLink))
          rw [lookup_cons_self, getD_some] at cell
          unfold LinkCell
          rw [isValue, cell]
          refine .inl ⟨newTarget, ?_, rfl⟩
          rwa [isText, sameTarget]
        · rw [lookup_cons, beq_eq_false_iff_ne.mpr same, lookup_nil, getD_none] at cell
          rw [cell]
          exact (has.links key column target isKey isColumn).of_pending fun text =>
            stillPending item isItem key target oldId text has.isOld (.inr same)
    · obtain ⟨oldId', definitionId', repo', j, row', has'⟩ := progress.imported item isItem
      have differ : j ≠ i := by
        rintro rfl
        have sameKey := progress.distinct _ _ _ has'.mapped has.mapped
        obtain ⟨sameSlug, sameOld⟩ := Prod.mk.inj sameKey
        exact isSource (apart item isItem source isDone sameSlug (by
          rw [has'.isOld, has.isOld, sameOld]))
      have isKept : repo.isRecord org.env (org.ids i) row' = false :=
        isRecord_other lawful has'.id differ
      refine ⟨oldId', definitionId', repo', j, row', has'.ready, has'.isOld, has'.drawn,
        has'.mapped, has'.id, ?_, fun key column target isKey isColumn => ?_⟩
      · dsimp only [withTable]
        split
        · rename_i sameTable
          rw [filter_changed kept, ← sameTable, has'.isRow, map_singleton, isKept]
          rfl
        · exact has'.isRow
      · exact (has'.links key column target isKey isColumn).of_pending fun text =>
          stillPending item isItem key target oldId' text has'.isOld (.inl isSource)
  · exact progress.isDone
  · exact progress.distinct
  · exact fun other isPending => progress.deferred other (mem_cons_of_mem _ isPending)

end TargetOrg

end RedArchKM.Promotion
