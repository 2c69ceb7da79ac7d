import RedArchKM.Promotion.ImportFrame

/-!
# Importing without touching what is there

Under `skip` no pass writes to the columns of a row that the org has: an object that matches a row
is mapped onto it, and the row at most adopts the lineage of the object (`applyChange_skip`). The
second passes do not ask for the strategy. They add relationships to an entity that was there, and
set the supervisor of an agent that was there, so the import leaves the org as it was exactly when
they have nothing to add (`skip_keeps_iff`).
-/

namespace RedArchKM.Promotion

open Workflow (Fields Json)
open Columns List Option

/-! ## Rows that are kept -/

/-- The row has its content still; at most it has adopted a lineage. -/
structure Kept (before after : Row) : Prop where
  id : after.id = before.id
  columns : after.columns = before.columns
  lineage : after.lineageId = before.lineageId ∨ before.lineageId = none

namespace Kept

theorem refl (row : Row) : Kept row row := ⟨rfl, rfl, .inl rfl⟩

theorem trans {first second third : Row} (left : Kept first second) (right : Kept second third) :
    Kept first third where
  id := right.id.trans left.id
  columns := right.columns.trans left.columns
  lineage := by
    rcases left.lineage with same | none
    · rw [← same]
      exact right.lineage
    · exact .inr none

end Kept

def KeepsRows (before after : OrgConfig) (rtype : ResourceType) : Prop :=
  ∀ id row, before.find rtype id = some row →
    ∃ kept, after.find rtype id = some kept ∧ Kept row kept

namespace KeepsRows

variable {first second third : OrgConfig} {rtype : ResourceType}

theorem refl (org : OrgConfig) (rtype : ResourceType) : KeepsRows org org rtype :=
  fun _ row found => ⟨row, found, Kept.refl row⟩

theorem trans (left : KeepsRows first second rtype) (right : KeepsRows second third rtype) :
    KeepsRows first third rtype := by
  intro id row found
  obtain ⟨middle, inSecond, kept⟩ := left id row found
  obtain ⟨last, inThird, keptLater⟩ := right id middle inSecond
  exact ⟨last, inThird, kept.trans keptLater⟩

theorem of_rows_eq (same : second.rows rtype = first.rows rtype) :
    KeepsRows first second rtype := by
  intro id row found
  refine ⟨row, ?_, Kept.refl row⟩
  rw [← found, OrgConfig.find, OrgConfig.find, same]

end KeepsRows

/-! ## The passes -/

section Passes

variable {services : Services} {s next : ImportState} {rtype : ResourceType} {obj : Fields}
  {change : Change}

theorem find_replaceRow (org : OrgConfig) (rtype : ResourceType) (changed id : String)
    {change : Row → Row} (keeps : ∀ row, (change row).id = row.id) :
    (org.modify rtype (List.map (replaceRow changed change))).find rtype id =
      (org.find rtype id).map (replaceRow changed change) := by
  rw [OrgConfig.find, OrgConfig.rows_modify_self, OrgConfig.find_map (id_replaceRow keeps)]
  rfl

theorem find_append (org : OrgConfig) {rtype : ResourceType} {id : String} {row : Row}
    (found : org.find rtype id = some row) (added : Row) :
    (org.modify rtype (· ++ [added])).find rtype id = some row := by
  rw [OrgConfig.find, OrgConfig.rows_modify_self, find?_append]
  rw [OrgConfig.find] at found
  rw [found]
  rfl

theorem lineageAfter_kept {row : Row} {incoming : Fields} {linked : Bool}
    {lineageId : Option String} (adopted : lineageAfter row incoming linked = some lineageId) :
    lineageId = row.lineageId ∨ row.lineageId = none := by
  unfold lineageAfter adoptedLineage at adopted
  split at adopted
  · split at adopted
    · rename_i lineage isStamped
      cases adopted
      exact .inl isStamped.symm
    · exact .inr ‹_›
  · cases adopted
    exact .inl rfl

/-- **Under `skip` an object changes no row that is there.** -/
theorem applyChange_skip (unique : UniqueIds s.org)
    (decided : decisionOf services .skip rtype s obj = some change)
    (applied : applyChange services rtype (kindOf rtype) obj s change = some next)
    (other : ResourceType) : KeepsRows s.org next.org other := by
  cases decisionOf_decided decided with
  | leave quiet =>
    obtain rfl := applyChange_leave applied
    exact KeepsRows.refl s.org other
  | keep isFound columns action =>
    rename_i matched write
    obtain ⟨lineageId, ids, adopted, _, rfl⟩ := applyChange_update applied
    by_cases same : other = rtype
    · subst same
      intro id row found
      let written (row : Row) : Row := { row with lineageId := lineageId, columns := write.columns }
      have now := find_replaceRow s.org other matched.row.id id
        (fun row => rfl : ∀ row, (written row).id = row.id)
      refine ⟨replaceRow matched.row.id written row, now.trans (by rw [found]; rfl), ?_⟩
      unfold replaceRow
      split
      · rename_i sameId
        have isMatched : row = matched.row := inj_on_of_nodup_map (unique other)
          (OrgConfig.mem_of_find found).1 (mem_of_matchOf isFound) sameId
        rw [isMatched]
        exact ⟨rfl, columns, lineageAfter_kept adopted⟩
      · exact Kept.refl row
    · exact KeepsRows.of_rows_eq (OrgConfig.rows_modify_of_ne _ _ same)
  | overwrite _ isOverwrite _ => cases isOverwrite
  | create isFound allowed action =>
    obtain ⟨lineageId, ids, _, _, rfl⟩ := applyChange_create applied
    by_cases same : other = rtype
    · subst same
      intro id row found
      exact ⟨row, find_append _ found _, Kept.refl row⟩
    · dsimp only
      exact KeepsRows.of_rows_eq (OrgConfig.rows_modify_of_ne _ _ same)

end Passes

/-! ## Relationships of a row -/

section Relationships

variable {services : Services} {s next final : ImportState}

/-- What the second pass over the entities looks at for a row: the row, and how the entities of the
bundle are mapped. -/
def entityView (id : String) (s : ImportState) : Option Row × (String → Option String) :=
  (s.org.find .entities id, s.ids.get .entities)

def relationshipCount (row : Option Row) : Nat :=
  row.elim 0 fun row => (items (row.column "relationships")).length

variable {id : String}

theorem map_replaceRow_of_ne {org : OrgConfig} {rtype : ResourceType} {changed : String}
    (change : Row → Row) (different : changed ≠ id) :
    (org.find rtype id).map (replaceRow changed change) = org.find rtype id := by
  cases found : org.find rtype id with
  | none => rfl
  | some row =>
    have sameId := (OrgConfig.mem_of_find found).2
    simp [replaceRow, sameId, Ne.symm different]

theorem newRelationship_congr {other : ImportState} (same : entityView id s = entityView id other)
    (rel : Fields) : newRelationship services id s rel = newRelationship services id other rel := by
  obtain ⟨sameRow, sameIds⟩ := Prod.mk.inj same
  simp only [newRelationship, sameRow, sameIds]

theorem length_enlist (rel : Json) (rels : List Json) :
    (services.enlist rel rels).length = rels.length + 1 :=
  orderedInsert_length _ _ _

/-- **A row gets a relationship more, exactly if the pass finds a new one for it.** -/
theorem importRelationship_view {sourceRow : String} {rel : Fields}
    (done : importRelationship services sourceRow s rel = some next) :
    (¬(sourceRow = id ∧ newRelationship services id s rel ≠ none) ∧
        entityView id next = entityView id s) ∨
      ((sourceRow = id ∧ newRelationship services id s rel ≠ none) ∧
        relationshipCount (entityView id s).1 < relationshipCount (entityView id next).1) := by
  obtain ⟨ids, sameIds, ⟨quiet, rfl⟩ | ⟨targetId, body, isNew, rfl⟩⟩ :=
    importRelationship_cases done
  · refine .inl ⟨fun fires => ?_, Prod.ext rfl (funext sameIds)⟩
    obtain ⟨rfl, new⟩ := fires
    exact new quiet
  · let added := addRelationship services
      (relationshipRow (services.freshId s.issued) targetId body)
    have now := find_replaceRow s.org .entities sourceRow id
      (fun _ => rfl : ∀ row, (added row).id = row.id)
    by_cases here : sourceRow = id
    · subst here
      refine .inr ⟨⟨rfl, by rw [isNew]; exact some_ne_none _⟩, ?_⟩
      obtain ⟨target, _, rest⟩ := bind_eq_some_iff.mp isNew
      obtain ⟨slug, _, rest⟩ := bind_eq_some_iff.mp rest
      obtain ⟨_, _, rest⟩ := bind_eq_some_iff.mp rest
      obtain ⟨source, isSource, _⟩ := bind_eq_some_iff.mp rest
      have sameId := (OrgConfig.mem_of_find isSource).2
      have enlarged : relationshipCount ((s.org.find .entities sourceRow).map
          (replaceRow sourceRow added)) = relationshipCount (s.org.find .entities sourceRow) + 1 := by
        simp only [isSource, map_some, replaceRow, sameId, if_true, relationshipCount,
          elim_some, added, addRelationship, Row.column, get_set_self]
        exact length_enlist _ _
      exact Nat.lt_of_lt_of_eq (Nat.lt_succ_self _)
        ((congrArg relationshipCount now).trans enlarged).symm
    · refine .inl ⟨fun fires => here fires.1, Prod.ext ?_ (funext sameIds)⟩
      exact now.trans (map_replaceRow_of_ne _ here)

/-- Whether the entity of the bundle is mapped to the row and lists a relationship that the second
pass adds to it. -/
def Enlarges (services : Services) (id : String) (s : ImportState) (ent : Fields) : Prop :=
  ∃ oldId ∈ ent.lookup "id", s.ids.get .entities (asText services.str oldId) = some id ∧
    ∃ rels ∈ relationshipsOf ent, ∃ rel ∈ rels, newRelationship services id s rel ≠ none

theorem enlarges_congr {other : ImportState} {ent : Fields}
    (same : entityView id s = entityView id other) :
    Enlarges services id s ent ↔ Enlarges services id other ent := by
  have sameIds : s.ids.get .entities = other.ids.get .entities := (Prod.mk.inj same).2
  simp only [Enlarges, sameIds, newRelationship_congr same]

theorem importRelationshipsOf_view {ent : Fields}
    (done : importRelationshipsOf services s ent = some next) :
    (¬Enlarges services id s ent ∧ entityView id next = entityView id s) ∨
      (Enlarges services id s ent ∧
        relationshipCount (entityView id s).1 < relationshipCount (entityView id next).1) := by
  obtain ⟨oldId, isId, done⟩ := bind_eq_some_iff.mp done
  split at done
  · rename_i unmapped
    cases done
    refine .inl ⟨fun ⟨_, isId', mapped, _⟩ => ?_, rfl⟩
    cases isId.symm.trans isId'
    exact some_ne_none _ (mapped.symm.trans unmapped)
  · rename_i sourceRow mapped
    obtain ⟨rels, isRels, ran⟩ := bind_eq_some_iff.mp done
    have fires_iff : Enlarges services id s ent ↔
        ∃ rel ∈ rels, sourceRow = id ∧ newRelationship services id s rel ≠ none := by
      simp only [Enlarges, mem_def, isId, some.injEq, exists_eq_left', mapped, isRels]
      exact ⟨fun ⟨here, rel, member, new⟩ => ⟨rel, member, here, new⟩,
        fun ⟨rel, member, here, new⟩ => ⟨here, rel, member, new⟩⟩
    have outcome := Lib.Trace.run_same_or_larger (entityView id)
      (fun view => relationshipCount view.1)
      (fun s rel => sourceRow = id ∧ newRelationship services id s rel ≠ none)
      (fun _ _ rel same => by rw [newRelationship_congr same])
      (fun _ _ _ => importRelationship_view) rels ran
    rcases outcome with ⟨quiet, same⟩ | ⟨fired, larger⟩
    · exact .inl ⟨fun fires => by
        obtain ⟨rel, member, new⟩ := fires_iff.mp fires
        exact quiet rel member new, same⟩
    · exact .inr ⟨fires_iff.mpr fired, larger⟩

/-- **The second pass over the entities enlarges a row exactly if one of them has a relationship to
add to it, and otherwise leaves it alone.** -/
theorem importRelationships_view (id : String) {entities : List Fields}
    (done : importRelationships services s entities = some final) :
    ((∀ ent ∈ entities, ¬Enlarges services id s ent) ∧
        final.org.find .entities id = s.org.find .entities id) ∨
      ((∃ ent ∈ entities, Enlarges services id s ent) ∧
        relationshipCount (s.org.find .entities id) <
          relationshipCount (final.org.find .entities id)) := by
  have outcome := Lib.Trace.run_same_or_larger (entityView id)
    (fun view => relationshipCount view.1) (Enlarges services id)
    (fun _ _ _ same => enlarges_congr same) (fun _ _ _ => importRelationshipsOf_view) entities done
  rcases outcome with ⟨quiet, same⟩ | fired
  · exact .inl ⟨quiet, (Prod.mk.inj same).1⟩
  · exact .inr fired

end Relationships

/-! ## The supervisor of a row -/

section Supervisors

variable {services : Services} {s next final : ImportState}

/-- The supervisor that the second pass over the agents leaves the row with, if it sets one: that
of the last agent that is mapped to the row. -/
def lastSupervisor (services : Services) (s : ImportState) (agents : List Fields) (id : String) :
    Option String :=
  (((agents.filterMap (supervisorWrite services s)).filter (·.1 = id)).getLast?).map Prod.snd

def withSupervisor (supervisor : Option String) (row : Row) : Row :=
  supervisor.elim row (setSupervisor · row)

theorem withSupervisor_setSupervisor (last : Option String) (first : String) (row : Row) :
    withSupervisor last (setSupervisor first row) =
      withSupervisor (some (last.getD first)) row := by
  cases last with
  | none => rfl
  | some supervisor => simp [withSupervisor, setSupervisor]

section

variable (agents : List Fields)

theorem lastSupervisor_cons_none {agent : Fields} (id : String)
    (noWrite : supervisorWrite services s agent = none) :
    lastSupervisor services s (agent :: agents) id = lastSupervisor services s agents id := by
  simp [lastSupervisor, noWrite]

theorem lastSupervisor_cons_of_ne {agent : Fields} {id row supervisor : String}
    (write : supervisorWrite services s agent = some (row, supervisor)) (different : row ≠ id) :
    lastSupervisor services s (agent :: agents) id = lastSupervisor services s agents id := by
  simp [lastSupervisor, write, different]

theorem lastSupervisor_cons_self {agent : Fields} {id supervisor : String}
    (write : supervisorWrite services s agent = some (id, supervisor)) :
    lastSupervisor services s (agent :: agents) id =
      some ((lastSupervisor services s agents id).getD supervisor) := by
  simp only [lastSupervisor, filterMap_cons, write, filter_cons, decide_true, if_true,
    getLast?_cons, map_some]
  cases (((agents.filterMap (supervisorWrite services s)).filter (·.1 = id)).getLast?) <;> rfl

end

/-- **The second pass over the agents sets the supervisors, the last one of each row, and nothing
else.** -/
theorem find_importSupervisors (id : String) {agents : List Fields}
    (done : importSupervisors services s agents = some final) :
    final.org.find .agents id =
      (s.org.find .agents id).map (withSupervisor (lastSupervisor services s agents id)) := by
  induction agents generalizing s with
  | nil =>
    cases done
    exact map_id'.symm
  | cons agent agents ih =>
    obtain ⟨next, stepped, rest⟩ := bind_eq_some_iff.mp done
    rcases importSupervisor_cases stepped with ⟨noWrite, rfl⟩ | ⟨row, supervisor, write, rfl⟩
    · rw [ih rest, lastSupervisor_cons_none _ _ noWrite]
    · have sameIds : lastSupervisor services (s.replace .agents row (setSupervisor supervisor))
          agents id = lastSupervisor services s agents id := rfl
      have replaced := find_replaceRow s.org .agents row id
        (fun _ => rfl : ∀ row, (setSupervisor supervisor row).id = row.id)
      rw [ih rest, sameIds]
      by_cases here : row = id
      · subst here
        rw [lastSupervisor_cons_self _ write]
        refine (congrArg _ replaced).trans ?_
        rw [Option.map_map]
        refine Option.map_congr fun found isFound => ?_
        have sameId := (OrgConfig.mem_of_find isFound).2
        simp [replaceRow, sameId, withSupervisor_setSupervisor]
      · rw [lastSupervisor_cons_of_ne _ write here]
        exact congrArg _ (replaced.trans (map_replaceRow_of_ne _ here))

end Supervisors

/-! ## Whole imports -/

section Import

variable {services : Services} {resources : Resources} {org : OrgConfig} {final : ImportState}

/-- Every row that an import adds is recorded, as created for an object that matched nothing. -/
def AddsUnmatched (org : OrgConfig) (s : ImportState) : Prop :=
  ∀ rtype, ∀ row ∈ s.org.rows rtype, row.id ∉ (org.rows rtype).map Row.id →
    ∃ outcome ∈ s.outcomes, outcome.resourceType = rtype ∧ outcome.created = some row.id ∧
      outcome.found = none

theorem exists_mem_of_mem_replaceRow {rtype other : ResourceType} {changed : String}
    {change : Row → Row} (keeps : ∀ row, (change row).id = row.id) {row : Row}
    (member : row ∈ (org.modify rtype (List.map (replaceRow changed change))).rows other) :
    ∃ before ∈ org.rows other, before.id = row.id := by
  by_cases same : other = rtype
  · subst same
    rw [OrgConfig.rows_modify_self] at member
    obtain ⟨before, isRow, rfl⟩ := mem_map.mp member
    exact ⟨before, isRow, (id_replaceRow keeps before).symm⟩
  · rw [OrgConfig.rows_modify_of_ne _ _ same] at member
    exact ⟨row, member, rfl⟩

theorem AddsUnmatched.replace {s next : ImportState} (adds : AddsUnmatched org s)
    {rtype : ResourceType} {id : String} {change : Row → Row}
    (isNext : next.org = s.org.modify rtype (List.map (replaceRow id change)))
    (keeps : ∀ row, (change row).id = row.id)
    (outcomes : s.outcomes ⊆ next.outcomes) : AddsUnmatched org next := by
  intro other row member isNew
  rw [isNext] at member
  obtain ⟨before, isRow, sameId⟩ := exists_mem_of_mem_replaceRow keeps member
  obtain ⟨outcome, recorded, facts⟩ := adds other before isRow (sameId ▸ isNew)
  exact ⟨outcome, outcomes recorded, sameId ▸ facts⟩

theorem addsUnmatched_importBundle
    (finished : importBundle services .skip resources org = some final) :
    AddsUnmatched org final := by
  refine importBundle_invariant ?_ ?_ ?_ ?_ finished
  · intro s rtype obj change next adds decided applied
    cases decisionOf_decided decided with
    | leave quiet =>
      obtain rfl := applyChange_leave applied
      intro other row member isNew
      obtain ⟨outcome, recorded, facts⟩ := adds other row member isNew
      exact ⟨outcome, mem_append_left _ recorded, facts⟩
    | keep isFound columns action =>
      obtain ⟨lineageId, ids, _, _, rfl⟩ := applyChange_update applied
      exact adds.replace rfl (fun _ => rfl) (subset_append_left _ _)
    | overwrite _ isOverwrite _ => cases isOverwrite
    | create isFound allowed action =>
      obtain ⟨lineageId, ids, _, _, rfl⟩ := applyChange_create applied
      have unmatched : matchOf services rtype s obj = none :=
        allowed.resolve_right fun other => by
          rcases other with isRename | ⟨_, isOverwrite⟩
          · cases isRename
          · cases isOverwrite
      intro other row member isNew
      by_cases same : other = rtype
      · subst same
        rw [OrgConfig.rows_modify_self] at member
        rcases mem_append.mp member with before | added
        · obtain ⟨outcome, recorded, facts⟩ := adds other row before isNew
          exact ⟨outcome, mem_append_left _ recorded, facts⟩
        · obtain rfl := mem_singleton.mp added
          refine ⟨_, mem_append_right _ mem_cons_self, rfl, rfl, ?_⟩
          rw [← isFound, unmatched]
          rfl
      · rw [OrgConfig.rows_modify_of_ne _ _ same] at member
        obtain ⟨outcome, recorded, facts⟩ := adds other row member isNew
        exact ⟨outcome, mem_append_left _ recorded, facts⟩
  · intro s sourceRow rel next adds stepped
    obtain ⟨ids, _, ⟨_, rfl⟩ | ⟨targetId, body, _, rfl⟩⟩ := importRelationship_cases stepped
    · exact adds
    · exact adds.replace rfl (fun _ => rfl) (Subset.refl _)
  · intro s agent next adds stepped
    rcases importSupervisor_cases stepped with ⟨_, rfl⟩ | ⟨row, supervisor, _, rfl⟩
    · exact adds
    · exact adds.replace rfl (fun _ => rfl) (Subset.refl _)
  · intro rtype row member isNew
    exact absurd (mem_map_of_mem member) isNew

/-- From one state to a later one, ids are issued, and as long as they are fresh the tables stay in
order and rows of the types are kept. -/
structure Advances (services : Services) (org : OrgConfig) (count : Nat)
    (types : ResourceType → Prop) (s next : ImportState) : Prop where
  issued : s.issued ≤ next.issued
  tabled : next.issued ≤ count → Tabled services org s → Tabled services org next
  keeps : next.issued ≤ count → Tabled services org s →
    ∀ rtype, types rtype → KeepsRows s.org next.org rtype

namespace Advances

variable {count : Nat} {types : ResourceType → Prop} {first second third : ImportState}

theorem refl (s : ImportState) : Advances services org count types s s where
  issued := le_rfl
  tabled _ tabled := tabled
  keeps _ _ rtype _ := KeepsRows.refl s.org rtype

theorem trans (left : Advances services org count types first second)
    (right : Advances services org count types second third) :
    Advances services org count types first third where
  issued := left.issued.trans right.issued
  tabled within tabled := right.tabled within (left.tabled (right.issued.trans within) tabled)
  keeps within tabled rtype chosen :=
    have before := right.issued.trans within
    (left.keeps before tabled rtype chosen).trans
      (right.keeps within (left.tabled before tabled) rtype chosen)

theorem of_effect (fresh : FreshIds services org count) (effect : Effect services first second)
    (keeps : Tabled services org first → ∀ rtype, types rtype →
      KeepsRows first.org second.org rtype) :
    Advances services org count types first second where
  issued := effect.issued_le
  tabled within tabled := tabled.effect fresh effect within
  keeps _ tabled := keeps tabled

end Advances

variable {s next : ImportState} {count : Nat}

section

variable (fresh : FreshIds services org count)

include fresh

theorem passes_advance {phases : List Phase}
    (passes : ∀ phase ∈ phases, phase ≠ .relationships ∧ phase ≠ .supervisors)
    (finished : Lib.Trace.run (importPhase services .skip resources) s phases = some next) :
    Advances services org count (fun _ => True) s next := by
  refine Lib.Trace.run_invariant_mem (Advances services org count (fun _ => True) s) ?_
    (Advances.refl s) finished
  intro middle phase member last before passed
  obtain ⟨noRelationships, noSupervisors⟩ := passes phase member
  cases phase with
  | objects rtype =>
    refine importPass_invariant ?_ before passed
    intro state obj change stepped advanced _ decided applied
    exact advanced.trans (Advances.of_effect fresh (applyChange_effect applied)
      fun tabled other _ => applyChange_skip tabled.unique decided applied other)
  | relationships => exact absurd rfl noRelationships
  | supervisors => exact absurd rfl noSupervisors

theorem relationships_advance {entities : List Fields}
    (finished : importRelationships services s entities = some next) :
    Advances services org count (fun _ => False) s next := by
  refine importRelationships_invariant ?_ (Advances.refl s) finished
  intro state sourceRow rel stepped advanced done
  exact advanced.trans (Advances.of_effect fresh (importRelationship_effect done) fun _ _ => nofun)

theorem supervisors_advance {agents : List Fields}
    (finished : importSupervisors services s agents = some next) :
    Advances services org count (fun _ => False) s next := by
  refine Lib.Trace.run_invariant (Advances services org count (fun _ => False) s) ?_ agents
    (Advances.refl s) finished
  intro state agent stepped advanced done
  exact advanced.trans (Advances.of_effect fresh (importSupervisor_effect done) fun _ _ => nofun)

end

end Import

/-! ## What the second passes add -/

section Claim

variable (services : Services) (resources : Resources) (org : OrgConfig)

/-- The import has changed no row of the org, but for lineages that were adopted, and has added rows
only for objects that matched nothing. -/
def SkipKeeps (final : ImportState) : Prop :=
  (∀ rtype, ∀ row ∈ org.rows rtype, ∃ kept ∈ final.org.rows rtype, Kept row kept) ∧
    AddsUnmatched org final

/-- The second passes find nothing to add to the rows of the org: every relationship of an entity
of the bundle is on the row that the entity is mapped to, or its target is not mapped, or it is
refused; and an agent of the org has the supervisor that it is to get, if any. -/
def NothingToPatch : Prop :=
  (∀ s, importBefore services .skip resources org .relationships = some s →
    ∀ row ∈ org.rows .entities, ∀ ent ∈ resources.get .entities,
      ¬Enlarges services row.id s ent) ∧
  (∀ s, importBefore services .skip resources org .supervisors = some s →
    ∀ row ∈ org.rows .agents, ∀ supervisor,
      lastSupervisor services s (resources.get .agents) row.id = some supervisor →
        row.column "supervisor_id" = .str supervisor)

end Claim

section Proof

variable {services : Services} {resources : Resources} {org : OrgConfig} {final : ImportState}

/-- The passes between the two second passes. -/
def referrerPhases : List Phase :=
  [.objects .connections, .objects .folders, .objects .workflows, .objects .inboundEndpoints,
    .objects .reports, .objects .forms, .objects .views, .objects .mcpServers, .objects .agents]

structure Stages (services : Services) (resources : Resources) (org : OrgConfig)
    (final defined related configured : ImportState) : Prop where
  isDefined : importBefore services .skip resources org .relationships = some defined
  isRelated : importRelationships services defined (resources.get .entities) = some related
  isConfigured : importBefore services .skip resources org .supervisors = some configured
  referred : Lib.Trace.run (importPhase services .skip resources) related referrerPhases =
    some configured
  supervised : importSupervisors services configured (resources.get .agents) = some final

theorem exists_stages (finished : importBundle services .skip resources org = some final) :
    ∃ defined related configured, Stages services resources org final defined related configured := by
  obtain ⟨configured, last, isConfigured, supervised, done⟩ :=
    exists_importBefore (by decide : Phase.supervisors ∈ importPhases) finished
  cases done
  have split : importPhases.takeWhile (· ≠ .supervisors) =
      importPhases.takeWhile (· ≠ .relationships) ++ .relationships :: referrerPhases := by decide
  have ran := isConfigured
  rw [importBefore, split, Lib.Trace.run_append] at ran
  obtain ⟨defined, isDefined, ran⟩ := bind_eq_some_iff.mp ran
  obtain ⟨related, isRelated, referred⟩ := bind_eq_some_iff.mp ran
  exact ⟨defined, related, configured, isDefined, isRelated, isConfigured, referred, supervised⟩

namespace Stages

variable {defined related configured : ImportState}
  (stages : Stages services resources org final defined related configured)
  (unique : UniqueIds org) (fresh : FreshIds services org final.issued)
include stages unique fresh

omit unique in
theorem definitions_advance :
    Advances services org final.issued (fun _ => True) { org := org } defined :=
  passes_advance fresh (by decide) stages.isDefined

omit unique in
theorem referrers_advance : Advances services org final.issued (fun _ => True) related configured :=
  passes_advance fresh (by decide) stages.referred

omit unique in
theorem issued_le : related.issued ≤ final.issued ∧ configured.issued ≤ final.issued := by
  have referrers := stages.referrers_advance fresh
  have supervisors := supervisors_advance fresh stages.supervised
  exact ⟨referrers.issued.trans supervisors.issued, supervisors.issued⟩

theorem tabled_related : Tabled services org related := by
  have definitions := stages.definitions_advance fresh
  have relationships := relationships_advance fresh stages.isRelated
  have within := (stages.issued_le fresh).1
  exact relationships.tabled within
    (definitions.tabled (relationships.issued.trans within) (Tabled.start unique))

theorem tabled : Tabled services org final :=
  (supervisors_advance fresh stages.supervised).tabled le_rfl
    ((stages.referrers_advance fresh).tabled (stages.issued_le fresh).2
      (stages.tabled_related unique fresh))

theorem keeps_defined (rtype : ResourceType) : KeepsRows org defined.org rtype :=
  have relationships := relationships_advance fresh stages.isRelated
  (stages.definitions_advance fresh).keeps
    (relationships.issued.trans (stages.issued_le fresh).1) (Tabled.start unique) rtype trivial

theorem keeps_configured (rtype : ResourceType) : KeepsRows related.org configured.org rtype :=
  (stages.referrers_advance fresh).keeps (stages.issued_le fresh).2
    (stages.tabled_related unique fresh) rtype trivial

theorem keeps_other {rtype : ResourceType} (noEntity : rtype ≠ .entities)
    (noAgent : rtype ≠ .agents) : KeepsRows org final.org rtype :=
  ((stages.keeps_defined unique fresh rtype).trans
    (KeepsRows.of_rows_eq (rows_importRelationships noEntity stages.isRelated))).trans
    ((stages.keeps_configured unique fresh rtype).trans
      (KeepsRows.of_rows_eq (rows_importSupervisors noAgent stages.supervised)))

/-- **Entities are kept exactly if the second pass enlarges none of them.** -/
theorem keeps_entities_iff : KeepsRows org final.org .entities ↔
    ∀ row ∈ org.rows .entities, ∀ ent ∈ resources.get .entities,
      ¬Enlarges services row.id defined ent := by
  have sameEnd : final.org.rows .entities = configured.org.rows .entities :=
    rows_importSupervisors (by decide) stages.supervised
  constructor
  · intro keeps row member ent isEnt enlarges
    have found := OrgConfig.find_eq_some_of_mem (unique .entities) member
    obtain ⟨atDefined, isDefined, kept⟩ := stages.keeps_defined unique fresh .entities _ _ found
    rcases importRelationships_view row.id stages.isRelated with ⟨quiet, _⟩ | ⟨_, larger⟩
    · exact quiet ent isEnt enlarges
    · cases isRelated : related.org.find .entities row.id with
      | none => simp [isRelated, relationshipCount] at larger
      | some atRelated =>
        obtain ⟨last, isLast, keptLater⟩ :=
          stages.keeps_configured unique fresh .entities _ _ isRelated
        obtain ⟨last', isLast', keptAll⟩ := keeps _ _ found
        have same : some last = some last' := by
          rw [← isLast, ← isLast', OrgConfig.find, OrgConfig.find, sameEnd]
        cases same
        have sameColumns : atRelated.columns = atDefined.columns := by
          rw [← keptLater.columns, keptAll.columns, kept.columns]
        simp [isRelated, isDefined, relationshipCount, Row.column, sameColumns] at larger
  · intro quiet id row found
    obtain ⟨member, rfl⟩ := OrgConfig.mem_of_find found
    have untouched : related.org.find .entities row.id = defined.org.find .entities row.id := by
      rcases importRelationships_view row.id stages.isRelated with ⟨_, same⟩ | ⟨fired, _⟩
      · exact same
      · obtain ⟨ent, isEnt, enlarges⟩ := fired
        exact absurd enlarges (quiet row member ent isEnt)
    obtain ⟨atDefined, isDefined, kept⟩ := stages.keeps_defined unique fresh .entities _ _ found
    obtain ⟨last, isLast, keptLater⟩ := stages.keeps_configured unique fresh .entities _ _
      (untouched.trans isDefined)
    refine ⟨last, ?_, kept.trans keptLater⟩
    rw [← isLast, OrgConfig.find, OrgConfig.find, sameEnd]

/-- **Agents are kept exactly if none of them is given another supervisor.** -/
theorem keeps_agents_iff : KeepsRows org final.org .agents ↔
    ∀ row ∈ org.rows .agents, ∀ supervisor,
      lastSupervisor services configured (resources.get .agents) row.id = some supervisor →
        row.column "supervisor_id" = .str supervisor := by
  have keeps := ((stages.keeps_defined unique fresh .agents).trans
    (KeepsRows.of_rows_eq (rows_importRelationships (by decide) stages.isRelated))).trans
    (stages.keeps_configured unique fresh .agents)
  constructor
  · intro keepsAll row member supervisor isLast
    have found := OrgConfig.find_eq_some_of_mem (unique .agents) member
    obtain ⟨before, isBefore, kept⟩ := keeps _ _ found
    obtain ⟨after, isAfter, keptAll⟩ := keepsAll _ _ found
    rw [find_importSupervisors row.id stages.supervised, isBefore, isLast] at isAfter
    cases isAfter
    have columns : Fields.set "supervisor_id" (.str supervisor) before.columns = row.columns :=
      keptAll.columns
    rw [Row.column, ← columns, get_set_self]
  · intro same id row found
    obtain ⟨member, rfl⟩ := OrgConfig.mem_of_find found
    obtain ⟨before, isBefore, kept⟩ := keeps _ _ found
    refine ⟨_, by rw [find_importSupervisors row.id stages.supervised, isBefore]; rfl, ?_⟩
    cases isLast : lastSupervisor services configured (resources.get .agents) row.id with
    | none => exact kept
    | some supervisor =>
      have current := same row member supervisor isLast
      rw [Row.column, ← kept.columns, Fields.get] at current
      have known : before.columns.lookup "supervisor_id" = some (.str supervisor) := by
        cases isThere : before.columns.lookup "supervisor_id" with
        | none => simp [isThere] at current
        | some value => simpa [isThere] using current
      exact ⟨kept.id, (set_eq_self known).trans kept.columns, kept.lineage⟩

end Stages

/-- **A `skip` import leaves every row of the org as it was, exactly if the second passes find
nothing to add: no relationship for an entity that was there, and no supervisor for an agent but
the one it has.** -/
theorem skip_keeps_iff (unique : UniqueIds org) (fresh : FreshIds services org final.issued)
    (finished : importBundle services .skip resources org = some final) :
    SkipKeeps org final ↔ NothingToPatch services resources org := by
  obtain ⟨defined, related, configured, stages⟩ := exists_stages finished
  have uniqueNow := (stages.tabled unique fresh).unique
  have keeps_iff : (∀ rtype, ∀ row ∈ org.rows rtype, ∃ kept ∈ final.org.rows rtype, Kept row kept) ↔
      ∀ rtype, KeepsRows org final.org rtype := by
    constructor
    · intro all rtype id row found
      obtain ⟨member, rfl⟩ := OrgConfig.mem_of_find found
      obtain ⟨kept, isRow, isKept⟩ := all rtype row member
      have now := OrgConfig.find_eq_some_of_mem (uniqueNow rtype) isRow
      exact ⟨kept, isKept.id ▸ now, isKept⟩
    · intro all rtype row member
      obtain ⟨kept, found, isKept⟩ :=
        all rtype row.id row (OrgConfig.find_eq_some_of_mem (unique rtype) member)
      exact ⟨kept, (OrgConfig.mem_of_find found).1, isKept⟩
  have patch_iff : NothingToPatch services resources org ↔
      KeepsRows org final.org .entities ∧ KeepsRows org final.org .agents := by
    rw [stages.keeps_entities_iff unique fresh, stages.keeps_agents_iff unique fresh, NothingToPatch]
    simp only [stages.isDefined, stages.isConfigured, some.injEq, forall_eq']
  rw [SkipKeeps, keeps_iff, patch_iff, and_iff_left (addsUnmatched_importBundle finished)]
  constructor
  · exact fun all => ⟨all .entities, all .agents⟩
  · intro ⟨entities, agents⟩ rtype
    by_cases noEntity : rtype = .entities
    · exact noEntity ▸ entities
    by_cases noAgent : rtype = .agents
    · exact noAgent ▸ agents
    exact stages.keeps_other unique fresh noEntity noAgent

end Proof

/-! ## Firms and their owners -/

def ownersImport : Option ImportState :=
  importBundle plainServices .skip (firmOrg [ownerRelationship]).exported (firmOrg [])

theorem ownersImport_isSome : ownersImport.isSome = true := by decide +kernel

def ownersImported : ImportState := ownersImport.get ownersImport_isSome

theorem ownersImport_eq : ownersImport = some ownersImported := (some_get _).symm

/-- A firm of the target has no owners before the import, and has them afterwards. -/
theorem not_skipKeeps_owners :
    importBundle plainServices .skip (firmOrg [ownerRelationship]).exported (firmOrg []) =
        some ownersImported ∧
      ¬SkipKeeps (firmOrg []) ownersImported := by
  refine ⟨ownersImport_eq, fun keeps => ?_⟩
  have firm : entityRow firmId "Firm" "firm" [] ∈ (firmOrg []).rows .entities := by decide +kernel
  obtain ⟨kept, member, isKept⟩ := keeps.1 .entities _ firm
  have changed : ∀ kept ∈ ownersImported.org.rows .entities,
      kept.id = firmId → kept.columns ≠ (entityRow firmId "Firm" "firm" []).columns := by
    decide +kernel
  exact changed kept member isKept.id isKept.columns

theorem skip_keeps_iff_owners :
    SkipKeeps (firmOrg []) ownersImported ↔
      NothingToPatch plainServices (firmOrg [ownerRelationship]).exported (firmOrg []) := by
  have unique : UniqueIds (firmOrg []) := by
    unfold UniqueIds
    decide +kernel
  exact skip_keeps_iff unique ⟨by decide +kernel, by decide +kernel⟩ ownersImport_eq

end RedArchKM.Promotion
