import RedArchKM.Promotion.ImportDecisions

/-!
# What an import step writes

Every step of an import replaces one row, adds one row under an id just issued, or leaves the
tables as they are (`Effect`). Row ids therefore stay unique, and every row is one of the org before the import
or one that the import has created (`Tabled`), as long as the issued ids are fresh.

What the steps of every pass keep, the whole import keeps (`importBundle_invariant`).
-/

namespace RedArchKM.Promotion

open Workflow (Fields Json)
open Columns List Option

/-! ## Rows by their id -/

namespace OrgConfig

variable {org : OrgConfig} {rtype other : ResourceType} {id : String} {row : Row}

theorem mem_of_find (found : org.find rtype id = some row) : row ∈ org.rows rtype ∧ row.id = id :=
  ⟨mem_of_find?_eq_some found, by simpa using find?_some found⟩

theorem find_eq_some_of_mem (nodup : ((org.rows rtype).map Row.id).Nodup)
    (member : row ∈ org.rows rtype) : org.find rtype row.id = some row := by
  cases found : org.find rtype row.id with
  | none =>
    have absent := find?_eq_none.mp found row member
    simp at absent
  | some first =>
    obtain ⟨isRow, sameId⟩ := mem_of_find found
    rw [inj_on_of_nodup_map nodup isRow member sameId]

theorem find_map {rows : List Row} {change : Row → Row} (keeps : ∀ row, (change row).id = row.id)
    (id : String) :
    (rows.map change).find? (fun row => row.id = id) =
      (rows.find? fun row => row.id = id).map change := by
  rw [find?_map]
  congr 2
  funext row
  simp [keeps]

end OrgConfig

theorem id_replaceRow {id : String} {change : Row → Row} (keeps : ∀ row, (change row).id = row.id)
    (row : Row) : (replaceRow id change row).id = row.id := by
  unfold replaceRow
  split
  · exact keeps row
  · rfl

/-! ## Changes that are carried out -/

section Apply

variable {services : Services} {rtype : ResourceType} {kind : Option Namespace} {obj : Fields}
  {s next : ImportState}

theorem get_of_idsWith {ids ids' : IdMap} {mapped : Bool} {id : String} {other : Namespace}
    (put : idsWith services kind obj mapped id ids = some ids') (different : some other ≠ kind)
    (oldId : String) : ids'.get other oldId = ids.get other oldId := by
  unfold idsWith at put
  split at put
  · rename_i kind
    obtain ⟨sourceId, _, rfl⟩ := map_eq_some_iff.mp put
    have skipped : ((other, oldId) == (kind, sourceId)) = false := by
      simpa using fun same => absurd (congrArg some same) different
    rw [IdMap.get, IdMap.put, lookup_cons, skipped]
    rfl
  · cases put
    rfl

theorem applyChange_update {row : Row} {write : Write}
    (applied : applyChange services rtype kind obj s (.update row write) = some next) :
    ∃ lineageId ids,
      lineageAfter row obj write.linked = some lineageId ∧
      idsWith services kind obj write.mapped row.id s.ids = some ids ∧
      next = { s with
        org := s.org.modify rtype (List.map (replaceRow row.id fun row =>
          { row with lineageId := lineageId, columns := write.columns }))
        ids := ids
        issued := s.issued + write.parts
        outcomes := s.outcomes ++
          [{ resourceType := rtype, obj := obj, action := write.action, found := some row.id }] } := by
  obtain ⟨lineageId, lineage, rest⟩ := bind_eq_some_iff.mp applied
  obtain ⟨mapped, put, done⟩ := bind_eq_some_iff.mp rest
  obtain ⟨ids, isIds, rfl⟩ := map_eq_some_iff.mp put
  exact ⟨lineageId, ids, lineage, isIds, (some.inj done).symm⟩

theorem applyChange_create {collides : Option Row} {listed : Bool} {write : Write}
    (applied : applyChange services rtype kind obj s (.create collides listed write) = some next) :
    ∃ lineageId ids,
      lineageOfNew obj (services.freshId s.issued) write.linked = some lineageId ∧
      idsWith services kind obj write.mapped (services.freshId s.issued) s.ids = some ids ∧
      next = { s with
        org := s.org.modify rtype
          (· ++ [Row.mk (services.freshId s.issued) lineageId write.columns])
        ids := ids
        issued := s.issued + (write.parts + 1)
        unlisted := if listed then s.unlisted else services.freshId s.issued :: s.unlisted
        outcomes := s.outcomes ++
          [{ resourceType := rtype, obj := obj, action := write.action,
             found := collides.map Row.id, created := some (services.freshId s.issued) }] } := by
  obtain ⟨lineageId, lineage, rest⟩ := bind_eq_some_iff.mp applied
  obtain ⟨mapped, put, done⟩ := bind_eq_some_iff.mp rest
  obtain ⟨ids, isIds, rfl⟩ := map_eq_some_iff.mp put
  refine ⟨lineageId, ids, lineage, ?_, ?_⟩
  · cases listed <;> exact isIds
  · cases done
    cases listed <;> rfl

theorem applyChange_leave {action : Option Action} {tried : List String}
    (applied : applyChange services rtype kind obj s (.leave action tried) = some next) :
    next = { s with
      takenSlugs := tried ++ s.takenSlugs
      outcomes := s.outcomes ++ action.toList.map fun action =>
          { resourceType := rtype, obj := obj, action := action } } := by
  cases applied
  cases action with
  | none => simp
  | some action => rfl

end Apply

/-! ## Effects -/

/-- What a step does to the tables. -/
inductive Effect (services : Services) (s : ImportState) : ImportState → Prop where
  | quiet {next : ImportState} (org : next.org = s.org) (issued : next.issued = s.issued) :
      Effect services s next
  | replace {next : ImportState} (rtype : ResourceType) (id : String) (change : Row → Row)
      (keeps : ∀ row, (change row).id = row.id)
      (org : next.org = s.org.modify rtype (List.map (replaceRow id change)))
      (issued : s.issued ≤ next.issued) : Effect services s next
  | add {next : ImportState} (rtype : ResourceType) (row : Row)
      (isFresh : row.id = services.freshId s.issued)
      (org : next.org = s.org.modify rtype (· ++ [row])) (issued : s.issued < next.issued) :
      Effect services s next

namespace Effect

variable {services : Services} {s next : ImportState}

theorem issued_le (effect : Effect services s next) : s.issued ≤ next.issued := by
  cases effect with
  | quiet _ issued => omega
  | replace _ _ _ _ _ issued => exact issued
  | add _ _ _ _ issued => omega

end Effect

section Steps

variable {services : Services} {s next : ImportState}

theorem applyChange_effect {rtype : ResourceType} {kind : Option Namespace} {obj : Fields}
    {change : Change} (applied : applyChange services rtype kind obj s change = some next) :
    Effect services s next := by
  cases change with
  | leave action tried =>
    obtain rfl := applyChange_leave applied
    exact .quiet rfl rfl
  | update row write =>
    obtain ⟨lineageId, ids, _, _, rfl⟩ := applyChange_update applied
    exact .replace rtype row.id
      (fun row => { row with lineageId := lineageId, columns := write.columns })
      (fun _ => rfl) rfl (Nat.le_add_right _ _)
  | create collides listed write =>
    obtain ⟨lineageId, ids, _, _, rfl⟩ := applyChange_create applied
    exact .add rtype _ rfl rfl (Nat.lt_add_of_pos_right (Nat.succ_pos _))

/-- The relationship that the second pass would create for an object: its target and its body. -/
def newRelationship (services : Services) (sourceRow : String) (s : ImportState) (rel : Fields) :
    Option (String × Json) := do
  let target ← rel.lookup "target_definition_id"
  let slug ← rel.lookup "slug"
  let targetId ← s.ids.get .entities (asText services.str target)
  let source ← s.org.find .entities sourceRow
  if slug ∈ slugsOf (items (source.column "relationships")) then none
  else (createRelationship services source rel targetId).toOption.map fun body => (targetId, body)

theorem importRelationship_cases {sourceRow : String} {rel : Fields}
    (done : importRelationship services sourceRow s rel = some next) :
    ∃ ids, (∀ oldId, ids.get .entities oldId = s.ids.get .entities oldId) ∧
    ((newRelationship services sourceRow s rel = none ∧ next = { s with ids := ids }) ∨
    ∃ targetId body, newRelationship services sourceRow s rel = some (targetId, body) ∧
      next = { s with
        org := s.org.modify .entities (List.map (replaceRow sourceRow (addRelationship services
          (relationshipRow (services.freshId s.issued) targetId body))))
        issued := s.issued + 1
        ids := ids }) := by
  obtain ⟨target, isTarget, done⟩ := bind_eq_some_iff.mp done
  obtain ⟨slug, isSlug, done⟩ := bind_eq_some_iff.mp done
  dsimp only at done
  split at done
  · rename_i targetId mapped
    obtain ⟨source, isSource, done⟩ := bind_eq_some_iff.mp done
    have unfolds : newRelationship services sourceRow s rel =
        if slug ∈ slugsOf (items (source.column "relationships")) then none
        else (createRelationship services source rel targetId).toOption.map (targetId, ·) := by
      simp [newRelationship, isTarget, isSlug, mapped, isSource]
    split at done
    · rename_i existing found
      obtain ⟨ids, put, rfl⟩ := map_eq_some_iff.mp done
      have present : slug ∈ slugsOf (items (source.column "relationships")) :=
        mem_map.mpr ⟨existing, mem_of_find?_eq_some found, by simpa using find?_some found⟩
      exact ⟨ids, get_of_idsWith put (by decide), .inl ⟨by rw [unfolds, if_pos present], rfl⟩⟩
    · rename_i absent
      have missing : slug ∉ slugsOf (items (source.column "relationships")) := by
        intro present
        obtain ⟨existing, member, same⟩ := mem_map.mp present
        have skipped := find?_eq_none.mp absent existing member
        simp [same] at skipped
      rw [if_neg missing] at unfolds
      split at done
      · cases done
      · rename_i refused
        cases done
        exact ⟨s.ids, fun _ => rfl, .inl ⟨by rw [unfolds, refused]; rfl, rfl⟩⟩
      · rename_i body accepted
        obtain ⟨ids, put, rfl⟩ := map_eq_some_iff.mp done
        exact ⟨ids, get_of_idsWith put (by decide),
          .inr ⟨targetId, body, by rw [unfolds, accepted]; rfl, rfl⟩⟩
  · rename_i unmapped
    cases done
    have isNone : s.ids.get .entities (asText services.str target) = none :=
      eq_none_iff_forall_not_mem.mpr unmapped
    exact ⟨s.ids, fun _ => rfl, .inl ⟨by simp [newRelationship, isTarget, isSlug, isNone], rfl⟩⟩

theorem importRelationship_effect {sourceRow : String} {rel : Fields}
    (done : importRelationship services sourceRow s rel = some next) :
    Effect services s next := by
  obtain ⟨ids, _, ⟨_, rfl⟩ | ⟨targetId, body, _, rfl⟩⟩ := importRelationship_cases done
  · exact .quiet rfl rfl
  · exact .replace .entities sourceRow (addRelationship services _) (fun _ => rfl) rfl
      (Nat.le_succ _)

/-- The supervisor that the second pass would set for an object: the row and its supervisor. -/
def supervisorWrite (services : Services) (s : ImportState) (agent : Fields) :
    Option (String × String) := do
  let oldId ← agent.lookup "id"
  let row ← s.ids.get .agents (asText services.str oldId)
  let supervisor ← mappedId services s .agents (Fields.get agent "supervisor_id")
  return (row, supervisor)

def setSupervisor (supervisor : String) (row : Row) : Row :=
  { row with columns := Fields.set "supervisor_id" (.str supervisor) row.columns }

theorem importSupervisor_cases {agent : Fields}
    (done : importSupervisor services s agent = some next) :
    (supervisorWrite services s agent = none ∧ next = s) ∨
    ∃ row supervisor, supervisorWrite services s agent = some (row, supervisor) ∧
      next = s.replace .agents row (setSupervisor supervisor) := by
  obtain ⟨oldId, isId, done⟩ := bind_eq_some_iff.mp done
  have unfolds : supervisorWrite services s agent =
      (s.ids.get .agents (asText services.str oldId)).bind fun row =>
        (mappedId services s .agents (Fields.get agent "supervisor_id")).map (row, ·) := by
    simp [supervisorWrite, isId, map_eq_bind]
  dsimp only at done
  split at done
  · rename_i row supervisor mapped isSupervisor
    exact .inr ⟨row, supervisor, by simp [unfolds, mapped, isSupervisor], (some.inj done).symm⟩
  · rename_i incomplete
    refine .inl ⟨?_, (some.inj done).symm⟩
    rw [unfolds, bind_eq_none_iff]
    intro row mapped
    rw [map_eq_none_iff, eq_none_iff_forall_not_mem]
    exact fun supervisor isSupervisor => incomplete row supervisor mapped isSupervisor

theorem importSupervisor_effect {agent : Fields}
    (done : importSupervisor services s agent = some next) : Effect services s next := by
  rcases importSupervisor_cases done with ⟨_, rfl⟩ | ⟨row, supervisor, _, rfl⟩
  · exact .quiet rfl rfl
  · exact .replace .agents row (setSupervisor supervisor) (fun _ => rfl) rfl le_rfl

end Steps

/-! ## Whole imports -/

section Runs

variable {services : Services} {strategy : CollisionStrategy} {resources : Resources}
  {s final : ImportState} {holds : ImportState → Prop}

variable {rtype : ResourceType}

theorem importPass_invariant
    (keeps : ∀ s obj change next, holds s → obj ∈ importOrder services resources rtype →
      decisionOf services strategy rtype s obj = some change →
      applyChange services rtype (kindOf rtype) obj s change = some next → holds next)
    (start : holds s) (finished : importPass services strategy resources s rtype = some final) :
    holds final := by
  refine Lib.Trace.run_invariant_mem holds (fun s obj member next held stepped => ?_) start finished
  obtain ⟨change, decided, applied⟩ := bind_eq_some_iff.mp stepped
  exact keeps s obj change next held member decided applied

theorem importRelationships_invariant {entities : List Fields}
    (keeps : ∀ s sourceRow rel next, holds s →
      importRelationship services sourceRow s rel = some next → holds next) (start : holds s)
    (finished : importRelationships services s entities = some final) : holds final := by
  refine Lib.Trace.run_invariant holds (fun s ent next held stepped => ?_) entities start finished
  obtain ⟨oldId, _, stepped⟩ := bind_eq_some_iff.mp stepped
  split at stepped
  · cases stepped
    exact held
  · obtain ⟨rels, _, ran⟩ := bind_eq_some_iff.mp stepped
    exact Lib.Trace.run_invariant holds (fun s rel next => keeps s _ rel next) rels held ran

section

variable
    (object : ∀ s rtype obj change next, holds s →
      decisionOf services strategy rtype s obj = some change →
        applyChange services rtype (kindOf rtype) obj s change = some next → holds next)
    (relationship : ∀ s sourceRow rel next, holds s →
      importRelationship services sourceRow s rel = some next → holds next)
    (supervisor : ∀ s agent next, holds s → importSupervisor services s agent = some next → holds next)

include object relationship supervisor

theorem importPhase_invariant {phase : Phase} (start : holds s)
    (finished : importPhase services strategy resources s phase = some final) : holds final := by
  cases phase with
  | objects rtype =>
    exact importPass_invariant (fun s obj change next held _ => object s rtype obj change next held)
      start finished
  | relationships => exact importRelationships_invariant relationship start finished
  | supervisors => exact Lib.Trace.run_invariant holds supervisor _ start finished

/-- **What every step of an import keeps, the import keeps.** -/
theorem importBundle_invariant {org : OrgConfig} (start : holds { org := org })
    (finished : importBundle services strategy resources org = some final) : holds final :=
  Lib.Trace.run_invariant holds
    (fun _ _ _ => importPhase_invariant object relationship supervisor) _ start finished

end

theorem rows_importSupervisors (other : rtype ≠ .agents) {agents : List Fields}
    (done : importSupervisors services s agents = some final) :
    final.org.rows rtype = s.org.rows rtype := by
  refine Lib.Trace.run_invariant (fun next => next.org.rows rtype = s.org.rows rtype) ?_ agents rfl
    done
  intro state agent next same stepped
  rcases importSupervisor_cases stepped with ⟨_, rfl⟩ | ⟨row, supervisor, _, rfl⟩
  · exact same
  · exact (OrgConfig.rows_modify_of_ne _ _ other).trans same

theorem rows_importRelationships (other : rtype ≠ .entities) {entities : List Fields}
    (done : importRelationships services s entities = some final) :
    final.org.rows rtype = s.org.rows rtype := by
  have keeps : ∀ state sourceRow rel next, state.org.rows rtype = s.org.rows rtype →
      importRelationship services sourceRow state rel = some next →
      next.org.rows rtype = s.org.rows rtype := by
    intro state sourceRow rel next same stepped
    obtain ⟨ids, _, ⟨_, rfl⟩ | ⟨targetId, body, _, rfl⟩⟩ := importRelationship_cases stepped
    · exact same
    · exact (OrgConfig.rows_modify_of_ne _ _ other).trans same
  exact importRelationships_invariant keeps rfl done

/-- **An import up to a phase, the phase, and the rest.** -/
theorem exists_importBefore {org : OrgConfig} {phase : Phase} (isPhase : phase ∈ importPhases)
    (finished : importBundle services strategy resources org = some final) :
    ∃ start next, importBefore services strategy resources org phase = some start ∧
      importPhase services strategy resources start phase = some next ∧
      Lib.Trace.run (importPhase services strategy resources) next
        (importPhases.dropWhile (· ≠ phase)).tail = some final := by
  have split : importPhases = importPhases.takeWhile (· ≠ phase) ++
      phase :: (importPhases.dropWhile (· ≠ phase)).tail := by
    revert phase
    decide
  rw [importBundle, split, Lib.Trace.run_append] at finished
  obtain ⟨start, before, finished⟩ := bind_eq_some_iff.mp finished
  obtain ⟨next, stepped, rest⟩ := bind_eq_some_iff.mp finished
  exact ⟨start, next, before, stepped, rest⟩

end Runs

/-! ## Fresh ids -/

/-- The first `count` ids are new to the org and different from each other. -/
structure FreshIds (services : Services) (org : OrgConfig) (count : Nat) : Prop where
  injective : ∀ i < count, ∀ j < count, services.freshId i = services.freshId j → i = j
  absent : ∀ rtype, ∀ row ∈ org.rows rtype, ∀ i < count, row.id ≠ services.freshId i

/-- Row ids are unique, as the primary keys of their tables. -/
def UniqueIds (org : OrgConfig) : Prop := ∀ rtype, ((org.rows rtype).map Row.id).Nodup

structure Tabled (services : Services) (org : OrgConfig) (s : ImportState) : Prop where
  unique : UniqueIds s.org
  origin : ∀ rtype, ∀ row ∈ s.org.rows rtype,
    row.id ∈ (org.rows rtype).map Row.id ∨ ∃ i < s.issued, row.id = services.freshId i

namespace Tabled

variable {services : Services} {org : OrgConfig} {s next : ImportState} {count : Nat}

theorem start (unique : UniqueIds org) : Tabled services org { org := org } where
  unique := unique
  origin _ _ member := .inl (mem_map_of_mem member)

theorem not_mem_of_fresh (tabled : Tabled services org s) (fresh : FreshIds services org count)
    (within : s.issued < count) (rtype : ResourceType) :
    services.freshId s.issued ∉ (s.org.rows rtype).map Row.id := by
  intro taken
  obtain ⟨row, member, same⟩ := mem_map.mp taken
  rcases tabled.origin rtype row member with old | ⟨i, before, issued⟩
  · obtain ⟨oldRow, oldMember, sameId⟩ := mem_map.mp old
    exact fresh.absent rtype oldRow oldMember s.issued within (sameId.trans same)
  · have := fresh.injective i (before.trans within) s.issued within (issued.symm.trans same)
    omega

theorem effect (tabled : Tabled services org s) (fresh : FreshIds services org count)
    (effect : Effect services s next) (within : next.issued ≤ count) :
    Tabled services org next := by
  cases effect with
  | quiet org' issued =>
    exact ⟨fun rtype => by rw [org']; exact tabled.unique rtype,
      fun rtype row => by rw [org', issued]; exact tabled.origin rtype row⟩
  | replace changed id change keeps org' issued =>
    have sameIds (rtype : ResourceType) :
        (next.org.rows rtype).map Row.id = (s.org.rows rtype).map Row.id := by
      rw [org']
      by_cases same : rtype = changed
      · subst same
        simp [Function.comp_def, id_replaceRow keeps]
      · rw [OrgConfig.rows_modify_of_ne _ _ same]
    refine ⟨fun rtype => by rw [sameIds]; exact tabled.unique rtype, fun rtype row member => ?_⟩
    have present : row.id ∈ (next.org.rows rtype).map Row.id := mem_map_of_mem member
    rw [sameIds] at present
    obtain ⟨before, isRow, same⟩ := mem_map.mp present
    rw [← same]
    rcases tabled.origin rtype before isRow with old | ⟨i, earlier, isFresh⟩
    · exact .inl old
    · exact .inr ⟨i, by omega, isFresh⟩
  | add added row isFresh org' issued =>
    have notTaken := tabled.not_mem_of_fresh fresh (by omega)
    refine ⟨fun rtype => ?_, fun rtype other member => ?_⟩
    · rw [org']
      by_cases same : rtype = added
      · subst same
        rw [OrgConfig.rows_modify_self, map_append, map_singleton, isFresh]
        exact nodup_append.mpr ⟨tabled.unique rtype, nodup_singleton _,
          fun taken isTaken other isOther same => by
            rw [mem_singleton.mp isOther] at same
            exact notTaken rtype (same ▸ isTaken)⟩
      · rw [OrgConfig.rows_modify_of_ne _ _ same]
        exact tabled.unique rtype
    · have wasThere (isRow : other ∈ s.org.rows rtype) : other.id ∈ (org.rows rtype).map Row.id ∨
          ∃ i < next.issued, other.id = services.freshId i := by
        rcases tabled.origin rtype other isRow with old | ⟨i, earlier, isFresh⟩
        · exact .inl old
        · exact .inr ⟨i, by omega, isFresh⟩
      rw [org'] at member
      by_cases same : rtype = added
      · subst same
        rw [OrgConfig.rows_modify_self] at member
        rcases mem_append.mp member with before | isNew
        · exact wasThere before
        · obtain rfl := mem_singleton.mp isNew
          exact .inr ⟨s.issued, issued, isFresh⟩
      · rw [OrgConfig.rows_modify_of_ne _ _ same] at member
        exact wasThere member

end Tabled

end RedArchKM.Promotion
