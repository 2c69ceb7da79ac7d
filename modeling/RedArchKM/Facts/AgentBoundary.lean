import RedArchKM.Facts.AsOf

/-!
# What the fact agent shows of restricted documents

Two tenants look alike to a caller if they differ only in claims and passages with access keys none
of which the caller has, and in entities that nothing else mentions. The queries for claims and
passages filter by the keys, so they answer alike in both (`queryClaims_eq`, `searchPassages_eq`).
Entities are found by name without a filter, and the overview shows every community. So the tools
answer alike where the best match for every name looks the same and the same communities are the
largest (`execTool_eq_of_discreet`).
-/

namespace RedArchKM.Facts

open FactStore List

/-! ## Alike tenants -/

def openTo (keys : List Nat) (chunk : Search.Chunk) : Bool :=
  chunk.accessKeys.isEmpty || chunk.accessKeys.any fun key => key ∈ keys

def concealed (keys : List Nat) (claims : List StoredClaim) (entityId : String) : Bool :=
  claims.any (fun stored => entityId ∈ stored.entityIds) &&
    claims.all fun stored => !(entityId ∈ stored.entityIds && readable (some keys) stored)

/-- The tenants differ only in what the keys do not open. Documents are as they may be: no tool
reads their nodes. So are communities, which are derived from all claims. -/
structure Alike (keys : List Nat) (tenant other : Tenant) : Prop where
  claims : tenant.facts.claims.filter (readable (some keys)) =
    other.facts.claims.filter (readable (some keys))
  entities : tenant.facts.entities.filter (fun entity => !concealed keys
        (tenant.facts.claims ++ other.facts.claims) entity.entityId) =
    other.facts.entities.filter fun entity => !concealed keys
      (tenant.facts.claims ++ other.facts.claims) entity.entityId
  chunks : tenant.chunks.filter (openTo keys) = other.chunks.filter (openTo keys)

section Boundary

variable {engine : Engine} {ctx : AgentContext} {keys : List Nat} {tenant other : Tenant}

variable {stored : StoredClaim}

theorem Alike.mem_iff (alike : Alike keys tenant other)
    (isOpen : readable (some keys) stored = true) :
    stored ∈ tenant.facts.claims ↔ stored ∈ other.facts.claims := by
  have same : stored ∈ tenant.facts.claims.filter (readable (some keys)) ↔
      stored ∈ other.facts.claims.filter (readable (some keys)) := by rw [alike.claims]
  simpa [isOpen] using same

variable {entityId : String}

/-- An entity that a claim mentions which the keys open is the same in both tenants. -/
theorem entityName_eq (alike : Alike keys tenant other) (member : stored ∈ tenant.facts.claims)
    (isOpen : readable (some keys) stored = true) (mentioned : entityId ∈ stored.entityIds) :
    tenant.facts.entityName entityId = other.facts.entityName entityId := by
  have shown : concealed keys (tenant.facts.claims ++ other.facts.claims) entityId = false := by
    rw [concealed, Bool.and_eq_false_iff]
    right
    rw [all_eq_false]
    exact ⟨stored, mem_append_left _ member, by simp [mentioned, isOpen]⟩
  have found (entities : List EntityNode) :
      (entities.filter fun entity => !concealed keys (tenant.facts.claims ++ other.facts.claims)
          entity.entityId).find? (fun entity => entity.entityId = entityId) =
        entities.find? fun entity => entity.entityId = entityId := by
    rw [find?_filter]
    congr 1
    funext entity
    by_cases same : entity.entityId = entityId
    · simp [same, shown]
    · simp [same]
  rw [entityName, entityName, ← found, alike.entities, found]

/-! ## Claims -/

section

variable (alike : Alike keys tenant other) (member : stored ∈ tenant.facts.claims)
    (isOpen : readable (some keys) stored = true)

include alike member isOpen

theorem neighborRow_eq : tenant.facts.neighborRow stored = other.facts.neighborRow stored := by
  have subject : tenant.facts.entityName stored.subjectId =
      other.facts.entityName stored.subjectId := by
    refine entityName_eq alike member isOpen ?_
    unfold StoredClaim.entityIds
    split <;> exact mem_cons_self
  have object : tenant.facts.objectText stored = other.facts.objectText stored := by
    unfold objectText
    cases isObject : stored.object with
    | literal _ _ => rfl
    | entity objectId =>
      refine entityName_eq alike member isOpen ?_
      rw [StoredClaim.entityIds, isObject]
      exact mem_cons_of_mem _ mem_cons_self
  rw [neighborRow, neighborRow, subject, object]

theorem claimRow_eq : tenant.facts.claimRow stored = other.facts.claimRow stored := by
  rw [claimRow, claimRow, neighborRow_eq alike member isOpen]

end

theorem readable_of_answers {query : ClaimQuery} (keyed : query.accessKeys = some keys)
    (asked : answers engine query stored = true) : readable (some keys) stored = true := by
  rw [answers, keyed, Bool.and_eq_true] at asked
  exact asked.2

section

variable (alike : Alike keys tenant other)

include alike

theorem filter_eq_of_readable {asked : StoredClaim → Bool}
    (isOpen : ∀ stored, asked stored = true → readable (some keys) stored = true) :
    tenant.facts.claims.filter asked = other.facts.claims.filter asked := by
  have once (claims : List StoredClaim) :
      (claims.filter (readable (some keys))).filter asked = claims.filter asked := by
    rw [filter_filter]
    apply filter_congr
    intro stored _
    cases isAsked : asked stored with
    | false => rfl
    | true => rw [isOpen stored isAsked]; rfl
  rw [← once, alike.claims, once]

/-- **A query with keys finds the same claims in both tenants.** -/
theorem queryClaims_eq (query : ClaimQuery) (keyed : query.accessKeys = some keys) :
    tenant.facts.queryClaims engine query = other.facts.queryClaims engine query := by
  unfold queryClaims
  rw [← filter_eq_of_readable alike fun stored => readable_of_answers keyed]
  apply map_congr_left
  intro stored member
  have isAsked := (mem_insertionSort _).mp (mem_of_mem_take member)
  obtain ⟨isStored, asked⟩ := mem_filter.mp isAsked
  exact claimRow_eq alike isStored (readable_of_answers keyed asked)

/-- **So does a neighbourhood.** -/
theorem neighborhood_eq (entityId : String) (limit : Nat) :
    tenant.facts.neighborhood entityId (some keys) limit =
      other.facts.neighborhood entityId (some keys) limit := by
  have touching (claims : List StoredClaim) : (claims.flatMap fun stored =>
        if stored.status = .active ∧ readable (some keys) stored then
          List.replicate (stored.entityIds.count entityId) stored
        else []) =
      (claims.filter (readable (some keys))).flatMap fun stored =>
        if stored.status = .active ∧ readable (some keys) stored then
          List.replicate (stored.entityIds.count entityId) stored
        else [] := by
    induction claims with
    | nil => rfl
    | cons stored rest ih =>
      rw [flatMap_cons, filter_cons]
      by_cases isOpen : readable (some keys) stored = true
      · rw [if_pos isOpen, flatMap_cons, ih]
      · rw [if_neg isOpen, if_neg fun both => isOpen both.2, nil_append, ih]
  unfold neighborhood
  rw [touching tenant.facts.claims, touching other.facts.claims, ← alike.claims]
  apply map_congr_left
  intro stored member
  have isTouching := (mem_insertionSort _).mp (mem_of_mem_take member)
  obtain ⟨source, isSource, isIn⟩ := mem_flatMap.mp isTouching
  obtain ⟨isStored, isOpen⟩ := mem_filter.mp isSource
  split at isIn
  · obtain rfl := eq_of_mem_replicate isIn
    exact neighborRow_eq alike isStored isOpen
  · cases isIn

end

def Unmentioned (keys : List Nat) (store : FactStore) (entityId : String) : Prop :=
  ∀ stored ∈ store.claims, readable (some keys) stored = true → stored.status = .active →
    entityId ∉ stored.entityIds

theorem Alike.unmentioned_iff (alike : Alike keys tenant other) (entityId : String) :
    Unmentioned keys tenant.facts entityId ↔ Unmentioned keys other.facts entityId := by
  constructor
  · intro unmentioned stored member isOpen
    exact unmentioned stored ((alike.mem_iff isOpen).mpr member) isOpen
  · intro unmentioned stored member isOpen
    exact unmentioned stored ((alike.mem_iff isOpen).mp member) isOpen

theorem queryClaims_of_unmentioned {query : ClaimQuery}
    (unmentioned : Unmentioned keys tenant.facts entityId) (keyed : query.accessKeys = some keys)
    (isActive : query.statuses = []) (notEmpty : entityId ≠ "") :
    tenant.facts.queryClaims engine { query with subjectId := some entityId } = [] := by
  have none : tenant.facts.claims.filter
      (answers engine { query with subjectId := some entityId }) = [] := by
    rw [filter_eq_nil_iff]
    intro stored member asked
    refine unmentioned stored member (readable_of_answers ?_ asked) ?_ ?_
    · exact keyed
    · simp only [answers, isActive, if_true, Bool.and_eq_true, decide_eq_true_iff] at asked
      exact asked.1.1.1.1.1.1
    · simp only [answers, Bool.and_eq_true] at asked
      have same : stored.subjectId = entityId := by
        simpa [nonempty, notEmpty] using asked.1.1.1.1.1.2
      unfold StoredClaim.entityIds
      split <;> rw [same] <;> exact mem_cons_self
  rw [queryClaims, none, insertionSort_nil, take_nil, map_nil]

theorem neighborhood_of_unmentioned (unmentioned : Unmentioned keys tenant.facts entityId)
    (limit : Nat) : tenant.facts.neighborhood entityId (some keys) limit = [] := by
  have none : (tenant.facts.claims.flatMap fun stored =>
      if stored.status = .active ∧ readable (some keys) stored then
        List.replicate (stored.entityIds.count entityId) stored
      else []) = [] := by
    rw [flatMap_eq_nil_iff]
    intro stored member
    split
    · rename_i both
      rw [count_eq_zero.mpr (unmentioned stored member both.2 both.1)]
      rfl
    · rfl
  unfold neighborhood
  dsimp only
  rw [none, insertionSort_nil, take_nil, map_nil]

/-! ## Passages -/

theorem filter_chunkConditions_eq (alike : Alike keys tenant other) (keyed : keys ≠ [])
    (scope : Search.ReadScope) (isScope : scope.accessKeys = some keys) :
    tenant.chunks.filter (Search.chunkConditions scope) =
      other.chunks.filter (Search.chunkConditions scope) := by
  have isOpen (chunk : Search.Chunk) (passes : Search.chunkConditions scope chunk = true) :
      openTo keys chunk = true := by
    rw [Search.chunkConditions, isScope, Bool.and_eq_true] at passes
    have meets : (keys.any fun key => key ∈ chunk.accessKeys) = true := by
      simpa [keyed] using passes.2
    obtain ⟨key, isKey, inChunk⟩ := any_eq_true.mp meets
    rw [openTo, Bool.or_eq_true]
    exact .inr (any_eq_true.mpr ⟨key, by simpa using inChunk, by simpa using isKey⟩)
  have once (chunks : List Search.Chunk) :
      (chunks.filter (openTo keys)).filter (Search.chunkConditions scope) =
        chunks.filter (Search.chunkConditions scope) := by
    rw [filter_filter]
    apply filter_congr
    intro chunk _
    cases passes : Search.chunkConditions scope chunk with
    | false => rfl
    | true => rw [isOpen chunk passes]; rfl
  rw [← once, alike.chunks, once]

theorem keys_of_ne_nil (keyed : ctx.accessKeys ≠ []) : ctx.keys = some ctx.accessKeys :=
  if_neg keyed

theorem length_texts (hits : List Search.Hit) :
    (hits.map fun hit => hit.payload.text).length = hits.length := length_map _

def rescored (reranker : Search.Reranker) (query : String) (limit : Nat)
    (hits : List Search.Hit) : List Search.Hit :=
  if hits.isEmpty then []
  else
    match reranker query (hits.map fun hit => hit.payload.text) limit with
    | none => hits.take limit
    | some ranked =>
      (ranked.map fun result =>
        let hit := hits.get (result.1.cast (length_texts hits))
        { hit with score := result.2, denseScore := some hit.score }).take limit

section

variable (keyed : ctx.accessKeys ≠ []) (alike : Alike ctx.accessKeys tenant other)

include keyed alike

/-- **The passages that a caller with keys finds are the same in both tenants.** -/
theorem searchPassages_eq (query : String) (limit : Nat) :
    searchPassages engine ctx tenant query limit = searchPassages engine ctx other query limit := by
  have same (limit : Nat) : Search.search engine.backends tenant.chunks query limit
        { accessKeys := ctx.keys } =
      Search.search engine.backends other.chunks query limit { accessKeys := ctx.keys } := by
    rw [Search.search, Search.search, filter_chunkConditions_eq alike keyed _ (keys_of_ne_nil keyed)]
  unfold searchPassages
  cases engine.backends.reranker with
  | none => exact congrArg (List.take limit) (same limit)
  | some reranker =>
    exact congrArg (rescored reranker query limit)
      (same (max limit engine.backends.rerankCandidates))

theorem visibleChunks_eq : visibleChunks ctx tenant = visibleChunks ctx other :=
  filter_chunkConditions_eq alike keyed _ (keys_of_ne_nil keyed)

end

/-! ## Names -/

section

variable (keys : List Nat) (store : FactStore) (entity found : EntityNode)

/-- One entity, or two that no active claim mentions which the keys open. -/
def SamePlace : Prop :=
  entity.entityId = found.entityId ∨
    (entity.entityId ≠ "" ∧ Unmentioned keys store entity.entityId ∧
      found.entityId ≠ "" ∧ Unmentioned keys store found.entityId)

/-- Entities that are shown alike. -/
def SameFace : Prop :=
  SamePlace keys store entity found ∧
    entity.canonicalName = found.canonicalName ∧ entity.type = found.type

end

def bestMatch (engine : Engine) (tenant : Tenant) (name : String) (limit : Nat) :
    Option EntityNode :=
  (tenant.facts.findEntities engine name limit).head?

/-- The best match for every name looks the same in both tenants, and so do the largest
communities. -/
structure Discreet (engine : Engine) (keys : List Nat) (tenant other : Tenant) : Prop where
  resolved : ∀ name, name ≠ "" → Option.Rel (SamePlace keys tenant.facts)
    (bestMatch engine tenant name 1) (bestMatch engine other name 1)
  found : ∀ name, name ≠ "" → Option.Rel (SameFace keys tenant.facts)
    (bestMatch engine tenant name 3) (bestMatch engine other name 3)
  overview : getCommunities tenant 10 = getCommunities other 10

theorem resolveName_eq_bestMatch (name : String) :
    resolveName engine tenant name = (bestMatch engine tenant name 1).map EntityNode.entityId := rfl

variable (engine) in
theorem queryClaims_eq_of_samePlace (alike : Alike keys tenant other) {entity found : EntityNode}
    (samePlace : SamePlace keys tenant.facts entity found) (query : ClaimQuery)
    (keyed : query.accessKeys = some keys) (isActive : query.statuses = []) :
    tenant.facts.queryClaims engine { query with subjectId := some entity.entityId } =
      other.facts.queryClaims engine { query with subjectId := some found.entityId } := by
  rcases samePlace with same | ⟨entityNamed, noEntity, foundNamed, noFound⟩
  · rw [same]
    exact queryClaims_eq alike _ keyed
  · have noFoundThere := (alike.unmentioned_iff _).mp noFound
    exact (queryClaims_of_unmentioned noEntity keyed isActive entityNamed).trans
      (queryClaims_of_unmentioned noFoundThere keyed isActive foundNamed).symm

theorem neighborhood_eq_of_samePlace (alike : Alike keys tenant other) {entity found : EntityNode}
    (samePlace : SamePlace keys tenant.facts entity found) (limit : Nat) :
    tenant.facts.neighborhood entity.entityId (some keys) limit =
      other.facts.neighborhood found.entityId (some keys) limit := by
  rcases samePlace with same | ⟨_, noEntity, _, noFound⟩
  · rw [same]
    exact neighborhood_eq alike _ _
  · rw [neighborhood_of_unmentioned noEntity,
      neighborhood_of_unmentioned ((alike.unmentioned_iff _).mp noFound)]

/-! ## The tools -/

section Tools

variable (keyed : ctx.accessKeys ≠ []) (alike : Alike ctx.accessKeys tenant other)
include keyed alike

section

variable (discreet : Discreet engine ctx.accessKeys tenant other) (args : ToolArgs)

include discreet args

theorem toolClaimQuery_eq :
    toolClaimQuery engine ctx tenant args = toolClaimQuery engine ctx other args := by
  unfold toolClaimQuery
  cases subject : args.subject.bind nonempty with
  | none =>
    dsimp only
    congr 1
    funext limit
    rw [queryClaims_eq alike _ (keys_of_ne_nil keyed)]
  | some name =>
    have named : name ≠ "" := by
      rintro rfl
      obtain ⟨text, _, isText⟩ := Option.bind_eq_some_iff.mp subject
      unfold nonempty at isText
      split at isText
      · cases isText
      · rename_i notEmpty
        exact notEmpty (Option.some.inj isText)
    have same := discreet.resolved name named
    dsimp only
    rw [resolveName_eq_bestMatch, resolveName_eq_bestMatch]
    generalize bestMatch engine tenant name 1 = entity, bestMatch engine other name 1 = found
      at same ⊢
    cases same with
    | none => rfl
    | some samePlace =>
      dsimp only [Option.map_some]
      congr 1
      funext limit
      exact congrArg claimsObservation (queryClaims_eq_of_samePlace engine alike
        samePlace (claimQueryOf ctx args none limit) (keys_of_ne_nil keyed) rfl)

theorem toolEntityLookup_eq :
    toolEntityLookup engine ctx tenant args = toolEntityLookup engine ctx other args := by
  unfold toolEntityLookup
  by_cases named : args.name = ""
  · rw [if_pos named, if_pos named]
  · rw [if_neg named, if_neg named]
    have same := discreet.found args.name named
    unfold bestMatch at same
    generalize (tenant.facts.findEntities engine args.name 3).head? = entity,
      (other.facts.findEntities engine args.name 3).head? = found at same ⊢
    cases same with
    | none => rfl
    | some sameFace =>
      obtain ⟨samePlace, sameName, sameType⟩ := sameFace
      have rows := queryClaims_eq_of_samePlace engine alike samePlace
        { accessKeys := ctx.keys, limit := 50 } (keys_of_ne_nil keyed) rfl
      dsimp only at rows ⊢
      rw [rows, sameName, sameType]

theorem toolNeighborhood_eq :
    toolNeighborhood engine ctx tenant args = toolNeighborhood engine ctx other args := by
  unfold toolNeighborhood
  by_cases named : args.name = ""
  · rw [if_pos named, if_pos named]
  · rw [if_neg named, if_neg named, resolveName_eq_bestMatch, resolveName_eq_bestMatch]
    have same := discreet.resolved args.name named
    generalize bestMatch engine tenant args.name 1 = entity,
      bestMatch engine other args.name 1 = found at same ⊢
    cases same with
    | none => rfl
    | some samePlace =>
      dsimp only [Option.map_some]
      congr 1
      funext limit
      rw [keys_of_ne_nil keyed, neighborhood_eq_of_samePlace alike samePlace]

end

omit keyed alike in
theorem toolCorpusOverview_eq (discreet : Discreet engine keys tenant other) :
    toolCorpusOverview tenant = toolCorpusOverview other := by
  unfold toolCorpusOverview
  rw [discreet.overview]

/-- **Where names and the overview give nothing away, every tool answers alike.** -/
theorem execTool_eq_of_discreet (discreet : Discreet engine ctx.accessKeys tenant other)
    (tool : Tool) (args : ToolArgs) :
    execTool engine ctx tenant tool args = execTool engine ctx other tool args := by
  cases tool with
  | claimQuery => exact toolClaimQuery_eq keyed alike discreet args
  | entityLookup => exact toolEntityLookup_eq keyed alike discreet args
  | neighborhood => exact toolNeighborhood_eq keyed alike discreet args
  | searchPassages =>
    simp only [execTool, toolSearchPassages, searchPassages_eq keyed alike]
  | grepDocuments => simp only [execTool, toolGrepDocuments, visibleChunks_eq keyed alike]
  | readDocument => simp only [execTool, toolReadDocument, visibleChunks_eq keyed alike]
  | corpusOverview => exact toolCorpusOverview_eq discreet

end Tools

end Boundary

/-! ## A company with a plan -/

theorem Discreet.of_same {engine : Engine} {tenant other : Tenant} (keys : List Nat)
    (entities : tenant.facts.entities = other.facts.entities)
    (communities : tenant.communities = other.communities) :
    Discreet engine keys tenant other := by
  have sameBest (name : String) (limit : Nat) :
      bestMatch engine tenant name limit = bestMatch engine other name limit := by
    rw [bestMatch, bestMatch, findEntities, findEntities, entities]
  refine ⟨fun name _ => ?_, fun name _ => ?_, by rw [getCommunities, getCommunities, communities]⟩
  · rw [sameBest]
    cases bestMatch engine other name 1 with
    | none => exact .none
    | some entity => exact .some (.inl rfl)
  · rw [sameBest]
    cases bestMatch engine other name 3 with
    | none => exact .none
    | some entity => exact .some ⟨.inl rfl, rfl, rfl⟩

/-- What the minutes of the board state, for those with key 9. -/
def plan (object : ClaimObject) : Claim where
  subjectId := "acme"
  predicate := "acquired"
  object := object
  recordedAt := "2024-06-01T00:00:00+00:00"
  accessKeys := [9]
  provenance := [⟨"minutes", 0⟩]

/-- The tenant with the plan, whose object is an entity that nothing else mentions. -/
def planningTenant : Tenant where
  facts := insertClaims asciiCasefold defaultPredicates
    { entities := [{ entityId := "acme", canonicalName := some "Acme", type := some "ORG" },
      { entityId := "target", canonicalName := some "Globex", type := some "ORG" }] }
    [plan (.entity "target")]

/-- A caller with key 1 learns from a lookup that there is a Globex. -/
theorem not_execTool_eq_globex :
    Alike [1] planningTenant { facts := acmeStore } ∧
      ¬∀ tool args, execTool plainEngine { accessKeys := [1] } planningTenant tool args =
        execTool plainEngine { accessKeys := [1] } { facts := acmeStore } tool args := by
  refine ⟨⟨by decide +kernel, by decide +kernel, rfl⟩, fun same => ?_⟩
  have lookup := congrArg Observation.text (same .entityLookup { name := "Globex" })
  revert lookup
  decide +kernel

def discreetTenant : Tenant where
  facts := insertClaims asciiCasefold defaultPredicates acmeStore [plan (.literal .text "Globex")]

/-- This plan shows nowhere. -/
theorem execTool_eq_of_discreet_plan :
    execTool plainEngine { accessKeys := [1] } discreetTenant =
      execTool plainEngine { accessKeys := [1] } { facts := acmeStore } := by
  funext tool args
  have alike : Alike [1] discreetTenant { facts := acmeStore } :=
    ⟨by decide +kernel, by decide +kernel, rfl⟩
  have entities : discreetTenant.facts.entities = acmeStore.entities := by decide +kernel
  have discreet : Discreet plainEngine [1] discreetTenant { facts := acmeStore } :=
    Discreet.of_same [1] entities rfl
  exact execTool_eq_of_discreet (cons_ne_nil _ _) alike discreet tool args

end RedArchKM.Facts
