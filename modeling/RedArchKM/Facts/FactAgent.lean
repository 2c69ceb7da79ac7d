import RedArchKM.Facts.FactStore
import RedArchKM.Search.VectorSearch

/-!
# The fact agent's tools

The tools of the agent read a tenant's claims, entities, communities and chunks. The access keys
come from the trusted context; no keys are no restriction.

What the tools call is collected in `Engine`: the name index of the entities, the predicate
resolver, the models behind passage search, and the reader of whole documents, which sees the
chunks that pass its scope and no others.
-/

namespace RedArchKM.Facts

/-! ## Claim queries -/

/-- A claim as a query returns it. A neighbourhood has neither status nor times. -/
structure ClaimRow where
  subject : Option String
  predicate : String
  object : Option String
  confidence : ℚ
  status : Option ClaimStatus := none
  corroborations : Option Nat := none
  validFrom : Option String := none
  validTo : Option String := none
deriving DecidableEq

/-- What a query asks for; an empty text asks for nothing. -/
structure ClaimQuery where
  subjectId : Option String := none
  predicate : Option String := none
  objectId : Option String := none
  objectValue : Option String := none
  asOf : Option String := none
  statuses : List ClaimStatus := []
  accessKeys : Option (List Nat) := none
  limit : Nat := 100

structure Community where
  communityId : String
  summary : String
  size : Nat
deriving DecidableEq

structure Tenant where
  facts : FactStore := {}
  communities : List Community := []
  chunks : List Search.Chunk := []

/-- The records behind an observation. -/
inductive Records where
  | none
  | claims (rows : List ClaimRow)
  | communities (summaries : List Community)
  | passages (hits : List Search.Hit)
  | documents (texts : List String)
deriving DecidableEq

structure Observation where
  text : String
  records : Records := .none

structure Engine where
  predicateKey : String → String := id
  toLower : String → String := id
  /-- Python's `repr` of a text. -/
  repr : String → String := id
  /-- The best entities of the name index, with their scores. -/
  nameIndex : List EntityNode → String → Nat → List (EntityNode × ℚ)
  backends : Search.Backends
  /-- What the reader finds in the chunks that it may see. -/
  grep : List Search.Chunk → (query mode : String) → Observation
  /-- What the reader reads of a document in the chunks that it may see. -/
  read : List Search.Chunk → (documentKey : String) → (startChunk : Nat) → Observation

namespace FactStore

section Reads

variable (engine : Engine) (store : FactStore)

/-- `e.canonical_name` -/
def entityName (entityId : String) : Option String :=
  (store.entities.find? fun entity => entity.entityId = entityId).bind EntityNode.canonicalName

section

variable (stored : StoredClaim)

/-- `coalesce(o.canonical_name, c.object_value)` -/
def objectText : Option String :=
  match stored.object with
  | .entity objectId => store.entityName objectId
  | .literal _ objectValue => some objectValue

/-- Who says what of whom, and how surely. -/
def neighborRow : ClaimRow where
  subject := store.entityName stored.subjectId
  predicate := stored.predicate
  object := store.objectText stored
  confidence := stored.confidence

def claimRow : ClaimRow :=
  { store.neighborRow stored with
    status := some stored.status
    corroborations := some stored.corroborations
    validFrom := stored.validFrom
    validTo := stored.validTo }

end

/-- `size(c.access_keys) = 0 OR any(k IN c.access_keys WHERE k IN $keys)`; no keys, no filter. -/
def readable (accessKeys : Option (List Nat)) (stored : StoredClaim) : Bool :=
  accessKeys.all fun keys =>
    stored.accessKeys.isEmpty || stored.accessKeys.any fun key => key ∈ keys

def validAt (time : String) (stored : StoredClaim) : Bool :=
  stored.validFrom.all (fun since => since ≤ time) && stored.validTo.all fun till => time < till

/-- `toLower(c.object_value) CONTAINS toLower($object_value)` -/
def mentionsValue (value : String) (stored : StoredClaim) : Bool :=
  match stored.object with
  | .entity _ => false
  | .literal _ objectValue =>
    (engine.toLower objectValue).toList.tails.any fun rest =>
      (engine.toLower value).toList.isPrefixOf rest

/-- Whether a claim is asked for. -/
def answers (query : ClaimQuery) (stored : StoredClaim) : Bool :=
  (if query.statuses = [] then stored.status = .active else stored.status ∈ query.statuses) &&
    ((query.subjectId.bind nonempty).all fun subjectId => stored.subjectId = subjectId) &&
    ((query.predicate.bind nonempty).all fun predicate =>
      stored.predicate = engine.predicateKey predicate) &&
    ((query.objectId.bind nonempty).all fun objectId => stored.object = .entity objectId) &&
    ((query.objectValue.bind nonempty).all fun value => mentionsValue engine value stored) &&
    ((query.asOf.bind nonempty).all fun time => validAt time stored) &&
    readable query.accessKeys stored

/-- `ORDER BY c.confidence DESC, c.corroborations DESC` -/
def ranksBefore (left right : StoredClaim) : Prop :=
  right.confidence < left.confidence ∨
    (left.confidence = right.confidence ∧ right.corroborations ≤ left.corroborations)

instance : DecidableRel ranksBefore := fun left right => by
  unfold ranksBefore
  infer_instance

def queryClaims (query : ClaimQuery) : List ClaimRow :=
  (((store.claims.filter (answers engine query)).insertionSort ranksBefore).take query.limit).map
    store.claimRow

/-- The active claims at an entity, once for each end at which it stands. -/
def neighborhood (entityId : String) (accessKeys : Option (List Nat)) (limit : Nat) :
    List ClaimRow :=
  let touching := store.claims.flatMap fun stored =>
    if stored.status = .active ∧ readable accessKeys stored then
      List.replicate (stored.entityIds.count entityId) stored
    else []
  ((touching.insertionSort fun left right => right.confidence ≤ left.confidence).take limit).map
    store.neighborRow

/-- `find_entities` by name: the best of what the index finds. -/
def findEntities (name : String) (limit : Nat) : List EntityNode :=
  let found := engine.nameIndex store.entities name limit
  ((found.insertionSort fun left right => right.2 ≤ left.2).take limit).map Prod.fst

end Reads

end FactStore

/-! ## The tools -/

/-- Trusted scoping of a query; the model never supplies it. -/
structure AgentContext where
  accessKeys : List Nat := []
  tags : List String := []

/-- `list(ctx.access_keys) or None` -/
def AgentContext.keys (ctx : AgentContext) : Option (List Nat) :=
  if ctx.accessKeys = [] then none else some ctx.accessKeys

/-- The arguments of a tool call, as texts without blanks around them. A limit that is no number is
an error. -/
structure ToolArgs where
  subject : Option String := none
  predicate : Option String := none
  object : Option String := none
  asOf : Option String := none
  name : String := ""
  query : String := ""
  mode : Option String := none
  documentKey : String := ""
  startChunk : Nat := 0
  limit : Except String (Option Nat) := .ok none

section Tools

variable (engine : Engine) (ctx : AgentContext) (tenant : Tenant)

def resolveName (name : String) : Option String :=
  ((tenant.facts.findEntities engine name 1).head?).map EntityNode.entityId

def orNone (text : Option String) : String := text.getD "None"

def formatClaims (rows : List ClaimRow) : String :=
  if rows = [] then "(no matching facts)"
  else
    String.intercalate "\n" (rows.map fun row =>
      let tag :=
        match row.status with
        | none => ""
        | some .active => ""
        | some .superseded => " [superseded]"
        | some .contradicted => " [contradicted]"
        | some .retracted => " [retracted]"
      "- " ++ orNone row.subject ++ " — " ++ row.predicate ++ " — " ++ orNone row.object ++ tag)

def claimsObservation (rows : List ClaimRow) : Observation := ⟨formatClaims rows, .claims rows⟩

def toolError (message : String) : Observation := ⟨"tool error: " ++ message, .none⟩

section

variable (args : ToolArgs)

def withLimit (default : Nat) (go : Nat → Observation) : Observation :=
  match args.limit with
  | .error message => toolError message
  | .ok limit => go (limit.getD default)

def claimQueryOf (subjectId : Option String) (limit : Nat) : ClaimQuery where
  subjectId := subjectId
  predicate := args.predicate
  objectValue := args.object
  asOf := args.asOf
  accessKeys := ctx.keys
  limit := limit

def toolClaimQuery : Observation :=
  let answer (subjectId : Option String) :=
    withLimit args 50 fun limit =>
      claimsObservation (tenant.facts.queryClaims engine (claimQueryOf ctx args subjectId limit))
  match args.subject.bind nonempty with
  | none => answer none
  | some name =>
    match resolveName engine tenant name with
    | none => ⟨"no entity found matching subject " ++ engine.repr name, .none⟩
    | some subjectId => answer (some subjectId)

def toolEntityLookup : Observation :=
  if args.name = "" then ⟨"entity_lookup requires a name", .none⟩
  else
    match (tenant.facts.findEntities engine args.name 3).head? with
    | none => ⟨"no entity found matching " ++ engine.repr args.name, .none⟩
    | some entity =>
      let rows := tenant.facts.queryClaims engine
        { subjectId := some entity.entityId, accessKeys := ctx.keys, limit := 50 }
      ⟨"Entity: " ++ orNone entity.canonicalName ++ " (" ++ orNone entity.type ++ ")\n" ++
        formatClaims rows, .claims rows⟩

def toolNeighborhood : Observation :=
  match if args.name = "" then none else resolveName engine tenant args.name with
  | none => ⟨"no entity found matching " ++ engine.repr args.name, .none⟩
  | some entityId =>
    withLimit args 50 fun limit =>
      claimsObservation (tenant.facts.neighborhood entityId ctx.keys limit)

end

/-- `_search_passages`: dense hits, re-scored if there is a reranker and it does not fail. -/
def searchPassages (query : String) (limit : Nat) : List Search.Hit :=
  let scope : Search.ReadScope := { accessKeys := ctx.keys }
  match engine.backends.reranker with
  | none => (Search.search engine.backends tenant.chunks query limit scope).take limit
  | some reranker =>
    let hits := Search.search engine.backends tenant.chunks query
      (max limit engine.backends.rerankCandidates) scope
    if hits.isEmpty then []
    else
      match reranker query (hits.map fun hit => hit.payload.text) limit with
      | none => hits.take limit
      | some ranked =>
        (ranked.map fun result =>
          let hit := hits.get (result.1.cast (List.length_map _))
          { hit with score := result.2, denseScore := some hit.score }).take limit

def passageLine (hit : Search.Hit) : String :=
  "- " ++ hit.payload.documentTitle ++ " [document_key=" ++ hit.payload.documentKey ++ ", chunk " ++
    toString hit.payload.chunkOrder ++ "]: " ++ String.ofList (hit.payload.text.toList.take 400)

def toolSearchPassages (args : ToolArgs) : Observation :=
  if args.query = "" then ⟨"search_passages requires a query", .none⟩
  else
    withLimit args 5 fun limit =>
      let hits := searchPassages engine ctx tenant
        (engine.backends.resolveRelativeDates args.query) limit
      ⟨if hits = [] then "no passages found" else String.intercalate "\n" (hits.map passageLine),
        .passages hits⟩

def readScope : Search.ReadScope := { accessKeys := ctx.keys, requiredTags := ctx.tags }

/-- The chunks that the reader may see. -/
def visibleChunks : List Search.Chunk :=
  tenant.chunks.filter (Search.chunkConditions (readScope ctx))

def toolGrepDocuments (args : ToolArgs) : Observation :=
  if args.query = "" then ⟨"grep_documents requires a query", .none⟩
  else engine.grep (visibleChunks ctx tenant) args.query (args.mode.getD "all")

def toolReadDocument (args : ToolArgs) : Observation :=
  if args.documentKey = "" then
    ⟨"read_document requires a document_key (from grep_documents or search_passages)", .none⟩
  else engine.read (visibleChunks ctx tenant) args.documentKey args.startChunk

/-- `get_communities`, the largest first. -/
def getCommunities (limit : Nat) : List Community :=
  (tenant.communities.insertionSort fun left right => right.size ≤ left.size).take limit

/-- The overview takes no account of the context. -/
def toolCorpusOverview : Observation :=
  let communities := getCommunities tenant 10
  let lines := (communities.filter fun one => one.summary ≠ "").map fun one => "- " ++ one.summary
  ⟨if lines = [] then "no corpus overview is available yet" else String.intercalate "\n" lines,
    .communities communities⟩

inductive Tool where
  | claimQuery
  | entityLookup
  | neighborhood
  | searchPassages
  | grepDocuments
  | readDocument
  | corpusOverview

def execTool (tool : Tool) (args : ToolArgs) : Observation :=
  match tool with
  | .claimQuery => toolClaimQuery engine ctx tenant args
  | .entityLookup => toolEntityLookup engine ctx tenant args
  | .neighborhood => toolNeighborhood engine ctx tenant args
  | .searchPassages => toolSearchPassages engine ctx tenant args
  | .grepDocuments => toolGrepDocuments engine ctx tenant args
  | .readDocument => toolReadDocument engine ctx tenant args
  | .corpusOverview => toolCorpusOverview tenant

end Tools

end RedArchKM.Facts
