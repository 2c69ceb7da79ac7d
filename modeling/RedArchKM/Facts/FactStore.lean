import RedArchKM.Facts.Claims

/-!
# The fact store

A tenant's claims, the documents that state them and the entities they are about. A claim is stored
once, with a source for each chunk that states it. Its access keys are the union of the keys of its
documents, or none if one of them is public.

The list of claims is in the order in which they were created. A chunk belongs to one document, so
the sources of a claim name its documents.
-/

namespace RedArchKM.Facts

/-! ## The store -/

/-- A claim node. Its provenance are the chunks it is sourced from. -/
structure StoredClaim extends Claim where
  claimId : ClaimId
  status : ClaimStatus
  corroborations : Nat := 1
deriving DecidableEq

structure DocumentNode where
  accessKeys : Option (List Nat) := none
  tags : Option (List String) := none

structure EntityNode where
  entityId : String
  canonicalName : Option String := none
  type : Option String := none
  aliases : List String := []
deriving DecidableEq

structure FactStore where
  claims : List StoredClaim := []
  documents : String → Option DocumentNode := fun _ => none
  entities : List EntityNode := []

namespace StoredClaim

section

variable (stored : StoredClaim)

/-- Whether a chunk of the document states the claim. -/
def sourcedFrom (documentKey : String) : Bool :=
  stored.provenance.any fun source => source.documentKey = documentKey

/-- `_row_claim`: what reconciliation looks at. -/
def rowClaim : Claim where
  subjectId := stored.subjectId
  predicate := stored.predicate
  object := stored.object
  validFrom := stored.validFrom
  recordedAt := stored.recordedAt

/-- The entities that the claim is about. -/
def entityIds : List String :=
  match stored.object with
  | .entity objectId => [stored.subjectId, objectId]
  | .literal _ _ => [stored.subjectId]

end

end StoredClaim

namespace FactStore

def setDocument (store : FactStore) (key : String) (node : Option DocumentNode) : FactStore :=
  { store with documents := fun other => if other = key then node else store.documents other }

def mapClaims (store : FactStore) (change : StoredClaim → StoredClaim) : FactStore :=
  { store with claims := store.claims.map change }

/-! ## Masks -/

def joinKeys (lists : List (List Nat)) : List Nat :=
  lists.foldl (fun keys list => keys ++ list.filter (· ∉ keys)) []

def sourceKeys (store : FactStore) (stored : StoredClaim) : List (List Nat) :=
  let nodes := stored.provenance.filterMap fun source => store.documents source.documentKey
  if nodes = [] then [stored.accessKeys]
  else nodes.map fun node => node.accessKeys.getD stored.accessKeys

def recomputed (store : FactStore) (stored : StoredClaim) : List Nat :=
  let lists := (store.sourceKeys stored).dedup
  if lists.any List.isEmpty then [] else joinKeys lists

/-- `_RECOMPUTE_CLAIM_MASKS` -/
def recomputeMasks (store : FactStore) (claimIds : List ClaimId) : FactStore :=
  store.mapClaims fun stored =>
    if stored.claimId ∈ claimIds then { stored with accessKeys := store.recomputed stored }
    else stored

/-! ## Insertion -/

/-- `MERGE (e:Entity {entity_id: id})` -/
def mergeEntity (store : FactStore) (entityId : String) : FactStore :=
  if store.entities.any (·.entityId = entityId) then store
  else { store with entities := store.entities ++ [{ entityId := entityId }] }

/-- Sources of a claim with those of another statement of it. -/
def mergeSources (sources new : List Provenance) : List Provenance :=
  new.foldl (fun sources source => if source ∈ sources then sources else sources ++ [source])
    sources

/-- `_attach_provenance`: the documents of a claim get its access keys and tags. -/
def attachProvenance (store : FactStore) (claimId : ClaimId) (claim : Claim) : FactStore :=
  if claim.provenance = [] then store
  else
    let store := store.mapClaims fun stored =>
      if stored.claimId = claimId then
        { stored with provenance := mergeSources stored.provenance claim.provenance }
      else stored
    let store := claim.provenance.foldl (fun store source =>
      store.setDocument source.documentKey
        (some { accessKeys := some claim.accessKeys, tags := some claim.tags })) store
    store.recomputeMasks [claimId]

section Insert

variable (casefold : String → String) (registry : PredicateRegistry)

def corroborate (store : FactStore) (claim : Claim) : FactStore :=
  let claimId := claim.claimId casefold
  let store := store.mapClaims fun stored =>
    if stored.claimId = claimId then
      { stored with
        corroborations := stored.corroborations + 1
        confidence := if stored.confidence < claim.confidence then claim.confidence
          else stored.confidence }
    else stored
  store.attachProvenance claimId claim

def createClaim (store : FactStore) (claim : Claim) (status : ClaimStatus) : FactStore :=
  let stored : StoredClaim :=
    { claim with provenance := [], claimId := claim.claimId casefold, status := status }
  let store := { store with claims := store.claims ++ [stored] }
  let store := stored.entityIds.foldl mergeEntity store
  store.attachProvenance stored.claimId claim

def conflictsWith (claim : Claim) (stored : StoredClaim) : Bool :=
  stored.subjectId = claim.subjectId && stored.predicate = claim.predicate &&
    stored.status = .active && stored.object.key ≠ claim.object.key

def decisionOn (store : FactStore) (claim : Claim) : ReconcileResult :=
  let cardinality := registry.cardinality claim.predicate
  let existingSame := store.claims.any (·.claimId = claim.claimId casefold)
  let conflicts :=
    if existingSame = false ∧ cardinality = .functional then
      (store.claims.filter (conflictsWith claim)).map StoredClaim.rowClaim
    else []
  reconcile casefold claim cardinality existingSame conflicts

/-- A claim that is superseded, unless it has ended already, ends with the new one. -/
def retire (affected : List ClaimId) (validTo : String) (stored : StoredClaim) : StoredClaim :=
  if stored.claimId ∈ affected then
    { stored with status := .superseded, validTo := stored.validTo.or (some validTo) }
  else stored

def flag (affected : List ClaimId) (stored : StoredClaim) : StoredClaim :=
  if stored.claimId ∈ affected then { stored with status := .contradicted } else stored

def applyClaim (store : FactStore) (claim : Claim) : FactStore :=
  let result := decisionOn casefold registry store claim
  match result.action with
  | .corroborate => corroborate casefold store claim
  | .create => createClaim casefold store claim result.newStatus
  | .supersede =>
    (createClaim casefold store claim result.newStatus).mapClaims
      (retire result.affectedKeys ((claim.validFrom.bind nonempty).getD claim.recordedAt))
  | .contradict =>
    (createClaim casefold store claim result.newStatus).mapClaims (flag result.affectedKeys)

def insertClaims (store : FactStore) (claims : List Claim) : FactStore :=
  claims.foldl (applyClaim casefold registry) store

end Insert

/-! ## The lifecycle of a document -/

def updateDocumentMetadata (store : FactStore) (documentKey : String)
    (tags : Option (List String)) (accessKeys : Option (List Nat)) : FactStore :=
  match store.documents documentKey with
  | none => store
  | some node =>
    let store := store.setDocument documentKey
      (some { accessKeys := accessKeys.or node.accessKeys, tags := tags.or node.tags })
    if accessKeys = none then store
    else
      store.recomputeMasks
        ((store.claims.filter (·.sourcedFrom documentKey)).map StoredClaim.claimId)

/-- `delete_by_document_key`: claims that only the document stated go, the others lose a source,
and entities that no claim is about any more go too. -/
def deleteByDocumentKey (store : FactStore) (documentKey : String) : FactStore :=
  let affected := store.claims.filter (·.sourcedFrom documentKey)
  let claimIds := affected.map StoredClaim.claimId
  let entityIds := affected.flatMap StoredClaim.entityIds
  let store := store.mapClaims fun stored =>
    { stored with
      provenance := stored.provenance.filter fun source => source.documentKey ≠ documentKey }
  let store := store.setDocument documentKey none
  let store :=
    { store with
      claims := store.claims.filter fun stored =>
        !(stored.claimId ∈ claimIds && stored.provenance.isEmpty) }
  let store := store.recomputeMasks claimIds
  { store with
    entities := store.entities.filter fun entity =>
      !(entity.entityId ∈ entityIds &&
        store.claims.all fun stored => entity.entityId ∉ stored.entityIds) }

end FactStore

end RedArchKM.Facts
