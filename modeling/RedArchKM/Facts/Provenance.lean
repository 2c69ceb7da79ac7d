import RedArchKM.Facts.ClaimMasks

/-!
# Which document states which claim

The sources of the stored claims are a log of the documents. Whatever was ingested, inserted,
re-keyed and deleted, a claim has a document among its sources exactly if the operations on that
document, replayed, state it (`supports_run_iff`).
-/

namespace RedArchKM.Facts.FactStore

open List

variable {casefold : String → String} {registry : PredicateRegistry} {clock : Clock}
  {store : FactStore} {documentKey : String} {claimId : ClaimId}

/-- What a document states after one more operation. -/
def FactOperation.replay (documentKey : String) (stated : List ClaimId) :
    FactOperation casefold → List ClaimId
  | .ingest replace document =>
    if documentKey = document.documentKey then
      if replace then document.claimIds else stated ++ document.claimIds
    else stated
  | .insert claim =>
    if documentKey ∈ claim.provenance.map Provenance.documentKey then
      stated ++ [claim.claimId casefold]
    else stated
  | .updateMetadata .. => stated
  | .delete deleted => if documentKey = deleted then [] else stated

theorem supports_updateDocumentMetadata (updated : String) (tags : Option (List String))
    (accessKeys : Option (List Nat)) :
    (store.updateDocumentMetadata updated tags accessKeys).Supports claimId documentKey ↔
      store.Supports claimId documentKey := by
  unfold updateDocumentMetadata
  split
  · exact Iff.rfl
  · dsimp only
    split
    · exact Iff.rfl
    · simp only [Supports, recomputeMasks, mapClaims, mem_map, exists_exists_and_eq_and]
      refine exists_congr fun stored => and_congr_right fun _ => ?_
      split <;> rfl

/-- **An operation changes what a document supports as its replay says.** -/
theorem supports_apply {state : IngestState} (consistent : Consistent casefold state.store)
    (operation : FactOperation casefold) {stated : List ClaimId}
    (same : state.store.Supports claimId documentKey ↔ claimId ∈ stated) :
    (operation.apply registry clock state).store.Supports claimId documentKey ↔
      claimId ∈ operation.replay documentKey stated := by
  cases operation with
  | ingest replace document =>
    cases replace with
    | true =>
      refine (supports_ingestDocument consistent document claimId documentKey).trans ?_
      rw [FactOperation.replay]
      split
      · exact Iff.rfl
      · exact same
    | false =>
      refine (supports_toClaims consistent document _ _ claimId documentKey).trans ?_
      rw [same, FactOperation.replay]
      split
      · simp [*, Ingest.claimIds]
      · simp [*]
  | insert claim =>
    refine (supports_applyClaim consistent claimId documentKey).trans ?_
    rw [same, FactOperation.replay]
    split <;> simp [*]
  | updateMetadata updated tags accessKeys =>
    exact (supports_updateDocumentMetadata updated tags accessKeys).trans same
  | delete deleted =>
    refine (supports_deleteByDocumentKey consistent claimId documentKey).trans ?_
    rw [same, FactOperation.replay]
    split <;> simp [*]

/-- **A claim has the sources that a replay of the operations gives it.** -/
theorem supports_run_iff (registry : PredicateRegistry) (clock : Clock)
    (operations : List (FactOperation casefold)) (claimId : ClaimId) (documentKey : String) :
    (runOperations registry clock operations).store.Supports claimId documentKey ↔
      claimId ∈ operations.foldl (FactOperation.replay documentKey) [] := by
  induction operations using List.reverseRecOn with
  | nil => simp [runOperations, Supports]
  | append_singleton operations operation ih =>
    rw [runOperations_concat, foldl_append]
    exact supports_apply (consistent_runOperations operations) operation ih

end RedArchKM.Facts.FactStore
