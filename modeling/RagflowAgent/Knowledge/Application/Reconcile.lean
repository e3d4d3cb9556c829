import RagflowAgent.Knowledge.Application.Publish

/-!
# Reconciliation

`LifecycleReconciler.run` compares the database with the object store and the index.  It
lists versions and documents up to a limit, reports operations and events that are stuck,
and treats every object and every projection that none of the *listed* versions accounts
for as an orphan; unless it is a dry run, orphans are deleted.
-/

namespace RagflowAgent
namespace Knowledge

open Interleaving

namespace LifecycleReconciler

structure ReconciliationFinding where
  tenantId : String
  kind : String
  resourceId : String
  repaired : Bool := false
  detail : Option String := none
  deriving DecidableEq, Repr

structure ReconciliationReport where
  tenantId : String
  dryRun : Bool
  scanned : ℕ
  findings : List ReconciliationFinding
  deriving DecidableEq, Repr

/-- The statuses of an operation that is still under way. -/
def openStatuses : List LifecycleOperationStatus :=
  [.pending, .running, .waitingRetry, .cancelRequested]

/-- `p` for every element, collecting the findings. -/
def collect {α : Type} (p : α → Service (List ReconciliationFinding)) :
    List α → Service (List ReconciliationFinding)
  | [] => pure []
  | a :: l => do
    let found ← p a
    let rest ← collect p l
    pure (found ++ rest)

/-- A stale operation whose authoritative rows or whose copies are missing. -/
def checkOperation (context : AuthorizationContext) (operation : LifecycleOperation) :
    Service (List ReconciliationFinding) := do
  let document ← ask .reconciling [] (.query
    (.get .documents context.tenantId operation.documentId))
  let version ← ask .reconciling [] (.query
    (.get .documentVersions context.tenantId operation.versionId))
  match document, version with
  | some _, some version =>
    let projectionCount ← ask .reconciling [] (.query (.validateDocumentVersion
      ⟨context.tenantId, operation.knowledgeBaseId, operation.documentId,
        operation.versionId⟩))
    let sourceExists ← ask .reconciling [] (.query (.objectExists version.objectKey))
    if projectionCount = 0 ∨ ¬ sourceExists then
      pure [{
        tenantId := context.tenantId
        kind := "cross_store_drift"
        resourceId := operation.id
        detail := some ("projection=" ++ toString projectionCount ++ ", object=" ++
          if sourceExists then "True" else "False") }]
    else pure []
  | _, _ => pure [{
      tenantId := context.tenantId
      kind := "missing_authoritative_state"
      resourceId := operation.id
      detail := some "document or version is missing" }]

/-- `event.status.value`. -/
def outboxStatusValue : OutboxStatus → String
  | .pending => "pending"
  | .published => "published"
  | .cancelled => "cancelled"
  | .deadLetter => "dead_letter"

def dueFinding (context : AuthorizationContext) (event : LifecycleOutboxEvent) :
    ReconciliationFinding where
  tenantId := context.tenantId
  kind := "outbox_due"
  resourceId := event.id
  detail := some (outboxStatusValue event.status)

/-- An object of the tenant that no listed version refers to. -/
def checkObject (context : AuthorizationContext) (known : List Fact) (dryRun : Bool)
    (versions : List DocumentVersion) (objectKey : String) :
    Service (List ReconciliationFinding) := do
  if objectKey ∈ versions.map DocumentVersion.objectKey then pure []
  else
    let finding : ReconciliationFinding := {
      tenantId := context.tenantId
      kind := "orphan_object"
      resourceId := objectKey }
    if dryRun then pure [finding]
    else
      ask .reconciling known (.changeObjects (.delete objectKey))
      pure [{ finding with repaired := true }]

/-- A projection whose version is not listed. -/
def checkProjection (context : AuthorizationContext) (known : List Fact) (dryRun : Bool)
    (versions : List DocumentVersion) (projection : String × String × String) :
    Service (List ReconciliationFinding) := do
  let (knowledgeBaseId, documentId, versionId) := projection
  if versionId ∈ versions.map DocumentVersion.id then pure []
  else
    let finding : ReconciliationFinding := {
      tenantId := context.tenantId
      kind := "orphan_projection"
      resourceId := versionId }
    if dryRun then pure [finding]
    else
      ask .reconciling known (.changeIndex (.deleteDocumentVersion
        ⟨context.tenantId, knowledgeBaseId, documentId, versionId⟩))
      pure [{ finding with repaired := true }]

def expiredFinding (context : AuthorizationContext) (document : Document) :
    ReconciliationFinding where
  tenantId := context.tenantId
  kind := "expired_physical_cleanup"
  resourceId := document.id

/-- A tombstone whose deadline has passed. -/
def Expired (document : Document) (now : ℕ) : Prop :=
  document.status = .deletePending ∧ document.purgeAfter.any (· ≤ now)

instance (document : Document) (now : ℕ) : Decidable (Expired document now) :=
  inferInstanceAs (Decidable (_ ∧ _))

/-- `run`. -/
def run (context : AuthorizationContext) (limit staleBefore : ℕ) (dryRun : Bool) :
    Service ReconciliationReport := do
  let tenantId := context.tenantId
  let operations ← ask .reconciling [] (.query
    (.listOperationsByStatus tenantId openStatuses (some staleBefore) limit))
  let now ← ask .reconciling [] .now
  let outbox ← ask .reconciling [] (.query (.listDue tenantId now limit))
  let versions ← ask .reconciling [] (.query (.listVersionsForTenant tenantId (limit * 10)))
  let documents ← ask .reconciling [] (.query
    (.listDocumentsByStatus tenantId [.active, .deletePending] limit))
  let drift ← collect (checkOperation context) operations
  let due := outbox.map (dueFinding context)
  let objects ← ask .reconciling [] (.query (.listPrefix ("tenants/" ++ tenantId ++ "/")))
  let orphanObjects ← collect (checkObject context [] dryRun versions) objects
  let projections ← ask .reconciling [] (.query
    (.listProjectionVersions tenantId (limit * 10)))
  let orphanProjections ← collect (checkProjection context [] dryRun versions) projections
  let now ← ask .reconciling [] .now
  let expired := (documents.filter (Expired · now)).map (expiredFinding context)
  pure {
    tenantId := tenantId
    dryRun := dryRun
    scanned := operations.length + outbox.length + documents.length
    findings := drift ++ due ++ orphanObjects ++ orphanProjections ++ expired }

end LifecycleReconciler

end Knowledge
end RagflowAgent
