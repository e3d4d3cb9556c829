import RagflowAgent.Knowledge.Application.Publish

/-!
# Deletion, restoration and purge

`DocumentDeletionService` makes a document invisible first, by a conditional update, and
cleans up physically later.

* `requestDelete` turns a document into a tombstone with a deadline and then switches its
  version off in the index;
* `restore` undoes that before the deadline: it promotes the version that was current and
  writes the document active again;
* `purge` removes the index projections and the source objects of an expired tombstone and
  then records that they are gone.
-/

namespace RagflowAgent
namespace Knowledge

open Interleaving

namespace DocumentDeletionService

/-- `_require_matching_duplicate`, which lets the caller return the duplicate. -/
def requireMatchingDuplicate (operation : LifecycleOperation) (kind : LifecycleOperationKind)
    (documentId fingerprint : String) : Except Error LifecycleOperation :=
  if operation.kind ≠ kind ∨ operation.documentId ≠ documentId ∨
      operation.commandFingerprint ≠ some fingerprint then
    .error idempotencyConflict
  else .ok operation

/-! ## Deletion -/

/-- The operation that `request_delete` adds. -/
def deletion (settings : Settings) (context : AuthorizationContext) (document : Document)
    (currentVersionId operationId idempotencyKey reason fingerprint : String) (now : ℕ) :
    LifecycleOperation where
  id := operationId
  tenantId := context.tenantId
  knowledgeBaseId := document.knowledgeBaseId
  documentId := document.id
  versionId := currentVersionId
  kind := .delete
  idempotencyKey := idempotencyKey
  actorId := context.actorId
  reason := reason
  requestId := context.requestId
  expectedDocumentRevision := document.revision
  fencingToken := document.revision + 1
  previousVersionId := some currentVersionId
  purgeAfter := some (now + settings.retention)
  metadata := [("command_fingerprint", fingerprint)]
  createdAt := now
  updatedAt := now

/-- The document after `request_delete`. -/
def tombstone (settings : Settings) (document : Document) (now : ℕ) : Document :=
  { document with
    status := .deletePending
    currentVersionId := none
    revision := document.revision + 1
    deletedAt := some now
    purgeAfter := some (now + settings.retention)
    updatedAt := now }

/-- The cleanup event that waits for the deadline. -/
def cleanupEvent (settings : Settings) (context : AuthorizationContext) (document : Document)
    (operationId : String) (now : ℕ) : LifecycleOutboxEvent where
  id := "outbox:" ++ operationId
  tenantId := context.tenantId
  operationId := operationId
  aggregateId := document.id
  eventType := "document.cleanup.requested"
  idempotencyKey := "outbox:" ++ operationId ++ ":cleanup"
  payload := .documentId document.id
  availableAt := now + settings.retention
  createdAt := now
  updatedAt := now

/-- `request_delete`. -/
def requestDelete (settings : Settings) (context : AuthorizationContext)
    (documentId idempotencyKey reason : String) : Service LifecycleOperation := do
  let duplicate ← ask .deleting [] (.query
    (.getByIdempotencyKey context.tenantId idempotencyKey))
  match ← ask .deleting [] (.query (.get .documents context.tenantId documentId)) with
  | none => .raise (.notFound "document" documentId)
  | some document =>
    PermissionChecker.require context document.authorization .delete
    let fingerprint := settings.fingerprint .delete [documentId, reason]
    match duplicate with
    | some duplicate => requireMatchingDuplicate duplicate .delete documentId fingerprint
    | none =>
      match document.status, document.currentVersionId with
      | .active, some currentVersionId =>
        let known : List Fact := [.stored .documents document]
        let now ← ask .deleting known .now
        let known := known ++ [.clock now]
        let operationId ← ask .deleting known .newId
        let operation := deletion settings context document currentVersionId operationId
          idempotencyKey reason fingerprint now
        let tombstone := tombstone settings document now
        ask .deleting known (.commit
          [.saveIfRevision context.tenantId tombstone document.revision,
            .add context.tenantId .lifecycleOperations operation,
            .add context.tenantId .lifecycleOutbox
              (cleanupEvent settings context document operationId now)])
        ask .retiring [.wrote tombstone] (.changeIndex
          (.retireDocumentVersion (document.scope context.tenantId operation.versionId)))
        pure operation
      | _, _ => .raise (.conflict "document is already deleted" "document_deleted")

/-! ## Restoration -/

/-- The version that a restoration makes ready again. -/
def restoredVersion (target : DocumentVersion) (now : ℕ) : Except Error DocumentVersion :=
  if target.status = .superseded then transitionDocumentVersion target .ready now
  else .ok target

/-- The document without its tombstone, before the activation. -/
def untombstoned (document : Document) (now : ℕ) : Document :=
  { document with
    status := .active
    deletedAt := none
    purgeAfter := none
    updatedAt := now }

/-- The operation that `restore` adds. -/
def restoration (context : AuthorizationContext) (document : Document)
    (versionId operationId idempotencyKey reason fingerprint : String) (now : ℕ) :
    LifecycleOperation where
  id := operationId
  tenantId := context.tenantId
  knowledgeBaseId := document.knowledgeBaseId
  documentId := document.id
  versionId := versionId
  kind := .restore
  idempotencyKey := idempotencyKey
  actorId := context.actorId
  reason := reason
  requestId := context.requestId
  status := .member .succeeded
  expectedDocumentRevision := document.revision
  fencingToken := document.revision + 1
  progress := 1
  metadata := [("command_fingerprint", fingerprint)]
  createdAt := now
  updatedAt := now

/-- The condition under which `restore` refuses. -/
def Unrecoverable (document : Document) (target : Option DocumentVersion) (now : ℕ) : Prop :=
  document.status ≠ .deletePending ∨ ¬ document.purgeAfter.any (now < ·) ∨
    ¬ target.any (·.status ≠ .deleted)

instance (document : Document) (target : Option DocumentVersion) (now : ℕ) :
    Decidable (Unrecoverable document target now) :=
  inferInstanceAs (Decidable (_ ∨ _))

/-- The second half of `restore`, once the deleted version is known. -/
def restoreTarget (context : AuthorizationContext) (document : Document)
    (deletion : Option LifecycleOperation) (target : Option DocumentVersion)
    (idempotencyKey reason fingerprint : String) : Service LifecycleOperation := do
  let known : List Fact :=
    .stored .documents document :: Fact.row .documentVersions target
  let now ← ask .restoring known .now
  let known := known ++ [.clock now]
  let unrecoverable : Error :=
    .conflict "document is not recoverable" "document_restore_expired"
  .raiseWhen (Unrecoverable document target now) unrecoverable
  match target with
  | none => .raise unrecoverable
  | some target =>
    let scope := document.scope context.tenantId target.id
    let count ← ask .restoring known (.query (.validateDocumentVersion scope))
    .raiseWhen (count < 1)
      (.conflict "document projection is not healthy" "rollback_target_invalid")
    ask .restoring known (.changeIndex
      (.promoteDocumentVersion scope (document.revision + 1)))
    let known := known ++ [.promoted scope (document.revision + 1)]
    let ready ← restoredVersion target now
    let restored ← activateDocumentVersion (untombstoned document now) ready now
      (some document.revision)
    let operationId ← ask .restoring known .newId
    let operation := restoration context document ready.id operationId idempotencyKey reason
      fingerprint now
    ask .restoring known (.commit
      ([.save context.tenantId .documentVersions ready,
        .saveIfRevision context.tenantId restored document.revision,
        .add context.tenantId .lifecycleOperations operation] ++
        deletion.toList.map fun deletion =>
          .cancelPending context.tenantId ("outbox:" ++ deletion.id) now))
    pure operation

/-- The version that the last deletion has replaced by nothing. -/
def deletedVersion (context : AuthorizationContext) (knows : List Fact)
    (deletion : Option LifecycleOperation) : Service (Option DocumentVersion) :=
  match (deletion.bind (·.previousVersionId)).filter (· ≠ "") with
  | none => pure none
  | some versionId => ask .restoring knows (.query
      (.get .documentVersions context.tenantId versionId))

/-- `restore`. -/
def restore (settings : Settings) (context : AuthorizationContext)
    (documentId idempotencyKey reason : String) : Service LifecycleOperation := do
  let duplicate ← ask .restoring [] (.query
    (.getByIdempotencyKey context.tenantId idempotencyKey))
  match ← ask .restoring [] (.query (.get .documents context.tenantId documentId)) with
  | none => .raise (.notFound "document" documentId)
  | some document =>
    PermissionChecker.require context document.authorization .write
    let fingerprint := settings.fingerprint .restore [documentId, reason]
    match duplicate with
    | some duplicate => requireMatchingDuplicate duplicate .restore documentId fingerprint
    | none =>
      let known : List Fact := [.stored .documents document]
      let operations ← ask .restoring known (.query
        (.listOperationsForDocument context.tenantId documentId))
      -- the last of the operations that is a deletion
      let deletion := operations.reverse.find? (·.kind = .delete)
      let target ← deletedVersion context known deletion
      restoreTarget context document deletion target idempotencyKey reason fingerprint

/-! ## Purge -/

/-- The document after `_purge`. -/
def purged (document : Document) (now : ℕ) : Document :=
  { document with
    status := .deleted
    revision := document.revision + 1
    updatedAt := now }

/-- The versions after `_purge`. -/
def deletedVersions (versions : List DocumentVersion) (now : ℕ) :
    Except Error (List DocumentVersion) :=
  versions.mapM fun version =>
    if version.status = .deleted then .ok version
    else transitionDocumentVersion version .deleted now

/-- The operation that `_purge` adds. -/
def purgeOperation (context : AuthorizationContext) (document : Document)
    (versions : List DocumentVersion) (operationId reason : String) (now : ℕ) :
    LifecycleOperation where
  id := operationId
  tenantId := context.tenantId
  knowledgeBaseId := document.knowledgeBaseId
  documentId := document.id
  versionId := (versions.getLast?.map DocumentVersion.id).getD "purged"
  kind := .purge
  idempotencyKey := "purge:" ++ document.id ++ ":" ++ toString document.revision
  actorId := context.actorId
  reason := reason
  requestId := context.requestId
  status := .member .succeeded
  expectedDocumentRevision := document.revision
  fencingToken := document.revision + 1
  progress := 1
  createdAt := now
  updatedAt := now

/-- The physical deletions and the transaction that records them. -/
def purgeDocument (context : AuthorizationContext) (document : Document)
    (versions : List DocumentVersion) (reason : String) (now : ℕ) :
    Service LifecycleOperation := do
  .raiseWhen (¬ document.purgeAfter.any (· ≤ now))
    (.conflict "document retention has not expired" "document_retention_active")
  let known : List Fact := [.stored .documents document, .clock now] ++
    versions.map (.stored .documentVersions)
  .forEach versions fun version =>
    ask .purging known (.changeIndex
      (.deleteDocumentVersion (document.scope context.tenantId version.id)))
  -- a set in the source: any order of the distinct keys
  .forEach (versions.map DocumentVersion.objectKey).dedup fun objectKey => do
    if ← ask .purging known (.query (.objectExists objectKey)) then
      ask .purging known (.changeObjects (.delete objectKey))
  let deletedVersions ← deletedVersions versions now
  let operationId ← ask .purging known .newId
  let operation := purgeOperation context document versions operationId reason now
  ask .purging known (.commit
    (deletedVersions.map (.save context.tenantId .documentVersions) ++
      [.saveIfRevision context.tenantId (purged document now) document.revision,
        .add context.tenantId .lifecycleOperations operation]))
  pure operation

/-- `purge` enforces the permission, `purge_due` does not. -/
def requireDelete (context : AuthorizationContext) (document : Document)
    (enforcePermission : Bool) : Except Error Unit :=
  if enforcePermission then PermissionChecker.require context document.authorization .delete
  else .ok ()

/-- `_purge`. -/
def purge (context : AuthorizationContext) (documentId reason : String)
    (enforcePermission : Bool) : Service LifecycleOperation := do
  let document ← ask .purging [] (.query (.get .documents context.tenantId documentId))
  let known := Fact.row .documents document
  let versions ← ask .purging known (.query
    (.listVersionsForDocument context.tenantId documentId))
  match document with
  | none => .raise (.notFound "document" documentId)
  | some document =>
    requireDelete context document enforcePermission
    let known : List Fact := .stored .documents document ::
      versions.map (.stored .documentVersions)
    let now ← ask .purging known .now
    if document.status = .deleted then
      let operations ← ask .purging (known ++ [.clock now]) (.query
        (.listOperationsForDocument context.tenantId documentId))
      match operations.reverse.find? (·.kind = .purge) with
      | some prior => pure prior
      | none => purgeDocument context document versions reason now
    else purgeDocument context document versions reason now

/-! ## What the deletions write -/

theorem restoredVersion_eq_ok {target ready : DocumentVersion} {now : ℕ}
    (h : restoredVersion target now = .ok ready) : ready.SameScope target := by
  unfold restoredVersion at h
  split at h
  · exact sameScope_of_transitionDocumentVersion h
  · cases h
    exact .refl _

/-- A purge deletes every version it lists, and nothing else of them changes scope. -/
theorem deletedVersions_eq_ok {versions deleted : List DocumentVersion} {now : ℕ}
    (h : deletedVersions versions now = .ok deleted) :
    ∀ d ∈ deleted, d.status = .deleted ∧ ∃ v ∈ versions, d.SameScope v := by
  intro d hd
  obtain ⟨v, hv, hd⟩ := mem_of_mapM_eq_ok h d hd
  have hdeleted : d.status = .deleted ∧ d.SameScope v := by
    split at hd
    · cases hd
      exact ⟨‹_›, .refl _⟩
    · exact ⟨status_of_transitionDocumentVersion hd, sameScope_of_transitionDocumentVersion hd⟩
  exact ⟨hdeleted.1, v, hv, hdeleted.2⟩

end DocumentDeletionService

end Knowledge
end RagflowAgent
