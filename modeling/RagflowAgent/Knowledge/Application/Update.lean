import RagflowAgent.Knowledge.Application.Publish

/-!
# Updates, re-parsing and cancellation

An update stores new content under a key of its own and then registers, in one
transaction, a version, a lifecycle operation, an ingestion job with its tasks and an
outbox event; a re-parse registers the same over the content the document has.  The
active version is left untouched until the operation is published.

* `DocumentUpdateService.update` and `DocumentUpdateService.reparse` end in `register`,
  whose rows are computed by `registration`;
* `LifecycleControlService.cancel` asks an operation to stop.  It writes the snapshot it
  has read, with another status.
-/

namespace RagflowAgent
namespace Knowledge

open Interleaving

/-! ## Names and keys -/

/-- The characters that `_SAFE_NAME` keeps. -/
def isSafeNameChar (c : Char) : Bool := c.isAlphanum || c == '.' || c == '_' || c == '-'

/-- `_SAFE_NAME.sub("_", name)`: every run of other characters becomes one underscore. -/
def replaceUnsafe : List Char → List Char
  | [] => []
  | c :: l =>
    if isSafeNameChar c then c :: replaceUnsafe l
    else if l.head?.any fun d => !isSafeNameChar d then replaceUnsafe l
    else '_' :: replaceUnsafe l

/-- The file name as it is used in an object key. -/
def safeName (fileName : String) : String :=
  let isEdge : Char → Bool := fun c => c == '.' || c == '_'
  let name := replaceUnsafe fileName.toList
  let name := ((name.dropWhile isEdge).reverse.dropWhile isEdge).reverse
  if name = [] then "source" else String.ofList name

/-- `digest[:n]`. -/
def digestPrefix (digest : String) (n : ℕ) : String := String.ofList (digest.toList.take n)

/-- The identities of one actor's ingestion job, shared by updates and uploads. -/
def ingestionTasks (job : IngestionJob) (idempotencyKey : String) (now : ℕ) :
    List IngestionTask :=
  IngestionStage.tasks.map fun stage =>
    { id := job.id ++ ":" ++ stage.value
      tenantId := job.tenantId
      jobId := job.id
      documentVersionId := job.documentVersionId
      stage := stage
      idempotencyKey := idempotencyKey ++ ":" ++ stage.value
      traceId := job.traceId
      createdAt := now
      updatedAt := now }

/-- The envelope of the first task. -/
def ingestionEnvelope (job : IngestionJob) (idempotencyKey messageId : String) (now : ℕ) :
    IngestionEnvelope where
  messageId := messageId
  tenantId := job.tenantId
  jobId := job.id
  taskId := job.id ++ ":" ++ IngestionStage.parse.value
  documentVersionId := job.documentVersionId
  stage := .parse
  attempt := 1
  idempotencyKey := idempotencyKey ++ ":" ++ IngestionStage.parse.value
  traceId := job.traceId
  createdAt := now

/-- The envelope is the one of the first task. -/
theorem ingestionEnvelope_eq_fromTask (job : IngestionJob) (idempotencyKey messageId : String)
    (now : ℕ) :
    (ingestionTasks job idempotencyKey now).head?.map
        (IngestionEnvelope.fromTask · messageId now) =
      some (ingestionEnvelope job idempotencyKey messageId now) :=
  rfl

namespace DocumentUpdateService

structure UpdateDocumentCommand where
  context : AuthorizationContext
  documentId : String
  fileName : String
  mediaType : String
  /-- The bytes, one character each. -/
  content : String
  idempotencyKey : String
  reason : String
  batchId : Option String := none

structure ReparseDocumentCommand where
  context : AuthorizationContext
  documentId : String
  idempotencyKey : String
  reason : String
  batchId : Option String := none

structure SubmittedLifecycle where
  operation : LifecycleOperation
  job : IngestionJob
  outboxEvent : LifecycleOutboxEvent
  storedObject : Option String := none
  duplicate : Bool := false

/-- `_job_id`. -/
def jobId (settings : Settings) (tenantId idempotencyKey : String) : String :=
  "lifecycle_job_" ++ digestPrefix (settings.sha256 (tenantId ++ "\x1f" ++ idempotencyKey)) 24

/-- `_outbox_id`. -/
def outboxId (operationId : String) : String := "outbox:" ++ operationId

/-- `object_key` of an update. -/
def objectKey (tenantId documentId versionId fileName : String) : String :=
  "tenants/" ++ tenantId ++ "/documents/" ++ documentId ++ "/versions/" ++ versionId ++ "/" ++
    safeName fileName

/-- What `_register` is called with. -/
structure RegisterRequest where
  context : AuthorizationContext
  documentId : String
  versionId : String
  objectKey : String
  mediaType : String
  contentHash : String
  sizeBytes : ℕ
  idempotencyKey : String
  reason : String
  kind : LifecycleOperationKind
  storedObject : Option String
  batchId : Option String
  commandFingerprint : String

/-- The rows of one registration. -/
structure Registration where
  version : DocumentVersion
  operation : LifecycleOperation
  job : IngestionJob
  tasks : List IngestionTask
  event : LifecycleOutboxEvent

/-- The rows that `_register` adds. -/
def registration (settings : Settings) (request : RegisterRequest) (document : Document)
    (currentVersionId operationId : String) (now : ℕ) : Registration :=
  let version : DocumentVersion := {
    id := request.versionId
    tenantId := request.context.tenantId
    knowledgeBaseId := document.knowledgeBaseId
    documentId := document.id
    createdBy := request.context.actorId
    objectKey := request.objectKey
    mediaType := request.mediaType
    contentHash := request.contentHash
    sizeBytes := request.sizeBytes
    createdAt := now
    updatedAt := now }
  let stored := request.storedObject.isSome
  let operation : LifecycleOperation := {
    id := operationId
    tenantId := request.context.tenantId
    knowledgeBaseId := document.knowledgeBaseId
    documentId := document.id
    versionId := version.id
    kind := request.kind
    idempotencyKey := request.idempotencyKey
    actorId := request.context.actorId
    reason := request.reason
    requestId := request.context.requestId
    expectedDocumentRevision := document.revision
    fencingToken := document.revision + 1
    previousVersionId := some currentVersionId
    batchId := request.batchId
    metadata := [("command_fingerprint", request.commandFingerprint)]
    steps := [
      { step := .register
        status := .succeeded
        attempts := 1
        startedAt := some now
        completedAt := some now },
      { step := .storeObject
        status := if stored then .succeeded else .skipped
        attempts := if stored then 1 else 0
        startedAt := some now
        completedAt := some now }]
    createdAt := now
    updatedAt := now }
  let job : IngestionJob := {
    id := jobId settings request.context.tenantId request.idempotencyKey
    tenantId := request.context.tenantId
    knowledgeBaseId := document.knowledgeBaseId
    documentId := document.id
    documentVersionId := version.id
    requestedBy := request.context.actorId
    idempotencyKey := "lifecycle:" ++ request.idempotencyKey
    traceId := request.context.requestId
    operationId := some operationId
    createdAt := now
    updatedAt := now }
  { version := version
    operation := operation
    job := job
    tasks := ingestionTasks job request.idempotencyKey now
    event := {
      id := outboxId operationId
      tenantId := request.context.tenantId
      operationId := operationId
      aggregateId := document.id
      eventType := "ingestion.requested"
      idempotencyKey := "outbox:" ++ operationId ++ ":ingestion"
      payload := .envelope (ingestionEnvelope job request.idempotencyKey
        ("lifecycle-ingestion:" ++ operationId) now)
      availableAt := now
      createdAt := now
      updatedAt := now } }

/-- The transaction of a registration. -/
def Registration.statements (r : Registration) (tenantId : String) : List Stmt :=
  [.add tenantId .documentVersions r.version, .add tenantId .lifecycleOperations r.operation,
    .add tenantId .ingestionJobs r.job] ++
    r.tasks.map (.add tenantId .ingestionTasks) ++ [.add tenantId .lifecycleOutbox r.event]

/-- `_register`. -/
def register (settings : Settings) (request : RegisterRequest) (knows : List Fact) :
    Service SubmittedLifecycle := do
  let tenantId := request.context.tenantId
  let now ← ask .registering knows .now
  let knows := knows ++ [.clock now]
  let operationId ← ask .registering knows .newId
  match ← ask .registering knows (.query (.get .documents tenantId request.documentId)) with
  | none => .raise (.notFound "document" request.documentId)
  | some document =>
    PermissionChecker.require request.context document.authorization .write
    match document.currentVersionId with
    | none => .raise (.conflict "document has no active version to replace"
        "document_has_no_active_version")
    | some currentVersionId =>
      let r := registration settings request document currentVersionId operationId now
      ask .registering (knows ++ [.stored .documents document])
        (.commit (r.statements tenantId))
      pure {
        operation := r.operation
        job := r.job
        outboxEvent := r.event
        storedObject := request.storedObject }

/-- `_existing`: the replay of a command, if there was one with this key. -/
def existing (settings : Settings) (context : AuthorizationContext)
    (documentId idempotencyKey : String) (kind : LifecycleOperationKind)
    (fingerprint : String) : Service (Option SubmittedLifecycle) := do
  match ← ask .reading [] (.query (.getByIdempotencyKey context.tenantId idempotencyKey)) with
  | none => pure none
  | some operation =>
    .raiseWhen (operation.documentId ≠ documentId ∨ operation.kind ≠ kind ∨
        operation.commandFingerprint ≠ some fingerprint) idempotencyConflict
    let document ← ask .reading [] (.query
      (.get .documents context.tenantId operation.documentId))
    let job ← ask .reading [] (.query
      (.get .ingestionJobs context.tenantId (jobId settings context.tenantId idempotencyKey)))
    let event ← ask .reading [] (.query
      (.get .lifecycleOutbox context.tenantId (outboxId operation.id)))
    match document with
    | none => .raise (.notFound "document" operation.documentId)
    | some document =>
      PermissionChecker.require context document.authorization .write
      match job, event with
      | none, _ => .raise (.conflict "lifecycle operation has no ingestion job"
          "lifecycle_job_missing")
      | _, none => .raise (.conflict "lifecycle operation has no outbox event"
          "lifecycle_outbox_missing")
      | some job, some event => pure (some {
          operation := operation
          job := job
          outboxEvent := event
          duplicate := true })

/-- `_require_document_write`. -/
def requireDocumentWrite (context : AuthorizationContext) (documentId : String) :
    Service Unit := do
  match ← ask .reading [] (.query (.get .documents context.tenantId documentId)) with
  | none => .raise (.notFound "document" documentId)
  | some document => PermissionChecker.require context document.authorization .write

/-- `update`. -/
def update (settings : Settings) (command : UpdateDocumentCommand) :
    Service SubmittedLifecycle := do
  let context := command.context
  .raiseWhen (settings.maxUploadBytes < command.content.length)
    (.conflict "update exceeds the configured byte limit" "upload_too_large")
  let digest := settings.sha256 command.content
  let fingerprint := settings.fingerprint .update
    [command.documentId, command.fileName, command.mediaType, digest, command.reason,
      command.batchId.getD ""]
  match ← existing settings context command.documentId command.idempotencyKey .update
      fingerprint with
  | some submitted => pure submitted
  | none =>
    requireDocumentWrite context command.documentId
    let versionId ← ask .reading [] .newId
    let objectKey := objectKey context.tenantId command.documentId versionId command.fileName
    ask .reading [] (.changeObjects (.put objectKey))
    register settings
      { context := context
        documentId := command.documentId
        versionId := versionId
        objectKey := objectKey
        mediaType := command.mediaType
        contentHash := digest
        sizeBytes := command.content.length
        idempotencyKey := command.idempotencyKey
        reason := command.reason
        kind := .update
        storedObject := some objectKey
        batchId := command.batchId
        commandFingerprint := fingerprint }
      [.put objectKey]

/-- `reparse`. -/
def reparse (settings : Settings) (command : ReparseDocumentCommand) :
    Service SubmittedLifecycle := do
  let context := command.context
  let fingerprint := settings.fingerprint .reparse
    [command.documentId, command.reason, command.batchId.getD ""]
  match ← existing settings context command.documentId command.idempotencyKey .reparse
      fingerprint with
  | some submitted => pure submitted
  | none =>
    let document ← ask .reading [] (.query (.get .documents context.tenantId command.documentId))
    match document, document.bind (·.currentVersionId) with
    | some document, some currentVersionId =>
      PermissionChecker.require context document.authorization .write
      match ← ask .reading [] (.query
          (.get .documentVersions context.tenantId currentVersionId)) with
      | none => .raise (.notFound "document_version" currentVersionId)
      | some current =>
        let versionId ← ask .reading [] .newId
        register settings
          { context := context
            documentId := command.documentId
            versionId := versionId
            objectKey := current.objectKey
            mediaType := current.mediaType
            contentHash := current.contentHash
            sizeBytes := current.sizeBytes
            idempotencyKey := command.idempotencyKey
            reason := command.reason
            kind := .reparse
            storedObject := none
            batchId := command.batchId
            commandFingerprint := fingerprint }
          []
    | _, _ => .raise (.notFound "document" command.documentId)

end DocumentUpdateService

/-! ## Cancellation -/

namespace LifecycleControlService

/-- `get`. -/
def get (context : AuthorizationContext) (operationId : String) :
    Service LifecycleOperation := do
  match ← ask .cancelling [] (.query
      (.get .lifecycleOperations context.tenantId operationId)) with
  | none => .raise (.notFound "lifecycle_operation" operationId)
  | some operation =>
    let known : List Fact := [.stored .lifecycleOperations operation]
    match ← ask .cancelling known (.query
        (.get .documents context.tenantId operation.documentId)) with
    | none => .raise (.notFound "lifecycle_operation" operationId)
    | some document =>
      PermissionChecker.require context document.authorization .read
      pure operation

/-- `cancel`. -/
def cancel (context : AuthorizationContext) (operationId : String) :
    Service LifecycleOperation := do
  let operation ← get context operationId
  if operation.status.isIn terminalLifecycleStatuses then pure operation
  else
    let known : List Fact := [.stored .lifecycleOperations operation]
    match ← ask .cancelling known (.query
        (.get .documents context.tenantId operation.documentId)) with
    | none => .raise (.notFound "document" operation.documentId)
    | some document =>
      PermissionChecker.require context document.authorization .write
      let now ← ask .cancelling known .now
      let known := known ++ [.clock now]
      let cancelled :=
        { operation with status := .member .cancelRequested, updatedAt := now }
      ask .cancelling known (.commit
        [.save context.tenantId .lifecycleOperations cancelled])
      pure cancelled

end LifecycleControlService

end Knowledge
end RagflowAgent
