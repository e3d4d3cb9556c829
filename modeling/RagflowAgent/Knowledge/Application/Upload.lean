import RagflowAgent.Knowledge.Application.Update

/-!
# Upload

`UploadService.submit` stores the source under a key derived from the idempotency key,
registers the document with its first version (`KnowledgeService.registerDocument`), adds
the ingestion job with its tasks in a second transaction, and publishes the envelope.  A
second call with the same key finds the job and only publishes again.
-/

namespace RagflowAgent
namespace Knowledge

open Interleaving

namespace KnowledgeService

structure RegisterDocumentCommand where
  context : AuthorizationContext
  knowledgeBaseId : String
  name : String
  objectKey : String
  mediaType : String
  contentHash : String
  contentHashAlgorithm : String := "sha256"
  sizeBytes : ℕ
  visibility : Option Visibility := none

structure RegisteredDocument where
  document : Document
  version : DocumentVersion

/-- The rows that `register_document` adds. -/
def registered (command : RegisterDocumentCommand) (knowledgeBase : KnowledgeBase)
    (documentId versionId : String) (now : ℕ) : RegisteredDocument where
  document := {
    id := documentId
    tenantId := command.context.tenantId
    knowledgeBaseId := knowledgeBase.id
    ownerId := command.context.actorId
    name := command.name
    visibility := command.visibility.getD knowledgeBase.visibility
    createdAt := now
    updatedAt := now }
  version := {
    id := versionId
    tenantId := command.context.tenantId
    knowledgeBaseId := knowledgeBase.id
    documentId := documentId
    createdBy := command.context.actorId
    objectKey := command.objectKey
    mediaType := command.mediaType
    contentHash := command.contentHash
    contentHashAlgorithm := command.contentHashAlgorithm
    sizeBytes := command.sizeBytes
    createdAt := now
    updatedAt := now }

/-- `register_document`. -/
def registerDocument (command : RegisterDocumentCommand) (knows : List Fact) :
    Service RegisteredDocument := do
  let tenantId := command.context.tenantId
  let now ← ask .submitting knows .now
  let knows := knows ++ [.clock now]
  match ← ask .submitting knows (.query
      (.get .knowledgeBases tenantId command.knowledgeBaseId)) with
  | none => .raise (.notFound "knowledge_base" command.knowledgeBaseId)
  | some knowledgeBase =>
    PermissionChecker.require command.context knowledgeBase.authorization .write
    let documentId ← ask .submitting knows .newId
    let versionId ← ask .submitting knows .newId
    let r := registered command knowledgeBase documentId versionId now
    ask .submitting knows (.commit
      [.add tenantId .documents r.document, .add tenantId .documentVersions r.version])
    ask .submitting knows (.record "registered" documentId)
    pure r

end KnowledgeService

namespace UploadService

structure UploadDocumentCommand where
  context : AuthorizationContext
  knowledgeBaseId : String
  fileName : String
  mediaType : String
  /-- The bytes, one character each. -/
  content : String
  idempotencyKey : String
  visibility : Option Visibility := none

structure SubmittedIngestion where
  job : IngestionJob
  storedObject : Option String
  /-- An envelope was published for this submission. -/
  queueReceipt : Bool
  duplicate : Bool := false

/-- `ALLOWED_UPLOAD_MEDIA_TYPES`. -/
def allowedUploadMediaTypes : List String :=
  ["text/plain", "text/markdown", "text/html", "application/pdf",
    "application/vnd.openxmlformats-officedocument.wordprocessingml.document",
    "application/vnd.openxmlformats-officedocument.presentationml.presentation",
    "application/vnd.openxmlformats-officedocument.spreadsheetml.sheet",
    "image/png", "image/jpeg", "image/tiff", "image/webp", "image/bmp"]

/-- `_validate_upload`. -/
def validateUpload (settings : Settings) (command : UploadDocumentCommand) :
    Except Error Unit :=
  if command.mediaType ∉ allowedUploadMediaTypes then
    .error (.conflict "upload media type is not supported by the Phase 05 parser profile"
      "upload_media_type_unsupported")
  else if settings.maxUploadBytes < command.content.length then
    .error (.conflict "upload exceeds the configured byte limit" "upload_too_large")
  else .ok ()

/-- `_job_id`. -/
def jobId (settings : Settings) (tenantId idempotencyKey : String) : String :=
  "job_" ++ digestPrefix (settings.sha256 (tenantId ++ "\x1f" ++ idempotencyKey)) 32

/-- `_republish_pending`: recover a post-commit queue failure through the same key. -/
def republishPending (job : IngestionJob) : Service Bool := do
  if job.status ≠ .pending then pure false
  else
    let tasks ← ask .reading [] (.query (.listTasksForJob job.tenantId job.id))
    match tasks.find? (·.stage = .parse) with
    | none => .raise (.conflict "pending ingestion job has no parse task"
        "ingestion_parse_task_missing")
    | some task =>
      let now ← ask .reading [] .now
      ask .reading [] (.publish (.fromTask task ("ingestion:" ++ job.id) now))
      pure true

/-- The job of a submission. -/
def ingestionJob (command : UploadDocumentCommand) (jobId : String)
    (registered : KnowledgeService.RegisteredDocument) (now : ℕ) : IngestionJob where
  id := jobId
  tenantId := command.context.tenantId
  knowledgeBaseId := command.knowledgeBaseId
  documentId := registered.document.id
  documentVersionId := registered.version.id
  requestedBy := command.context.actorId
  idempotencyKey := command.idempotencyKey
  traceId := command.context.requestId
  createdAt := now
  updatedAt := now

/-- `submit`. -/
def submit (settings : Settings) (command : UploadDocumentCommand) :
    Service SubmittedIngestion := do
  let context := command.context
  validateUpload settings command
  let jobId := jobId settings context.tenantId command.idempotencyKey
  match ← ask .reading [] (.query (.get .ingestionJobs context.tenantId jobId)) with
  | some existing =>
    .raiseWhen (existing.knowledgeBaseId ≠ command.knowledgeBaseId)
      (.conflict "idempotency key is already bound to another knowledge base"
        "upload_idempotency_scope_conflict")
    let receipt ← republishPending existing
    pure { job := existing, storedObject := none, queueReceipt := receipt, duplicate := true }
  | none =>
    let now ← ask .reading [] .now
    let digest := settings.sha256 command.content
    let objectKey := "tenants/" ++ context.tenantId ++ "/uploads/" ++ jobId ++ "/" ++
      safeName command.fileName
    ask .reading [.clock now] (.changeObjects (.put objectKey))
    let registered ← KnowledgeService.registerDocument
      { context := context
        knowledgeBaseId := command.knowledgeBaseId
        name := command.fileName
        objectKey := objectKey
        mediaType := command.mediaType
        contentHash := digest
        sizeBytes := command.content.length
        visibility := command.visibility }
      [.put objectKey, .clock now]
    let job := ingestionJob command jobId registered now
    ask .submitting [.clock now] (.commit
      (.add job.tenantId .ingestionJobs job ::
        (ingestionTasks job command.idempotencyKey now).map
          (.add job.tenantId .ingestionTasks)))
    ask .reading [] (.publish
      (ingestionEnvelope job command.idempotencyKey ("ingestion:" ++ job.id) now))
    pure { job := job, storedObject := some objectKey, queueReceipt := true }

end UploadService

end Knowledge
end RagflowAgent
