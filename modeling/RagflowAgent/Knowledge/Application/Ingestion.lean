import RagflowAgent.Knowledge.Application.Publish

/-!
# The ingestion pipeline

`IngestionPipeline.handle` executes one delivery of a persisted ingestion job: parse,
chunk, embed, index, and then make the version current --- through the publisher when the
job belongs to a lifecycle operation, and by itself for the first version of a document.
Between the stages it records progress and looks whether the operation was cancelled.

The body of `handle` is one `try` block, and its handler reads the variable `job` as it is
when the block raises.  The variable is assigned five times, so the block is cut there:
`prepare`, `parseStage`, `chunkStage`, `embedStage`, `indexStage` and `finish` are its
pieces, and each of them is guarded by the handler with the job of that moment.

* `startTask`, `succeedTask` and `progress` persist the state of a stage;
* `requireLifecycleActive` is the cooperative cancellation check;
* `recordFailure` is what the handler writes before it raises again.
-/

namespace RagflowAgent
namespace Knowledge

open Interleaving

namespace IngestionPipeline

/-! ## Saving -/

/-- `_save_job`. -/
def saveJob (knows : List Fact) (job : IngestionJob) : Service Unit :=
  ask .savingJob knows (.commit [.save job.tenantId .ingestionJobs job])

/-- `_save_task`. -/
def saveTask (knows : List Fact) (task : IngestionTask) : Service Unit :=
  ask .savingTask knows (.commit [.save task.tenantId .ingestionTasks task])

/-- `_save_version`, at the task the caller is at. -/
def saveVersion (task : Task) (knows : List Fact) (version : DocumentVersion) :
    Service Unit :=
  ask task knows (.commit [.save version.tenantId .documentVersions version])

/-! ## Loading -/

/-- What `_load` returns. -/
structure Loaded where
  job : IngestionJob
  tasks : List IngestionTask
  document : Document
  version : DocumentVersion

def Loaded.facts (loaded : Loaded) : List Fact :=
  [.stored .ingestionJobs loaded.job, .stored .documents loaded.document,
    .stored .documentVersions loaded.version]

/-- `_load`. -/
def load (envelope : IngestionEnvelope) : Service Loaded := do
  let job ← ask .reading [] (.query (.get .ingestionJobs envelope.tenantId envelope.jobId))
  let known := Fact.row .ingestionJobs job
  let tasks ← ask .reading known (.query (.listTasksForJob envelope.tenantId envelope.jobId))
  let version ← ask .reading known (.query
    (.get .documentVersions envelope.tenantId envelope.documentVersionId))
  let known := known ++ Fact.row .documentVersions version
  match job with
  | none => .raise (.notFound "ingestion_job" envelope.jobId)
  | some job =>
    let document ← ask .reading known (.query
      (.get .documents envelope.tenantId job.documentId))
    match version, document with
    | some version, some document =>
      .raiseWhen ((job.tenantId, job.documentVersionId, envelope.taskId) ≠
          (envelope.tenantId, envelope.documentVersionId,
            job.id ++ ":" ++ IngestionStage.parse.value))
        (.conflict "queue envelope does not match persisted ingestion facts"
          "ingestion_envelope_scope_mismatch")
      pure ⟨job, tasks, document, version⟩
    | _, _ => .raise (.notFound "document_version" envelope.documentVersionId)

/-- `_task`. -/
def taskOf (tasks : List IngestionTask) (stage : IngestionStage) :
    Except Error IngestionTask :=
  match tasks.find? (·.stage = stage) with
  | some task => .ok task
  | none => .error (.notFound "ingestion_task" stage.value)

/-! ## Stages -/

/-- `_start_task`: a new attempt after a failure, the first one of a pending task, and the
same one again after a crash. -/
def startTask (knows : List Fact) (task : IngestionTask) : Service IngestionTask := do
  match task.status with
  | .succeeded => pure task
  | .failed =>
    let now ← ask .savingTask knows .now
    let task ← retryIngestionTask task now
    saveTask (knows ++ [.clock now]) task
    pure task
  | .pending =>
    let now ← ask .savingTask knows .now
    let task ← transitionIngestion task .running task.progress now
    saveTask (knows ++ [.clock now]) task
    pure task
  | .running =>
    saveTask knows task
    pure task
  | .cancelled =>
    saveTask knows task
    pure task

/-- `_succeed_task`. -/
def succeedTask (knows : List Fact) (task : IngestionTask) : Service Unit := do
  if task.status = .succeeded then pure ()
  else
    let now ← ask .savingTask knows .now
    let succeeded ← transitionIngestion task .succeeded 1 now
    saveTask (knows ++ [.clock now]) succeeded

/-- `_progress`: of the job, and of its operation if it has one. -/
def progress (knows : List Fact) (job : IngestionJob) (progress : ℚ) :
    Service IngestionJob := do
  let now ← ask .savingJob knows .now
  let updated := { job with progress := progress, updatedAt := now }
  saveJob (knows ++ [.clock now]) updated
  match job.operationId with
  | none => pure updated
  | some operationId =>
    match ← ask .progressing knows (.query
        (.get .lifecycleOperations job.tenantId operationId)) with
    | none => pure updated
    | some operation =>
      let known := knows ++ Fact.ofRow .lifecycleOperations operation
      let now ← ask .progressing known .now
      let known := known ++ [.clock now]
      let operation ← updateProgress operation progress now
      ask .progressing known (.commit [.save job.tenantId .lifecycleOperations operation])
      pure updated

/-- `_require_lifecycle_active`.  It returns what it has seen, for the labels of the calls
that it protects. -/
def requireLifecycleActive (knows : List Fact) (job : IngestionJob) : Service (List Fact) := do
  match job.operationId with
  | none => pure []
  | some operationId =>
    match ← ask .reading knows (.query
        (.get .lifecycleOperations job.tenantId operationId)) with
    | none => .raise (.notFound "lifecycle_operation" operationId)
    | some operation =>
      requireNotCancelled operation
      pure (Fact.ofRow .lifecycleOperations operation)

/-- The job once it runs. -/
def prepare (knows : List Fact) (job : IngestionJob) : Service IngestionJob := do
  if job.status = .pending then
    let now ← ask .savingJob knows .now
    let job ← transitionIngestion job .running job.progress now
    pure job
  else pure job

def saveIfPending (knows : List Fact) (pending : Bool) (job : IngestionJob) : Service Unit :=
  if pending then saveJob knows job else pure ()

/-- The version once it is being ingested. -/
def startVersion (knows : List Fact) (version : DocumentVersion) : Service DocumentVersion := do
  if version.status = .registered then
    let now ← ask .startingVersion knows .now
    let version ← transitionDocumentVersion version .ingesting now
    saveVersion .startingVersion (knows ++ [.clock now]) version
    pure version
  else pure version

/-- From the first save to the progress of the parse stage.  `pending` says that the job
was pending when it was loaded. -/
def parseStage (knows : List Fact) (pending : Bool) (tasks : List IngestionTask)
    (version : DocumentVersion) (job : IngestionJob) :
    Service (IngestionJob × DocumentVersion × ParsedDocument) := do
  saveIfPending knows pending job
  let version ← startVersion knows version
  let _ ← requireLifecycleActive knows job
  let task ← taskOf tasks .parse
  let task ← startTask knows task
  let parsed ← ask .reading knows (.parse {
    tenantId := job.tenantId
    knowledgeBaseId := job.knowledgeBaseId
    documentId := job.documentId
    documentVersionId := job.documentVersionId
    objectKey := version.objectKey
    mediaType := version.mediaType
    traceId := job.traceId })
  succeedTask knows task
  let job ← progress knows job (1 / 4)
  pure (job, version, parsed)

def chunkStage (settings : Settings) (knows : List Fact) (tasks : List IngestionTask)
    (parsed : ParsedDocument) (job : IngestionJob) :
    Service (IngestionJob × List ChunkRecord) := do
  let _ ← requireLifecycleActive knows job
  let task ← taskOf tasks .chunk
  let task ← startTask knows task
  let chunks ← ask .reading knows (.chunk {
    parsedDocument := parsed
    strategyId := settings.profile.chunkStrategyId
    strategyVersion := settings.profile.chunkStrategyVersion
    maxTokens := settings.profile.chunkMaxTokens
    traceId := job.traceId })
  .raiseWhen (chunks = [])
    (.conflict "chunker produced no searchable content" "chunk_empty_result")
  succeedTask knows task
  let job ← progress knows job (1 / 2)
  pure (job, chunks)

/-- The embedding result covers exactly the chunks. -/
def Covers (embedded : EmbeddingResult) (chunks : List ChunkRecord) : Prop :=
  (∀ vector ∈ embedded.vectors, vector.inputId ∈ chunks.map ChunkRecord.id) ∧
    ∀ chunk ∈ chunks, chunk.id ∈ embedded.vectors.map EmbeddingVector.inputId

instance (embedded : EmbeddingResult) (chunks : List ChunkRecord) :
    Decidable (Covers embedded chunks) :=
  inferInstanceAs (Decidable (_ ∧ _))

def embedStage (settings : Settings) (knows : List Fact) (tasks : List IngestionTask)
    (chunks : List ChunkRecord) (job : IngestionJob) :
    Service (IngestionJob × EmbeddingResult) := do
  let _ ← requireLifecycleActive knows job
  let task ← taskOf tasks .embed
  let task ← startTask knows task
  let embedded ← ask .reading knows (.embed {
    tenantId := job.tenantId
    modelId := settings.profile.embeddingModelId
    inputs := chunks.map fun chunk => ⟨chunk.id, chunk.content⟩
    traceId := job.traceId })
  .raiseWhen (¬ Covers embedded chunks)
    (.conflict "embedding result does not cover every chunk" "embedding_partial_result")
  succeedTask knows task
  let job ← progress knows job (3 / 4)
  pure (job, embedded)

/-- `vector_by_id[chunk_id]`. -/
def vectorOf (embedded : EmbeddingResult) (chunkId : String) : List ℚ :=
  ((embedded.vectors.find? (·.inputId = chunkId)).map EmbeddingVector.values).getD []

/-- The record of one chunk. -/
def indexRecord (indexVersionId : String) (document : Document) (version : DocumentVersion)
    (embedded : EmbeddingResult) (chunk : ChunkRecord) (now : ℕ) : IndexRecord where
  indexVersionId := indexVersionId
  tenantId := chunk.tenantId
  knowledgeBaseId := chunk.knowledgeBaseId
  ownerId := document.ownerId
  visibility := document.visibility
  documentId := chunk.documentId
  documentVersionId := chunk.documentVersionId
  chunkId := chunk.id
  content := chunk.content
  mediaType := version.mediaType
  createdAt := now
  embedding := vectorOf embedded chunk.id
  metadata := chunk.metadata

/-- The records of the chunks, each with a reading of the clock. -/
def indexRecords (knows : List Fact) (indexVersionId : String) (document : Document)
    (version : DocumentVersion) (embedded : EmbeddingResult) :
    List ChunkRecord → Service (List IndexRecord)
  | [] => pure []
  | chunk :: chunks => do
    let now ← ask .indexing knows .now
    let records ← indexRecords knows indexVersionId document version embedded chunks
    pure (indexRecord indexVersionId document version embedded chunk now :: records)

/-- Making the version current: by the publisher, or by the pipeline itself. -/
def makeCurrent (settings : Settings) (context : AuthorizationContext) (knows : List Fact)
    (document : Document) (version : DocumentVersion) (indexVersion : IndexVersion)
    (job : IngestionJob) : Service Document := do
  match job.operationId with
  | some operationId =>
    .raiseWhen (settings.lifecycleActivation = false)
      (.conflict "lifecycle publisher is not configured" "lifecycle_publisher_missing")
    saveVersion .readyingVersion knows version
    let seen ← requireLifecycleActive knows job
    let _ ← DocumentVersionPublisher.completeIngestion settings context operationId
      indexVersion.id .completing (knows ++ seen)
    pure document
  | none =>
    ask .indexing knows (.changeIndex (.deactivate context.tenantId indexVersion))
    ask .indexing knows (.changeIndex (.activate indexVersion))
    let now ← ask .activating knows .now
    let document ← activateDocumentVersion document version now
    pure document

/-- From the index task to the job's last transition. -/
def indexStage (settings : Settings) (context : AuthorizationContext) (knows : List Fact)
    (tasks : List IngestionTask) (document : Document) (version : DocumentVersion)
    (chunks : List ChunkRecord) (embedded : EmbeddingResult) (job : IngestionJob) :
    Service (IngestionJob × Document × DocumentVersion) := do
  let _ ← requireLifecycleActive knows job
  let task ← taskOf tasks .index
  let task ← startTask knows task
  let now ← ask .indexing knows .now
  let indexVersion : IndexVersion := {
    id := "idx_" ++ job.documentVersionId
    tenantId := job.tenantId
    knowledgeBaseId := job.knowledgeBaseId
    documentId := some job.documentId
    dimensions := embedded.dimensions
    createdAt := now }
  let records ← indexRecords knows indexVersion.id document version embedded chunks
  ask .indexing knows (.changeIndex (.upsert context.tenantId indexVersion records))
  succeedTask knows task
  let now ← ask .indexing knows .now
  let version ← transitionDocumentVersion version .ready now
  let version := { version with indexVersionId := some indexVersion.id }
  let document ← makeCurrent settings context knows document version indexVersion job
  -- after a publication nothing is remembered, and nothing is needed
  let known := if job.operationId = none then knows else []
  let now ← ask .finishing known .now
  let job ← transitionIngestion job .succeeded 1 now
  pure (job, document, version)

/-- The last transaction.  The document of a first version is saved without a condition on
its revision. -/
def finish (knows : List Fact) (document : Document) (version : DocumentVersion)
    (job : IngestionJob) : Service IngestionJob := do
  if job.operationId = none then
    ask .activating knows (.commit
      [.save job.tenantId .documentVersions version, .save job.tenantId .documents document,
        .save job.tenantId .ingestionJobs job])
  else ask .finishing [] (.commit [.save job.tenantId .ingestionJobs job])
  pure job

/-! ## Failures -/

/-- The failure that `_record_failure` stores with a task or a job. -/
def ingestionError (error : Error) (retryable : Bool) : Except Error IngestionError := do
  let code ← nonEmptyText (error.errorCode.getD "ingestion_stage_failed")
  let message ← nonEmptyText (if error.message = "" then error.typeName else error.message)
  return {
    code := code
    message := message
    retryable := retryable
    classification := (classifyFailure error).classification }

/-- The failed version, in one unit of work. -/
def failVersion (envelope : IngestionEnvelope) : Service Unit := do
  match ← ask .failingVersion [] (.query
      (.get .documentVersions envelope.tenantId envelope.documentVersionId)) with
  | none => pure ()
  | some version =>
    if version.status = .ingesting then
      let known : List Fact := [.stored .documentVersions version]
      let now ← ask .failingVersion known .now
      let known := known ++ [.clock now]
      let failed ← transitionDocumentVersion version .failed now
      ask .failingVersion known (.commit
        [.save envelope.tenantId .documentVersions failed])
    else pure ()

/-- The failed operation.  Its status is a plain text. -/
def failedOperation (operation : LifecycleOperation) (failure : IngestionError)
    (deliveryAttempt now : ℕ) : LifecycleOperation :=
  let targetStatus :=
    if failure.code = "lifecycle_cancelled" then "cancelled" else "dead_letter"
  { operation with
    status := .text targetStatus
    attempts := deliveryAttempt
    error :=
      if targetStatus = "cancelled" then none
      else some {
        classification := failure.classification
        code := failure.code
        message := failure.message
        retryable := false }
    updatedAt := now }

def failOperation (envelope : IngestionEnvelope) (operationId : String)
    (failure : IngestionError) (deliveryAttempt : ℕ) : Service Unit := do
  match ← ask .failingOperation [] (.query
      (.get .lifecycleOperations envelope.tenantId operationId)) with
  | none => pure ()
  | some operation =>
    let known : List Fact := [.stored .lifecycleOperations operation]
    let now ← ask .failingOperation known .now
    let known := known ++ [.clock now]
    ask .failingOperation known (.commit
      [.save envelope.tenantId .lifecycleOperations
        (failedOperation operation failure deliveryAttempt now)])

/-- The failed task, if one was running. -/
def failTask (running : Option IngestionTask) (failure : IngestionError) : Service Unit := do
  match running with
  | none => pure ()
  | some task =>
    let now ← ask .savingTask [] .now
    let failed ← transitionIngestion task .failed task.progress now (some failure)
    saveTask [.clock now] failed

/-- `_record_failure`. -/
def recordFailure (settings : Settings) (envelope : IngestionEnvelope) (deliveryAttempt : ℕ)
    (job : IngestionJob) (error : Error) : Service Unit := do
  let tasks ← ask .reading [] (.query (.listTasksForJob envelope.tenantId envelope.jobId))
  let retryable := mayRetry (classifyFailure error) deliveryAttempt
    { maxAttempts := settings.maxAttempts }
  let failure ← ingestionError error retryable
  failTask (tasks.find? (·.status = .running)) failure
  if ¬ retryable ∧ job.status = .running then
    let now ← ask .savingJob [] .now
    let failed ← transitionIngestion job .failed job.progress now (some failure)
    saveJob [.clock now] failed
    failVersion envelope
    match job.operationId with
    | none => pure ()
    | some operationId => failOperation envelope operationId failure deliveryAttempt
  else pure ()

/-- The handler: record the failure, then tell the transport whether to deliver again. -/
def handleFailure {α : Type} (settings : Settings) (envelope : IngestionEnvelope)
    (deliveryAttempt : ℕ) (job : IngestionJob) (error : Error) : Service α := do
  recordFailure settings envelope deliveryAttempt job error
  if mayRetry (classifyFailure error) deliveryAttempt { maxAttempts := settings.maxAttempts }
  then .raise (.retryableIngestion error.message)
  else .raise error

/-! ## Deliveries -/

/-- The context of a worker. -/
def workerContext (envelope : IngestionEnvelope) : AuthorizationContext where
  tenantId := envelope.tenantId
  actorId := "ingestion-worker"
  requestId := envelope.traceId

/-- The body of the `try` block. -/
def run (settings : Settings) (envelope : IngestionEnvelope) (deliveryAttempt : ℕ)
    (loaded : Loaded) : Service IngestionJob := do
  let guarded {α : Type} (job : IngestionJob) (p : Service α) : Service α :=
    p.attempt (handleFailure settings envelope deliveryAttempt job)
  let context := workerContext envelope
  let known := loaded.facts
  let { tasks, document, .. } := loaded
  let job := loaded.job
  let job ← guarded job (prepare known job)
  let (job, version, parsed) ← guarded job
    (parseStage known (loaded.job.status = .pending) tasks loaded.version job)
  let (job, chunks) ← guarded job (chunkStage settings known tasks parsed job)
  let (job, embedded) ← guarded job (embedStage settings known tasks chunks job)
  let (job, document, version) ← guarded job
    (indexStage settings context known tasks document version chunks embedded job)
  guarded job (finish known document version job)

/-- `handle`. -/
def handle (settings : Settings) (envelope : IngestionEnvelope) (deliveryAttempt : ℕ := 1) :
    Service IngestionJob := do
  let loaded ← load envelope
  if loaded.job.status = .succeeded then pure loaded.job
  else run settings envelope deliveryAttempt loaded

end IngestionPipeline

end Knowledge
end RagflowAgent
