import RagflowAgent.Knowledge.Domain.Lifecycle

/-!
# Ingestion jobs, their tasks, and outbox events

Building one version of a document is an `IngestionJob` with one `IngestionTask` for each
stage.  Jobs and tasks share their lifecycle, so what they have in common is a class,
`IngestionRecord`, and `transitionIngestion` is written once for both, as in the source.

* `transitionIngestion` moves a record along a declared edge, never losing progress;
* `retryIngestionTask` starts another attempt after a retryable failure;
* `IngestionEnvelope` is what the queue carries, and `LifecycleOutboxEvent` the event
  that waits to be published, with an envelope or a document as its payload.
-/

namespace RagflowAgent
namespace Knowledge

inductive IngestionStatus where
  | pending
  | running
  | succeeded
  | failed
  | cancelled
  deriving DecidableEq, Repr

/-- `_TRANSITIONS`. -/
def IngestionStatus.transitions : IngestionStatus → List IngestionStatus
  | pending => [running, cancelled]
  | running => [succeeded, failed, cancelled]
  | succeeded => []
  | failed => []
  | cancelled => []

inductive IngestionStage where
  | register
  | parse
  | chunk
  | embed
  | index
  deriving DecidableEq, Repr

def IngestionStage.value : IngestionStage → String
  | register => "register"
  | parse => "parse"
  | chunk => "chunk"
  | embed => "embed"
  | index => "index"

/-- The stages that have a task. -/
def IngestionStage.tasks : List IngestionStage := [.parse, .chunk, .embed, .index]

/-- Stable failure recorded in the database, not only in queue metadata. -/
structure IngestionError where
  code : String
  message : String
  retryable : Bool
  classification : FailureClass := .unknown
  deriving DecidableEq, Repr

structure IngestionJob where
  id : String
  tenantId : String
  knowledgeBaseId : String
  documentId : String
  documentVersionId : String
  requestedBy : String
  idempotencyKey : String
  traceId : String
  operationId : Option String := none
  status : IngestionStatus := .pending
  progress : ℚ := 0
  error : Option IngestionError := none
  createdAt : ℕ
  updatedAt : ℕ
  deriving DecidableEq

structure IngestionTask where
  id : String
  tenantId : String
  jobId : String
  documentVersionId : String
  stage : IngestionStage
  attempt : ℕ := 1
  idempotencyKey : String
  traceId : String
  status : IngestionStatus := .pending
  progress : ℚ := 0
  error : Option IngestionError := none
  createdAt : ℕ
  updatedAt : ℕ
  deriving DecidableEq

/-- Versioned queue payload that carries all isolation and recovery identities. -/
structure IngestionEnvelope where
  messageId : String
  tenantId : String
  jobId : String
  taskId : String
  documentVersionId : String
  stage : IngestionStage
  attempt : ℕ
  idempotencyKey : String
  traceId : String
  createdAt : ℕ
  deriving DecidableEq, Repr

def IngestionEnvelope.fromTask (task : IngestionTask) (messageId : String) (createdAt : ℕ) :
    IngestionEnvelope where
  messageId := messageId
  tenantId := task.tenantId
  jobId := task.jobId
  taskId := task.id
  documentVersionId := task.documentVersionId
  stage := task.stage
  attempt := task.attempt
  idempotencyKey := task.idempotencyKey
  traceId := task.traceId
  createdAt := createdAt

/-! ## What jobs and tasks share -/

/-- A job or a task: what the shared lifecycle reads of a record, and how it writes it. -/
class IngestionRecord (ρ : Type) where
  status : ρ → IngestionStatus
  progress : ρ → ℚ
  error : ρ → Option IngestionError
  createdAt : ρ → ℕ
  updatedAt : ρ → ℕ
  /-- The copy of a record with another status, progress, error and time of change. -/
  update : ρ → IngestionStatus → ℚ → Option IngestionError → ℕ → ρ

instance : IngestionRecord IngestionJob where
  status := IngestionJob.status
  progress := IngestionJob.progress
  error := IngestionJob.error
  createdAt := IngestionJob.createdAt
  updatedAt := IngestionJob.updatedAt
  update job status progress error changedAt :=
    { job with status := status, progress := progress, error := error, updatedAt := changedAt }

instance : IngestionRecord IngestionTask where
  status := IngestionTask.status
  progress := IngestionTask.progress
  error := IngestionTask.error
  createdAt := IngestionTask.createdAt
  updatedAt := IngestionTask.updatedAt
  update task status progress error changedAt :=
    { task with status := status, progress := progress, error := error, updatedAt := changedAt }

section Records

variable {ρ : Type} [IngestionRecord ρ]

open IngestionRecord

/-- `_validate_ingestion_record` with the bounds of the progress. -/
def validateIngestionRecord (record : ρ) : Except Error ρ :=
  if progress record < 0 then
    .error (.validation "Input should be greater than or equal to 0")
  else if 1 < progress record then
    .error (.validation "Input should be less than or equal to 1")
  else if updatedAt record < createdAt record then
    .error (.validation "updated_at cannot precede created_at")
  else if status record = .succeeded ∧ progress record ≠ 1 then
    .error (.validation "succeeded ingestion records require progress=1")
  else if status record = .failed ∧ error record = none then
    .error (.validation "failed ingestion records require an error")
  else if status record ≠ .failed ∧ error record ≠ none then
    .error (.validation "only failed ingestion records can carry an error")
  else .ok record

/-- A record its validator accepts. -/
structure ValidIngestionRecord (record : ρ) : Prop where
  progress_nonneg : 0 ≤ progress record
  progress_le_one : progress record ≤ 1
  createdAt_le : createdAt record ≤ updatedAt record
  progress_eq_one : status record = .succeeded → progress record = 1
  error_ne_none : status record = .failed → error record ≠ none
  error_eq_none : status record ≠ .failed → error record = none

theorem validateIngestionRecord_eq_ok {record record' : ρ} :
    validateIngestionRecord record = .ok record' ↔
      record' = record ∧ ValidIngestionRecord record := by
  constructor
  · intro h
    unfold validateIngestionRecord at h
    repeat' split at h
    all_goals cases h
    rename_i h1 h2 h3 h4 h5 h6
    exact ⟨rfl, not_lt.1 h1, not_lt.1 h2, Nat.not_lt.1 h3,
      fun hs => by by_contra hp; exact h4 ⟨hs, hp⟩, fun hs he => h5 ⟨hs, he⟩,
      fun hs => by by_contra he; exact h6 ⟨hs, he⟩⟩
  · rintro ⟨rfl, h⟩
    unfold validateIngestionRecord
    rw [if_neg (not_lt.2 h.progress_nonneg), if_neg (not_lt.2 h.progress_le_one),
      if_neg (Nat.not_lt.2 h.createdAt_le), if_neg fun hh => hh.2 (h.progress_eq_one hh.1),
      if_neg fun hh => h.error_ne_none hh.1 hh.2,
      if_neg fun hh => hh.2 (h.error_eq_none hh.1)]

/-- Move a job or task monotonically along a declared lifecycle edge. -/
def transitionIngestion (record : ρ) (target : IngestionStatus) (progress : ℚ)
    (changedAt : ℕ) (error : Option IngestionError := none) : Except Error ρ :=
  if changedAt < updatedAt record then
    .error (.conflict "ingestion timestamp cannot move backwards"
      "ingestion_timestamp_regression")
  else if target = status record then
    if progress = IngestionRecord.progress record ∧ error = IngestionRecord.error record then
      .ok record
    else
      .error (.conflict "same-state ingestion updates must be idempotent"
        "ingestion_duplicate_conflict")
  else if target ∉ (status record).transitions then
    .error (.conflict "ingestion transition is not allowed" "ingestion_transition_invalid")
  else if progress < IngestionRecord.progress record then
    .error (.conflict "ingestion progress cannot decrease" "ingestion_progress_regression")
  else validateIngestionRecord (update record target progress error changedAt)

/-- **What a transition of a job or task returns**: the record itself when there is
nothing to do, and otherwise the record after a declared edge, with no progress lost. -/
theorem transitionIngestion_eq_ok {record record' : ρ} {target : IngestionStatus}
    {progress : ℚ} {changedAt : ℕ} {error : Option IngestionError}
    (h : transitionIngestion record target progress changedAt error = .ok record') :
    updatedAt record ≤ changedAt ∧
      ((target = status record ∧ record' = record) ∨
        (target ∈ (status record).transitions ∧
          IngestionRecord.progress record ≤ progress ∧
          record' = update record target progress error changedAt)) := by
  unfold transitionIngestion at h
  split at h
  · cases h
  split at h
  · split at h
    · cases h
      exact ⟨by omega, .inl ⟨‹_›, rfl⟩⟩
    · cases h
  split at h
  · cases h
  split at h
  · cases h
  · rename_i hclock _ hedge hprogress
    exact ⟨by omega, .inr ⟨not_not.1 hedge, not_lt.1 hprogress,
      (validateIngestionRecord_eq_ok.1 h).1⟩⟩

/-- An edge is taken when neither the clock nor the progress goes backwards. -/
theorem transitionIngestion_of_mem {record : ρ} {target : IngestionStatus} {progress : ℚ}
    {changedAt : ℕ} {error : Option IngestionError} (hclock : updatedAt record ≤ changedAt)
    (hne : target ≠ status record) (hedge : target ∈ (status record).transitions)
    (hprogress : IngestionRecord.progress record ≤ progress)
    (hvalid : ValidIngestionRecord (update record target progress error changedAt)) :
    transitionIngestion record target progress changedAt error =
      .ok (update record target progress error changedAt) := by
  unfold transitionIngestion
  rw [if_neg (Nat.not_lt.2 hclock), if_neg hne, if_neg (not_not.2 hedge),
    if_neg (not_lt.2 hprogress)]
  exact validateIngestionRecord_eq_ok.2 ⟨rfl, hvalid⟩

end Records

/-- Start a new attempt after a retryable failed stage without losing progress. -/
def retryIngestionTask (task : IngestionTask) (changedAt : ℕ) : Except Error IngestionTask :=
  if changedAt < task.updatedAt then
    .error (.conflict "ingestion timestamp cannot move backwards"
      "ingestion_timestamp_regression")
  else if task.status ≠ .failed ∨ ¬ task.error.any (·.retryable) then
    .error (.conflict "only retryable failed tasks can start another attempt"
      "ingestion_retry_not_allowed")
  else
    validateIngestionRecord
      { task with
        status := .running
        attempt := task.attempt + 1
        error := none
        updatedAt := changedAt }

/-- Only a retryable failure is tried again. -/
theorem retryIngestionTask_eq_ok {task task' : IngestionTask} {changedAt : ℕ}
    (h : retryIngestionTask task changedAt = .ok task') :
    task.updatedAt ≤ changedAt ∧ task.status = .failed ∧
      (∃ error, task.error = some error ∧ error.retryable = true) ∧
      task' = { task with
        status := .running
        attempt := task.attempt + 1
        error := none
        updatedAt := changedAt } := by
  unfold retryIngestionTask at h
  split at h
  · cases h
  split at h
  · cases h
  · rename_i hclock hretry
    simp only [ne_eq, not_or, not_not, Option.any_eq_true] at hretry
    obtain ⟨hfailed, error, herror, hretryable⟩ := hretry
    exact ⟨by omega, hfailed, ⟨error, herror, hretryable⟩,
      (validateIngestionRecord_eq_ok.1 h).1⟩

/-- A retryable failure can be tried again. -/
theorem retryIngestionTask_of_failed {task : IngestionTask} {changedAt : ℕ}
    {error : IngestionError} (hvalid : ValidIngestionRecord task)
    (hclock : task.updatedAt ≤ changedAt) (hfailed : task.status = .failed)
    (herror : task.error = some error) (hretryable : error.retryable = true) :
    retryIngestionTask task changedAt =
      .ok { task with
        status := .running
        attempt := task.attempt + 1
        error := none
        updatedAt := changedAt } := by
  have hany : task.error.any (·.retryable) = true := by rw [herror]; exact hretryable
  unfold retryIngestionTask
  rw [if_neg (Nat.not_lt.2 hclock), if_neg (by simp [hfailed, hany])]
  refine validateIngestionRecord_eq_ok.2 ⟨rfl, hvalid.progress_nonneg, hvalid.progress_le_one,
    Nat.le_trans hvalid.createdAt_le hclock, ?_, ?_, fun _ => rfl⟩ <;> exact nofun

/-! ## Outbox events -/

inductive OutboxStatus where
  | pending
  | published
  | cancelled
  | deadLetter
  deriving DecidableEq, Repr

/-- What an event asks for: the ingestion of an envelope, or the cleanup of a document.  Any
other payload comes with the complaint of the model that cannot read it. -/
inductive OutboxPayload where
  | envelope (envelope : IngestionEnvelope)
  | documentId (documentId : String)
  | other (complaint : String)
  deriving DecidableEq, Repr

structure LifecycleOutboxEvent where
  id : String
  tenantId : String
  operationId : String
  aggregateType : String := "document"
  aggregateId : String
  eventType : String
  idempotencyKey : String
  payload : OutboxPayload
  status : OutboxStatus := .pending
  attempts : ℕ := 0
  availableAt : ℕ
  publishedAt : Option ℕ := none
  lastError : Option String := none
  createdAt : ℕ
  updatedAt : ℕ
  deriving DecidableEq, Repr

end Knowledge
end RagflowAgent
