import Mathlib.Algebra.Order.Field.Rat
import RagflowAgent.Knowledge.Domain.Failure

/-!
# Lifecycle operations

A `LifecycleOperation` is the database's record of one transition that crosses the
stores: an update, a rollback, a deletion.  It names the document revision it expects
and a fencing token, and carries its status, its progress and the states of its steps.

* `updateStep` records a step, and refuses to take a completed one back;
* `updateProgress` records progress, and refuses to decrease it;
* `requireNotCancelled` is the cooperative cancellation check.

Python does not keep a plain string out of the `status` field of a copied snapshot, and
one service puts one there, so the field is a `StatusValue`: a member of the enumeration
or a text.  Only a member has a `.value` for the SQL column.
-/

namespace RagflowAgent
namespace Knowledge

inductive LifecycleOperationKind where
  | update
  | reparse
  | rebuild
  | activate
  | rollback
  | delete
  | restore
  | purge
  | reconcile
  deriving DecidableEq, Repr

def LifecycleOperationKind.value : LifecycleOperationKind → String
  | update => "update"
  | reparse => "reparse"
  | rebuild => "rebuild"
  | activate => "activate"
  | rollback => "rollback"
  | delete => "delete"
  | restore => "restore"
  | purge => "purge"
  | reconcile => "reconcile"

inductive LifecycleOperationStatus where
  | pending
  | running
  | waitingRetry
  | cancelRequested
  | cancelled
  | succeeded
  | failed
  | deadLetter
  deriving DecidableEq, Repr

namespace LifecycleOperationStatus

def value : LifecycleOperationStatus → String
  | pending => "pending"
  | running => "running"
  | waitingRetry => "waiting_retry"
  | cancelRequested => "cancel_requested"
  | cancelled => "cancelled"
  | succeeded => "succeeded"
  | failed => "failed"
  | deadLetter => "dead_letter"

def all : List LifecycleOperationStatus :=
  [pending, running, waitingRetry, cancelRequested, cancelled, succeeded, failed, deadLetter]

end LifecycleOperationStatus

/-- `TERMINAL_LIFECYCLE_STATUSES`. -/
def terminalLifecycleStatuses : List LifecycleOperationStatus :=
  [.cancelled, .succeeded, .failed, .deadLetter]

/-- What the `status` attribute of an operation can hold. -/
inductive StatusValue where
  | member (status : LifecycleOperationStatus)
  | text (s : String)
  deriving DecidableEq, Repr

namespace StatusValue

/-- `status in {…}`: a text equals the member with that value. -/
def isIn : StatusValue → List LifecycleOperationStatus → Bool
  | member status, l => decide (status ∈ l)
  | text s, l => decide (s ∈ l.map LifecycleOperationStatus.value)

/-- `status.value`, which a plain string does not have. -/
def value : StatusValue → Except Error String
  | member status => .ok status.value
  | text _ => .error (.missingAttribute "'str' object has no attribute 'value'")

/-- Validation turns a text into the member with that value. -/
def validate : StatusValue → Except Error StatusValue
  | member status => .ok (member status)
  | text s =>
    match LifecycleOperationStatus.all.find? fun status => status.value = s with
    | some status => .ok (member status)
    | none => .error (.validation "Input should be a lifecycle operation status")

@[simp] theorem isIn_member (status : LifecycleOperationStatus)
    (l : List LifecycleOperationStatus) :
    (member status).isIn l = true ↔ status ∈ l := by
  simp [isIn]

/-- A value with a SQL column is a member of the enumeration. -/
theorem exists_member_of_value {v : StatusValue} {s : String} (h : v.value = .ok s) :
    ∃ status, v = member status := by
  cases v with
  | member status => exact ⟨status, rfl⟩
  | text s => cases h

end StatusValue

inductive LifecycleStep where
  | register
  | storeObject
  | parse
  | chunk
  | embed
  | writeIndex
  | validate
  | promote
  | activate
  | retirePrevious
  | markInvisible
  | cleanIndex
  | cleanObjects
  | complete
  deriving DecidableEq, Repr

/-- The steps in the order of the enumeration. -/
def LifecycleStep.all : List LifecycleStep :=
  [.register, .storeObject, .parse, .chunk, .embed, .writeIndex, .validate, .promote,
    .activate, .retirePrevious, .markInvisible, .cleanIndex, .cleanObjects, .complete]

inductive LifecycleStepStatus where
  | pending
  | running
  | succeeded
  | failed
  | skipped
  deriving DecidableEq, Repr

structure LifecycleError where
  classification : FailureClass
  code : String
  message : String
  retryable : Bool
  deriving DecidableEq, Repr

structure LifecycleStepState where
  step : LifecycleStep
  status : LifecycleStepStatus := .pending
  attempts : ℕ := 0
  startedAt : Option ℕ := none
  completedAt : Option ℕ := none
  lastError : Option LifecycleError := none
  deriving DecidableEq, Repr

structure LifecycleOperation where
  id : String
  tenantId : String
  knowledgeBaseId : String
  documentId : String
  versionId : String
  kind : LifecycleOperationKind
  idempotencyKey : String
  actorId : String
  reason : String
  requestId : String
  status : StatusValue := .member .pending
  currentStep : LifecycleStep := .register
  attempts : ℕ := 0
  expectedDocumentRevision : ℕ
  fencingToken : ℕ
  previousVersionId : Option String := none
  indexVersionId : Option String := none
  batchId : Option String := none
  metadata : List (String × String) := []
  progress : ℚ := 0
  purgeAfter : Option ℕ := none
  steps : List LifecycleStepState := []
  error : Option LifecycleError := none
  createdAt : ℕ
  updatedAt : ℕ
  deriving DecidableEq

namespace LifecycleOperation

/-- `validate_operation` with the bounds of the fields. -/
def validate (operation : LifecycleOperation) : Except Error LifecycleOperation := do
  let status ← operation.status.validate
  if operation.fencingToken < 1 then
    throw (.validation "Input should be greater than or equal to 1")
  if operation.progress < 0 then
    throw (.validation "Input should be greater than or equal to 0")
  if 1 < operation.progress then
    throw (.validation "Input should be less than or equal to 1")
  if operation.updatedAt < operation.createdAt then
    throw (.validation "updated_at cannot precede created_at")
  if status.isIn [.failed, .deadLetter] ∧ operation.error = none then
    throw (.validation "failed lifecycle operations require an error")
  if ¬ status.isIn [.failed, .deadLetter, .waitingRetry] ∧ operation.error ≠ none then
    throw (.validation "only failed or retry-waiting operations may carry an error")
  return { operation with status := status }

/-- A snapshot its validator accepts unchanged. -/
structure Valid (operation : LifecycleOperation) : Prop where
  status : ∃ status, operation.status = .member status
  fencingToken : 1 ≤ operation.fencingToken
  progress_nonneg : 0 ≤ operation.progress
  progress_le_one : operation.progress ≤ 1
  createdAt_le : operation.createdAt ≤ operation.updatedAt
  error_ne_none : operation.status.isIn [.failed, .deadLetter] = true → operation.error ≠ none
  error_eq_none : operation.status.isIn [.failed, .deadLetter, .waitingRetry] ≠ true →
    operation.error = none

theorem validate_of_valid {operation : LifecycleOperation} (h : operation.Valid) :
    operation.validate = .ok operation := by
  obtain ⟨status, hstatus⟩ := h.status
  have h1 : operation.status.validate = .ok operation.status := by rw [hstatus]; rfl
  have h2 := h.error_ne_none
  have h3 := h.error_eq_none
  simp only [validate, h1, Nat.not_lt.2 h.fencingToken, not_lt.2 h.progress_nonneg,
    not_lt.2 h.progress_le_one, Nat.not_lt.2 h.createdAt_le, bind, Except.bind, if_false,
    pure, Except.pure]
  rw [if_neg fun hh => h2 hh.1 hh.2, if_neg fun hh => hh.2 (h3 hh.1)]

/-- What decoding a stored operation gives back: the row, with its status a member. -/
theorem validate_eq_ok {operation operation' : LifecycleOperation}
    (h : operation.validate = .ok operation') :
    ∃ status, operation.status.validate = .ok status ∧
      operation' = { operation with status := status } := by
  unfold validate at h
  cases hs : operation.status.validate with
  | error e => rw [hs] at h; cases h
  | ok status =>
    refine ⟨status, rfl, ?_⟩
    rw [hs] at h
    simp only [bind, Except.bind, pure, Except.pure, throw, throwThe, MonadExceptOf.throw] at h
    repeat' split at h
    all_goals first | cases h; rfl | cases h

/-- A row whose status is a member is decoded as it is. -/
theorem eq_of_validate_eq_ok {operation operation' : LifecycleOperation}
    {status : LifecycleOperationStatus} (hs : operation.status = .member status)
    (h : operation.validate = .ok operation') : operation' = operation := by
  obtain ⟨status', hs', rfl⟩ := validate_eq_ok h
  rw [hs] at hs'
  cases hs'
  rw [← hs]

end LifecycleOperation

/-! ## Steps, progress, cancellation -/

/-- `{item.step: item for item in steps}.get(step)`. -/
def findStep (steps : List LifecycleStepState) (step : LifecycleStep) :
    Option LifecycleStepState :=
  (steps.filter fun item => item.step = step).getLast?

/-- Persist a monotonic, idempotent step snapshot inside an operation. -/
def updateStep (operation : LifecycleOperation) (step : LifecycleStep)
    (status : LifecycleStepStatus) (changedAt : ℕ) (error : Option LifecycleError := none) :
    Except Error LifecycleOperation :=
  let current := (findStep operation.steps step).getD { step := step }
  if current.status = .succeeded ∧ status ≠ current.status then
    .error (.conflict "completed lifecycle steps cannot regress" "lifecycle_step_regression")
  else
    let attempts := current.attempts + if status = .running then 1 else 0
    let state : LifecycleStepState :=
      { step := step
        status := status
        attempts := attempts
        startedAt := current.startedAt <|> some changedAt
        completedAt := if status ∈ [.succeeded, .skipped] then some changedAt else none
        lastError := error }
    .ok { operation with
      currentStep := step
      steps := LifecycleStep.all.filterMap fun item =>
        if item = step then some state else findStep operation.steps item
      updatedAt := changedAt }

/-- A step that has succeeded can be recorded as succeeded again. -/
theorem updateStep_succeeded (operation : LifecycleOperation) (step : LifecycleStep)
    (changedAt : ℕ) :
    ∃ steps, updateStep operation step .succeeded changedAt =
      .ok { operation with currentStep := step, steps := steps, updatedAt := changedAt } := by
  unfold updateStep
  dsimp only
  rw [if_neg fun h => h.2 h.1.symm]
  exact ⟨_, rfl⟩

/-- Recording a step changes nothing but the steps and the time of the change. -/
theorem updateStep_eq_ok {operation operation' : LifecycleOperation} {step : LifecycleStep}
    {status : LifecycleStepStatus} {changedAt : ℕ} {error : Option LifecycleError}
    (h : updateStep operation step status changedAt error = .ok operation') :
    ∃ steps, operation' =
      { operation with currentStep := step, steps := steps, updatedAt := changedAt } := by
  unfold updateStep at h
  dsimp only at h
  split at h
  · cases h
  · cases h
    exact ⟨_, rfl⟩

def requireNotCancelled (operation : LifecycleOperation) : Except Error Unit :=
  if operation.status.isIn [.cancelRequested, .cancelled] then
    .error (.conflict "lifecycle operation is cancelled" "lifecycle_cancelled")
  else .ok ()

theorem requireNotCancelled_eq_ok {operation : LifecycleOperation} :
    requireNotCancelled operation = .ok () ↔
      operation.status.isIn [.cancelRequested, .cancelled] = false := by
  unfold requireNotCancelled
  split <;> simp_all

def updateProgress (operation : LifecycleOperation) (progress : ℚ) (changedAt : ℕ) :
    Except Error LifecycleOperation :=
  if ¬ (0 ≤ progress ∧ progress ≤ 1) then
    .error (.validation "progress must be between zero and one")
  else if progress < operation.progress then
    .error (.conflict "lifecycle progress cannot decrease" "lifecycle_progress_regression")
  else .ok { operation with progress := progress, updatedAt := changedAt }

/-- **Progress never decreases**, and recording it changes nothing else. -/
theorem updateProgress_eq_ok {operation operation' : LifecycleOperation} {progress : ℚ}
    {changedAt : ℕ} (h : updateProgress operation progress changedAt = .ok operation') :
    operation.progress ≤ progress ∧
      operation' = { operation with progress := progress, updatedAt := changedAt } := by
  unfold updateProgress at h
  split at h
  · cases h
  split at h
  · cases h
  · cases h
    exact ⟨not_lt.1 ‹_›, rfl⟩

theorem updateProgress_of_le {operation : LifecycleOperation} {progress : ℚ} {changedAt : ℕ}
    (hle : operation.progress ≤ progress) (h0 : 0 ≤ progress) (h1 : progress ≤ 1) :
    updateProgress operation progress changedAt =
      .ok { operation with progress := progress, updatedAt := changedAt } := by
  unfold updateProgress
  rw [if_neg (not_not.2 ⟨h0, h1⟩), if_neg (not_lt.2 hle)]

/-- A smaller progress is a conflict. -/
theorem updateProgress_of_lt {operation : LifecycleOperation} {progress : ℚ} {changedAt : ℕ}
    (hlt : progress < operation.progress) (h0 : 0 ≤ progress) (h1 : progress ≤ 1) :
    updateProgress operation progress changedAt =
      .error (.conflict "lifecycle progress cannot decrease"
        "lifecycle_progress_regression") := by
  unfold updateProgress
  rw [if_neg (not_not.2 ⟨h0, h1⟩), if_pos hlt]

end Knowledge
end RagflowAgent
