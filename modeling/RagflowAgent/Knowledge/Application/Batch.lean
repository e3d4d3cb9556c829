import RagflowAgent.Interleaving.Faults
import RagflowAgent.Interleaving.Program
import RagflowAgent.Knowledge.Domain.Authorization
import RagflowAgent.Knowledge.Store

/-!
# Batches of lifecycle operations

A `LifecycleBatch` names the operations that were asked for together, its children.
`LifecycleBatchService.create` stores one, and `LifecycleBatchService.refresh` reads the children
one after another and stores what they have come to.

* `OperationIds` is the field with the children: there is at least one, and none occurs twice;
* `batchStatus` and `LifecycleBatch.refreshed` are the summary;
* `BatchCall` are the calls of the service and `execBatch` answers them.

The children belong to other services.  What these have made of them until a call is answered is
part of the input of the call, a `Moment`.
-/

namespace RagflowAgent
namespace Knowledge

open Interleaving Keyed

/-! ## Batches -/

inductive LifecycleBatchStatus where
  | pending
  | running
  | succeeded
  | partialSuccess
  | failed
  | cancelRequested
  | cancelled
  deriving DecidableEq, Repr

/-- The field `operation_ids`. -/
structure OperationIds where
  ids : List String
  ne_nil : ids ≠ []
  length_le : ids.length ≤ 1000
  nodup : ids.Nodup
  deriving DecidableEq

namespace OperationIds

/-- Validation of the field. -/
def ofList (ids : List String) : Except Error OperationIds := do
  let ids ← ids.mapM nonEmptyText
  if hempty : ids = [] then
    throw (.validation "Tuple should have at least 1 item after validation, not 0")
  else if hlength : ids.length ≤ 1000 then
    if hnodup : ids.Nodup then return ⟨ids, hempty, hlength, hnodup⟩
    else throw (.validation "batch operation ids must be unique")
  else throw (.validation "Tuple should have at most 1000 items after validation")

theorem length_pos (operationIds : OperationIds) : 0 < operationIds.ids.length :=
  List.length_pos_iff.2 operationIds.ne_nil

end OperationIds

structure LifecycleBatch where
  id : String
  tenantId : String
  knowledgeBaseId : String
  kind : LifecycleOperationKind
  requestedBy : String
  idempotencyKey : String
  status : LifecycleBatchStatus := .pending
  operationIds : OperationIds
  concurrency : ℤ := 2
  succeeded : ℕ := 0
  failed : ℕ := 0
  cancelled : ℕ := 0
  createdAt : ℕ
  updatedAt : ℕ
  deriving DecidableEq

namespace LifecycleBatch

/-- The bounds of `concurrency`, and `counts_fit_batch`. -/
def validate (batch : LifecycleBatch) : Except Error LifecycleBatch :=
  if batch.concurrency < 1 then
    .error (.validation "Input should be greater than or equal to 1")
  else if 100 < batch.concurrency then
    .error (.validation "Input should be less than or equal to 100")
  else if batch.operationIds.ids.length < batch.succeeded + batch.failed + batch.cancelled then
    .error (.validation "batch terminal counts exceed operation count")
  else .ok batch

/-- Decoding gives the row back. -/
theorem eq_of_validate_eq_ok {batch batch' : LifecycleBatch} (h : batch.validate = .ok batch') :
    batch' = batch := by
  unfold validate at h
  split at h
  · cases h
  split at h
  · cases h
  split at h
  · cases h
  · cases h
    rfl

/-- A new batch: the texts are stripped, and the validators run. -/
def ofFields (id tenantId knowledgeBaseId : String) (kind : LifecycleOperationKind)
    (requestedBy idempotencyKey : String) (operationIds : List String) (concurrency : ℤ)
    (now : ℕ) : Except Error LifecycleBatch := do
  let id ← nonEmptyText id
  let tenantId ← nonEmptyText tenantId
  let knowledgeBaseId ← nonEmptyText knowledgeBaseId
  let requestedBy ← nonEmptyText requestedBy
  let idempotencyKey ← nonEmptyText idempotencyKey
  let operationIds ← OperationIds.ofList operationIds
  validate
    { id := id
      tenantId := tenantId
      knowledgeBaseId := knowledgeBaseId
      kind := kind
      requestedBy := requestedBy
      idempotencyKey := idempotencyKey
      operationIds := operationIds
      concurrency := concurrency
      createdAt := now
      updatedAt := now }

end LifecycleBatch

instance : Entity LifecycleBatch where
  key e := (e.tenantId, e.id)
  validate := LifecycleBatch.validate
  rowValues _ := .ok ()
  idempotencyKey e := some e.idempotencyKey

@[simp] theorem key_lifecycleBatch (e : LifecycleBatch) : key e = (e.tenantId, e.id) := rfl

/-! ## The summary -/

/-- The status of a batch of `total` children of which so many have ended. -/
def batchStatus (total succeeded failed cancelled : ℕ) : LifecycleBatchStatus :=
  let terminal := succeeded + failed + cancelled
  if terminal < total then .running
  else if cancelled = total then .cancelled
  else if succeeded = total then .succeeded
  else if succeeded ≠ 0 then .partialSuccess
  else .failed

/-- What `refresh` stores when these children were found. -/
def LifecycleBatch.refreshed (batch : LifecycleBatch) (operations : List LifecycleOperation)
    (now : ℕ) : LifecycleBatch :=
  let succeeded := operations.countP fun item => decide (item.status = .member .succeeded)
  let failed := operations.countP fun item => item.status.isIn [.failed, .deadLetter]
  let cancelled := operations.countP fun item => decide (item.status = .member .cancelled)
  { batch with
    status := batchStatus batch.operationIds.ids.length succeeded failed cancelled
    succeeded := succeeded
    failed := failed
    cancelled := cancelled
    updatedAt := now }

@[simp] theorem LifecycleBatch.key_refreshed (batch : LifecycleBatch)
    (operations : List LifecycleOperation) (now : ℕ) :
    key (batch.refreshed operations now) = key batch := rfl

@[simp] theorem LifecycleBatch.operationIds_refreshed (batch : LifecycleBatch)
    (operations : List LifecycleOperation) (now : ℕ) :
    (batch.refreshed operations now).operationIds = batch.operationIds := rfl

/-! ## The calls of the service -/

/-- A write is committed at once: nothing else is written in its transaction. -/
inductive BatchCall : Type → Type 1 where
  | getBatch (tenantId resourceId : String) : BatchCall (Option LifecycleBatch)
  | getByIdempotencyKey (tenantId idempotencyKey : String) : BatchCall (Option LifecycleBatch)
  | getOperation (tenantId resourceId : String) : BatchCall (Option LifecycleOperation)
  | newId : BatchCall String
  | now : BatchCall ℕ
  | add (tenantId : String) (entity : LifecycleBatch) : BatchCall Unit
  | save (tenantId : String) (entity : LifecycleBatch) : BatchCall Unit

/-- The two tables that the service uses. -/
structure BatchStore where
  operations : Table LifecycleOperation
  batches : Table LifecycleBatch

/-- How things stand when a call is answered. -/
structure Moment where
  operations : Table LifecycleOperation
  now : ℕ := 0
  newId : String := ""
  faults : Faults Error := {}

namespace BatchCall

/-- The calls that leave the process. -/
def external : ∀ ⦃β : Type⦄, BatchCall β → Bool
  | _, newId => false
  | _, now => false
  | _, _ => true

def effect : ∀ ⦃β : Type⦄, BatchCall β → Moment → BatchStore → Except Error (β × BatchStore)
  | _, getBatch tenantId resourceId, _, w =>
    (Repository.get w.batches tenantId resourceId).map (·, w)
  | _, getByIdempotencyKey tenantId idempotencyKey, _, w =>
    match w.batches.rows.find? fun row =>
      row.tenantId = tenantId ∧ row.idempotencyKey = idempotencyKey with
    | none => .ok (none, w)
    | some row => row.validate.map (some ·, w)
  | _, getOperation tenantId resourceId, _, w =>
    (Repository.get w.operations tenantId resourceId).map (·, w)
  | _, newId, x, w => .ok (x.newId, w)
  | _, now, x, w => .ok (x.now, w)
  | _, add tenantId entity, _, w =>
    (Repository.add w.batches tenantId entity).map fun T => ((), { w with batches := T })
  | _, save tenantId entity, _, w =>
    (Repository.save w.batches tenantId entity).map fun T => ((), { w with batches := T })

end BatchCall

/-- One call, after the others have worked on the operations. -/
def execBatch ⦃β : Type⦄ (c : BatchCall β) (x : Moment) (w : BatchStore) :
    Except Error β × BatchStore :=
  execFaulty BatchCall.external Moment.faults BatchCall.effect c x
    { w with operations := x.operations }

/-! ## The service -/

namespace LifecycleBatchService

open Prog

def create (maxConcurrency : ℤ) (context : AuthorizationContext) (knowledgeBaseId : String)
    (kind : LifecycleOperationKind) (operationIds : List String) (idempotencyKey : String)
    (concurrency : Option ℤ) : Prog BatchCall Error LifecycleBatch := do
  let duplicate ← perform (.getByIdempotencyKey context.tenantId idempotencyKey)
  let requestedConcurrency := min (concurrency.getD maxConcurrency) maxConcurrency
  match duplicate with
  | some duplicate =>
    raiseWhen (duplicate.requestedBy ≠ context.actorId ∨
        duplicate.knowledgeBaseId ≠ knowledgeBaseId ∨ duplicate.kind ≠ kind ∨
        duplicate.operationIds.ids ≠ operationIds ∨
        duplicate.concurrency ≠ requestedConcurrency)
      (.conflict "idempotency key was already used for a different batch"
        "lifecycle_idempotency_conflict")
    return duplicate
  | none =>
    forEach operationIds fun operationId => do
      let operation ← perform (.getOperation context.tenantId operationId)
      let fits := operation.any fun operation =>
        decide (operation.knowledgeBaseId = knowledgeBaseId ∧ operation.kind = kind ∧
          operation.actorId = context.actorId)
      raiseWhen (fits = false)
        (.conflict "batch child crosses tenant or knowledge-base scope" "batch_scope_mismatch")
    let now ← perform .now
    let id ← perform .newId
    let batch ← ofExcept (LifecycleBatch.ofFields id context.tenantId knowledgeBaseId kind
      context.actorId idempotencyKey operationIds requestedConcurrency now)
    perform (.add context.tenantId batch)
    return batch

/-- The children that are found. -/
def loadOperations (tenantId : String) :
    List String → Prog BatchCall Error (List LifecycleOperation)
  | [] => ret []
  | operationId :: operationIds =>
    (perform (.getOperation tenantId operationId)).bind fun operation =>
      (loadOperations tenantId operationIds).bind fun operations =>
        ret (operation.toList ++ operations)

def refresh (context : AuthorizationContext) (batchId : String) :
    Prog BatchCall Error LifecycleBatch := do
  let batch ← perform (.getBatch context.tenantId batchId)
  match batch with
  | none => raise (.notFound "lifecycle_batch" batchId)
  | some batch =>
    raiseWhen (batch.requestedBy ≠ context.actorId)
      (.authorization "lifecycle_batch_owner_required")
    let operations ← loadOperations context.tenantId batch.operationIds.ids
    let now ← perform .now
    let refreshed := batch.refreshed operations now
    perform (.save context.tenantId refreshed)
    return refreshed

end LifecycleBatchService

end Knowledge
end RagflowAgent
