import RagflowAgent.Knowledge.Guarantees.TerminalOperations

/-!
# Deliveries that fail for good

A delivery that fails and is not tried again should leave its job FAILED and the operation of
the job CANCELLED or DEAD_LETTER.  The handler copies the operation with a status that is a plain
text, and the row encoder wants a member of the enumeration.

* `FailureRecorded`: job and operation say that the delivery has failed;
* `transact_failedOperation`: no database takes the copy that the handler writes;
* `not_failureRecorded`: so in no run a failure is ever recorded.
-/

namespace RagflowAgent
namespace Knowledge

open Interleaving Keyed

/-- The stored job of the envelope has failed, and the stored operation of the job is over: it is
cancelled if the failure was the cancellation, and otherwise a dead letter that says why. -/
def FailureRecorded (st : Store) (envelope : IngestionEnvelope) (failure : Error) : Prop :=
  ∃ job operationId operation,
    st.row .ingestionJobs (envelope.tenantId, envelope.jobId) = some job ∧
      job.status = .failed ∧ job.operationId = some operationId ∧
      st.row .lifecycleOperations (envelope.tenantId, operationId) = some operation ∧
      if failure.errorCode = some "lifecycle_cancelled" then
        operation.status = .member .cancelled
      else operation.status = .member .deadLetter ∧ operation.error ≠ none

/-- **The copy that the handler writes is refused** by the row encoder. -/
theorem transact_failedOperation (st : Store) (tenantId : String)
    (operation : LifecycleOperation) (failure : IngestionError) (deliveryAttempt now : ℕ) :
    ∃ e, st.transact [.save tenantId .lifecycleOperations
      (IngestionPipeline.failedOperation operation failure deliveryAttempt now)] = .error e := by
  cases hst : st.transact [.save tenantId .lifecycleOperations
      (IngestionPipeline.failedOperation operation failure deliveryAttempt now)] with
  | error e => exact ⟨e, rfl⟩
  | ok st' =>
    obtain ⟨-, hvalues⟩ := stored_of_save (l := []) hst (by decide) (by simp)
    cases hvalues

/-- What is stored with one of the three statuses records no failure. -/
theorem OperationStatuses.recordsNoFailure {st : Store} (h : OperationStatuses st)
    (envelope : IngestionEnvelope) (failure : Error) : ¬ FailureRecorded st envelope failure := by
  rintro ⟨job, operationId, operation, -, -, -, hrow, hstatus⟩
  have hmem := h _ operation hrow
  simp only [storedStatuses, List.mem_cons, List.not_mem_nil, or_false] at hmem
  split at hstatus
  · rw [hstatus] at hmem
    simp at hmem
  · rw [hstatus.1] at hmem
    simp at hmem

section Runs

variable {τ : Type} [DecidableEq τ]

/-- The three statuses are all that is ever stored. -/
theorem operationStatuses_run (settings : Settings) (commands : τ → Command) {w : World}
    (hw : OperationStatuses w.store) (l : List (τ × Input)) :
    OperationStatuses ((system settings commands w).run exec l).state.store := by
  have hcoordinates : Protocol.Coordinates statusTerms.protocol
      (AtEachCall (τ := τ) fun _ _ _ _ => True) := coordinates_ofRelation
  have hsound : Protocol.Sound statusTerms.protocol (system settings commands w) :=
    statusTerms_obligations.sound (fun _ _ _ => trivial) hw
  have hrespects : ∀ cfg : Config Action Error Unit World τ,
      cfg.Respects exec (AtEachCall fun _ _ _ _ => True) l := by
    induction l with
    | nil => exact fun _ => trivial
    | cons tx l ih => exact fun cfg => ⟨fun _ _ _ _ => trivial, ih _⟩
  exact (hsound.run hcoordinates (hrespects _)).inv

/-- **No failure is recorded.**  Whatever a delivery has raised, and whatever else has happened,
the operation of its job is neither cancelled nor a dead letter when the delivery is over. -/
theorem not_failureRecorded (settings : Settings) (commands : τ → Command) (w : World)
    (hw : OperationStatuses w.store) (l : List (τ × Input)) :
    let cfg := (system settings commands w).run exec l
    ∀ t envelope deliveryAttempt raised, commands t = .handle envelope deliveryAttempt →
      cfg.threads t = .raise raised →
        ∀ failure, ¬ FailureRecorded cfg.state.store envelope failure :=
  fun _ envelope _ _ _ _ failure =>
    (operationStatuses_run settings commands hw l).recordsNoFailure envelope failure

end Runs

/-! ## A document that cannot be parsed -/

namespace Sample

/-- A reparse, and a delivery of its envelope. -/
def reparseAndHandle : ℕ → Command
  | 0 => reparse
  | _ => .handle reparseEnvelope 1

def badDocument : Error := .other "ValueError" "bad document"

def complaint : Error := .missingAttribute "'str' object has no attribute 'value'"

/-- The delivery runs to the call of the parser, which raises, and then to its end. -/
def parseFails : List (ℕ × Input) :=
  reparses 0 ++ List.replicate 11 (1, inputOf "v2") ++
    [(1, { inputOf "v2" with fault := some badDocument })] ++ List.replicate 11 (1, inputOf "v2")

end Sample

/-- The job has failed, but the operation is still pending, and the delivery has raised the
complaint of the encoder. -/
theorem not_failureRecorded_parseFails :
    let cfg := (system Sample.settings Sample.reparseAndHandle Sample.world).run exec
      Sample.parseFails
    (cfg.state.store.row .ingestionJobs ("t", Sample.reparseJobId)).map
        IngestionJob.status = some .failed ∧
      (cfg.state.store.row .lifecycleOperations ("t", "o")).map LifecycleOperation.status =
        some (.member .pending) ∧
      ¬ FailureRecorded cfg.state.store Sample.reparseEnvelope Sample.badDocument := by
  intro cfg
  have hjob : (cfg.state.store.row .ingestionJobs ("t", Sample.reparseJobId)).map
      (fun job => (job.status, job.operationId)) = some (.failed, some "o") := by decide +kernel
  have hoperation : (cfg.state.store.row .lifecycleOperations ("t", "o")).map
      LifecycleOperation.status = some (.member .pending) := by decide +kernel
  refine ⟨?_, hoperation, ?_⟩
  · obtain ⟨job, hrow, hstatus⟩ := Option.map_eq_some_iff.1 hjob
    rw [hrow, Option.map_some, (Prod.mk.inj hstatus).1]
  · rintro ⟨job, operationId, operation, hrow, -, hid, hrow', hstatus⟩
    have hrow₁ : cfg.state.store.row .ingestionJobs ("t", Sample.reparseJobId) = some job := hrow
    rw [hrow₁, Option.map_some, hid] at hjob
    obtain rfl : operationId = "o" := Option.some.inj (Prod.mk.inj (Option.some.inj hjob)).2
    have hrow₂ : cfg.state.store.row .lifecycleOperations ("t", "o") = some operation := hrow'
    rw [hrow₂, Option.map_some] at hoperation
    rw [if_neg (by decide), Option.some.inj hoperation] at hstatus
    cases hstatus.1

/-- What the delivery has raised leaves no record either. -/
theorem not_failureRecorded_complaint :
    ¬ FailureRecorded ((system Sample.settings Sample.reparseAndHandle Sample.world).run exec
      Sample.parseFails).state.store Sample.reparseEnvelope Sample.complaint := by
  have hraised : (((system Sample.settings Sample.reparseAndHandle Sample.world).run exec
      Sample.parseFails).threads 1).raised = some Sample.complaint := by decide +kernel
  exact not_failureRecorded Sample.settings Sample.reparseAndHandle Sample.world
    Sample.operationStatuses_world Sample.parseFails 1 Sample.reparseEnvelope 1 Sample.complaint rfl
    (Prog.raised_eq_some.1 hraised) Sample.complaint

end Knowledge
end RagflowAgent
