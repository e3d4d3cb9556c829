import RagflowAgent.Knowledge.Domain.Retry
import RagflowAgent.Knowledge.World

/-!
# The outbox dispatcher

A pass of the dispatcher lists the due events, hands each of them to the queue or to the purger,
and saves what has become of it in a transaction of its own.

* `LifecycleOutboxDispatcher.deliver` is the choice of the handler, `settle` what an event becomes
  when its handler has returned or raised;
* `dispatchFrom` is the loop over the listed events, `dispatchDue` a pass;
* `run` and `handledIn` are the outbox and the handled events after passes one after another.

What the handlers do is an input: `Pass.handlings` tells, for each event of the list, whether its
handler returns and what the clock and the random source show then.  The clock does not run
backwards: `Outbox.clock` is its last reading, and an earlier input reads as that.
-/

namespace RagflowAgent
namespace Worker

open Knowledge Keyed

/-! ## Failures -/

/-- What a handler raises. -/
structure Raised where
  error : Error
  retryAfter : RetryAfter := .missing
  deriving DecidableEq

/-- `classify_failure`.  The hint is looked at only when the status code of a provider is. -/
def classifyRaised (raised : Raised) : Except Error (FailureDecision × Option Hint) :=
  match raised.error with
  | .http _ _ _ =>
    (retryAfterSeconds raised.retryAfter).map fun hint => (classifyFailure raised.error, hint)
  | _ => .ok (classifyFailure raised.error, none)

/-- A provider's error does not carry an integer that is too large for a float. -/
def Raised.Readable (raised : Raised) : Prop :=
  ∀ typeName message statusCode, raised.error = .http typeName message statusCode →
    raised.retryAfter.FitsFloat

/-- **A failure can be classified exactly when its hint can be read.** -/
theorem exists_classifyRaised_iff {raised : Raised} :
    (∃ decision, classifyRaised raised = .ok decision) ↔ raised.Readable := by
  unfold classifyRaised
  split
  · rename_i typeName message statusCode herror
    constructor
    · rintro ⟨decision, h⟩ _ _ _ -
      obtain ⟨hint, hhint, -⟩ := map_eq_ok.1 h
      exact exists_retryAfterSeconds_iff.1 ⟨hint, hhint⟩
    · intro h
      obtain ⟨hint, hhint⟩ := exists_retryAfterSeconds_iff.2 (h _ _ _ herror)
      exact ⟨_, map_eq_ok.2 ⟨hint, hhint, rfl⟩⟩
  · rename_i hother
    constructor
    · exact fun _ _ _ _ h => absurd h (hother _ _ _)
    · exact fun _ => ⟨_, rfl⟩

/-! ## One event -/

structure LifecycleOutboxDispatcher where
  settings : LifecycleSettings
  /-- Whether a document purger is configured. -/
  documentPurger : Bool := true

namespace LifecycleOutboxDispatcher

def policy (dispatcher : LifecycleOutboxDispatcher) : RetryPolicy :=
  dispatcher.settings.retryPolicy

/-- The handler of an event.  `outcome` is what the queue or the purger does if it is called. -/
def deliver (dispatcher : LifecycleOutboxDispatcher) (event : LifecycleOutboxEvent)
    (outcome : Except Raised Unit) : Except Raised Unit :=
  if event.eventType = "ingestion.requested" then
    match event.payload with
    | .envelope _ => outcome
    | .documentId _ => .error { error := .other "KeyError" "'envelope'" }
    | .other complaint => .error { error := .validation complaint }
  else if event.eventType = "document.cleanup.requested" then
    if dispatcher.documentPurger = false then
      .error { error := .other "RuntimeError" "document purger is not configured" }
    else
      match event.payload with
      | .documentId documentId =>
        if documentId = "" then
          .error { error := .validation "cleanup outbox event has no document_id" }
        else outcome
      | _ => .error { error := .validation "cleanup outbox event has no document_id" }
  else
    .error { error := .validation ("unsupported lifecycle event type: " ++ event.eventType) }

/-- What an event becomes when its handler is done. -/
def settle (dispatcher : LifecycleOutboxDispatcher) (event : LifecycleOutboxEvent)
    (delivered : Except Raised Unit) (now : ℕ) (random : Draw) :
    Except Error LifecycleOutboxEvent :=
  match delivered with
  | .ok () => .ok { event with
      status := .published
      attempts := event.attempts + 1
      publishedAt := some now
      lastError := none
      updatedAt := now }
  | .error raised => do
    let (decision, retryAfter) ← classifyRaised raised
    let attempt := event.attempts + 1
    if mayRetry decision attempt dispatcher.policy then
      let delay := dispatcher.policy.delaySeconds attempt retryAfter random
      .ok { event with
        attempts := attempt
        availableAt := now + (timedelta delay).toNat
        lastError := some raised.error.message
        updatedAt := now }
    else
      .ok { event with
        status := .deadLetter
        attempts := attempt
        lastError := some raised.error.message
        updatedAt := now }

end LifecycleOutboxDispatcher

/-! ## A pass -/

/-- The stored events, and the last reading of the clock. -/
structure Outbox where
  events : Table LifecycleOutboxEvent
  clock : ℕ := 0

namespace Outbox

/-- The event with a tenant and an id. -/
def row (outbox : Outbox) (k : String × String) : Option LifecycleOutboxEvent :=
  outbox.events.get k

/-- `list_due`. -/
def listDue (events : Table LifecycleOutboxEvent) (tenantId : String) (now limit : ℕ) :
    List LifecycleOutboxEvent :=
  List.take limit <| Query.orderBy LifecycleOutboxEvent.availableAt <|
    events.rows.filter fun event =>
      event.tenantId = tenantId ∧ event.status = .pending ∧ event.availableAt ≤ now

/-- The query of the knowledge store lists the same events. -/
theorem answer_listDue (w : World) (tenantId : String) (now limit : ℕ) :
    (Query.listDue tenantId now limit).answer w =
      .ok (listDue (w.store.table .lifecycleOutbox) tenantId now limit) := by
  have hdecode : ∀ rows : List LifecycleOutboxEvent, Repository.decode rows = .ok rows := by
    intro rows
    calc Repository.decode rows = rows.mapM fun event => pure (id event) := rfl
      _ = pure (rows.map id) := List.mapM_pure
      _ = .ok rows := by rw [List.map_id]; rfl
  exact hdecode _

end Outbox

/-- What happens while an event is handled. -/
structure Handling where
  outcome : Except Raised Unit
  now : ℕ := 0
  random : Draw := ⟨0, le_rfl, one_pos⟩

structure Pass where
  tenantId : String
  limit : ℕ := 100
  /-- The clock when the due events are listed. -/
  now : ℕ
  handlings : ℕ → Handling

/-- An event that was handled, and what came of its handler. -/
structure Handled where
  event : LifecycleOutboxEvent
  delivered : Except Raised Unit

/-- What a pass leaves: the outbox, the events it handled, and how many of them it has published
unless it raised. -/
structure Dispatch where
  outbox : Outbox
  handled : List Handled
  published : Except Error ℕ

namespace LifecycleOutboxDispatcher

/-- The loop over the listed events; the next of them is the one with number `i`. -/
def dispatchFrom (dispatcher : LifecycleOutboxDispatcher) (pass : Pass) :
    ℕ → List LifecycleOutboxEvent → Outbox → Dispatch
  | _, [], outbox => ⟨outbox, [], .ok 0⟩
  | i, event :: events, outbox =>
    let handling := pass.handlings i
    let delivered := dispatcher.deliver event handling.outcome
    let now := max outbox.clock handling.now
    match dispatcher.settle event delivered now handling.random with
    | .error raised => ⟨outbox, [⟨event, delivered⟩], .error raised⟩
    | .ok updated =>
      match Repository.save outbox.events pass.tenantId updated with
      | .error raised => ⟨{ outbox with clock := now }, [⟨event, delivered⟩], .error raised⟩
      | .ok stored =>
        let rest := dispatcher.dispatchFrom pass (i + 1) events ⟨stored, now⟩
        { rest with
          handled := ⟨event, delivered⟩ :: rest.handled
          published := rest.published.map (· + if delivered.isOk then 1 else 0) }

/-- `dispatch_due`. -/
def dispatchDue (dispatcher : LifecycleOutboxDispatcher) (pass : Pass) (outbox : Outbox) :
    Dispatch :=
  let now := max outbox.clock pass.now
  dispatcher.dispatchFrom pass 0 (Outbox.listDue outbox.events pass.tenantId now pass.limit)
    { outbox with clock := now }

/-- The outbox after passes one after another. -/
def run (dispatcher : LifecycleOutboxDispatcher) (outbox : Outbox) (passes : List Pass) : Outbox :=
  passes.foldl (fun outbox pass => (dispatcher.dispatchDue pass outbox).outbox) outbox

/-- The events that are handled in passes one after another. -/
def handledIn (dispatcher : LifecycleOutboxDispatcher) : Outbox → List Pass → List Handled
  | _, [] => []
  | outbox, pass :: passes =>
    let dispatch := dispatcher.dispatchDue pass outbox
    dispatch.handled ++ dispatcher.handledIn dispatch.outbox passes

@[simp] theorem run_nil (dispatcher : LifecycleOutboxDispatcher) (outbox : Outbox) :
    dispatcher.run outbox [] = outbox := rfl

@[simp] theorem run_cons (dispatcher : LifecycleOutboxDispatcher) (outbox : Outbox) (pass : Pass)
    (passes : List Pass) : dispatcher.run outbox (pass :: passes) =
      dispatcher.run (dispatcher.dispatchDue pass outbox).outbox passes := rfl

theorem run_append (dispatcher : LifecycleOutboxDispatcher) (outbox : Outbox)
    (earlier later : List Pass) : dispatcher.run outbox (earlier ++ later) =
      dispatcher.run (dispatcher.run outbox earlier) later :=
  List.foldl_append

end LifecycleOutboxDispatcher

end Worker
end RagflowAgent
