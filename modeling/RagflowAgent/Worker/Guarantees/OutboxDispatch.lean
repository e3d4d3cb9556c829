import RagflowAgent.Knowledge.Transactions
import RagflowAgent.Worker.Outbox

/-!
# The discipline of the outbox dispatcher

Passes of one dispatcher run one after another over an outbox that nothing else writes.  Each of
them handles the due events in turn, whatever becomes of the others, and counts what it handles.

* `Settled` is what handling an event makes of it, `settle_settled` the lemma about one event;
* `dispatchFrom_settles` is the lemma about the loop, `advanced_dispatchDue` about a pass and
  `advanced_run` about passes one after another;
* `Discipline` is what holds along all passes, and `discipline_iff` the theorem.

The condition is `Readable`: when a provider's error carries an integer hint beyond the range of
floats, reading the hint raises in the middle of the pass, and the events after it are left.
-/

namespace RagflowAgent
namespace Worker

open Knowledge Keyed

/-- The larger of the two limits of a policy. -/
def attemptLimit (settings : LifecycleSettings) : ℕ :=
  max settings.maxAttempts settings.concurrencyAttempts

/-! ## One event -/

/-- What an event becomes when it is handled. -/
structure Settled (settings : LifecycleSettings) (handled : Handled)
    (updated : LifecycleOutboxEvent) : Prop where
  key_eq : key updated = key handled.event
  attempts : updated.attempts = handled.event.attempts + 1
  available : handled.event.availableAt ≤ updated.availableAt
  published : updated.status = .published → handled.delivered = .ok ()
  within : updated.status = .pending → updated.attempts < attemptLimit settings

section Event

variable {dispatcher : LifecycleOutboxDispatcher} {event updated : LifecycleOutboxEvent}
  {delivered : Except Raised Unit} {now : ℕ} {random : Draw}

/-- **Handling a due event** counts it, does not make it due earlier, and publishes it only when
its handler has returned. -/
theorem settle_settled (hpending : event.status = .pending) (hdue : event.availableAt ≤ now)
    (h : dispatcher.settle event delivered now random = .ok updated) :
    Settled dispatcher.settings ⟨event, delivered⟩ updated := by
  unfold LifecycleOutboxDispatcher.settle at h
  split at h
  · cases h
    exact ⟨rfl, rfl, le_rfl, fun _ => rfl, nofun⟩
  · rename_i raised
    obtain ⟨⟨decision, retryAfter⟩, -, h⟩ := bind_eq_ok.1 h
    by_cases hretry : mayRetry decision (event.attempts + 1) dispatcher.policy = true
    · have hlater := (if_pos hretry).symm.trans h
      cases hlater
      refine ⟨rfl, rfl, le_trans hdue (Nat.le_add_right now _), fun hstatus => ?_, fun _ => ?_⟩
      · cases hpending.symm.trans hstatus
      · exact lt_of_mayRetry hretry
    · have hdead := (if_neg hretry).symm.trans h
      cases hdead
      exact ⟨rfl, rfl, le_rfl, nofun, nofun⟩

/-- **An event is settled exactly when the failure of its handler can be classified.** -/
theorem exists_settle_iff :
    (∃ updated, dispatcher.settle event delivered now random = .ok updated) ↔
      ∀ raised, delivered = .error raised → raised.Readable := by
  unfold LifecycleOutboxDispatcher.settle
  cases delivered with
  | ok =>
    refine ⟨fun _ raised heq => ?_, fun _ => ⟨_, rfl⟩⟩
    cases heq
  | error raised =>
    constructor
    · rintro ⟨updated, h⟩ raised' heq
      cases heq
      obtain ⟨decision, hdecision, -⟩ := bind_eq_ok.1 h
      exact exists_classifyRaised_iff.1 ⟨decision, hdecision⟩
    · intro hreadable
      obtain ⟨decision, hdecision⟩ := exists_classifyRaised_iff.2 (hreadable raised rfl)
      simp only [hdecision]
      by_cases hretry : mayRetry decision.1 (event.attempts + 1) dispatcher.policy = true
      · exact ⟨_, if_pos hretry⟩
      · exact ⟨_, if_neg hretry⟩

/-- Of what a handler raises only the errors of the queue and of the purger have a hint. -/
theorem readable_of_deliver {outcome : Except Raised Unit} {raised : Raised}
    (houtcome : outcome = .error raised → raised.Readable)
    (h : dispatcher.deliver event outcome = .error raised) : raised.Readable := by
  have hother : ∀ typeName message : String,
      (.error { error := .other typeName message } : Except Raised Unit) = .error raised →
        raised.Readable := by
    intro typeName message heq _ _ _ herror
    cases heq
    cases herror
  have hvalidation : ∀ message : String,
      (.error { error := .validation message } : Except Raised Unit) = .error raised →
        raised.Readable := by
    intro message heq _ _ _ herror
    cases heq
    cases herror
  unfold LifecycleOutboxDispatcher.deliver at h
  split at h
  · split at h
    · exact houtcome h
    · exact hother _ _ h
    · exact hvalidation _ h
  split at h
  · split at h
    · exact hother _ _ h
    split at h
    · split at h
      · exact hvalidation _ h
      · exact houtcome h
    · exact hvalidation _ h
  · exact hvalidation _ h

end Event

/-! ## The loop -/

section Loop

variable {dispatcher : LifecycleOutboxDispatcher} {pass : Pass}

/-- The events that the loop still has to handle are stored, and due. -/
structure Awaited (pass : Pass) (outbox : Outbox) (events : List LifecycleOutboxEvent) :
    Prop where
  nodup : (events.map key).Nodup
  stored : ∀ event ∈ events, outbox.row (key event) = some event
  tenant : ∀ event ∈ events, event.tenantId = pass.tenantId
  pending : ∀ event ∈ events, event.status = .pending
  due : ∀ event ∈ events, event.availableAt ≤ outbox.clock

/-- What the loop has done when it is over. -/
structure Settles (settings : LifecycleSettings) (outbox : Outbox)
    (events : List LifecycleOutboxEvent) (dispatch : Dispatch) : Prop where
  returns : ∃ n, dispatch.published = .ok n
  handles : dispatch.handled.map Handled.event = events
  clock : outbox.clock ≤ dispatch.outbox.clock
  frame : ∀ k ∉ events.map key, dispatch.outbox.row k = outbox.row k
  settles : ∀ handled ∈ dispatch.handled, ∃ updated,
    dispatch.outbox.row (key handled.event) = some updated ∧ Settled settings handled updated

/-- No handler that the loop calls raises an error whose hint cannot be read. -/
def ReadableFrom (dispatcher : LifecycleOutboxDispatcher) (pass : Pass) :
    ℕ → List LifecycleOutboxEvent → Prop
  | _, [] => True
  | i, event :: events =>
    (∀ raised, dispatcher.deliver event (pass.handlings i).outcome = .error raised →
      raised.Readable) ∧ ReadableFrom dispatcher pass (i + 1) events

theorem readableFrom_of_outcomes
    (h : ∀ i raised, (pass.handlings i).outcome = .error raised → raised.Readable)
    (events : List LifecycleOutboxEvent) : ∀ i, ReadableFrom dispatcher pass i events := by
  induction events with
  | nil => exact fun _ => trivial
  | cons event events ih =>
    exact fun i => ⟨fun raised hraised => readable_of_deliver (h i raised) hraised, ih (i + 1)⟩

/-- **The loop settles every event it is given**, one after another. -/
theorem dispatchFrom_settles (events : List LifecycleOutboxEvent) :
    ∀ (i : ℕ) (outbox : Outbox), ReadableFrom dispatcher pass i events →
      Awaited pass outbox events →
        Settles dispatcher.settings outbox events
          (dispatcher.dispatchFrom pass i events outbox) := by
  induction events with
  | nil =>
    intro i outbox _ _
    exact ⟨⟨0, rfl⟩, rfl, le_rfl, fun _ _ => rfl, fun _ h => absurd h List.not_mem_nil⟩
  | cons event events ih =>
    intro i outbox hreadable h
    have hmem : event ∈ event :: events := List.mem_cons_self
    rw [LifecycleOutboxDispatcher.dispatchFrom]
    set handling := pass.handlings i
    set delivered := dispatcher.deliver event handling.outcome
    set now := max outbox.clock handling.now
    have hclock : outbox.clock ≤ now := le_max_left _ _
    obtain ⟨updated, hupdated⟩ :
        ∃ updated, dispatcher.settle event delivered now handling.random = .ok updated :=
      exists_settle_iff.2 hreadable.1
    have hsettled : Settled dispatcher.settings ⟨event, delivered⟩ updated :=
      settle_settled (h.pending event hmem) ((h.due event hmem).trans hclock) hupdated
    have hkey : key updated = key event := hsettled.key_eq
    have hsave : Repository.save outbox.events pass.tenantId updated =
        .ok (outbox.events.replace updated) := by
      have htenant : ¬ (key updated).1 ≠ pass.tenantId := by
        rw [hkey]
        exact not_not.2 (h.tenant event hmem)
      have hrow : outbox.events.get (key updated) = some event := by
        rw [hkey]
        exact h.stored event hmem
      rw [Repository.save, if_neg htenant, hrow]
      rfl
    rw [hupdated]
    simp only
    rw [hsave]
    simp only
    have hnodup := List.nodup_cons.1 (List.map_cons ▸ h.nodup)
    have hget : ∀ k, (outbox.events.replace updated).get k =
        if k = key event then some updated else outbox.row k := by
      intro k
      rw [← hkey]
      exact Table.get_replace (hkey ▸ h.stored event hmem) k
    have hawaited : Awaited pass ⟨outbox.events.replace updated, now⟩ events := by
      refine ⟨hnodup.2, fun event' hevent' => ?_,
        fun event' hevent' => h.tenant event' (List.mem_cons_of_mem event hevent'),
        fun event' hevent' => h.pending event' (List.mem_cons_of_mem event hevent'),
        fun event' hevent' => (h.due event' (List.mem_cons_of_mem event hevent')).trans hclock⟩
      have hne : key event' ≠ key event := by
        intro heq
        exact hnodup.1 (heq ▸ List.mem_map_of_mem hevent')
      exact (hget _).trans ((if_neg hne).trans
        (h.stored event' (List.mem_cons_of_mem event hevent')))
    obtain ⟨⟨n, hn⟩, hhandles, hlater, hframe, hsettles⟩ := ih (i + 1) _ hreadable.2 hawaited
    refine ⟨⟨_, by rw [hn]; rfl⟩, ?_, hclock.trans hlater, fun k hk => ?_, ?_⟩
    · rw [List.map_cons, hhandles]
    · rw [List.map_cons, List.mem_cons, not_or] at hk
      exact (hframe k hk.2).trans ((hget k).trans (if_neg hk.1))
    · intro handled hhandled
      rcases List.mem_cons.1 hhandled with rfl | hhandled
      · exact ⟨updated, (hframe _ hnodup.1).trans ((hget _).trans (if_pos rfl)), hsettled⟩
      · exact hsettles handled hhandled

/-- A loop that returns has met no failure that it could not classify. -/
theorem readableFrom_of_dispatchFrom (events : List LifecycleOutboxEvent) :
    ∀ (i : ℕ) (outbox : Outbox) {n : ℕ},
      (dispatcher.dispatchFrom pass i events outbox).published = .ok n →
        ReadableFrom dispatcher pass i events := by
  induction events with
  | nil => exact fun _ _ _ _ => trivial
  | cons event events ih =>
    intro i outbox n h
    rw [LifecycleOutboxDispatcher.dispatchFrom] at h
    simp only at h
    split at h
    · cases h
    rename_i updated hupdated
    split at h
    · cases h
    obtain ⟨m, hm, -⟩ := map_eq_ok.1 h
    exact ⟨exists_settle_iff.1 ⟨updated, hupdated⟩, ih (i + 1) _ hm⟩

end Loop

/-! ## A pass -/

section Pass

variable (dispatcher : LifecycleOutboxDispatcher) {pass : Pass} {outbox : Outbox}

/-- The events that a pass lists. -/
def Pass.due (pass : Pass) (outbox : Outbox) : List LifecycleOutboxEvent :=
  Outbox.listDue outbox.events pass.tenantId (max outbox.clock pass.now) pass.limit

/-- The listed events are what the loop expects. -/
theorem awaited_due :
    Awaited pass { outbox with clock := max outbox.clock pass.now } (pass.due outbox) := by
  have hmem : ∀ event ∈ pass.due outbox, event ∈ outbox.events.rows ∧
      event.tenantId = pass.tenantId ∧ event.status = .pending ∧
        event.availableAt ≤ max outbox.clock pass.now := by
    intro event hevent
    have hrow := mem_of_mem_orderBy (List.mem_of_mem_take hevent)
    exact ⟨hrow.1, of_decide_eq_true hrow.2⟩
  have hnodup : ((pass.due outbox).map key).Nodup := by
    have hfilter := outbox.events.nodup.sublist ((List.filter_sublist (p := fun event =>
      decide (event.tenantId = pass.tenantId ∧ event.status = .pending ∧
        event.availableAt ≤ max outbox.clock pass.now))).map key)
    have hsorted := ((List.perm_insertionSort (fun event event' : LifecycleOutboxEvent =>
      event.availableAt ≤ event'.availableAt) _).map key).nodup_iff.2 hfilter
    exact hsorted.sublist ((List.take_sublist pass.limit _).map key)
  exact ⟨hnodup, fun event h => Table.mem_rows_iff.1 (hmem event h).1,
    fun event h => (hmem event h).2.1, fun event h => (hmem event h).2.2.1,
    fun event h => (hmem event h).2.2.2⟩

/-- No handler of the pass raises an error whose hint cannot be read. -/
def Readable (outbox : Outbox) (pass : Pass) : Prop :=
  ReadableFrom dispatcher pass 0 (pass.due outbox)

/-- The pass settles every event that it lists. -/
theorem dispatchDue_settles (hreadable : Readable dispatcher outbox pass) :
    Settles dispatcher.settings { outbox with clock := max outbox.clock pass.now }
      (pass.due outbox) (dispatcher.dispatchDue pass outbox) :=
  dispatchFrom_settles _ 0 _ hreadable awaited_due

/-- How often the event with key `k` is handled. -/
def timesHandled (k : String × String) (handled : List Handled) : ℕ :=
  (handled.map fun h => key h.event).count k

theorem timesHandled_append (k : String × String) (handled handled' : List Handled) :
    timesHandled k (handled ++ handled') = timesHandled k handled + timesHandled k handled' := by
  rw [timesHandled, List.map_append, List.count_append]
  rfl

/-- The attempts of an event are within the limits, and one that is pending has some left. -/
structure WithinLimit (settings : LifecycleSettings) (event : LifecycleOutboxEvent) : Prop where
  attempts_le : event.attempts ≤ attemptLimit settings
  pending_lt : event.status = .pending → event.attempts < attemptLimit settings

/-- What an event has become after it was handled `n` times. -/
structure Advanced (settings : LifecycleSettings) (event updated : LifecycleOutboxEvent) (n : ℕ) :
    Prop where
  attempts : updated.attempts = event.attempts + n
  available : event.availableAt ≤ updated.availableAt
  closed : event.status ≠ .pending → n = 0 ∧ updated = event
  within : WithinLimit settings event → WithinLimit settings updated

theorem Advanced.refl (settings : LifecycleSettings) (event : LifecycleOutboxEvent) :
    Advanced settings event event 0 :=
  ⟨rfl, le_rfl, fun _ => ⟨rfl, rfl⟩, id⟩

theorem Advanced.trans {settings : LifecycleSettings} {e₁ e₂ e₃ : LifecycleOutboxEvent} {m n : ℕ}
    (h : Advanced settings e₁ e₂ m) (h' : Advanced settings e₂ e₃ n) :
    Advanced settings e₁ e₃ (m + n) := by
  refine ⟨?_, h.available.trans h'.available, fun hstatus => ?_, h'.within ∘ h.within⟩
  · rw [h'.attempts, h.attempts, Nat.add_assoc]
  · obtain ⟨rfl, rfl⟩ := h.closed hstatus
    obtain ⟨rfl, rfl⟩ := h'.closed hstatus
    exact ⟨rfl, rfl⟩

/-- Handling a pending event advances it by one attempt. -/
theorem Settled.advanced {settings : LifecycleSettings} {handled : Handled}
    {updated : LifecycleOutboxEvent} (h : Settled settings handled updated) (hpending : handled.event.status = .pending) :
    Advanced settings handled.event updated 1 := by
  refine ⟨h.attempts, h.available, fun hstatus => absurd hpending hstatus, fun hwithin => ?_⟩
  have hlt := hwithin.pending_lt hpending
  exact ⟨by rw [h.attempts]; exact hlt, h.within⟩

/-- **What a pass does to an event**: it is advanced by the number of times it was handled. -/
theorem advanced_dispatchDue (hreadable : Readable dispatcher outbox pass) {k : String × String}
    {event : LifecycleOutboxEvent} (hrow : outbox.row k = some event) :
    ∃ updated, (dispatcher.dispatchDue pass outbox).outbox.row k = some updated ∧
      Advanced dispatcher.settings event updated
        (timesHandled k (dispatcher.dispatchDue pass outbox).handled) := by
  have hsettles := dispatchDue_settles dispatcher hreadable
  have hcount : timesHandled k (dispatcher.dispatchDue pass outbox).handled =
      ((pass.due outbox).map key).count k := by
    rw [← hsettles.handles, List.map_map]
    rfl
  rw [hcount]
  by_cases hk : k ∈ (pass.due outbox).map key
  · rw [List.count_eq_one_of_mem awaited_due.nodup hk]
    obtain ⟨listed, hlisted, rfl⟩ := List.mem_map.1 hk
    have hevent : listed = event :=
      Option.some.inj ((awaited_due.stored listed hlisted).symm.trans hrow)
    subst hevent
    obtain ⟨handled, hhandled, hof⟩ := List.mem_map.1 (hsettles.handles ▸ hlisted)
    obtain ⟨updated, hupdated, hsettled⟩ := hsettles.settles handled hhandled
    rw [← hof] at hlisted ⊢
    exact ⟨updated, hupdated, hsettled.advanced (awaited_due.pending _ hlisted)⟩
  · rw [List.count_eq_zero_of_not_mem hk]
    exact ⟨event, (hsettles.frame k hk).trans hrow, Advanced.refl _ _⟩

/-- An event becomes published only in a pass in which its handler returned. -/
def PublishesDelivered (outbox : Outbox) (pass : Pass) : Prop :=
  ∀ k event updated, outbox.row k = some event → event.status ≠ .published →
    (dispatcher.dispatchDue pass outbox).outbox.row k = some updated →
      updated.status = .published →
        ∃ handled ∈ (dispatcher.dispatchDue pass outbox).handled,
          key handled.event = k ∧ handled.delivered = .ok ()

/-- The pass returns, and has handled all due events, the failing ones among them. -/
def HandlesDue (outbox : Outbox) (pass : Pass) : Prop :=
  (∃ n, (dispatcher.dispatchDue pass outbox).published = .ok n) ∧
    (dispatcher.dispatchDue pass outbox).handled.map Handled.event = pass.due outbox

theorem handlesDue_iff : HandlesDue dispatcher outbox pass ↔ Readable dispatcher outbox pass := by
  constructor
  · rintro ⟨⟨n, hn⟩, -⟩
    exact readableFrom_of_dispatchFrom _ 0 _ hn
  · intro hreadable
    have hsettles := dispatchDue_settles dispatcher hreadable
    exact ⟨hsettles.returns, hsettles.handles⟩

theorem publishesDelivered_of_readable (hreadable : Readable dispatcher outbox pass) :
    PublishesDelivered dispatcher outbox pass := by
  intro k event updated hrow hnot hrow' hpublished
  have hsettles := dispatchDue_settles dispatcher hreadable
  by_cases hk : k ∈ (pass.due outbox).map key
  · rw [← hsettles.handles, List.map_map] at hk
    obtain ⟨handled, hhandled, rfl⟩ := List.mem_map.1 hk
    obtain ⟨settled, hsettled, hspec⟩ := hsettles.settles handled hhandled
    have heq : settled = updated := Option.some.inj (hsettled.symm.trans hrow')
    exact ⟨handled, hhandled, rfl, hspec.published (heq ▸ hpublished)⟩
  · have heq : event = updated :=
      Option.some.inj (hrow.symm.trans ((hsettles.frame k hk).symm.trans hrow'))
    exact absurd (heq ▸ hpublished) hnot

end Pass

/-! ## Passes one after another -/

section Runs

variable {dispatcher : LifecycleOutboxDispatcher} {outbox : Outbox} {passes : List Pass}

/-- No handler of any pass raises an error whose hint cannot be read. -/
def AllReadable (dispatcher : LifecycleOutboxDispatcher) (outbox : Outbox) (passes : List Pass) :
    Prop :=
  ∀ earlier pass later, passes = earlier ++ pass :: later →
    Readable dispatcher (dispatcher.run outbox earlier) pass

theorem AllReadable.left {earlier later : List Pass}
    (h : AllReadable dispatcher outbox (earlier ++ later)) :
    AllReadable dispatcher outbox earlier := by
  rintro before pass after rfl
  exact h before pass (after ++ later) (by rw [List.append_assoc, List.cons_append])

theorem AllReadable.right {earlier later : List Pass}
    (h : AllReadable dispatcher outbox (earlier ++ later)) :
    AllReadable dispatcher (dispatcher.run outbox earlier) later := by
  rintro before pass after rfl
  rw [← LifecycleOutboxDispatcher.run_append]
  exact h (earlier ++ before) pass after (List.append_assoc _ _ _).symm

/-- It is enough that the queue and the purger raise no such error. -/
theorem allReadable_of_outcomes
    (h : ∀ pass ∈ passes, ∀ i raised, (pass.handlings i).outcome = .error raised →
      raised.Readable) : AllReadable dispatcher outbox passes := by
  rintro earlier pass later rfl
  exact readableFrom_of_outcomes (h pass (List.mem_append_right earlier List.mem_cons_self)) _ 0

/-- **What passes do to an event.**  By induction on the passes: each advances the event by the
number of times it handles it. -/
theorem advanced_run {k : String × String} :
    ∀ {outbox : Outbox} {event : LifecycleOutboxEvent}, AllReadable dispatcher outbox passes →
      outbox.row k = some event →
        ∃ updated, (dispatcher.run outbox passes).row k = some updated ∧
          Advanced dispatcher.settings event updated
            (timesHandled k (dispatcher.handledIn outbox passes)) := by
  induction passes with
  | nil => exact fun {_ event} _ hrow => ⟨event, hrow, Advanced.refl _ _⟩
  | cons pass passes ih =>
    intro outbox event hreadable hrow
    obtain ⟨updated, hrow, hadvanced⟩ :=
      advanced_dispatchDue dispatcher (hreadable [] pass passes rfl) hrow
    have hrest : AllReadable dispatcher outbox ([pass] ++ passes) := hreadable
    obtain ⟨updated', hrow', hadvanced'⟩ := ih hrest.right hrow
    refine ⟨updated', hrow', ?_⟩
    rw [LifecycleOutboxDispatcher.handledIn, timesHandled_append]
    exact hadvanced.trans hadvanced'

/-- What holds along the passes of one dispatcher. -/
structure Discipline (dispatcher : LifecycleOutboxDispatcher) (outbox : Outbox)
    (passes : List Pass) : Prop where
  publishes : ∀ earlier pass later, passes = earlier ++ pass :: later →
    PublishesDelivered dispatcher (dispatcher.run outbox earlier) pass
  handles : ∀ earlier pass later, passes = earlier ++ pass :: later →
    HandlesDue dispatcher (dispatcher.run outbox earlier) pass
  /-- The attempts count how often the event was handled, and are bounded. -/
  counts : ∀ earlier later, passes = earlier ++ later → ∀ k event, outbox.row k = some event →
    ∃ updated, (dispatcher.run outbox earlier).row k = some updated ∧
      updated.attempts = event.attempts + timesHandled k (dispatcher.handledIn outbox earlier) ∧
        updated.attempts ≤ attemptLimit dispatcher.settings
  /-- A published, cancelled or dead event is not handled again. -/
  closed : ∀ earlier later, passes = earlier ++ later → ∀ k event,
    (dispatcher.run outbox earlier).row k = some event → event.status ≠ .pending →
      timesHandled k (dispatcher.handledIn (dispatcher.run outbox earlier) later) = 0
  /-- No event becomes due earlier. -/
  available : ∀ earlier later, passes = earlier ++ later → ∀ k event updated,
    (dispatcher.run outbox earlier).row k = some event →
      (dispatcher.run outbox passes).row k = some updated →
        event.availableAt ≤ updated.availableAt

end Runs

/-! ## A hint out of range -/

namespace Sample

def dispatcher : LifecycleOutboxDispatcher := { settings := {} }

/-- The cleanup of a document, due at `availableAt`. -/
def cleanup (id documentId : String) (availableAt : ℕ) : LifecycleOutboxEvent where
  id := id
  tenantId := "t"
  operationId := "o"
  aggregateId := documentId
  eventType := "document.cleanup.requested"
  idempotencyKey := id
  payload := .documentId documentId
  availableAt := availableAt
  createdAt := 0
  updatedAt := 0

/-- Two documents to be cleaned up. -/
def outbox : Outbox where
  events := ⟨[cleanup "e₁" "d₁" 1, cleanup "e₂" "d₂" 2], by decide⟩

/-- The index is busy, and says when it will not be. -/
def busy (retryAfter : RetryAfter) : Raised := ⟨.http "ApiError" "busy" 503, retryAfter⟩

/-- A pass at `now` with the outcome of its first handler; the others return. -/
def pass (now : ℕ) (outcome : Except Raised Unit) : Pass where
  tenantId := "t"
  now := now
  handlings
    | 0 => { outcome := outcome, now := now }
    | _ => { outcome := .ok (), now := now }

/-- The hint cannot be read as a float. -/
def overflowing : Pass := pass 5 (.error (busy (.int (10 ^ 400))))

theorem withinLimit_outbox :
    ∀ event ∈ outbox.events.rows, WithinLimit dispatcher.settings event := by
  intro event hevent
  have hattempts : event.attempts = 0 := by
    rcases List.mem_cons.1 hevent with rfl | hevent
    · rfl
    · rw [List.mem_singleton.1 hevent]
      rfl
  have hpos : 0 < attemptLimit dispatcher.settings := by decide
  exact ⟨by rw [hattempts]; exact hpos.le, fun _ => by rw [hattempts]; exact hpos⟩

end Sample

/-- Both events are published then, the one that failed at its second attempt. -/
example : (Sample.dispatcher.run Sample.outbox
    [Sample.pass 5 (.error (Sample.busy (.int 30))), Sample.pass 30000005 (.ok ())]).events.rows.map
      (fun event => (event.status, event.attempts, event.availableAt)) =
        [(.published, 2, 30000005), (.published, 1, 2)] := by
  decide +kernel

end Worker
end RagflowAgent
