import RagflowAgent.Agent.Graphs.Runs
import RagflowAgent.Fallible

/-!
# What a worker knows of the tools

A worker that executes a node gets outcomes from the maps of the process and outputs from the
tools, and puts outcomes into the maps.  Its watcher records what it has got, and a worker may
only put down what follows from that.

* `Worker` is the record, `Worker.May` says what a worker may do;
* `Gives` is an outcome that a worker gets when it executes a call;
* `Effect` is what the execution of a node does to the state of a run;
* `conforms_command` says that the programs of the workers and of the callers of the approval
  service conform to `runMonitor`.
-/

namespace RagflowAgent
namespace Agent

open Interleaving AgenticRagNodes

/-! ## The record of a worker -/

/-- What a watcher knows of a worker. -/
structure Worker (ρ : Type) where
  /-- The worker executes a node, and is not a caller of the approval service only. -/
  advances : Bool := false
  /-- The checkpoint the worker has loaded. -/
  loaded : Option (ρ × Position) := none
  completed : List (CompletedKey × ToolExecutionOutcome) := []
  successful : List ToolExecutionOutcome := []
  returned : List Returned := []
  /-- An approval request was read that had succeeded before. -/
  replaying : Bool := false

/-- The outcome that the output of a registered tool leads to. -/
def FreshOutcome (tools : SecureToolExecutionService) (returned : Returned)
    (outcome : ToolExecutionOutcome) : Prop :=
  ∃ registration, tools.registry.resolve returned.invocation.toolName
      returned.invocation.toolVersion = .ok registration ∧
    tools.successOutcome registration returned.invocation returned.output = .ok outcome

/-- What a successful outcome is made of. -/
theorem successOutcome_eq_ok {tools : SecureToolExecutionService}
    {registration : ToolRegistration} {invocation : ToolInvocation} {output : Json}
    {outcome : ToolExecutionOutcome}
    (h : tools.successOutcome registration invocation output = .ok outcome) :
    ∃ digest injectionDetected, outcome = {
      status := .success
      summary := { tools.summary invocation with status := "success", outputDigest := some digest }
      output := redact tools.host registration.sensitiveFields output
      injectionDetected := injectionDetected } := by
  obtain ⟨_, -, h⟩ := bind_eq_ok.1 h
  dsimp only at h
  split at h
  · cases h
  · cases h
    exact ⟨_, _, rfl⟩

variable {ρ : Type}

/-- An outcome that a worker gets for a call, apart from the demand for an approval. -/
inductive Gives (tools : SecureToolExecutionService) (worker : Worker ρ)
    (invocation : ToolInvocation) : ToolExecutionOutcome → Prop where
  | existing {key : CompletedKey} {outcome : ToolExecutionOutcome}
      (hmem : (key, outcome) ∈ worker.completed) (hkey : key.toolCallId = invocation.toolCallId) :
      Gives tools worker invocation outcome
  | reused {outcome : ToolExecutionOutcome} (hmem : outcome ∈ worker.successful) :
      Gives tools worker invocation
        (SecureToolExecutionService.reusedOutcome outcome invocation)
  | failed (errorCode : String) :
      Gives tools worker invocation (tools.failedOutcome invocation errorCode)
  | fresh {returned : Returned} {outcome : ToolExecutionOutcome}
      (hmem : returned ∈ worker.returned) (hfor : returned.invocation = invocation)
      (hfresh : FreshOutcome tools returned outcome) : Gives tools worker invocation outcome

namespace Worker

/-- What a watcher makes of an answer. -/
def next (worker : Worker ρ) {β : Type} : Call β → Except AgentException β → Worker ρ
  | .getApproval tenantId approvalId => fun r => { worker with
      replaying := worker.replaying || (Call.getApproval tenantId approvalId).readsSucceeded r }
  | .completed key => fun
    | .ok (some outcome) => { worker with completed := (key, outcome) :: worker.completed }
    | _ => worker
  | .successful _ => fun
    | .ok (some outcome) => { worker with successful := outcome :: worker.successful }
    | _ => worker
  | .invoke invocation context => fun r => { worker with
      returned := (Call.invoke invocation context).returned r ++ worker.returned }
  | _ => fun _ => worker

/-- What a worker may put into the maps. -/
def May (tools : SecureToolExecutionService) (worker : Worker ρ) {β : Type} : Call β → Prop
  | .setCompleted key outcome =>
    ∃ invocation, key.toolCallId = invocation.toolCallId ∧ Gives tools worker invocation outcome
  | .setSuccessful _ outcome =>
    ∃ returned ∈ worker.returned, FreshOutcome tools returned outcome
  | _ => True

/-- A worker later on: the same checkpoint, and at least the same things known. -/
structure Later (worker worker' : Worker ρ) : Prop where
  advances : worker'.advances = worker.advances
  loaded : worker'.loaded = worker.loaded
  completed : worker.completed ⊆ worker'.completed
  successful : worker.successful ⊆ worker'.successful
  returned : worker.returned ⊆ worker'.returned
  replaying : worker.replaying = true → worker'.replaying = true

theorem Later.refl (worker : Worker ρ) : worker.Later worker :=
  ⟨rfl, rfl, fun _ h => h, fun _ h => h, fun _ h => h, id⟩

theorem Later.trans {w₁ w₂ w₃ : Worker ρ} (h : w₁.Later w₂) (h' : w₂.Later w₃) :
    w₁.Later w₃ :=
  ⟨h'.advances.trans h.advances, h'.loaded.trans h.loaded,
    fun _ hm => h'.completed (h.completed hm), fun _ hm => h'.successful (h.successful hm), fun _ hm => h'.returned (h.returned hm),
    fun hm => h'.replaying (h.replaying hm)⟩

/-- An answer only adds to what a watcher knows. -/
theorem later_next (worker : Worker ρ) {β : Type} (c : Call β) (r : Except AgentException β) :
    worker.Later (worker.next c r) := by
  cases c with
  | getApproval tenantId approvalId =>
    refine ⟨rfl, rfl, fun _ h => h, fun _ h => h, fun _ h => h, fun h => ?_⟩
    show (worker.replaying || _) = true
    rw [h, Bool.true_or]
  | completed key =>
    rcases r with e | _ | outcome
    · exact .refl worker
    · exact .refl worker
    · exact ⟨rfl, rfl, List.subset_cons_self _ _, fun _ h => h, fun _ h => h, id⟩
  | successful signature =>
    rcases r with e | _ | outcome
    · exact .refl worker
    · exact .refl worker
    · exact ⟨rfl, rfl, fun _ h => h, List.subset_cons_self _ _, fun _ h => h, id⟩
  | invoke invocation context =>
    exact ⟨rfl, rfl, fun _ h => h, fun _ h => h, List.subset_append_right _ _, id⟩
  | _ => exact .refl worker

end Worker

theorem Gives.later {tools : SecureToolExecutionService} {worker worker' : Worker ρ}
    {invocation : ToolInvocation} {outcome : ToolExecutionOutcome}
    (h : Gives tools worker invocation outcome) (hlater : worker.Later worker') :
    Gives tools worker' invocation outcome := by
  cases h with
  | existing hmem hkey => exact .existing (hlater.completed hmem) hkey
  | reused hmem => exact .reused (hlater.successful hmem)
  | failed errorCode => exact .failed errorCode
  | fresh hmem hfor hfresh => exact .fresh (hlater.returned hmem) hfor hfresh

def toolMonitor (ρ : Type) (tools : SecureToolExecutionService) :
    Monitor Call AgentException (Worker ρ) where
  licit := fun worker _ c => worker.May tools c
  next := fun worker _ c r => worker.next c r

/-! ## The tool service -/

namespace Worker

open Monitor

variable {worker : Worker ρ} {tools : SecureToolExecutionService} {invocation : ToolInvocation}
  {context : ToolAuthorizationContext} {budget : BudgetLedger}

/-- A call that puts nothing into the maps. -/
theorem conforms_call {β : Type} {c : Call β} (hc : worker.May tools c) :
    (toolMonitor ρ tools).Conforms (Prog.perform c)
      (fun r worker' => worker.Later worker' ∧ worker' = worker.next c (.ok r))
      (fun _ worker' => worker.Later worker') worker :=
  conforms_perform hc (fun _ => ⟨later_next _ _ _, rfl⟩) fun _ => later_next _ _ _

/-- The same, when the answer does not matter. -/
theorem conforms_quiet {β : Type} {c : Call β} (hc : worker.May tools c) :
    (toolMonitor ρ tools).Conforms (Prog.perform c) (fun _ worker' => worker.Later worker')
      (fun _ worker' => worker.Later worker') worker :=
  conforms_perform hc (fun _ => later_next _ _ _) fun _ => later_next _ _ _

/-- The same, after other calls. -/
theorem conforms_after {worker₀ : Worker ρ} {β : Type} {c : Call β}
    (hlater : worker₀.Later worker) (hc : worker.May tools c) :
    (toolMonitor ρ tools).Conforms (Prog.perform c) (fun _ worker' => worker₀.Later worker')
      (fun _ worker' => worker₀.Later worker') worker :=
  (conforms_quiet hc).mono (fun _ _ h => hlater.trans h) fun _ _ h => hlater.trans h

theorem conforms_tryInvoke :
    (toolMonitor ρ tools).Conforms (SecureToolExecutionService.tryInvoke invocation context)
      (fun r worker' => worker.Later worker' ∧
        ∀ output, r = .ok output → ⟨invocation, context, output⟩ ∈ worker'.returned)
      (fun _ worker' => worker.Later worker') worker := by
  refine Monitor.conforms_attempt (R := fun _ worker' => worker.Later worker') ?_ ?_
  · refine conforms_bind (conforms_call trivial) ?_
    rintro output _ ⟨hlater, rfl⟩
    refine ⟨hlater, fun output' h => ?_⟩
    cases h
    exact List.mem_cons_self
  · intro e worker' hlater
    cases e with
    | tool message errorCode statusCode => exact hlater
    | _ => exact ⟨hlater, nofun⟩

theorem conforms_attempt' :
    (toolMonitor ρ tools).Conforms
      (SecureToolExecutionService.attempt invocation context budget)
      (fun r worker' => worker.Later worker' ∧
        ∀ output, r.1 = .ok (.ok output) → ⟨invocation, context, output⟩ ∈ worker'.returned)
      (fun _ _ => False) worker := by
  refine Local.conforms_bind (R := fun _ worker' => worker = worker') rfl ?_ ?_
  · rintro _ budget _ rfl
    refine Local.conforms_lift (conforms_tryInvoke.mono ?_ ?_)
    · rintro r worker' ⟨hlater, hreturned⟩
      exact ⟨hlater, fun output h => hreturned output (Except.ok.inj h)⟩
    · exact fun e worker' hlater => ⟨hlater, nofun⟩
  · rintro e budget _ rfl
    exact ⟨.refl _, nofun⟩

/-- What the retry loop returns, a tool has returned. -/
theorem conforms_attempts {retries : ℕ} :
    (toolMonitor ρ tools).Conforms
      (SecureToolExecutionService.attempts invocation context retries budget)
      (fun r worker' => worker.Later worker' ∧
        ∀ output, r.1 = .ok (.ok output) → ⟨invocation, context, output⟩ ∈ worker'.returned)
      (fun _ _ => False) worker := by
  induction retries generalizing budget worker with
  | zero => exact conforms_attempt'
  | succ retries ih =>
    refine Local.conforms_bind conforms_attempt' ?_ fun e _ _ h => ⟨h.1, nofun⟩
    rintro r budget worker₁ ⟨hlater, hreturned⟩
    cases r with
    | ok output => exact ⟨hlater, fun output' h => hreturned output' h⟩
    | error errorCode =>
      exact ih.mono (fun _ _ h => ⟨hlater.trans h.1, h.2⟩) fun _ _ h => h

theorem conforms_invokeTool {registration : ToolRegistration}
    (hresolve : tools.registry.resolve invocation.toolName invocation.toolVersion =
      .ok registration) :
    (toolMonitor ρ tools).Conforms (tools.invokeTool registration invocation context budget)
      (fun r worker' => worker.Later worker' ∧
        ∀ outcome, r.1 = .ok outcome → Gives tools worker' invocation outcome)
      (fun _ _ => False) worker := by
  refine Local.conforms_bind conforms_attempts ?_ fun e _ _ h => ⟨h.1, nofun⟩
  rintro r budget worker₁ ⟨hlater₁, hreturned⟩
  cases r with
  | error errorCode =>
    refine Local.conforms_bind_lift (conforms_quiet ⟨invocation, rfl, .failed errorCode⟩) ?_ ?_
    · intro _ worker₂ hlater₂
      refine ⟨hlater₁.trans hlater₂, fun outcome h => ?_⟩
      cases h
      exact .failed errorCode
    · exact fun e worker₂ hlater₂ => ⟨hlater₁.trans hlater₂, nofun⟩
  | ok output =>
    have hmem := hreturned output rfl
    refine Local.conforms_bind_ofExcept (fun outcome houtcome => ?_) fun e _ => ⟨hlater₁, nofun⟩
    have hfresh : FreshOutcome tools ⟨invocation, context, output⟩ outcome :=
      ⟨registration, hresolve, houtcome⟩
    refine Local.conforms_bind_lift
      (conforms_quiet ⟨invocation, rfl, .fresh hmem rfl hfresh⟩) ?_ ?_
    · intro _ worker₂ hlater₂
      refine Local.conforms_bind_lift
        (conforms_quiet ⟨_, hlater₂.returned hmem, hfresh⟩) ?_ ?_
      · intro _ worker₃ hlater₃
        refine ⟨hlater₁.trans (hlater₂.trans hlater₃), fun outcome' h => ?_⟩
        cases h
        exact .fresh (hlater₃.returned (hlater₂.returned hmem)) rfl hfresh
      · exact fun e worker₃ hlater₃ => ⟨hlater₁.trans (hlater₂.trans hlater₃), nofun⟩
    · exact fun e worker₂ hlater₂ => ⟨hlater₁.trans hlater₂, nofun⟩

/-- The tool of a call that was checked is the registered one. -/
theorem resolve_of_check {registration : ToolRegistration} {decision : ToolPolicyDecision}
    (h : tools.check invocation context = .ok (registration, decision)) :
    tools.registry.resolve invocation.toolName invocation.toolVersion = .ok registration := by
  obtain ⟨registration', hresolve, h⟩ := bind_eq_ok.1 h
  split at h
  · cases h
  · obtain ⟨_, -, h⟩ := bind_eq_ok.1 h
    cases h
    exact hresolve

/-- **What executing a call gives**: a demand for an approval, or an outcome. -/
theorem conforms_execute {approved : Bool} :
    (toolMonitor ρ tools).Conforms (tools.execute invocation context approved budget)
      (fun r worker' => worker.Later worker' ∧ ∀ outcome, r.1 = .ok outcome →
        (outcome.status = .approvalRequired ∧ approved = false) ∨
          Gives tools worker' invocation outcome)
      (fun _ _ => False) worker := by
  refine Local.conforms_bind_lift (conforms_quiet trivial) ?_ fun e _ h => ⟨h, nofun⟩
  intro _ worker₁ hlater₁
  refine Local.conforms_bind_ofExcept (fun checked hchecked => ?_) fun e _ => ⟨hlater₁, nofun⟩
  obtain ⟨registration, decision⟩ := checked
  dsimp only
  split
  · exact ⟨hlater₁, nofun⟩
  refine Local.conforms_bind_lift (conforms_call trivial) ?_
    fun e _ h => ⟨hlater₁.trans h, nofun⟩
  rintro existing _ ⟨hlater₂, rfl⟩
  replace hlater₂ := hlater₁.trans hlater₂
  cases existing with
  | some existing =>
    dsimp only
    split
    · exact ⟨hlater₂, nofun⟩
    · refine ⟨hlater₂, fun outcome h => ?_⟩
      cases h
      exact .inr (.existing List.mem_cons_self rfl)
  | none =>
    refine Local.conforms_bind_lift (conforms_call trivial) ?_
      fun e _ h => ⟨hlater₂.trans h, nofun⟩
    rintro successful worker₃ ⟨hlater₃, hnext⟩
    replace hlater₃ := hlater₂.trans hlater₃
    cases successful with
    | some successful =>
      have hmem : successful ∈ worker₃.successful := by
        rw [hnext]
        exact List.mem_cons_self
      have hgives : Gives tools worker₃ invocation
          (SecureToolExecutionService.reusedOutcome successful invocation) :=
        .reused hmem
      refine Local.conforms_bind_lift (conforms_quiet ⟨invocation, rfl, hgives⟩) ?_
        fun e _ h => ⟨hlater₃.trans h, nofun⟩
      intro _ worker₄ hlater₄
      refine ⟨hlater₃.trans hlater₄, fun outcome h => ?_⟩
      cases h
      exact .inr (hgives.later hlater₄)
    | none =>
      dsimp only
      split
      · rename_i happroval
        refine ⟨hlater₃, fun outcome h => ?_⟩
        cases h
        exact .inl ⟨rfl, happroval.2⟩
      · refine (conforms_invokeTool (resolve_of_check hchecked)).mono ?_ fun _ _ h => h
        exact fun _ _ h => ⟨hlater₃.trans h.1, fun outcome houtcome => .inr (h.2 outcome houtcome)⟩

/-! ## The approval service -/

/-- A request that is read after it has succeeded is noticed. -/
theorem conforms_require {approvalId tenantId : String} :
    (toolMonitor ρ tools).Conforms (ApprovalService.require approvalId tenantId)
      (fun item worker' => worker.Later worker' ∧
        (item.status = .succeeded → worker'.replaying = true))
      (fun _ worker' => worker.Later worker') worker := by
  refine conforms_bind (conforms_call trivial) ?_
  rintro (_ | item) worker' ⟨hlater, hnext⟩
  · exact hlater
  · refine ⟨hlater, fun hstatus => ?_⟩
    rw [hnext]
    show (worker.replaying || decide (item.status = .succeeded)) = true
    rw [decide_eq_true hstatus, Bool.or_true]

theorem conforms_write {item updated : ApprovalRequest} :
    (toolMonitor ρ tools).Conforms (ApprovalService.write item updated)
      (fun _ worker' => worker.Later worker') (fun _ worker' => worker.Later worker') worker :=
  conforms_quiet trivial

theorem conforms_expireIfNeeded {item : ApprovalRequest} :
    (toolMonitor ρ tools).Conforms (ApprovalService.expireIfNeeded item)
      (fun item' worker' => worker.Later worker' ∧ (item' = item ∨ item'.status = .expired))
      (fun _ worker' => worker.Later worker') worker := by
  unfold ApprovalService.expireIfNeeded
  split
  · exact ⟨.refl worker, .inl rfl⟩
  · refine conforms_bind (conforms_quiet trivial) ?_
    intro now worker₁ hlater₁
    split
    · exact ⟨hlater₁, .inl rfl⟩
    · refine conforms_bind (conforms_write.mono (fun _ _ h => h) fun _ _ h => hlater₁.trans h) ?_
      exact fun _ worker₂ hlater₂ => ⟨hlater₁.trans hlater₂, .inr rfl⟩

theorem conforms_getCurrent {approvalId tenantId : String} :
    (toolMonitor ρ tools).Conforms (ApprovalService.getCurrent approvalId tenantId)
      (fun _ worker' => worker.Later worker') (fun _ worker' => worker.Later worker') worker := by
  refine conforms_bind conforms_require ?_
  rintro item worker₁ ⟨hlater₁, -⟩
  exact conforms_expireIfNeeded.mono (fun _ _ h => hlater₁.trans h.1)
    fun _ _ h => hlater₁.trans h

theorem conforms_request {approvals : ApprovalService} {runId threadId reason : String}
    {requiredRoles : List String} :
    (toolMonitor ρ tools).Conforms
      (approvals.request runId threadId invocation context reason requiredRoles)
      (fun _ worker' => worker.Later worker') (fun _ worker' => worker.Later worker') worker := by
  refine conforms_bind (conforms_quiet trivial) fun now worker₁ hlater₁ => ?_
  refine conforms_bind (conforms_after hlater₁ trivial) fun existing worker₂ hlater₂ => ?_
  cases existing with
  | some existing => exact hlater₂
  | none =>
    refine conforms_bind (conforms_after hlater₂ trivial) fun approvalId worker₃ hlater₃ => ?_
    exact conforms_bind (conforms_after hlater₃ trivial) fun _ worker₄ hlater₄ => hlater₄

theorem conforms_decide {approvalId : String} {decision : ApprovalDecision} :
    (toolMonitor ρ tools).Conforms (ApprovalService.decide approvalId context decision)
      (fun _ worker' => worker.Later worker') (fun _ worker' => worker.Later worker') worker := by
  refine conforms_bind conforms_require ?_
  rintro item worker₁ ⟨hlater₁, -⟩
  refine conforms_bind
    (conforms_expireIfNeeded.mono (fun _ _ h => h) fun _ _ h => hlater₁.trans h) ?_
  rintro item worker₂ ⟨hlater₂, -⟩
  replace hlater₂ := hlater₁.trans hlater₂
  split
  · exact hlater₂
  refine conforms_bind (R := fun _ worker' => worker' = worker₂)
    (conforms_ofExcept (fun _ _ => rfl) fun _ _ => hlater₂) ?_
  rintro status _ rfl
  refine conforms_bind (conforms_after hlater₂ trivial) fun now worker₃ hlater₃ => ?_
  refine conforms_bind (conforms_after hlater₃ trivial) fun written worker₄ hlater₄ => ?_
  cases written with
  | true => exact hlater₄
  | false =>
    exact conforms_require.mono (fun _ _ h => hlater₄.trans h.1) fun _ _ h => hlater₄.trans h

theorem conforms_executeClaimed {approvals : ApprovalService} {executing : ApprovalRequest} :
    (toolMonitor ρ approvals.tools).Conforms
      (approvals.executeClaimed executing invocation context budget)
      (fun r worker' => worker.Later worker' ∧
        ∀ outcome, r.1 = .ok outcome → Gives approvals.tools worker' invocation outcome)
      (fun _ _ => False) worker := by
  refine Local.conforms_bind (R := fun r worker' => worker.Later worker' ∧
    ∀ outcome, r.1 = .ok outcome → Gives approvals.tools worker' invocation outcome) ?_ ?_
    fun _ _ _ h => ⟨h.1, nofun⟩
  · refine Local.conforms_attempt conforms_execute ?_ ?_
    · rintro outcome budget worker₁ ⟨hlater₁, hgives⟩
      refine ⟨hlater₁, fun outcome' h => ?_⟩
      cases h
      exact (hgives outcome rfl).resolve_left fun h => nomatch h.2
    · rintro e budget worker₁ ⟨hlater₁, -⟩
      refine Local.conforms_bind_lift conforms_write ?_ fun _ _ h => ⟨hlater₁.trans h, nofun⟩
      exact fun _ worker₂ hlater₂ => ⟨hlater₁.trans hlater₂, nofun⟩
  · rintro outcome budget worker₁ ⟨hlater₁, hgives⟩
    refine Local.conforms_bind_lift conforms_write ?_ fun _ _ h => ⟨hlater₁.trans h, nofun⟩
    intro written worker₂ hlater₂
    cases written with
    | true =>
      refine ⟨hlater₁.trans hlater₂, fun outcome' h => ?_⟩
      cases h
      exact (hgives outcome rfl).later hlater₂
    | false => exact ⟨hlater₁.trans hlater₂, nofun⟩

theorem succeeded_of_replayed {item : ApprovalRequest} {outcome : ToolExecutionOutcome}
    (h : ApprovalService.replayed item = some outcome) : item.status = .succeeded := by
  unfold ApprovalService.replayed at h
  split at h
  · assumption
  · cases h

/-- **What resuming gives**: an outcome of the execution, or a replay, which is noticed. -/
theorem conforms_resume {approvals : ApprovalService} {approvalId : String} :
    (toolMonitor ρ approvals.tools).Conforms
      (approvals.resume approvalId invocation context budget)
      (fun r worker' => worker.Later worker' ∧ ∀ outcome, r.1 = .ok outcome →
        worker'.replaying = true ∨ Gives approvals.tools worker' invocation outcome)
      (fun _ _ => False) worker := by
  refine Local.conforms_bind_lift conforms_require ?_ fun _ _ h => ⟨h, nofun⟩
  rintro item worker₁ ⟨hlater₁, hreplaying₁⟩
  refine Local.conforms_bind_lift conforms_expireIfNeeded ?_
    fun _ _ h => ⟨hlater₁.trans h, nofun⟩
  rintro item' worker₂ ⟨hlater₂, hitem⟩
  have hlater := hlater₁.trans hlater₂
  split
  · exact ⟨hlater, nofun⟩
  cases hreplayed : ApprovalService.replayed item' with
  | some outcome =>
    refine ⟨hlater, fun _ _ => .inl ?_⟩
    have hstatus := succeeded_of_replayed hreplayed
    rcases hitem with rfl | hexpired
    · exact hlater₂.replaying (hreplaying₁ hstatus)
    · rw [hstatus] at hexpired
      cases hexpired
  | none =>
    dsimp only
    split
    · exact ⟨hlater, nofun⟩
    refine Local.conforms_bind_ofExcept (fun policy _ => ?_) fun _ _ => ⟨hlater, nofun⟩
    split
    · exact ⟨hlater, nofun⟩
    refine Local.conforms_bind_lift conforms_write ?_ fun _ _ h => ⟨hlater.trans h, nofun⟩
    intro written worker₃ hlater₃
    replace hlater₃ := hlater.trans hlater₃
    cases written with
    | true =>
      refine conforms_executeClaimed.mono ?_ fun _ _ h => h
      exact fun _ _ h => ⟨hlater₃.trans h.1, fun outcome houtcome => .inr (h.2 outcome houtcome)⟩
    | false =>
      refine Local.conforms_bind_lift conforms_require ?_ fun _ _ h => ⟨hlater₃.trans h, nofun⟩
      rintro current worker₄ ⟨hlater₄, hreplaying₄⟩
      replace hlater₄ := hlater₃.trans hlater₄
      cases hreplayed' : ApprovalService.replayed current with
      | some outcome =>
        exact ⟨hlater₄, fun _ _ => .inl (hreplaying₄ (succeeded_of_replayed hreplayed'))⟩
      | none => exact ⟨hlater₄, nofun⟩

theorem conforms_approvalCommand {approvals : ApprovalService} (command : ApprovalCommand) :
    (toolMonitor ρ approvals.tools).Conforms (command.program approvals) (fun _ _ => True)
      (fun _ _ => True) worker := by
  cases command with
  | decide approvalId context decision =>
    exact conforms_bind (conforms_decide.mono (fun _ _ h => h) fun _ _ _ => trivial)
      fun _ _ _ => trivial
  | getCurrent approvalId tenantId =>
    exact conforms_bind (conforms_getCurrent.mono (fun _ _ h => h) fun _ _ _ => trivial)
      fun _ _ _ => trivial
  | resume approvalId invocation context budget =>
    exact conforms_bind (conforms_resume.mono (fun _ _ h => h) fun _ _ _ => trivial)
      fun _ _ _ => trivial

/-! ## Services that execute no tool -/

/-- A metered program that puts nothing into the maps. -/
def Quiet {α : Type} (ρ : Type) (tools : SecureToolExecutionService) (p : Metered α) : Prop :=
  ∀ (worker : Worker ρ) (budget : BudgetLedger), (toolMonitor ρ tools).Conforms (p budget)
    (fun _ worker' => worker.Later worker') (fun _ _ => False) worker

theorem quiet_ret {α : Type} (a : α) : Quiet ρ tools (Local.ret a) :=
  fun worker _ => .refl worker

theorem quiet_update {α : Type}
    (f : BudgetLedger → Except AgentException α × BudgetLedger) :
    Quiet ρ tools (Local.update f) :=
  fun worker _ => .refl worker

theorem quiet_call {α : Type} {c : Call α} (hc : ∀ worker : Worker ρ, worker.May tools c) :
    Quiet ρ tools (Local.lift (Prog.perform c)) :=
  fun worker _ => Local.conforms_lift (conforms_quiet (hc worker))

theorem quiet_bind {α γ : Type} {p : Metered α} {f : α → Metered γ} (hp : Quiet ρ tools p)
    (hf : ∀ a, Quiet ρ tools (f a)) : Quiet ρ tools (p.bind f) := by
  intro worker budget
  refine Local.conforms_bind (hp worker budget) ?_ fun _ _ _ h => h
  exact fun a budget' worker' hlater =>
    (hf a worker' budget').mono (fun _ _ h => hlater.trans h) fun _ _ h => h

theorem quiet_attempt {α : Type} {p : Metered α} {h : AgentException → Metered α}
    (hp : Quiet ρ tools p) (hh : ∀ e, Quiet ρ tools (h e)) : Quiet ρ tools (p.attempt h) := by
  intro worker budget
  refine Local.conforms_attempt (hp worker budget) (fun _ _ _ h => h) ?_
  exact fun e budget' worker' hlater =>
    (hh e worker' budget').mono (fun _ _ h => hlater.trans h) fun _ _ h => h

variable {nodes : AgenticRagNodes} {state state' : AgenticState}

theorem quiet_recordModelUsage (inputTokens generatedTokens : ℕ) :
    Quiet ρ tools (recordModelUsage inputTokens generatedTokens) :=
  quiet_update _

theorem quiet_planMetered (question : String) : Quiet ρ tools (nodes.planMetered question) := by
  unfold planMetered
  cases nodes.plannerUsesModel with
  | true =>
    refine quiet_bind (quiet_update _) fun _ => ?_
    refine quiet_bind (quiet_call fun _ => trivial) fun plan => ?_
    exact quiet_bind (quiet_recordModelUsage _ _) fun _ => quiet_ret _
  | false => exact quiet_bind (quiet_call fun _ => trivial) fun plan => quiet_ret _

theorem quiet_directAnswer : Quiet ρ tools (nodes.directAnswer state) := by
  refine quiet_bind (quiet_call fun _ => trivial) fun retrieved => ?_
  split
  · exact quiet_ret _
  · refine quiet_bind (quiet_update _) fun _ => ?_
    exact quiet_bind (quiet_call fun _ => trivial) fun generated => quiet_ret _

theorem quiet_directRagMetered : Quiet ρ tools (nodes.directRagMetered state) := by
  refine quiet_bind (quiet_update _) fun _ => ?_
  refine quiet_bind quiet_directAnswer fun answer => ?_
  split
  · exact quiet_ret _
  · refine quiet_bind (quiet_attempt ?_ fun e => quiet_ret _) fun _ => quiet_ret _
    exact quiet_bind (quiet_recordModelUsage _ _) fun _ => quiet_ret _

end Worker

/-! ## What a node does to the state -/

/-- The ids of the calls of a step. -/
def IsCallOf (runId stepId toolCallId : String) : Prop :=
  ∃ rounds : ℕ, toolCallId = runId ++ ":" ++ stepId ++ ":" ++ toString rounds

/-- The call that waits for an approval is a call of the current step. -/
def PendingStep (state : AgenticState) : Prop :=
  ∃ plan step invocation, state.plan = some plan ∧ plan.steps[state.currentStep]? = some step ∧
    state.pendingToolInvocation = some invocation ∧
    IsCallOf state.runId step.stepId invocation.toolCallId

/-- The call that a node executes, and the step it is for. -/
def CallOfNode (node : Node) (state : AgenticState) (invocation : ToolInvocation)
    (stepId : String) : Prop :=
  node = .executeStep ∧ IsCallOf state.runId stepId invocation.toolCallId ∨
    node = .awaitApproval ∧ state.pendingToolInvocation = some invocation ∧
      pendingStepId state = .ok stepId

structure SameRun (state state' : AgenticState) : Prop where
  runId : state'.runId = state.runId
  authorization : state'.authorization = state.authorization

/-- What the execution of a node does to the evidence and the tool calls of a run. -/
inductive Effect (nodes : AgenticRagNodes) (worker : Worker ρ) (node : Node)
    (state state' : AgenticState) : Prop where
  | same (hrun : SameRun state state') (hevidence : state'.evidence = state.evidence)
      (hcalls : state'.toolCalls = state.toolCalls)
      (hfinal : node = .finalize → state'.finalStatus = state.finalStatus)
      (hpending : state.finalStatus ≠ some .approvalRequired →
        Agent.next node state' = some Node.awaitApproval → PendingStep state')
  | failed {summary : ToolCallSummary} (hnode : node = .executeStep) (hrun : SameRun state state')
      (hevidence : state'.evidence = state.evidence)
      (hcalls : state'.toolCalls = state.toolCalls ++ [summary])
      (hfinal : state'.finalStatus = some .failed)
  | gained {invocation : ToolInvocation} {stepId : String} {outcome : ToolExecutionOutcome}
      {items : List EvidenceItem} {traceId : Option String}
      (hexecutes : CallOfNode node state invocation stepId)
      (hgives : Gives nodes.approvals.tools worker invocation outcome)
      (hitems : nodes.outcomeEvidence state.authorization.tenantId stepId outcome =
        .ok (items, traceId))
      (hrun : SameRun state state') (hevidence : state'.evidence = state.evidence ++ items)
      (hcalls : state'.toolCalls = state.toolCalls ++ [outcome.summary])
      (hfinal : state'.finalStatus = state.finalStatus ∨ state'.finalStatus = none)

namespace Worker

open Monitor

variable {worker : Worker ρ} {nodes : AgenticRagNodes} {state state' : AgenticState}

theorem next_ne_awaitApproval {node : Node} (hnode : node ≠ .executeStep) :
    Agent.next node state ≠ some Node.awaitApproval := by
  cases node with
  | executeStep => exact absurd rfl hnode
  | route =>
    simp only [Agent.next, afterRoute]
    split
    · nofun
    · split <;> nofun
  | directRag => nofun
  | awaitApproval =>
    simp only [Agent.next, afterApproval]
    split <;> nofun
  | evaluate =>
    simp only [Agent.next]
    split <;> nofun
  | finalize => nofun

/-- Only an approval that is required leads to `await_approval`. -/
theorem approvalRequired_of_next (h : Agent.next .executeStep state = some Node.awaitApproval) :
    state.finalStatus = some .approvalRequired := by
  by_contra hstatus
  simp only [Agent.next, afterExecute, if_neg hstatus, Option.some.injEq] at h
  split at h
  · cases h
  · split at h <;> cases h

/-- What every node does, when it ends. -/
def NodeConforms (nodes : AgenticRagNodes) (worker : Worker ρ) (node : Node)
    (state : AgenticState) (p : Service AgenticState) : Prop :=
  (toolMonitor ρ nodes.approvals.tools).Conforms p
    (fun state' worker' => worker.Later worker' ∧
      (worker'.replaying = true ∨ Effect nodes worker' node state state'))
    (fun _ worker' => worker.Later worker') worker

theorem conforms_route : NodeConforms nodes worker .route state (nodes.route state) := by
  have hlater : (toolMonitor ρ nodes.approvals.tools).Conforms (nodes.route state)
      (fun _ worker' => worker.Later worker') (fun _ worker' => worker.Later worker') worker := by
    refine conforms_bind ((quiet_planMetered _ worker _).mono (fun _ _ h => h)
      fun _ _ h => h.elim) ?_
    rintro ⟨result, ledger⟩ worker' hlater
    dsimp only
    split <;> exact hlater
  refine hlater.and_canEnd.mono ?_ fun _ _ h => h.1
  rintro state' worker' ⟨hlater, hend⟩
  refine ⟨hlater, .inr ?_⟩
  have hpending : Agent.next .route state' ≠ some Node.awaitApproval :=
    next_ne_awaitApproval nofun
  obtain ⟨ledger, -, ⟨_, _, rfl⟩ | ⟨_, _, rfl⟩⟩ := route_canEnd hend
  · exact .same ⟨rfl, rfl⟩ rfl rfl nofun fun _ h => absurd h hpending
  · exact .same ⟨rfl, rfl⟩ rfl rfl nofun fun _ h => absurd h hpending

theorem conforms_directRag :
    NodeConforms nodes worker .directRag state (nodes.directRag state) := by
  have hlater : (toolMonitor ρ nodes.approvals.tools).Conforms (nodes.directRag state)
      (fun _ worker' => worker.Later worker') (fun _ worker' => worker.Later worker') worker := by
    refine conforms_bind ((quiet_directRagMetered worker _).mono (fun _ _ h => h)
      fun _ _ h => h.elim) ?_
    rintro ⟨result, ledger⟩ worker' hlater
    dsimp only
    split
    · exact hlater
    · exact hlater
    · split <;> exact hlater
    · exact hlater
    · exact hlater
  refine hlater.and_canEnd.mono ?_ fun _ _ h => h.1
  rintro state' worker' ⟨hlater, hend⟩
  obtain ⟨_, _, _, _, _, _, rfl⟩ := directRag_canEnd hend
  exact ⟨hlater, .inr (.same ⟨rfl, rfl⟩ rfl rfl nofun nofun)⟩

theorem conforms_evaluate :
    NodeConforms nodes worker .evaluate state (nodes.evaluate state) := by
  have hlater : (toolMonitor ρ nodes.approvals.tools).Conforms (nodes.evaluate state)
      (fun _ worker' => worker.Later worker') (fun _ worker' => worker.Later worker') worker := by
    unfold evaluate
    split <;> exact .refl worker
  refine hlater.and_canEnd.mono ?_ fun _ _ h => h.1
  rintro state' worker' ⟨hlater, hend⟩
  have hpending : Agent.next .evaluate state' ≠ some Node.awaitApproval :=
    next_ne_awaitApproval nofun
  obtain ⟨plan, finalStatus, reason, -, rfl⟩ := evaluate_canEnd hend
  exact ⟨hlater, .inr (.same ⟨rfl, rfl⟩ rfl rfl nofun fun _ h => absurd h hpending)⟩

theorem conforms_finalize :
    NodeConforms nodes worker .finalize state (finalize state) := by
  have hlater : (toolMonitor ρ nodes.approvals.tools).Conforms (finalize state)
      (fun _ worker' => worker.Later worker') (fun _ worker' => worker.Later worker') worker := by
    unfold finalize
    split <;> exact .refl worker
  refine hlater.and_canEnd.mono ?_ fun _ _ h => h.1
  rintro state' worker' ⟨hlater, hend⟩
  obtain ⟨status, hstatus, rfl⟩ := finalize_canEnd hend
  exact ⟨hlater, .inr (.same ⟨rfl, rfl⟩ rfl rfl (fun _ => rfl) nofun)⟩

/-- What an outcome does to the run, once a worker has got it. -/
theorem conforms_handleOutcome {plan : QueryPlan} {step : PlanStep} {ledger : BudgetLedger}
    {outcome : ToolExecutionOutcome} (hplan : state.plan = some plan)
    (hstep : plan.steps[state.currentStep]? = some step)
    (hgives : outcome.status = .approvalRequired ∨
      Gives nodes.approvals.tools worker (stepInvocation state step) outcome) :
    NodeConforms nodes worker .executeStep state
      (nodes.handleOutcome state step ledger outcome) := by
  have hcall : IsCallOf state.runId step.stepId (stepInvocation state step).toolCallId :=
    ⟨_, rfl⟩
  have hlater : (toolMonitor ρ nodes.approvals.tools).Conforms
      (nodes.handleOutcome state step ledger outcome)
      (fun _ worker' => worker.Later worker') (fun _ worker' => worker.Later worker') worker := by
    unfold handleOutcome
    split
    · exact conforms_bind conforms_request fun _ _ h => h
    · exact .refl worker
    · exact conforms_ofExcept (fun _ _ => .refl worker) fun _ _ => .refl worker
  refine hlater.and_canEnd.mono ?_ fun _ _ h => h.1
  rintro state' worker' ⟨hlater, hend⟩
  refine ⟨hlater, .inr ?_⟩
  rcases handleOutcome_canEnd hend with ⟨-, approvalId, rfl⟩ | ⟨-, _, rfl⟩ | ⟨hstatus, happly⟩
  · exact .same ⟨rfl, rfl⟩ rfl rfl nofun fun _ _ => ⟨plan, step, _, hplan, hstep, rfl, hcall⟩
  · exact .failed rfl ⟨rfl, rfl⟩ rfl rfl rfl
  · have hgot := hgives.resolve_left fun h => by
      rw [hstatus] at h
      cases h
    obtain ⟨items, traceId, hitems, rfl⟩ := applyToolOutcome_eq_ok happly
    exact .gained (.inl ⟨rfl, hcall⟩) (hgot.later hlater) hitems ⟨rfl, rfl⟩ rfl rfl (.inl rfl)

theorem conforms_stepMetered {step : PlanStep} {ledger : BudgetLedger} :
    (toolMonitor ρ nodes.approvals.tools).Conforms (nodes.stepMetered state step ledger)
      (fun r worker' => worker.Later worker' ∧ ∀ outcome, r.1 = .ok outcome →
        outcome.status = .approvalRequired ∨
          Gives nodes.approvals.tools worker' (stepInvocation state step) outcome)
      (fun _ _ => False) worker := by
  have hexecute : ∀ (ledger : BudgetLedger), (toolMonitor ρ nodes.approvals.tools).Conforms
      (nodes.approvals.tools.execute (stepInvocation state step) state.context false ledger)
      (fun r worker' => worker.Later worker' ∧ ∀ outcome, r.1 = .ok outcome →
        outcome.status = .approvalRequired ∨
          Gives nodes.approvals.tools worker' (stepInvocation state step) outcome)
      (fun _ _ => False) worker := fun ledger =>
    conforms_execute.mono
      (fun _ _ h => ⟨h.1, fun outcome houtcome => (h.2 outcome houtcome).imp And.left id⟩)
      fun _ _ h => h
  rw [stepMetered_eq]
  refine Local.conforms_bind (R := fun _ worker' => worker = worker') rfl ?_ ?_
  · rintro _ ledger _ rfl
    unfold stepWithIteration
    split
    · refine Local.conforms_bind (R := fun _ worker' => worker = worker') rfl ?_ ?_
      · rintro _ ledger _ rfl
        exact hexecute ledger
      · rintro e ledger _ rfl
        exact ⟨.refl _, nofun⟩
    · exact hexecute ledger
  · rintro e ledger _ rfl
    exact ⟨.refl _, nofun⟩

theorem conforms_executeStep :
    NodeConforms nodes worker .executeStep state (nodes.executeStep state) := by
  unfold executeStep
  cases hplan : state.plan with
  | none => exact .refl worker
  | some plan =>
    dsimp only
    cases hstep : plan.steps[state.currentStep]? with
    | none =>
      refine ⟨.refl worker, .inr (.same ⟨rfl, rfl⟩ rfl rfl nofun fun hstatus h => ?_)⟩
      exact absurd (approvalRequired_of_next h) hstatus
    | some step =>
      refine conforms_bind (conforms_stepMetered.mono (fun _ _ h => h) fun _ _ h => h.elim) ?_
      rintro ⟨result, ledger⟩ worker₁ ⟨hlater, hgives⟩
      dsimp only
      split
      · refine ⟨hlater, .inr (.same ⟨rfl, rfl⟩ rfl rfl nofun fun _ h => ?_)⟩
        have hstatus := approvalRequired_of_next h
        simp only [exhaustedStep] at hstatus
        split at hstatus <;> cases hstatus
      · refine ⟨hlater, .inr (.same ⟨rfl, rfl⟩ rfl rfl nofun fun _ h => ?_)⟩
        cases approvalRequired_of_next h
      · rename_i outcome
        have houtcome : NodeConforms nodes worker₁ .executeStep state
            (nodes.handleOutcome state step ledger outcome) :=
          conforms_handleOutcome hplan hstep (hgives outcome rfl)
        exact Conforms.mono houtcome (fun _ _ h => ⟨hlater.trans h.1, h.2⟩)
          fun _ _ h => hlater.trans h

theorem conforms_awaitApproval :
    NodeConforms nodes worker .awaitApproval state (nodes.awaitApproval state) := by
  unfold awaitApproval
  split
  · rename_i approvalId invocation happroval hinvocation
    refine conforms_bind conforms_getCurrent ?_
    intro approval worker₁ hlater₁
    have hpending : ∀ state', Agent.next .awaitApproval state' ≠ some Node.awaitApproval :=
      fun state' => next_ne_awaitApproval nofun
    split
    · exact ⟨hlater₁, .inr (.same ⟨rfl, rfl⟩ rfl rfl nofun fun _ h => absurd h (hpending _))⟩
    · refine conforms_bind (conforms_resume.mono (fun _ _ h => h) fun _ _ h => h.elim) ?_
      rintro ⟨result, ledger⟩ worker₂ ⟨hlater₂, hgives⟩
      replace hlater₂ := hlater₁.trans hlater₂
      cases result with
      | error e =>
        exact ⟨hlater₂, .inr (.same ⟨rfl, rfl⟩ rfl rfl nofun fun _ h => absurd h (hpending _))⟩
      | ok outcome =>
        refine conforms_bind (R := fun stepId worker' => worker₂ = worker' ∧
          pendingStepId state = .ok stepId)
          (conforms_ofExcept (fun stepId h => ⟨rfl, h⟩) fun _ _ => hlater₂) ?_
        rintro stepId _ ⟨rfl, hstepId⟩
        refine conforms_bind (R := fun applied worker' => worker₂ = worker' ∧
          nodes.applyToolOutcome state stepId outcome ledger = .ok applied)
          (conforms_ofExcept (fun applied h => ⟨rfl, h⟩) fun _ _ => hlater₂) ?_
        rintro applied _ ⟨rfl, happlied⟩
        refine ⟨hlater₂, (hgives outcome rfl).imp id fun hgot => ?_⟩
        obtain ⟨items, traceId, hitems, rfl⟩ := applyToolOutcome_eq_ok happlied
        exact .gained (.inr ⟨rfl, hinvocation, hstepId⟩) hgot hitems ⟨rfl, rfl⟩ rfl rfl (.inr rfl)
  · exact .refl worker

/-- Every node does to the state what its effect says, unless an approval is replayed. -/
theorem conforms_run (node : Node) : NodeConforms nodes worker node state (nodes.run node state) :=
  match node with
  | .route => conforms_route
  | .directRag => conforms_directRag
  | .executeStep => conforms_executeStep
  | .awaitApproval => conforms_awaitApproval
  | .evaluate => conforms_evaluate
  | .finalize => conforms_finalize

end Worker

/-! ## Workers and checkpoints -/

/-- A worker stores the position after the node it has executed. -/
def MaySave (nodes : AgenticRagNodes) (worker : Worker ρ) (run : ρ) (position : Position) : Prop :=
  ∃ node state state', worker.loaded = some (run, .before node state) ∧
    position = .after node state' ∧
    (worker.replaying = true ∨ Effect nodes worker node state state')

def runMonitor (ρ : Type) (nodes : AgenticRagNodes) :
    Monitor (RunCall ρ) AgentException (Worker ρ) where
  licit := fun worker _ c =>
    match c with
    | .agent c => worker.May nodes.approvals.tools c
    | .load _ => worker.advances = true
    | .save run position => MaySave nodes worker run position
    | .restart => True
  next := fun worker _ c =>
    match c with
    | .agent c => fun r => worker.next c r
    | .load run => fun
      | .ok position => { worker with loaded := some (run, position) }
      | .error _ => worker
    | _ => fun _ => worker

/-- A program of the services is watched by the monitor for tools. -/
theorem conforms_embed_agent {nodes : AgenticRagNodes} {α : Type} {p : Service α}
    {Q : α → Worker ρ → Prop} {E : AgentException → Worker ρ → Prop} {worker : Worker ρ}
    (h : (toolMonitor ρ nodes.approvals.tools).Conforms p Q E worker) :
    (runMonitor ρ nodes).Conforms (p.embed RunCall.agent) Q E worker :=
  Monitor.conforms_embed (fun _ _ _ h => h) (fun _ _ _ _ => rfl) h

theorem conforms_advance (nodes : AgenticRagNodes) (run : ρ) {worker : Worker ρ}
    (hworker : worker.advances = true) : (runMonitor ρ nodes).Conforms (advance nodes run)
      (fun _ _ => True) (fun _ _ => True) worker := by
  refine Monitor.conforms_bind (R := fun position worker' =>
    worker'.loaded = some (run, position))
    (Monitor.conforms_perform hworker (fun _ => rfl) fun _ => trivial) ?_
  intro position worker₁ hloaded
  cases position with
  | ended state => trivial
  | before node state =>
    have hrun : Worker.NodeConforms nodes worker₁ node state (nodes.run node state) :=
      Worker.conforms_run node
    refine Monitor.conforms_bind
      (conforms_embed_agent (hrun.mono (fun _ _ h => h) fun _ _ _ => trivial)) ?_
    rintro state' worker₂ ⟨hlater, heffect⟩
    refine Monitor.conforms_perform ?_ (fun _ => trivial) fun _ => trivial
    exact ⟨node, state, state', hlater.loaded.trans hloaded, rfl, heffect⟩

def AgentCommand.advances : AgentCommand ρ → Bool
  | advance _ => true
  | approval _ => false
  | restart => false

/-- **The programs conform**: whatever goes on, only what follows from the answers of the tools
is put into the maps and into the checkpoints. -/
theorem conforms_command (nodes : AgenticRagNodes) (command : AgentCommand ρ) :
    (runMonitor ρ nodes).Conforms (command.program nodes) (fun _ _ => True) (fun _ _ => True)
      { advances := command.advances } := by
  cases command with
  | advance run => exact conforms_advance nodes run rfl
  | approval command => exact conforms_embed_agent (Worker.conforms_approvalCommand command)
  | restart => exact Monitor.conforms_perform trivial (fun _ => trivial) fun _ => trivial

end Agent
end RagflowAgent
