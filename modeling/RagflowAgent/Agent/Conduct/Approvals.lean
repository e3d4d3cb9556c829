import RagflowAgent.Agent.Application.Hitl

/-!
# What the callers of the approval service do

Any number of callers decide, look at and resume approval requests, each of them working on
a copy that may be stale.  What one of them does with the table of requests is said once, by
a monitor, and the programs of the service are checked against it once.

* `Writes` are the copies that a caller may write, `ApprovalStatus.transitions` what they do
  to the status;
* `Caller` is what a watcher knows of a caller: the rows it has seen, and whether it has
  claimed the request and entered the execution;
* `conforms_program` says that the programs conform to `approvalMonitor`.
-/

namespace RagflowAgent
namespace Agent

open Interleaving

/-! ## Callers -/

/-- The calls on approval requests. -/
inductive ApprovalCommand where
  | decide (approvalId : String) (context : ToolAuthorizationContext)
      (decision : ApprovalDecision)
  | getCurrent (approvalId tenantId : String)
  | resume (approvalId : String) (invocation : ToolInvocation)
      (context : ToolAuthorizationContext) (budget : BudgetLedger)

namespace ApprovalCommand

/-- The request a command is about: its tenant and its id. -/
def approval : ApprovalCommand → String × String
  | decide approvalId context _ => (context.tenantId, approvalId)
  | getCurrent approvalId tenantId => (tenantId, approvalId)
  | resume approvalId _ context _ => (context.tenantId, approvalId)

def program (service : ApprovalService) : ApprovalCommand → Service Unit
  | decide approvalId context decision => (ApprovalService.decide approvalId context decision).void
  | getCurrent approvalId tenantId => (ApprovalService.getCurrent approvalId tenantId).void
  | resume approvalId invocation context budget =>
    Prog.void (service.resume approvalId invocation context budget)

end ApprovalCommand

/-- The edges along which the status of a request moves. -/
def ApprovalStatus.transitions : ApprovalStatus → List ApprovalStatus
  | approvalRequired => [approved, rejected, cancelled, expired]
  | approved => [executing]
  | executing => [succeeded, failed]
  | _ => []

/-- The request has been claimed for execution. -/
def ApprovalStatus.Claimed (status : ApprovalStatus) : Prop :=
  status = executing ∨ status = succeeded ∨ status = failed

/-- A claimed request stays claimed. -/
theorem ApprovalStatus.Claimed.transition {status status' : ApprovalStatus}
    (h : status.Claimed) (hstatus : status' ∈ status.transitions) : status'.Claimed := by
  rcases h with rfl | rfl | rfl
  · simp only [transitions, List.mem_cons, List.not_mem_nil, or_false] at hstatus
    rcases hstatus with rfl | rfl
    · exact .inr (.inl rfl)
    · exact .inr (.inr rfl)
  · simp [transitions] at hstatus
  · simp [transitions] at hstatus

/-- The copies a command may write of a row it has seen. -/
inductive Writes : ApprovalCommand → ApprovalRequest → ApprovalRequest → Prop where
  | expire {command item} (hitem : item.status = .approvalRequired) :
    Writes command item item.expire
  | decide {approvalId context decision item status now}
    (hitem : item.status = .approvalRequired)
    (hstatus : ApprovalService.decidedStatus item context decision = .ok status) :
    Writes (.decide approvalId context decision) item
      (item.decideAs status context.actorId now)
  | claim {approvalId invocation context budget item} (hitem : item.status = .approved) :
    Writes (.resume approvalId invocation context budget) item item.claim
  | fail {approvalId invocation context budget item} (hitem : item.status = .executing) :
    Writes (.resume approvalId invocation context budget) item item.fail
  | succeed {approvalId invocation context budget item summary}
    (hitem : item.status = .executing) :
    Writes (.resume approvalId invocation context budget) item (item.succeed summary)

/-- What a decision that is let through can lead to. -/
theorem decidedStatus_eq_ok {item : ApprovalRequest} {context : ToolAuthorizationContext}
    {decision : ApprovalDecision} {status : ApprovalStatus}
    (h : ApprovalService.decidedStatus item context decision = .ok status) :
    status = .cancelled ∨
      intersects context.roles item.requiredRoles = true ∧
        (decision = .approve ∧ status = .approved ∨ status = .rejected) := by
  cases decision with
  | cancel =>
    simp only [ApprovalService.decidedStatus] at h
    split at h
    · cases h
    · cases h
      exact .inl rfl
  | approve =>
    simp only [ApprovalService.decidedStatus] at h
    split at h
    · cases h
    · rename_i hroles
      cases h
      exact .inr ⟨by simpa using fun hno => hroles (.inr hno), .inl ⟨rfl, rfl⟩⟩
  | reject =>
    simp only [ApprovalService.decidedStatus] at h
    split at h
    · cases h
    · rename_i hroles
      cases h
      exact .inr ⟨by simpa using fun hno => hroles (.inr hno), .inr rfl⟩

namespace Writes

variable {command : ApprovalCommand} {item request : ApprovalRequest}

/-- **A copy moves the status along an edge, and the revision by one.** -/
theorem transition (h : Writes command item request) :
    request.status ∈ item.status.transitions ∧ request.revision = item.revision + 1 := by
  cases h with
  | expire hitem => exact ⟨by simp [hitem, ApprovalRequest.expire, ApprovalStatus.transitions], rfl⟩
  | decide hitem hstatus =>
    refine ⟨?_, rfl⟩
    rw [hitem]
    change _ ∈ [_, _, _, _]
    rcases decidedStatus_eq_ok hstatus with h | ⟨-, ⟨-, h⟩ | h⟩ <;> subst h <;>
      simp [ApprovalRequest.decideAs]
  | claim hitem => exact ⟨by simp [hitem, ApprovalRequest.claim, ApprovalStatus.transitions], rfl⟩
  | fail hitem => exact ⟨by simp [hitem, ApprovalRequest.fail, ApprovalStatus.transitions], rfl⟩
  | succeed hitem =>
    exact ⟨by simp [hitem, ApprovalRequest.succeed, ApprovalStatus.transitions], rfl⟩

/-- A copy is about the same request, and asks for the same roles. -/
theorem same (h : Writes command item request) :
    request.tenantId = item.tenantId ∧ request.approvalId = item.approvalId ∧
      request.requiredRoles = item.requiredRoles := by
  cases h <;> exact ⟨rfl, rfl, rfl⟩

/-- A request becomes executing by a claim of what is approved. -/
theorem approved_of_executing (h : Writes command item request)
    (hrequest : request.status = .executing) : item.status = .approved := by
  cases h with
  | claim hitem => exact hitem
  | decide hitem hstatus =>
    change _ = _ at hrequest
    rcases decidedStatus_eq_ok hstatus with h | ⟨-, ⟨-, h⟩ | h⟩ <;> subst h <;> cases hrequest
  | _ => cases hrequest

/-- A request becomes approved by somebody with a required role who approves it. -/
theorem decide_of_approved (h : Writes command item request)
    (hrequest : request.status = .approved) :
    item.status = .approvalRequired ∧ ∃ approvalId context,
      command = .decide approvalId context .approve ∧
        request.decidedBy = some context.actorId ∧
        ∃ role ∈ context.roles, role ∈ request.requiredRoles := by
  cases h with
  | decide hitem hstatus =>
    change _ = _ at hrequest
    rcases decidedStatus_eq_ok hstatus with h | ⟨hroles, ⟨rfl, h⟩ | h⟩
    · rw [h] at hrequest
      cases hrequest
    · refine ⟨hitem, _, _, rfl, rfl, ?_⟩
      simpa [intersects, ApprovalRequest.decideAs] using hroles
    · rw [h] at hrequest
      cases hrequest
  | _ => cases hrequest

end Writes

/-! ## Watching a caller -/

/-- What a watcher knows of a caller. -/
structure Caller where
  command : ApprovalCommand
  /-- The rows that were read or written. -/
  seen : List ApprovalRequest := []
  /-- The request was claimed and the execution not entered yet. -/
  claimed : Bool := false
  entered : Bool := false

/-- A caller that holds the claim, or has used it. -/
def Caller.Owns (caller : Caller) : Prop := caller.claimed = true ∨ caller.entered = true

/-- What a watcher makes of an answer. -/
def Caller.next (caller : Caller) {β : Type} : Call β → Except AgentException β → Caller
  | .getApproval _ _ => fun
    | .ok (some item) => { caller with seen := item :: caller.seen }
    | _ => caller
  | .compareAndSet _ _ _ request => fun
    | .ok true =>
      { caller with
        seen := request :: caller.seen
        claimed := caller.claimed || decide (request.status = .executing) }
    | _ => caller
  | .enter _ _ _ => fun _ => { caller with claimed := false, entered := true }
  | _ => fun _ => caller

/-- The calls a caller may make. -/
def Caller.May (caller : Caller) {β : Type} : Call β → Prop
  | .getApproval tenantId approvalId => (tenantId, approvalId) = caller.command.approval
  | .compareAndSet tenantId approvalId expectedRevision request =>
    ∃ item ∈ caller.seen, tenantId = item.tenantId ∧ approvalId = item.approvalId ∧
      expectedRevision = item.revision ∧ Writes caller.command item request
  | .enter _ _ approved => approved = true ∧ caller.claimed = true
  | .saveApproval _ => False
  | _ => True

def approvalMonitor : Monitor Call AgentException Caller where
  licit := fun caller _ c => caller.May c
  next := fun caller _ c r => caller.next c r

namespace Caller

/-- A caller later on: the same command, and at least the same rows seen. -/
structure Later (caller caller' : Caller) : Prop where
  command : caller'.command = caller.command
  seen : caller.seen ⊆ caller'.seen
  claimed : caller'.claimed = caller.claimed
  entered : caller'.entered = caller.entered

theorem Later.refl (caller : Caller) : caller.Later caller := ⟨rfl, fun _ h => h, rfl, rfl⟩

theorem Later.trans {c₁ c₂ c₃ : Caller} (h : c₁.Later c₂) (h' : c₂.Later c₃) : c₁.Later c₃ :=
  ⟨h'.command.trans h.command, fun _ hitem => h'.seen (h.seen hitem),
    h'.claimed.trans h.claimed, h'.entered.trans h.entered⟩

end Caller

/-! ## The programs conform -/

section Conforms

open Monitor

variable {caller : Caller} {service : ApprovalService}

/-- Reading a request shows its row. -/
theorem conforms_require {approvalId tenantId : String}
    (h : caller.command.approval = (tenantId, approvalId)) :
    approvalMonitor.Conforms (ApprovalService.require approvalId tenantId)
      (fun item caller' => caller.Later caller' ∧ item ∈ caller'.seen) (fun _ _ => True)
      caller := by
  refine conforms_bind (R := fun o caller' => caller.Later caller' ∧ ∀ item, o = some item →
    item ∈ caller'.seen) ?_ ?_
  · refine conforms_perform h.symm (fun o => ?_) fun _ => trivial
    cases o with
    | none => exact ⟨.refl caller, nofun⟩
    | some item =>
      refine ⟨⟨rfl, List.subset_cons_self _ _, rfl, rfl⟩, fun item' hitem' => ?_⟩
      cases hitem'
      exact List.mem_cons_self
  · rintro o caller' ⟨hlater, hseen⟩
    cases o with
    | none => trivial
    | some item => exact ⟨hlater, hseen item rfl⟩

/-- Writing a copy of a row that was seen; the copy is no claim. -/
theorem conforms_write {item request : ApprovalRequest} (hitem : item ∈ caller.seen)
    (hwrites : Writes caller.command item request) (hrequest : request.status ≠ .executing) :
    approvalMonitor.Conforms (ApprovalService.write item request)
      (fun _ caller' => caller.Later caller') (fun _ caller' => caller.Later caller')
      caller := by
  refine conforms_perform ⟨item, hitem, rfl, rfl, rfl, hwrites⟩ (fun b => ?_) fun _ => .refl _
  cases b with
  | false => exact .refl caller
  | true =>
    have hclaimed : (caller.claimed || decide (request.status = .executing)) = caller.claimed := by
      simp [hrequest]
    exact ⟨rfl, List.subset_cons_self _ _, hclaimed, rfl⟩

/-- What comes back from `expireIfNeeded` was seen, or is expired. -/
theorem conforms_expireIfNeeded {item : ApprovalRequest} (hitem : item ∈ caller.seen) :
    approvalMonitor.Conforms (ApprovalService.expireIfNeeded item)
      (fun item' caller' => caller.Later caller' ∧
        (item' ∈ caller'.seen ∨ item'.status = .expired)) (fun _ _ => True) caller := by
  unfold ApprovalService.expireIfNeeded
  split
  · exact ⟨.refl caller, .inl hitem⟩
  · rename_i hstatus
    rw [not_not] at hstatus
    refine conforms_bind (R := fun _ caller' => caller' = caller)
      (conforms_perform trivial (fun _ => rfl) fun _ => trivial) ?_
    rintro now _ rfl
    split
    · exact ⟨.refl _, .inl hitem⟩
    · have hwrite := conforms_write hitem (.expire hstatus) (by simp [ApprovalRequest.expire])
      refine conforms_bind (hwrite.mono (fun _ _ h => h) fun _ _ _ => trivial) ?_
      exact fun _ caller' hlater => ⟨hlater, .inr rfl⟩

theorem conforms_decide {approvalId : String} {context : ToolAuthorizationContext}
    {decision : ApprovalDecision} (h : caller.command = .decide approvalId context decision) :
    approvalMonitor.Conforms (ApprovalService.decide approvalId context decision)
      (fun _ _ => True) (fun _ _ => True) caller := by
  have happroval : caller.command.approval = (context.tenantId, approvalId) := by rw [h]; rfl
  refine conforms_bind (conforms_require happroval) ?_
  rintro item caller₁ ⟨hlater₁, hseen₁⟩
  refine conforms_bind (conforms_expireIfNeeded hseen₁) ?_
  rintro item caller₂ ⟨hlater₂, hitem⟩
  have hlater := hlater₁.trans hlater₂
  split
  · trivial
  rename_i hstatus
  rw [not_not] at hstatus
  have hseen : item ∈ caller₂.seen := hitem.resolve_right fun hexpired => by
    rw [hstatus] at hexpired
    cases hexpired
  refine conforms_bind (R := fun status caller' => caller₂ = caller' ∧
    ApprovalService.decidedStatus item context decision = .ok status)
    (conforms_ofExcept (fun status hok => ⟨rfl, hok⟩) fun _ _ => trivial) ?_
  rintro status _ ⟨rfl, hdecided⟩
  refine conforms_bind (R := fun _ caller' => caller₂ = caller')
    (conforms_perform trivial (fun _ => rfl) fun _ => trivial) ?_
  rintro now _ rfl
  have hwrites : Writes caller₂.command item (item.decideAs status context.actorId now) := by
    rw [hlater.command, h]
    exact .decide hstatus hdecided
  have hnot : (item.decideAs status context.actorId now).status ≠ .executing := by
    change status ≠ _
    rcases decidedStatus_eq_ok hdecided with hs | ⟨-, ⟨-, hs⟩ | hs⟩ <;> rw [hs] <;> simp
  have hwrite := conforms_write hseen hwrites hnot
  refine conforms_bind (hwrite.mono (fun _ _ h => h) fun _ _ _ => trivial) ?_
  intro b caller₃ hlater₃
  cases b with
  | true => trivial
  | false =>
    have happroval₃ : caller₃.command.approval = (context.tenantId, approvalId) := by
      rw [hlater₃.command, hlater.command, happroval]
    exact (conforms_require happroval₃).mono (fun _ _ _ => trivial) fun _ _ h => h

theorem conforms_getCurrent {approvalId tenantId : String}
    (h : caller.command = .getCurrent approvalId tenantId) :
    approvalMonitor.Conforms (ApprovalService.getCurrent approvalId tenantId)
      (fun _ _ => True) (fun _ _ => True) caller := by
  have happroval : caller.command.approval = (tenantId, approvalId) := by rw [h]; rfl
  refine conforms_bind (conforms_require happroval) ?_
  rintro item caller₁ ⟨-, hseen⟩
  exact (conforms_expireIfNeeded hseen).mono (fun _ _ _ => trivial) fun _ _ h => h

/-- Calls that the watcher does not care for leave it where it is. -/
theorem conforms_quiet {β : Type} {c : Call β} (hc : approvalMonitor.licit caller c)
    (hnext : ∀ r, approvalMonitor.next caller c r = caller) :
    approvalMonitor.Conforms (Prog.perform c) (fun _ caller' => caller = caller')
      (fun _ caller' => caller = caller') caller :=
  conforms_perform hc (fun _ => (hnext _).symm) fun _ => (hnext _).symm

theorem conforms_tryInvoke {invocation : ToolInvocation} {context : ToolAuthorizationContext} :
    approvalMonitor.Conforms (SecureToolExecutionService.tryInvoke invocation context)
      (fun _ caller' => caller = caller') (fun _ caller' => caller = caller') caller := by
  refine Monitor.conforms_attempt (R := fun _ caller' => caller = caller') ?_ ?_
  · exact Monitor.conforms_bind (conforms_quiet trivial fun _ => rfl) fun _ _ h => h
  · rintro e _ rfl
    cases e <;> rfl

theorem conforms_attempt {invocation : ToolInvocation} {context : ToolAuthorizationContext}
    {budget : BudgetLedger} :
    approvalMonitor.Conforms (SecureToolExecutionService.attempt invocation context budget)
      (fun _ caller' => caller = caller') (fun _ _ => False) caller := by
  refine Local.conforms_bind (R := fun _ caller' => caller = caller') rfl ?_ fun _ _ _ h => h
  rintro _ budget _ rfl
  exact Local.conforms_lift conforms_tryInvoke

theorem conforms_attempts {invocation : ToolInvocation} {context : ToolAuthorizationContext}
    {retries : ℕ} {budget : BudgetLedger} :
    approvalMonitor.Conforms
      (SecureToolExecutionService.attempts invocation context retries budget)
      (fun _ caller' => caller = caller') (fun _ _ => False) caller := by
  induction retries generalizing budget with
  | zero => exact conforms_attempt
  | succ retries ih =>
    refine Local.conforms_bind conforms_attempt ?_ fun _ _ _ h => h
    rintro r budget _ rfl
    cases r with
    | ok output => rfl
    | error errorCode => exact ih

/-- The part of an execution behind the maps of the process. -/
theorem conforms_invokeTool {tools : SecureToolExecutionService}
    {registration : ToolRegistration} {invocation : ToolInvocation}
    {context : ToolAuthorizationContext} {budget : BudgetLedger} :
    approvalMonitor.Conforms (tools.invokeTool registration invocation context budget)
      (fun _ caller' => caller = caller') (fun _ _ => False) caller := by
  refine Local.conforms_bind conforms_attempts ?_ fun _ _ _ h => h
  rintro r budget _ rfl
  cases r with
  | error errorCode =>
    refine Local.conforms_bind_lift (conforms_quiet trivial fun _ => rfl) ?_ fun _ _ h => h
    exact fun _ _ h => h
  | ok rawOutput =>
    refine Local.conforms_bind_ofExcept (fun outcome _ => ?_) fun _ _ => rfl
    refine Local.conforms_bind_lift (conforms_quiet trivial fun _ => rfl) ?_ fun _ _ h => h
    rintro _ _ rfl
    refine Local.conforms_bind_lift (conforms_quiet trivial fun _ => rfl) ?_ fun _ _ h => h
    exact fun _ _ h => h

/-- **Executing uses up the claim**, whatever the tool does. -/
theorem conforms_execute {tools : SecureToolExecutionService} {invocation : ToolInvocation}
    {context : ToolAuthorizationContext} {budget : BudgetLedger}
    (hclaimed : caller.claimed = true) :
    approvalMonitor.Conforms (tools.execute invocation context true budget)
      (fun _ caller' => { caller with claimed := false, entered := true } = caller')
      (fun _ _ => False) caller := by
  refine Local.conforms_bind_lift
    (R := fun _ caller' => { caller with claimed := false, entered := true } = caller')
    (conforms_perform ⟨rfl, hclaimed⟩ (fun _ => rfl) fun _ => rfl) ?_ fun _ _ h => h
  rintro _ _ rfl
  refine Local.conforms_bind_ofExcept (fun checked _ => ?_) fun _ _ => rfl
  obtain ⟨registration, decision⟩ := checked
  dsimp only
  split
  · rfl
  refine Local.conforms_bind_lift (conforms_quiet trivial fun _ => rfl) ?_ fun _ _ h => h
  rintro existing _ rfl
  cases existing with
  | some existing =>
    dsimp only
    split <;> rfl
  | none =>
    refine Local.conforms_bind_lift (conforms_quiet trivial fun _ => rfl) ?_ fun _ _ h => h
    rintro successful _ rfl
    cases successful with
    | some successful =>
      refine Local.conforms_bind_lift (conforms_quiet trivial fun _ => rfl) ?_ fun _ _ h => h
      exact fun _ _ h => h
    | none =>
      dsimp only
      split
      · rfl
      · exact conforms_invokeTool

theorem conforms_executeClaimed {approvalId : String} {invocation : ToolInvocation}
    {context : ToolAuthorizationContext} {budget ledger : BudgetLedger}
    {executing : ApprovalRequest}
    (hcommand : caller.command = .resume approvalId invocation context ledger)
    (hexecuting : executing.status = .executing) (hseen : executing ∈ caller.seen)
    (hclaimed : caller.claimed = true) :
    approvalMonitor.Conforms (service.executeClaimed executing invocation context budget)
      (fun _ _ => True) (fun _ _ => False) caller := by
  refine Local.conforms_bind (R := fun r caller' => ∀ outcome, r.1 = .ok outcome →
    { caller with claimed := false, entered := true } = caller') ?_ ?_ fun _ _ _ _ => trivial
  · refine Local.conforms_attempt (conforms_execute hclaimed) (fun _ _ _ h _ _ => h) ?_
    rintro e budget _ rfl
    have hwrites : Writes caller.command executing executing.fail := by
      rw [hcommand]
      exact .fail hexecuting
    refine Local.conforms_bind_lift (conforms_write hseen hwrites ?_) ?_ ?_
    · simp [ApprovalRequest.fail]
    · exact fun _ _ _ _ => nofun
    · exact fun _ _ _ _ => nofun
  · intro outcome budget _ h
    obtain rfl := h outcome rfl
    have hwrites : Writes caller.command executing (executing.succeed outcome.summary) := by
      rw [hcommand]
      exact .succeed hexecuting
    refine Local.conforms_bind_lift (conforms_write hseen hwrites ?_) ?_ fun _ _ _ => trivial
    · simp [ApprovalRequest.succeed]
    · intro b _ _
      cases b <;> trivial

/-- A claim that is answered `true` was seen by the watcher. -/
theorem conforms_claim {item : ApprovalRequest} (hitem : item ∈ caller.seen)
    (hwrites : Writes caller.command item item.claim) :
    approvalMonitor.Conforms (ApprovalService.write item item.claim)
      (fun b caller' => caller'.command = caller.command ∧
        (b = true → item.claim ∈ caller'.seen ∧ caller'.claimed = true))
      (fun _ _ => True) caller := by
  refine conforms_perform ⟨item, hitem, rfl, rfl, rfl, hwrites⟩ (fun b => ?_) fun _ => trivial
  cases b with
  | false => exact ⟨rfl, nofun⟩
  | true =>
    refine ⟨rfl, fun _ => ⟨List.mem_cons_self, ?_⟩⟩
    change (_ || decide (ApprovalStatus.executing = .executing)) = true
    simp

theorem conforms_resume {approvalId : String} {invocation : ToolInvocation}
    {context : ToolAuthorizationContext} {budget : BudgetLedger}
    (h : caller.command = .resume approvalId invocation context budget) :
    approvalMonitor.Conforms (service.resume approvalId invocation context budget)
      (fun _ _ => True) (fun _ _ => False) caller := by
  have happroval : caller.command.approval = (context.tenantId, approvalId) := by rw [h]; rfl
  refine Local.conforms_bind_lift (conforms_require happroval) ?_ fun _ _ _ => trivial
  rintro item caller₁ ⟨hlater₁, hseen₁⟩
  refine Local.conforms_bind_lift (conforms_expireIfNeeded hseen₁) ?_ fun _ _ _ => trivial
  rintro item caller₂ ⟨hlater₂, hseen₂⟩
  have hlater := hlater₁.trans hlater₂
  split
  · trivial
  cases ApprovalService.replayed item with
  | some outcome => trivial
  | none =>
    dsimp only
    split
    · trivial
    rename_i hstatus
    rw [not_not] at hstatus
    have hseen : item ∈ caller₂.seen := hseen₂.resolve_right fun hexpired => by
      rw [hstatus] at hexpired
      cases hexpired
    refine Local.conforms_bind_ofExcept (fun policy _ => ?_) fun _ _ => trivial
    split
    · trivial
    have hwrites : Writes caller₂.command item item.claim := by
      rw [hlater.command, h]
      exact .claim hstatus
    refine Local.conforms_bind_lift (conforms_claim hseen hwrites) ?_ fun _ _ _ => trivial
    rintro b caller₃ ⟨hcommand, hclaim⟩
    rw [hlater.command] at hcommand
    cases b with
    | true =>
      obtain ⟨hmem, hclaimed⟩ := hclaim rfl
      exact conforms_executeClaimed (hcommand.trans h) rfl hmem hclaimed
    | false =>
      have happroval₃ : caller₃.command.approval = (context.tenantId, approvalId) := by
        rw [hcommand, happroval]
      refine Local.conforms_bind_lift (conforms_require happroval₃) ?_ fun _ _ _ => trivial
      intro current _ _
      cases ApprovalService.replayed current <;> trivial

/-- **The programs conform**: every caller does with the table what its command allows. -/
theorem conforms_program (command : ApprovalCommand) :
    approvalMonitor.Conforms (command.program service) (fun _ _ => True) (fun _ _ => True)
      { command := command } := by
  cases command with
  | decide approvalId context decision =>
    exact conforms_bind (conforms_decide rfl) fun _ _ _ => trivial
  | getCurrent approvalId tenantId =>
    exact conforms_bind (conforms_getCurrent rfl) fun _ _ _ => trivial
  | resume approvalId invocation context budget =>
    exact conforms_bind ((conforms_resume rfl).mono (fun _ _ h => h) fun _ _ _ => trivial)
      fun _ _ _ => trivial

end Conforms

end Agent
end RagflowAgent
