import RagflowAgent.Agent.Guarantees.ResumedApproval

/-!
# What a resumed approval stores

The tool execution service says in two ways that a call has failed: it raises, or it returns an
outcome that is not a success.  `resume` stores a failure only when it raises; an outcome is stored
as a success, whatever it says, and a later `resume` reports a success.

* `execute_alone`: what the execution service raises is raised to `resume`;
* `executeClaimed_alone` and `resume_alone` are the runs of a claimed request;
* `StoresOutcome` is what is asked of a run, `resume_storesOutcome_iff` when it is so.
-/

namespace RagflowAgent
namespace Agent

open Interleaving

/-! ## Runs whose own calls do not fail -/

section Alone

variable {service : ApprovalService} {approvalId : String} {invocation : ToolInvocation}
  {context : ToolAuthorizationContext} {row : AgentApprovalRow} {w : World} {x : ℕ → Input}

/-- **The execution of a call ends**, with an outcome or with what it raises. -/
theorem execute_alone (tools : SecureToolExecutionService) (invocation : ToolInvocation)
    (context : ToolAuthorizationContext) (budget : BudgetLedger) (x : ℕ → Input) (w : World) :
    ∃ result ledger w',
      (tools.execute invocation context true budget).runAlone exec x w =
          (.ok (result, ledger), w') ∧
        w'.approvals = w.approvals := by
  have happrovals := execute_approvals tools invocation context true budget x w
  let caller : Caller := { command := .getCurrent "" "", claimed := true }
  have hclaimed : caller.claimed = true := rfl
  obtain ⟨_, -, hend⟩ := Monitor.Conforms.runAlone (I := fun _ _ => True) (x := x) (s := w)
    (conforms_execute hclaimed : approvalMonitor.Conforms _ _ _ caller)
    (fun _ _ _ _ _ _ _ => trivial) trivial
  rcases hrun : (tools.execute invocation context true budget).runAlone exec x w with ⟨r, w'⟩
  rw [hrun] at hend happrovals
  cases r with
  | error e => exact hend.elim
  | ok r => exact ⟨r.1, r.2, w', rfl, happrovals⟩

/-- A compare-and-set that does not fail, at the revision of the row. -/
theorem write_faultless {item : ApprovalRequest} (request : ApprovalRequest)
    (hrow : w.approvals.get (item.tenantId, item.approvalId) = some row)
    (hrevision : row.revision = item.revision) (hx : (x 0).Faultless) :
    (ApprovalService.write item request).runAlone exec x w = (.ok true, w.store row request) := by
  rcases write_alone request hrow hrevision x with ⟨e, hwrite⟩ | hwrite
  · rw [ApprovalService.write, Prog.runAlone_perform] at hwrite
    simp [exec, hx.fault, hx.lateFault, Call.effect, hrow, hrevision] at hwrite
  · rwa [hx.lateFault] at hwrite

/-- The copy that is written when the execution has ended. -/
def ApprovalRequest.settle (executing : ApprovalRequest) :
    Except AgentException ToolExecutionOutcome → ApprovalRequest
  | .ok outcome => executing.succeed outcome.summary
  | .error _ => executing.fail

/-- **A claimed request** is settled, and what the execution has returned or raised is passed
on. -/
theorem executeClaimed_alone {executing : ApprovalRequest} {budget ledger : BudgetLedger}
    {result : Except AgentException ToolExecutionOutcome} {w' : World}
    (hrow : w.approvals.get (executing.tenantId, executing.approvalId) = some row)
    (hrevision : row.revision = executing.revision)
    (hexecute : (service.tools.execute invocation context true budget).runAlone exec x w =
      (.ok (result, ledger), w'))
    (hx : (x ((service.tools.execute invocation context true budget).callsAlone exec x
      w)).Faultless) :
    (service.executeClaimed executing invocation context budget).runAlone exec x w =
      (.ok (result, ledger), w'.store row (executing.settle result)) := by
  have happrovals : w'.approvals = w.approvals := by
    have h := execute_approvals service.tools invocation context true budget x w
    rwa [hexecute] at h
  have hrow' : w'.approvals.get (executing.tenantId, executing.approvalId) = some row := by
    rw [happrovals, hrow]
  unfold ApprovalService.executeClaimed
  cases result with
  | error error =>
    have hwrite := write_faultless (x := fun n => x (n + (service.tools.execute invocation context
      true budget).callsAlone exec x w)) executing.fail hrow' hrevision
        (by rw [Nat.zero_add]; exact hx)
    have hhandler : Prog.runAlone exec
        (((Local.lift (ApprovalService.write executing executing.fail)).bind
          fun _ => Local.raise error : Metered ToolExecutionOutcome) ledger) _ w' =
        (.ok (.error error, ledger), w'.store row executing.fail) :=
      Local.runAlone_bind_ok (Local.runAlone_lift_ok hwrite)
    have hattempt := (Local.runAlone_attempt_error (h := fun error =>
      (Local.lift (ApprovalService.write executing executing.fail)).bind fun _ =>
        Local.raise error) hexecute).trans hhandler
    exact Local.runAlone_bind_error hattempt
  | ok outcome =>
    have hwrite := write_faultless (x := fun n => x (n + (service.tools.execute invocation context
      true budget).callsAlone exec x w)) (executing.succeed outcome.summary) hrow' hrevision
        (by rw [Nat.zero_add]; exact hx)
    refine (Local.runAlone_bind_ok (Local.runAlone_attempt_ok hexecute)).trans ?_
    rw [Local.callsAlone_attempt_ok hexecute]
    exact Local.runAlone_bind_ok (Local.runAlone_lift_ok hwrite)

/-- The request is one that `resume` claims for execution. -/
structure Claimable (service : ApprovalService) (approvalId : String) (invocation : ToolInvocation)
    (context : ToolAuthorizationContext) (row : AgentApprovalRow) (w : World) : Prop where
  stored : w.approvals.get (context.tenantId, approvalId) = some row
  consistent : row.Consistent
  approved : row.payload.status = .approved
  isFor : row.payload.IsFor service.tools.host invocation
  allowed : ∃ policy, service.tools.authorize invocation context = .ok policy ∧
    policy.action ≠ .deny

namespace Claimable

variable (h : Claimable service approvalId invocation context row w)
include h

theorem key_eq : (row.payload.tenantId, row.payload.approvalId) =
    (context.tenantId, approvalId) := by
  have hkey : (row.tenantId, row.approvalId) = (context.tenantId, approvalId) :=
    Table.key_of_get h.stored
  rw [h.consistent.tenantId, h.consistent.approvalId, hkey]

/-- The row, once the request is claimed. -/
theorem get_claimed : (claimedWorld w row).approvals.get
    (row.payload.claim.tenantId, row.payload.claim.approvalId) = some row.claimed := by
  have hkey : (row.payload.claim.tenantId, row.payload.claim.approvalId) =
      (context.tenantId, approvalId) := h.key_eq
  rw [hkey]
  exact World.get_store h.stored row.payload.claim

end Claimable

/-- **Resuming a request that is approved** claims it, executes the call and settles it, when the
calls of the service itself do not fail. -/
theorem resume_alone {budget ledger : BudgetLedger}
    {result : Except AgentException ToolExecutionOutcome} {w' : World}
    (h : Claimable service approvalId invocation context row w) (hread : (x 0).Faultless)
    (hclaim : (x 1).Faultless)
    (hexecute : (service.tools.execute invocation context true budget).runAlone exec
      (fun n => x (n + 2)) (claimedWorld w row) = (.ok (result, ledger), w'))
    (hsettle : (x ((service.tools.execute invocation context true budget).callsAlone exec
      (fun n => x (n + 2)) (claimedWorld w row) + 2)).Faultless) :
    (service.resume approvalId invocation context budget).runAlone exec x w =
      (.ok (result, ledger), w'.store row.claimed (row.payload.claim.settle result)) := by
  unfold ApprovalService.resume
  have hrequire := require_faultless h.stored hread
  refine (Local.runAlone_bind_ok (Local.runAlone_lift_ok hrequire)).trans ?_
  rw [Local.callsAlone_lift, callsAlone_require hrequire,
    expireIfNeeded_of_ne (by simp [h.approved])]
  refine (Local.runAlone_bind_ok (Local.runAlone_lift_ok rfl)).trans ?_
  have hreplayed : ApprovalService.replayed row.payload = none := by
    simp [ApprovalService.replayed, h.approved]
  rw [if_neg (not_not.2 h.isFor), hreplayed, if_neg (not_not.2 h.approved)]
  obtain ⟨policy, hpolicy, hallowed⟩ := h.allowed
  rw [hpolicy]
  refine (Local.runAlone_bind_ok rfl).trans ?_
  rw [if_neg hallowed]
  -- everything since the request was read was decided without a call
  change Prog.runAlone exec _ (fun n => x (n + 1)) w = _
  have hrow : w.approvals.get (row.payload.tenantId, row.payload.approvalId) = some row := by
    rw [h.key_eq, h.stored]
  have hwrite := write_faultless (x := fun n => x (n + 1)) row.payload.claim hrow
    h.consistent.revision.symm hclaim
  refine (Local.runAlone_bind_ok (Local.runAlone_lift_ok hwrite)).trans ?_
  rw [Local.callsAlone_lift, ApprovalService.write, Prog.callsAlone_perform]
  exact executeClaimed_alone h.get_claimed rfl hexecute hsettle

end Alone

/-! ## What is stored, and reported later -/

/-- A run of `resume` reports a success. -/
def ReportsSuccess
    (r : Except AgentException (Except AgentException ToolExecutionOutcome × BudgetLedger)) :
    Prop :=
  ∃ outcome ledger, r = .ok (.ok outcome, ledger) ∧ outcome.status = .success

/-- The status of a stored request. -/
def StoredAs (w : World) (tenantId approvalId : String) (status : ApprovalStatus) : Prop :=
  ∃ row, w.approvals.get (tenantId, approvalId) = some row ∧ row.payload.status = status

/-- What `resume` stores and reports is what the execution of the call came to.  A later `resume`
is any run of it for the same request and call, by anybody in the tenant, in any world with this
row, whose reading of the request does not fail. -/
structure StoresOutcome (service : ApprovalService) (approvalId : String)
    (invocation : ToolInvocation) (context : ToolAuthorizationContext)
    (executed r : Except AgentException
      (Except AgentException ToolExecutionOutcome × BudgetLedger)) (w₁ : World) : Prop where
  succeeded : StoredAs w₁ context.tenantId approvalId .succeeded ↔ ReportsSuccess executed
  failed : ¬ ReportsSuccess executed → StoredAs w₁ context.tenantId approvalId .failed
  later : ∀ (context' : ToolAuthorizationContext) (budget' : BudgetLedger) (x' : ℕ → Input)
    (w₂ : World), context'.tenantId = context.tenantId →
    w₂.approvals.get (context.tenantId, approvalId) =
      w₁.approvals.get (context.tenantId, approvalId) → (x' 0).Faultless →
    (ReportsSuccess ((service.resume approvalId invocation context' budget').runAlone exec x'
      w₂).1 ↔ ReportsSuccess r)

section Later

variable {service : ApprovalService} {approvalId : String} {invocation : ToolInvocation}
  {context : ToolAuthorizationContext} {row : AgentApprovalRow} {w : World} {x : ℕ → Input}

/-- A request that has failed is not executed again. -/
theorem resume_of_failed (budget : BudgetLedger)
    (hrow : w.approvals.get (context.tenantId, approvalId) = some row)
    (hfor : row.payload.IsFor service.tools.host invocation)
    (hstatus : row.payload.status = .failed) (hx : (x 0).Faultless) :
    (service.resume approvalId invocation context budget).runAlone exec x w =
      (.ok (.error (.tool "approval is not executable" "approval_failed" 409), budget), w) := by
  have hreplayed : ApprovalService.replayed row.payload = none := by
    simp [ApprovalService.replayed, hstatus]
  unfold ApprovalService.resume
  refine (Local.runAlone_bind_ok (Local.runAlone_lift_ok (require_faultless hrow hx))).trans ?_
  rw [expireIfNeeded_of_ne (by simp [hstatus])]
  refine (Local.runAlone_bind_ok (Local.runAlone_lift_ok rfl)).trans ?_
  rw [if_neg (not_not.2 hfor), hreplayed]
  dsimp only
  rw [if_pos (by simp [hstatus]), hstatus]
  rfl

/-- **A later `resume`** reports a success when the execution has returned an outcome. -/
theorem reportsSuccess_later (budget : BudgetLedger) {request : ApprovalRequest}
    {result : Except AgentException ToolExecutionOutcome}
    (hrow : w.approvals.get (context.tenantId, approvalId) = some row)
    (hpayload : row.payload = request.settle result)
    (hfor : request.IsFor service.tools.host invocation) (hx : (x 0).Faultless) :
    ReportsSuccess ((service.resume approvalId invocation context budget).runAlone exec x w).1 ↔
      ∃ outcome, result = .ok outcome := by
  cases result with
  | ok outcome =>
    refine iff_of_true ?_ ⟨outcome, rfl⟩
    have hrun := resume_replayed budget hrow (by rw [hpayload]; exact hfor)
      (by rw [hpayload]; rfl) (by rw [hpayload]; rfl) hx
    exact ⟨replayedOutcome outcome.summary, budget, congrArg Prod.fst hrun, rfl⟩
  | error e =>
    refine iff_of_false ?_ nofun
    have hrun := resume_of_failed budget hrow (by rw [hpayload]; exact hfor)
      (by rw [hpayload]; rfl) hx
    rw [hrun]
    rintro ⟨outcome, ledger, heq, -⟩
    cases heq

end Later

/-- **`resume` stores the outcome of the call exactly when the execution raises or succeeds.**  An
outcome that says that the call has failed is stored as a success. -/
theorem resume_storesOutcome_iff (service : ApprovalService) (approvalId : String)
    (invocation : ToolInvocation) (context : ToolAuthorizationContext) (budget : BudgetLedger)
    (row : AgentApprovalRow) (w : World) (x : ℕ → Input)
    (h : Claimable service approvalId invocation context row w) (hread : (x 0).Faultless)
    (hclaim : (x 1).Faultless)
    (hsettle : (x ((service.tools.execute invocation context true budget).callsAlone exec
      (fun n => x (n + 2)) (claimedWorld w row) + 2)).Faultless) :
    let executed := ((service.tools.execute invocation context true budget).runAlone exec
      (fun n => x (n + 2)) (claimedWorld w row)).1
    let run := (service.resume approvalId invocation context budget).runAlone exec x w
    StoresOutcome service approvalId invocation context executed run.1 run.2 ↔
      ∀ outcome ledger, executed = .ok (.ok outcome, ledger) → outcome.status = .success := by
  obtain ⟨result, ledger, w', hexecute, happrovals⟩ :=
    execute_alone service.tools invocation context budget (fun n => x (n + 2)) (claimedWorld w row)
  have hrun := resume_alone h hread hclaim hexecute hsettle
  -- The row that is stored in the end.
  have hclaimed : w'.approvals.get (context.tenantId, approvalId) = some row.claimed := by
    rw [happrovals]
    exact World.get_store h.stored row.payload.claim
  obtain ⟨settled, hstored, hpayload⟩ : ∃ settled,
      (w'.store row.claimed (row.payload.claim.settle result)).approvals.get
          (context.tenantId, approvalId) = some settled ∧
        settled.payload = row.payload.claim.settle result :=
    ⟨_, World.get_store hclaimed (row.payload.claim.settle result), rfl⟩
  have hstatus : ∀ status, StoredAs (w'.store row.claimed (row.payload.claim.settle result))
      context.tenantId approvalId status ↔ (row.payload.claim.settle result).status = status := by
    intro status
    constructor
    · rintro ⟨row', hrow', rfl⟩
      cases hstored.symm.trans hrow'
      rw [hpayload]
    · exact fun hstatus => ⟨settled, hstored, by rw [hpayload, hstatus]⟩
  intro executed run
  have hexecuted : executed = .ok (result, ledger) := congrArg Prod.fst hexecute
  have hresult : run = (.ok (result, ledger), w'.store row.claimed
      (row.payload.claim.settle result)) := hrun
  rw [hresult, hexecuted]
  cases result with
  | error e =>
    refine iff_of_true ?_ fun outcome ledger heq => nomatch heq
    have hnot : ¬ ReportsSuccess (.ok (.error e, ledger)) := by
      rintro ⟨outcome, ledger', heq, -⟩
      cases heq
    constructor
    case succeeded =>
      refine iff_of_false (fun hsucceeded => ?_) hnot
      cases (hstatus .succeeded).1 hsucceeded
    case failed => exact fun _ => (hstatus .failed).2 rfl
    case later =>
      intro context' budget' x' w₂ htenant hget hx'
      rw [← htenant] at hget hstored
      have hlater := reportsSuccess_later budget' (hget.trans hstored) hpayload h.isFor hx'
      exact iff_of_false (fun hreports => nomatch hlater.1 hreports) hnot
  | ok outcome =>
    have hreports : ReportsSuccess (.ok (.ok outcome, ledger)) ↔ outcome.status = .success := by
      constructor
      · rintro ⟨outcome', ledger', heq, hsuccess⟩
        cases heq
        exact hsuccess
      · exact fun hsuccess => ⟨outcome, ledger, rfl, hsuccess⟩
    constructor
    · intro hstores outcome' ledger' heq
      cases heq
      exact hreports.1 (hstores.succeeded.1 ((hstatus .succeeded).2 rfl))
    · intro hcond
      have hsuccess := hcond outcome ledger rfl
      constructor
      case succeeded => exact iff_of_true ((hstatus .succeeded).2 rfl) (hreports.2 hsuccess)
      case failed => exact fun hnot => absurd (hreports.2 hsuccess) hnot
      case later =>
        intro context' budget' x' w₂ htenant hget hx'
        rw [← htenant] at hget hstored
        have hlater := reportsSuccess_later budget'
          (hget.trans hstored) hpayload h.isFor hx'
        exact iff_of_true (hlater.2 ⟨outcome, rfl⟩) (hreports.2 hsuccess)

/-! ## A call that times out -/

namespace Sample

/-- The tool takes too long, at the fourth call of the execution; nothing else fails. -/
def timingOut : ℕ → Input
  | 5 => { fault := some .timeout }
  | _ => {}

theorem claimable : Claimable approvals "a" invocation user approvedRow approvedWorld where
  stored := by decide +kernel
  consistent := ⟨rfl, rfl, rfl⟩
  approved := rfl
  isFor := by decide +kernel
  allowed := by
    have haction : (approvals.tools.authorize invocation user).map ToolPolicyDecision.action =
        .ok .requireApproval := by decide +kernel
    obtain ⟨policy, hpolicy, hrequire⟩ := map_eq_ok.1 haction
    exact ⟨policy, hpolicy, by rw [hrequire]; decide⟩

/-- The execution of the claimed call. -/
def executed (x : ℕ → Input) :
    Except AgentException (Except AgentException ToolExecutionOutcome × BudgetLedger) :=
  ((approvals.tools.execute invocation user true budget).runAlone exec (fun n => x (n + 2))
    (claimedWorld approvedWorld approvedRow)).1

/-- The run of `resume`. -/
def resumed (x : ℕ → Input) :
    Except AgentException (Except AgentException ToolExecutionOutcome × BudgetLedger) × World :=
  (approvals.resume "a" invocation user budget).runAlone exec x approvedWorld

end Sample

/-- The call has timed out, and a success is stored. -/
theorem not_storesOutcome_timeout : ¬ StoresOutcome Sample.approvals "a" Sample.invocation
    Sample.user (Sample.executed Sample.timingOut) (Sample.resumed Sample.timingOut).1
      (Sample.resumed Sample.timingOut).2 := by
  intro hstores
  have hstored : ((Sample.resumed Sample.timingOut).2.approvals.get ("t", "a")).any (fun row =>
      row.payload.status == .succeeded) = true := by decide +kernel
  have hexecuted : (Sample.executed Sample.timingOut).map (fun r =>
      r.1.map ToolExecutionOutcome.status) = .ok (.ok .failed) := by decide +kernel
  obtain ⟨row, hrow, hstatus⟩ := (Option.any_eq_true _ _).1 hstored
  obtain ⟨outcome, ledger, heq, hsuccess⟩ :=
    hstores.succeeded.1 ⟨row, hrow, beq_iff_eq.1 hstatus⟩
  rw [heq] at hexecuted
  have hfailed : outcome.status = .failed := Except.ok.inj (Except.ok.inj hexecuted)
  rw [hsuccess] at hfailed
  cases hfailed

/-- The call returns. -/
theorem resume_storesOutcome_returning :
    StoresOutcome Sample.approvals "a" Sample.invocation Sample.user
      (Sample.executed (Sample.returning .null)) (Sample.resumed (Sample.returning .null)).1
      (Sample.resumed (Sample.returning .null)).2 := by
  refine (resume_storesOutcome_iff Sample.approvals "a" Sample.invocation Sample.user Sample.budget
    Sample.approvedRow Sample.approvedWorld (Sample.returning .null) Sample.claimable ⟨rfl, rfl⟩
    ⟨rfl, rfl⟩ ⟨rfl, rfl⟩).2 fun outcome ledger heq => ?_
  have hexecuted : (Sample.executed (Sample.returning .null)).map (fun r =>
      r.1.map ToolExecutionOutcome.status) = .ok (.ok .success) := by decide +kernel
  have heq : Sample.executed (Sample.returning .null) = .ok (.ok outcome, ledger) := heq
  rw [heq] at hexecuted
  exact Except.ok.inj (Except.ok.inj hexecuted)

end Agent
end RagflowAgent
