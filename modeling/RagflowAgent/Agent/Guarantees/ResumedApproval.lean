import RagflowAgent.Agent.Guarantees.ApprovalExecution
import RagflowAgent.Agent.Guarantees.SourcedEvidence
import RagflowAgent.Interleaving.Alone

/-!
# A run that resumes twice

The result of an approved call is stored before the graph has written its checkpoint.  A process
that dies in between leaves a request that has succeeded, and the next process enters
`await_approval` once more from the old checkpoint.  It finds the result, but of the result only
the summary is in the database.

* `resume_of_stored` takes apart a run of `resume` that has stored a result;
* `awaitApproval_replayed` is the second run: it works on a null output;
* `OnlySummary` says that nothing but the summary of an outcome shows in the evidence;
* `resumesSame_iff`: this, and nothing less, makes the second run end like the first.
-/

namespace RagflowAgent
namespace Agent

open Interleaving AgenticRagNodes

/-! ## Executing leaves the requests alone -/

section Quiet

open Monitor

/-- A call that does not write to the table of approval requests. -/
abbrev Quiet ⦃β : Type⦄ (c : Call β) : Prop := c.writesApprovals = false

theorem quiet_attempt (invocation : ToolInvocation) (context : ToolAuthorizationContext)
    (budget : BudgetLedger) :
    Makes Quiet (SecureToolExecutionService.attempt invocation context budget) := by
  refine makes_localBind trivial fun _ budget => makes_lift budget ?_
  refine makes_attempt (makes_bind (makes_perform rfl) fun _ => trivial) fun e => ?_
  cases e <;> trivial

theorem quiet_attempts (invocation : ToolInvocation) (context : ToolAuthorizationContext)
    (retries : ℕ) (budget : BudgetLedger) :
    Makes Quiet (SecureToolExecutionService.attempts invocation context retries budget) := by
  induction retries generalizing budget with
  | zero => exact quiet_attempt invocation context budget
  | succ retries ih =>
    refine makes_localBind (quiet_attempt invocation context budget) fun r budget => ?_
    cases r with
    | ok output => trivial
    | error errorCode => exact ih budget

theorem quiet_invokeTool (tools : SecureToolExecutionService) (registration : ToolRegistration)
    (invocation : ToolInvocation) (context : ToolAuthorizationContext) (budget : BudgetLedger) :
    Makes Quiet (tools.invokeTool registration invocation context budget) := by
  refine makes_localBind (quiet_attempts _ _ _ _) fun r budget => ?_
  cases r with
  | error errorCode =>
    exact makes_localBind (makes_lift _ (makes_perform rfl)) fun _ _ => trivial
  | ok rawOutput =>
    refine makes_localBind trivial fun outcome budget => ?_
    refine makes_localBind (makes_lift _ (makes_perform rfl)) fun _ budget => ?_
    exact makes_localBind (makes_lift _ (makes_perform rfl)) fun _ _ => trivial

theorem quiet_execute (tools : SecureToolExecutionService) (invocation : ToolInvocation)
    (context : ToolAuthorizationContext) (approved : Bool) (budget : BudgetLedger) :
    Makes Quiet (tools.execute invocation context approved budget) := by
  refine makes_localBind (makes_lift _ (makes_perform rfl)) fun _ budget => ?_
  refine makes_localBind trivial fun checked budget => ?_
  obtain ⟨registration, decision⟩ := checked
  dsimp only
  split
  · trivial
  refine makes_localBind (makes_lift _ (makes_perform rfl)) fun existing budget => ?_
  cases existing with
  | some existing =>
    dsimp only
    split <;> trivial
  | none =>
    refine makes_localBind (makes_lift _ (makes_perform rfl)) fun successful budget => ?_
    cases successful with
    | some successful =>
      exact makes_localBind (makes_lift _ (makes_perform rfl)) fun _ _ => trivial
    | none =>
      dsimp only
      split
      · trivial
      · exact quiet_invokeTool _ _ _ _ _

theorem execute_approvals (tools : SecureToolExecutionService) (invocation : ToolInvocation)
    (context : ToolAuthorizationContext) (approved : Bool) (budget : BudgetLedger)
    (x : ℕ → Input) (w : World) :
    ((tools.execute invocation context approved budget).runAlone exec x w).2.approvals =
      w.approvals :=
  (quiet_execute tools invocation context approved budget).runAlone
    (P := fun w' => w'.approvals = w.approvals)
    (fun s _ _ x hs hc => (exec_approvals hc x s).trans hs) x rfl

end Quiet

/-! ## The stored request -/

/-- Nothing fails at a call with this input. -/
structure Input.Faultless (x : Input) : Prop where
  fault : x.fault = none
  lateFault : x.lateFault = none

namespace World

/-- A copy of a request, written over its row. -/
def store (w : World) (row : AgentApprovalRow) (request : ApprovalRequest) : World :=
  { w with approvals :=
    w.approvals.replace { row with revision := request.revision, payload := request } }

theorem get_store {w : World} {row : AgentApprovalRow} {approval : String × String}
    (hrow : w.approvals.get approval = some row) (request : ApprovalRequest) :
    (w.store row request).approvals.get approval =
      some { row with revision := request.revision, payload := request } := by
  obtain rfl : Keyed.key row = approval := Table.key_of_get hrow
  have hreplace := Table.get_replace (T := w.approvals)
    (r := { row with revision := request.revision, payload := request }) hrow (Keyed.key row)
  exact hreplace.trans (if_pos rfl)

/-- What a fresh process finds: the requests, and nothing in its maps. -/
def restarted (w : World) : World := { approvals := w.approvals }

end World

section Alone

variable {tenantId approvalId : String} {row : AgentApprovalRow} {w : World} {x : ℕ → Input}

/-- Reading a request raises, or it gives the payload of the row. -/
theorem require_alone (hrow : w.approvals.get (tenantId, approvalId) = some row)
    (x : ℕ → Input) :
    (∃ e, (ApprovalService.require approvalId tenantId).runAlone exec x w = (.error e, w)) ∨
      (ApprovalService.require approvalId tenantId).runAlone exec x w = (.ok row.payload, w) := by
  have hperform : (Prog.perform (.getApproval tenantId approvalId) : Service _).runAlone exec x w =
      exec (.getApproval tenantId approvalId) (x 0) w := Prog.runAlone_perform _ x w
  have heffect : (Call.getApproval tenantId approvalId).effect (x 0) w =
      .ok (some row.payload, w) := by
    simp only [Call.effect, hrow, Option.map_some]
  rcases exec_cases (.getApproval tenantId approvalId) (x 0) w with
    ⟨e, he⟩ | ⟨b, w', heffect', he | ⟨e, he⟩⟩
  · exact .inl ⟨e, Prog.runAlone_bind_error (hperform.trans he)⟩
  · rw [heffect] at heffect'
    cases heffect'
    right
    exact Prog.runAlone_bind_ok (hperform.trans he)
  · rw [heffect] at heffect'
    cases heffect'
    exact .inl ⟨e, Prog.runAlone_bind_error (hperform.trans he)⟩

theorem require_faultless (hrow : w.approvals.get (tenantId, approvalId) = some row)
    (hx : (x 0).Faultless) :
    (ApprovalService.require approvalId tenantId).runAlone exec x w = (.ok row.payload, w) := by
  refine Prog.runAlone_bind_ok (a := some row.payload) ?_
  rw [Prog.runAlone_perform]
  simp only [exec, hx.fault, hx.lateFault, Option.filter_none, Call.effect, hrow, Option.map_some]

/-- Reading a request that is there is one call. -/
theorem callsAlone_require
    (h : (ApprovalService.require approvalId tenantId).runAlone exec x w = (.ok row.payload, w)) :
    (ApprovalService.require approvalId tenantId).callsAlone exec x w = 1 := by
  obtain ⟨o, w', hread, hrest⟩ := Prog.exists_of_runAlone_bind h
  rw [ApprovalService.require, Prog.bind_eq, Prog.callsAlone_bind_ok hread, Prog.callsAlone_perform]
  cases o with
  | none => cases hrest
  | some item => rfl

/-- A request that waits for no decision does not expire. -/
theorem expireIfNeeded_of_ne {item : ApprovalRequest} (h : item.status ≠ .approvalRequired) :
    ApprovalService.expireIfNeeded item = .ret item := by
  rw [ApprovalService.expireIfNeeded, if_pos h]
  rfl

/-- A compare-and-set at the revision of the row: it fails, it takes effect and fails, or it
takes effect. -/
theorem write_alone {item : ApprovalRequest} (request : ApprovalRequest)
    (hrow : w.approvals.get (item.tenantId, item.approvalId) = some row)
    (hrevision : row.revision = item.revision) (x : ℕ → Input) :
    (∃ e, (ApprovalService.write item request).runAlone exec x w = (.error e, w)) ∨
      (ApprovalService.write item request).runAlone exec x w =
        (match (x 0).lateFault with
          | some e => .error e
          | none => .ok true, w.store row request) := by
  rw [ApprovalService.write, Prog.runAlone_perform]
  unfold exec
  cases hfault : (x 0).fault with
  | some e => exact .inl ⟨e, rfl⟩
  | none =>
    right
    simp only [Option.filter_none, Call.effect, hrow, hrevision, if_true]
    cases (x 0).lateFault with
    | some e => rfl
    | none => rfl

/-- The result of a request is stored. -/
def ResultStored (w : World) (tenantId approvalId : String) : Prop :=
  ∃ row, w.approvals.get (tenantId, approvalId) = some row ∧ row.payload.status = .succeeded

theorem not_resultStored (hrow : w.approvals.get (tenantId, approvalId) = some row)
    (hstatus : row.payload.status ≠ .succeeded) : ¬ ResultStored w tenantId approvalId := by
  rintro ⟨row', hrow', hsucceeded⟩
  obtain rfl : row = row' := Option.some.inj (hrow.symm.trans hrow')
  exact hstatus hsucceeded

theorem not_resultStored_store {request : ApprovalRequest}
    (hrow : w.approvals.get (tenantId, approvalId) = some row)
    (hstatus : request.status ≠ .succeeded) :
    ¬ ResultStored (w.store row request) tenantId approvalId :=
  not_resultStored (World.get_store hrow request) hstatus

/-! ## The first run -/

/-- The handler of a failed execution raises, and no result is stored. -/
theorem handler_alone {executing : ApprovalRequest} (budget : BudgetLedger)
    (hrow : w.approvals.get (executing.tenantId, executing.approvalId) = some row)
    (hrevision : row.revision = executing.revision) (hstatus : row.payload.status ≠ .succeeded)
    (error : AgentException) (x : ℕ → Input) :
    ∃ e w', Prog.runAlone exec
          (((Local.lift (ApprovalService.write executing executing.fail)).bind
            fun _ => Local.raise error : Metered ToolExecutionOutcome) budget) x w =
        (.ok (.error e, budget), w') ∧
      ¬ ResultStored w' executing.tenantId executing.approvalId := by
  rcases write_alone executing.fail hrow hrevision x with ⟨e, hwrite⟩ | hwrite
  · exact ⟨e, w, Local.runAlone_bind_error (Local.runAlone_lift_error hwrite),
      not_resultStored hrow hstatus⟩
  · have hfailed : ¬ ResultStored (w.store row executing.fail) executing.tenantId
        executing.approvalId :=
      not_resultStored_store hrow (by simp [ApprovalRequest.fail])
    cases hlate : (x 0).lateFault with
    | some e =>
      rw [hlate] at hwrite
      exact ⟨e, _, Local.runAlone_bind_error (Local.runAlone_lift_error hwrite), hfailed⟩
    | none =>
      rw [hlate] at hwrite
      exact ⟨error, _, Local.runAlone_bind_ok (Local.runAlone_lift_ok hwrite), hfailed⟩

/-- **Executing a claimed request** stores a result only if the call has returned, and it is the
last thing that happens. -/
theorem executeClaimed_of_stored {service : ApprovalService} {executing : ApprovalRequest}
    {invocation : ToolInvocation} {context : ToolAuthorizationContext} {budget : BudgetLedger}
    {r : Except AgentException (Except AgentException ToolExecutionOutcome × BudgetLedger)}
    {w₁ : World} (hrow : w.approvals.get (executing.tenantId, executing.approvalId) = some row)
    (hrevision : row.revision = executing.revision) (hstatus : row.payload.status ≠ .succeeded)
    (hrun : (service.executeClaimed executing invocation context budget).runAlone exec x w =
      (r, w₁))
    (hstored : ResultStored w₁ executing.tenantId executing.approvalId) :
    ∃ outcome ledger w',
      (service.tools.execute invocation context true budget).runAlone exec x w =
          (.ok (.ok outcome, ledger), w') ∧
        w₁ = w'.store row (executing.succeed outcome.summary) ∧
        r = .ok (match (x ((service.tools.execute invocation context true budget).callsAlone
            exec x w)).lateFault with
          | some e => .error e
          | none => .ok outcome, ledger) := by
  rcases hexecute : (service.tools.execute invocation context true budget).runAlone exec x w with
    ⟨result, w'⟩
  have happrovals : w'.approvals = w.approvals := by
    have h := execute_approvals service.tools invocation context true budget x w
    rwa [hexecute] at h
  have hrow' : w'.approvals.get (executing.tenantId, executing.approvalId) = some row := by
    rw [happrovals, hrow]
  cases result with
  | error e =>
    cases (Local.runAlone_bind_raise (Local.runAlone_attempt_raise hexecute)).symm.trans hrun
    exact absurd hstored (not_resultStored hrow' hstatus)
  | ok result =>
    obtain ⟨result, ledger⟩ := result
    cases result with
    | error error =>
      obtain ⟨e, w'', hhandler, hfailed⟩ := handler_alone ledger hrow' hrevision hstatus
        error _
      have hattempt := (Local.runAlone_attempt_error (h := fun error =>
        (Local.lift (ApprovalService.write executing executing.fail)).bind fun _ =>
          Local.raise error) hexecute).trans hhandler
      cases (Local.runAlone_bind_error hattempt).symm.trans hrun
      exact absurd hstored hfailed
    | ok outcome =>
      refine ⟨outcome, ledger, w', rfl, ?_⟩
      have hrest := (Local.runAlone_bind_ok (Local.runAlone_attempt_ok hexecute)).symm.trans hrun
      rw [Local.callsAlone_attempt_ok hexecute] at hrest
      rcases write_alone (executing.succeed outcome.summary) hrow' hrevision _
        with ⟨e, hwrite⟩ | hwrite
      · cases (Local.runAlone_bind_error (Local.runAlone_lift_error hwrite)).symm.trans hrest
        exact absurd hstored (not_resultStored hrow' hstatus)
      · rw [Nat.zero_add] at hwrite
        cases hlate : (x ((service.tools.execute invocation context true budget).callsAlone
          exec x w)).lateFault with
        | some e =>
          rw [hlate] at hwrite
          cases (Local.runAlone_bind_error (Local.runAlone_lift_error hwrite)).symm.trans hrest
          exact ⟨rfl, rfl⟩
        | none =>
          rw [hlate] at hwrite
          cases (Local.runAlone_bind_ok (Local.runAlone_lift_ok hwrite)).symm.trans hrest
          exact ⟨rfl, rfl⟩

/-- The row of a request that was claimed for execution. -/
def AgentApprovalRow.claimed (row : AgentApprovalRow) : AgentApprovalRow :=
  { row with revision := row.payload.claim.revision, payload := row.payload.claim }

/-- **Resuming an approved request** stores a result only by claiming the request and executing
the call. -/
theorem resume_of_stored {service : ApprovalService} {invocation : ToolInvocation}
    {context : ToolAuthorizationContext} {budget : BudgetLedger}
    {r : Except AgentException (Except AgentException ToolExecutionOutcome × BudgetLedger)}
    {w₁ : World} (hrow : w.approvals.get (context.tenantId, approvalId) = some row)
    (hcons : row.Consistent) (happroved : row.payload.status = .approved)
    (hrun : (service.resume approvalId invocation context budget).runAlone exec x w = (r, w₁))
    (hstored : ResultStored w₁ context.tenantId approvalId) :
    row.payload.IsFor service.tools.host invocation ∧ ∃ outcome ledger w',
      (service.tools.execute invocation context true budget).runAlone exec (fun n => x (n + 2))
          (w.store row row.payload.claim) = (.ok (.ok outcome, ledger), w') ∧
        w₁ = w'.store row.claimed (row.payload.claim.succeed outcome.summary) ∧
        r = .ok (match (x ((service.tools.execute invocation context true budget).callsAlone
            exec (fun n => x (n + 2)) (w.store row row.payload.claim) + 2)).lateFault with
          | some e => .error e
          | none => .ok outcome, ledger) := by
  have hnone : ¬ ResultStored w context.tenantId approvalId :=
    not_resultStored hrow (by simp [happroved])
  have hkey : (row.tenantId, row.approvalId) = (context.tenantId, approvalId) :=
    Table.key_of_get hrow
  have hkey' : (row.payload.tenantId, row.payload.approvalId) = (context.tenantId, approvalId) := by
    rw [hcons.tenantId, hcons.approvalId, hkey]
  unfold ApprovalService.resume at hrun
  rcases require_alone hrow x with ⟨e, hrequire⟩ | hrequire
  · cases (Local.runAlone_bind_error (Local.runAlone_lift_error hrequire)).symm.trans hrun
    exact absurd hstored hnone
  replace hrun := (Local.runAlone_bind_ok (Local.runAlone_lift_ok hrequire)).symm.trans hrun
  rw [Local.callsAlone_lift, callsAlone_require hrequire,
    expireIfNeeded_of_ne (by simp [happroved])] at hrun
  replace hrun := (Local.runAlone_bind_ok (Local.runAlone_lift_ok rfl)).symm.trans hrun
  by_cases hfor : row.payload.IsFor service.tools.host invocation
  swap
  · rw [if_pos hfor] at hrun
    cases hrun
    exact absurd hstored hnone
  refine ⟨hfor, ?_⟩
  have hreplayed : ApprovalService.replayed row.payload = none := by
    simp [ApprovalService.replayed, happroved]
  rw [if_neg (not_not.2 hfor), hreplayed, if_neg (not_not.2 happroved)] at hrun
  cases hpolicy : service.tools.authorize invocation context with
  | error e =>
    rw [hpolicy] at hrun
    cases hrun
    exact absurd hstored hnone
  | ok policy =>
    rw [hpolicy] at hrun
    replace hrun := (Local.runAlone_bind_ok rfl).symm.trans hrun
    by_cases hdeny : policy.action = .deny
    · rw [if_pos hdeny] at hrun
      cases hrun
      exact absurd hstored hnone
    rw [if_neg hdeny] at hrun
    have hclaimed : ¬ ResultStored (w.store row row.payload.claim) context.tenantId approvalId :=
      not_resultStored_store hrow (by simp [ApprovalRequest.claim])
    -- everything since the request was read was decided without a call
    change Prog.runAlone exec _ (fun n => x (n + 1)) w = _ at hrun
    have hrow' : w.approvals.get (row.payload.tenantId, row.payload.approvalId) = some row := by
      rw [hkey', hrow]
    rcases write_alone row.payload.claim hrow' hcons.revision.symm (fun n => x (n + 1)) with
      ⟨e, hwrite⟩ | hwrite
    · cases (Local.runAlone_bind_error (Local.runAlone_lift_error hwrite)).symm.trans hrun
      exact absurd hstored hnone
    cases hlate : (x (0 + 1)).lateFault with
    | some e =>
      rw [hlate] at hwrite
      cases (Local.runAlone_bind_error (Local.runAlone_lift_error hwrite)).symm.trans hrun
      exact absurd hstored hclaimed
    | none =>
      rw [hlate] at hwrite
      replace hrun := (Local.runAlone_bind_ok (Local.runAlone_lift_ok hwrite)).symm.trans hrun
      rw [Local.callsAlone_lift, ApprovalService.write, Prog.callsAlone_perform] at hrun
      have htenant : row.payload.claim.tenantId = context.tenantId := congrArg Prod.fst hkey'
      have hid : row.payload.claim.approvalId = approvalId := congrArg Prod.snd hkey'
      have hclaimedRow : (w.store row row.payload.claim).approvals.get
          (row.payload.claim.tenantId, row.payload.claim.approvalId) = some row.claimed := by
        rw [htenant, hid]
        exact World.get_store hrow row.payload.claim
      refine executeClaimed_of_stored hclaimedRow rfl ?_ hrun ?_
      · simp [AgentApprovalRow.claimed, ApprovalRequest.claim]
      · rw [htenant, hid]
        exact hstored

/-- The state after an outcome of an approved call was added. -/
def AgenticState.resumed (applied : AgenticState) : AgenticState :=
  { applied with
    pendingToolInvocation := none
    hitlStatus := some .succeeded
    finalStatus := none
    stopReason := none }

/-- The world in which the approved call is executed. -/
abbrev claimedWorld (w : World) (row : AgentApprovalRow) : World := w.store row row.payload.claim

/-- The execution of the pending call of a state: the approval was read twice and claimed
before. -/
def ExecutesPending (nodes : AgenticRagNodes) (state : AgenticState) (invocation : ToolInvocation)
    (x : ℕ → Input) (w : World) (outcome : ToolExecutionOutcome) (ledger : BudgetLedger)
    (w' : World) : Prop :=
  (nodes.approvals.tools.execute invocation state.context true state.ledger).runAlone exec
    (fun n => x (n + 3)) w = (.ok (.ok outcome, ledger), w')

/-- The input of the call that stores the result. -/
def storeInput (nodes : AgenticRagNodes) (state : AgenticState) (invocation : ToolInvocation)
    (x : ℕ → Input) (w : World) : Input :=
  x ((nodes.approvals.tools.execute invocation state.context true state.ledger).callsAlone exec
    (fun n => x (n + 3)) w + 3)

section AwaitApproval

variable {nodes : AgenticRagNodes} {state state₁ : AgenticState} {invocation : ToolInvocation}

/-- **The first run** of the node has executed the call, and it goes on with the outcome if the
database says that it is stored. -/
theorem awaitApproval_of_stored {w₁ : World} (happroval : state.approvalId = some approvalId)
    (hpending : state.pendingToolInvocation = some invocation)
    (hrow : w.approvals.get (state.authorization.tenantId, approvalId) = some row)
    (hcons : row.Consistent) (happroved : row.payload.status = .approved)
    (hrun : (nodes.awaitApproval state).runAlone exec x w = (.ok state₁, w₁))
    (hstored : ResultStored w₁ state.authorization.tenantId approvalId) :
    row.payload.IsFor nodes.approvals.tools.host invocation ∧ ∃ outcome ledger w',
      ExecutesPending nodes state invocation x (claimedWorld w row) outcome ledger w' ∧
        w₁ = w'.store row.claimed (row.payload.claim.succeed outcome.summary) ∧
        ((storeInput nodes state invocation x (claimedWorld w row)).lateFault = none ∧
            (∃ stepId applied, pendingStepId state = .ok stepId ∧
              nodes.applyToolOutcome state stepId outcome ledger = .ok applied ∧
              state₁ = applied.resumed) ∨
          (storeInput nodes state invocation x (claimedWorld w row)).lateFault ≠ none ∧
            state₁.finalStatus = some .failed) := by
  have hnone : declinedStatus row.payload.status = none := by
    rw [happroved]
    rfl
  unfold awaitApproval at hrun
  rw [happroval, hpending] at hrun
  -- the approval is read once more, and it is approved
  have hcurrent : ∀ r w', (ApprovalService.getCurrent approvalId
      state.authorization.tenantId).runAlone exec x w = (.ok r, w') →
      r = row.payload ∧ w' = w ∧ (ApprovalService.getCurrent approvalId
        state.authorization.tenantId).callsAlone exec x w = 1 := by
    intro r w' hcurrent
    rcases require_alone hrow x with ⟨e, hrequire⟩ | hrequire
    · cases (Prog.runAlone_bind_error hrequire).symm.trans hcurrent
    · have hrest := (Prog.runAlone_bind_ok hrequire).symm.trans hcurrent
      rw [expireIfNeeded_of_ne (by simp [happroved])] at hrest
      cases hrest
      refine ⟨rfl, rfl, ?_⟩
      rw [ApprovalService.getCurrent, Prog.bind_eq, Prog.callsAlone_bind_ok hrequire,
        callsAlone_require hrequire, expireIfNeeded_of_ne (by simp [happroved])]
      rfl
  obtain ⟨approval, w₀, hread, hrest⟩ := Prog.exists_of_runAlone_bind hrun
  obtain ⟨rfl, rfl, hcalls⟩ := hcurrent approval w₀ hread
  rw [hcalls] at hrest
  dsimp only at hrest
  rw [hnone] at hrest
  obtain ⟨⟨result, ledger⟩, w₂, hresume, hend⟩ := Prog.exists_of_runAlone_bind hrest
  dsimp only at hend
  cases result with
  | error e =>
    cases hend
    obtain ⟨hfor, outcome, ledger', w', hexecute, hworld, hresult⟩ :=
      resume_of_stored hrow hcons happroved hresume hstored
    refine ⟨hfor, outcome, ledger', w', hexecute, hworld, .inr ⟨fun hlate => ?_, rfl⟩⟩
    change _ = Except.ok (match (storeInput nodes state invocation x
      (claimedWorld w₀ row)).lateFault with | some e => _ | none => _, _) at hresult
    rw [hlate] at hresult
    cases hresult
  | ok outcome =>
    obtain ⟨stepId, w₃, hstep, hend⟩ := Prog.exists_of_runAlone_bind hend
    obtain ⟨hpendingStep, rfl⟩ := Prod.mk.inj ((Prog.runAlone_ofExcept _ _ _).symm.trans hstep)
    obtain ⟨applied, w₄, happlied, hend⟩ := Prog.exists_of_runAlone_bind hend
    obtain ⟨happly, rfl⟩ := Prod.mk.inj ((Prog.runAlone_ofExcept _ _ _).symm.trans happlied)
    cases hend
    obtain ⟨hfor, outcome', ledger', w', hexecute, hworld, hresult⟩ :=
      resume_of_stored hrow hcons happroved hresume hstored
    change _ = Except.ok (match (storeInput nodes state invocation x
      (claimedWorld w₀ row)).lateFault with | some e => _ | none => _, _) at hresult
    cases hlate : (storeInput nodes state invocation x (claimedWorld w₀ row)).lateFault with
    | some e =>
      rw [hlate] at hresult
      cases hresult
    | none =>
      rw [hlate] at hresult
      cases hresult
      exact ⟨hfor, outcome, ledger, w', hexecute, hworld,
        .inl ⟨rfl, stepId, applied, hpendingStep, happly, rfl⟩⟩

/-! ## The second run -/

/-- What is left of an outcome in the database. -/
def replayedOutcome (summary : ToolCallSummary) : ToolExecutionOutcome :=
  { status := .success, summary := summary }

theorem resume_replayed {service : ApprovalService} {context : ToolAuthorizationContext}
    (budget : BudgetLedger) {summary : ToolCallSummary}
    (hrow : w.approvals.get (context.tenantId, approvalId) = some row)
    (hfor : row.payload.IsFor service.tools.host invocation)
    (hstatus : row.payload.status = .succeeded)
    (hsummary : row.payload.resultSummary = some summary) (hx : (x 0).Faultless) :
    (service.resume approvalId invocation context budget).runAlone exec x w =
      (.ok (.ok (replayedOutcome summary), budget), w) := by
  have hreplayed : ApprovalService.replayed row.payload = some (replayedOutcome summary) := by
    rw [ApprovalService.replayed, if_pos hstatus, hsummary]
    rfl
  unfold ApprovalService.resume
  refine (Local.runAlone_bind_ok (Local.runAlone_lift_ok (require_faultless hrow hx))).trans ?_
  rw [expireIfNeeded_of_ne (by simp [hstatus])]
  refine (Local.runAlone_bind_ok (Local.runAlone_lift_ok rfl)).trans ?_
  rw [if_neg (not_not.2 hfor), hreplayed]
  rfl

/-- **The second run** of the node goes on with what the database has. -/
theorem awaitApproval_replayed {summary : ToolCallSummary}
    (happroval : state.approvalId = some approvalId)
    (hpending : state.pendingToolInvocation = some invocation)
    (hrow : w.approvals.get (state.authorization.tenantId, approvalId) = some row)
    (hfor : row.payload.IsFor nodes.approvals.tools.host invocation)
    (hstatus : row.payload.status = .succeeded)
    (hsummary : row.payload.resultSummary = some summary) (hx : ∀ n, (x n).Faultless) :
    ((nodes.awaitApproval state).runAlone exec x w).1 = (do
      let stepId ← pendingStepId state
      let applied ← nodes.applyToolOutcome state stepId (replayedOutcome summary) state.ledger
      return applied.resumed) := by
  have hnone : declinedStatus row.payload.status = none := by
    rw [hstatus]
    rfl
  unfold awaitApproval
  rw [happroval, hpending]
  have hcurrent : (ApprovalService.getCurrent approvalId state.authorization.tenantId).runAlone
      exec x w = (.ok row.payload, w) := by
    refine (Prog.runAlone_bind_ok (require_faultless hrow (hx 0))).trans ?_
    rw [expireIfNeeded_of_ne (by simp [hstatus])]
    rfl
  refine (congrArg Prod.fst (Prog.runAlone_bind_ok hcurrent)).trans ?_
  dsimp only
  rw [hnone]
  have hresume : ∀ m, (nodes.approvals.resume approvalId invocation state.context
      state.ledger).runAlone exec (fun n => x (n + m)) w =
        (.ok (.ok (replayedOutcome summary), state.ledger), w) :=
    fun m => resume_replayed _ hrow hfor hstatus hsummary (hx (0 + m))
  refine (congrArg Prod.fst (Prog.runAlone_bind_ok (hresume _))).trans ?_
  dsimp only
  cases pendingStepId state with
  | error e => rfl
  | ok stepId =>
    simp only [Prog.bind_eq, Prog.ofExcept_ok, Prog.ret_bind]
    change _ = (nodes.applyToolOutcome state stepId (replayedOutcome summary) state.ledger >>=
      fun applied => pure applied.resumed)
    cases nodes.applyToolOutcome state stepId (replayedOutcome summary) state.ledger with
    | error e => rfl
    | ok applied => rfl

end AwaitApproval

end Alone

/-! ## The evidence of the two runs -/

/-- The items that a tool has listed in its output. -/
def listedItems (output : Json) : List Json :=
  match output.get? "evidence" with
  | some (.list items) => items
  | _ => []

/-- A listed item that evidence is made of. -/
def HasExcerpt (host : Host) : Json → Prop
  | .dict raw =>
    redactSecretLikeText host
      (takeText 2000 (strip (((Json.get raw "excerpt").getD (.str "")).pyStr host))) ≠ ""
  | _ => False

/-- The excerpt of an output as a whole. -/
def wholeExcerpt (host : Host) (output : Json) : String :=
  redactSecretLikeText host (takeText 2000 (output.pyStr host))

/-- Nothing but the summary of an outcome shows in the evidence that is made of it. -/
structure OnlySummary (host : Host) (outcome : ToolExecutionOutcome) : Prop where
  tool : outcome.summary.toolName ≠ "knowledge_base"
  items : ∀ raw ∈ listedItems outcome.output, ¬ HasExcerpt host raw
  excerpt : wholeExcerpt host outcome.output = wholeExcerpt host .null
  injection : outcome.injectionDetected = false

section Evidence

variable {host : Host}

/-- The null output reads `None`. -/
theorem wholeExcerpt_null : wholeExcerpt host .null = "None" := by
  have hnull : Json.pyStr host .null = "None" := by simp only [Json.pyStr, Json.pyRepr]
  have htake : takeText 2000 (Json.pyStr host .null) = "None" := by
    rw [hnull, takeText, List.take_of_length_le (by decide), String.ofList_toList]
  rw [wholeExcerpt, htake]
  exact redactSecretLikeText_eq_self (by simp)

theorem evidenceId_of_parsedItem {source : ToolEvidenceSource} {index : ℕ} {raw : Json}
    {item : EvidenceItem} (h : parsedItem host source index raw = .ok (some item)) :
    item.evidenceId = "tool:" ++ source.toolCallId ++ ":" ++ toString index := by
  unfold parsedItem at h
  split at h
  · dsimp only at h
    split at h
    · cases h
    · obtain ⟨made, hmade, heq⟩ := map_eq_ok.1 h
      cases heq
      unfold EvidenceItem.make at hmade
      split at hmade
      · cases hmade
        rfl
      · cases hmade
  · cases h

/-- An item is made of what has an excerpt. -/
theorem parsedItem_eq_none_iff {source : ToolEvidenceSource} {index : ℕ} {raw : Json}
    {item : Option EvidenceItem} (h : parsedItem host source index raw = .ok item) :
    item = none ↔ ¬ HasExcerpt host raw := by
  unfold parsedItem at h
  split at h
  · rename_i raw
    dsimp only at h
    split at h
    · rename_i hempty
      cases h
      exact iff_of_true rfl (not_not.2 hempty)
    · rename_i htext
      obtain ⟨made, -, rfl⟩ := map_eq_ok.1 h
      exact iff_of_false (Option.some_ne_none made) (not_not.2 htext)
  · rename_i hraw
    cases h
    refine iff_of_true rfl ?_
    unfold HasExcerpt
    split
    · exact absurd rfl (hraw _)
    · exact not_false

theorem parsedItems_eq_nil_iff {source : ToolEvidenceSource} {index : ℕ} {raws : List Json}
    {items : List EvidenceItem} (h : parsedItems host source index raws = .ok items) :
    items = [] ↔ ∀ raw ∈ raws, ¬ HasExcerpt host raw := by
  induction raws generalizing index items with
  | nil =>
    cases h
    simp
  | cons raw raws ih =>
    obtain ⟨parsed, hparsed, h⟩ := bind_eq_ok.1 h
    obtain ⟨rest, hrest, h⟩ := bind_eq_ok.1 h
    cases h
    rw [List.forall_mem_cons, ← ih hrest, ← parsedItem_eq_none_iff hparsed, List.append_eq_nil_iff]
    cases parsed <;> simp

theorem evidenceId_of_parsedItems {source : ToolEvidenceSource} {index : ℕ} {raws : List Json}
    {items : List EvidenceItem} (h : parsedItems host source index raws = .ok items) :
    ∀ item ∈ items, ∃ n : ℕ,
      item.evidenceId = "tool:" ++ source.toolCallId ++ ":" ++ toString n := by
  induction raws generalizing index items with
  | nil =>
    cases h
    intro item hitem
    exact absurd hitem List.not_mem_nil
  | cons raw raws ih =>
    obtain ⟨parsed, hparsed, h⟩ := bind_eq_ok.1 h
    obtain ⟨rest, hrest, h⟩ := bind_eq_ok.1 h
    cases h
    intro item hitem
    rcases List.mem_append.1 hitem with hitem | hitem
    · rw [Option.mem_toList] at hitem
      rw [hitem] at hparsed
      exact ⟨index, evidenceId_of_parsedItem hparsed⟩
    · exact ih hrest item hitem

/-- The evidence of a tool that is not the knowledge base: what it has listed, or one item for
its whole output. -/
inductive ToolItems (host : Host) (tenantId stepId : String) (sourceKind : SourceKind)
    (outcome : ToolExecutionOutcome) (citation : AgentEvidenceCitation) :
    List EvidenceItem → Prop
  | listed {items : List EvidenceItem} (hne : items ≠ [])
      (hlisted : ¬ ∀ raw ∈ listedItems outcome.output, ¬ HasExcerpt host raw)
      (hids : ∀ item ∈ items, ∃ n : ℕ,
        item.evidenceId = "tool:" ++ outcome.summary.toolCallId ++ ":" ++ toString n) :
      ToolItems host tenantId stepId sourceKind outcome citation items
  | whole {item : EvidenceItem}
      (hlisted : ∀ raw ∈ listedItems outcome.output, ¬ HasExcerpt host raw)
      (hitem : EvidenceItem.make ("tool:" ++ outcome.summary.toolCallId) stepId sourceKind tenantId
        none (wholeExcerpt host outcome.output) 1 citation outcome.injectionDetected none none =
          .ok item) :
      ToolItems host tenantId stepId sourceKind outcome citation [item]

theorem structuredToolEvidence_eq_ok {tenantId stepId : String} {sourceKind : SourceKind}
    {outcome : ToolExecutionOutcome} {items : List EvidenceItem}
    (h : structuredToolEvidence host tenantId stepId sourceKind outcome = .ok items) :
    ∃ citation, AgentEvidenceCitation.ofTool
        (sourceKind.value ++ ":" ++ outcome.summary.toolCallId) sourceKind outcome.summary.toolName
        outcome.summary.outputDigest = .ok citation ∧
      ToolItems host tenantId stepId sourceKind outcome citation items := by
  obtain ⟨citation, hcitation, h⟩ := bind_eq_ok.1 h
  refine ⟨citation, hcitation, ?_⟩
  have hrest : ∀ parsed, parsedItems host ⟨tenantId, stepId, sourceKind,
      outcome.summary.toolCallId, citation, outcome.injectionDetected⟩ 1
        (listedItems outcome.output) = .ok parsed →
      (if parsed ≠ [] then pure parsed
        else do
          let item ← EvidenceItem.make ("tool:" ++ outcome.summary.toolCallId) stepId sourceKind
            tenantId none (wholeExcerpt host outcome.output) 1 citation outcome.injectionDetected
            none none
          return [item]) = Except.ok items →
      ToolItems host tenantId stepId sourceKind outcome citation items := by
    intro parsed hparsed h
    have hnil := parsedItems_eq_nil_iff hparsed
    split at h
    · rename_i hne
      cases h
      exact .listed hne (fun hall => hne (hnil.2 hall)) (evidenceId_of_parsedItems hparsed)
    · rename_i hne
      obtain ⟨item, hitem, h⟩ := bind_eq_ok.1 h
      cases h
      exact .whole (hnil.1 (not_not.1 hne)) hitem
  dsimp only at h
  split at h
  · rename_i raws hraws
    obtain ⟨parsed, hparsed, h⟩ := bind_eq_ok.1 h
    refine hrest parsed ?_ h
    rw [listedItems, hraws]
    exact hparsed
  · rename_i hraws
    obtain ⟨parsed, hparsed, h⟩ := bind_eq_ok.1 h
    cases hparsed
    refine hrest [] ?_ h
    unfold listedItems
    split
    · exact absurd ‹_› (hraws _)
    · rfl

/-- Two items that are made alike are equal if and only if their excerpts and their injection
marks are. -/
theorem make_eq_iff {evidenceId stepId tenantId excerpt excerpt' : String}
    {sourceKind : SourceKind} {citation : AgentEvidenceCitation} {injection injection' : Bool}
    {item item' : EvidenceItem}
    (h : EvidenceItem.make evidenceId stepId sourceKind tenantId none excerpt 1 citation injection
      none none = .ok item)
    (h' : EvidenceItem.make evidenceId stepId sourceKind tenantId none excerpt' 1 citation injection'
      none none = .ok item') :
    item = item' ↔ excerpt = excerpt' ∧ injection = injection' := by
  unfold EvidenceItem.make at h h'
  split at h
  · split at h'
    · cases h
      cases h'
      simp
    · cases h'
  · cases h

/-- The id of an item for the whole output is no id of a listed item. -/
theorem wholeId_ne (toolCallId : String) (n : ℕ) :
    "tool:" ++ toolCallId ≠ "tool:" ++ toolCallId ++ ":" ++ toString n := by
  intro h
  have hlength := congrArg String.length h
  simp only [String.length_append] at hlength
  have hcolon : String.length ":" = 1 := rfl
  omega

/-- The summary of an outcome makes one item, of the text `None`. -/
theorem structuredToolEvidence_replayed (host : Host) (tenantId stepId : String)
    {sourceKind : SourceKind}
    {summary : ToolCallSummary} {citation : AgentEvidenceCitation}
    (hcitation : AgentEvidenceCitation.ofTool (sourceKind.value ++ ":" ++ summary.toolCallId)
      sourceKind summary.toolName summary.outputDigest = .ok citation) :
    ∃ item, EvidenceItem.make ("tool:" ++ summary.toolCallId) stepId sourceKind tenantId none
        (wholeExcerpt host .null) 1 citation false none none = .ok item ∧
      structuredToolEvidence host tenantId stepId sourceKind (replayedOutcome summary) =
        .ok [item] := by
  have hlength : (wholeExcerpt host .null).length ≤ 2000 := by
    rw [wholeExcerpt_null]
    decide
  have hmake : ∃ item, EvidenceItem.make ("tool:" ++ summary.toolCallId) stepId sourceKind tenantId
      none (wholeExcerpt host .null) 1 citation false none none = .ok item := by
    unfold EvidenceItem.make
    rw [dif_pos ⟨hlength, by decide, by decide⟩]
    exact ⟨_, rfl⟩
  obtain ⟨item, hitem⟩ := hmake
  refine ⟨item, hitem, ?_⟩
  unfold structuredToolEvidence
  refine bind_eq_ok.2 ⟨citation, hcitation, ?_⟩
  refine bind_eq_ok.2 ⟨[], rfl, ?_⟩
  refine (if_neg (not_not.2 rfl)).trans ?_
  exact bind_eq_ok.2 ⟨item, hitem, rfl⟩

/-- **The evidence of an outcome and the evidence of its summary.** -/
theorem structuredToolEvidence_eq_replayed_iff {tenantId stepId : String}
    {sourceKind : SourceKind} {outcome : ToolExecutionOutcome} {items : List EvidenceItem}
    (h : structuredToolEvidence host tenantId stepId sourceKind outcome = .ok items) :
    ∃ items', structuredToolEvidence host tenantId stepId sourceKind
        (replayedOutcome outcome.summary) = .ok items' ∧
      (items = items' ↔ (∀ raw ∈ listedItems outcome.output, ¬ HasExcerpt host raw) ∧
        wholeExcerpt host outcome.output = wholeExcerpt host .null ∧
          outcome.injectionDetected = false) := by
  obtain ⟨citation, hcitation, hitems⟩ := structuredToolEvidence_eq_ok h
  obtain ⟨item', hitem', hreplayed⟩ := structuredToolEvidence_replayed host tenantId stepId
    hcitation
  refine ⟨[item'], hreplayed, ?_⟩
  cases hitems with
  | listed hne hlisted hids =>
    refine iff_of_false (fun heq => ?_) fun hall => hlisted hall.1
    subst heq
    obtain ⟨n, hn⟩ := hids item' List.mem_cons_self
    have hid : item'.evidenceId = "tool:" ++ outcome.summary.toolCallId := by
      unfold EvidenceItem.make at hitem'
      split at hitem'
      · cases hitem'
        rfl
      · cases hitem'
    exact wholeId_ne _ n (hid.symm.trans hn)
  | whole hlisted hitem =>
    rw [List.singleton_inj, make_eq_iff hitem hitem']
    exact (and_iff_right hlisted).symm

end Evidence

/-! ## The result -/

/-- Two states show the same evidence, the same step and the same status. -/
structure SameResult (state₁ state₂ : AgenticState) : Prop where
  evidence : state₁.evidence = state₂.evidence
  currentStep : state₁.currentStep = state₂.currentStep
  finalStatus : state₁.finalStatus = state₂.finalStatus
  hitlStatus : state₁.hitlStatus = state₂.hitlStatus

/-- The summary of an outcome is applied like the outcome if and only if only the summary shows. -/
theorem applyToolOutcome_replayed_iff {nodes : AgenticRagNodes} {state applied : AgenticState}
    {stepId : String} {outcome : ToolExecutionOutcome} {ledger : BudgetLedger}
    (ledger' : BudgetLedger) (h : nodes.applyToolOutcome state stepId outcome ledger = .ok applied) :
    (∃ applied', nodes.applyToolOutcome state stepId (replayedOutcome outcome.summary) ledger' =
        .ok applied' ∧ SameResult applied.resumed applied'.resumed) ↔
      OnlySummary nodes.approvals.tools.host outcome := by
  obtain ⟨items, traceId, hitems, rfl⟩ := applyToolOutcome_eq_ok h
  unfold outcomeEvidence at hitems
  by_cases htool : outcome.summary.toolName = "knowledge_base"
  · -- the knowledge base tool must have returned a dictionary
    refine iff_of_false ?_ fun honly => honly.tool htool
    rintro ⟨applied', happlied', -⟩
    obtain ⟨items', traceId', hitems', -⟩ := applyToolOutcome_eq_ok happlied'
    have hraised : nodes.outcomeEvidence state.authorization.tenantId stepId
        (replayedOutcome outcome.summary) =
          .error (.validation "Input should be a valid dictionary") := by
      unfold outcomeEvidence
      exact (if_pos htool).trans rfl
    rw [hraised] at hitems'
    cases hitems'
  · rw [if_neg htool] at hitems
    obtain ⟨made, hmade, hitems⟩ := bind_eq_ok.1 hitems
    cases hitems
    obtain ⟨items', hitems', hiff⟩ := structuredToolEvidence_eq_replayed_iff hmade
    have happly : nodes.applyToolOutcome state stepId (replayedOutcome outcome.summary) ledger' =
        .ok { state with
          evidence := state.evidence ++ items'
          toolCalls := state.toolCalls ++ [outcome.summary]
          retrievalTraceIds := state.retrievalTraceIds ++ []
          currentStep := nextStep state (replayedOutcome outcome.summary) ledger'
          iteration := state.iteration + 1
          budgetUsage := ledger'.usage } := by
      have houtcome : nodes.outcomeEvidence state.authorization.tenantId stepId
          (replayedOutcome outcome.summary) = .ok (items', none) := by
        unfold outcomeEvidence
        refine (if_neg htool).trans ?_
        exact bind_eq_ok.2 ⟨items', hitems', rfl⟩
      exact bind_eq_ok.2 ⟨(items', none), houtcome, rfl⟩
    have hstep : nextStep state outcome ledger =
        nextStep state (replayedOutcome outcome.summary) ledger' := by
      unfold nextStep
      cases state.plan with
      | none => rfl
      | some plan =>
        have h₁ : ¬ (outcome.summary.toolName = "knowledge_base" ∧
            ledger.limits.maxRetrievalRounds ≤ ledger.usage.retrievalRounds) := fun h => htool h.1
        have h₂ : ¬ ((replayedOutcome outcome.summary).summary.toolName = "knowledge_base" ∧
            ledger'.limits.maxRetrievalRounds ≤ ledger'.usage.retrievalRounds) := fun h => htool h.1
        dsimp only
        rw [if_neg h₁, if_neg h₂]
    rw [happly]
    constructor
    · rintro ⟨applied', heq, hsame⟩
      cases heq
      have hevidence : state.evidence ++ items = state.evidence ++ items' := hsame.evidence
      obtain ⟨hlisted, hexcerpt, hinjection⟩ := hiff.1 (List.append_cancel_left hevidence)
      exact ⟨htool, hlisted, hexcerpt, hinjection⟩
    · intro honly
      obtain rfl := hiff.2 ⟨honly.items, honly.excerpt, honly.injection⟩
      exact ⟨_, rfl, ⟨rfl, hstep, rfl, rfl⟩⟩

/-- **A run that resumes twice ends the same** if and only if the database has reported the result
as stored and nothing but its summary shows in the evidence.  The first run of the node may have
gone on to the end: the process dies before the checkpoint. -/
theorem resumesSame_iff {nodes : AgenticRagNodes} {state state₁ : AgenticState}
    {approvalId : String} {invocation : ToolInvocation} {row : AgentApprovalRow}
    {x y : ℕ → Input} {w w₁ : World} (happroval : state.approvalId = some approvalId)
    (hpending : state.pendingToolInvocation = some invocation)
    (hrow : w.approvals.get (state.authorization.tenantId, approvalId) = some row)
    (hcons : row.Consistent) (happroved : row.payload.status = .approved)
    (hrun : (nodes.awaitApproval state).runAlone exec x w = (.ok state₁, w₁))
    (hstored : ResultStored w₁ state.authorization.tenantId approvalId)
    (hy : ∀ n, (y n).Faultless) :
    (∃ state₂, ((nodes.awaitApproval state).runAlone exec y w₁.restarted).1 = .ok state₂ ∧
        SameResult state₁ state₂) ↔
      (storeInput nodes state invocation x (claimedWorld w row)).lateFault = none ∧
        ∃ outcome ledger w',
          ExecutesPending nodes state invocation x (claimedWorld w row) outcome ledger w' ∧
            OnlySummary nodes.approvals.tools.host outcome := by
  obtain ⟨hfor, outcome, ledger, w', hexecute, hworld, hfirst⟩ :=
    awaitApproval_of_stored happroval hpending hrow hcons happroved hrun hstored
  -- what the second run finds
  have hclaimed : (claimedWorld w row).approvals.get
      (state.authorization.tenantId, approvalId) = some row.claimed :=
    World.get_store hrow row.payload.claim
  have hkept : w'.approvals = (claimedWorld w row).approvals := by
    have h := execute_approvals nodes.approvals.tools invocation state.context true state.ledger
      (fun n => x (n + 3)) (claimedWorld w row)
    rwa [hexecute] at h
  have hfound : w₁.restarted.approvals.get (state.authorization.tenantId, approvalId) =
      some { row.claimed with
        revision := (row.payload.claim.succeed outcome.summary).revision
        payload := row.payload.claim.succeed outcome.summary } := by
    subst hworld
    exact World.get_store (by rw [hkept, hclaimed]) _
  have hsecond := awaitApproval_replayed happroval hpending hfound hfor rfl rfl hy
  have hunique : ∀ outcome' ledger' w'',
      ExecutesPending nodes state invocation x (claimedWorld w row) outcome' ledger' w'' →
        outcome' = outcome := by
    intro outcome' ledger' w'' hexecute'
    cases hexecute.symm.trans hexecute'
    rfl
  rw [hsecond]
  rcases hfirst with ⟨hlate, stepId, applied, hstep, happlied, rfl⟩ | ⟨hlate, hfailed⟩
  · rw [hstep]
    have hiff := applyToolOutcome_replayed_iff state.ledger happlied
    constructor
    · rintro ⟨state₂, hrerun, hsame⟩
      obtain ⟨stepId', hstep', hrerun⟩ := bind_eq_ok.1 hrerun
      cases hstep'
      obtain ⟨applied', happlied', hrerun⟩ := bind_eq_ok.1 hrerun
      cases hrerun
      exact ⟨hlate, outcome, ledger, w', hexecute, hiff.1 ⟨applied', happlied', hsame⟩⟩
    · rintro ⟨-, outcome', ledger', w'', hexecute', honly⟩
      obtain rfl := hunique outcome' ledger' w'' hexecute'
      obtain ⟨applied', happlied', hsame⟩ := hiff.2 honly
      exact ⟨applied'.resumed,
        bind_eq_ok.2 ⟨stepId, rfl, bind_eq_ok.2 ⟨applied', happlied', rfl⟩⟩, hsame⟩
  · refine iff_of_false ?_ fun h => hlate h.1
    rintro ⟨state₂, hrerun, hsame⟩
    obtain ⟨stepId, -, hrerun⟩ := bind_eq_ok.1 hrerun
    obtain ⟨applied', -, hrerun⟩ := bind_eq_ok.1 hrerun
    cases hrerun
    have hstatus := hsame.finalStatus
    rw [hfailed] at hstatus
    cases hstatus

/-! ## A text and a null -/

namespace Sample

/-- A run whose only step waits for the approval, which was given. -/
def pendingState : AgenticState :=
  { request.initial host with
    plan := some wirePlan
    approvalId := some "a"
    pendingToolInvocation := some invocation }

def approvedRow : AgentApprovalRow :=
  { approvalRow with payload := { approvalRequest with status := .approved } }

def approvedWorld : World where
  approvals := ⟨[approvedRow], by simp⟩

def isNull : Json → Bool
  | .null => true
  | _ => false

theorem eq_of_isNull {value : Json} (h : isNull value = true) : value = .null := by
  cases value <;> first | rfl | cases h

/-- The tool returns `output`, and nothing fails. -/
def returning (output : Json) (_ : ℕ) : Input := { output := output }

/-- The run of the node in the first process. -/
def firstRun (output : Json) : Except AgentException AgenticState × World :=
  (wireNodes.awaitApproval pendingState).runAlone exec (returning output) approvedWorld

/-- The run of the node in the second process. -/
def secondRun (output : Json) : Except AgentException AgenticState × World :=
  (wireNodes.awaitApproval pendingState).runAlone exec (returning .null)
    (firstRun output).2.restarted

end Sample

/-- The tool has returned "ok", and the second run has the text "None" as its evidence. -/
theorem not_resumesSame : ∃ state₁, (Sample.firstRun (.str "ok")).1 = .ok state₁ ∧
    ResultStored (Sample.firstRun (.str "ok")).2 "t" "a" ∧
      ¬ ∃ state₂, (Sample.secondRun (.str "ok")).1 = .ok state₂ ∧ SameResult state₁ state₂ := by
  have hfirst : ((Sample.firstRun (.str "ok")).1.map fun state =>
      state.evidence.map EvidenceItem.excerpt) = .ok ["ok"] := by decide +kernel
  have hsecond : ((Sample.secondRun (.str "ok")).1.map fun state =>
      state.evidence.map EvidenceItem.excerpt) = .ok ["None"] := by decide +kernel
  have hstored : ((Sample.firstRun (.str "ok")).2.approvals.get ("t", "a")).any (fun row =>
      row.payload.status == .succeeded) = true := by decide +kernel
  obtain ⟨state₁, hstate₁, hexcerpts₁⟩ := map_eq_ok.1 hfirst
  refine ⟨state₁, hstate₁, ?_, ?_⟩
  · obtain ⟨row, hrow, hstatus⟩ := (Option.any_eq_true _ _).1 hstored
    exact ⟨row, hrow, beq_iff_eq.1 hstatus⟩
  · rintro ⟨state₂, hstate₂, hsame⟩
    obtain ⟨state₂', hstate₂', hexcerpts₂⟩ := map_eq_ok.1 hsecond
    cases hstate₂.symm.trans hstate₂'
    rw [hsame.evidence, hexcerpts₂] at hexcerpts₁
    exact absurd hexcerpts₁ (by decide)

/-- A null output reads like no output. -/
theorem resumesSame_null : ∃ state₁, (Sample.firstRun .null).1 = .ok state₁ ∧
    ∃ state₂, (Sample.secondRun .null).1 = .ok state₂ ∧ SameResult state₁ state₂ := by
  have hfirst : ((Sample.firstRun .null).1.map fun state =>
      state.evidence.map EvidenceItem.excerpt) = .ok ["None"] := by decide +kernel
  have hstored : ((Sample.firstRun .null).2.approvals.get ("t", "a")).any (fun row =>
      row.payload.status == .succeeded) = true := by decide +kernel
  have hexecuted : ((Sample.wireNodes.approvals.tools.execute Sample.invocation
      Sample.pendingState.context true Sample.pendingState.ledger).runAlone exec
        (fun n => Sample.returning .null (n + 3))
        (claimedWorld Sample.approvedWorld Sample.approvedRow)).1.map (fun r => r.1.map
          fun outcome => (outcome.summary.toolName, Sample.isNull outcome.output,
            outcome.injectionDetected)) = .ok (.ok ("wire", true, false)) := by decide +kernel
  obtain ⟨state₁, hstate₁, -⟩ := map_eq_ok.1 hfirst
  obtain ⟨row, hrow, hstatus⟩ := (Option.any_eq_true _ _).1 hstored
  have hpending : Sample.pendingState.pendingToolInvocation = some Sample.invocation := rfl
  have happroved : Sample.approvedWorld.approvals.get ("t", "a") = some Sample.approvedRow := by
    decide +kernel
  refine ⟨state₁, hstate₁, (resumesSame_iff (x := Sample.returning .null) rfl hpending happroved
    ⟨rfl, rfl, rfl⟩ rfl (Prod.ext hstate₁ rfl) ⟨row, hrow, beq_iff_eq.1 hstatus⟩
    fun _ => ⟨rfl, rfl⟩).2 ⟨rfl, ?_⟩⟩
  obtain ⟨⟨result, ledger⟩, hresult, hshown⟩ := map_eq_ok.1 hexecuted
  obtain ⟨outcome, rfl, hsummary⟩ := map_eq_ok.1 hshown
  obtain ⟨htool, hnull, hinjection⟩ : outcome.summary.toolName = "wire" ∧
      Sample.isNull outcome.output = true ∧ outcome.injectionDetected = false := by
    simpa using hsummary
  refine ⟨outcome, ledger, _, Prod.ext hresult rfl, ⟨by rw [htool]; decide, ?_, ?_, hinjection⟩⟩
  · rw [Sample.eq_of_isNull hnull]
    intro raw hraw
    exact absurd hraw List.not_mem_nil
  · rw [Sample.eq_of_isNull hnull]

end Agent
end RagflowAgent
