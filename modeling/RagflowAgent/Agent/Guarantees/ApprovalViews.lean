import RagflowAgent.Agent.Guarantees.ApprovalExecution

/-!
# What the callers of the approval service are shown

`decide` and `getCurrent` return a copy of the request, and the graph acts on its status.  A copy
that was read or written was stored.  But a request whose time is up is returned as expired even
when the compare-and-set that was to expire it has found another revision, since somebody has
decided in between.

* `viewMonitor` notes every status that a caller has found, or put, in the table;
* `ExpiresStored` is the condition on the steps that expire a request;
* `views_stored`: in a run whose steps meet it, every status that is shown was stored during the
  call.
-/

namespace RagflowAgent
namespace Agent

open Interleaving

/-! ## What a caller notes -/

/-- The programs with what they show of the request: `resume` shows nothing. -/
def ApprovalCommand.viewProgram (service : ApprovalService) :
    ApprovalCommand → Service (Option ApprovalRequest)
  | decide approvalId context decision =>
    (ApprovalService.decide approvalId context decision).bind fun item => .ret (some item)
  | getCurrent approvalId tenantId =>
    (ApprovalService.getCurrent approvalId tenantId).bind fun item => .ret (some item)
  | resume approvalId invocation context budget =>
    (service.resume approvalId invocation context budget).bind fun _ => .ret none

/-- The statuses that a caller has read or written.  A copy that was to expire a request, and was
refused, is noted too. -/
def noteStatus (statuses : List ApprovalStatus) {β : Type} :
    Call β → Except AgentException β → List ApprovalStatus
  | .getApproval _ _ => fun
    | .ok (some item) => item.status :: statuses
    | _ => statuses
  | .compareAndSet _ _ _ request => fun
    | .ok true => request.status :: statuses
    | .ok false => if request.status = .expired then .expired :: statuses else statuses
    | .error _ => statuses
  | _ => fun _ => statuses

def viewMonitor : Monitor Call AgentException (List ApprovalStatus) where
  licit := fun _ _ _ => True
  next := fun statuses _ c r => noteStatus statuses c r

section Conforms

open Monitor

variable {statuses : List ApprovalStatus}

/-- Every program is licit. -/
theorem conforms_any {α : Type} (p : Service α) :
    viewMonitor.Conforms p (fun _ _ => True) (fun _ _ => True) statuses := by
  induction p generalizing statuses with
  | ret a => trivial
  | raise e => trivial
  | call c k ih => exact ⟨trivial, fun r => ih r⟩

theorem notes_require (approvalId tenantId : String) :
    viewMonitor.Conforms (ApprovalService.require approvalId tenantId)
      (fun item statuses' => item.status ∈ statuses') (fun _ _ => True) statuses := by
  refine conforms_bind (R := fun o statuses' => ∀ item, o = some item → item.status ∈ statuses')
    ?_ ?_
  · refine conforms_perform trivial (fun o item hitem => ?_) fun _ => trivial
    subst hitem
    exact List.mem_cons_self
  · intro o statuses' hseen
    cases o with
    | none => trivial
    | some item => exact hseen item rfl

/-- A write that is answered notes the status, unless it was refused and expires nothing. -/
theorem notes_write (item request : ApprovalRequest) :
    viewMonitor.Conforms (ApprovalService.write item request)
      (fun b statuses' => b = true ∨ request.status = .expired → request.status ∈ statuses')
      (fun _ _ => True) statuses := by
  refine conforms_perform trivial (fun b h => ?_) fun _ => trivial
  cases b with
  | true => exact List.mem_cons_self
  | false =>
    have hexpired : request.status = .expired := h.resolve_left Bool.false_ne_true
    change request.status ∈ if request.status = .expired then _ else _
    rw [if_pos hexpired, hexpired]
    exact List.mem_cons_self

theorem notes_expireIfNeeded {item : ApprovalRequest} (h : item.status ∈ statuses) :
    viewMonitor.Conforms (ApprovalService.expireIfNeeded item)
      (fun item' statuses' => item'.status ∈ statuses') (fun _ _ => True) statuses := by
  unfold ApprovalService.expireIfNeeded
  split
  · exact h
  · refine conforms_bind (R := fun _ statuses' => statuses' = statuses)
      (conforms_perform trivial (fun _ => rfl) fun _ => trivial) ?_
    rintro now _ rfl
    split
    · exact h
    · exact conforms_bind (notes_write item item.expire) fun _ _ hnoted => hnoted (.inr rfl)

theorem notes_decide (approvalId : String) (context : ToolAuthorizationContext)
    (decision : ApprovalDecision) :
    viewMonitor.Conforms (ApprovalService.decide approvalId context decision)
      (fun item statuses' => item.status ∈ statuses') (fun _ _ => True) statuses := by
  refine conforms_bind (notes_require approvalId context.tenantId) fun item _ hitem => ?_
  refine conforms_bind (notes_expireIfNeeded hitem) fun item statuses₂ hitem => ?_
  split
  · exact hitem
  refine conforms_bind (conforms_any _) fun status _ _ => ?_
  refine conforms_bind (conforms_any _) fun now _ _ => ?_
  refine conforms_bind (notes_write item _) fun b _ hnoted => ?_
  cases b with
  | true => exact hnoted (.inl rfl)
  | false => exact notes_require approvalId context.tenantId

/-- **What is shown was noted.** -/
theorem notes_viewProgram (service : ApprovalService) (command : ApprovalCommand) :
    viewMonitor.Conforms (command.viewProgram service)
      (fun view statuses => ∀ item ∈ view, item.status ∈ statuses) (fun _ _ => True) [] := by
  cases command with
  | decide approvalId context decision =>
    refine conforms_bind (notes_decide approvalId context decision) fun item _ hitem => ?_
    exact fun _ hview => Option.some.inj hview ▸ hitem
  | getCurrent approvalId tenantId =>
    refine conforms_bind (conforms_bind (notes_require approvalId tenantId) fun item _ hitem =>
      notes_expireIfNeeded hitem) fun item _ hitem => ?_
    exact fun _ hview => Option.some.inj hview ▸ hitem
  | resume approvalId invocation context budget =>
    refine conforms_bind (conforms_any _) fun _ _ _ => ?_
    exact fun _ hview => absurd hview (Option.not_mem_none _)

theorem conforms_viewProgram {service : ApprovalService} (command : ApprovalCommand) :
    approvalMonitor.Conforms (command.viewProgram service) (fun _ _ => True) (fun _ _ => True)
      { command := command } := by
  cases command with
  | decide approvalId context decision =>
    exact conforms_bind (conforms_decide rfl) fun _ _ _ => trivial
  | getCurrent approvalId tenantId =>
    exact conforms_bind (conforms_getCurrent rfl) fun _ _ _ => trivial
  | resume approvalId invocation context budget =>
    exact conforms_bind ((conforms_resume rfl).mono (fun _ _ h => h) fun _ _ _ => trivial)
      fun _ _ _ => trivial

end Conforms

/-! ## Runs -/

/-- The request and the revision that the next call is to expire. -/
def expiring {α : Type} : Service α → Option ((String × String) × ℕ)
  | .call (.compareAndSet tenantId approvalId expectedRevision request) _ =>
    if request.status = .expired then some ((tenantId, approvalId), expectedRevision) else none
  | _ => none

/-- A copy is refused when the row is at another revision. -/
theorem revision_ne_of_refused {tenantId approvalId : String} {expectedRevision : ℕ}
    {request : ApprovalRequest} {x : Input} {w : World} {row : AgentApprovalRow}
    (hrow : w.approvals.get (tenantId, approvalId) = some row)
    (h : (exec (.compareAndSet tenantId approvalId expectedRevision request) x w).1 = .ok false) :
    row.revision ≠ expectedRevision := by
  intro hrevision
  rcases exec_cases (.compareAndSet tenantId approvalId expectedRevision request) x w with
    ⟨e, he⟩ | ⟨b, w', heffect, he | ⟨e, he⟩⟩
  · rw [he] at h
    cases h
  · rw [he] at h
    cases h
    simp only [Call.effect, hrow, hrevision, if_true] at heffect
    cases heffect
  · rw [he] at h
    cases h

section Runs

variable {τ : Type} [DecidableEq τ] {commands : τ → ApprovalCommand}
  {cfg : Config Call AgentException (Option ApprovalRequest) World τ}

/-- A step that expires a request finds it at the revision that was read, or expired already. -/
def ExpiresStored (cfg : Config Call AgentException (Option ApprovalRequest) World τ) (t : τ)
    (_ : Input) : Prop :=
  ∀ copy ∈ expiring (cfg.threads t), ∃ row ∈ cfg.state.approvals.get copy.1,
    row.revision = copy.2 ∨ row.payload.status = .expired

instance (cfg : Config Call AgentException (Option ApprovalRequest) World τ) (t : τ) (x : Input) :
    Decidable (ExpiresStored cfg t x) :=
  inferInstanceAs (Decidable (∀ copy ∈ expiring (cfg.threads t), _))

/-- The request has this status in the table. -/
def HasStatus (w : World) (approval : String × String) (status : ApprovalStatus) : Prop :=
  ∃ row, w.approvals.get approval = some row ∧ row.payload.status = status

/-- **Views are real**: the status that a call has shown was stored after one of its own
steps. -/
def ViewsStored (commands : τ → ApprovalCommand)
    (cfg : Config Call AgentException (Option ApprovalRequest) World τ) (l : List (τ × Input)) :
    Prop :=
  ∀ t item, (cfg.run exec l).threads t = .ret (some item) →
    ∃ m x, m ++ [(t, x)] <+: l ∧ ¬ ((cfg.run exec m).threads t).Finished ∧
      HasStatus ((cfg.run exec m).step exec t x).state (commands t).approval item.status

omit [DecidableEq τ] in
/-- **What a call has noted is stored when it was answered.** -/
theorem hasStatus_of_noted {callers : τ → Caller} {t : τ} {x : Input} {status : ApprovalStatus}
    {statuses : List ApprovalStatus} {β : Type} {c : Call β}
    {k : Except AgentException β → Service (Option ApprovalRequest)}
    (hclaims : Claims commands callers cfg.state.approvals)
    (hlicit : approvalMonitor.licit (callers t) c) (ht : cfg.threads t = .call c k)
    (hexpires : ExpiresStored cfg t x) (hnew : status ∉ statuses)
    (hnoted : status ∈ noteStatus statuses c (exec c x cfg.state).1) :
    HasStatus (exec c x cfg.state).2 (commands t).approval status := by
  cases c with
  | getApproval tenantId approvalId =>
    have hkey : (tenantId, approvalId) = (commands t).approval := by
      rw [← hclaims.command t]
      exact hlicit
    rcases hr : (exec (.getApproval tenantId approvalId) x cfg.state).1 with e | o
    · rw [hr] at hnoted
      exact absurd hnoted hnew
    rw [hr] at hnoted
    cases o with
    | none => exact absurd hnoted hnew
    | some item =>
      obtain ⟨row, hrow, rfl⟩ := exec_getApproval hr
      have hstatus : status = row.payload.status := (List.mem_cons.1 hnoted).resolve_right hnew
      refine ⟨row, ?_, hstatus.symm⟩
      rw [exec_approvals rfl, ← hkey]
      exact hrow
  | compareAndSet tenantId approvalId expectedRevision request =>
    obtain ⟨item, hitem, rfl, rfl, rfl, -⟩ := id hlicit
    have hkey : (item.tenantId, item.approvalId) = (commands t).approval :=
      (hclaims.past t item hitem).2
    rcases hr : (exec (.compareAndSet item.tenantId item.approvalId item.revision request) x
      cfg.state).1 with e | b
    · rw [hr] at hnoted
      exact absurd hnoted hnew
    rw [hr] at hnoted
    -- What is noted is the status of the copy, also when the copy was refused.
    have hstatus : status = request.status ∧ (b = false → request.status = .expired) := by
      cases b with
      | true => exact ⟨(List.mem_cons.1 hnoted).resolve_right hnew, nofun⟩
      | false =>
        change status ∈ if request.status = .expired then _ else _ at hnoted
        split at hnoted
        · rename_i hexpired
          exact ⟨((List.mem_cons.1 hnoted).resolve_right hnew).trans hexpired.symm, fun _ => hexpired⟩
        · exact absurd hnoted hnew
    obtain ⟨rfl, hrefused⟩ := hstatus
    rcases hclaims.compareAndSet (x := x) hlicit with ⟨hno, hsame⟩ | ⟨row, hwritten⟩
    · cases b with
      | true => exact absurd hr hno
      | false =>
        have hexpiring : expiring (cfg.threads t) =
            some ((item.tenantId, item.approvalId), item.revision) := by
          rw [ht]
          exact if_pos (hrefused rfl)
        obtain ⟨row, hrow, hrevision⟩ := hexpires _ hexpiring
        have hexpired := hrevision.resolve_left (revision_ne_of_refused hrow hr)
        rw [hsame, ← hkey]
        exact ⟨row, hrow, hexpired.trans (hrefused rfl).symm⟩
    · exact ⟨_, hwritten.get_self, rfl⟩
  | _ => exact absurd hnoted hnew

/-- **The status that a caller is shown was stored during the call**, in every run whose steps find
a request that they expire as it was read, or expired. -/
theorem views_stored (service : ApprovalService) (commands : τ → ApprovalCommand)
    {cfg : Config Call AgentException (Option ApprovalRequest) World τ}
    (hthreads : ∀ t, cfg.threads t = (commands t).viewProgram service)
    (hstart : ∀ approval row, cfg.state.approvals.get approval = some row → row.Consistent)
    (l : List (τ × Input)) (hl : cfg.Respects exec ExpiresStored l) :
    ViewsStored commands cfg l := by
  have hwatched : ∀ m, approvalMonitor.Watched
      (fun callers w => Claims commands callers w.approvals) (cfg.run exec m)
      (approvalMonitor.observe exec cfg (watchers commands) m) := by
    have hclaims : Claims commands (watchers commands) cfg.state.approvals :=
      { command := fun _ => rfl
        consistent := hstart
        past := fun _ _ hitem => absurd hitem List.not_mem_nil
        claimed := fun _ howns => by rcases howns with h | h <;> cases h
        unique := fun _ _ _ howns => by rcases howns with h | h <;> cases h
        once := fun _ h => by cases h }
    refine Monitor.Watched.run ⟨hclaims, fun t => ?_⟩ (kept_claims commands)
    rw [hthreads t]
    exact conforms_viewProgram (commands t)
  intro t item ht
  let nothing : τ → List ApprovalStatus := fun _ => []
  have hbegins : viewMonitor.Conforms (cfg.threads t)
      (fun view statuses => ∀ item ∈ view, item.status ∈ statuses) (fun _ _ => True)
      (nothing t) := by
    rw [hthreads t]
    exact notes_viewProgram service (commands t)
  have hnotes : viewMonitor.Conforms ((cfg.run exec l).threads t)
      (fun view statuses => ∀ item ∈ view, item.status ∈ statuses) (fun _ _ => True)
      (viewMonitor.observe exec cfg nothing l t) := Monitor.conforms_run hbegins l
  rw [ht] at hnotes
  have hnoted := hnotes item rfl
  obtain ⟨m, x, hm, β, c, k, hcall, hnew, hnext⟩ :=
    Monitor.exists_call_of_observe (P := fun statuses => item.status ∈ statuses)
      List.not_mem_nil hnoted
  refine ⟨m, x, hm, ?_, ?_⟩
  · rw [hcall]
    exact nofun
  · have hexpires := (Config.respects_append.1 (hl.of_prefix hm)).2.1
    rw [Config.step_call hcall]
    exact hasStatus_of_noted (hwatched m).inv ((hwatched m).licit hcall) hcall hexpires hnew hnext

end Runs

/-! ## A decision at the deadline

One caller approves in time, while another one finds that the time is up. -/

namespace Sample

def lateCommands : ℕ → ApprovalCommand
  | 0 => .decide "a" approver .approve
  | _ => .getCurrent "a" "t"

def late : Config Call AgentException (Option ApprovalRequest) World ℕ where
  state := world
  threads := fun t => (lateCommands t).viewProgram approvals

/-- Both have read the request when the decision is stored, and the copy that is to expire it
comes after that. -/
def lateSchedule : List (ℕ × Input) :=
  [(1, {}), (0, {}), (0, { now := 29 }), (0, { now := 29 }), (1, { now := 30 }), (0, {}), (1, {})]

/-- The other way round, the decision is refused and finds the request expired. -/
def earlySchedule : List (ℕ × Input) :=
  [(1, {}), (0, {}), (0, { now := 29 }), (0, { now := 29 }), (1, { now := 30 }), (1, {}), (0, {}),
    (0, {})]

end Sample

/-- The request is shown as expired, and was never stored so. -/
theorem not_viewsStored : ¬ ViewsStored Sample.lateCommands Sample.late Sample.lateSchedule := by
  intro hviews
  have hshown : ((Sample.late.run exec Sample.lateSchedule).threads 1).returned.map
      (fun view => view.map ApprovalRequest.status) = some (some .expired) := by decide +kernel
  obtain ⟨view, hview, hstatus⟩ := Option.map_eq_some_iff.1 hshown
  obtain ⟨item, rfl, hexpired⟩ := Option.map_eq_some_iff.1 hstatus
  obtain ⟨m, x, hm, -, row, hrow, hstored⟩ := hviews 1 item (Prog.returned_eq_some.1 hview)
  have hnever : ∀ p ∈ Sample.lateSchedule.inits,
      ∀ row ∈ (Sample.late.run exec p).state.approvals.get ("t", "a"),
        row.payload.status ≠ .expired := by decide +kernel
  rw [← Config.run_concat] at hrow
  exact hnever _ ((List.mem_inits _ _).2 hm) row hrow (hstored.trans hexpired)

/-- In the other order the decision shows what is stored. -/
theorem views_stored_early :
    Sample.late.Respects exec ExpiresStored Sample.earlySchedule ∧
      ViewsStored Sample.lateCommands Sample.late Sample.earlySchedule := by
  have hrespects : Sample.late.Respects exec ExpiresStored Sample.earlySchedule := by
    decide +kernel
  refine ⟨hrespects, views_stored Sample.approvals Sample.lateCommands (fun _ => rfl) ?_ _
    hrespects⟩
  intro approval row hrow
  have hmem : row ∈ [Sample.approvalRow] := Table.mem_of_get hrow
  rw [List.mem_singleton.1 hmem]
  exact ⟨rfl, rfl, rfl⟩

end Agent
end RagflowAgent
