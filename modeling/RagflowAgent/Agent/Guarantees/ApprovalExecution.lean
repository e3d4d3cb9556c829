import RagflowAgent.Agent.Conduct.Approvals

/-!
# An approval is executed once

The row of a request has one writer at a time, however many callers there are: a copy is
written only over the row it was made from, and a row is never the same again once it was
written.  So of all the callers that see a request approved one gets to claim it, and only
who has claimed it executes.

* `Claims` is the invariant: what was seen is in the past of the table, and no two callers
  have claimed the same request;
* `kept_claims` says that every licit call keeps it;
* `approval_executes_once` is the result.
-/

namespace RagflowAgent
namespace Agent

open Interleaving

/-! ## The invariant -/

/-- The columns of a row are those of its payload. -/
structure AgentApprovalRow.Consistent (row : AgentApprovalRow) : Prop where
  tenantId : row.payload.tenantId = row.tenantId
  approvalId : row.payload.approvalId = row.approvalId
  revision : row.payload.revision = row.revision

/-- The key of a request. -/
def ApprovalRequest.approval (item : ApprovalRequest) : String × String :=
  (item.tenantId, item.approvalId)

/-- The request was, or still is, the payload of its row. -/
def Past (table : Table AgentApprovalRow) (item : ApprovalRequest) : Prop :=
  ∃ row, table.get item.approval = some row ∧ item.revision ≤ row.revision ∧
    (row.revision = item.revision → row.payload = item)

def IsClaimed (table : Table AgentApprovalRow) (approval : String × String) : Prop :=
  ∃ row, table.get approval = some row ∧ row.payload.status.Claimed

/-- What callers, watched, and the table of requests have to do with each other. -/
structure Claims {τ : Type} (commands : τ → ApprovalCommand) (callers : τ → Caller)
    (table : Table AgentApprovalRow) : Prop where
  command : ∀ t, (callers t).command = commands t
  consistent : ∀ approval row, table.get approval = some row → row.Consistent
  past : ∀ t, ∀ item ∈ (callers t).seen, Past table item ∧ item.approval = (commands t).approval
  claimed : ∀ t, (callers t).Owns → IsClaimed table (commands t).approval
  unique : ∀ t u, (commands t).approval = (commands u).approval → (callers t).Owns →
    (callers u).Owns → t = u
  once : ∀ t, (callers t).entered = true → (callers t).claimed = false

section Invariant

variable {τ : Type} {commands : τ → ApprovalCommand} {callers : τ → Caller} {w : World}
  {t : τ} {x : Input}

/-- The table after an allowed copy was written over a row. -/
structure Written (commands : τ → ApprovalCommand) (t : τ) (row : AgentApprovalRow)
    (request : ApprovalRequest) (table table' : Table AgentApprovalRow) : Prop where
  before : table.get (commands t).approval = some row
  writes : Writes (commands t) row.payload request
  after : ∀ approval, table'.get approval =
    if approval = (commands t).approval then
      some { row with revision := request.revision, payload := request }
    else table.get approval

/-- What a licit compare-and-set does to the table: nothing, or it writes an allowed copy over
the row of the caller's request. -/
theorem Claims.compareAndSet (h : Claims commands callers w.approvals)
    {tenantId approvalId : String} {expectedRevision : ℕ} {request : ApprovalRequest}
    (hlicit : approvalMonitor.licit (callers t)
      (.compareAndSet tenantId approvalId expectedRevision request)) :
    let r := exec (.compareAndSet tenantId approvalId expectedRevision request) x w
    r.1 ≠ .ok true ∧ r.2 = w ∨
      ∃ row, Written commands t row request w.approvals r.2.approvals := by
  intro r
  obtain ⟨item, hitem, rfl, rfl, rfl, hwrites⟩ := hlicit
  rcases exec_compareAndSet item.tenantId item.approvalId item.revision request x w with
    hno | ⟨row, hrow, hrevision, hr⟩
  · exact .inl hno
  · right
    obtain ⟨⟨row', hrow', -, hpayload⟩, happroval⟩ := h.past t item hitem
    have hsame : row = row' := Option.some.inj (hrow.symm.trans hrow')
    subst hsame
    rw [h.command t, ← hpayload hrevision] at hwrites
    have hkey : Keyed.key row = (commands t).approval := by
      rw [Table.key_of_get hrow, ← happroval]
      rfl
    refine ⟨row, ?_, hwrites, fun approval => ?_⟩
    · rw [← happroval]
      exact hrow
    · change (exec _ _ _).2.approvals.get approval = _
      rw [hr, ← hkey]
      have hget : w.approvals.get (Keyed.key row) = some row := by
        rw [Table.key_of_get hrow]
        exact hrow
      exact Table.get_replace
        (r := { row with revision := request.revision, payload := request }) hget approval

namespace Written

variable {row : AgentApprovalRow} {request : ApprovalRequest}
  {table table' : Table AgentApprovalRow}

theorem get_self (hw : Written commands t row request table table') :
    table'.get (commands t).approval =
      some { row with revision := request.revision, payload := request } := by
  rw [hw.after, if_pos rfl]

theorem get_of_ne (hw : Written commands t row request table table')
    {approval : String × String} (hne : approval ≠ (commands t).approval) :
    table'.get approval = table.get approval := by
  rw [hw.after, if_neg hne]

/-- What is in the past of the table stays there. -/
theorem past (hw : Written commands t row request table table') (hrow : row.Consistent)
    {item : ApprovalRequest} (h : Past table item) : Past table' item := by
  obtain ⟨row', hrow', hrevision, hpayload⟩ := h
  by_cases happroval : item.approval = (commands t).approval
  · rw [happroval, hw.before] at hrow'
    cases hrow'
    have hnext : request.revision = row.revision + 1 := by
      rw [hw.writes.transition.2, hrow.revision]
    refine ⟨_, by rw [happroval]; exact hw.get_self, ?_, fun heq => ?_⟩
    · change item.revision ≤ request.revision
      omega
    · change request.revision = item.revision at heq
      omega
  · exact ⟨row', by rw [hw.get_of_ne happroval]; exact hrow', hrevision, hpayload⟩

/-- The copy that was written is the payload of its row. -/
theorem past_self (hw : Written commands t row request table table') (hrow : row.Consistent)
    (hkey : (row.tenantId, row.approvalId) = (commands t).approval) :
    Past table' request ∧ request.approval = (commands t).approval := by
  have happroval : request.approval = (commands t).approval := by
    obtain ⟨htenant, hid, -⟩ := hw.writes.same
    rw [ApprovalRequest.approval, htenant, hid, hrow.tenantId, hrow.approvalId, hkey]
  exact ⟨⟨_, by rw [happroval]; exact hw.get_self, le_refl _, fun _ => rfl⟩, happroval⟩

/-- Claimed requests stay claimed. -/
theorem isClaimed (hw : Written commands t row request table table')
    {approval : String × String} (h : IsClaimed table approval) : IsClaimed table' approval := by
  obtain ⟨row', hrow', hclaimed⟩ := h
  by_cases happroval : approval = (commands t).approval
  · subst happroval
    rw [hw.before] at hrow'
    cases hrow'
    exact ⟨_, hw.get_self, hclaimed.transition hw.writes.transition.1⟩
  · exact ⟨row', by rw [hw.get_of_ne happroval]; exact hrow', hclaimed⟩

/-- A claim finds the request unclaimed. -/
theorem not_isClaimed (hw : Written commands t row request table table')
    (hrequest : request.status = .executing) : ¬ IsClaimed table (commands t).approval := by
  rintro ⟨row', hrow', hclaimed⟩
  rw [hw.before] at hrow'
  cases hrow'
  have hstatus := hw.writes.approved_of_executing hrequest
  rw [hstatus] at hclaimed
  rcases hclaimed with h | h | h <;> cases h

theorem claims (hw : Written commands t row request table table')
    (h : Claims commands callers table) : Claims commands callers table' where
  command := h.command
  consistent := fun approval row' hrow' => by
    have hrow := h.consistent _ _ hw.before
    by_cases happroval : approval = (commands t).approval
    · rw [happroval, hw.get_self] at hrow'
      cases hrow'
      obtain ⟨htenant, hid, -⟩ := hw.writes.same
      exact ⟨htenant.trans hrow.tenantId, hid.trans hrow.approvalId, rfl⟩
    · rw [hw.get_of_ne happroval] at hrow'
      exact h.consistent _ _ hrow'
  past := fun u item hitem =>
    ⟨hw.past (h.consistent _ _ hw.before) (h.past u item hitem).1, (h.past u item hitem).2⟩
  claimed := fun u hu => hw.isClaimed (h.claimed u hu)
  unique := h.unique
  once := h.once

end Written

variable [DecidableEq τ]

/-- One caller moves on, the table stays. -/
theorem Claims.update {table : Table AgentApprovalRow} (h : Claims commands callers table)
    {caller : Caller} (hcommand : caller.command = commands t)
    (hpast : ∀ item ∈ caller.seen, Past table item ∧ item.approval = (commands t).approval)
    (hclaimed : caller.Owns → IsClaimed table (commands t).approval)
    (hunique : caller.Owns → ∀ u, u ≠ t → (commands u).approval = (commands t).approval →
      ¬ (callers u).Owns)
    (honce : caller.entered = true → caller.claimed = false) :
    Claims commands (Function.update callers t caller) table where
  command := (Function.forall_update_iff callers fun u c => c.command = commands u).2
    ⟨hcommand, fun u _ => h.command u⟩
  consistent := h.consistent
  past := (Function.forall_update_iff callers fun u c => ∀ item ∈ c.seen,
    Past table item ∧ item.approval = (commands u).approval).2 ⟨hpast, fun u _ => h.past u⟩
  claimed := (Function.forall_update_iff callers fun u c => c.Owns →
    IsClaimed table (commands u).approval).2 ⟨hclaimed, fun u _ => h.claimed u⟩
  unique := fun u v huv hu hv => by
    by_cases hut : u = t
    · by_cases hvt : v = t
      · rw [hut, hvt]
      · rw [hut, Function.update_self] at hu
        rw [Function.update_of_ne hvt] at hv
        exact absurd hv (hunique hu v hvt (by rw [← huv, hut]))
    · rw [Function.update_of_ne hut] at hu
      by_cases hvt : v = t
      · rw [hvt, Function.update_self] at hv
        exact absurd hu (hunique hv u hut (by rw [huv, hvt]))
      · rw [Function.update_of_ne hvt] at hv
        exact h.unique u v huv hu hv
  once := (Function.forall_update_iff callers fun _ c => c.entered = true →
    c.claimed = false).2 ⟨honce, fun u _ => h.once u⟩

/-- A caller that learns nothing. -/
theorem Claims.stay {table : Table AgentApprovalRow} (h : Claims commands callers table) :
    Claims commands (Function.update callers t (callers t)) table := by
  rw [Function.update_eq_self]
  exact h

/-- A caller may see a row that is in the past of the table. -/
theorem Claims.see {table : Table AgentApprovalRow} (h : Claims commands callers table)
    {item : ApprovalRequest} (hpast : Past table item)
    (happroval : item.approval = (commands t).approval) :
    Claims commands (Function.update callers t
      { callers t with seen := item :: (callers t).seen }) table := by
  refine h.update (h.command t) (fun item' hitem' => ?_) (fun howns => h.claimed t howns)
    (fun howns u hu huv hown => hu (h.unique u t huv hown howns)) (h.once t)
  rcases List.mem_cons.1 hitem' with rfl | hitem'
  · exact ⟨hpast, happroval⟩
  · exact h.past t item' hitem'

/-- Who has claimed a request may enter the execution. -/
theorem Claims.enter {table : Table AgentApprovalRow} (h : Claims commands callers table)
    (hclaimed : (callers t).claimed = true) :
    Claims commands (Function.update callers t
      { callers t with claimed := false, entered := true }) table :=
  h.update (h.command t) (h.past t) (fun _ => h.claimed t (.inl hclaimed))
    (fun _ u hu huv hown => hu (h.unique u t huv hown (.inl hclaimed))) fun _ => rfl

/-- **Whose copy went through** has seen it, and owns the request if the copy was a claim. -/
theorem Written.claims_update {row : AgentApprovalRow} {request : ApprovalRequest}
    {table table' : Table AgentApprovalRow} (hw : Written commands t row request table table')
    (h : Claims commands callers table) :
    Claims commands (Function.update callers t
      { callers t with
        seen := request :: (callers t).seen
        claimed := (callers t).claimed || decide (request.status = .executing) }) table' := by
  have hrow := h.consistent _ _ hw.before
  have hkey : (row.tenantId, row.approvalId) = (commands t).approval := Table.key_of_get hw.before
  by_cases hrequest : request.status = .executing
  · -- nobody owned the request before
    have hnone : ∀ u, (commands u).approval = (commands t).approval → ¬ (callers u).Owns :=
      fun u hu howns => hw.not_isClaimed hrequest (hu ▸ h.claimed u howns)
    refine (hw.claims h).update (h.command t) (fun item hitem => ?_) (fun _ => ?_)
      (fun _ u _ hu => hnone u hu) fun hentered => absurd (.inr hentered) (hnone t rfl)
    · rcases List.mem_cons.1 hitem with rfl | hitem
      · exact hw.past_self hrow hkey
      · exact (hw.claims h).past t item hitem
    · exact ⟨_, hw.get_self, .inl hrequest⟩
  · have hsame : ((callers t).claimed || decide (request.status = .executing)) =
        (callers t).claimed := by simp [hrequest]
    rw [hsame]
    obtain ⟨hpast, happroval⟩ := hw.past_self hrow hkey
    exact (hw.claims h).see hpast happroval

/-- **Every licit call keeps the invariant.** -/
theorem kept_claims (commands : τ → ApprovalCommand) :
    approvalMonitor.Kept exec fun callers w => Claims commands callers w.approvals := by
  intro callers w t β c x h hlicit
  cases c with
  | getApproval tenantId approvalId =>
    have hw : (exec (.getApproval tenantId approvalId) x w).2.approvals = w.approvals :=
      exec_approvals rfl x w
    rw [hw]
    cases hr : (exec (.getApproval tenantId approvalId) x w).1 with
    | error e => exact h.stay
    | ok o =>
      cases o with
      | none => exact h.stay
      | some item =>
        obtain ⟨row, hrow, rfl⟩ := exec_getApproval hr
        have hcons := h.consistent _ _ hrow
        have hkey : (row.tenantId, row.approvalId) = (tenantId, approvalId) :=
          Table.key_of_get hrow
        have happroval : row.payload.approval = (tenantId, approvalId) := by
          rw [ApprovalRequest.approval, hcons.tenantId, hcons.approvalId, hkey]
        refine h.see ⟨row, by rw [happroval]; exact hrow, hcons.revision.le, fun _ => rfl⟩ ?_
        rw [happroval, ← h.command t]
        exact hlicit
  | compareAndSet tenantId approvalId expectedRevision request =>
    rcases h.compareAndSet (x := x) hlicit with ⟨hno, hw⟩ | ⟨row, hw⟩
    · rw [hw]
      cases hr : (exec (.compareAndSet tenantId approvalId expectedRevision request) x w).1 with
      | error e => exact h.stay
      | ok b =>
        cases b with
        | false => exact h.stay
        | true => exact absurd hr hno
    · cases hr : (exec (.compareAndSet tenantId approvalId expectedRevision request) x w).1 with
      | error e => exact (hw.claims h).stay
      | ok b =>
        cases b with
        | false => exact (hw.claims h).stay
        | true => exact hw.claims_update h
  | enter invocation context approved =>
    rw [exec_approvals rfl x w]
    exact h.enter hlicit.2
  | saveApproval request => exact absurd hlicit id
  | _ =>
    rw [exec_approvals rfl x w]
    exact h.stay

end Invariant

/-! ## Runs -/

section Runs

variable {τ : Type} [DecidableEq τ] {commands : τ → ApprovalCommand} {callers : τ → Caller}
  {cfg : Config Call AgentException Unit World τ} {t : τ} {x : Input}
  {approval : String × String}

/-- A row as `save` writes it for a new request. -/
structure AgentApprovalRow.Requested (row : AgentApprovalRow) : Prop where
  consistent : row.Consistent
  status : row.payload.status = .approvalRequired

/-- The next thing the program does is to enter the execution of an approved call. -/
def entersApproved : Service Unit → Bool
  | .call (.enter _ _ approved) _ => approved
  | _ => false

theorem exists_of_entersApproved {p : Service Unit} (h : entersApproved p = true) :
    ∃ invocation context k, p = .call (.enter invocation context true) k := by
  unfold entersApproved at h
  split at h
  · rename_i invocation context approved k
    rw [h]
    exact ⟨invocation, context, k, rfl⟩
  · cases h

/-- The step enters the execution of the approved call of a request. -/
def Executes (commands : τ → ApprovalCommand) (approval : String × String)
    (cfg : Config Call AgentException Unit World τ) (t : τ) (_ : Input) : Prop :=
  (commands t).approval = approval ∧ entersApproved (cfg.threads t) = true

/-- The step stores the decision of somebody with a required role that a request is
approved. -/
def Approves (commands : τ → ApprovalCommand) (approval : String × String)
    (cfg : Config Call AgentException Unit World τ) (t : τ) (x : Input) : Prop :=
  ∃ approvalId context row row',
    commands t = .decide approvalId context .approve ∧ (context.tenantId, approvalId) = approval ∧
    cfg.state.approvals.get approval = some row ∧ row.payload.status = .approvalRequired ∧
    (cfg.step exec t x).state.approvals.get approval = some row' ∧
    row'.payload.status = .approved ∧ row'.payload.decidedBy = some context.actorId ∧
    ∃ role ∈ context.roles, role ∈ row.payload.requiredRoles

/-- A request stays as it is, or its status moves along an edge and its revision by one. -/
def Moves (approval : String × String) (table table' : Table AgentApprovalRow) : Prop :=
  (table.get approval = none → table'.get approval = none) ∧
    ∀ row, table.get approval = some row → ∃ row', table'.get approval = some row' ∧
      (row' = row ∨ row'.payload.status ∈ row.payload.status.transitions ∧
        row'.revision = row.revision + 1 ∧ row'.payload.revision = row.payload.revision + 1)

/-- What one step does to the table: nothing, or it writes an allowed copy. -/
theorem step_cases
    (h : approvalMonitor.Watched (fun callers w => Claims commands callers w.approvals) cfg callers)
    (t : τ) (x : Input) :
    (cfg.step exec t x).state.approvals = cfg.state.approvals ∨
      ∃ row request,
        Written commands t row request cfg.state.approvals (cfg.step exec t x).state.approvals := by
  cases ht : cfg.threads t with
  | ret a => exact .inl (by rw [Config.step_finished (by rw [ht]; rfl)])
  | raise e => exact .inl (by rw [Config.step_finished (by rw [ht]; rfl)])
  | call c k =>
    have hlicit := h.licit ht
    rw [Config.step_call ht]
    cases c with
    | compareAndSet tenantId approvalId expectedRevision request =>
      rcases h.inv.compareAndSet (x := x) hlicit with ⟨-, hw⟩ | ⟨row, hw⟩
      · exact .inl (by rw [hw])
      · exact .inr ⟨row, request, hw⟩
    | saveApproval request => exact absurd hlicit id
    | _ => exact .inl (exec_approvals rfl x cfg.state)

omit [DecidableEq τ] in
theorem Written.moves {row : AgentApprovalRow} {request : ApprovalRequest}
    {table table' : Table AgentApprovalRow} (hw : Written commands t row request table table')
    (hrow : row.Consistent) (approval : String × String) : Moves approval table table' := by
  by_cases happroval : approval = (commands t).approval
  · subst happroval
    refine ⟨fun hnone => ?_, fun row' hrow' => ⟨_, hw.get_self, .inr ?_⟩⟩
    · rw [hw.before] at hnone
      cases hnone
    · rw [hw.before] at hrow'
      cases hrow'
      obtain ⟨hstatus, hrevision⟩ := hw.writes.transition
      exact ⟨hstatus, by rw [← hrow.revision]; exact hrevision, hrevision⟩
  · rw [Moves, hw.get_of_ne happroval]
    exact ⟨id, fun row' hrow' => ⟨row', hrow', .inl rfl⟩⟩

/-- A request that was approved, and perhaps claimed since. -/
def WasApproved (approval : String × String) (cfg : Config Call AgentException Unit World τ) :
    Prop :=
  ∃ row, cfg.state.approvals.get approval = some row ∧
    (row.payload.status = .approved ∨ row.payload.status.Claimed)

/-- A step after which a request is approved, or claimed, when it was neither before, stores
the decision of somebody who may make it. -/
theorem approves_of_switch
    (h : approvalMonitor.Watched (fun callers w => Claims commands callers w.approvals) cfg callers)
    (hbefore : ¬ WasApproved approval cfg) (hafter : WasApproved approval (cfg.step exec t x)) :
    Approves commands approval cfg t x := by
  obtain ⟨row', hrow', hstatus'⟩ := hafter
  rcases step_cases h t x with hsame | ⟨row, request, hw⟩
  · rw [hsame] at hrow'
    exact absurd ⟨row', hrow', hstatus'⟩ hbefore
  by_cases happroval : approval = (commands t).approval
  swap
  · rw [hw.get_of_ne happroval] at hrow'
    exact absurd ⟨row', hrow', hstatus'⟩ hbefore
  subst happroval
  have hself := hw.get_self
  rw [hrow'] at hself
  cases hself
  have hrequest : request.status = .approved := by
    rcases hstatus' with hstatus | hclaimed
    · exact hstatus
    · exfalso
      refine hbefore ⟨row, hw.before, ?_⟩
      have htransition := hw.writes.transition.1
      cases hrow : row.payload.status <;> rw [hrow] at htransition <;>
        simp only [ApprovalStatus.transitions, List.mem_cons, List.not_mem_nil, or_false]
          at htransition
      · exfalso
        rcases hclaimed with hs | hs | hs <;> rcases htransition with ht | ht | ht | ht <;>
          · rw [hs] at ht
            cases ht
      · exact .inl rfl
      · exact .inr (.inl rfl)
  obtain ⟨hstatus, approvalId, context, hcommand, hdecided, role, hrole, hrequired⟩ :=
    hw.writes.decide_of_approved hrequest
  refine ⟨approvalId, context, row, _, hcommand, ?_, hw.before, hstatus, hw.get_self, hrequest,
    hdecided, role, hrole, ?_⟩
  · rw [hcommand]
    rfl
  · rw [← hw.writes.same.2.2]
    exact hrequired

/-- The watchers of callers that have not done anything yet. -/
def watchers (commands : τ → ApprovalCommand) (t : τ) : Caller := { command := commands t }

omit [DecidableEq τ] in
theorem watched_start {service : ApprovalService}
    (hthreads : ∀ t, cfg.threads t = (commands t).program service)
    (hstart : ∀ approval row, cfg.state.approvals.get approval = some row → row.Requested) :
    approvalMonitor.Watched (fun callers w => Claims commands callers w.approvals) cfg
      (watchers commands) where
  inv :=
    { command := fun _ => rfl
      consistent := fun approval row hrow => (hstart approval row hrow).consistent
      past := fun _ _ hitem => absurd hitem List.not_mem_nil
      claimed := fun _ howns => by rcases howns with h | h <;> cases h
      unique := fun _ _ _ howns => by rcases howns with h | h <;> cases h
      once := fun _ h => by cases h }
  conforms := fun t => by
    rw [hthreads t]
    exact conforms_program (commands t)

/-- Somebody has entered the execution of the request. -/
def HasEntered (commands : τ → ApprovalCommand) (approval : String × String)
    (callers : τ → Caller) : Prop :=
  ∃ t, (commands t).approval = approval ∧ (callers t).entered = true

/-- What was entered stays entered. -/
theorem HasEntered.watch {x : Input} (h : HasEntered commands approval callers) :
    HasEntered commands approval (approvalMonitor.watch exec cfg callers t x) := by
  obtain ⟨u, happroval, hentered⟩ := h
  refine ⟨u, happroval, ?_⟩
  cases ht : cfg.threads t with
  | ret a => rwa [Monitor.watch_finished (by rw [ht]; rfl)]
  | raise e => rwa [Monitor.watch_finished (by rw [ht]; rfl)]
  | call c k =>
    rw [Monitor.watch_call ht]
    by_cases hut : u = t
    · subst hut
      rw [Function.update_self]
      change ((callers u).next c _).entered = true
      unfold Caller.next
      split
      · split <;> exact hentered
      · split <;> exact hentered
      · rfl
      · exact hentered
    · rw [Function.update_of_ne hut]
      exact hentered

/-- Entering an execution is the first time, and it is noted. -/
theorem Executes.hasEntered
    (h : approvalMonitor.Watched (fun callers w => Claims commands callers w.approvals) cfg callers)
    (hx : Executes commands approval cfg t x) :
    IsClaimed cfg.state.approvals approval ∧ ¬ HasEntered commands approval callers ∧
      HasEntered commands approval (approvalMonitor.watch exec cfg callers t x) := by
  obtain ⟨rfl, henters⟩ := hx
  obtain ⟨invocation, context, k, ht⟩ := exists_of_entersApproved henters
  have hclaimed : (callers t).claimed = true := (h.licit ht).2
  refine ⟨h.inv.claimed t (.inl hclaimed), ?_, t, rfl, ?_⟩
  · rintro ⟨u, hu, hentered⟩
    have hut : u = t := h.inv.unique u t hu (.inr hentered) (.inl hclaimed)
    rw [← hut, h.inv.once u hentered] at hclaimed
    cases hclaimed
  · rw [Monitor.watch_call ht, Function.update_self]
    rfl

/-- **An approval is executed at most once**, only after somebody with a required role has
approved it, and every stored change moves its status along an edge and its revision by one. -/
theorem approval_executes_once (service : ApprovalService) (commands : τ → ApprovalCommand)
    {cfg : Config Call AgentException Unit World τ}
    (hthreads : ∀ t, cfg.threads t = (commands t).program service)
    (hstart : ∀ approval row, cfg.state.approvals.get approval = some row → row.Requested)
    (l : List (τ × Input)) (approval : String × String) :
    cfg.AtMostOnce exec (Executes commands approval) l ∧
      (∀ m, cfg.Happens exec (Executes commands approval) l m →
        ∃ m', cfg.Happens exec (Approves commands approval) m m') ∧
      ∀ m t x, m ++ [(t, x)] <+: l →
        Moves approval (cfg.run exec m).state.approvals
          (cfg.run exec (m ++ [(t, x)])).state.approvals := by
  have hwatched : ∀ m, approvalMonitor.Watched
      (fun callers w => Claims commands callers w.approvals) (cfg.run exec m)
      (approvalMonitor.observe exec cfg (watchers commands) m) :=
    (watched_start hthreads hstart).run (kept_claims commands)
  refine ⟨?_, ?_, fun m t x _ => ?_⟩
  · refine Config.atMostOnce_of_done (D := fun m =>
      HasEntered commands approval (approvalMonitor.observe exec cfg (watchers commands) m))
      (fun m t x _ h => ?_) fun m t x _ h => ?_
    · rw [Monitor.observe_concat]
      exact h.watch
    · rw [Monitor.observe_concat]
      exact (h.hasEntered (hwatched m)).2
  · rintro m ⟨t, x, -, hx⟩
    have happroved : WasApproved approval (cfg.run exec m) := by
      obtain ⟨row, hrow, hclaimed⟩ := (hx.hasEntered (hwatched m)).1
      exact ⟨row, hrow, .inr hclaimed⟩
    have hnot : ¬ WasApproved approval cfg := by
      rintro ⟨row, hrow, hstatus⟩
      rw [(hstart approval row hrow).status] at hstatus
      rcases hstatus with h | h | h | h <;> cases h
    obtain ⟨m', u, y, hm', hbefore, hafter⟩ := Config.exists_switch hnot happroved
    exact ⟨m', u, y, hm', approves_of_switch (hwatched m') hbefore hafter⟩
  · rw [Config.run_concat]
    rcases step_cases (hwatched m) t x with hsame | ⟨row, request, hw⟩
    · rw [hsame]
      exact ⟨id, fun row hrow => ⟨row, hrow, .inl rfl⟩⟩
    · exact hw.moves ((hwatched m).inv.consistent _ _ hw.before) approval

end Runs

/-! ## A race

One caller approves, two want to execute. -/

namespace Sample

def raceCommands : ℕ → ApprovalCommand
  | 0 => .decide "a" approver .approve
  | 1 => .resume "a" invocation user budget
  | 2 => .resume "a" invocation user budget
  | _ => .getCurrent "a" "t"

def race : Config Call AgentException Unit World ℕ where
  state := world
  threads := fun t => (raceCommands t).program approvals

/-- The decision, then the two claims, and then the execution of the one that went through. -/
def raceSchedule : List (ℕ × Input) :=
  [(0, {}), (0, {}), (0, {}), (0, {}), (1, {}), (2, {}), (1, {}), (2, {}), (1, {}), (2, {})]

/-- In the race the execution is entered, by one of the two. -/
theorem approval_executes_once_race :
    race.Happens exec (Executes raceCommands ("t", "a")) raceSchedule (raceSchedule.take 8) ∧
      race.AtMostOnce exec (Executes raceCommands ("t", "a")) raceSchedule := by
  refine ⟨⟨1, {}, ?_, rfl, by decide +kernel⟩, ?_⟩
  · exact ⟨raceSchedule.drop 9, rfl⟩
  · refine (approval_executes_once approvals raceCommands (fun _ => rfl) (fun approval row h => ?_)
      raceSchedule ("t", "a")).1
    have hrow : row ∈ [approvalRow] := Table.mem_of_get h
    rw [List.mem_singleton.1 hrow]
    exact ⟨⟨rfl, rfl, rfl⟩, rfl⟩

end Sample

end Agent
end RagflowAgent
