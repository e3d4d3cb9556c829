import RagflowAgent.Agent.Application.Budgets
import RagflowAgent.Interleaving.Local

/-!
# The world the agent runs in

The services of the agent are sequential programs over calls, as the knowledge services are.
They share the approval requests in the database and the two maps in which the tool service
of a process keeps what it has executed.  `Call` are the calls, `World` is what they share,
and `exec` answers one call.

Whatever the code does not decide is in the `Input` of a call: the clock, fresh ids, what
tools, planner and models answer, and failures.  An external call can fail before it takes
effect (`fault`), or take effect and then report a failure (`lateFault`); the time-out of a
tool is the failure `AgentException.timeout`.

`Call.enter` marks the moment at which `SecureToolExecutionService.execute` is called.  It
does nothing.
-/

namespace RagflowAgent
namespace Agent

open Interleaving

/-! ## State -/

/-- A row of `agent_approval_requests`.  The other columns are written and never read. -/
structure AgentApprovalRow where
  tenantId : String
  approvalId : String
  idempotencyKey : String
  revision : ℕ
  payload : ApprovalRequest
  deriving DecidableEq, Repr

instance : Keyed (String × String) AgentApprovalRow := ⟨fun row => (row.tenantId, row.approvalId)⟩

/-- The key of `_completed`. -/
structure CompletedKey where
  tenantId : String
  actorId : String
  toolCallId : String
  deriving DecidableEq, Repr

/-- The key of `_successful_signatures`. -/
structure CallSignature where
  tenantId : String
  actorId : String
  toolName : String
  toolVersion : String
  argumentDigest : String
  deriving DecidableEq, Repr

/-- Approval requests and the maps of the tool service. -/
structure World where
  approvals : Table AgentApprovalRow := Table.empty
  completed : CompletedKey → Option ToolExecutionOutcome := fun _ => none
  successful : CallSignature → Option ToolExecutionOutcome := fun _ => none

/-- A plan of one step, for calls that ask for none. -/
def QueryPlan.trivial : QueryPlan where
  isSimple := true
  steps := [{ stepId := "q1", question := "" }]
  steps_length := by decide
  dependencies := by decide
  simple := fun _ => rfl

/-- What a model generated, and its token counts. -/
structure GeneratedAnswer where
  content : String := ""
  inputTokens : ℕ := 0
  outputTokens : ℕ := 0
  deriving DecidableEq, Repr

/-- What the retrieval of the direct route found: the citations of the selected candidates
and the id of the trace. -/
structure DirectRetrieval where
  citations : List KnowledgeCitation := []
  traceId : String := ""
  deriving DecidableEq, Repr

/-- What settles a call. -/
structure Input where
  fault : Option AgentException := none
  lateFault : Option AgentException := none
  now : ℕ := 0
  newId : String := ""
  plan : QueryPlan := QueryPlan.trivial
  output : Json := .null
  retrieved : DirectRetrieval := {}
  generated : GeneratedAnswer := {}

/-! ## Calls -/

/-- The calls, with the type of their answers. -/
inductive Call : Type → Type 1 where
  | now : Call ℕ
  | newId : Call String
  | getApproval (tenantId approvalId : String) : Call (Option ApprovalRequest)
  | getByIdempotencyKey (tenantId idempotencyKey : String) : Call (Option ApprovalRequest)
  | saveApproval (request : ApprovalRequest) : Call Unit
  | compareAndSet (tenantId approvalId : String) (expectedRevision : ℕ)
      (request : ApprovalRequest) : Call Bool
  | enter (invocation : ToolInvocation) (context : ToolAuthorizationContext)
      (approved : Bool) : Call Unit
  | completed (key : CompletedKey) : Call (Option ToolExecutionOutcome)
  | successful (signature : CallSignature) : Call (Option ToolExecutionOutcome)
  | setCompleted (key : CompletedKey) (outcome : ToolExecutionOutcome) : Call Unit
  | setSuccessful (signature : CallSignature) (outcome : ToolExecutionOutcome) : Call Unit
  | invoke (invocation : ToolInvocation) (context : ToolAuthorizationContext) : Call Json
  | plan (question : String) : Call QueryPlan
  | retrieveDirect (context : ToolAuthorizationContext) (question : String)
      (knowledgeBaseIds : List String) : Call DirectRetrieval
  | generate (context : ToolAuthorizationContext) (question : String)
      (citations : List KnowledgeCitation) : Call GeneratedAnswer

namespace Call

/-- The clock, the id generator and the maps of the process cannot fail. -/
def external {β : Type} : Call β → Bool
  | getApproval _ _ => true
  | getByIdempotencyKey _ _ => true
  | saveApproval _ => true
  | compareAndSet _ _ _ _ => true
  | invoke _ _ => true
  | plan _ => true
  | retrieveDirect _ _ _ => true
  | generate _ _ _ => true
  | _ => false

/-- What a call does when it takes effect: its answer and the next state.  A call that
raises leaves the state as it was. -/
def effect {β : Type} (x : Input) (w : World) : Call β → Except AgentException (β × World)
  | now => .ok (x.now, w)
  | newId => .ok (x.newId, w)
  | getApproval tenantId approvalId =>
    .ok ((w.approvals.get (tenantId, approvalId)).map AgentApprovalRow.payload, w)
  | getByIdempotencyKey tenantId idempotencyKey =>
    .ok ((w.approvals.rows.find? fun row =>
      row.tenantId = tenantId ∧ row.idempotencyKey = idempotencyKey).map
        AgentApprovalRow.payload, w)
  | saveApproval request =>
    if w.approvals.rows.any fun row =>
        row.tenantId = request.tenantId ∧ row.idempotencyKey = request.idempotencyKey then
      .error (.other "IntegrityError")
    else
      match w.approvals.add
        ⟨request.tenantId, request.approvalId, request.idempotencyKey, request.revision, request⟩
        with
      | none => .error (.other "IntegrityError")
      | some approvals => .ok ((), { w with approvals := approvals })
  | compareAndSet tenantId approvalId expectedRevision request =>
    match w.approvals.get (tenantId, approvalId) with
    | none => .ok (false, w)
    | some row =>
      if row.revision = expectedRevision then
        .ok (true, { w with approvals :=
          w.approvals.replace { row with revision := request.revision, payload := request } })
      else .ok (false, w)
  | enter _ _ _ => .ok ((), w)
  | completed key => .ok (w.completed key, w)
  | successful signature => .ok (w.successful signature, w)
  | setCompleted key outcome =>
    .ok ((), { w with completed := Function.update w.completed key (some outcome) })
  | setSuccessful signature outcome =>
    .ok ((), { w with successful := Function.update w.successful signature (some outcome) })
  | invoke _ _ => .ok (x.output, w)
  | plan _ => .ok (x.plan, w)
  | retrieveDirect _ _ _ => .ok (x.retrieved, w)
  | generate _ _ _ => .ok (x.generated, w)

end Call

abbrev Service (α : Type) : Type 1 := Prog Call AgentException α

/-- A service that is handed a budget ledger. -/
abbrev Metered (α : Type) : Type 1 := Local Call AgentException BudgetLedger α

/-- **One step of a service.** -/
def exec ⦃β : Type⦄ (c : Call β) (x : Input) (w : World) : Except AgentException β × World :=
  match x.fault.filter fun _ => c.external with
  | some e => (.error e, w)
  | none =>
    match c.effect x w with
    | .error e => (.error e, w)
    | .ok (b, w') =>
      match x.lateFault.filter fun _ => c.external with
      | some e => (.error e, w')
      | none => (.ok b, w')

/-- What one step can do: fail without effect, or take effect and answer or fail. -/
theorem exec_cases {β : Type} (c : Call β) (x : Input) (w : World) :
    (∃ e, exec c x w = (.error e, w)) ∨
      ∃ b w', c.effect x w = .ok (b, w') ∧
        (exec c x w = (.ok b, w') ∨ ∃ e, exec c x w = (.error e, w')) := by
  unfold exec
  split
  · exact .inl ⟨_, rfl⟩
  split
  · exact .inl ⟨_, rfl⟩
  · rename_i b w' heffect
    refine .inr ⟨b, w', heffect, ?_⟩
    split
    · exact .inr ⟨_, rfl⟩
    · exact .inl rfl

/-- A call that cannot fail answers with its effect. -/
theorem exec_internal {β : Type} {c : Call β} (hc : c.external = false) {x : Input} {w w' : World}
    {b : β} (h : c.effect x w = .ok (b, w')) : exec c x w = (.ok b, w') := by
  have hnone : ∀ o : Option AgentException, (o.filter fun _ => c.external) = none := by
    intro o
    rw [hc]
    cases o <;> rfl
  unfold exec
  rw [hnone x.fault, hnone x.lateFault, h]

/-! ## The approval requests -/

/-- The calls that write to the table of approval requests. -/
def Call.writesApprovals {β : Type} : Call β → Bool
  | saveApproval _ => true
  | compareAndSet _ _ _ _ => true
  | _ => false

/-- The other calls leave the approval requests alone. -/
theorem exec_approvals {β : Type} {c : Call β} (hc : c.writesApprovals = false) (x : Input)
    (w : World) : (exec c x w).2.approvals = w.approvals := by
  rcases exec_cases c x w with ⟨e, he⟩ | ⟨b, w', heffect, he⟩
  · rw [he]
  · have hw : (exec c x w).2 = w' := by rcases he with he | ⟨e, he⟩ <;> rw [he]
    rw [hw]
    cases c with
    | saveApproval request => cases hc
    | compareAndSet tenantId approvalId expectedRevision request => cases hc
    | _ =>
      cases heffect
      rfl

/-- What reading an approval request tells. -/
theorem exec_getApproval {tenantId approvalId : String} {x : Input} {w : World}
    {item : ApprovalRequest}
    (h : (exec (.getApproval tenantId approvalId) x w).1 = .ok (some item)) :
    ∃ row, w.approvals.get (tenantId, approvalId) = some row ∧ row.payload = item := by
  rcases exec_cases (.getApproval tenantId approvalId) x w with
    ⟨e, he⟩ | ⟨b, w', heffect, he | ⟨e, he⟩⟩
  · rw [he] at h
    cases h
  · rw [he] at h
    cases h
    simp only [Call.effect, Except.ok.injEq, Prod.mk.injEq] at heffect
    exact Option.map_eq_some_iff.1 heffect.1
  · rw [he] at h
    cases h

/-- A compare-and-set replaces the row at the expected revision, or it changes nothing and
does not answer `true`. -/
theorem exec_compareAndSet (tenantId approvalId : String) (expectedRevision : ℕ)
    (request : ApprovalRequest) (x : Input) (w : World) :
    let r := exec (.compareAndSet tenantId approvalId expectedRevision request) x w
    r.1 ≠ .ok true ∧ r.2 = w ∨
      ∃ row, w.approvals.get (tenantId, approvalId) = some row ∧
        row.revision = expectedRevision ∧
        r.2 = { w with approvals :=
          w.approvals.replace { row with revision := request.revision, payload := request } } := by
  intro r
  rcases exec_cases (.compareAndSet tenantId approvalId expectedRevision request) x w with
    ⟨e, he⟩ | ⟨b, w', heffect, he⟩
  · left
    change r = _ at he
    rw [he]
    exact ⟨nofun, rfl⟩
  · have hw : r.2 = w' := by rcases he with he | ⟨e, he⟩ <;> exact congrArg Prod.snd he
    have hb : r.1 = .ok b ∨ ∃ e, r.1 = .error e := by
      rcases he with he | ⟨e, he⟩
      · exact .inl (congrArg Prod.fst he)
      · exact .inr ⟨e, congrArg Prod.fst he⟩
    simp only [Call.effect] at heffect
    split at heffect
    · cases heffect
      refine .inl ⟨?_, hw⟩
      rcases hb with hb | ⟨e, hb⟩ <;> rw [hb] <;> simp
    · rename_i row hrow
      split at heffect
      · cases heffect
        exact .inr ⟨row, hrow, ‹_›, hw⟩
      · cases heffect
        refine .inl ⟨?_, hw⟩
        rcases hb with hb | ⟨e, hb⟩ <;> rw [hb] <;> simp

end Agent
end RagflowAgent
