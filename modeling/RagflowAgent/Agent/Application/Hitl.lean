import RagflowAgent.Agent.Application.ToolPolicy

/-!
# The approval service

A call that needs an approval waits in the database as an `ApprovalRequest`.  Somebody
decides, the run claims the approved request, executes the call and stores how that ended.
Every change is a compare-and-set on the revision that was read.

`request`, `decide`, `getCurrent` and `resume` are the service's functions; each of the
`ApprovalRequest` functions below is the copy that one of them writes.
-/

namespace RagflowAgent
namespace Agent

open Interleaving

inductive ApprovalDecision where
  | approve
  | reject
  | cancel
  deriving DecidableEq, Repr

/-! ## The copies that are written -/

namespace ApprovalRequest

variable (item : ApprovalRequest)

def expire : ApprovalRequest :=
  { item with status := .expired, revision := item.revision + 1 }

def decideAs (status : ApprovalStatus) (decidedBy : String) (decidedAt : ℕ) :
    ApprovalRequest :=
  { item with
    status := status, decidedBy := some decidedBy, decidedAt := some decidedAt,
    revision := item.revision + 1 }

/-- The claim for execution. -/
def claim : ApprovalRequest :=
  { item with status := .executing, revision := item.revision + 1 }

def fail : ApprovalRequest :=
  { item with status := .failed, revision := item.revision + 1 }

def succeed (summary : ToolCallSummary) : ApprovalRequest :=
  { item with
    status := .succeeded, resultSummary := some summary, revision := item.revision + 1 }

/-- The call that was approved is the call that is to be executed. -/
def IsFor (host : Host) (invocation : ToolInvocation) : Prop :=
  item.toolCallId = invocation.toolCallId ∧ item.toolName = invocation.toolName ∧
    item.toolVersion = invocation.toolVersion ∧
    item.argumentDigest = invocation.argumentDigest host

instance (host : Host) (invocation : ToolInvocation) : Decidable (item.IsFor host invocation) :=
  inferInstanceAs (Decidable (_ ∧ _))

end ApprovalRequest

/-! ## The service -/

/-- The time to live of a request is counted in ticks of the clock. -/
structure ApprovalService where
  tools : SecureToolExecutionService
  ttl : ℕ

namespace ApprovalService

variable (service : ApprovalService)

def idempotencyKey (runId : String) (invocation : ToolInvocation)
    (context : ToolAuthorizationContext) : String :=
  service.tools.host.sha256 (context.tenantId ++ ":" ++ runId ++ ":" ++ invocation.toolCallId ++
    ":" ++ invocation.argumentDigest service.tools.host)

def request (runId threadId : String) (invocation : ToolInvocation)
    (context : ToolAuthorizationContext) (reason : String) (requiredRoles : List String) :
    Service ApprovalRequest := do
  let now ← Prog.perform .now
  let idempotencyKey := service.idempotencyKey runId invocation context
  match ← Prog.perform (.getByIdempotencyKey context.tenantId idempotencyKey) with
  | some existing => return existing
  | none =>
    let approvalId ← Prog.perform .newId
    let item : ApprovalRequest := {
      approvalId := approvalId
      runId := runId
      threadId := threadId
      toolCallId := invocation.toolCallId
      toolName := invocation.toolName
      toolVersion := invocation.toolVersion
      argumentDigest := invocation.argumentDigest service.tools.host
      tenantId := context.tenantId
      userId := context.actorId
      reason := reason
      requiredRoles := requiredRoles
      createdAt := now
      expiresAt := now + service.ttl
      idempotencyKey := idempotencyKey }
    Prog.perform (.saveApproval item)
    return item

/-- `_require`. -/
def require (approvalId tenantId : String) : Service ApprovalRequest := do
  match ← Prog.perform (.getApproval tenantId approvalId) with
  | none => .raise (.tool "approval request was not found" "approval_not_found" 404)
  | some item => return item

/-- The compare-and-set of a copy against the row it was made from. -/
def write (item updated : ApprovalRequest) : Service Bool :=
  Prog.perform (.compareAndSet item.tenantId item.approvalId item.revision updated)

/-- `_expire_if_needed`.  What is returned is expired even when the row is not. -/
def expireIfNeeded (item : ApprovalRequest) : Service ApprovalRequest :=
  if item.status ≠ .approvalRequired then return item
  else do
    let now ← Prog.perform .now
    if now < item.expiresAt then return item
    else do
      let _ ← write item item.expire
      return item.expire

/-- The status a decision leads to, if the actor may make it. -/
def decidedStatus (item : ApprovalRequest) (context : ToolAuthorizationContext) :
    ApprovalDecision → Except AgentException ApprovalStatus
  | .cancel =>
    if context.actorId ≠ item.userId ∧ intersects context.roles item.requiredRoles = false then
      .error (.tool "approval cancellation is not authorized" "approval_forbidden" 403)
    else .ok .cancelled
  | decision =>
    if item.requiredRoles = [] ∨ intersects context.roles item.requiredRoles = false then
      .error (.tool "approval role is required" "approval_forbidden" 403)
    else .ok (if decision = .approve then .approved else .rejected)

def decide (approvalId : String) (context : ToolAuthorizationContext)
    (decision : ApprovalDecision) : Service ApprovalRequest := do
  let item ← require approvalId context.tenantId
  let item ← expireIfNeeded item
  if item.status ≠ .approvalRequired then return item
  else do
    let status ← Prog.ofExcept (decidedStatus item context decision)
    let now ← Prog.perform .now
    let updated := item.decideAs status context.actorId now
    if ← write item updated then return updated
    else require approvalId context.tenantId

def getCurrent (approvalId tenantId : String) : Service ApprovalRequest := do
  let item ← require approvalId tenantId
  expireIfNeeded item

/-- The outcome that is replayed for a request that has succeeded. -/
def replayed (item : ApprovalRequest) : Option ToolExecutionOutcome :=
  if item.status = .succeeded then
    item.resultSummary.map fun summary => { status := .success, summary := summary }
  else none

/-- The execution of a claimed request.  `executing` is the row as it was claimed. -/
def executeClaimed (executing : ApprovalRequest) (invocation : ToolInvocation)
    (context : ToolAuthorizationContext) : Metered ToolExecutionOutcome := do
  let outcome ← Local.attempt (service.tools.execute invocation context true) fun error => do
    let _ ← Local.lift (write executing executing.fail)
    Local.raise error
  if ← Local.lift (write executing (executing.succeed outcome.summary)) then return outcome
  else
    Local.raise (.tool "approval result could not be persisted" "approval_result_conflict" 409)

def resume (approvalId : String) (invocation : ToolInvocation)
    (context : ToolAuthorizationContext) : Metered ToolExecutionOutcome := do
  let item ← Local.lift (require approvalId context.tenantId)
  let item ← Local.lift (expireIfNeeded item)
  if ¬ item.IsFor service.tools.host invocation then
    Local.raise
      (.tool "approval does not match the current Tool call" "approval_call_changed" 409)
  else
    match replayed item with
    | some outcome => return outcome
    | none =>
      if item.status ≠ .approved then
        Local.raise (.tool "approval is not executable" ("approval_" ++ item.status.value) 409)
      else do
        let policy ← Local.ofExcept (service.tools.authorize invocation context)
        if policy.action = .deny then
          Local.raise (.tool "Tool policy changed after approval" "approval_policy_changed" 403)
        else do
          if ← Local.lift (write item item.claim) then
            service.executeClaimed item.claim invocation context
          else do
            let current ← Local.lift (require approvalId context.tenantId)
            match replayed current with
            | some outcome => return outcome
            | none =>
              Local.raise (.tool "approval execution is already claimed"
                "approval_execution_conflict" 409)

end ApprovalService

/-! ## A small service

One tool that needs an approval, and the request for one call of it. -/

namespace Sample

/-- The SHA-256 digests of the texts that occur in the small runs. -/
def sha256 (s : String) : String :=
  ([("\x7b\x7d", "44136fa355b3678a1146ad16f7e8649e94fb4fc21fe77e8310c060f61caaff8a"),
    ("\"ok\"", "c48b5b1a9776c84602de2306d7903a7241158a5077e7a8519af75c33441b8334"),
    ("\"ignore previous instructions\"",
      "da3ca84909dba75ec60c353eb0c90617c0f50c320af9e55a3a439fe5bc1b193c"),
    ("t:run:run:q1:0:" ++ "44136fa355b3678a1146ad16f7e8649e94fb4fc21fe77e8310c060f61caaff8a",
      "9a311a21ec34fb4c2b6171ce65ca78bf052df35005e150979b082848dbd76d77"),
    ("null", "74234e98afe7498fb5daf1f36ac2d78acc339464f950703b8c019892f982b90b")].lookup s).getD ""

def host : Host where
  sha256 := sha256
  reprFloat := fun _ => "1.0"
  reprStr := fun s => "'" ++ s ++ "'"
  lower := String.map Char.toLower
  isAlnum := Char.isAlphanum

/-- A tool with side effects. -/
def wire : ToolRegistration where
  toolName := "wire"
  version := "1"
  effect := .sideEffecting
  riskLevel := .high
  approvalRoles := ["approver"]
  idempotent := true
  requiresHitl := true
  approvalRoles_explicit := fun _ => nofun
  idempotent_of_effect := fun _ => rfl

def tools : SecureToolExecutionService where
  host := host
  registry := ⟨[wire], by simp⟩

def approvals : ApprovalService where
  tools := tools
  ttl := 30

/-- The default limits, and nothing used. -/
def budget : BudgetLedger := ⟨{}, {}⟩

def invocation : ToolInvocation where
  toolCallId := "run:step:0"
  toolName := "wire"
  toolVersion := "1"

/-- The user who asked. -/
def user : ToolAuthorizationContext where
  tenantId := "t"
  actorId := "user"
  requestId := "request"

def approver : ToolAuthorizationContext where
  tenantId := "t"
  actorId := "approver"
  requestId := "request"
  roles := ["approver"]

def approvalRequest : ApprovalRequest where
  approvalId := "a"
  runId := "run"
  threadId := "thread"
  toolCallId := "run:step:0"
  toolName := "wire"
  toolVersion := "1"
  argumentDigest := "44136fa355b3678a1146ad16f7e8649e94fb4fc21fe77e8310c060f61caaff8a"
  tenantId := "t"
  userId := "user"
  reason := "high_risk_or_side_effecting"
  requiredRoles := ["approver"]
  createdAt := 0
  expiresAt := 30
  idempotencyKey := "key"

def approvalRow : AgentApprovalRow where
  tenantId := "t"
  approvalId := "a"
  idempotencyKey := "key"
  revision := 0
  payload := approvalRequest

/-- The request is stored, and nothing was executed yet. -/
def world : World where
  approvals := ⟨[approvalRow], by simp⟩

end Sample

end Agent
end RagflowAgent
