import RagflowAgent.Agent.World

/-!
# The tool execution service

Every tool call of the agent goes through `SecureToolExecutionService.execute`: the tool is
looked up by its exact name and version, the arguments are checked, the policy decides again,
and only then is a result taken from the maps of the process or the tool invoked.  What a tool
returns is redacted, checked and hashed before anybody sees it.

* `ToolPolicyEngine.evaluate` is the policy, `validateJsonSchema` the schema check;
* `redact` blanks sensitive fields and texts;
* `attempts` is the retry loop around the handler.
-/

namespace RagflowAgent
namespace Agent

open Interleaving

/-! ## Policy -/

inductive ToolPolicyAction where
  | allow
  | requireApproval
  | deny
  deriving DecidableEq, Repr

structure ToolPolicyDecision where
  action : ToolPolicyAction
  reason : String
  requiredRoles : List String := []
  deriving DecidableEq, Repr

/-- `set(a).intersection(b)` is not empty. -/
def intersects (a b : List String) : Bool := a.any b.contains

namespace ToolPolicyEngine

def evaluate (registration : ToolRegistration) (context : ToolAuthorizationContext)
    (businessScope : Option String) : ToolPolicyDecision :=
  if registration.allowedTenantIds ≠ [] ∧ context.tenantId ∉ registration.allowedTenantIds then
    ⟨.deny, "tenant_not_allowed", []⟩
  else if registration.allowedRoles ≠ [] ∧
      intersects context.roles registration.allowedRoles = false then
    ⟨.deny, "role_not_allowed", []⟩
  else if registration.allowedBusinessScopes ≠ [] ∧
      ¬ businessScope.any registration.allowedBusinessScopes.contains then
    ⟨.deny, "business_scope_not_allowed", []⟩
  else if registration.requiresHitl ∨ registration.effect = .sideEffecting ∨
      registration.riskLevel = .high ∨ registration.riskLevel = .critical then
    ⟨.requireApproval, "high_risk_or_side_effecting", registration.approvalRoles⟩
  else ⟨.allow, "registered_read_only_tool", []⟩

end ToolPolicyEngine

/-- Exact name and version registry, without duplicates. -/
structure SecureToolRegistry where
  handlers : List ToolRegistration
  nodup : (handlers.map fun handler => (handler.toolName, handler.version)).Nodup

def SecureToolRegistry.resolve (registry : SecureToolRegistry) (name version : String) :
    Except AgentException ToolRegistration :=
  match registry.handlers.find? fun handler =>
      handler.toolName = name ∧ handler.version = version with
  | none => .error (.tool "Tool is not registered" "agent_tool_unknown" 403)
  | some handler => .ok handler

/-! ## Schemas -/

/-- The check of a value against a type that is not `object`.  A type that is not known
admits everything. -/
def matchesType (expectedType : Option Json) (value : Json) : Bool :=
  match expectedType, value with
  | some (.str "string"), .str _ => true
  | some (.str "string"), _ => false
  | some (.str "integer"), .int _ => true
  | some (.str "integer"), _ => false
  | some (.str "number"), .int _ => true
  | some (.str "number"), .float _ => true
  | some (.str "number"), _ => false
  | some (.str "boolean"), .bool _ => true
  | some (.str "boolean"), _ => false
  | some (.str "array"), .list _ => true
  | some (.str "array"), _ => false
  | _, _ => true

/-- `expected_type == "object"`. -/
def isObjectType : Option Json → Bool
  | some (.str "object") => true
  | _ => false

def isFalse : Option Json → Bool
  | some (.bool false) => true
  | _ => false

/-- `schema.get("properties", {})`, which must be a dictionary. -/
def schemaProperties (schema : List (String × Json)) :
    Except AgentException (List (String × Json)) :=
  match Json.get schema "properties" with
  | none => .ok []
  | some (.dict properties) => .ok properties
  | some _ => .error (.validation "Tool registry contains an invalid properties Schema")

/-- `schema.get("required", [])`, which must be a list. -/
def schemaRequired (schema : List (String × Json)) : Except AgentException (List Json) :=
  match Json.get schema "required" with
  | none => .ok []
  | some (.list required) => .ok required
  | some _ => .error (.validation "Tool registry contains an invalid required Schema")

/-- `name in value`. -/
def hasKey (entries : List (String × Json)) : Json → Bool
  | .str name => entries.any fun entry => entry.1 == name
  | _ => false

mutual

/-- `_validate_json_schema`. -/
def validateJsonSchema : Json → List (String × Json) → Except AgentException Unit
  | .dict entries, schema =>
    if schema = [] then .ok ()
    else if isObjectType (Json.get schema "type") then do
      let properties ← schemaProperties schema
      let required ← schemaRequired schema
      if required.any fun name => !hasKey entries name then
        throw (.tool "Tool arguments are missing required fields" "tool_schema" 422)
      if isFalse (Json.get schema "additionalProperties") &&
          entries.any fun entry => !hasKey properties (.str entry.1) then
        throw (.tool "Tool arguments contain unknown fields" "tool_schema" 422)
      validateEntries entries properties
    else if matchesType (Json.get schema "type") (.dict entries) then .ok ()
    else .error (.tool "Tool value does not match Schema" "tool_schema" 422)
  | value, schema =>
    if schema = [] then .ok ()
    else if isObjectType (Json.get schema "type") then
      .error (.tool "Tool arguments do not match Schema" "tool_schema" 422)
    else if matchesType (Json.get schema "type") value then .ok ()
    else .error (.tool "Tool value does not match Schema" "tool_schema" 422)

def validateEntries :
    List (String × Json) → List (String × Json) → Except AgentException Unit
  | [], _ => .ok ()
  | (key, child) :: entries, properties => do
    match Json.get properties key with
    | some (.dict childSchema) => validateJsonSchema child childSchema
    | _ => pure ()
    validateEntries entries properties

end

/-! ## Redaction -/

mutual

/-- `_redact`. -/
def redact (host : Host) (sensitiveFields : List String) : Json → Json
  | .dict entries => .dict (redactEntries host sensitiveFields entries)
  | .list items => .list (redactItems host sensitiveFields items)
  | .str value => .str (redactSecretLikeText host value)
  | value => value

def redactItems (host : Host) (sensitiveFields : List String) : List Json → List Json
  | [] => []
  | item :: items => redact host sensitiveFields item :: redactItems host sensitiveFields items

def redactEntries (host : Host) (sensitiveFields : List String) :
    List (String × Json) → List (String × Json)
  | [] => []
  | (key, child) :: entries =>
    (key, if (sensitiveFields.map host.lower).contains (host.lower key) then .str "[REDACTED]"
      else redact host sensitiveFields child) :: redactEntries host sensitiveFields entries

end

/-! ## The service -/

structure SecureToolExecutionService where
  host : Host
  registry : SecureToolRegistry

namespace SecureToolExecutionService

variable (service : SecureToolExecutionService)

/-- The checks that every call starts with: the tool and the decision of the policy. -/
def check (invocation : ToolInvocation) (context : ToolAuthorizationContext) :
    Except AgentException (ToolRegistration × ToolPolicyDecision) := do
  let registration ← service.registry.resolve invocation.toolName invocation.toolVersion
  if !freeOfSecretsEntries service.host invocation.arguments then
    throw (.tool "credentials cannot be supplied through Tool arguments"
      "tool_secret_argument" 403)
  validateJsonSchema (.dict invocation.arguments) registration.inputSchema
  return (registration,
    ToolPolicyEngine.evaluate registration context invocation.businessScope)

def authorize (invocation : ToolInvocation) (context : ToolAuthorizationContext) :
    Except AgentException ToolPolicyDecision :=
  (service.check invocation context).map Prod.snd

def completedKey (invocation : ToolInvocation) (context : ToolAuthorizationContext) :
    CompletedKey :=
  ⟨context.tenantId, context.actorId, invocation.toolCallId⟩

def signature (invocation : ToolInvocation) (context : ToolAuthorizationContext) :
    CallSignature :=
  ⟨context.tenantId, context.actorId, invocation.toolName, invocation.toolVersion,
    invocation.argumentDigest service.host⟩

/-- One invocation of the handler: its output, or the code of a failure that may be retried. -/
def tryInvoke (invocation : ToolInvocation) (context : ToolAuthorizationContext) :
    Service (Except String Json) :=
  ((Prog.perform (.invoke invocation context)).bind fun output => .ret (.ok output)).attempt
    fun
      | .tool message errorCode statusCode => .raise (.tool message errorCode statusCode)
      | .timeout => .ret (.error "agent_tool_timeout")
      | _ => .ret (.error "agent_tool_failed")

/-- One round of the retry loop. -/
def attempt (invocation : ToolInvocation) (context : ToolAuthorizationContext) :
    Metered (Except String Json) := do
  Local.update BudgetLedger.consumeTool
  Local.lift (tryInvoke invocation context)

/-- The retry loop, with the number of retries that are left. -/
def attempts (invocation : ToolInvocation) (context : ToolAuthorizationContext) :
    ℕ → Metered (Except String Json)
  | 0 => attempt invocation context
  | retries + 1 => do
    match ← attempt invocation context with
    | .ok output => return .ok output
    | .error _ => attempts invocation context retries

def summary (invocation : ToolInvocation) : ToolCallSummary where
  toolCallId := invocation.toolCallId
  toolName := invocation.toolName
  toolVersion := invocation.toolVersion
  argumentDigest := invocation.argumentDigest service.host
  status := "approval_required"

/-- The outcome of a call that failed in all its attempts. -/
def failedOutcome (invocation : ToolInvocation) (errorCode : String) : ToolExecutionOutcome where
  status := .failed
  summary := { service.summary invocation with
    status := "failed", errorCode := some errorCode }

/-- The outcome of a call whose handler returned, unless the output is refused. -/
def successOutcome (registration : ToolRegistration) (invocation : ToolInvocation)
    (rawOutput : Json) : Except AgentException ToolExecutionOutcome := do
  let safeOutput := redact service.host registration.sensitiveFields rawOutput
  validateJsonSchema safeOutput registration.outputSchema
  let serialized := safeOutput.dumps service.host
  if registration.maxOutputBytes < serialized.utf8ByteSize then
    throw (.tool "Tool response exceeded the configured size limit"
      "agent_tool_output_too_large" 422)
  return {
    status := .success
    summary := { service.summary invocation with
      status := "success", outputDigest := some (service.host.sha256 serialized) }
    output := safeOutput
    injectionDetected := containsPromptInjection serialized }

/-- A successful outcome, handed out again for another call. -/
def reusedOutcome (successful : ToolExecutionOutcome) (invocation : ToolInvocation) :
    ToolExecutionOutcome :=
  { successful with summary :=
    { successful.summary with toolCallId := invocation.toolCallId, status := "reused" } }

/-- The part of `execute` behind the maps. -/
def invokeTool (registration : ToolRegistration) (invocation : ToolInvocation)
    (context : ToolAuthorizationContext) : Metered ToolExecutionOutcome := do
  match ← attempts invocation context registration.maxRetries with
  | .error errorCode =>
    let failed := service.failedOutcome invocation errorCode
    Local.lift (Prog.perform (.setCompleted (completedKey invocation context) failed))
    return failed
  | .ok rawOutput =>
    let outcome ← Local.ofExcept (service.successOutcome registration invocation rawOutput)
    Local.lift (Prog.perform (.setCompleted (completedKey invocation context) outcome))
    Local.lift (Prog.perform (.setSuccessful (service.signature invocation context) outcome))
    return outcome

def execute (invocation : ToolInvocation) (context : ToolAuthorizationContext)
    (approved : Bool := false) : Metered ToolExecutionOutcome := do
  Local.lift (Prog.perform (.enter invocation context approved))
  let (registration, decision) ← Local.ofExcept (service.check invocation context)
  if decision.action = .deny then
    Local.raise (.tool "Tool policy denied execution" "agent_tool_forbidden" 403)
  else
    match ← Local.lift (Prog.perform (.completed (completedKey invocation context))) with
    | some existing =>
      if existing.summary.argumentDigest ≠ invocation.argumentDigest service.host then
        Local.raise (.tool "Tool call ID was reused with different arguments"
          "agent_tool_call_collision" 422)
      else return existing
    | none =>
      match ← Local.lift (Prog.perform (.successful (service.signature invocation context))) with
      | some successful =>
        let reused := reusedOutcome successful invocation
        Local.lift (Prog.perform (.setCompleted (completedKey invocation context) reused))
        return reused
      | none =>
        if decision.action = .requireApproval ∧ approved = false then
          return {
            status := .approvalRequired
            summary := service.summary invocation
            approvalReason := some decision.reason
            requiredRoles := decision.requiredRoles }
        else service.invokeTool registration invocation context

end SecureToolExecutionService

end Agent
end RagflowAgent
