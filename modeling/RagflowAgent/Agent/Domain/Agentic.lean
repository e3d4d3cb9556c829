import RagflowAgent.Agent.Domain.Text
import RagflowAgent.Relational.Table

/-!
# The contracts of the agent

The data that the graph, the tool service and the approval service hand to each other.  All
of it is immutable.  What a validator demands of a value that is never copied without
validation is a field of its structure here, so there are no values that break it:
a plan has between one and eight steps that refer to earlier ones only, an evidence item has
an excerpt of bounded length and a score between zero and one, and a citation is complete.

The instants are natural numbers, as in the knowledge services.
-/

namespace RagflowAgent
namespace Agent

/-! ## Statuses -/

inductive AgenticRunStatus where
  | completed
  | partialEvidence
  | noEvidence
  | conflictingEvidence
  | approvalRequired
  | rejected
  | cancelled
  | budgetExhausted
  | failed
  deriving DecidableEq, Repr

inductive EvidenceStatus where
  | sufficient
  | partialEvidence
  | noEvidence
  | conflictingEvidence
  deriving DecidableEq, Repr

inductive ToolEffect where
  | readOnly
  | sideEffecting
  deriving DecidableEq, Repr

inductive ToolRiskLevel where
  | low
  | medium
  | high
  | critical
  deriving DecidableEq, Repr

inductive ApprovalStatus where
  | approvalRequired
  | approved
  | rejected
  | expired
  | cancelled
  | executing
  | succeeded
  | failed
  deriving DecidableEq, Repr

def ApprovalStatus.value : ApprovalStatus → String
  | approvalRequired => "approval_required"
  | approved => "approved"
  | rejected => "rejected"
  | expired => "expired"
  | cancelled => "cancelled"
  | executing => "executing"
  | succeeded => "succeeded"
  | failed => "failed"

/-- `LOCAL` is called `localModel` here, since `local` is a keyword. -/
inductive CostStatus where
  | known
  | unknown
  | localModel
  deriving DecidableEq, Repr

inductive SourceKind where
  | knowledge
  | sql
  | api
  deriving DecidableEq, Repr

def SourceKind.value : SourceKind → String
  | knowledge => "knowledge"
  | sql => "sql"
  | api => "api"

inductive BudgetDimension where
  | agentIterations
  | modelCalls
  | retrievalRounds
  | toolAttempts
  | totalTokens
  | generatedTokens
  | activeRuntime
  | knownCost
  deriving DecidableEq, Repr

/-! ## Errors -/

/-- What the agent's services raise: an `AgentToolError`, an `AgentBudgetExceeded`, a
`ValueError` (pydantic's `ValidationError` is one), a `TimeoutError`, or something else. -/
inductive AgentException where
  | tool (message errorCode : String) (statusCode : ℕ)
  | budgetExceeded (dimension : BudgetDimension)
  | validation (message : String)
  | timeout
  | other (typeName : String)
  deriving DecidableEq, Repr

/-! ## Identities, citations, evidence -/

structure AgenticAuthorizationSnapshot where
  tenantId : String
  userId : String
  requestId : String
  roles : List String := []
  knowledgeBaseIds : List String := []
  deriving DecidableEq, Repr

/-- Trusted execution identity owned by the agent boundary. -/
structure ToolAuthorizationContext where
  tenantId : String
  actorId : String
  requestId : String
  roles : List String := []
  deriving DecidableEq, Repr

/-- Version-bound citation contract copied at the tool boundary. -/
structure KnowledgeCitation where
  tenantId : String
  knowledgeBaseId : String
  documentId : String
  documentVersionId : String
  chunkId : String
  quote : String
  deriving DecidableEq, Repr

/-- `not value` of an optional text. -/
def isBlank (value : Option String) : Bool := value.all fun s => s == ""

structure AgentEvidenceCitation where
  citationId : String
  sourceKind : SourceKind
  knowledge : Option KnowledgeCitation := none
  toolName : Option String := none
  resultDigest : Option String := none
  /-- `source_reference_is_complete`. -/
  complete : if sourceKind = .knowledge then knowledge ≠ none
    else isBlank toolName = false ∧ isBlank resultDigest = false
  deriving DecidableEq, Repr

namespace AgentEvidenceCitation

def ofKnowledge (citationId : String) (citation : KnowledgeCitation) :
    AgentEvidenceCitation where
  citationId := citationId
  sourceKind := .knowledge
  knowledge := some citation
  complete := by simp

/-- A citation of a tool's result.  It is refused when name or digest are missing. -/
def ofTool (citationId : String) (sourceKind : SourceKind) (toolName : String)
    (resultDigest : Option String) : Except AgentException AgentEvidenceCitation :=
  if h : sourceKind ≠ .knowledge ∧ isBlank (some toolName) = false ∧
      isBlank resultDigest = false then
    .ok { citationId := citationId, sourceKind := sourceKind, toolName := some toolName,
          resultDigest := resultDigest, complete := by rw [if_neg h.1]; exact h.2 }
  else .error (.validation "Tool evidence requires tool name and result digest")

/-- `citation.model_copy(update={"citation_id": …})`. -/
def withId (citation : AgentEvidenceCitation) (citationId : String) : AgentEvidenceCitation :=
  { citation with citationId := citationId }

end AgentEvidenceCitation

structure EvidenceItem where
  evidenceId : String
  stepId : String
  sourceKind : SourceKind
  tenantId : String
  knowledgeBaseId : Option String := none
  excerpt : String
  normalizedScore : ℚ
  citation : Option AgentEvidenceCitation := none
  authorized : Bool := true
  activeVersion : Bool := true
  injectionDetected : Bool := false
  factKey : Option String := none
  stance : Option String := none
  excerpt_length : excerpt.length ≤ 2000
  normalizedScore_mem : 0 ≤ normalizedScore ∧ normalizedScore ≤ 1
  deriving DecidableEq, Repr

structure EvidenceDecision where
  status : EvidenceStatus
  coveredCriticalSteps : List String := []
  missingCriticalSteps : List String := []
  conflictingFactKeys : List String := []
  eligibleEvidenceIds : List String := []
  reason : String
  deriving DecidableEq, Repr

/-! ## Tools -/

/-- Server-owned metadata of a tool. -/
structure ToolRegistration where
  toolName : String
  version : String
  inputSchema : List (String × Json) := []
  outputSchema : List (String × Json) := []
  effect : ToolEffect
  riskLevel : ToolRiskLevel
  allowedTenantIds : List String := []
  allowedRoles : List String := []
  approvalRoles : List String := []
  allowedBusinessScopes : List String := []
  maxRetries : ℕ := 0
  maxOutputBytes : ℕ := 1000000
  idempotent : Bool
  requiresHitl : Bool
  sensitiveFields : List String := []
  /-- `approval_roles_are_explicit`. -/
  approvalRoles_explicit : requiresHitl = true → approvalRoles ≠ []
  idempotent_of_effect : effect = .sideEffecting → idempotent = true

structure ToolInvocation where
  toolCallId : String
  toolName : String
  toolVersion : String
  arguments : List (String × Json) := []
  businessScope : Option String := none

/-- `argument_digest`. -/
def ToolInvocation.argumentDigest (host : Host) (invocation : ToolInvocation) : String :=
  host.sha256 ((Json.dict invocation.arguments).dumps host)

structure ToolCallSummary where
  toolCallId : String
  toolName : String
  toolVersion : String
  argumentDigest : String
  status : String
  outputDigest : Option String := none
  errorCode : Option String := none
  deriving DecidableEq, Repr

inductive OutcomeStatus where
  | success
  | approvalRequired
  | failed
  deriving DecidableEq, Repr

structure ToolExecutionOutcome where
  status : OutcomeStatus
  summary : ToolCallSummary
  output : Json := .null
  approvalReason : Option String := none
  requiredRoles : List String := []
  injectionDetected : Bool := false

/-! ## Plans -/

structure PlanStep where
  stepId : String
  question : String
  critical : Bool := true
  dependsOn : List String := []
  preferredTool : String := "knowledge_base"
  toolVersion : String := "1"
  toolArguments : List (String × Json) := []

/-- The loop of `dependencies_reference_earlier_steps`. -/
def dependenciesReferenceEarlierSteps : List String → List PlanStep → Bool
  | _, [] => true
  | seen, step :: steps =>
    !seen.contains step.stepId && step.dependsOn.all seen.contains &&
      dependenciesReferenceEarlierSteps (step.stepId :: seen) steps

structure QueryPlan where
  isSimple : Bool
  steps : List PlanStep
  steps_length : 1 ≤ steps.length ∧ steps.length ≤ 8
  dependencies : dependenciesReferenceEarlierSteps [] steps = true
  simple : isSimple = true → steps.length = 1

/-! ## Budgets -/

theorem isNone_none : (none : Option ℚ).isNone = (none : Option ℚ).isNone := rfl

theorem defaults_nonneg : (0 : ℚ) < 120 ∧ (0 : ℚ) ≤ 1 / 2 ∧
    (∀ rate ∈ (none : Option ℚ), 0 ≤ rate) ∧ ∀ rate ∈ (none : Option ℚ), 0 ≤ rate := by
  decide +kernel

structure BudgetLimits where
  maxAgentIterations : ℕ := 8
  maxModelCalls : ℕ := 6
  maxRetrievalRounds : ℕ := 3
  maxToolAttempts : ℕ := 10
  maxTotalTokens : ℕ := 50000
  maxGeneratedTokens : ℕ := 8000
  finalizationTokenReserve : ℕ := 1500
  maxActiveRuntimeSeconds : ℚ := 120
  maxKnownCostUsd : ℚ := 1 / 2
  modelInputCostPerMillionTokensUsd : Option ℚ := none
  modelOutputCostPerMillionTokensUsd : Option ℚ := none
  positive : 1 ≤ maxAgentIterations ∧ 1 ≤ maxModelCalls ∧ 1 ≤ maxRetrievalRounds ∧
    1 ≤ maxToolAttempts ∧ 1 ≤ maxTotalTokens ∧ 1 ≤ maxGeneratedTokens := by decide
  /-- `reserve_fits_total`. -/
  reserve_fits : finalizationTokenReserve ≤ maxTotalTokens := by decide
  rates_together : modelInputCostPerMillionTokensUsd.isNone =
    modelOutputCostPerMillionTokensUsd.isNone := by first | exact isNone_none | decide
  nonneg : 0 < maxActiveRuntimeSeconds ∧ 0 ≤ maxKnownCostUsd ∧
    (∀ rate ∈ modelInputCostPerMillionTokensUsd, 0 ≤ rate) ∧
    ∀ rate ∈ modelOutputCostPerMillionTokensUsd, 0 ≤ rate := by
      first | exact defaults_nonneg | decide +kernel

structure BudgetUsage where
  agentIterations : ℕ := 0
  modelCalls : ℕ := 0
  retrievalRounds : ℕ := 0
  toolAttempts : ℕ := 0
  totalTokens : ℕ := 0
  generatedTokens : ℕ := 0
  activeRuntimeSeconds : ℚ := 0
  knownCostUsd : ℚ := 0
  costStatus : CostStatus := .unknown
  deriving DecidableEq, Repr

/-! ## Approvals -/

structure ApprovalRequest where
  approvalId : String
  runId : String
  threadId : String
  toolCallId : String
  toolName : String
  toolVersion : String
  argumentDigest : String
  tenantId : String
  userId : String
  reason : String
  requiredRoles : List String
  createdAt : ℕ
  expiresAt : ℕ
  idempotencyKey : String
  status : ApprovalStatus := .approvalRequired
  decidedBy : Option String := none
  decidedAt : Option ℕ := none
  resultSummary : Option ToolCallSummary := none
  revision : ℕ := 0
  deriving DecidableEq, Repr

/-! ## The state of the graph -/

inductive Route where
  | directRag
  | agent
  deriving DecidableEq, Repr

/-- The state that is handed from node to node. -/
structure AgenticState where
  runId : String
  threadId : String
  requestId : String
  authorization : AgenticAuthorizationSnapshot
  question : String
  route : Route := .agent
  plan : Option QueryPlan := none
  currentStep : ℕ := 0
  iteration : ℕ := 0
  evidence : List EvidenceItem := []
  citations : List AgentEvidenceCitation := []
  retrievalTraceIds : List String := []
  toolCalls : List ToolCallSummary := []
  pendingToolInvocation : Option ToolInvocation := none
  approvalId : Option String := none
  hitlStatus : Option ApprovalStatus := none
  budgetLimits : BudgetLimits := {}
  budgetUsage : BudgetUsage := {}
  finalStatus : Option AgenticRunStatus := none
  finalAnswer : Option String := none
  stopReason : Option String := none

end Agent
end RagflowAgent
