import Mathlib.Algebra.Order.Ring.Rat
import RagflowAgent.Agent.Domain.Agentic

/-!
# The budget ledger

A `BudgetLedger` counts what a run has spent against its limits.  A method gives what it
returned or raised together with the ledger as it is then: `recordModelUsage` and
`addActiveRuntime` first record and then raise, the others leave the ledger alone when they raise.
-/

namespace RagflowAgent
namespace Agent

structure BudgetLedger where
  limits : BudgetLimits
  usage : BudgetUsage := {}

namespace BudgetLedger

def consumeIteration (ledger : BudgetLedger) (count : ℤ := 1) :
    Except AgentException Unit × BudgetLedger :=
  if count < 1 then (.error (.validation "Agent iteration count must be positive"), ledger)
  else
    let updated := ledger.usage.agentIterations + count.toNat
    if ledger.limits.maxAgentIterations < updated then
      (.error (.budgetExceeded .agentIterations), ledger)
    else (.ok (), { ledger with usage := { ledger.usage with agentIterations := updated } })

/-- Reserve one model attempt before invoking an external provider. -/
def beginModelCall (ledger : BudgetLedger) : Except AgentException Unit × BudgetLedger :=
  let updated := ledger.usage.modelCalls + 1
  if ledger.limits.maxModelCalls < updated then
    (.error (.budgetExceeded .modelCalls), ledger)
  else (.ok (), { ledger with usage := { ledger.usage with modelCalls := updated } })

def consumeRetrieval (ledger : BudgetLedger) : Except AgentException Unit × BudgetLedger :=
  let updated := ledger.usage.retrievalRounds + 1
  if ledger.limits.maxRetrievalRounds < updated then
    (.error (.budgetExceeded .retrievalRounds), ledger)
  else (.ok (), { ledger with usage := { ledger.usage with retrievalRounds := updated } })

def consumeTool (ledger : BudgetLedger) : Except AgentException Unit × BudgetLedger :=
  let updated := ledger.usage.toolAttempts + 1
  if ledger.limits.maxToolAttempts < updated then
    (.error (.budgetExceeded .toolAttempts), ledger)
  else (.ok (), { ledger with usage := { ledger.usage with toolAttempts := updated } })

/-- `_merge_cost_status`. -/
def mergeCostStatus (current incoming : CostStatus) (previousCalls : ℕ) : CostStatus :=
  if previousCalls = 0 then incoming
  else if current = .unknown ∨ incoming = .unknown then .unknown
  else if current = .known ∨ incoming = .known then .known
  else .localModel

/-- `_enforce`. -/
def enforce (ledger : BudgetLedger) (dimension : BudgetDimension) : Except AgentException Unit :=
  let exceeded := match dimension with
    | .agentIterations => decide (ledger.limits.maxAgentIterations < ledger.usage.agentIterations)
    | .modelCalls => decide (ledger.limits.maxModelCalls < ledger.usage.modelCalls)
    | .retrievalRounds => decide (ledger.limits.maxRetrievalRounds < ledger.usage.retrievalRounds)
    | .toolAttempts => decide (ledger.limits.maxToolAttempts < ledger.usage.toolAttempts)
    | .totalTokens => decide (ledger.limits.maxTotalTokens < ledger.usage.totalTokens)
    | .generatedTokens => decide (ledger.limits.maxGeneratedTokens < ledger.usage.generatedTokens)
    | .activeRuntime =>
      decide (ledger.limits.maxActiveRuntimeSeconds < ledger.usage.activeRuntimeSeconds)
    | .knownCost => decide (ledger.limits.maxKnownCostUsd < ledger.usage.knownCostUsd)
  if exceeded then .error (.budgetExceeded dimension) else .ok ()

/-- The cost of a call at the configured rates, if there are rates. -/
def costAtRates (limits : BudgetLimits) (inputTokens generatedTokens : ℤ) : Option ℚ :=
  match limits.modelInputCostPerMillionTokensUsd, limits.modelOutputCostPerMillionTokensUsd with
  | some inputRate, some outputRate =>
    some ((inputTokens * inputRate + generatedTokens * outputRate) / 1000000)
  | _, _ => none

/-- Cost and status of a call, where the caller did not give a status. -/
def resolveCost (limits : BudgetLimits) (inputTokens generatedTokens : ℤ) (costUsd : Option ℚ) :
    Option CostStatus → Option ℚ × CostStatus
  | some costStatus => (costUsd, costStatus)
  | none =>
    match costAtRates limits inputTokens generatedTokens with
    | some cost => (some cost, .known)
    | none => (costUsd, .unknown)

/-- Record usage after a call already reserved by `beginModelCall`. -/
def recordModelUsage (ledger : BudgetLedger) (inputTokens generatedTokens : ℤ)
    (costUsd : Option ℚ) (costStatus : Option CostStatus) :
    Except AgentException Unit × BudgetLedger :=
  if inputTokens < 0 ∨ generatedTokens < 0 then
    (.error (.validation "model token usage cannot be negative"), ledger)
  else if costUsd.any fun cost => cost < 0 then
    (.error (.validation "model cost cannot be negative"), ledger)
  else if ledger.usage.modelCalls < 1 then
    (.error (.validation "model usage cannot be recorded before a model call begins"), ledger)
  else
    let (resolvedCost, resolvedStatus) :=
      resolveCost ledger.limits inputTokens generatedTokens costUsd costStatus
    let usage := ledger.usage
    let updated : BudgetLedger :=
      { ledger with usage :=
        { usage with
          totalTokens := usage.totalTokens + inputTokens.toNat + generatedTokens.toNat
          generatedTokens := usage.generatedTokens + generatedTokens.toNat
          knownCostUsd :=
            if resolvedStatus = .known then usage.knownCostUsd + resolvedCost.getD 0
            else usage.knownCostUsd
          costStatus := mergeCostStatus usage.costStatus resolvedStatus (usage.modelCalls - 1) } }
    (do updated.enforce .totalTokens
        updated.enforce .generatedTokens
        updated.enforce .knownCost, updated)

/-- One model attempt and its usage. -/
def consumeModel (ledger : BudgetLedger) (inputTokens generatedTokens : ℤ)
    (costUsd : Option ℚ := none) (costStatus : CostStatus := .unknown) :
    Except AgentException Unit × BudgetLedger :=
  match ledger.beginModelCall with
  | (.error e, ledger) => (.error e, ledger)
  | (.ok (), ledger) =>
    ledger.recordModelUsage inputTokens generatedTokens costUsd (some costStatus)

def addActiveRuntime (ledger : BudgetLedger) (seconds : ℚ) :
    Except AgentException Unit × BudgetLedger :=
  if seconds < 0 then (.error (.validation "active runtime cannot decrease"), ledger)
  else
    let updated : BudgetLedger :=
      { ledger with usage :=
        { ledger.usage with activeRuntimeSeconds := ledger.usage.activeRuntimeSeconds + seconds } }
    (updated.enforce .activeRuntime, updated)

def canFinalize (ledger : BudgetLedger) : Bool :=
  decide (ledger.usage.totalTokens + ledger.limits.finalizationTokenReserve ≤
      ledger.limits.maxTotalTokens) &&
    decide (ledger.usage.generatedTokens + ledger.limits.finalizationTokenReserve ≤
      ledger.limits.maxGeneratedTokens)

/-! ## What the methods do to the ledger -/

/-- The limits are the same, and so is the number of iterations that have been used. -/
def SameRounds (ledger ledger' : BudgetLedger) : Prop :=
  ledger'.limits = ledger.limits ∧ ledger'.usage.agentIterations = ledger.usage.agentIterations

instance : Std.Refl SameRounds := ⟨fun _ => ⟨rfl, rfl⟩⟩

instance : IsTrans BudgetLedger SameRounds :=
  ⟨fun _ _ _ h h' => ⟨h'.1.trans h.1, h'.2.trans h.2⟩⟩

theorem sameRounds_beginModelCall (ledger : BudgetLedger) :
    ledger.SameRounds ledger.beginModelCall.2 := by
  simp only [beginModelCall]
  split <;> exact ⟨rfl, rfl⟩

theorem sameRounds_consumeRetrieval (ledger : BudgetLedger) :
    ledger.SameRounds ledger.consumeRetrieval.2 := by
  simp only [consumeRetrieval]
  split <;> exact ⟨rfl, rfl⟩

theorem sameRounds_consumeTool (ledger : BudgetLedger) :
    ledger.SameRounds ledger.consumeTool.2 := by
  simp only [consumeTool]
  split <;> exact ⟨rfl, rfl⟩

theorem sameRounds_recordModelUsage (ledger : BudgetLedger) (inputTokens generatedTokens : ℤ)
    (costUsd : Option ℚ) (costStatus : Option CostStatus) :
    ledger.SameRounds
      (ledger.recordModelUsage inputTokens generatedTokens costUsd costStatus).2 := by
  unfold recordModelUsage
  split
  · exact ⟨rfl, rfl⟩
  split
  · exact ⟨rfl, rfl⟩
  split
  · exact ⟨rfl, rfl⟩
  · exact ⟨rfl, rfl⟩

/-- When the iterations are used up, one more is refused. -/
theorem consumeIteration_of_le {ledger : BudgetLedger}
    (h : ledger.limits.maxAgentIterations ≤ ledger.usage.agentIterations) :
    ledger.consumeIteration = (.error (.budgetExceeded .agentIterations), ledger) := by
  have hlt : ledger.limits.maxAgentIterations < ledger.usage.agentIterations + (1 : ℤ).toNat :=
    Nat.lt_succ_of_le h
  simp only [consumeIteration, Int.reduceLT, if_false, if_pos hlt]

/-- An iteration that is left is counted. -/
theorem consumeIteration_of_lt {ledger : BudgetLedger}
    (h : ledger.usage.agentIterations < ledger.limits.maxAgentIterations) :
    ledger.consumeIteration = (.ok (), { ledger with usage :=
      { ledger.usage with agentIterations := ledger.usage.agentIterations + 1 } }) := by
  have hlt : ¬ ledger.limits.maxAgentIterations < ledger.usage.agentIterations + (1 : ℤ).toNat :=
    Nat.not_lt.2 h
  simp only [consumeIteration, Int.reduceLT, if_false, if_neg hlt]
  rfl

end BudgetLedger

end Agent
end RagflowAgent
