import Mathlib.Algebra.BigOperators.Group.List.Basic
import Mathlib.Tactic.Positivity
import RagflowAgent.Agent.Application.Budgets

/-!
# What a budget ledger keeps

A ledger stays in use when one of its methods has raised.  `BudgetOperation` are its methods with
their arguments, and `BudgetLedger.run` calls some of them one after the other and catches what they
raise.

* `le_apply` and `withinLimits_apply` are the step lemmas, for one method each case;
* `le_run` and `withinLimits_run` say the same of any sequence of calls;
* `Recorded` ties the known cost and its status to the model calls so far, and `recorded_consume`
  carries it over one more of them.
-/

namespace RagflowAgent
namespace Agent

/-- A method of the ledger, with its arguments. -/
inductive BudgetOperation where
  | consumeIteration (count : ℤ)
  | beginModelCall
  | recordModelUsage (inputTokens generatedTokens : ℤ) (costUsd : Option ℚ)
      (costStatus : Option CostStatus)
  | consumeModel (inputTokens generatedTokens : ℤ) (costUsd : Option ℚ) (costStatus : CostStatus)
  | consumeRetrieval
  | consumeTool
  | addActiveRuntime (seconds : ℚ)

def BudgetOperation.apply (ledger : BudgetLedger) :
    BudgetOperation → Except AgentException Unit × BudgetLedger
  | consumeIteration count => ledger.consumeIteration count
  | beginModelCall => ledger.beginModelCall
  | recordModelUsage inputTokens generatedTokens costUsd costStatus =>
    ledger.recordModelUsage inputTokens generatedTokens costUsd costStatus
  | consumeModel inputTokens generatedTokens costUsd costStatus =>
    ledger.consumeModel inputTokens generatedTokens costUsd costStatus
  | consumeRetrieval => ledger.consumeRetrieval
  | consumeTool => ledger.consumeTool
  | addActiveRuntime seconds => ledger.addActiveRuntime seconds

/-- The methods that check before they write. -/
def BudgetOperation.ChecksFirst : BudgetOperation → Prop
  | consumeIteration _ => True
  | beginModelCall => True
  | consumeRetrieval => True
  | consumeTool => True
  | _ => False

/-- Every counter is at most as great. -/
structure BudgetUsage.Le (usage usage' : BudgetUsage) : Prop where
  agentIterations : usage.agentIterations ≤ usage'.agentIterations
  modelCalls : usage.modelCalls ≤ usage'.modelCalls
  retrievalRounds : usage.retrievalRounds ≤ usage'.retrievalRounds
  toolAttempts : usage.toolAttempts ≤ usage'.toolAttempts
  totalTokens : usage.totalTokens ≤ usage'.totalTokens
  generatedTokens : usage.generatedTokens ≤ usage'.generatedTokens
  activeRuntimeSeconds : usage.activeRuntimeSeconds ≤ usage'.activeRuntimeSeconds
  knownCostUsd : usage.knownCostUsd ≤ usage'.knownCostUsd

theorem BudgetUsage.Le.refl (usage : BudgetUsage) : usage.Le usage :=
  ⟨le_rfl, le_rfl, le_rfl, le_rfl, le_rfl, le_rfl, le_rfl, le_rfl⟩

theorem BudgetUsage.Le.trans {usage usage' usage'' : BudgetUsage} (h : usage.Le usage')
    (h' : usage'.Le usage'') : usage.Le usage'' where
  agentIterations := h.agentIterations.trans h'.agentIterations
  modelCalls := h.modelCalls.trans h'.modelCalls
  retrievalRounds := h.retrievalRounds.trans h'.retrievalRounds
  toolAttempts := h.toolAttempts.trans h'.toolAttempts
  totalTokens := h.totalTokens.trans h'.totalTokens
  generatedTokens := h.generatedTokens.trans h'.generatedTokens
  activeRuntimeSeconds := h.activeRuntimeSeconds.trans h'.activeRuntimeSeconds
  knownCostUsd := h.knownCostUsd.trans h'.knownCostUsd

namespace BudgetLedger

/-- Call some methods one after the other, and catch what they raise. -/
def run (ledger : BudgetLedger) (operations : List BudgetOperation) : BudgetLedger :=
  operations.foldl (fun ledger operation => (operation.apply ledger).2) ledger

/-- The four counters that are checked before they are written are within their limits. -/
structure WithinLimits (ledger : BudgetLedger) : Prop where
  agentIterations : ledger.usage.agentIterations ≤ ledger.limits.maxAgentIterations
  modelCalls : ledger.usage.modelCalls ≤ ledger.limits.maxModelCalls
  retrievalRounds : ledger.usage.retrievalRounds ≤ ledger.limits.maxRetrievalRounds
  toolAttempts : ledger.usage.toolAttempts ≤ ledger.limits.maxToolAttempts

/-! ## What one method does -/

variable {ledger ledger' : BudgetLedger}

theorem consumeIteration_cases (ledger : BudgetLedger) (count : ℤ) :
    (∃ e, ledger.consumeIteration count = (.error e, ledger)) ∨
      ledger.usage.agentIterations + count.toNat ≤ ledger.limits.maxAgentIterations ∧
        ledger.consumeIteration count = (.ok (), { ledger with usage :=
          { ledger.usage with
            agentIterations := ledger.usage.agentIterations + count.toNat } }) := by
  unfold consumeIteration
  split
  · exact .inl ⟨_, rfl⟩
  dsimp only
  split
  · exact .inl ⟨_, rfl⟩
  · exact .inr ⟨by omega, rfl⟩

theorem beginModelCall_cases (ledger : BudgetLedger) :
    (∃ e, ledger.beginModelCall = (.error e, ledger)) ∨
      ledger.usage.modelCalls + 1 ≤ ledger.limits.maxModelCalls ∧
        ledger.beginModelCall = (.ok (), { ledger with usage :=
          { ledger.usage with modelCalls := ledger.usage.modelCalls + 1 } }) := by
  unfold beginModelCall
  dsimp only
  split
  · exact .inl ⟨_, rfl⟩
  · exact .inr ⟨by omega, rfl⟩

theorem consumeRetrieval_cases (ledger : BudgetLedger) :
    (∃ e, ledger.consumeRetrieval = (.error e, ledger)) ∨
      ledger.usage.retrievalRounds + 1 ≤ ledger.limits.maxRetrievalRounds ∧
        ledger.consumeRetrieval = (.ok (), { ledger with usage :=
          { ledger.usage with retrievalRounds := ledger.usage.retrievalRounds + 1 } }) := by
  unfold consumeRetrieval
  dsimp only
  split
  · exact .inl ⟨_, rfl⟩
  · exact .inr ⟨by omega, rfl⟩

theorem consumeTool_cases (ledger : BudgetLedger) :
    (∃ e, ledger.consumeTool = (.error e, ledger)) ∨
      ledger.usage.toolAttempts + 1 ≤ ledger.limits.maxToolAttempts ∧
        ledger.consumeTool = (.ok (), { ledger with usage :=
          { ledger.usage with toolAttempts := ledger.usage.toolAttempts + 1 } }) := by
  unfold consumeTool
  dsimp only
  split
  · exact .inl ⟨_, rfl⟩
  · exact .inr ⟨by omega, rfl⟩

/-- The cost that a call adds to the known cost. -/
def addedCost (limits : BudgetLimits) (inputTokens generatedTokens : ℤ) (costUsd : Option ℚ)
    (costStatus : Option CostStatus) : ℚ :=
  let resolved := resolveCost limits inputTokens generatedTokens costUsd costStatus
  if resolved.2 = .known then resolved.1.getD 0 else 0

/-- Tokens, cost and status of a model call are recorded in the ledger. -/
structure Accounts (ledger ledger' : BudgetLedger) (inputTokens generatedTokens : ℤ)
    (costUsd : Option ℚ) (costStatus : Option CostStatus) : Prop where
  limits : ledger'.limits = ledger.limits
  usage : ledger'.usage = { ledger.usage with
    totalTokens := ledger.usage.totalTokens + inputTokens.toNat + generatedTokens.toNat
    generatedTokens := ledger.usage.generatedTokens + generatedTokens.toNat
    knownCostUsd := ledger.usage.knownCostUsd +
      addedCost ledger.limits inputTokens generatedTokens costUsd costStatus
    costStatus := mergeCostStatus ledger.usage.costStatus
      (resolveCost ledger.limits inputTokens generatedTokens costUsd costStatus).2
      (ledger.usage.modelCalls - 1) }

/-- **Usage is refused or recorded**: a call with arguments that it accepts is recorded, whether a
budget is exceeded by it or not. -/
theorem recordModelUsage_cases (ledger : BudgetLedger) (inputTokens generatedTokens : ℤ)
    (costUsd : Option ℚ) (costStatus : Option CostStatus) :
    (∃ message, ledger.recordModelUsage inputTokens generatedTokens costUsd costStatus =
        (.error (.validation message), ledger) ∧
      (inputTokens < 0 ∨ generatedTokens < 0 ∨ (∃ cost ∈ costUsd, cost < 0) ∨
        ledger.usage.modelCalls < 1)) ∨
      0 ≤ inputTokens ∧ 0 ≤ generatedTokens ∧ (∀ cost ∈ costUsd, 0 ≤ cost) ∧
        Accounts ledger
          (ledger.recordModelUsage inputTokens generatedTokens costUsd costStatus).2 inputTokens
          generatedTokens costUsd costStatus := by
  unfold recordModelUsage
  split
  · rename_i hnegative
    exact .inl ⟨_, rfl, hnegative.imp_right .inl⟩
  rename_i htokens
  split
  · rename_i hnegative
    obtain ⟨cost, hcost, hlt⟩ := Option.any_eq_true _ _ |>.1 hnegative
    exact .inl ⟨_, rfl, .inr (.inr (.inl ⟨cost, hcost, of_decide_eq_true hlt⟩))⟩
  rename_i hcost
  split
  · rename_i hcalls
    exact .inl ⟨_, rfl, .inr (.inr (.inr hcalls))⟩
  · refine .inr ⟨by omega, by omega, fun cost hmem => ?_, rfl, ?_⟩
    · by_contra hlt
      exact hcost (Option.any_eq_true _ _ |>.2 ⟨cost, hmem, decide_eq_true (not_le.1 hlt)⟩)
    · simp only [addedCost]
      split
      · rfl
      · rw [add_zero]

/-- The cost that a call adds is not negative. -/
theorem addedCost_nonneg {limits : BudgetLimits} {inputTokens generatedTokens : ℤ}
    {costUsd : Option ℚ} (costStatus : Option CostStatus) (hinput : 0 ≤ inputTokens)
    (hgenerated : 0 ≤ generatedTokens) (hcost : ∀ cost ∈ costUsd, 0 ≤ cost) :
    0 ≤ addedCost limits inputTokens generatedTokens costUsd costStatus := by
  obtain ⟨-, -, hrate, hrate'⟩ := limits.nonneg
  have hgiven : 0 ≤ costUsd.getD 0 := by
    cases hc : costUsd with
    | none => exact le_rfl
    | some cost => exact hcost cost hc
  unfold addedCost
  dsimp only
  split
  · cases costStatus with
    | some costStatus => exact hgiven
    | none =>
      cases hrates : costAtRates limits inputTokens generatedTokens with
      | none =>
        simp only [resolveCost, hrates]
        exact hgiven
      | some cost =>
        simp only [resolveCost, hrates, Option.getD_some]
        unfold costAtRates at hrates
        split at hrates
        · rename_i inputRate outputRate hin hout
          cases hrates
          have hin := hrate inputRate hin
          have hout := hrate' outputRate hout
          have hinput : (0 : ℚ) ≤ inputTokens := Int.cast_nonneg hinput
          have hgenerated : (0 : ℚ) ≤ generatedTokens := Int.cast_nonneg hgenerated
          positivity
        · cases hrates
  · exact le_rfl

theorem Accounts.le {inputTokens generatedTokens : ℤ} {costUsd : Option ℚ}
    {costStatus : Option CostStatus}
    (h : Accounts ledger ledger' inputTokens generatedTokens costUsd costStatus)
    (hinput : 0 ≤ inputTokens) (hgenerated : 0 ≤ generatedTokens)
    (hcost : ∀ cost ∈ costUsd, 0 ≤ cost) : ledger.usage.Le ledger'.usage := by
  have hadded : 0 ≤ addedCost ledger.limits inputTokens generatedTokens costUsd costStatus :=
    addedCost_nonneg costStatus hinput hgenerated hcost
  rw [h.usage]
  exact ⟨le_rfl, le_rfl, le_rfl, le_rfl, by dsimp only; omega, by dsimp only; omega, le_rfl,
    le_add_of_nonneg_right hadded⟩

/-- What accounting leaves alone. -/
theorem Accounts.withinLimits {inputTokens generatedTokens : ℤ} {costUsd : Option ℚ}
    {costStatus : Option CostStatus}
    (h : Accounts ledger ledger' inputTokens generatedTokens costUsd costStatus)
    (hledger : ledger.WithinLimits) : ledger'.WithinLimits := by
  obtain ⟨h₁, h₂, h₃, h₄⟩ := hledger
  constructor <;> rw [h.limits, h.usage]
  · exact h₁
  · exact h₂
  · exact h₃
  · exact h₄

theorem addActiveRuntime_cases (ledger : BudgetLedger) (seconds : ℚ) :
    (∃ message, ledger.addActiveRuntime seconds = (.error (.validation message), ledger) ∧
        seconds < 0) ∨
      0 ≤ seconds ∧ (ledger.addActiveRuntime seconds).2 = { ledger with usage :=
        { ledger.usage with
          activeRuntimeSeconds := ledger.usage.activeRuntimeSeconds + seconds } } := by
  unfold addActiveRuntime
  split
  · exact .inl ⟨_, rfl, ‹_›⟩
  · exact .inr ⟨not_lt.1 ‹_›, rfl⟩

/-- A model call that begins is one more call, and its usage is recorded or refused. -/
theorem consumeModel_cases (ledger : BudgetLedger) (inputTokens generatedTokens : ℤ)
    (costUsd : Option ℚ) (costStatus : CostStatus) :
    (∃ e, ledger.beginModelCall = (.error e, ledger) ∧
        ledger.consumeModel inputTokens generatedTokens costUsd costStatus = (.error e, ledger)) ∨
      ∃ begun, ledger.beginModelCall = (.ok (), begun) ∧
        ledger.consumeModel inputTokens generatedTokens costUsd costStatus =
          begun.recordModelUsage inputTokens generatedTokens costUsd (some costStatus) := by
  unfold consumeModel
  obtain ⟨e, he⟩ | ⟨-, hbegin⟩ := beginModelCall_cases ledger
  · exact .inl ⟨e, he, by rw [he]⟩
  · exact .inr ⟨_, hbegin, by rw [hbegin]⟩

/-! ## Any methods, one after the other -/

theorem limits_recordModelUsage (ledger : BudgetLedger) (inputTokens generatedTokens : ℤ)
    (costUsd : Option ℚ) (costStatus : Option CostStatus) :
    (ledger.recordModelUsage inputTokens generatedTokens costUsd costStatus).2.limits =
      ledger.limits := by
  obtain ⟨message, he, -⟩ | ⟨-, -, -, haccounts⟩ :=
    recordModelUsage_cases ledger inputTokens generatedTokens costUsd costStatus
  · rw [he]
  · exact haccounts.limits

theorem le_recordModelUsage (ledger : BudgetLedger) (inputTokens generatedTokens : ℤ)
    (costUsd : Option ℚ) (costStatus : Option CostStatus) :
    ledger.usage.Le
      (ledger.recordModelUsage inputTokens generatedTokens costUsd costStatus).2.usage := by
  obtain ⟨message, he, -⟩ | ⟨hinput, hgenerated, hcost, haccounts⟩ :=
    recordModelUsage_cases ledger inputTokens generatedTokens costUsd costStatus
  · rw [he]
    exact .refl _
  · exact haccounts.le hinput hgenerated hcost

theorem le_beginModelCall (ledger : BudgetLedger) :
    ledger.usage.Le ledger.beginModelCall.2.usage := by
  obtain ⟨e, he⟩ | ⟨-, hbegin⟩ := beginModelCall_cases ledger
  · rw [he]
    exact .refl _
  · rw [hbegin]
    exact ⟨le_rfl, Nat.le_succ _, le_rfl, le_rfl, le_rfl, le_rfl, le_rfl, le_rfl⟩

/-- **No method takes back what has been spent.** -/
theorem le_apply (ledger : BudgetLedger) (operation : BudgetOperation) :
    ledger.usage.Le (operation.apply ledger).2.usage := by
  cases operation with
  | consumeIteration count =>
    obtain ⟨e, he⟩ | ⟨-, hok⟩ := consumeIteration_cases ledger count
    · rw [BudgetOperation.apply, he]
      exact .refl _
    · rw [BudgetOperation.apply, hok]
      exact ⟨Nat.le_add_right _ _, le_rfl, le_rfl, le_rfl, le_rfl, le_rfl, le_rfl, le_rfl⟩
  | beginModelCall => exact le_beginModelCall ledger
  | recordModelUsage inputTokens generatedTokens costUsd costStatus =>
    exact le_recordModelUsage ledger inputTokens generatedTokens costUsd costStatus
  | consumeModel inputTokens generatedTokens costUsd costStatus =>
    obtain ⟨e, -, he⟩ | ⟨begun, hbegin, hrecord⟩ :=
      consumeModel_cases ledger inputTokens generatedTokens costUsd costStatus
    · rw [BudgetOperation.apply, he]
      exact .refl _
    · have hbegun := le_beginModelCall ledger
      rw [hbegin] at hbegun
      rw [BudgetOperation.apply, hrecord]
      exact hbegun.trans (le_recordModelUsage begun _ _ _ _)
  | consumeRetrieval =>
    obtain ⟨e, he⟩ | ⟨-, hok⟩ := consumeRetrieval_cases ledger
    · rw [BudgetOperation.apply, he]
      exact .refl _
    · rw [BudgetOperation.apply, hok]
      exact ⟨le_rfl, le_rfl, Nat.le_succ _, le_rfl, le_rfl, le_rfl, le_rfl, le_rfl⟩
  | consumeTool =>
    obtain ⟨e, he⟩ | ⟨-, hok⟩ := consumeTool_cases ledger
    · rw [BudgetOperation.apply, he]
      exact .refl _
    · rw [BudgetOperation.apply, hok]
      exact ⟨le_rfl, le_rfl, le_rfl, Nat.le_succ _, le_rfl, le_rfl, le_rfl, le_rfl⟩
  | addActiveRuntime seconds =>
    obtain ⟨message, he, -⟩ | ⟨hseconds, hok⟩ := addActiveRuntime_cases ledger seconds
    · rw [BudgetOperation.apply, he]
      exact .refl _
    · rw [BudgetOperation.apply, hok]
      exact ⟨le_rfl, le_rfl, le_rfl, le_rfl, le_rfl, le_rfl, le_add_of_nonneg_right hseconds, le_rfl⟩

theorem withinLimits_beginModelCall (h : ledger.WithinLimits) :
    ledger.beginModelCall.2.WithinLimits := by
  obtain ⟨e, he⟩ | ⟨hle, hbegin⟩ := beginModelCall_cases ledger
  · rw [he]
    exact h
  · rw [hbegin]
    exact ⟨h.agentIterations, hle, h.retrievalRounds, h.toolAttempts⟩

theorem withinLimits_recordModelUsage (h : ledger.WithinLimits) (inputTokens generatedTokens : ℤ)
    (costUsd : Option ℚ) (costStatus : Option CostStatus) :
    (ledger.recordModelUsage inputTokens generatedTokens costUsd costStatus).2.WithinLimits := by
  obtain ⟨message, he, -⟩ | ⟨-, -, -, haccounts⟩ :=
    recordModelUsage_cases ledger inputTokens generatedTokens costUsd costStatus
  · rw [he]
    exact h
  · exact haccounts.withinLimits h

/-- **No method exceeds the limits that are checked first.** -/
theorem withinLimits_apply (h : ledger.WithinLimits) (operation : BudgetOperation) :
    (operation.apply ledger).2.WithinLimits := by
  cases operation with
  | consumeIteration count =>
    obtain ⟨e, he⟩ | ⟨hle, hok⟩ := consumeIteration_cases ledger count
    · rw [BudgetOperation.apply, he]
      exact h
    · rw [BudgetOperation.apply, hok]
      exact ⟨hle, h.modelCalls, h.retrievalRounds, h.toolAttempts⟩
  | beginModelCall => exact withinLimits_beginModelCall h
  | recordModelUsage inputTokens generatedTokens costUsd costStatus =>
    exact withinLimits_recordModelUsage h inputTokens generatedTokens costUsd costStatus
  | consumeModel inputTokens generatedTokens costUsd costStatus =>
    obtain ⟨e, -, he⟩ | ⟨begun, hbegin, hrecord⟩ :=
      consumeModel_cases ledger inputTokens generatedTokens costUsd costStatus
    · rw [BudgetOperation.apply, he]
      exact h
    · have hbegun := withinLimits_beginModelCall h
      rw [hbegin] at hbegun
      rw [BudgetOperation.apply, hrecord]
      exact withinLimits_recordModelUsage hbegun _ _ _ _
  | consumeRetrieval =>
    obtain ⟨e, he⟩ | ⟨hle, hok⟩ := consumeRetrieval_cases ledger
    · rw [BudgetOperation.apply, he]
      exact h
    · rw [BudgetOperation.apply, hok]
      exact ⟨h.agentIterations, h.modelCalls, hle, h.toolAttempts⟩
  | consumeTool =>
    obtain ⟨e, he⟩ | ⟨hle, hok⟩ := consumeTool_cases ledger
    · rw [BudgetOperation.apply, he]
      exact h
    · rw [BudgetOperation.apply, hok]
      exact ⟨h.agentIterations, h.modelCalls, h.retrievalRounds, hle⟩
  | addActiveRuntime seconds =>
    obtain ⟨message, he, -⟩ | ⟨-, hok⟩ := addActiveRuntime_cases ledger seconds
    · rw [BudgetOperation.apply, he]
      exact h
    · rw [BudgetOperation.apply, hok]
      exact ⟨h.agentIterations, h.modelCalls, h.retrievalRounds, h.toolAttempts⟩

theorem le_run (ledger : BudgetLedger) (operations : List BudgetOperation) :
    ledger.usage.Le (ledger.run operations).usage := by
  induction operations generalizing ledger with
  | nil => exact .refl _
  | cons operation operations ih => exact (le_apply ledger operation).trans (ih _)

theorem withinLimits_run (h : ledger.WithinLimits) (operations : List BudgetOperation) :
    (ledger.run operations).WithinLimits := by
  induction operations generalizing ledger with
  | nil => exact h
  | cons operation operations ih => exact ih (withinLimits_apply h operation)

/-- A method that checks first leaves the ledger as it is when it raises. -/
theorem eq_of_apply_eq_error {operation : BudgetOperation} {e : AgentException}
    (hchecks : operation.ChecksFirst) (h : operation.apply ledger = (.error e, ledger')) :
    ledger' = ledger := by
  cases operation with
  | consumeIteration count =>
    obtain ⟨e, he⟩ | ⟨-, hok⟩ := consumeIteration_cases ledger count
    · cases he.symm.trans h
      rfl
    · cases hok.symm.trans h
  | beginModelCall =>
    obtain ⟨e, he⟩ | ⟨-, hok⟩ := beginModelCall_cases ledger
    · cases he.symm.trans h
      rfl
    · cases hok.symm.trans h
  | consumeRetrieval =>
    obtain ⟨e, he⟩ | ⟨-, hok⟩ := consumeRetrieval_cases ledger
    · cases he.symm.trans h
      rfl
    · cases hok.symm.trans h
  | consumeTool =>
    obtain ⟨e, he⟩ | ⟨-, hok⟩ := consumeTool_cases ledger
    · cases he.symm.trans h
      rfl
    · cases hok.symm.trans h
  | _ => cases hchecks

/-! ## The cost of the model calls -/

/-- The arguments of `consumeModel`. -/
structure ModelCall where
  inputTokens : ℤ
  generatedTokens : ℤ
  costUsd : Option ℚ := none
  costStatus : CostStatus := .unknown

namespace ModelCall

structure Nonneg (call : ModelCall) : Prop where
  inputTokens : 0 ≤ call.inputTokens
  generatedTokens : 0 ≤ call.generatedTokens
  costUsd : ∀ cost ∈ call.costUsd, 0 ≤ cost

def consume (call : ModelCall) (ledger : BudgetLedger) : Except AgentException Unit × BudgetLedger :=
  ledger.consumeModel call.inputTokens call.generatedTokens call.costUsd call.costStatus

/-- The cost of the calls whose cost is known. -/
def knownCost (calls : List ModelCall) : ℚ :=
  ((calls.filter fun call => call.costStatus = .known).map fun call => call.costUsd.getD 0).sum

/-- The status of the cost of some calls. -/
def costStatusOf (calls : List ModelCall) : CostStatus :=
  if calls.any fun call => call.costStatus = .unknown then .unknown
  else if calls.any fun call => call.costStatus = .known then .known
  else .localModel

theorem knownCost_append (calls : List ModelCall) (call : ModelCall) :
    knownCost (calls ++ [call]) =
      knownCost calls + if call.costStatus = .known then call.costUsd.getD 0 else 0 := by
  unfold knownCost
  rw [List.filter_append, List.map_append, List.sum_append]
  by_cases hknown : call.costStatus = .known
  · simp [hknown]
  · simp [hknown]

/-- The status is merged call by call. -/
theorem costStatusOf_append {calls : List ModelCall} (hne : calls ≠ []) (call : ModelCall) :
    costStatusOf (calls ++ [call]) =
      mergeCostStatus (costStatusOf calls) call.costStatus calls.length := by
  have hlength : calls.length ≠ 0 := fun h => hne (List.length_eq_zero_iff.1 h)
  unfold mergeCostStatus costStatusOf
  rw [if_neg hlength]
  simp only [List.any_append, List.any_cons, List.any_nil, Bool.or_false]
  cases call.costStatus <;>
    cases calls.any (fun call => decide (call.costStatus = .unknown)) <;>
    cases calls.any (fun call => decide (call.costStatus = .known)) <;> rfl

end ModelCall

/-- Make some model calls one after the other, and catch what they raise. -/
def consumeCalls (ledger : BudgetLedger) (calls : List ModelCall) : BudgetLedger :=
  calls.foldl (fun ledger call => (call.consume ledger).2) ledger

/-- The calls that the ledger lets begin. -/
def recordedCalls : BudgetLedger → List ModelCall → List ModelCall
  | _, [] => []
  | ledger, call :: calls =>
    match ledger.beginModelCall.1 with
    | .ok () => call :: recordedCalls (call.consume ledger).2 calls
    | .error _ => recordedCalls (call.consume ledger).2 calls

/-- The ledger has recorded these calls and no others.  Before the first call the status of the
cost is `unknown`, as `BudgetUsage` has it. -/
structure Recorded (ledger : BudgetLedger) (calls : List ModelCall) : Prop where
  modelCalls : ledger.usage.modelCalls = calls.length
  knownCostUsd : ledger.usage.knownCostUsd = ModelCall.knownCost calls
  costStatus : ledger.usage.costStatus =
    if calls = [] then .unknown else ModelCall.costStatusOf calls

/-- **One call more.** -/
theorem recorded_consume {calls : List ModelCall} {call : ModelCall} {begun : BudgetLedger}
    (h : ledger.Recorded calls) (hnonneg : call.Nonneg)
    (hbegin : ledger.beginModelCall = (.ok (), begun)) :
    (call.consume ledger).2.Recorded (calls ++ [call]) := by
  obtain ⟨e, he⟩ | ⟨-, hok⟩ := beginModelCall_cases ledger
  · cases he.symm.trans hbegin
  cases hok.symm.trans hbegin
  have hconsume : call.consume ledger = BudgetLedger.recordModelUsage
      { ledger with usage := { ledger.usage with modelCalls := ledger.usage.modelCalls + 1 } }
      call.inputTokens call.generatedTokens call.costUsd (some call.costStatus) := by
    rw [ModelCall.consume, consumeModel, hok]
  obtain ⟨message, -, hrefused⟩ | ⟨-, -, -, haccounts⟩ := recordModelUsage_cases
    { ledger with usage := { ledger.usage with modelCalls := ledger.usage.modelCalls + 1 } }
    call.inputTokens call.generatedTokens call.costUsd (some call.costStatus)
  · exfalso
    obtain hlt | hlt | ⟨cost, hcost, hlt⟩ | hlt := hrefused
    · exact absurd hnonneg.inputTokens (not_le.2 hlt)
    · exact absurd hnonneg.generatedTokens (not_le.2 hlt)
    · exact absurd (hnonneg.costUsd cost hcost) (not_le.2 hlt)
    · exact Nat.not_lt_zero _ (Nat.lt_of_succ_lt_succ hlt)
  rw [hconsume]
  constructor
  · rw [haccounts.usage, List.length_append, List.length_singleton, ← h.modelCalls]
  · rw [haccounts.usage, ModelCall.knownCost_append, ← h.knownCostUsd]
    rfl
  · rw [haccounts.usage, if_neg (by simp)]
    dsimp only [resolveCost]
    rw [Nat.add_sub_cancel, h.modelCalls, h.costStatus]
    by_cases hnil : calls = []
    · rw [hnil]
      cases hstatus : call.costStatus <;>
        simp [mergeCostStatus, ModelCall.costStatusOf, hstatus]
    · rw [if_neg hnil, ModelCall.costStatusOf_append hnil]

theorem recorded_consumeCalls {calls done : List ModelCall} (h : ledger.Recorded done)
    (hnonneg : ∀ call ∈ calls, call.Nonneg) :
    (ledger.consumeCalls calls).Recorded (done ++ ledger.recordedCalls calls) := by
  induction calls generalizing ledger done with
  | nil => simpa [consumeCalls, recordedCalls] using h
  | cons call calls ih =>
    have hrest : ∀ c ∈ calls, c.Nonneg := fun c hc => hnonneg c (List.mem_cons_of_mem _ hc)
    obtain ⟨e, hbegin, he⟩ | ⟨begun, hbegin, -⟩ := consumeModel_cases ledger call.inputTokens
      call.generatedTokens call.costUsd call.costStatus
    · have hsame : (call.consume ledger).2 = ledger := by rw [ModelCall.consume, he]
      have hstep := ih (hsame.symm ▸ h) hrest
      rw [recordedCalls, hbegin]
      exact hstep
    · have hstep := ih (recorded_consume h (hnonneg call List.mem_cons_self) hbegin) hrest
      rw [List.append_assoc, List.singleton_append] at hstep
      rw [recordedCalls, hbegin]
      exact hstep

end BudgetLedger

end Agent
end RagflowAgent
