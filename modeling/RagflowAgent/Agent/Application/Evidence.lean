import Mathlib.Algebra.Order.Ring.Rat
import RagflowAgent.Agent.Domain.Agentic

/-!
# When the evidence is sufficient

`EvidenceSufficiencyPolicy.evaluate` looks at the eligible items of a run only, and decides
from them whether every critical step of the plan is covered and whether they contradict
each other.
-/

namespace RagflowAgent
namespace Agent

structure EvidenceSufficiencyPolicy where
  minimumScore : ℚ := 0
  minimumScore_mem : 0 ≤ minimumScore ∧ minimumScore ≤ 1 := by decide

namespace EvidenceSufficiencyPolicy

variable (policy : EvidenceSufficiencyPolicy) (host : Host)

/-- The items that count for a tenant. -/
def eligible (tenantId : String) (item : EvidenceItem) : Bool :=
  item.tenantId == tenantId && item.authorized && item.activeVersion &&
    decide (policy.minimumScore ≤ item.normalizedScore) && !item.injectionDetected &&
    !containsPromptInjection item.excerpt &&
    (item.sourceKind != .knowledge || item.citation.isSome)

/-- The fact an item takes a stance on, and the stance, in small letters. -/
def stance (item : EvidenceItem) : Option (String × String) :=
  match item.factKey, item.stance with
  | some factKey, some stance =>
    if factKey = "" ∨ stance = "" then none else some (factKey, host.lower (strip stance))
  | _, _ => none

/-- The facts on which there is more than one stance. -/
def conflicts (items : List EvidenceItem) : List String :=
  let stances := items.filterMap (stance host)
  let keys := (stances.map Prod.fst).dedup.filter fun factKey =>
    1 < ((stances.filter fun s => s.1 = factKey).map Prod.snd).dedup.length
  keys.mergeSort fun key key' => key ≤ key'

def evaluate (tenantId : String) (plan : QueryPlan) (evidence : List EvidenceItem) :
    EvidenceDecision :=
  let items := evidence.filter (policy.eligible tenantId)
  let critical := (plan.steps.filter PlanStep.critical).map PlanStep.stepId
  let covered := critical.filter fun step => items.any fun item => item.stepId == step
  let missing := critical.filter fun step => !items.any fun item => item.stepId == step
  let conflicting := conflicts host items
  let ids := items.map EvidenceItem.evidenceId
  if conflicting ≠ [] then
    { status := .conflictingEvidence, coveredCriticalSteps := covered,
      missingCriticalSteps := missing, conflictingFactKeys := conflicting,
      eligibleEvidenceIds := ids, reason := "unresolved critical evidence conflict" }
  else if items = [] then
    { status := .noEvidence, missingCriticalSteps := critical,
      reason := "no authorized eligible evidence" }
  else if missing ≠ [] then
    { status := .partialEvidence, coveredCriticalSteps := covered,
      missingCriticalSteps := missing, eligibleEvidenceIds := ids,
      reason := "critical subquestions are not fully covered" }
  else
    { status := .sufficient, coveredCriticalSteps := covered, eligibleEvidenceIds := ids,
      reason := "all critical subquestions have eligible cited evidence" }

end EvidenceSufficiencyPolicy

end Agent
end RagflowAgent
