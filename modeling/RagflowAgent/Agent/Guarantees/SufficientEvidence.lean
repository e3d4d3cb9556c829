import Mathlib.Data.Finset.Card
import RagflowAgent.Agent.Application.Evidence

/-!
# What the sufficiency of evidence depends on

`EvidenceSufficiencyPolicy.evaluate` collects the stances by fact and the items by step.  Neither
the order of the items, nor repetitions, nor the items that do not count can be seen in its verdict.

* `mem_conflicts` says which facts are in conflict, in terms of single items;
* `conflicts_congr` and `evaluate_congr` compare two runs on lists with the same eligible items;
* `evaluate_verdict` is that comparison together with a characterisation of sufficiency.
-/

namespace RagflowAgent
namespace Agent

/-- The verdicts of two decisions are the same: they differ at most in the ids of the evidence. -/
structure EvidenceDecision.SameVerdict (decision decision' : EvidenceDecision) : Prop where
  status : decision.status = decision'.status
  covered : decision.coveredCriticalSteps = decision'.coveredCriticalSteps
  missing : decision.missingCriticalSteps = decision'.missingCriticalSteps
  conflicting : decision.conflictingFactKeys = decision'.conflictingFactKeys

namespace EvidenceSufficiencyPolicy

variable {policy : EvidenceSufficiencyPolicy} {host : Host} {tenantId : String} {plan : QueryPlan}
  {items items' evidence evidence' : List EvidenceItem}

/-! ## Conflicts -/

/-- A list without repetitions has two elements when it has different ones. -/
theorem one_lt_length_dedup {l : List String} :
    1 < l.dedup.length ↔ ∃ a ∈ l, ∃ b ∈ l, a ≠ b := by
  have hcard : l.dedup.length = l.toFinset.card := (List.card_toFinset l).symm
  rw [hcard, Finset.one_lt_card]
  simp only [List.mem_toFinset]

/-- **A fact is in conflict** when two items take different stances on it. -/
theorem mem_conflicts {factKey : String} :
    factKey ∈ conflicts host items ↔
      ∃ item ∈ items, ∃ item' ∈ items, ∃ s s',
        stance host item = some (factKey, s) ∧ stance host item' = some (factKey, s') ∧
          s ≠ s' := by
  have hstances : ∀ s, s ∈ ((items.filterMap (stance host)).filter fun t => t.1 = factKey).map
      Prod.snd ↔ ∃ item ∈ items, stance host item = some (factKey, s) := by
    intro s
    simp only [List.mem_map, List.mem_filter, List.mem_filterMap, decide_eq_true_eq]
    constructor
    · rintro ⟨⟨key, s'⟩, ⟨⟨item, hitem, hstance⟩, rfl⟩, rfl⟩
      exact ⟨item, hitem, hstance⟩
    · rintro ⟨item, hitem, hstance⟩
      exact ⟨(factKey, s), ⟨⟨item, hitem, hstance⟩, rfl⟩, rfl⟩
  simp only [conflicts, List.mem_mergeSort, List.mem_filter, decide_eq_true_eq,
    one_lt_length_dedup, hstances]
  constructor
  · rintro ⟨-, s, ⟨item, hitem, hs⟩, s', ⟨item', hitem', hs'⟩, hne⟩
    exact ⟨item, hitem, item', hitem', s, s', hs, hs', hne⟩
  · rintro ⟨item, hitem, item', hitem', s, s', hs, hs', hne⟩
    refine ⟨?_, s, ⟨item, hitem, hs⟩, s', ⟨item', hitem', hs'⟩, hne⟩
    rw [List.mem_dedup, List.mem_map]
    exact ⟨(factKey, s), List.mem_filterMap.2 ⟨item, hitem, hs⟩, rfl⟩

/-- The facts in conflict are sorted, each once. -/
theorem pairwise_conflicts (host : Host) (items : List EvidenceItem) :
    (conflicts host items).Nodup ∧ (conflicts host items).Pairwise fun key key' => key ≤ key' := by
  unfold conflicts
  constructor
  · rw [(List.mergeSort_perm _ _).nodup_iff]
    exact (List.nodup_dedup _).filter _
  · refine (List.pairwise_mergeSort (fun a b c hab hbc => ?_) (fun a b => ?_) _).imp
      fun h => of_decide_eq_true h
    · exact decide_eq_true (String.le_trans (of_decide_eq_true hab) (of_decide_eq_true hbc))
    · rw [Bool.or_eq_true, decide_eq_true_eq, decide_eq_true_eq]
      exact String.le_total a b

/-- **The conflicts depend on the items as a set.** -/
theorem conflicts_congr (h : ∀ item, item ∈ items ↔ item ∈ items') :
    conflicts host items = conflicts host items' := by
  obtain ⟨hnodup, hsorted⟩ := pairwise_conflicts host items
  obtain ⟨hnodup', hsorted'⟩ := pairwise_conflicts host items'
  have hperm : (conflicts host items).Perm (conflicts host items') := by
    refine (List.perm_ext_iff_of_nodup hnodup hnodup').2 fun factKey => ?_
    simp only [mem_conflicts, h]
  exact hperm.eq_of_pairwise (fun _ _ _ _ => String.le_antisymm) hsorted hsorted'

/-! ## Two runs -/

variable (policy tenantId) in
/-- The items that count are the same in both lists, whatever else is there, in whichever order
and how often. -/
def SameEligible (evidence evidence' : List EvidenceItem) : Prop :=
  ∀ item, policy.eligible tenantId item = true → (item ∈ evidence ↔ item ∈ evidence')

theorem evaluate_congr (h : policy.SameEligible tenantId evidence evidence') :
    (policy.evaluate host tenantId plan evidence).SameVerdict
      (policy.evaluate host tenantId plan evidence') := by
  set items := evidence.filter (policy.eligible tenantId) with hitems
  set items' := evidence'.filter (policy.eligible tenantId) with hitems'
  have hsame : ∀ item, item ∈ items ↔ item ∈ items' := by
    intro item
    rw [hitems, hitems', List.mem_filter, List.mem_filter]
    exact and_congr_left fun heligible => h item heligible
  have hany : ∀ p : EvidenceItem → Bool, items.any p = items'.any p := by
    intro p
    rw [Bool.eq_iff_iff, List.any_eq_true, List.any_eq_true]
    simp only [hsame]
  have hnil : items = [] ↔ items' = [] := by
    rw [List.eq_nil_iff_forall_not_mem, List.eq_nil_iff_forall_not_mem]
    simp only [hsame]
  have hconflicts : conflicts host items = conflicts host items' := conflicts_congr hsame
  unfold evaluate
  simp only [← hitems, ← hitems', hany, hnil, hconflicts]
  -- the branches are the same, and in each of them the verdicts are
  split
  · exact ⟨rfl, rfl, rfl, rfl⟩
  split
  · exact ⟨rfl, rfl, rfl, rfl⟩
  split
  · exact ⟨rfl, rfl, rfl, rfl⟩
  · exact ⟨rfl, rfl, rfl, rfl⟩

/-! ## Sufficiency -/

/-- Evidence is sufficient when there is some, nothing contradicts, and no critical step is
missing. -/
theorem status_evaluate_eq_sufficient :
    (policy.evaluate host tenantId plan evidence).status = .sufficient ↔
      conflicts host (evidence.filter (policy.eligible tenantId)) = [] ∧
        evidence.filter (policy.eligible tenantId) ≠ [] ∧
        ((plan.steps.filter PlanStep.critical).map PlanStep.stepId).filter (fun step =>
          !(evidence.filter (policy.eligible tenantId)).any fun item => item.stepId == step) =
            [] := by
  unfold evaluate
  dsimp only
  split
  · rename_i hconflicts
    exact iff_of_false nofun fun h => hconflicts h.1
  rename_i hconflicts
  split
  · rename_i hnone
    exact iff_of_false nofun fun h => h.2.1 hnone
  rename_i hsome
  split
  · rename_i hmissing
    exact iff_of_false nofun fun h => hmissing h.2.2
  · rename_i hmissing
    exact iff_of_true rfl ⟨not_not.1 hconflicts, hsome, not_not.1 hmissing⟩

/-- **Evidence counts as a set.**  The verdict is the same for all lists with the same eligible
items; and evidence is sufficient exactly when some item is eligible, no two eligible items take
different stances on a fact, and an eligible item covers each critical step. -/
theorem evaluate_verdict (policy : EvidenceSufficiencyPolicy) (host : Host) (tenantId : String)
    (plan : QueryPlan) (evidence : List EvidenceItem) :
    (∀ evidence', policy.SameEligible tenantId evidence evidence' →
      (policy.evaluate host tenantId plan evidence).SameVerdict
        (policy.evaluate host tenantId plan evidence')) ∧
    ((policy.evaluate host tenantId plan evidence).status = .sufficient ↔
      (∃ item ∈ evidence, policy.eligible tenantId item = true) ∧
      (∀ item ∈ evidence, ∀ item' ∈ evidence, policy.eligible tenantId item = true →
        policy.eligible tenantId item' = true → ∀ factKey s s',
        stance host item = some (factKey, s) → stance host item' = some (factKey, s') → s = s') ∧
      ∀ step ∈ plan.steps, step.critical = true →
        ∃ item ∈ evidence, policy.eligible tenantId item = true ∧ item.stepId = step.stepId) := by
  refine ⟨fun _ => evaluate_congr, ?_⟩
  rw [status_evaluate_eq_sufficient, and_left_comm]
  refine and_congr ?_ (and_congr ?_ ?_)
  · constructor
    · intro hne
      obtain ⟨item, hitem⟩ := List.exists_mem_of_ne_nil _ hne
      exact ⟨item, List.mem_filter.1 hitem⟩
    · rintro ⟨item, hitem⟩
      exact List.ne_nil_of_mem (List.mem_filter.2 hitem)
  · rw [List.eq_nil_iff_forall_not_mem]
    simp only [mem_conflicts, List.mem_filter]
    constructor
    · intro h item hitem item' hitem' heligible heligible' factKey s s' hs hs'
      by_contra hne
      exact h factKey ⟨item, ⟨hitem, heligible⟩, item', ⟨hitem', heligible'⟩, s, s', hs, hs', hne⟩
    · rintro h factKey ⟨item, ⟨hitem, heligible⟩, item', ⟨hitem', heligible'⟩, s, s', hs, hs', hne⟩
      exact hne (h item hitem item' hitem' heligible heligible' factKey s s' hs hs')
  · rw [List.filter_eq_nil_iff]
    constructor
    · intro h step hstep hcritical
      have hcovered := h step.stepId
        (List.mem_map_of_mem (List.mem_filter.2 ⟨hstep, hcritical⟩))
      rw [Bool.not_eq_true, Bool.not_eq_false', List.any_eq_true] at hcovered
      obtain ⟨item, hitem, hstepId⟩ := hcovered
      rw [List.mem_filter] at hitem
      exact ⟨item, hitem.1, hitem.2, beq_iff_eq.1 hstepId⟩
    · intro h stepId hstepId
      obtain ⟨step, hstep, rfl⟩ := List.mem_map.1 hstepId
      rw [List.mem_filter] at hstep
      obtain ⟨item, hitem, heligible, hsame⟩ := h step hstep.1 hstep.2
      rw [Bool.not_eq_true, Bool.not_eq_false', List.any_eq_true]
      exact ⟨item, List.mem_filter.2 ⟨hitem, heligible⟩, beq_iff_eq.2 hsame⟩

end EvidenceSufficiencyPolicy

end Agent
end RagflowAgent
