import RagflowAgent.Agent.Graphs.Transitions
import RagflowAgent.Fallible

/-!
# What the final answer cites

`finalize` cites every evidence item that has a citation, and so cites all of them.  Items are
built for the tenant of the run, as authorized and of the active version, whatever the tools
return.  What remains of `EvidenceSufficiencyPolicy.eligible` is that nobody has tried to give
instructions and that the score is high enough.

* `EvidenceItem.Built` is what every item of a run has, by `built_of_graphWalk`;
* `EvidenceSufficiencyPolicy.Clean` is what an item need not have;
* `citesEligible_iff_clean`: the answers of a run cite eligible items only if and only if all of
  its items are clean.
-/

namespace RagflowAgent
namespace Agent

open Interleaving AgenticRagNodes

/-! ## Items as they are built -/

/-- What an item owes to the code that builds it. -/
structure EvidenceItem.Built (tenantId stepId : String) (item : EvidenceItem) : Prop where
  tenant : item.tenantId = tenantId
  step : item.stepId = stepId
  authorized : item.authorized = true
  active : item.activeVersion = true
  cited : item.citation.isSome = true

/-- What an item owes to the tool. -/
structure EvidenceSufficiencyPolicy.Clean (policy : EvidenceSufficiencyPolicy)
    (item : EvidenceItem) : Prop where
  score : policy.minimumScore ≤ item.normalizedScore
  undetected : item.injectionDetected = false
  harmless : containsPromptInjection item.excerpt = false

/-- An item that was built is eligible when it is clean. -/
theorem EvidenceItem.Built.eligible_iff {policy : EvidenceSufficiencyPolicy}
    {tenantId stepId : String} {item : EvidenceItem} (h : item.Built tenantId stepId) :
    policy.eligible tenantId item = true ↔ policy.Clean item := by
  have hbuilt : (item.tenantId == tenantId) = true := beq_iff_eq.2 h.tenant
  simp only [EvidenceSufficiencyPolicy.eligible, hbuilt, h.authorized, h.active, h.cited,
    Bool.true_and, Bool.or_true, Bool.and_true, Bool.and_eq_true, decide_eq_true_eq,
    Bool.not_eq_true']
  constructor
  · rintro ⟨⟨hscore, hundetected⟩, hharmless⟩
    exact ⟨hscore, hundetected, hharmless⟩
  · intro hclean
    exact ⟨⟨hclean.score, hclean.undetected⟩, hclean.harmless⟩

theorem EvidenceItem.built_of_make {evidenceId stepId : String} {sourceKind : SourceKind}
    {tenantId : String} {knowledgeBaseId : Option String} {excerpt : String} {score : ℚ}
    {citation : AgentEvidenceCitation} {injectionDetected : Bool} {factKey stance : Option String}
    {item : EvidenceItem}
    (h : EvidenceItem.make evidenceId stepId sourceKind tenantId knowledgeBaseId excerpt score
      citation injectionDetected factKey stance = .ok item) : item.Built tenantId stepId := by
  unfold EvidenceItem.make at h
  split at h
  · cases h
    exact ⟨rfl, rfl, rfl, rfl, rfl⟩
  · cases h

theorem built_of_parsedItem {host : Host} {source : ToolEvidenceSource} {index : ℕ} {raw : Json}
    {item : EvidenceItem} (h : parsedItem host source index raw = .ok (some item)) :
    item.Built source.tenantId source.stepId := by
  unfold parsedItem at h
  split at h
  · dsimp only at h
    split at h
    · cases h
    · obtain ⟨made, hmade, heq⟩ := map_eq_ok.1 h
      cases heq
      exact EvidenceItem.built_of_make hmade
  · cases h

theorem built_of_parsedItems {host : Host} {source : ToolEvidenceSource} {index : ℕ}
    {raws : List Json} {items : List EvidenceItem}
    (h : parsedItems host source index raws = .ok items) :
    ∀ item ∈ items, item.Built source.tenantId source.stepId := by
  induction raws generalizing index items with
  | nil =>
    cases h
    intro item hitem
    exact absurd hitem List.not_mem_nil
  | cons raw raws ih =>
    obtain ⟨parsed, hparsed, h⟩ := bind_eq_ok.1 h
    obtain ⟨rest, hrest, h⟩ := bind_eq_ok.1 h
    cases h
    intro item hitem
    rcases List.mem_append.1 hitem with hitem | hitem
    · rw [Option.mem_toList] at hitem
      rw [hitem] at hparsed
      exact built_of_parsedItem hparsed
    · exact ih hrest item hitem

theorem built_of_structuredToolEvidence {host : Host} {tenantId stepId : String}
    {sourceKind : SourceKind} {outcome : ToolExecutionOutcome} {items : List EvidenceItem}
    (h : structuredToolEvidence host tenantId stepId sourceKind outcome = .ok items) :
    ∀ item ∈ items, item.Built tenantId stepId := by
  obtain ⟨citation, -, h⟩ := bind_eq_ok.1 h
  -- the items of the list, or one item for the whole output
  have hrest : ∀ parsed : List EvidenceItem, (∀ item ∈ parsed, item.Built tenantId stepId) →
      (if parsed ≠ [] then pure parsed
        else do
          let item ← EvidenceItem.make ("tool:" ++ outcome.summary.toolCallId) stepId sourceKind
            tenantId none (redactSecretLikeText host (takeText 2000 (outcome.output.pyStr host))) 1
            citation outcome.injectionDetected none none
          return [item]) = Except.ok items → ∀ item ∈ items, item.Built tenantId stepId := by
    intro parsed hparsed h
    split at h
    · cases h
      exact hparsed
    · obtain ⟨item, hitem, h⟩ := bind_eq_ok.1 h
      cases h
      intro item' hitem'
      obtain rfl := List.mem_singleton.1 hitem'
      exact EvidenceItem.built_of_make hitem
  dsimp only at h
  split at h
  · obtain ⟨parsed, hparsed, h⟩ := bind_eq_ok.1 h
    exact hrest parsed (built_of_parsedItems hparsed) h
  · obtain ⟨parsed, hparsed, h⟩ := bind_eq_ok.1 h
    cases hparsed
    exact hrest [] (fun item hitem => absurd hitem List.not_mem_nil) h

/-- Whatever a tool returns, the items are built for the tenant. -/
theorem built_of_outcomeEvidence {nodes : AgenticRagNodes} {tenantId stepId : String}
    {outcome : ToolExecutionOutcome} {items : List EvidenceItem} {traceId : Option String}
    (h : nodes.outcomeEvidence tenantId stepId outcome = .ok (items, traceId)) :
    ∀ item ∈ items, item.Built tenantId stepId := by
  unfold AgenticRagNodes.outcomeEvidence at h
  dsimp only at h
  split at h
  · obtain ⟨output, -, h⟩ := bind_eq_ok.1 h
    obtain ⟨made, hmade, h⟩ := bind_eq_ok.1 h
    cases h
    intro item hitem
    obtain ⟨source, -, hsource⟩ := mem_of_mapM_eq_ok hmade item hitem
    exact EvidenceItem.built_of_make hsource
  · obtain ⟨made, hmade, h⟩ := bind_eq_ok.1 h
    cases h
    exact built_of_structuredToolEvidence hmade

/-! ## Items of a run -/

/-- The state belongs to the run of a user, and its items were built for that run. -/
structure AgenticState.BuiltFor (context : AgenticAuthorizationSnapshot) (state : AgenticState) :
    Prop where
  authorization : state.authorization = context
  evidence : ∀ item ∈ state.evidence, item.Built context.tenantId item.stepId

section Steps

variable {nodes : AgenticRagNodes} {context : AgenticAuthorizationSnapshot}
  {state state' : AgenticState}

theorem builtFor_applyToolOutcome {stepId : String} {outcome : ToolExecutionOutcome}
    {ledger : BudgetLedger} (h : nodes.applyToolOutcome state stepId outcome ledger = .ok state')
    (hstate : state.BuiltFor context) : state'.BuiltFor context := by
  obtain ⟨items, traceId, hitems, rfl⟩ := applyToolOutcome_eq_ok h
  refine ⟨hstate.authorization, fun item hitem => ?_⟩
  rcases List.mem_append.1 hitem with hitem | hitem
  · exact hstate.evidence item hitem
  · rw [hstate.authorization] at hitems
    have hbuilt := built_of_outcomeEvidence hitems item hitem
    exact hbuilt.step.symm ▸ hbuilt

/-- Every node but `direct_rag`, which is the last of its run, keeps the items built. -/
theorem builtFor_run {node : Node} (hnode : node ≠ .directRag)
    (h : (nodes.run node state).CanEnd (.ok state')) (hstate : state.BuiltFor context) :
    state'.BuiltFor context := by
  cases node with
  | directRag => exact absurd rfl hnode
  | route =>
    obtain ⟨ledger, -, ⟨_, _, rfl⟩ | ⟨_, _, rfl⟩⟩ := route_canEnd h
    · exact ⟨hstate.authorization, hstate.evidence⟩
    · exact ⟨hstate.authorization, hstate.evidence⟩
  | executeStep =>
    obtain ⟨plan, -, ⟨-, rfl⟩ | ⟨-, -, rfl⟩ | ⟨step, ledger, -, -, -, -, h⟩⟩ :=
      executeStep_canEnd h
    · exact hstate
    · exact ⟨hstate.authorization, hstate.evidence⟩
    rcases h with rfl | ⟨_, rfl⟩ | ⟨outcome, h⟩
    · exact ⟨hstate.authorization, hstate.evidence⟩
    · exact ⟨hstate.authorization, hstate.evidence⟩
    rcases handleOutcome_canEnd h with ⟨-, _, rfl⟩ | ⟨-, _, rfl⟩ | ⟨-, h⟩
    · exact ⟨hstate.authorization, hstate.evidence⟩
    · exact ⟨hstate.authorization, hstate.evidence⟩
    · exact builtFor_applyToolOutcome h hstate
  | awaitApproval =>
    rcases awaitApproval_canEnd h with ⟨_, _, _, rfl⟩ |
      ⟨ledger, -, ⟨_, rfl⟩ | ⟨stepId, outcome, applied, happlied, rfl⟩⟩
    · exact ⟨hstate.authorization, hstate.evidence⟩
    · exact ⟨hstate.authorization, hstate.evidence⟩
    · have happ := builtFor_applyToolOutcome happlied hstate
      exact ⟨happ.authorization, happ.evidence⟩
  | evaluate =>
    obtain ⟨plan, finalStatus, reason, -, rfl⟩ := evaluate_canEnd h
    exact ⟨hstate.authorization, hstate.evidence⟩
  | finalize =>
    obtain ⟨status, -, rfl⟩ := finalize_canEnd h
    exact ⟨hstate.authorization, hstate.evidence⟩

/-- Every edge into `finalize` asks for a final status. -/
theorem finalStatus_of_after {node : Node} (h : next node state = some .finalize) :
    state.finalStatus ≠ none := by
  intro hnone
  cases node with
  | directRag => cases h
  | finalize => cases h
  | route =>
    simp only [next, afterRoute, hnone, ne_eq, not_true_eq_false, if_false] at h
    split at h <;> cases h
  | executeStep =>
    simp only [next, afterExecute, hnone, reduceCtorEq, or_self, if_false] at h
    split at h <;> cases h
  | awaitApproval =>
    simp only [next, afterApproval, hnone, ne_eq, not_true_eq_false, if_false] at h
    cases h
  | evaluate =>
    simp only [next, hnone, if_true] at h
    cases h

end Steps

/-- What holds of every position of a run: the items are built, and `finalize` is entered with a
final status only. -/
def GoodPosition (context : AgenticAuthorizationSnapshot) :
    Except AgentException Position → Prop
  | .ok (.before node state) =>
    state.BuiltFor context ∧ (node = .finalize → state.finalStatus ≠ none)
  | _ => True

theorem goodPosition_step {nodes : AgenticRagNodes} {context : AgenticAuthorizationSnapshot}
    (p q : Except AgentException Position) (hp : GoodPosition context p)
    (hstep : nodes.GraphStep p q) : GoodPosition context q := by
  obtain e | ⟨state⟩ | ⟨node, state⟩ := p
  · exact absurd hstep id
  · exact absurd hstep id
  obtain ⟨r, hr, rfl⟩ := hstep
  cases r with
  | error e => trivial
  | ok state' =>
    show GoodPosition context (.ok (Position.after node state'))
    unfold Position.after
    cases hnext : next node state' with
    | none => trivial
    | some node' =>
      have hnode : node ≠ .directRag := by
        rintro rfl
        cases hnext
      refine ⟨builtFor_run hnode hr hp.1, ?_⟩
      rintro rfl
      exact finalStatus_of_after hnext

theorem goodPosition_graphWalk {nodes : AgenticRagNodes} {request : AgenticRunRequest}
    (walk : nodes.GraphWalk request) (n : ℕ) : GoodPosition request.context (walk.pos n) :=
  walk.invariant ⟨⟨rfl, fun _ hitem => absurd hitem List.not_mem_nil⟩, nofun⟩ goodPosition_step n

/-! ## Citations -/

/-- Citations and answer are made from items that are eligible for a tenant, in their order. -/
def CitesEligible (nodes : AgenticRagNodes) (tenantId : String) (state state' : AgenticState) :
    Prop :=
  ∃ items, List.Sublist items (state.evidence.filter (nodes.policy.eligible tenantId)) ∧
    state'.citations = items.filterMap EvidenceItem.citation ∧
    ∀ status ∈ state.finalStatus, state'.finalAnswer = finalAnswer state items status

theorem length_filterMap_citation {items : List EvidenceItem}
    (h : ∀ item ∈ items, item.citation.isSome = true) :
    (items.filterMap EvidenceItem.citation).length = items.length := by
  rw [List.length_filterMap_eq_countP, List.countP_eq_length]
  exact h

/-- `finalize` cites eligible items only when all items are clean. -/
theorem citesEligible_finalize_iff {nodes : AgenticRagNodes}
    {context : AgenticAuthorizationSnapshot} {state state' : AgenticState}
    (hstate : state.BuiltFor context) (h : (finalize state).CanEnd (.ok state')) :
    CitesEligible nodes context.tenantId state state' ↔
      ∀ item ∈ state.evidence, nodes.policy.Clean item := by
  obtain ⟨status, hstatus, rfl⟩ := finalize_canEnd h
  have hcited : (state.evidence.filter fun item => item.citation.isSome) = state.evidence :=
    List.filter_eq_self.2 fun item hitem => (hstate.evidence item hitem).cited
  constructor
  · rintro ⟨items, hsub, hcitations, -⟩
    -- as many items are cited as there are
    have hlength : items.length = state.evidence.length := by
      have hitems : ∀ item ∈ items, item.citation.isSome = true := fun item hitem =>
        (hstate.evidence item (List.mem_of_mem_filter (hsub.subset hitem))).cited
      have hall : ∀ item ∈ state.evidence, item.citation.isSome = true := fun item hitem =>
        (hstate.evidence item hitem).cited
      rw [← length_filterMap_citation hitems, ← length_filterMap_citation hall, ← hcitations,
        hcited]
    have heligible : ∀ item ∈ state.evidence,
        nodes.policy.eligible context.tenantId item = true := by
      rw [← List.length_filter_eq_length_iff]
      exact Nat.le_antisymm (List.length_filter_le _ _) (hlength ▸ hsub.length_le)
    intro item hitem
    exact (hstate.evidence item hitem).eligible_iff.1 (heligible item hitem)
  · intro hclean
    have heligible : state.evidence.filter (nodes.policy.eligible context.tenantId) =
        state.evidence :=
      List.filter_eq_self.2 fun item hitem =>
        (hstate.evidence item hitem).eligible_iff.2 (hclean item hitem)
    refine ⟨state.evidence, ?_, ?_, fun status' hstatus' => ?_⟩
    · rw [heligible]
    · exact congrArg _ hcited
    · obtain rfl : status = status' := Option.some.inj (hstatus.symm.trans hstatus')
      exact congrArg (finalAnswer state · status) hcited

/-- Whenever the run finalizes, it cites eligible items only. -/
def CitesEligibleOnly (nodes : AgenticRagNodes) (request : AgenticRunRequest)
    (walk : nodes.GraphWalk request) : Prop :=
  ∀ n state state', walk.pos n = .ok (.before .finalize state) →
    walk.pos (n + 1) = .ok (.ended state') →
    CitesEligible nodes request.context.tenantId state state'

section Runs

variable {nodes : AgenticRagNodes} {request : AgenticRunRequest}

/-- A run that enters `finalize` ends there, with what `finalize` leaves. -/
theorem ended_of_finalize (walk : nodes.GraphWalk request) {n : ℕ} {state : AgenticState}
    (hn : walk.pos n = .ok (.before .finalize state)) :
    state.BuiltFor request.context ∧
      ∃ state', (finalize state).CanEnd (.ok state') ∧ walk.pos (n + 1) = .ok (.ended state') := by
  have hgood := goodPosition_graphWalk walk n
  rw [hn] at hgood
  refine ⟨hgood.1, ?_⟩
  rcases walk.succ n with hstep | ⟨hhalted, -⟩
  · rw [hn] at hstep
    obtain ⟨r, hr, hq⟩ := hstep
    cases r with
    | error e =>
      obtain ⟨status, hstatus⟩ := Option.ne_none_iff_exists'.1 (hgood.2 rfl)
      have hr' : (finalize state).CanEnd (.error e) := hr
      rw [finalize, hstatus] at hr'
      cases hr'
    | ok state' => exact ⟨state', hr, hq⟩
  · rw [hn] at hhalted
    exact absurd hhalted id

/-- A run cites eligible items only if and only if the items with which it enters `finalize`
are clean. -/
theorem citesEligibleOnly_iff (nodes : AgenticRagNodes) (request : AgenticRunRequest)
    (walk : nodes.GraphWalk request) :
    CitesEligibleOnly nodes request walk ↔
      ∀ n state, walk.pos n = .ok (.before .finalize state) →
        ∀ item ∈ state.evidence, nodes.policy.Clean item := by
  constructor
  · intro hcites n state hn
    obtain ⟨hbuilt, state', hend, hn'⟩ := ended_of_finalize walk hn
    exact (citesEligible_finalize_iff hbuilt hend).1 (hcites n state state' hn hn')
  · intro hclean n state state' hn hn'
    obtain ⟨hbuilt, state'', hend, hn''⟩ := ended_of_finalize walk hn
    rw [hn'] at hn''
    cases hn''
    exact (citesEligible_finalize_iff hbuilt hend).2 (hclean n state hn)

/-- The state with which a position enters `finalize`. -/
def Sample.finalizing : Except AgentException Position → Option AgenticState
  | .ok (.before .finalize state) => some state
  | _ => none

theorem Sample.eq_of_finalizing {position : Except AgentException Position} {state : AgenticState}
    (h : Sample.finalizing position = some state) : position = .ok (.before .finalize state) := by
  unfold Sample.finalizing at h
  split at h
  · cases h
    rfl
  · cases h

/-- The tool answers with an injection, and the run cites it. -/
theorem not_citesEligibleOnly : ¬ CitesEligibleOnly Sample.nodes Sample.request
    (Sample.nodes.simulation Sample.injection Sample.request {}) := by
  intro hcites
  have hdetected : (Sample.finalizing
      ((Sample.nodes.simulation Sample.injection Sample.request {}).pos 3)).map (fun state =>
        state.evidence.any EvidenceItem.injectionDetected) = some true := by decide +kernel
  obtain ⟨state, hstate, hany⟩ := Option.map_eq_some_iff.1 hdetected
  have hn := Sample.eq_of_finalizing hstate
  obtain ⟨item, hitem, hinjection⟩ := List.any_eq_true.1 hany
  obtain ⟨hbuilt, state', hend, hn'⟩ := ended_of_finalize _ hn
  have hclean := (citesEligible_finalize_iff hbuilt hend).1 (hcites 3 state state' hn hn')
  rw [(hclean item hitem).undetected] at hinjection
  cases hinjection

end Runs

end Agent
end RagflowAgent
