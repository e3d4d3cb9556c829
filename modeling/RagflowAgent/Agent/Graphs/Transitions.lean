import RagflowAgent.Agent.Graphs.AgenticRag
import RagflowAgent.Interleaving.Walk

/-!
# What the nodes of the graph can do

One inversion lemma for each node: the states that it can leave, however its calls are
answered.  Planner, tools and approvals may do anything here.

* `GraphStep` is one node execution, `GraphHalted` the positions where the graph has reached
  its end or a node has raised, and a `GraphWalk` is a run of the graph;
* `routeCanEnd`, `executeStep_canEnd`, `handleOutcome_canEnd` and `awaitApproval_canEnd` invert
  the nodes that make calls;
* `applyToolOutcome_eq_ok` inverts the function that adds evidence.
-/

namespace RagflowAgent
namespace Agent

open Interleaving

/-! ## The rounds that a service uses -/

section Rounds

/-- However its calls are answered, a metered program leaves the limits and the iterations
alone. -/
abbrev KeepsRounds {α : Type} (p : Metered α) : Prop := Local.Preserves BudgetLedger.SameRounds p

theorem keepsRounds_ofExcept {α : Type} (r : Except AgentException α) :
    KeepsRounds (Local.ofExcept r) :=
  Local.preserves_ofExcept r

theorem keepsRounds_attempts (invocation : ToolInvocation) (context : ToolAuthorizationContext)
    (retries : ℕ) :
    KeepsRounds (SecureToolExecutionService.attempts invocation context retries) := by
  have hattempt : KeepsRounds (SecureToolExecutionService.attempt invocation context) := by
    refine Local.preserves_bind (Local.preserves_update fun ledger => ?_) fun _ =>
      Local.preserves_lift _
    exact ledger.sameRounds_consumeTool
  induction retries with
  | zero => exact hattempt
  | succ retries ih =>
    refine Local.preserves_bind hattempt fun r => ?_
    cases r with
    | ok output => exact Local.preserves_ret _
    | error e => exact ih

theorem keepsRounds_invokeTool (tools : SecureToolExecutionService)
    (registration : ToolRegistration) (invocation : ToolInvocation)
    (context : ToolAuthorizationContext) :
    KeepsRounds (tools.invokeTool registration invocation context) := by
  refine Local.preserves_bind (keepsRounds_attempts _ _ _) fun r => ?_
  cases r with
  | error errorCode =>
    exact Local.preserves_bind (Local.preserves_lift _) fun _ => Local.preserves_ret _
  | ok rawOutput =>
    refine Local.preserves_bind (Local.preserves_ofExcept _) fun outcome => ?_
    refine Local.preserves_bind (Local.preserves_lift _) fun _ => ?_
    exact Local.preserves_bind (Local.preserves_lift _) fun _ => Local.preserves_ret _

theorem keepsRounds_execute (tools : SecureToolExecutionService) (invocation : ToolInvocation)
    (context : ToolAuthorizationContext) (approved : Bool) :
    KeepsRounds (tools.execute invocation context approved) := by
  refine Local.preserves_bind (Local.preserves_lift _) fun _ => ?_
  refine Local.preserves_bind (Local.preserves_ofExcept _) fun ⟨registration, decision⟩ => ?_
  dsimp only
  split
  · exact Local.preserves_raise _
  refine Local.preserves_bind (Local.preserves_lift _) fun existing => ?_
  cases existing with
  | some existing =>
    dsimp only
    split
    · exact Local.preserves_raise _
    · exact Local.preserves_ret _
  | none =>
    refine Local.preserves_bind (Local.preserves_lift _) fun successful => ?_
    cases successful with
    | some successful =>
      exact Local.preserves_bind (Local.preserves_lift _) fun _ => Local.preserves_ret _
    | none =>
      dsimp only
      split
      · exact Local.preserves_ret _
      · exact keepsRounds_invokeTool _ _ _ _

theorem keepsRounds_executeClaimed (approvals : ApprovalService) (executing : ApprovalRequest)
    (invocation : ToolInvocation) (context : ToolAuthorizationContext) :
    KeepsRounds (approvals.executeClaimed executing invocation context) := by
  refine Local.preserves_bind ?_ fun outcome => ?_
  · refine Local.preserves_attempt (keepsRounds_execute _ _ _ _) fun e => ?_
    exact Local.preserves_bind (Local.preserves_lift _) fun _ => Local.preserves_raise _
  · refine Local.preserves_bind (Local.preserves_lift _) fun written => ?_
    cases written with
    | true => exact Local.preserves_ret _
    | false => exact Local.preserves_raise _

theorem keepsRounds_resume (approvals : ApprovalService) (approvalId : String)
    (invocation : ToolInvocation) (context : ToolAuthorizationContext) :
    KeepsRounds (approvals.resume approvalId invocation context) := by
  refine Local.preserves_bind (Local.preserves_lift _) fun item => ?_
  refine Local.preserves_bind (Local.preserves_lift _) fun item => ?_
  split
  · exact Local.preserves_raise _
  split
  · exact Local.preserves_ret _
  split
  · exact Local.preserves_raise _
  refine Local.preserves_bind (Local.preserves_ofExcept _) fun policy => ?_
  split
  · exact Local.preserves_raise _
  refine Local.preserves_bind (Local.preserves_lift _) fun written => ?_
  cases written with
  | true => exact keepsRounds_executeClaimed _ _ _ _
  | false =>
    refine Local.preserves_bind (Local.preserves_lift _) fun current => ?_
    split
    · exact Local.preserves_ret _
    · exact Local.preserves_raise _

theorem keepsRounds_planMetered (nodes : AgenticRagNodes) (question : String) :
    KeepsRounds (nodes.planMetered question) := by
  have hbegin : KeepsRounds (Local.update BudgetLedger.beginModelCall) :=
    Local.preserves_update fun ledger => ledger.sameRounds_beginModelCall
  have hrecord : ∀ inputTokens generatedTokens,
      KeepsRounds (recordModelUsage inputTokens generatedTokens) := by
    intro inputTokens generatedTokens
    refine Local.preserves_update fun ledger => ?_
    split
    · exact ledger.sameRounds_recordModelUsage _ _ _ _
    · exact ledger.sameRounds_recordModelUsage _ _ _ _
  unfold AgenticRagNodes.planMetered
  cases nodes.plannerUsesModel with
  | true =>
    refine Local.preserves_bind hbegin fun _ => ?_
    refine Local.preserves_bind (Local.preserves_lift _) fun plan => ?_
    exact Local.preserves_bind (hrecord _ _) fun _ => Local.preserves_ret _
  | false =>
    exact Local.preserves_bind (Local.preserves_lift _) fun plan => Local.preserves_ret _

end Rounds

/-! ## The nodes -/

namespace AgenticRagNodes

variable {nodes : AgenticRagNodes} {state state' : AgenticState}

/-- Planning leaves a plan, or a final status. -/
theorem route_canEnd (h : (nodes.route state).CanEnd (.ok state')) :
    ∃ ledger, state.ledger.SameRounds ledger ∧
      ((∃ status reason, state' = { state with
          budgetUsage := ledger.usage
          finalStatus := some status
          stopReason := some reason }) ∨
        ∃ plan route, state' = { state with
          plan := some plan
          route := route
          budgetUsage := ledger.usage }) := by
  obtain ⟨⟨result, ledger⟩, hmetered, h⟩ := Prog.canEnd_bind_ok.1 h
  have hrounds := keepsRounds_planMetered nodes state.question state.ledger result ledger hmetered
  refine ⟨ledger, hrounds, ?_⟩
  dsimp only at h
  split at h
  · cases h
    exact .inl ⟨_, _, rfl⟩
  · cases h
    exact .inl ⟨_, _, rfl⟩
  · cases h
    exact .inr ⟨_, _, rfl⟩

/-- The direct route answers, and does not touch the evidence. -/
theorem directRag_canEnd (h : (nodes.directRag state).CanEnd (.ok state')) :
    ∃ usage citations retrievalTraceIds finalAnswer finalStatus stopReason,
      state' = { state with
        budgetUsage := usage
        citations := citations
        retrievalTraceIds := retrievalTraceIds
        finalAnswer := finalAnswer
        finalStatus := finalStatus
        stopReason := stopReason } := by
  obtain ⟨⟨result, ledger⟩, -, h⟩ := Prog.canEnd_bind_ok.1 h
  dsimp only at h
  split at h
  · cases h
    exact ⟨_, _, _, _, _, _, rfl⟩
  · cases h
    exact ⟨_, _, _, _, _, _, rfl⟩
  · split at h
    · cases h
      exact ⟨_, _, _, _, _, _, rfl⟩
    · cases h
      exact ⟨_, _, _, _, _, _, rfl⟩
  · cases h
    exact ⟨_, _, _, _, _, _, rfl⟩
  · cases h
    exact ⟨_, _, _, _, _, _, rfl⟩

/-- What a step does with the iteration it has got. -/
def stepWithIteration (nodes : AgenticRagNodes) (state : AgenticState) (step : PlanStep) :
    Metered ToolExecutionOutcome := do
  if step.preferredTool = "knowledge_base" then Local.update BudgetLedger.consumeRetrieval
  nodes.approvals.tools.execute (stepInvocation state step) state.context

theorem stepMetered_eq (step : PlanStep) : nodes.stepMetered state step =
    (Local.update BudgetLedger.consumeIteration).bind fun _ =>
      nodes.stepWithIteration state step :=
  rfl

theorem keepsRounds_stepWithIteration (nodes : AgenticRagNodes) (state : AgenticState)
    (step : PlanStep) : KeepsRounds (nodes.stepWithIteration state step) := by
  have hexecute := keepsRounds_execute nodes.approvals.tools (stepInvocation state step)
    state.context false
  unfold stepWithIteration
  split
  · exact Local.preserves_bind (Local.preserves_update fun o => o.sameRounds_consumeRetrieval)
      fun _ => hexecute
  · exact hexecute

/-- When the iterations are used up, a step does nothing. -/
theorem stepMetered_of_le {step : PlanStep}
    (hle : state.budgetLimits.maxAgentIterations ≤ state.budgetUsage.agentIterations) :
    nodes.stepMetered state step state.ledger =
      .ret (.error (.budgetExceeded .agentIterations), state.ledger) := by
  have hledger : state.ledger.limits.maxAgentIterations ≤ state.ledger.usage.agentIterations :=
    hle
  rw [stepMetered_eq, Local.update_bind_error (BudgetLedger.consumeIteration_of_le hledger)]

/-- Otherwise it uses an iteration. -/
theorem stepMetered_canEnd {step : PlanStep} {result : Except AgentException ToolExecutionOutcome}
    {ledger : BudgetLedger}
    (hlt : state.budgetUsage.agentIterations < state.budgetLimits.maxAgentIterations)
    (h : (nodes.stepMetered state step state.ledger).CanEnd (.ok (result, ledger))) :
    ledger.limits = state.budgetLimits ∧
      ledger.usage.agentIterations = state.budgetUsage.agentIterations + 1 := by
  have hledger : state.ledger.usage.agentIterations < state.ledger.limits.maxAgentIterations :=
    hlt
  rw [stepMetered_eq, Local.update_bind_ok (BudgetLedger.consumeIteration_of_lt hledger)] at h
  exact keepsRounds_stepWithIteration nodes state step _ _ _ h

/-- What the evidence of an outcome adds to the state. -/
theorem applyToolOutcome_eq_ok {stepId : String} {outcome : ToolExecutionOutcome}
    {ledger : BudgetLedger} (h : nodes.applyToolOutcome state stepId outcome ledger = .ok state') :
    ∃ items traceId,
      nodes.outcomeEvidence state.authorization.tenantId stepId outcome = .ok (items, traceId) ∧
        state' = { state with
          evidence := state.evidence ++ items
          toolCalls := state.toolCalls ++ [outcome.summary]
          retrievalTraceIds := state.retrievalTraceIds ++ traceId.toList
          currentStep := nextStep state outcome ledger
          iteration := state.iteration + 1
          budgetUsage := ledger.usage } := by
  unfold applyToolOutcome at h
  cases hitems : nodes.outcomeEvidence state.authorization.tenantId stepId outcome with
  | error e =>
    rw [hitems] at h
    cases h
  | ok r =>
    rw [hitems] at h
    cases h
    exact ⟨r.1, r.2, rfl, rfl⟩

/-- An outcome asks for an approval, ends the run, or adds its evidence. -/
theorem handleOutcome_canEnd {step : PlanStep} {ledger : BudgetLedger}
    {outcome : ToolExecutionOutcome}
    (h : (nodes.handleOutcome state step ledger outcome).CanEnd (.ok state')) :
    (outcome.status = .approvalRequired ∧ ∃ approvalId, state' = { state with
        pendingToolInvocation := some (stepInvocation state step)
        approvalId := some approvalId
        hitlStatus := some .approvalRequired
        budgetUsage := ledger.usage
        finalStatus := some .approvalRequired
        stopReason := some "approval_required" }) ∨
      (outcome.status = .failed ∧ ∃ reason, state' = { state with
        toolCalls := state.toolCalls ++ [outcome.summary]
        iteration := state.iteration + 1
        budgetUsage := ledger.usage
        finalStatus := some .failed
        stopReason := some reason }) ∨
      (outcome.status = .success ∧
        nodes.applyToolOutcome state step.stepId outcome ledger = .ok state') := by
  unfold handleOutcome at h
  cases hstatus : outcome.status with
  | approvalRequired =>
    rw [hstatus] at h
    obtain ⟨approval, -, h⟩ := Prog.canEnd_bind_ok.1 h
    cases h
    exact .inl ⟨rfl, _, rfl⟩
  | failed =>
    rw [hstatus] at h
    cases h
    exact .inr (.inl ⟨rfl, _, rfl⟩)
  | success =>
    rw [hstatus] at h
    exact .inr (.inr ⟨rfl, (Prog.canEnd_ofExcept.1 h).symm⟩)

/-- When the iterations are used up, a node that finds a step gives the run a final status. -/
theorem executeStep_of_le {plan : QueryPlan} (hplan : state.plan = some plan)
    (hsteps : state.currentStep < plan.steps.length)
    (hle : state.budgetLimits.maxAgentIterations ≤ state.budgetUsage.agentIterations) :
    nodes.executeStep state = .ret (nodes.exhaustedStep state plan state.ledger) := by
  unfold executeStep
  split
  · rename_i hnone
    rw [hplan] at hnone
    cases hnone
  rename_i plan' hplan'
  obtain rfl : plan = plan' := Option.some.inj (hplan.symm.trans hplan')
  split
  · rename_i hnone
    exact absurd hsteps (Nat.not_lt.2 (List.getElem?_eq_none_iff.1 hnone))
  rename_i step hstep
  obtain rfl : plan.steps[state.currentStep] = step :=
    Option.some.inj ((List.getElem?_eq_getElem hsteps).symm.trans hstep)
  show Prog.bind (nodes.stepMetered state plan.steps[state.currentStep] state.ledger) _ = _
  rw [stepMetered_of_le hle]
  rfl

/-- A node that finds no step to execute leaves the state as it is.  Otherwise the iterations
are used up, or one more is used. -/
theorem executeStep_canEnd (h : (nodes.executeStep state).CanEnd (.ok state')) :
    ∃ plan, state.plan = some plan ∧
      ((plan.steps.length ≤ state.currentStep ∧ state' = state) ∨
        (state.currentStep < plan.steps.length ∧
            state.budgetLimits.maxAgentIterations ≤ state.budgetUsage.agentIterations ∧
            state' = nodes.exhaustedStep state plan state.ledger) ∨
          ∃ step ledger, plan.steps[state.currentStep]? = some step ∧
            state.budgetUsage.agentIterations < state.budgetLimits.maxAgentIterations ∧
            ledger.limits = state.budgetLimits ∧
            ledger.usage.agentIterations = state.budgetUsage.agentIterations + 1 ∧
            (state' = nodes.exhaustedStep state plan ledger ∨
              (∃ reason, state' = { state with
                budgetUsage := ledger.usage
                finalStatus := some .failed
                stopReason := some reason }) ∨
              ∃ outcome, (nodes.handleOutcome state step ledger outcome).CanEnd (.ok state'))) := by
  have hend := h
  unfold executeStep at h
  cases hplan : state.plan with
  | none =>
    rw [hplan] at h
    cases h
  | some plan =>
    rw [hplan] at h
    refine ⟨plan, rfl, ?_⟩
    dsimp only at h
    cases hstep : plan.steps[state.currentStep]? with
    | none =>
      rw [hstep] at h
      cases h
      exact .inl ⟨List.getElem?_eq_none_iff.1 hstep, rfl⟩
    | some step =>
      have hlt : state.currentStep < plan.steps.length := (List.getElem?_eq_some_iff.1 hstep).1
      rcases Nat.lt_or_ge state.budgetUsage.agentIterations
        state.budgetLimits.maxAgentIterations with hiter | hle
      · rw [hstep] at h
        obtain ⟨⟨result, ledger⟩, hmetered, h⟩ := Prog.canEnd_bind_ok.1 h
        obtain ⟨hlimits, husage⟩ := stepMetered_canEnd hiter hmetered
        refine .inr (.inr ⟨step, ledger, rfl, hiter, hlimits, husage, ?_⟩)
        dsimp only at h
        split at h
        · cases h
          exact .inl rfl
        · cases h
          exact .inr (.inl ⟨_, rfl⟩)
        · exact .inr (.inr ⟨_, h⟩)
      · rw [executeStep_of_le hplan hlt hle] at hend
        cases hend
        exact .inr (.inl ⟨hlt, hle, rfl⟩)

/-- An approval is declined, or the call is executed for it. -/
theorem awaitApproval_canEnd (h : (nodes.awaitApproval state).CanEnd (.ok state')) :
    (∃ hitlStatus status reason, state' = { state with
        hitlStatus := some hitlStatus
        finalStatus := some status
        stopReason := some reason }) ∨
      ∃ ledger, state.ledger.SameRounds ledger ∧
        ((∃ reason, state' = { state with
            budgetUsage := ledger.usage
            finalStatus := some .failed
            stopReason := some reason }) ∨
          ∃ stepId outcome applied,
            nodes.applyToolOutcome state stepId outcome ledger = .ok applied ∧
              state' = { applied with
                pendingToolInvocation := none
                hitlStatus := some .succeeded
                finalStatus := none
                stopReason := none }) := by
  unfold awaitApproval at h
  split at h
  · rename_i approvalId invocation happroval hinvocation
    obtain ⟨approval, -, h⟩ := Prog.canEnd_bind_ok.1 h
    split at h
    · cases h
      exact .inl ⟨_, _, _, rfl⟩
    · obtain ⟨⟨result, ledger⟩, hresume, h⟩ := Prog.canEnd_bind_ok.1 h
      refine .inr ⟨ledger, keepsRounds_resume _ _ _ _ _ _ _ hresume, ?_⟩
      cases result with
      | error e =>
        cases h
        exact .inl ⟨_, rfl⟩
      | ok outcome =>
        obtain ⟨stepId, -, h⟩ := Prog.canEnd_bind_ok.1 h
        obtain ⟨applied, happlied, h⟩ := Prog.canEnd_bind_ok.1 h
        cases h
        exact .inr ⟨stepId, outcome, applied, (Prog.canEnd_ofExcept.1 happlied).symm, rfl⟩
  · cases h

/-- Evidence is evaluated without any call. -/
theorem evaluate_canEnd (h : (nodes.evaluate state).CanEnd (.ok state')) :
    ∃ plan finalStatus reason, state.plan = some plan ∧ state' = { state with
      finalStatus := finalStatus
      stopReason := some reason
      currentStep := if finalStatus = none then 0 else plan.steps.length } := by
  unfold evaluate at h
  cases hplan : state.plan with
  | none =>
    rw [hplan] at h
    cases h
  | some plan =>
    rw [hplan] at h
    dsimp only at h
    generalize canRetry state _ = retry at h
    cases retry with
    | true =>
      cases h
      exact ⟨plan, none, _, rfl, rfl⟩
    | false =>
      cases h
      exact ⟨plan, some _, _, rfl, rfl⟩

theorem finalize_canEnd (h : (finalize state).CanEnd (.ok state')) :
    ∃ status, state.finalStatus = some status ∧ state' = { state with
      citations := (state.evidence.filter fun item => item.citation.isSome).filterMap
        EvidenceItem.citation
      finalAnswer := finalAnswer state
        (state.evidence.filter fun item => item.citation.isSome) status } := by
  unfold finalize at h
  cases hstatus : state.finalStatus with
  | none =>
    rw [hstatus] at h
    cases h
  | some status =>
    rw [hstatus] at h
    cases h
    exact ⟨status, rfl, rfl⟩

/-! ## Runs of the graph -/

/-- One node execution.  A node that raises stops the run. -/
def GraphStep (nodes : AgenticRagNodes) :
    Except AgentException Position → Except AgentException Position → Prop
  | .ok (.before node state), q =>
    ∃ r, (nodes.run node state).CanEnd r ∧ q = r.map (Position.after node)
  | _, _ => False

/-- The graph has reached its end, or a node has raised. -/
def GraphHalted : Except AgentException Position → Prop
  | .ok (.before _ _) => False
  | _ => True

/-- A run of the graph, from its start on. -/
abbrev GraphWalk (nodes : AgenticRagNodes) (request : AgenticRunRequest) : Type :=
  Walk nodes.GraphStep GraphHalted
    (.ok (.before .route (request.initial nodes.approvals.tools.host)))

theorem graphHalted_not_step {nodes : AgenticRagNodes} (p q : Except AgentException Position)
    (h : GraphHalted p) : ¬ nodes.GraphStep p q := by
  cases p with
  | error e => exact id
  | ok p =>
    cases p with
    | ended state => exact id
    | before node state => exact absurd h id

/-- One node execution with nobody else present. -/
def simulate (nodes : AgenticRagNodes) (x : ℕ → Input) :
    Except AgentException Position × World → Except AgentException Position × World
  | (.ok (.before node state), w) =>
    (((nodes.run node state).runAlone exec x w).1.map (Position.after node),
      ((nodes.run node state).runAlone exec x w).2)
  | (p, w) => (p, w)

/-- The run of the graph with nobody else present. -/
def simulation (nodes : AgenticRagNodes) (x : ℕ → Input) (request : AgenticRunRequest)
    (w : World) : GraphWalk nodes request where
  pos n := ((nodes.simulate x)^[n]
    (.ok (.before .route (request.initial nodes.approvals.tools.host)), w)).1
  zero := rfl
  succ n := by
    rw [Function.iterate_succ_apply']
    generalize (nodes.simulate x)^[n] _ = p
    obtain ⟨p | p, w'⟩ := p
    · exact .inr ⟨trivial, rfl⟩
    cases p with
    | ended state => exact .inr ⟨trivial, rfl⟩
    | before node state => exact .inl ⟨_, Prog.canEnd_runAlone exec _ x w', rfl⟩

end AgenticRagNodes

end Agent
end RagflowAgent
