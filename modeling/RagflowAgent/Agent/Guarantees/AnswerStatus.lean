import RagflowAgent.Agent.Graphs.Transitions

/-!
# What the status of an answer says

A run can get a status in four nodes, and later nodes may add evidence.  But every edge into
`finalize` comes from `evaluate`, or from a node that has left a status that says nothing about
the evidence, and `finalize` adds none.

* `AnswersEvidence`: if the status is one of the evidence, then the policy decides it;
* `answersEvidence_of_evaluate`: `evaluate` leaves such a state;
* `route_unanswered`, `awaitApproval_unanswered` and `afterExecute_unanswered`: the other edges
  into `finalize`;
* `answersEvidence_of_ended`: every agent run that has ended.
-/

namespace RagflowAgent
namespace Agent

open Interleaving AgenticRagNodes

/-- The policy decides this status on the evidence and the plan of the state. -/
def EvidenceDecided (nodes : AgenticRagNodes) (state : AgenticState) (status : EvidenceStatus) :
    Prop :=
  ∃ plan, state.plan = some plan ∧
    (nodes.policy.evaluate nodes.approvals.tools.host state.authorization.tenantId plan
      state.evidence).status = status

/-- A status of the evidence is the one that the policy decides: COMPLETED is for SUFFICIENT, and
the other three are called alike. -/
def AnswersEvidence (nodes : AgenticRagNodes) (state : AgenticState) : Prop :=
  ∀ status, state.finalStatus = some (evidenceStatus status) → EvidenceDecided nodes state status

/-- The status of a run says nothing about its evidence. -/
def Unanswered (state : AgenticState) : Prop :=
  ∀ status, state.finalStatus ≠ some (evidenceStatus status)

theorem Unanswered.answersEvidence {nodes : AgenticRagNodes} {state : AgenticState}
    (h : Unanswered state) : AnswersEvidence nodes state :=
  fun status hstatus => absurd hstatus (h status)

theorem unanswered_of_none {state : AgenticState} (h : state.finalStatus = none) :
    Unanswered state := by
  intro status hstatus
  rw [h] at hstatus
  cases hstatus

/-- The statuses that a node other than `evaluate` gives a run before it finalizes. -/
theorem unanswered_of_mem {state : AgenticState} {final : AgenticRunStatus}
    (h : state.finalStatus = some final)
    (hmem : final ∈ [AgenticRunStatus.rejected, .cancelled, .budgetExhausted, .failed]) :
    Unanswered state := by
  intro status hstatus
  rw [h] at hstatus
  obtain rfl := Option.some.inj hstatus
  cases status <;> simp [evidenceStatus] at hmem

/-! ## The nodes before `finalize` -/

section Nodes

variable {nodes : AgenticRagNodes} {state state' : AgenticState}

/-- Different decisions give different statuses. -/
theorem evidenceStatus_injective : Function.Injective evidenceStatus := by
  intro status status' h
  cases status <;> cases status' <;> first | rfl | cases h

theorem answersEvidence_of_evaluate (h : (nodes.evaluate state).CanEnd (.ok state')) :
    AnswersEvidence nodes state' := by
  intro status hstatus
  unfold evaluate at h
  cases hplan : state.plan with
  | none =>
    rw [hplan] at h
    cases h
  | some plan =>
    rw [hplan] at h
    cases h
    dsimp only at hstatus
    split at hstatus
    · cases hstatus
    · exact ⟨plan, rfl, evidenceStatus_injective (Option.some.inj hstatus)⟩

theorem route_unanswered (hstate : state.finalStatus = none)
    (h : (nodes.route state).CanEnd (.ok state')) : Unanswered state' := by
  obtain ⟨⟨result, ledger⟩, -, h⟩ := Prog.canEnd_bind_ok.1 h
  dsimp only at h
  split at h
  · cases h
    exact unanswered_of_mem rfl (by decide)
  · cases h
    exact unanswered_of_mem rfl (by decide)
  · cases h
    exact unanswered_of_none hstate

theorem awaitApproval_unanswered (h : (nodes.awaitApproval state).CanEnd (.ok state')) :
    Unanswered state' := by
  unfold awaitApproval at h
  split at h
  · obtain ⟨approval, -, h⟩ := Prog.canEnd_bind_ok.1 h
    cases hdeclined : declinedStatus approval.status with
    | some status =>
      rw [hdeclined] at h
      cases h
      refine unanswered_of_mem rfl ?_
      cases hstatus : approval.status <;> rw [hstatus] at hdeclined <;> cases hdeclined <;> decide
    | none =>
      rw [hdeclined] at h
      obtain ⟨⟨result, ledger⟩, -, h⟩ := Prog.canEnd_bind_ok.1 h
      cases result with
      | error e =>
        cases h
        exact unanswered_of_mem rfl (by decide)
      | ok outcome =>
        obtain ⟨stepId, -, h⟩ := Prog.canEnd_bind_ok.1 h
        obtain ⟨applied, -, h⟩ := Prog.canEnd_bind_ok.1 h
        cases h
        exact unanswered_of_none rfl
  · cases h

/-- `execute_step` may leave COMPLETED, but then the run does not finalize. -/
theorem afterExecute_unanswered (h : afterExecute state = .finalize) : Unanswered state := by
  unfold afterExecute at h
  split at h
  · cases h
  split at h
  · rename_i hstatus
    rcases hstatus with hstatus | hstatus
    · exact unanswered_of_mem hstatus (by decide)
    · exact unanswered_of_mem hstatus (by decide)
  split at h <;> cases h

theorem afterRoute_mem (state : AgenticState) :
    afterRoute state ∈ [Node.directRag, .executeStep, .finalize] := by
  unfold afterRoute
  split
  · decide
  split <;> decide

theorem afterExecute_mem (state : AgenticState) :
    afterExecute state ∈ [Node.executeStep, .awaitApproval, .evaluate, .finalize] := by
  unfold afterExecute
  split
  · decide
  split
  · decide
  split <;> decide

/-- `route` leads to the direct route by its route. -/
theorem route_eq_of_afterRoute (h : afterRoute state = .directRag) : state.route = .directRag := by
  unfold afterRoute at h
  split at h
  · cases h
  split at h
  · assumption
  · cases h

end Nodes

/-! ## Runs -/

/-- What holds of every position of a run. -/
def AnsweredPosition (nodes : AgenticRagNodes) : Except AgentException Position → Prop
  | .ok (.before .route state) => state.finalStatus = none
  | .ok (.before .directRag state) => state.route = .directRag
  | .ok (.before .finalize state) => AnswersEvidence nodes state
  | .ok (.ended state) => state.route = .agent → AnswersEvidence nodes state
  | _ => True

section Runs

variable {nodes : AgenticRagNodes} {request : AgenticRunRequest}

/-- What a node leaves for the node after it. -/
theorem answeredPosition_after {node : Node} {state state' : AgenticState}
    (h : (nodes.run node state).CanEnd (.ok state'))
    (hstate : AnsweredPosition nodes (.ok (.before node state))) :
    AnsweredPosition nodes (.ok (Position.after node state')) := by
  unfold Position.after
  cases node with
  | route =>
    show AnsweredPosition nodes (.ok (.before (afterRoute state') state'))
    have hmem := afterRoute_mem state'
    cases hafter : afterRoute state' with
    | directRag => exact route_eq_of_afterRoute hafter
    | finalize => exact (route_unanswered hstate h).answersEvidence
    | route => simp [hafter] at hmem
    | _ => trivial
  | directRag =>
    obtain ⟨usage, citations, traceIds, answer, status, reason, rfl⟩ := directRag_canEnd h
    intro hroute
    have hdirect : state.route = .directRag := hstate
    rw [hdirect] at hroute
    cases hroute
  | executeStep =>
    show AnsweredPosition nodes (.ok (.before (afterExecute state') state'))
    have hmem := afterExecute_mem state'
    cases hafter : afterExecute state' with
    | finalize => exact (afterExecute_unanswered hafter).answersEvidence
    | route => simp [hafter] at hmem
    | directRag => simp [hafter] at hmem
    | _ => trivial
  | awaitApproval =>
    show AnsweredPosition nodes (.ok (.before (afterApproval state') state'))
    unfold afterApproval
    split
    · exact (awaitApproval_unanswered h).answersEvidence
    · trivial
  | evaluate =>
    show AnsweredPosition nodes
      (.ok (.before (if state'.finalStatus = none then .executeStep else .finalize) state'))
    split
    · trivial
    · exact answersEvidence_of_evaluate h
  | finalize =>
    obtain ⟨status, hstatus, rfl⟩ := finalize_canEnd h
    exact fun _ => hstate

theorem answeredPosition_graphWalk (walk : nodes.GraphWalk request) (n : ℕ) :
    AnsweredPosition nodes (walk.pos n) := by
  refine walk.invariant (I := AnsweredPosition nodes) rfl (fun p q hp hstep => ?_) n
  obtain e | ⟨state⟩ | ⟨node, state⟩ := p
  · exact absurd hstep id
  · exact absurd hstep id
  obtain ⟨r, hr, rfl⟩ := hstep
  cases r with
  | error e => trivial
  | ok state' => exact answeredPosition_after hr hp

/-- **The status of an agent run that has ended is the one that the policy decides** on its final
evidence and plan, if it is a status of the evidence at all. -/
theorem answersEvidence_of_ended (walk : nodes.GraphWalk request) {n : ℕ} {state : AgenticState}
    (hn : walk.pos n = .ok (.ended state)) (hroute : state.route = .agent) :
    AnswersEvidence nodes state := by
  have hposition := answeredPosition_graphWalk walk n
  rw [hn] at hposition
  exact hposition hroute

end Runs

namespace Sample

/-- The run of the two questions with the default limits. -/
def roomyRequest : AgenticRunRequest := { request with budgetLimits := budget.limits }

def roomyWalk : nodes.GraphWalk roomyRequest := nodes.simulation answers roomyRequest {}

/-- The state in which a run has ended. -/
def endState : Except AgentException Position → Option AgenticState
  | .ok (.ended state) => some state
  | _ => none

theorem eq_of_endState {position : Except AgentException Position} {state : AgenticState}
    (h : endState position = some state) : position = .ok (.ended state) := by
  unfold endState at h
  split at h
  · cases h
    rfl
  · cases h

/-- With both questions answered, the run ends COMPLETED and its evidence is sufficient. -/
theorem answersEvidence_of_ended_roomy :
    ∃ state, roomyWalk.pos 5 = .ok (.ended state) ∧ state.finalStatus = some .completed ∧
      EvidenceDecided nodes state .sufficient := by
  have hrun : (endState (roomyWalk.pos 5)).map (fun state => (state.finalStatus, state.route)) =
      some (some .completed, .agent) := by decide +kernel
  obtain ⟨state, hstate, hended⟩ := Option.map_eq_some_iff.1 hrun
  obtain ⟨hstatus, hroute⟩ := Prod.mk.inj hended
  have hn := eq_of_endState hstate
  exact ⟨state, hn, hstatus, answersEvidence_of_ended roomyWalk hn hroute .sufficient hstatus⟩

end Sample

end Agent
end RagflowAgent
