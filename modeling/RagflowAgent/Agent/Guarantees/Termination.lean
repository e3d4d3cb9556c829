import RagflowAgent.Agent.Graphs.Transitions

/-!
# When the graph halts

Every round through the graph uses an iteration of the budget, with one exception: a node
`execute_step` that finds the iterations used up gives the run a final status and leaves
`current_step` where it is.  If that status is `COMPLETED` and steps of the plan are left, the
edge out of the node leads back to it.

* `Spinning` are the positions where this is about to happen;
* `measure_lt`: every other step lowers the measure of the position;
* `spinning_step`: a spinning position is never left;
* `halts_iff_not_spinning`: a run halts within a number of node executions that depends on the
  limits only if and only if it never gets to a spinning position.
-/

namespace RagflowAgent
namespace Agent

open Interleaving

namespace AgenticRagNodes

variable {nodes : AgenticRagNodes} {state state' : AgenticState}

/-! ## Spinning -/

/-- `execute_step` is entered with steps of the plan left and no iterations left, while the
evidence is sufficient and the tokens for the final answer are there. -/
def Spinning (nodes : AgenticRagNodes) : Except AgentException Position → Prop
  | .ok (.before .executeStep state) =>
    ∃ plan ∈ state.plan, state.currentStep < plan.steps.length ∧
      state.budgetLimits.maxAgentIterations ≤ state.budgetUsage.agentIterations ∧
      nodes.completedWithEvidence state plan state.ledger = true
  | _ => False

instance (nodes : AgenticRagNodes) : DecidablePred nodes.Spinning
  | .ok (.before .executeStep state) =>
    inferInstanceAs (Decidable (∃ plan ∈ state.plan, _))
  | .ok (.before .route _) => .isFalse id
  | .ok (.before .directRag _) => .isFalse id
  | .ok (.before .awaitApproval _) => .isFalse id
  | .ok (.before .evaluate _) => .isFalse id
  | .ok (.before .finalize _) => .isFalse id
  | .ok (.ended _) => .isFalse id
  | .error _ => .isFalse id

theorem not_halted_of_spinning (p : Except AgentException Position) (h : nodes.Spinning p) :
    ¬ GraphHalted p := by
  cases p with
  | error e => exact absurd h id
  | ok p =>
    cases p with
    | ended state => exact absurd h id
    | before node state => exact id

/-- The edge from `execute_step` back to it. -/
theorem position_after_executeStep {state : AgenticState}
    (hstatus : state.finalStatus ≠ some .approvalRequired ∧ state.finalStatus ≠ some .failed ∧
      state.finalStatus ≠ some .budgetExhausted)
    (hleft : ∃ plan ∈ state.plan, state.currentStep < plan.steps.length) :
    Position.after .executeStep state = .before .executeStep state := by
  obtain ⟨plan, hplan, hsteps⟩ := hleft
  have hany : (state.plan.any fun plan => state.currentStep < plan.steps.length) = true := by
    rw [Option.mem_def.1 hplan, Option.any_some, decide_eq_true hsteps]
  have hnode : afterExecute state = .executeStep := by
    unfold afterExecute
    rw [if_neg hstatus.1, if_neg (not_or.2 hstatus.2), if_pos hany]
  rw [Position.after, next, hnode]

/-- A spinning position is never left. -/
theorem spinning_step (p q : Except AgentException Position) (hp : nodes.Spinning p)
    (hstep : nodes.GraphStep p q) : nodes.Spinning q := by
  unfold Spinning at hp
  split at hp
  · rename_i state
    obtain ⟨plan, hplan, hsteps, hiterations, hcompleted⟩ := hp
    obtain ⟨r, hr, rfl⟩ := hstep
    have hend : (nodes.executeStep state).CanEnd r := hr
    rw [executeStep_of_le hplan hsteps hiterations, Prog.canEnd_ret] at hend
    subst hend
    -- the status is `COMPLETED`, so the edge leads back
    have hafter : Position.after .executeStep (nodes.exhaustedStep state plan state.ledger) =
        .before .executeStep (nodes.exhaustedStep state plan state.ledger) := by
      rw [position_after_executeStep]
      · simp only [exhaustedStep, hcompleted, if_true, ne_eq, Option.some.injEq, reduceCtorEq,
          not_false_eq_true, and_self]
      · exact ⟨plan, hplan, hsteps⟩
    rw [Except.map, hafter]
    exact ⟨plan, hplan, hsteps, hiterations, hcompleted⟩
  · exact absurd hp id

/-! ## The measure -/

/-- The iterations that are left. -/
def iterationsLeft (state : AgenticState) : ℕ :=
  state.budgetLimits.maxAgentIterations - state.budgetUsage.agentIterations

def StepsLeft (state : AgenticState) : Prop :=
  ∃ plan ∈ state.plan, state.currentStep < plan.steps.length

instance (state : AgenticState) : Decidable (StepsLeft state) :=
  inferInstanceAs (Decidable (∃ plan ∈ state.plan, _))

/-- A round from `execute_step` back to it uses an iteration; the other nodes of a round are
ordered as the edges go. -/
def measure : Except AgentException Position → ℕ
  | .ok (.before .route state) => 4 * iterationsLeft state + 5
  | .ok (.before .directRag _) => 1
  | .ok (.before .executeStep state) =>
    4 * iterationsLeft state + if StepsLeft state then 2 else 4
  | .ok (.before .awaitApproval state) => 4 * iterationsLeft state + 5
  | .ok (.before .evaluate state) => 4 * iterationsLeft state + 3
  | .ok (.before .finalize _) => 1
  | .ok (.ended _) => 0
  | .error _ => 0

/-- `execute_step` is never entered with an approval outstanding. -/
def Settled : Except AgentException Position → Prop
  | .ok (.before .executeStep state) => state.finalStatus ≠ some .approvalRequired
  | _ => True

/-- Every edge into `execute_step` asks for that. -/
theorem settled_after (node : Node) (state : AgenticState) :
    Settled (.ok (.after node state)) := by
  unfold Position.after next
  cases node with
  | directRag => trivial
  | finalize => trivial
  | route =>
    simp only [afterRoute]
    split
    · trivial
    · rename_i hnone
      split
      · trivial
      · rw [not_not] at hnone
        show state.finalStatus ≠ some .approvalRequired
        rw [hnone]
        nofun
  | executeStep =>
    simp only [afterExecute]
    split
    · trivial
    split
    · trivial
    split
    · show state.finalStatus ≠ some .approvalRequired
      assumption
    · trivial
  | awaitApproval =>
    simp only [afterApproval]
    split
    · trivial
    · rename_i hnone
      rw [not_not] at hnone
      show state.finalStatus ≠ some .approvalRequired
      rw [hnone]
      nofun
  | evaluate =>
    dsimp only
    split
    · rename_i hnone
      show state.finalStatus ≠ some .approvalRequired
      rw [hnone]
      nofun
    · trivial

theorem measure_executeStep_le (state : AgenticState) :
    measure (.ok (.before .executeStep state)) ≤ 4 * iterationsLeft state + 4 := by
  simp only [measure]
  split <;> omega

/-- The edges out of `execute_step`. -/
theorem measure_afterExecute_le (state : AgenticState) :
    measure (.ok (.after .executeStep state)) ≤ 4 * iterationsLeft state + 5 := by
  unfold Position.after next afterExecute
  dsimp only
  split
  · exact le_rfl
  split
  · exact Nat.le_add_left 1 _
  split
  · exact (measure_executeStep_le state).trans (Nat.le_succ _)
  · simp only [measure]
    omega

theorem measure_afterExecute_of_exhausted {state : AgenticState}
    (h : state.finalStatus = some .budgetExhausted) :
    measure (.ok (.after .executeStep state)) = 1 := by
  have hnode : afterExecute state = .finalize := by
    unfold afterExecute
    rw [h, if_neg (by nofun), if_pos (.inr rfl)]
  rw [Position.after, next, hnode]
  rfl

theorem measure_afterExecute_of_not_stepsLeft {state : AgenticState}
    (hsettled : state.finalStatus ≠ some .approvalRequired) (h : ¬ StepsLeft state) :
    measure (.ok (.after .executeStep state)) ≤ 4 * iterationsLeft state + 3 := by
  have hany : ¬ (state.plan.any fun plan => state.currentStep < plan.steps.length) = true := by
    intro hany
    obtain ⟨plan, hplan, hsteps⟩ := (Option.any_eq_true _ _).1 hany
    exact h ⟨plan, hplan, of_decide_eq_true hsteps⟩
  unfold Position.after next afterExecute
  dsimp only
  rw [if_neg hsettled, if_neg hany]
  split
  · exact Nat.le_add_left 1 _
  · exact le_rfl

theorem measure_afterApproval_le (state : AgenticState) :
    measure (.ok (.after .awaitApproval state)) ≤ 4 * iterationsLeft state + 4 := by
  unfold Position.after next afterApproval
  dsimp only
  split
  · exact Nat.le_add_left 1 _
  · exact measure_executeStep_le state

theorem measure_afterRoute_le (state : AgenticState) :
    measure (.ok (.after .route state)) ≤ 4 * iterationsLeft state + 4 := by
  unfold Position.after next afterRoute
  dsimp only
  split
  · exact Nat.le_add_left 1 _
  split
  · exact Nat.le_add_left 1 _
  · exact measure_executeStep_le state

/-- **Every step lowers the measure**, except from a spinning position. -/
theorem measure_lt {p q : Except AgentException Position} (hsettled : Settled p)
    (hspin : ¬ nodes.Spinning p) (hstep : nodes.GraphStep p q) : measure q < measure p := by
  obtain e | ⟨state⟩ | ⟨node, state⟩ := p
  · exact absurd hstep id
  · exact absurd hstep id
  obtain ⟨r, hr, rfl⟩ := hstep
  cases r with
  | error e =>
    show 0 < _
    cases node with
    | executeStep =>
      simp only [measure]
      split <;> omega
    | _ => exact Nat.succ_pos _
  | ok state' =>
    show measure (.ok (.after node state')) < _
    cases node with
    | route =>
      obtain ⟨ledger, ⟨hlimits, husage⟩, h⟩ := route_canEnd hr
      have hleft : iterationsLeft state' = iterationsLeft state := by
        rcases h with ⟨status, reason, rfl⟩ | ⟨plan, route, rfl⟩
        · exact congrArg (_ - ·) husage
        · exact congrArg (_ - ·) husage
      have hle := measure_afterRoute_le state'
      show _ < 4 * iterationsLeft state + 5
      omega
    | directRag => exact Nat.one_pos
    | finalize => exact Nat.one_pos
    | awaitApproval =>
      have hleft : iterationsLeft state' = iterationsLeft state := by
        rcases awaitApproval_canEnd hr with ⟨_, _, _, rfl⟩ |
          ⟨ledger, ⟨-, husage⟩, ⟨_, rfl⟩ | ⟨stepId, outcome, applied, happlied, rfl⟩⟩
        · rfl
        · exact congrArg (_ - ·) husage
        · obtain ⟨items, traceId, -, rfl⟩ := applyToolOutcome_eq_ok happlied
          exact congrArg (_ - ·) husage
      have hle := measure_afterApproval_le state'
      show _ < 4 * iterationsLeft state + 5
      omega
    | evaluate =>
      obtain ⟨plan, finalStatus, reason, hplan, rfl⟩ := evaluate_canEnd hr
      cases finalStatus with
      | some status =>
        show 1 < 4 * iterationsLeft state + 3
        omega
      | none =>
        -- the plan is gone through from its first step on
        let retried : AgenticState :=
          { state with finalStatus := none, stopReason := some reason, currentStep := 0 }
        have hstepsLeft : StepsLeft retried := ⟨plan, hplan, plan.steps_length.1⟩
        show 4 * iterationsLeft state + (if StepsLeft retried then 2 else 4) <
          4 * iterationsLeft state + 3
        rw [if_pos hstepsLeft]
        omega
    | executeStep =>
      obtain ⟨plan, hplan, ⟨hle, rfl⟩ | ⟨hsteps, hle, rfl⟩ |
        ⟨step, ledger, hstep, hiter, hlimits, husage, h⟩⟩ := executeStep_canEnd hr
      · have hnot : ¬ StepsLeft state' := by
          rintro ⟨plan', hplan', hlt⟩
          obtain rfl : plan = plan' := Option.some.inj (hplan.symm.trans hplan')
          omega
        have hbound := measure_afterExecute_of_not_stepsLeft hsettled hnot
        show _ < 4 * iterationsLeft state' + if StepsLeft state' then 2 else 4
        rw [if_neg hnot]
        omega
      · have hincomplete : nodes.completedWithEvidence state plan state.ledger = false := by
          rw [← Bool.not_eq_true]
          exact fun hcompleted => hspin ⟨plan, hplan, hsteps, hle, hcompleted⟩
        have hstatus : (nodes.exhaustedStep state plan state.ledger).finalStatus =
            some .budgetExhausted := by
          simp only [exhaustedStep, hincomplete, Bool.false_eq_true, if_false]
        rw [measure_afterExecute_of_exhausted hstatus]
        show 1 < 4 * iterationsLeft state + if StepsLeft state then 2 else 4
        split <;> omega
      · -- an iteration has been used
        have hleft : iterationsLeft state' + 1 = iterationsLeft state := by
          have hused : state'.budgetLimits = state.budgetLimits ∧
              state'.budgetUsage = ledger.usage := by
            rcases h with rfl | ⟨_, rfl⟩ | ⟨outcome, h⟩
            · exact ⟨rfl, rfl⟩
            · exact ⟨rfl, rfl⟩
            rcases handleOutcome_canEnd h with ⟨-, _, rfl⟩ | ⟨-, _, rfl⟩ | ⟨-, h⟩
            · exact ⟨rfl, rfl⟩
            · exact ⟨rfl, rfl⟩
            · obtain ⟨items, traceId, -, rfl⟩ := applyToolOutcome_eq_ok h
              exact ⟨rfl, rfl⟩
          unfold iterationsLeft
          rw [hused.1, hused.2, husage]
          omega
        have hle := measure_afterExecute_le state'
        have hstepsLeft : StepsLeft state :=
          ⟨plan, hplan, (List.getElem?_eq_some_iff.1 hstep).1⟩
        show _ < 4 * iterationsLeft state + if StepsLeft state then 2 else 4
        rw [if_pos hstepsLeft]
        omega

/-! ## Runs -/

/-- The graph halts within this many node executions if it halts at all. -/
def executionBound (limits : BudgetLimits) : ℕ := 4 * limits.maxAgentIterations + 5

/-- A run of the graph reaches the end, or a node raises, within a number of node executions
that depends on the limits only, if and only if it never gets to a spinning position. -/
theorem halts_iff_not_spinning (nodes : AgenticRagNodes) (request : AgenticRunRequest)
    (walk : nodes.GraphWalk request) :
    (∃ n ≤ executionBound request.budgetLimits, GraphHalted (walk.pos n)) ↔
      ∀ n, ¬ nodes.Spinning (walk.pos n) := by
  constructor
  · rintro ⟨n, -, hn⟩ m hm
    exact walk.not_halted_of_trapped spinning_step not_halted_of_spinning graphHalted_not_step
      hm n hn
  · intro hspin
    have hsettled : ∀ n, Settled (walk.pos n) :=
      walk.invariant trivial fun p q _ hstep => by
        obtain e | ⟨state⟩ | ⟨node, state⟩ := p
        · exact absurd hstep id
        · exact absurd hstep id
        obtain ⟨r, -, rfl⟩ := hstep
        cases r with
        | error e => trivial
        | ok state' => exact settled_after node state'
    exact walk.halts_of_descends measure fun n => by
      rcases walk.succ n with hstep | ⟨hhalted, -⟩
      · exact .inr (measure_lt (hsettled n) (hspin n) hstep)
      · exact .inl hhalted

/-- One iteration and two steps: after the first step the run is complete, and goes on for
ever. -/
theorem not_halts : ¬ ∃ n, GraphHalted
    ((Sample.nodes.simulation Sample.answers Sample.request {}).pos n) := by
  rintro ⟨n, hn⟩
  have hspin : Sample.nodes.Spinning
      ((Sample.nodes.simulation Sample.answers Sample.request {}).pos 2) := by decide +kernel
  exact Walk.not_halted_of_trapped _ spinning_step not_halted_of_spinning graphHalted_not_step
    hspin n hn

end AgenticRagNodes

end Agent
end RagflowAgent
