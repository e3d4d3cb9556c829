import RagflowAgent.Agent.Conduct.Tools
import RagflowAgent.Agent.Guarantees.CitedEvidence
import RagflowAgent.Agent.Guarantees.Termination

/-!
# Where the evidence comes from

The evidence of a run is made from outcomes.  An outcome comes from the output of a tool, from
the maps of the process, or, when an approval has been used before, from nothing: the approval
service then hands out a successful outcome without output.

* `Actual` are the outcomes that come from the output of a tool, `Sourced` the items that are
  made from such an outcome of a call of their step;
* `Evidenced` is the invariant of the runs, the maps and the workers;
* `evidence_sourced`: in every run in which no worker reads an approval request that has
  succeeded before, all evidence is sourced, and a failed call is in no completed run.
-/

namespace RagflowAgent
namespace Agent

open Interleaving AgenticRagNodes

/-! ## Outcomes -/

/-- The outcome comes from something that a tool has returned. -/
def Actual (tools : SecureToolExecutionService) (returned : List Returned)
    (outcome : ToolExecutionOutcome) : Prop :=
  ∃ r ∈ returned, ∃ fresh, FreshOutcome tools r fresh ∧
    (outcome = fresh ∨
      ∃ invocation, outcome = SecureToolExecutionService.reusedOutcome fresh invocation)

/-- An outcome with nothing in it, as that of a failed call. -/
structure ToolExecutionOutcome.Void (outcome : ToolExecutionOutcome) : Prop where
  output : outcome.output = .null
  digest : outcome.summary.outputDigest = none

section Outcomes

variable {tools : SecureToolExecutionService} {returned returned' : List Returned}
  {outcome : ToolExecutionOutcome}

theorem Actual.mono (h : Actual tools returned outcome) (hsub : returned ⊆ returned') :
    Actual tools returned' outcome := by
  obtain ⟨r, hr, h⟩ := h
  exact ⟨r, hsub hr, h⟩

theorem Actual.status (h : Actual tools returned outcome) : outcome.status = .success := by
  obtain ⟨r, -, fresh, ⟨registration, -, hfresh⟩, rfl | ⟨invocation, rfl⟩⟩ := h
  · obtain ⟨digest, injectionDetected, rfl⟩ := successOutcome_eq_ok hfresh
    rfl
  · obtain ⟨digest, injectionDetected, rfl⟩ := successOutcome_eq_ok hfresh
    rfl

theorem Actual.not_failed (h : Actual tools returned outcome) :
    outcome.summary.status ≠ "failed" := by
  obtain ⟨r, -, fresh, ⟨registration, -, hfresh⟩, rfl | ⟨invocation, rfl⟩⟩ := h
  · obtain ⟨digest, injectionDetected, rfl⟩ := successOutcome_eq_ok hfresh
    show ("success" : String) ≠ "failed"
    decide
  · show ("reused" : String) ≠ "failed"
    decide

/-- Nothing can be made of an outcome with nothing in it. -/
theorem outcomeEvidence_of_void {nodes : AgenticRagNodes} {tenantId stepId : String}
    {r : List EvidenceItem × Option String} (hvoid : outcome.Void) :
    nodes.outcomeEvidence tenantId stepId outcome ≠ .ok r := by
  intro h
  unfold AgenticRagNodes.outcomeEvidence at h
  dsimp only at h
  split at h
  · obtain ⟨output, houtput, -⟩ := bind_eq_ok.1 h
    rw [hvoid.output] at houtput
    cases houtput
  · obtain ⟨items, hitems, -⟩ := bind_eq_ok.1 h
    obtain ⟨citation, hcitation, -⟩ := bind_eq_ok.1 hitems
    have hblank : isBlank outcome.summary.outputDigest = true := by
      rw [hvoid.digest]
      rfl
    rw [AgentEvidenceCitation.ofTool, dif_neg] at hcitation
    · cases hcitation
    · rintro ⟨-, -, hdigest⟩
      rw [hblank] at hdigest
      cases hdigest

/-- An outcome as it may stand in the maps: for a call, and void or actual. -/
def Recorded (tools : SecureToolExecutionService) (returned : List Returned) (toolCallId : String)
    (outcome : ToolExecutionOutcome) : Prop :=
  outcome.summary.toolCallId = toolCallId ∧ (outcome.Void ∨ Actual tools returned outcome)

theorem Recorded.mono {toolCallId : String} (h : Recorded tools returned toolCallId outcome)
    (hsub : returned ⊆ returned') : Recorded tools returned' toolCallId outcome :=
  ⟨h.1, h.2.imp id fun hactual => hactual.mono hsub⟩

end Outcomes

/-! ## Items and positions -/

/-- The item is made from a successful outcome of a call of its step, and that outcome comes from
the output of a tool. -/
def Sourced (nodes : AgenticRagNodes) (returned : List Returned) (request : AgenticRunRequest)
    (item : EvidenceItem) : Prop :=
  ∃ outcome items traceId, outcome.status = .success ∧
    IsCallOf request.runId item.stepId outcome.summary.toolCallId ∧
    Actual nodes.approvals.tools returned outcome ∧
    nodes.outcomeEvidence request.context.tenantId item.stepId outcome = .ok (items, traceId) ∧
    item ∈ items

/-- What a run owes to the tools: all of its evidence is sourced, and when it is completed, none
of its calls has failed. -/
structure AgenticState.OwesTools (nodes : AgenticRagNodes) (returned : List Returned)
    (request : AgenticRunRequest) (state : AgenticState) : Prop where
  evidence : ∀ item ∈ state.evidence, Sourced nodes returned request item
  completed : state.finalStatus = some .completed →
    ∀ summary ∈ state.toolCalls, summary.status ≠ "failed"

def AgenticRagNodes.Position.state : Position → AgenticState
  | .ended state => state
  | .before _ state => state

/-- A run with a failed call is about to finalize, or has ended. -/
def FailsLast (node : Option Node) (state : AgenticState) : Prop :=
  ∀ summary ∈ state.toolCalls, summary.status = "failed" →
    state.finalStatus = some .failed ∧ (node = none ∨ node = some .finalize)

/-- What holds of a run at a checkpoint. -/
structure SoundAt (nodes : AgenticRagNodes) (returned : List Returned)
    (request : AgenticRunRequest) (node : Option Node) (state : AgenticState) : Prop where
  runId : state.runId = request.runId
  authorization : state.authorization = request.context
  evidence : ∀ item ∈ state.evidence, Sourced nodes returned request item
  failsLast : FailsLast node state
  pending : node = some .awaitApproval → PendingStep state
  settled : node = some .executeStep → state.finalStatus ≠ some .approvalRequired

def AgenticRagNodes.Position.Sound (nodes : AgenticRagNodes) (returned : List Returned)
    (request : AgenticRunRequest) : Position → Prop
  | .ended state => SoundAt nodes returned request none state
  | .before node state => SoundAt nodes returned request (some node) state

section Positions

variable {nodes : AgenticRagNodes} {returned returned' : List Returned}
  {request : AgenticRunRequest} {node : Option Node} {state : AgenticState} {position : Position}

theorem Sourced.mono {item : EvidenceItem} (h : Sourced nodes returned request item)
    (hsub : returned ⊆ returned') : Sourced nodes returned' request item := by
  obtain ⟨outcome, items, traceId, hstatus, hcall, hactual, h⟩ := h
  exact ⟨outcome, items, traceId, hstatus, hcall, hactual.mono hsub, h⟩

theorem SoundAt.mono (h : SoundAt nodes returned request node state)
    (hsub : returned ⊆ returned') : SoundAt nodes returned' request node state :=
  { h with evidence := fun item hitem => (h.evidence item hitem).mono hsub }

theorem AgenticRagNodes.Position.Sound.mono (h : position.Sound nodes returned request)
    (hsub : returned ⊆ returned') : position.Sound nodes returned' request := by
  cases position with
  | ended state => exact SoundAt.mono h hsub
  | before node state => exact SoundAt.mono h hsub

theorem AgenticRagNodes.Position.Sound.owesTools (h : position.Sound nodes returned request) :
    position.state.OwesTools nodes returned request := by
  have hsound : ∃ node, SoundAt nodes returned request node position.state := by
    cases position with
    | ended state => exact ⟨none, h⟩
    | before node state => exact ⟨some node, h⟩
  obtain ⟨node, hsound⟩ := hsound
  refine ⟨hsound.evidence, fun hcompleted summary hsummary hfailed => ?_⟩
  rw [(hsound.failsLast summary hsummary hfailed).1] at hcompleted
  cases hcompleted

theorem sound_after {node : Node}
    (h : SoundAt nodes returned request (Agent.next node state) state) :
    (Position.after node state).Sound nodes returned request := by
  unfold Position.after
  cases hnext : Agent.next node state with
  | none =>
    rw [hnext] at h
    exact h
  | some node' =>
    rw [hnext] at h
    exact h

theorem sound_initial : (Position.before .route
    (request.initial nodes.approvals.tools.host)).Sound nodes returned request where
  runId := rfl
  authorization := rfl
  evidence := fun _ hitem => absurd hitem List.not_mem_nil
  failsLast := fun _ hsummary => absurd hsummary List.not_mem_nil
  pending := nofun
  settled := nofun

end Positions

/-! ## What a worker stores -/

variable {ρ : Type}

/-- What a worker knows is true. -/
structure Worker.Sound (nodes : AgenticRagNodes) (requests : ρ → AgenticRunRequest)
    (returned : List Returned) (worker : Worker ρ) : Prop where
  loaded : ∀ run position, worker.loaded = some (run, position) →
    position.Sound nodes returned (requests run)
  advances : worker.loaded ≠ none → worker.advances = true
  completed : ∀ key outcome, (key, outcome) ∈ worker.completed →
    Recorded nodes.approvals.tools returned key.toolCallId outcome
  successful : ∀ outcome ∈ worker.successful, ∃ r ∈ returned,
    FreshOutcome nodes.approvals.tools r outcome
  returned : worker.returned ⊆ returned
  replaying : worker.advances = true → worker.replaying = false

section Effects

variable {nodes : AgenticRagNodes} {requests : ρ → AgenticRunRequest} {returned : List Returned}
  {worker : Worker ρ}

/-- The outcome that a worker gets is for its call, and void or actual. -/
theorem Gives.recorded {invocation : ToolInvocation} {outcome : ToolExecutionOutcome}
    (h : Gives nodes.approvals.tools worker invocation outcome)
    (hworker : worker.Sound nodes requests returned) :
    Recorded nodes.approvals.tools returned invocation.toolCallId outcome := by
  cases h with
  | @existing key outcome hmem hkey => exact hkey ▸ hworker.completed key outcome hmem
  | @reused fresh hmem =>
    obtain ⟨r, hr, hfresh⟩ := hworker.successful fresh hmem
    exact ⟨rfl, .inr ⟨r, hr, fresh, hfresh, .inr ⟨invocation, rfl⟩⟩⟩
  | failed errorCode => exact ⟨rfl, .inl ⟨rfl, rfl⟩⟩
  | @fresh r outcome hmem hfor hfresh =>
    refine ⟨?_, .inr ⟨r, hworker.returned hmem, outcome, hfresh, .inl rfl⟩⟩
    obtain ⟨registration, -, houtcome⟩ := hfresh
    obtain ⟨digest, injectionDetected, rfl⟩ := successOutcome_eq_ok houtcome
    exact congrArg ToolInvocation.toolCallId hfor

/-- The effect of a node keeps a run sound. -/
theorem Effect.sound {request : AgenticRunRequest} {node : Node} {state state' : AgenticState}
    (h : Effect nodes worker node state state') (hworker : worker.Sound nodes requests returned)
    (hstate : SoundAt nodes returned request (some node) state) :
    SoundAt nodes returned request (Agent.next node state') state' := by
  have hsettled : Agent.next node state' = some .executeStep →
      state'.finalStatus ≠ some .approvalRequired := by
    intro hnext
    have hafter := settled_after node state'
    rwa [Position.after, hnext] at hafter
  cases h with
  | same hrun hevidence hcalls hfinal hpending =>
    refine ⟨hrun.runId.trans hstate.runId, hrun.authorization.trans hstate.authorization, ?_, ?_,
      ?_, hsettled⟩
    · rw [hevidence]
      exact hstate.evidence
    · -- a failed call was there before, so the node was the last one
      intro summary hsummary hfailed
      rw [hcalls] at hsummary
      obtain ⟨hstatus, hnode⟩ := hstate.failsLast summary hsummary hfailed
      obtain rfl : node = .finalize := Option.some.inj (hnode.resolve_left fun h => by cases h)
      exact ⟨(hfinal rfl).trans hstatus, .inl rfl⟩
    · intro hnext
      refine hpending ?_ hnext
      by_cases hnode : node = .executeStep
      · exact hstate.settled (congrArg some hnode)
      · exact absurd hnext (Worker.next_ne_awaitApproval hnode)
  | @failed summary hnode hrun hevidence hcalls hfinal =>
    subst hnode
    have hnext : Agent.next .executeStep state' = some .finalize := by
      simp only [Agent.next, afterExecute, hfinal, Option.some.injEq, reduceCtorEq, if_false,
        true_or, if_true]
    refine ⟨hrun.runId.trans hstate.runId, hrun.authorization.trans hstate.authorization, ?_, ?_,
      ?_, hsettled⟩
    · rw [hevidence]
      exact hstate.evidence
    · exact fun _ _ _ => ⟨hfinal, .inr hnext⟩
    · intro h
      rw [hnext] at h
      cases h
  | @gained invocation stepId outcome items traceId hexecutes hgives hitems hrun hevidence hcalls
      hfinal =>
    have hrecorded := hgives.recorded hworker
    have hactual := hrecorded.2.resolve_left fun hvoid => outcomeEvidence_of_void hvoid hitems
    have hcall : IsCallOf request.runId stepId outcome.summary.toolCallId := by
      rw [hrecorded.1, ← hstate.runId]
      rcases hexecutes with ⟨-, hcall⟩ | ⟨hnode, hinvocation, hstepId⟩
      · exact hcall
      · obtain ⟨plan, step, invocation', hplan, hstep, hinvocation', hcall⟩ :=
          hstate.pending (congrArg some hnode)
        obtain rfl : invocation = invocation' :=
          Option.some.inj (hinvocation.symm.trans hinvocation')
        unfold pendingStepId at hstepId
        rw [hplan] at hstepId
        simp only [hstep, Except.ok.injEq] at hstepId
        rwa [hstepId] at hcall
    have hnotlast : ∀ summary ∈ state.toolCalls, summary.status ≠ "failed" := by
      intro summary hsummary hfailed
      rcases (hstate.failsLast summary hsummary hfailed).2 with h | h
      · cases h
      · rcases hexecutes with ⟨hnode, -⟩ | ⟨hnode, -⟩ <;> rw [hnode] at h <;> cases h
    refine ⟨hrun.runId.trans hstate.runId, hrun.authorization.trans hstate.authorization, ?_, ?_,
      ?_, hsettled⟩
    · intro item hitem
      rw [hevidence] at hitem
      rcases List.mem_append.1 hitem with hitem | hitem
      · exact hstate.evidence item hitem
      · have hstep := (built_of_outcomeEvidence hitems item hitem).step
        rw [hstate.authorization] at hitems
        refine ⟨outcome, items, traceId, hactual.status, ?_, hactual, ?_, hitem⟩
        · rw [hstep]
          exact hcall
        · rw [hstep]
          exact hitems
    · intro summary hsummary hfailed
      rw [hcalls] at hsummary
      rcases List.mem_append.1 hsummary with hsummary | hsummary
      · exact absurd hfailed (hnotlast summary hsummary)
      · rw [List.mem_singleton.1 hsummary] at hfailed
        exact absurd hfailed hactual.not_failed
    · intro hnext
      have hnode : node = .executeStep := by
        by_contra hnode
        exact Worker.next_ne_awaitApproval hnode hnext
      subst hnode
      have hrequired := Worker.approvalRequired_of_next hnext
      rcases hfinal with hfinal | hfinal
      · rw [hfinal] at hrequired
        exact absurd hrequired (hstate.settled rfl)
      · rw [hfinal] at hrequired
        cases hrequired

/-- What a sound worker stores is sound. -/
theorem MaySave.sound {run : ρ} {position : Position} (h : MaySave nodes worker run position)
    (hworker : worker.Sound nodes requests returned) :
    position.Sound nodes returned (requests run) := by
  obtain ⟨node, state, state', hloaded, rfl, hreplaying | heffect⟩ := h
  · have hadvances := hworker.advances fun hnone => by
      rw [hnone] at hloaded
      cases hloaded
    rw [hworker.replaying hadvances] at hreplaying
    cases hreplaying
  · exact sound_after (heffect.sound hworker (hworker.loaded run _ hloaded))

end Effects

/-! ## The maps of the process -/

section Maps

variable {β : Type} {c : Call β} {x : Input} {w : World}

/-- What a call leaves in the maps was there, or it has put it there. -/
theorem exec_maps :
    (∀ key outcome, (exec c x w).2.completed key = some outcome →
        w.completed key = some outcome ∨
          ∃ h : β = Unit, h ▸ c = Call.setCompleted key outcome) ∧
      ∀ signature outcome, (exec c x w).2.successful signature = some outcome →
        w.successful signature = some outcome ∨
          ∃ h : β = Unit, h ▸ c = Call.setSuccessful signature outcome := by
  rcases exec_cases c x w with ⟨e, he⟩ | ⟨b, w', heffect, he⟩
  · rw [he]
    exact ⟨fun _ _ h => .inl h, fun _ _ h => .inl h⟩
  · have hw : (exec c x w).2 = w' := by rcases he with he | ⟨e, he⟩ <;> rw [he]
    rw [hw]
    cases c with
    | setCompleted key' outcome' =>
      cases heffect
      refine ⟨fun key outcome h => ?_, fun _ _ h => .inl h⟩
      by_cases hkey : key = key'
      · subst hkey
        simp only [Function.update_self, Option.some.injEq] at h
        subst h
        exact .inr ⟨rfl, rfl⟩
      · change Function.update w.completed key' (some outcome') key = some outcome at h
        rw [Function.update_of_ne hkey] at h
        exact .inl h
    | setSuccessful signature' outcome' =>
      cases heffect
      refine ⟨fun _ _ h => .inl h, fun signature outcome h => ?_⟩
      by_cases hsignature : signature = signature'
      · subst hsignature
        simp only [Function.update_self, Option.some.injEq] at h
        subst h
        exact .inr ⟨rfl, rfl⟩
      · change Function.update w.successful signature' (some outcome') signature = some outcome at h
        rw [Function.update_of_ne hsignature] at h
        exact .inl h
    | saveApproval request =>
      simp only [Call.effect] at heffect
      split at heffect
      · cases heffect
      split at heffect
      · cases heffect
      · cases heffect
        exact ⟨fun _ _ h => .inl h, fun _ _ h => .inl h⟩
    | compareAndSet tenantId approvalId expectedRevision request =>
      simp only [Call.effect] at heffect
      split at heffect
      · cases heffect
        exact ⟨fun _ _ h => .inl h, fun _ _ h => .inl h⟩
      split at heffect
      · cases heffect
        exact ⟨fun _ _ h => .inl h, fun _ _ h => .inl h⟩
      · cases heffect
        exact ⟨fun _ _ h => .inl h, fun _ _ h => .inl h⟩
    | _ =>
      cases heffect
      exact ⟨fun _ _ h => .inl h, fun _ _ h => .inl h⟩

end Maps

/-! ## Runs -/

/-- **The invariant**: what is in the maps, in the checkpoints and in the hands of the workers
comes from what the tools have returned. -/
structure Evidenced {τ : Type} (nodes : AgenticRagNodes) (requests : ρ → AgenticRunRequest)
    (workers : τ → Worker ρ) (s : Runs ρ) : Prop where
  completed : ∀ key outcome, s.world.completed key = some outcome →
    Recorded nodes.approvals.tools s.returned key.toolCallId outcome
  successful : ∀ signature outcome, s.world.successful signature = some outcome →
    ∃ r ∈ s.returned, FreshOutcome nodes.approvals.tools r outcome
  position : ∀ run, (s.position run).Sound nodes s.returned (requests run)
  workers : ∀ t, (workers t).Sound nodes requests s.returned

section Runs

variable {τ : Type} {nodes : AgenticRagNodes} {requests : ρ → AgenticRunRequest}
  {returned returned' : List Returned} {worker : Worker ρ}

theorem Worker.Sound.mono (h : worker.Sound nodes requests returned)
    (hsub : returned ⊆ returned') : worker.Sound nodes requests returned' where
  loaded run position hloaded := (h.loaded run position hloaded).mono hsub
  advances := h.advances
  completed key outcome hmem := (h.completed key outcome hmem).mono hsub
  successful outcome hmem := by
    obtain ⟨r, hr, hfresh⟩ := h.successful outcome hmem
    exact ⟨r, hsub hr, hfresh⟩
  returned _ hmem := hsub (h.returned hmem)
  replaying := h.replaying

/-- What a worker learns from an answer is true. -/
theorem Worker.Sound.next {w : World} {β : Type} {c : Call β} {x : Input}
    (h : worker.Sound nodes requests returned)
    (hcompleted : ∀ key outcome, w.completed key = some outcome →
      Recorded nodes.approvals.tools returned key.toolCallId outcome)
    (hsuccessful : ∀ signature outcome, w.successful signature = some outcome →
      ∃ r ∈ returned, FreshOutcome nodes.approvals.tools r outcome)
    (hreads : worker.advances = true → c.readsSucceeded (exec c x w).1 = false) :
    (worker.next c (exec c x w).1).Sound nodes requests
      (c.returned (exec c x w).1 ++ returned) := by
  have hmono := h.mono (List.subset_append_right (c.returned (exec c x w).1) returned)
  cases c with
  | getApproval tenantId approvalId =>
    refine { hmono with replaying := fun hadvances => ?_ }
    show (worker.replaying || _) = false
    rw [h.replaying hadvances, hreads hadvances, Bool.or_false]
  | completed key =>
    rw [exec_internal rfl rfl]
    cases hfound : w.completed key with
    | none => exact hmono
    | some outcome =>
      refine { hmono with completed := fun key' outcome' hmem => ?_ }
      rcases List.mem_cons.1 hmem with heq | hmem
      · cases heq
        exact hcompleted key outcome hfound
      · exact h.completed key' outcome' hmem
  | successful signature =>
    rw [exec_internal rfl rfl]
    cases hfound : w.successful signature with
    | none => exact hmono
    | some outcome =>
      refine { hmono with successful := fun outcome' hmem => ?_ }
      rcases List.mem_cons.1 hmem with rfl | hmem
      · exact hsuccessful signature outcome' hfound
      · exact h.successful outcome' hmem
  | invoke invocation context =>
    refine { hmono with returned := fun r hmem => ?_ }
    rcases List.mem_append.1 hmem with hmem | hmem
    · exact List.mem_append_left _ hmem
    · exact List.mem_append_right _ (h.returned hmem)
  | _ => exact hmono

variable [DecidableEq ρ] [DecidableEq τ] {commands : τ → AgentCommand ρ}

/-- No worker that executes a node reads an approval request that has succeeded before. -/
def NoReplay (commands : τ → AgentCommand ρ)
    (cfg : Config (RunCall ρ) AgentException Unit (Runs ρ) τ) (t : τ) (x : Input) : Prop :=
  match cfg.threads t with
  | .call (.agent c) _ =>
    (commands t).advances = true → c.readsSucceeded (exec c x cfg.state.world).1 = false
  | _ => True

instance (commands : τ → AgentCommand ρ)
    (cfg : Config (RunCall ρ) AgentException Unit (Runs ρ) τ) (t : τ) (x : Input) :
    Decidable (NoReplay commands cfg t x) := by
  unfold NoReplay
  split <;> infer_instance

/-- The invariant, with the commands of the workers. -/
def EvidencedBy (nodes : AgenticRagNodes) (requests : ρ → AgenticRunRequest)
    (commands : τ → AgentCommand ρ) (workers : τ → Worker ρ) (s : Runs ρ) : Prop :=
  Evidenced nodes requests workers s ∧ ∀ t, (workers t).advances = (commands t).advances

/-- Every call keeps the invariant, unless an approval is replayed. -/
theorem kept_evidenced :
    (runMonitor ρ nodes).KeptWhen execRuns (NoReplay commands)
      (EvidencedBy nodes requests commands) := by
  rintro cfg workers t β c k x ht hreplay ⟨hinv, hcommands⟩ hlicit
  have hadvances : ∀ worker' : Worker ρ, worker'.advances = (workers t).advances →
      ∀ u, (Function.update workers t worker' u).advances = (commands u).advances := by
    intro worker' heq u
    by_cases hu : u = t
    · subst hu
      rw [Function.update_self, heq]
      exact hcommands u
    · rw [Function.update_of_ne hu]
      exact hcommands u
  have hworkers : ∀ (worker' : Worker ρ) (returned' : List Returned),
      cfg.state.returned ⊆ returned' → worker'.Sound nodes requests returned' →
      ∀ u, (Function.update workers t worker' u).Sound nodes requests returned' := by
    intro worker' returned' hsub hworker u
    by_cases hu : u = t
    · subst hu
      rwa [Function.update_self]
    · rw [Function.update_of_ne hu]
      exact (hinv.workers u).mono hsub
  cases c with
  | agent c =>
    have hsub := List.subset_append_right (c.returned (exec c x cfg.state.world).1)
      cfg.state.returned
    have hreads : (workers t).advances = true →
        c.readsSucceeded (exec c x cfg.state.world).1 = false := by
      rw [hcommands t]
      simpa only [NoReplay, ht] using hreplay
    have hnext := (hinv.workers t).next hinv.completed hinv.successful hreads
    refine ⟨⟨?_, ?_, fun run => (hinv.position run).mono hsub, hworkers _ _ hsub hnext⟩,
      hadvances _ (Worker.later_next _ c _).advances⟩
    · intro key outcome hkey
      rcases exec_maps.1 key outcome hkey with hkey | ⟨rfl, hc⟩
      · exact (hinv.completed key outcome hkey).mono hsub
      · have hmay : (workers t).May nodes.approvals.tools c := hlicit
        cases hc
        obtain ⟨invocation, hcall, hgives⟩ := hmay
        rw [hcall]
        exact (hgives.recorded (hinv.workers t)).mono hsub
    · intro signature outcome hsignature
      rcases exec_maps.2 signature outcome hsignature with hsignature | ⟨rfl, hc⟩
      · obtain ⟨r, hr, hfresh⟩ := hinv.successful signature outcome hsignature
        exact ⟨r, hsub hr, hfresh⟩
      · have hmay : (workers t).May nodes.approvals.tools c := hlicit
        cases hc
        obtain ⟨r, hr, hfresh⟩ := hmay
        exact ⟨r, hsub ((hinv.workers t).returned hr), hfresh⟩
  | load run =>
    refine ⟨⟨hinv.completed, hinv.successful, hinv.position,
      hworkers _ _ (fun _ h => h) { hinv.workers t with
        loaded := ?_, advances := fun _ => hlicit }⟩, hadvances _ rfl⟩
    intro run' position hloaded
    cases hloaded
    exact hinv.position run
  | save run position =>
    have hsave : MaySave nodes (workers t) run position := hlicit
    refine ⟨⟨hinv.completed, hinv.successful, fun run' => ?_,
      hworkers _ _ (fun _ h => h) (hinv.workers t)⟩, hadvances _ rfl⟩
    show (Function.update cfg.state.position run position run').Sound _ _ _
    by_cases hrun : run' = run
    · subst hrun
      rw [Function.update_self]
      exact hsave.sound (hinv.workers t)
    · rw [Function.update_of_ne hrun]
      exact hinv.position run'
  | restart =>
    exact ⟨⟨nofun, nofun, hinv.position, hworkers _ _ (fun _ h => h) (hinv.workers t)⟩,
      hadvances _ rfl⟩

omit [DecidableEq ρ] [DecidableEq τ] in
/-- Nothing is known at the start. -/
theorem evidencedBy_start (approvals : Table AgentApprovalRow) :
    EvidencedBy nodes requests commands (fun t => { advances := (commands t).advances })
      (startRuns nodes requests commands approvals).state := by
  have hworker : ∀ command : AgentCommand ρ,
      Worker.Sound nodes requests [] { advances := command.advances } := by
    intro command
    refine ⟨?_, fun hloaded => absurd rfl hloaded, ?_, ?_, ?_, fun _ => rfl⟩
    · intro run position hloaded
      cases hloaded
    · exact fun _ _ hmem => absurd hmem List.not_mem_nil
    · exact fun _ hmem => absurd hmem List.not_mem_nil
    · exact fun _ hmem => absurd hmem List.not_mem_nil
  have hposition : ∀ run, (Position.before .route
      ((requests run).initial nodes.approvals.tools.host)).Sound nodes [] (requests run) :=
    fun run => sound_initial
  refine ⟨⟨?_, ?_, hposition, fun t => hworker (commands t)⟩, fun t => rfl⟩
  · intro key outcome h
    cases h
  · intro signature outcome h
    cases h

end Runs

/-! ## An approval that is used twice -/

namespace Sample

/-- One step, which asks for the wire. -/
def wirePlan : QueryPlan where
  isSimple := false
  steps := [{ stepId := "q1", question := "transfer", preferredTool := "wire" }]
  steps_length := by decide
  dependencies := by decide
  simple := nofun

def wireNodes : AgenticRagNodes where
  approvals := approvals
  policy := nodes.policy
  plannerUsesModel := false
  planJson := fun _ => ""
  knowledgeOutput := fun _ => .error (.validation "Field required")

def wireInput : Input := { plan := wirePlan, output := .str "ok", newId := "a" }

/-- An approver, and workers for one run. -/
def wireCommands : ℕ → AgentCommand Unit
  | 2 => .approval (.decide "a" approver .approve)
  | _ => .advance ()

/-- The run is planned, asks for the approval and gets it, and the call is executed. -/
def wireSchedule : List (ℕ × Input) :=
  List.replicate 3 (0, wireInput) ++ List.replicate 9 (1, wireInput) ++
    List.replicate 4 (2, wireInput) ++ List.replicate 11 (3, wireInput)

def isText (text : String) : Json → Bool
  | .str value => value == text
  | _ => false

theorem eq_of_isText {text : String} {value : Json} (h : isText text value = true) :
    value = .str text := by
  unfold isText at h
  split at h
  · rw [beq_iff_eq.1 h]
  · cases h

/-- What is shared after a schedule. -/
def wireRuns (schedule : List (ℕ × Input)) : Runs Unit :=
  ((startRuns wireNodes (fun _ => request) wireCommands Table.empty).run execRuns schedule).state

/-- The worker that executed the call dies before it stores its position, and another one goes
on. -/
def wireReplayed : Runs Unit := wireRuns (wireSchedule ++ List.replicate 4 (4, wireInput))

/-- The worker that executed the call stores its position. -/
def wireStored : Runs Unit := wireRuns (wireSchedule ++ [(3, wireInput)])

end Sample

/-- A tool that returns a text contributes that text. -/
theorem excerpt_of_text {nodes : AgenticRagNodes} {tenantId stepId value : String}
    {outcome : ToolExecutionOutcome} {items : List EvidenceItem} {traceId : Option String}
    (htool : outcome.summary.toolName ≠ "knowledge_base") (houtput : outcome.output = .str value)
    (h : nodes.outcomeEvidence tenantId stepId outcome = .ok (items, traceId)) :
    ∀ item ∈ items, item.excerpt =
      redactSecretLikeText nodes.approvals.tools.host (takeText 2000 value) := by
  unfold AgenticRagNodes.outcomeEvidence at h
  dsimp only at h
  rw [if_neg htool] at h
  obtain ⟨made, hmade, h⟩ := bind_eq_ok.1 h
  cases h
  obtain ⟨citation, -, hmade⟩ := bind_eq_ok.1 hmade
  simp only [houtput, Json.get?] at hmade
  obtain ⟨parsed, hparsed, hmade⟩ := bind_eq_ok.1 hmade
  cases hparsed
  rw [if_neg (not_not.2 rfl)] at hmade
  obtain ⟨item, hitem, hmade⟩ := bind_eq_ok.1 hmade
  cases hmade
  intro item' hitem'
  obtain rfl := List.mem_singleton.1 hitem'
  unfold EvidenceItem.make at hitem
  split at hitem
  · cases hitem
    rfl
  · cases hitem

end Agent
end RagflowAgent
