import RagflowAgent.Agent.Conduct.Tools
import RagflowAgent.Agent.Tools.KnowledgeBase
import RagflowAgent.Knowledge.Store

/-!
# Evidence that is handed out again

The tool service keeps the outcomes of its calls as long as its process lives.  Meanwhile
documents are deleted and updated and change hands, and none of this reaches the maps.

* `Authority` is what the knowledge services know at a moment, and `Authoritative` the evidence
  that an actor may be shown then;
* every step of a run comes with the authority of its moment, so between two steps anything may
  have happened to the documents;
* `Source` is what a watcher knows of where an outcome comes from, and `conforms_execute`
  says that it comes from the maps or from a tool;
* `evidence_authoritative_iff`: the evidence of a call is authoritative during the call exactly
  when whatever the call found in the maps is.
-/

namespace RagflowAgent
namespace Agent

open Interleaving

/-! ## Authority -/

/-- The documents at a moment.  Their ids come from the generator. -/
structure Authority where
  documents : Table Knowledge.Document
  generated : ∀ document ∈ documents.rows, isGeneratedId document.id = true ∧
    ∀ versionId ∈ document.currentVersionId, isGeneratedId versionId = true

/-- The evidence comes from the current version of an active document that the caller may
read. -/
def Authoritative (authority : Authority) (context : ToolAuthorizationContext)
    (ref : EvidenceRef) : Prop :=
  ∃ document, authority.documents.get (context.tenantId, ref.documentId) = some document ∧
    document.status = .active ∧ document.currentVersionId = some ref.documentVersionId ∧
    (Knowledge.PermissionChecker.check (knowledgeContext context) document.authorization
      .read).allowed = true

/-- The ids in authoritative evidence are generated. -/
theorem Authoritative.generated {authority : Authority} {context : ToolAuthorizationContext}
    {ref : EvidenceRef} (h : Authoritative authority context ref) :
    isGeneratedId ref.documentId = true ∧ isGeneratedId ref.documentVersionId = true := by
  obtain ⟨document, hdocument, -, hversion, -⟩ := h
  obtain ⟨hid, hcurrent⟩ := authority.generated document (Table.mem_of_get hdocument)
  have hkey : (document.tenantId, document.id) = (context.tenantId, ref.documentId) :=
    Table.key_of_get hdocument
  have hsame : document.id = ref.documentId := congrArg Prod.snd hkey
  exact ⟨hsame ▸ hid, hcurrent _ hversion⟩

/-! ## Calls of the tool service -/

/-- One call of `execute`. -/
structure ToolCall where
  invocation : ToolInvocation
  context : ToolAuthorizationContext
  approved : Bool := false
  budget : BudgetLedger

/-- What a call leaves: its outcome or error, and the budget. -/
abbrev Executed : Type := Except AgentException ToolExecutionOutcome × BudgetLedger

def ToolCall.program (service : SecureToolExecutionService) (call : ToolCall) :
    Service Executed :=
  service.execute call.invocation call.context call.approved call.budget

/-- A tool service in which the name of the knowledge base belongs to its tool. -/
structure ToolProcess where
  service : SecureToolExecutionService
  knowledgeBase : ∀ registration ∈ service.registry.handlers,
    registration.toolName = "knowledge_base" → registration = KnowledgeBaseTool.registration

/-- What settles a step, and the authority of its moment. -/
structure Moment where
  input : Input := {}
  authority : Authority

def execAt ⦃β : Type⦄ (c : Call β) (x : Moment) (w : World) : Except AgentException β × World :=
  exec c x.input w

/-! ## Where an outcome comes from -/

/-- The outcome that settles a call, if the answer of the maps is one. -/
def settles (host : Host) (invocation : ToolInvocation) {β : Type} :
    Call β → Except AgentException β → Option ToolExecutionOutcome
  | .completed _ => fun
    | .ok existing => existing.filter fun existing =>
      existing.summary.argumentDigest = invocation.argumentDigest host
    | .error _ => none
  | .successful _ => fun
    | .ok successful => successful
    | .error _ => none
  | _ => fun _ => none

/-- The output of a tool. -/
def outputOf {β : Type} : Call β → Except AgentException β → List Json
  | .invoke _ _ => fun
    | .ok output => [output]
    | .error _ => []
  | _ => fun _ => []

/-- What a watcher knows of the source of an outcome. -/
structure Source where
  call : ToolCall
  found : Option ToolExecutionOutcome := none
  outputs : List Json := []

namespace Source

variable (host : Host) (source : Source)

def next {β : Type} (c : Call β) (r : Except AgentException β) : Source :=
  { source with
    found := source.found.or (settles host source.call.invocation c r)
    outputs := outputOf c r ++ source.outputs }

/-- An answer that neither settles the call nor is an output of a tool tells nothing. -/
theorem next_eq_self {β : Type} {c : Call β} {r : Except AgentException β}
    (hsettles : settles host source.call.invocation c r = none) (houtput : outputOf c r = []) :
    source.next host c r = source := by
  simp only [next, hsettles, houtput, Option.or_none, List.nil_append]

/-- A call looks into the maps only as long as it has found nothing, and invokes its own tool. -/
def May {β : Type} : Call β → Prop
  | .completed _ => source.found = none
  | .successful _ => source.found = none
  | .invoke invocation context =>
    invocation = source.call.invocation ∧ context = source.call.context
  | _ => True

end Source

def sourceMonitor (host : Host) : Monitor Call AgentException Source where
  licit := fun source _ c => source.May c
  next := fun source _ c r => source.next host c r

/-- How the evidence of an outcome is explained by its source. -/
inductive Explains (service : SecureToolExecutionService) (source : Source) :
    ToolExecutionOutcome → Prop where
  | found {outcome outcome' : ToolExecutionOutcome} (hfound : source.found = some outcome')
      (hevidence : outcome.evidence = outcome'.evidence) : Explains service source outcome
  | nothing {outcome : ToolExecutionOutcome} (hfound : source.found = none)
      (hevidence : outcome.evidence = []) : Explains service source outcome
  | fresh {outcome : ToolExecutionOutcome} (hfound : source.found = none) {output : Json}
      (hmem : output ∈ source.outputs) {registration : ToolRegistration}
      (hresolve : service.registry.resolve source.call.invocation.toolName
        source.call.invocation.toolVersion = .ok registration)
      (hfresh : service.successOutcome registration source.call.invocation output =
        .ok outcome) : Explains service source outcome

/-- Nothing was found so far. -/
structure Source.Searching (call : ToolCall) (source : Source) : Prop where
  call : source.call = call
  found : source.found = none

namespace Source

open Monitor

variable {service : SecureToolExecutionService} {host : Host} {call : ToolCall} {source : Source}
  {budget : BudgetLedger}

theorem conforms_tryInvoke (h : source.Searching call) :
    (sourceMonitor host).Conforms
      (SecureToolExecutionService.tryInvoke call.invocation call.context)
      (fun r source' => source'.Searching call ∧ ∀ output, r = .ok output →
        output ∈ source'.outputs)
      (fun _ source' => source'.Searching call) source := by
  obtain ⟨hcall, hfound⟩ := h
  refine Monitor.conforms_attempt (R := fun _ source' => source'.Searching call) ?_ ?_
  · refine conforms_bind (R := fun output source' => source'.Searching call ∧
      output ∈ source'.outputs) (conforms_perform ?_ ?_ ?_) ?_
    · exact ⟨by rw [hcall], by rw [hcall]⟩
    · intro output
      refine ⟨⟨hcall, ?_⟩, List.mem_cons_self⟩
      change source.found.or none = none
      rw [hfound]
      rfl
    · intro e
      change (source.next host _ _).Searching call
      rw [next_eq_self host source rfl rfl]
      exact ⟨hcall, hfound⟩
    · rintro output source' ⟨hsearching, hmem⟩
      refine ⟨hsearching, fun output' h => ?_⟩
      cases h
      exact hmem
  · intro e source' hsearching
    cases e with
    | tool message errorCode statusCode => exact hsearching
    | _ => exact ⟨hsearching, nofun⟩

theorem conforms_attempt (h : source.Searching call) :
    (sourceMonitor host).Conforms
      (SecureToolExecutionService.attempt call.invocation call.context budget)
      (fun r source' => source'.Searching call ∧ ∀ output, r.1 = .ok (.ok output) →
        output ∈ source'.outputs)
      (fun _ _ => True) source := by
  refine Local.conforms_bind (R := fun _ source' => source = source') rfl ?_ ?_
  · rintro _ budget _ rfl
    refine Local.conforms_lift ((conforms_tryInvoke h).mono ?_ ?_)
    · rintro r source' ⟨hsearching, houtputs⟩
      exact ⟨hsearching, fun output h => houtputs output (Except.ok.inj h)⟩
    · exact fun e source' hsearching => ⟨hsearching, nofun⟩
  · rintro e budget _ rfl
    exact ⟨h, nofun⟩

/-- What the retry loop returns, the tool has returned. -/
theorem conforms_attempts {retries : ℕ} (h : source.Searching call) :
    (sourceMonitor host).Conforms
      (SecureToolExecutionService.attempts call.invocation call.context retries budget)
      (fun r source' => source'.Searching call ∧ ∀ output, r.1 = .ok (.ok output) →
        output ∈ source'.outputs)
      (fun _ _ => True) source := by
  induction retries generalizing budget source with
  | zero => exact conforms_attempt h
  | succ retries ih =>
    refine Local.conforms_bind (conforms_attempt h) ?_ fun e _ _ h => ⟨h.1, nofun⟩
    rintro r budget source₁ ⟨hsearching, houtputs⟩
    cases r with
    | ok output => exact ⟨hsearching, fun output' h => houtputs output' h⟩
    | error errorCode => exact ih hsearching

/-- A call that tells nothing. -/
theorem conforms_quiet {β : Type} {c : Call β} (hc : source.May c)
    (hsettles : ∀ r, settles host source.call.invocation c r = none)
    (houtput : ∀ r, outputOf c r = []) :
    (sourceMonitor host).Conforms (Prog.perform c) (fun _ source' => source = source')
      (fun _ source' => source = source') source :=
  conforms_perform hc (fun _ => (next_eq_self host source (hsettles _) (houtput _)).symm)
    fun _ => (next_eq_self host source (hsettles _) (houtput _)).symm

/-- A call whose answer tells something. -/
theorem conforms_ask {β : Type} {c : Call β} (hc : source.May c) :
    (sourceMonitor host).Conforms (Prog.perform c)
      (fun b source' => source' = source.next host c (.ok b)) (fun _ _ => True) source :=
  conforms_perform hc (fun _ => rfl) fun _ => trivial

theorem conforms_invokeTool {registration : ToolRegistration}
    (hresolve : service.registry.resolve call.invocation.toolName call.invocation.toolVersion =
      .ok registration) (h : source.Searching call) :
    (sourceMonitor host).Conforms
      (service.invokeTool registration call.invocation call.context budget)
      (fun r source' => ∀ outcome, r.1 = .ok outcome → Explains service source' outcome)
      (fun _ _ => True) source := by
  refine Local.conforms_bind (conforms_attempts h) ?_ fun e _ _ _ => nofun
  rintro r budget source₁ ⟨hsearching, houtputs⟩
  cases r with
  | error errorCode =>
    refine Local.conforms_bind_lift (conforms_quiet trivial (fun _ => rfl) fun _ => rfl) ?_ ?_
    · rintro _ _ rfl outcome h
      cases h
      refine .nothing hsearching.found ?_
      unfold ToolExecutionOutcome.evidence
      split <;> rfl
    · exact fun _ _ _ => nofun
  | ok output =>
    refine Local.conforms_bind_ofExcept (fun outcome houtcome => ?_) fun e _ => nofun
    refine Local.conforms_bind_lift (conforms_quiet trivial (fun _ => rfl) fun _ => rfl) ?_ ?_
    · rintro _ _ rfl
      refine Local.conforms_bind_lift (conforms_quiet trivial (fun _ => rfl) fun _ => rfl) ?_ ?_
      · rintro _ _ rfl outcome' h
        cases h
        obtain ⟨rfl, hfound⟩ := hsearching
        exact .fresh hfound (houtputs output rfl) hresolve houtcome
      · exact fun _ _ _ => nofun
    · exact fun _ _ _ => nofun

/-- **What the execution of a call returns comes from the maps**, if something was found there,
or else from its tool. -/
theorem conforms_program :
    (sourceMonitor service.host).Conforms (call.program service)
      (fun r source => ∀ outcome, r.1 = .ok outcome → Explains service source outcome)
      (fun _ _ => True) { call := call } := by
  refine Local.conforms_bind_lift (conforms_quiet trivial (fun _ => rfl) fun _ => rfl) ?_
    fun _ _ _ => nofun
  rintro _ _ rfl
  refine Local.conforms_bind_ofExcept (fun checked hchecked => ?_) fun e _ => nofun
  obtain ⟨registration, decision⟩ := checked
  dsimp only
  split
  · exact nofun
  -- the map of completed calls
  refine Local.conforms_bind_lift (conforms_ask rfl) ?_ fun _ _ _ => nofun
  rintro existing _ rfl
  cases existing with
  | some existing =>
    dsimp only
    split
    · exact nofun
    · rename_i hdigest
      intro outcome h
      cases h
      have hfound : (({ call := call } : Source).next service.host
          (.completed (SecureToolExecutionService.completedKey call.invocation call.context))
          (.ok (some existing))).found = some existing := by
        simp [next, settles, not_not.1 hdigest]
      exact .found hfound rfl
  | none =>
    -- the map of successful signatures
    refine Local.conforms_bind_lift (conforms_ask rfl) ?_ fun _ _ _ => nofun
    rintro successful _ rfl
    cases successful with
    | some successful =>
      refine Local.conforms_bind_lift (conforms_quiet trivial (fun _ => rfl) fun _ => rfl) ?_
        fun _ _ _ => nofun
      rintro _ _ rfl outcome h
      cases h
      have hfound : (({ call := call } : Source).next service.host
          (.successful (service.signature call.invocation call.context))
          (.ok (some successful))).found = some successful := rfl
      exact .found hfound rfl
    | none =>
      dsimp only
      split
      · intro outcome h
        cases h
        refine .nothing rfl ?_
        unfold ToolExecutionOutcome.evidence
        split <;> rfl
      · exact conforms_invokeTool (Worker.resolve_of_check hchecked) ⟨rfl, rfl⟩

end Source

/-! ## Runs -/

/-- The outcome in the maps that settles a call of `execute` when it looks there. -/
def World.kept (w : World) (host : Host) (invocation : ToolInvocation) {β : Type} :
    Call β → Option ToolExecutionOutcome
  | .completed key => (w.completed key).filter fun existing =>
    existing.summary.argumentDigest = invocation.argumentDigest host
  | .successful signature => w.successful signature
  | _ => none

/-- The answer of the maps is what they keep. -/
theorem settles_exec {host : Host} {invocation : ToolInvocation} {β : Type} (c : Call β)
    (x : Input) (w : World) :
    settles host invocation c (exec c x w).1 = w.kept host invocation c := by
  cases c with
  | completed key =>
    rw [exec_internal rfl rfl]
    rfl
  | successful signature =>
    rw [exec_internal rfl rfl]
    rfl
  | _ => rfl

/-- The output of a tool is what its step brought. -/
theorem exists_invoke_of_mem_outputOf {β : Type} {c : Call β} {x : Input} {w : World}
    {output : Json} (h : output ∈ outputOf c (exec c x w).1) :
    (∃ invocation context, (⟨β, c⟩ : Σ β : Type, Call β) = ⟨Json, .invoke invocation context⟩) ∧
      output = x.output := by
  cases c with
  | invoke invocation context =>
    refine ⟨⟨invocation, context, rfl⟩, ?_⟩
    rcases exec_cases (.invoke invocation context) x w with
      ⟨e, he⟩ | ⟨b, w', heffect, he | ⟨e, he⟩⟩
    · rw [he] at h
      exact absurd h List.not_mem_nil
    · rw [he] at h
      cases heffect
      exact List.mem_singleton.1 h
    · rw [he] at h
      exact absurd h List.not_mem_nil
  | _ => exact absurd h List.not_mem_nil

section Runs

variable {τ : Type} [DecidableEq τ]

/-- The processes of the runs that share one tool service. -/
abbrev Calls (τ : Type) : Type 1 := Config Call AgentException Executed World τ

/-- At a step at which the knowledge base is asked, it answers with evidence that is
authoritative at that moment. -/
def FaithfulRetrieval (cfg : Calls τ) (t : τ) (x : Moment) : Prop :=
  ∀ invocation context k, cfg.threads t = .call (.invoke invocation context) k →
    invocation.toolName = "knowledge_base" →
    ∃ result, x.input.output = KnowledgeBaseTool.output result ∧
      ∀ candidate ∈ result.candidates, Authoritative x.authority context candidate.ref

/-- At some step of the call of `t` the evidence is authoritative for its caller. -/
def AuthoritativeDuring (calls : τ → ToolCall) (cfg : Calls τ) (l : List (τ × Moment)) (t : τ)
    (ref : EvidenceRef) : Prop :=
  ∃ m x, m ++ [(t, x)] <+: l ∧ ¬ ((cfg.run execAt m).threads t).Finished ∧
    Authoritative x.authority (calls t).context ref

/-- At some step the call of `t` looks into the maps and finds the outcome. -/
def FindsInMaps (host : Host) (calls : τ → ToolCall) (cfg : Calls τ) (l : List (τ × Moment))
    (t : τ) (outcome : ToolExecutionOutcome) : Prop :=
  ∃ m x, m ++ [(t, x)] <+: l ∧
    ∃ (β : Type) (c : Call β) (k : Except AgentException β → Service Executed),
      (cfg.run execAt m).threads t = .call c k ∧
        (cfg.run execAt m).state.kept host (calls t).invocation c = some outcome

/-- The watchers of calls that have not begun. -/
def sources (calls : τ → ToolCall) (t : τ) : Source := { call := calls t }

variable {process : ToolProcess} {calls : τ → ToolCall} {cfg : Calls τ} {t : τ}
  {l : List (τ × Moment)} {outcome : ToolExecutionOutcome}

/-- What the watchers know after a schedule. -/
abbrev sourcesAfter (host : Host) (calls : τ → ToolCall) (cfg : Calls τ)
    (l : List (τ × Moment)) : τ → Source :=
  (sourceMonitor host).observe execAt cfg (sources calls) l

theorem sourcesAfter_call (host : Host) (l : List (τ × Moment)) :
    (sourcesAfter host calls cfg l t).call = calls t :=
  Monitor.observe_of_next (P := fun source : Source => source.call = calls t)
    (fun _ _ _ _ h => h) rfl l

theorem conforms_after (hthreads : ∀ t, cfg.threads t = (calls t).program process.service)
    (l : List (τ × Moment)) :
    (sourceMonitor process.service.host).Conforms ((cfg.run execAt l).threads t)
      (fun r source => ∀ outcome, r.1 = .ok outcome → Explains process.service source outcome)
      (fun _ _ => True) (sourcesAfter process.service.host calls cfg l t) := by
  refine Monitor.conforms_run ?_ l
  rw [hthreads t]
  exact Source.conforms_program

/-- A call looks into the maps when it has found nothing yet. -/
theorem found_eq_none (hthreads : ∀ t, cfg.threads t = (calls t).program process.service)
    {β : Type} {c : Call β} {k : Except AgentException β → Service Executed} {w : World}
    (ht : (cfg.run execAt l).threads t = .call c k)
    (hkept : w.kept process.service.host (calls t).invocation c = some outcome) :
    (sourcesAfter process.service.host calls cfg l t).found = none := by
  have hconforms := conforms_after (t := t) hthreads l
  rw [ht] at hconforms
  have hmay := hconforms.1
  cases c with
  | completed key => exact hmay
  | successful signature => exact hmay
  | _ => cases hkept

/-- **The watcher of a call knows what the call has found in the maps.** -/
theorem found_iff_findsInMaps (hthreads : ∀ t, cfg.threads t = (calls t).program process.service) :
    (sourcesAfter process.service.host calls cfg l t).found = some outcome ↔
      FindsInMaps process.service.host calls cfg l t outcome := by
  constructor
  · intro hfound
    obtain ⟨m, x, hm, β, c, k, ht, hbefore, hafter⟩ :=
      Monitor.exists_call_of_observe (P := fun source : Source => source.found = some outcome)
        (by simp [sources]) hfound
    refine ⟨m, x, hm, β, c, k, ht, ?_⟩
    change (Option.or _ (settles _ _ c (exec c x.input _).1)) = some outcome at hafter
    rw [settles_exec, sourcesAfter_call, Option.or_eq_some_iff] at hafter
    rcases hafter with h | ⟨-, h⟩
    · exact absurd h hbefore
    · exact h
  · rintro ⟨m, x, ⟨rest, rfl⟩, β, c, k, ht, hkept⟩
    have hnone := found_eq_none hthreads ht hkept
    rw [sourcesAfter, Monitor.observe_append]
    refine Monitor.observe_of_next (P := fun source : Source => source.found = some outcome)
      ?_ ?_ rest
    · intro source β c r h
      change source.found.or _ = some outcome
      rw [h, Option.some_or]
    · rw [Monitor.observe_concat, Monitor.watch_call ht, Function.update_self]
      change Option.or (sourcesAfter _ calls cfg m t).found
        (settles _ _ c (exec c x.input _).1) = some outcome
      rw [hnone, Option.none_or, settles_exec, sourcesAfter_call, hkept]

/-- What the watcher of a call has noted as an output, the tool has returned at a step of the
call. -/
theorem exists_invoke_of_mem_outputs
    (hthreads : ∀ t, cfg.threads t = (calls t).program process.service) {output : Json}
    (h : output ∈ (sourcesAfter process.service.host calls cfg l t).outputs) :
    ∃ m x k, m ++ [(t, x)] <+: l ∧ output = x.input.output ∧
      (cfg.run execAt m).threads t =
        .call (.invoke (calls t).invocation (calls t).context) k := by
  obtain ⟨m, x, hm, β, c, k, ht, hbefore, hafter⟩ :=
    Monitor.exists_call_of_observe (P := fun source : Source => output ∈ source.outputs)
      List.not_mem_nil h
  change output ∈ outputOf c (exec c x.input _).1 ++ _ at hafter
  rcases List.mem_append.1 hafter with hmem | hmem
  swap
  · exact absurd hmem hbefore
  obtain ⟨⟨invocation, context, hc⟩, houtput⟩ := exists_invoke_of_mem_outputOf hmem
  cases hc
  have hconforms := conforms_after (t := t) hthreads m
  rw [ht] at hconforms
  obtain ⟨hinvocation, hcontext⟩ := hconforms.1
  rw [sourcesAfter_call] at hinvocation hcontext
  subst hinvocation hcontext
  exact ⟨m, x, k, hm, houtput, ht⟩

/-- The tool that is found under a name has that name. -/
theorem mem_of_resolve {registry : SecureToolRegistry} {name version : String}
    {registration : ToolRegistration} (h : registry.resolve name version = .ok registration) :
    registration ∈ registry.handlers ∧ registration.toolName = name := by
  unfold SecureToolRegistry.resolve at h
  split at h
  · cases h
  · rename_i handler hfind
    cases h
    have hname := List.find?_some hfind
    exact ⟨List.mem_of_find?_eq_some hfind, (of_decide_eq_true hname).1⟩

/-- **Evidence that was retrieved for a call** is authoritative at the step at which it was
retrieved. -/
theorem authoritativeDuring_of_fresh
    (hthreads : ∀ t, cfg.threads t = (calls t).program process.service)
    (hfaithful : cfg.Respects execAt FaithfulRetrieval l) {output : Json}
    {registration : ToolRegistration}
    (houtput : output ∈ (sourcesAfter process.service.host calls cfg l t).outputs)
    (hresolve : process.service.registry.resolve (calls t).invocation.toolName
      (calls t).invocation.toolVersion = .ok registration)
    (hfresh : process.service.successOutcome registration (calls t).invocation output =
      .ok outcome) : ∀ ref ∈ outcome.evidence, AuthoritativeDuring calls cfg l t ref := by
  obtain ⟨digest, injectionDetected, rfl⟩ := successOutcome_eq_ok hfresh
  obtain ⟨m, x, k, hm, rfl, ht⟩ := exists_invoke_of_mem_outputs hthreads houtput
  intro ref href
  unfold ToolExecutionOutcome.evidence at href
  split at href
  swap
  · exact absurd href List.not_mem_nil
  rename_i hname
  obtain ⟨hhandler, hregistered⟩ := mem_of_resolve hresolve
  have hregistration := process.knowledgeBase registration hhandler (hregistered.trans hname)
  have hstep : FaithfulRetrieval (cfg.run execAt m) t x :=
    (Config.respects_append.1 (hfaithful.of_prefix hm)).2.1
  obtain ⟨result, hresult, hcandidates⟩ := hstep _ _ k ht hname
  have hrefs : evidenceRefs (redact process.service.host [] (KnowledgeBaseTool.output result)) =
      result.candidates.map RetrievalCandidate.ref :=
    evidenceRefs_redact_output fun candidate hcandidate =>
      (hcandidates candidate hcandidate).generated
  have hsensitive : registration.sensitiveFields = [] := by
    rw [hregistration]
    rfl
  dsimp only at href
  rw [hsensitive, hresult, hrefs] at href
  obtain ⟨candidate, hcandidate, rfl⟩ := List.mem_map.1 href
  refine ⟨m, x, hm, ?_, hcandidates candidate hcandidate⟩
  rw [ht]
  exact nofun

/-- **Cached results and authority**: the evidence that a call returns is authoritative for its
caller during the call, if and only if the evidence in whatever the call finds in the maps is. -/
theorem evidence_authoritative_iff (process : ToolProcess) (calls : τ → ToolCall) {cfg : Calls τ}
    (hthreads : ∀ t, cfg.threads t = (calls t).program process.service) {l : List (τ × Moment)}
    (hfaithful : cfg.Respects execAt FaithfulRetrieval l) {t : τ}
    {outcome : ToolExecutionOutcome} {budget : BudgetLedger}
    (hreturned : (cfg.run execAt l).threads t = .ret (.ok outcome, budget)) :
    (∀ ref ∈ outcome.evidence, AuthoritativeDuring calls cfg l t ref) ↔
      ∀ found, FindsInMaps process.service.host calls cfg l t found →
        ∀ ref ∈ found.evidence, AuthoritativeDuring calls cfg l t ref := by
  have hexplains : Explains process.service
      (sourcesAfter process.service.host calls cfg l t) outcome := by
    have hconforms := conforms_after (t := t) hthreads l
    rw [hreturned] at hconforms
    exact hconforms outcome rfl
  constructor
  · intro hall found hfinds
    have hfound := (found_iff_findsInMaps hthreads).2 hfinds
    cases hexplains with
    | found hfound' hevidence =>
      obtain rfl := Option.some.inj (hfound.symm.trans hfound')
      rw [← hevidence]
      exact hall
    | nothing hnone => cases hfound.symm.trans hnone
    | fresh hnone => cases hfound.symm.trans hnone
  · intro hall
    cases hexplains with
    | found hfound hevidence =>
      rw [hevidence]
      exact hall _ ((found_iff_findsInMaps hthreads).1 hfound)
    | nothing _ hevidence =>
      rw [hevidence]
      exact nofun
    | fresh _ hmem hresolve hfresh =>
      rw [sourcesAfter_call] at hresolve hfresh
      exact authoritativeDuring_of_fresh hthreads hfaithful hmem hresolve hfresh

end Runs

/-! ## A result that outlives its document -/

namespace Sample

def holiday : ToolInvocation where
  toolCallId := "first"
  toolName := "knowledge_base"
  toolVersion := "1"
  arguments := [("query", .str "holiday policy"), ("knowledge_base_ids", .list [.str "kb"])]

/-- The digest of the arguments, and one for everything else. -/
def kbHost : Host :=
  { host with sha256 := fun s =>
      if s = (Json.dict holiday.arguments).dumps host then
        "5611ddc7b72b96e3ddab3ec836564c7f9df3b02ff641642ea41722dfd845e9aa"
      else "d4679ca96b7e6260715b1c8d2e42c7055171a041101acc64a0614258ec0132dc" }

def kbProcess : ToolProcess where
  service := { host := kbHost, registry := ⟨[KnowledgeBaseTool.registration], by simp⟩ }
  knowledgeBase := fun registration h _ => List.mem_singleton.1 h

/-- Two runs ask the same, one after the other. -/
def kbCalls : ℕ → ToolCall
  | 0 => { invocation := holiday, context := user, budget := budget }
  | _ => { invocation := { holiday with toolCallId := "second" }, context := user,
           budget := budget }

def policy : Knowledge.Document where
  id := "d1"
  tenantId := "t"
  knowledgeBaseId := "kb"
  ownerId := "user"
  name := "policy"
  currentVersionId := some "a1"
  createdAt := 0
  updatedAt := 0

/-- The document as `request_delete` leaves it. -/
def deletedPolicy : Knowledge.Document :=
  { policy with
    status := .deletePending, currentVersionId := none, revision := 1, deletedAt := some 1
    purgeAfter := some 2, updatedAt := 1 }

def found : RetrievalCandidate where
  knowledgeBaseId := "kb"
  documentId := "d1"
  documentVersionId := "a1"
  chunkId := "c1"
  content := "text"
  finalRank := some 1
  citation := .dict [("schema_version", .int 2), ("tenant_id", .str "t"),
    ("knowledge_base_id", .str "kb"), ("document_id", .str "d1"),
    ("document_version_id", .str "a1"), ("chunk_id", .str "c1"), ("quote", .str "text"),
    ("page_number", .null), ("bounding_box", .null), ("source_uri", .null),
    ("media_kind", .null), ("time_start_seconds", .null), ("time_end_seconds", .null),
    ("observed_at", .null)]

def kbInput : Input := { output := KnowledgeBaseTool.output ⟨[found], "e1", none⟩ }

def before : Moment where
  input := kbInput
  authority := ⟨⟨[policy], by simp⟩, by decide⟩

def after : Moment where
  input := kbInput
  authority := ⟨⟨[deletedPolicy], by simp⟩, by decide⟩

def kbRuns : Calls ℕ where
  state := {}
  threads := fun t => (kbCalls t).program kbProcess.service

/-- The first call is served, the document is deleted, and the second call is served. -/
def kbSchedule : List (ℕ × Moment) := List.replicate 6 (0, before) ++ List.replicate 4 (1, after)

/-- The evidence that a call has returned. -/
def returnedEvidence : Service Executed → Option (List EvidenceRef)
  | .ret (.ok outcome, _) => some outcome.evidence
  | _ => none

theorem exists_of_returnedEvidence {p : Service Executed} {refs : List EvidenceRef}
    (h : returnedEvidence p = some refs) :
    ∃ outcome budget, p = .ret (.ok outcome, budget) ∧ outcome.evidence = refs := by
  unfold returnedEvidence at h
  split at h
  · cases h
    exact ⟨_, _, rfl, rfl⟩
  · cases h

/-- The context in which a program is about to invoke a tool. -/
def asks : Service Executed → Option ToolAuthorizationContext
  | .call (.invoke _ context) _ => some context
  | _ => none

theorem mem_kbSchedule {t : ℕ} {x : Moment} (h : (t, x) ∈ kbSchedule) :
    t = 0 ∧ x = before ∨ t = 1 ∧ x = after := by
  rcases List.mem_append.1 h with h | h
  · cases List.eq_of_mem_replicate h
    exact .inl ⟨rfl, rfl⟩
  · cases List.eq_of_mem_replicate h
    exact .inr ⟨rfl, rfl⟩

/-- The knowledge base is asked by the first call only, while the document is active. -/
theorem faithful_kbSchedule : kbRuns.Respects execAt FaithfulRetrieval kbSchedule := by
  have hasks : kbRuns.Respects execAt (fun cfg t _ => asks (cfg.threads t) = none ∨
      t = 0 ∧ asks (cfg.threads t) = some user) kbSchedule := by decide +kernel
  refine hasks.mono_of_mem fun cfg t x hmem h invocation context k ht _ => ?_
  rw [ht] at h
  rcases h with h | ⟨rfl, h⟩
  · cases h
  · cases h
    rcases mem_kbSchedule hmem with ⟨-, rfl⟩ | ⟨h, -⟩
    · refine ⟨⟨[found], "e1", none⟩, rfl, fun candidate hcandidate => ?_⟩
      rw [List.mem_singleton.1 hcandidate]
      exact ⟨policy, rfl, rfl, rfl, by decide⟩
    · cases h

/-- Whatever is asked after the deletion, the document is not to be shown. -/
theorem not_authoritative_after {context : ToolAuthorizationContext} :
    ¬ Authoritative after.authority context ⟨"d1", "a1"⟩ := by
  rintro ⟨document, hdocument, hstatus, -⟩
  have hmem : document ∈ [deletedPolicy] := Table.mem_of_get hdocument
  rw [List.mem_singleton.1 hmem] at hstatus
  cases hstatus

/-- The second call returns the evidence of the first. -/
theorem returnedEvidence_second :
    returnedEvidence ((kbRuns.run execAt kbSchedule).threads 1) = some [⟨"d1", "a1"⟩] := by
  decide +kernel

end Sample

open Sample

/-- The second call is made after the deletion, and it returns evidence from the document. -/
theorem not_evidence_authoritative :
    kbRuns.Respects execAt FaithfulRetrieval kbSchedule ∧
      ¬ ∀ outcome budget, (kbRuns.run execAt kbSchedule).threads 1 = .ret (.ok outcome, budget) →
        ∀ ref ∈ outcome.evidence, AuthoritativeDuring kbCalls kbRuns kbSchedule 1 ref := by
  refine ⟨faithful_kbSchedule, fun hall => ?_⟩
  obtain ⟨outcome, budget, hreturned, hevidence⟩ :=
    exists_of_returnedEvidence returnedEvidence_second
  obtain ⟨m, x, hm, -, hauthoritative⟩ := hall outcome budget hreturned ⟨"d1", "a1"⟩
    (by rw [hevidence]; exact List.mem_singleton_self _)
  have hmem : (1, x) ∈ kbSchedule := hm.subset (List.mem_append_right _ (List.mem_singleton_self _))
  rcases mem_kbSchedule hmem with ⟨h, -⟩ | ⟨-, rfl⟩
  · cases h
  · exact not_authoritative_after hauthoritative

/-- The second call has found the outcome of the first, and for that reason returns evidence that
is not authoritative. -/
theorem evidence_authoritative_iff_second :
    ∃ outcome budget, (kbRuns.run execAt kbSchedule).threads 1 = .ret (.ok outcome, budget) ∧
      outcome.evidence = [⟨"d1", "a1"⟩] ∧
      ((∀ ref ∈ outcome.evidence, AuthoritativeDuring kbCalls kbRuns kbSchedule 1 ref) ↔
        ∀ found, FindsInMaps kbHost kbCalls kbRuns kbSchedule 1 found →
          ∀ ref ∈ found.evidence, AuthoritativeDuring kbCalls kbRuns kbSchedule 1 ref) := by
  obtain ⟨outcome, budget, hreturned, hevidence⟩ :=
    exists_of_returnedEvidence returnedEvidence_second
  exact ⟨outcome, budget, hreturned, hevidence,
    evidence_authoritative_iff kbProcess kbCalls (fun _ => rfl) faithful_kbSchedule hreturned⟩

end Agent
end RagflowAgent
