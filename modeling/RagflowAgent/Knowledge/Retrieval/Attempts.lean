import RagflowAgent.Knowledge.Retrieval.Selection
import Mathlib.Tactic.Linarith

/-!
# The attempts of a retrieval

A retrieval that finds nothing is tried again, with a lower threshold and a larger window.  The
queries of the attempts are unvalidated copies of the caller's query.

* `attempts_scope`, `attempts_bounds` and `attempts_monotone` are what holds of the planned
  attempts: the scope of the query is kept, the bounds of a valid query hold, and the attempts
  get ever wider;
* `attemptLoop_cases` says how the loop over the attempts ends, by the first attempt that
  selected something or met an error;
* `retrieve_attempts` puts them together.
-/

namespace RagflowAgent
namespace Knowledge
namespace OnlineRetrievalService

open Ranking

/-- The hard scope of a query: its tenant, knowledge bases, filters and index versions. -/
structure SameScope (query query' : RetrievalQuery) : Prop where
  tenantId : query'.tenantId = query.tenantId
  knowledgeBaseIds : query'.knowledgeBaseIds = query.knowledgeBaseIds
  filters : query'.filters = query.filters
  filterExpression : query'.filterExpression = query.filterExpression
  indexVersionIds : query'.indexVersionIds = query.indexVersionIds

/-- What a later attempt has to an earlier one. -/
def Widens (attempt attempt' : RetrievalAttempt) : Prop :=
  attempt'.threshold ≤ attempt.threshold ∧ attempt.query.topK ≤ attempt'.query.topK

section Planned

variable {service : OnlineRetrievalService} {query : RetrievalQuery} {attempt : RetrievalAttempt}

/-- `expanded_top_k`. -/
def expandedTopK (service : OnlineRetrievalService) (query : RetrievalQuery) : ℕ :=
  min 10000 (query.topK * service.profile.fallbackCandidateMultiplier)

/-- The attempts copy the query, but for its limit and its inferred filter. -/
theorem query_of_mem_attempts (h : attempt ∈ service.attempts query) :
    ∃ inferred, (attempt.query = { query with inferredFilterExpression := inferred } ∨
      attempt.query = { query with
        topK := service.expandedTopK query, inferredFilterExpression := inferred }) := by
  rcases List.mem_cons.1 h with rfl | h
  · exact ⟨query.inferredFilterExpression, .inl rfl⟩
  · obtain ⟨definition, hdefinition, number, rfl⟩ := exists_of_mem_numbered h
    refine ⟨if definition.2.2.2 then none else query.inferredFilterExpression, .inr ?_⟩
    have htopK : definition.2.1 = service.expandedTopK query := by
      have hmem := List.mem_of_mem_take hdefinition
      simp only [List.mem_cons, List.not_mem_nil, or_false] at hmem
      rcases hmem with rfl | rfl | rfl | rfl <;> rfl
    rw [← htopK]
    rfl

theorem le_expandedTopK (h : query.topK ≤ 10000) :
    query.topK ≤ service.expandedTopK query := by
  refine le_min h ?_
  calc
    query.topK = query.topK * 1 := (Nat.mul_one _).symm
    _ ≤ query.topK * service.profile.fallbackCandidateMultiplier :=
      Nat.mul_le_mul_left _ service.profile.one_le_multiplier

/-- **Every attempt keeps the scope of the query.** -/
theorem attempts_scope (h : attempt ∈ service.attempts query) : SameScope query attempt.query := by
  obtain ⟨inferred, hquery | hquery⟩ := query_of_mem_attempts h
  · rw [hquery]
    exact ⟨rfl, rfl, rfl, rfl, rfl⟩
  · rw [hquery]
    exact ⟨rfl, rfl, rfl, rfl, rfl⟩

/-- **The copies obey the bounds of a valid query.** -/
theorem attempts_bounds (htopN : 1 ≤ query.topN) (hle : query.topN ≤ query.topK)
    (htopK : query.topK ≤ 10000) (h : attempt ∈ service.attempts query) :
    1 ≤ attempt.query.topN ∧ attempt.query.topN ≤ attempt.query.topK ∧
      attempt.query.topK ≤ 10000 := by
  obtain ⟨inferred, hquery | hquery⟩ := query_of_mem_attempts h
  · rw [hquery]
    exact ⟨htopN, hle, htopK⟩
  · rw [hquery]
    exact ⟨htopN, hle.trans (le_expandedTopK htopK), min_le_left _ _⟩

/-- The lowered threshold lies between the two of the profile. -/
theorem lowered_bounds (service : OnlineRetrievalService) :
    service.profile.fallbackThresholdFloor ≤ max service.profile.fallbackThresholdFloor
        ((service.profile.fusionThreshold + service.profile.fallbackThresholdFloor) / 2) ∧
      max service.profile.fallbackThresholdFloor
        ((service.profile.fusionThreshold + service.profile.fallbackThresholdFloor) / 2) ≤
          service.profile.fusionThreshold := by
  have hfloor := service.profile.fallbackThresholdFloor_le
  refine ⟨le_max_left _ _, max_le hfloor ?_⟩
  linarith

/-- **The attempts get wider**: the thresholds never increase and the limits never decrease. -/
theorem attempts_monotone (htopK : query.topK ≤ 10000) :
    (service.attempts query).Pairwise Widens := by
  obtain ⟨hfloor, hlowered⟩ := lowered_bounds service
  refine List.pairwise_cons.2 ⟨?_, ?_⟩
  · intro attempt h
    obtain ⟨definition, hdefinition, number, rfl⟩ := exists_of_mem_numbered h
    have hmem := List.mem_of_mem_take hdefinition
    simp only [List.mem_cons, List.not_mem_nil, or_false] at hmem
    rcases hmem with rfl | rfl | rfl | rfl
    · exact ⟨hlowered, le_expandedTopK htopK⟩
    all_goals exact ⟨hfloor.trans hlowered, le_expandedTopK htopK⟩
  · refine pairwise_numbered (R := fun definition definition' : RetrievalMode × ℕ × ℚ × Bool =>
      definition'.2.2.1 ≤ definition.2.2.1 ∧ definition.2.1 ≤ definition'.2.1) ?_
      fun _ _ _ _ hwidens => hwidens
    refine List.Pairwise.sublist (List.take_sublist _ _) ?_
    simp only [List.pairwise_cons, List.mem_cons, List.not_mem_nil, or_false, forall_eq_or_imp,
      forall_eq, le_refl, hfloor, and_self, IsEmpty.forall_iff, implies_true, List.Pairwise.nil]

end Planned

/-! ## The scope of what is selected -/

/-- The two candidates have one source. -/
structure SameSource (candidate candidate' : RetrievalCandidate) : Prop where
  tenantId : candidate.tenantId = candidate'.tenantId
  knowledgeBaseId : candidate.knowledgeBaseId = candidate'.knowledgeBaseId
  documentId : candidate.documentId = candidate'.documentId
  documentVersionId : candidate.documentVersionId = candidate'.documentVersionId
  chunkId : candidate.chunkId = candidate'.chunkId

/-- The candidate is in a tenant and in one of the knowledge bases that the query asks for. -/
def InScope (query : RetrievalQuery) (candidate : RetrievalCandidate) : Prop :=
  candidate.tenantId = query.tenantId ∧ candidate.knowledgeBaseId ∈ query.knowledgeBaseIds

/-- The search port fails, or answers candidates of the requested scope. -/
def SearchInScope (service : OnlineRetrievalService) : Prop :=
  ∀ number channel n context query answer,
    service.search number channel n context query = .ok answer →
      ∀ candidate ∈ answer, InScope query candidate

/-- Rerank candidates without changing their source identity. -/
def RerankKeepsSource (service : OnlineRetrievalService) : Prop :=
  ∀ number context query candidates answer,
    service.rerank number context query candidates = .ok answer →
      ∀ candidate ∈ answer, ∃ given ∈ candidates, SameSource candidate given

theorem SameSource.inScope {query : RetrievalQuery} {candidate candidate' : RetrievalCandidate}
    (h : SameSource candidate candidate') (hscope : InScope query candidate') :
    InScope query candidate :=
  ⟨h.tenantId.trans hscope.1, h.knowledgeBaseId ▸ hscope.2⟩

theorem SameScope.inScope {query query' : RetrievalQuery} {candidate : RetrievalCandidate}
    (h : SameScope query query') (hscope : InScope query' candidate) :
    InScope query candidate :=
  ⟨hscope.1.trans h.tenantId, h.knowledgeBaseIds ▸ hscope.2⟩

section Scope

variable {service : OnlineRetrievalService} {context : AuthorizationContext}
  {attempt : RetrievalAttempt} {variants : List QueryVariant} {candidate : RetrievalCandidate}

theorem inScope_of_mem_fusedOf (hsearch : SearchInScope service)
    (h : candidate ∈ service.fusedOf context attempt variants) :
    InScope attempt.query candidate := by
  have hanswers : ∀ {channel : SearchChannel} {found : RetrievalCandidate},
      Answers (fun n => service.search attempt.number channel n context) attempt.query found →
        InScope attempt.query found := by
    rintro channel found ⟨n, text, answer, hanswer, hmem⟩
    exact hsearch _ _ _ _ _ _ hanswer found hmem
  obtain ⟨found, score, hfound, rfl⟩ :=
    exists_of_mem_reciprocalRankFusion (runChannel_nodup _ _) (runChannel_nodup _ _) h
  have hscope : InScope attempt.query found := by
    rcases hfound with hfound | hfound
    · exact hanswers (answers_of_mem_runChannel hfound)
    · exact hanswers (answers_of_mem_runChannel hfound)
  exact hscope

/-- **What an attempt selects is in the scope of its query.** -/
theorem inScope_of_mem_selected (hsearch : SearchInScope service)
    (hrerank : RerankKeepsSource service) (htopN : 1 ≤ attempt.query.topN)
    (h : candidate ∈ (service.runAttempt context attempt variants).selected) :
    InScope attempt.query candidate := by
  obtain ⟨selection, hsublist, -, hselected⟩ :=
    selected_runAttempt service context attempt variants htopN
  rw [hselected] at h
  obtain ⟨chosen, hchosen, rank, rfl⟩ := exists_of_mem_numbered h
  have hmem := hsublist.subset hchosen
  change InScope attempt.query chosen
  have hwindow : ∀ given ∈ service.windowOf context attempt variants,
      InScope attempt.query given := fun given hgiven =>
    inScope_of_mem_fusedOf hsearch (List.mem_of_mem_take hgiven)
  rcases runAttempt_cases service context attempt variants with
    ⟨-, hreranked⟩ | ⟨hreranked, -, -⟩
  · rw [hreranked] at hmem
    exact absurd hmem List.not_mem_nil
  rw [hreranked] at hmem
  rcases rerankWithFallback_cases (service.rerank attempt.number context attempt.query)
      (service.windowOf context attempt variants) with
    ⟨hcandidates, -⟩ | ⟨reranked, hanswer, -, -, houtcome⟩
  · rw [hcandidates] at hmem
    exact hwindow chosen hmem
  · rw [houtcome] at hmem
    obtain ⟨answered, hanswered, rank, rfl⟩ := exists_of_mem_numbered hmem
    obtain ⟨given, hgiven, hsource⟩ := hrerank _ _ _ _ _ hanswer answered hanswered
    exact hsource.inScope (hwindow given hgiven)

end Scope

/-! ## The loop -/

end OnlineRetrievalService

theorem RetrievalResult.validateScope_of_forall {result : RetrievalResult}
    {candidates : List RetrievalCandidate}
    (h : ∀ candidate ∈ candidates, OnlineRetrievalService.InScope result.query candidate) :
    result.validateScope candidates = .ok result := by
  induction candidates with
  | nil => rfl
  | cons candidate candidates ih =>
    obtain ⟨⟨htenant, hknowledgeBase⟩, hrest⟩ := List.forall_mem_cons.1 h
    rw [RetrievalResult.validateScope, if_neg (not_not.2 htenant),
      if_neg (not_not.2 hknowledgeBase)]
    exact ih hrest

/-- The validator accepts every valid result. -/
theorem RetrievalResult.validate_of_valid {result : RetrievalResult} (h : result.Valid) :
    result.validate = .ok result := by
  have horiginal : ¬ ∃ text ∈ result.trace.originalQuery, text ≠ result.query.text := by
    rintro ⟨text, htext, hne⟩
    exact hne (h.originalQuery text htext)
  have hrequest : ¬ ∃ requestId ∈ result.query.requestId, ∃ requestId' ∈ result.trace.requestId,
      requestId' ≠ requestId := by
    rintro ⟨requestId, hid, requestId', hid', hne⟩
    exact hne (h.requestId requestId hid requestId' hid')
  have hnonempty : ¬ (result.candidates ≠ [] ∧ result.emptyReason ≠ none) := by
    rintro ⟨hcandidates, hreason⟩
    exact hcandidates (h.emptyReason.1 (Option.isSome_iff_ne_none.2 hreason))
  have hempty : ¬ (result.candidates = [] ∧ result.emptyReason = none) := by
    rintro ⟨hcandidates, hreason⟩
    have hsome := h.emptyReason.2 hcandidates
    rw [hreason] at hsome
    cases hsome
  rw [RetrievalResult.validate, if_neg (not_not.2 h.traceId), if_neg (not_not.2 h.traceTenantId),
    if_neg horiginal, if_neg hrequest, if_neg hnonempty, if_neg hempty]
  exact RetrievalResult.validateScope_of_forall fun candidate hmem =>
    ⟨h.tenantId candidate hmem, h.knowledgeBaseId candidate hmem⟩

namespace OnlineRetrievalService

section Loop

variable (service : OnlineRetrievalService) (context : AuthorizationContext)
  (variants : List QueryVariant)

/-- The attempt selected something. -/
def Yields (attempt : RetrievalAttempt) : Prop :=
  (service.runAttempt context attempt variants).selected ≠ []

/-- A channel of the attempt has failed. -/
def Errs (attempt : RetrievalAttempt) : Prop :=
  (service.runAttempt context attempt variants).errors ≠ []

instance (attempt : RetrievalAttempt) : Decidable (service.Yields context variants attempt) :=
  inferInstanceAs (Decidable (_ ≠ _))

instance (attempt : RetrievalAttempt) : Decidable (service.Errs context variants attempt) :=
  inferInstanceAs (Decidable (_ ≠ _))

/-- The first attempt that selected something or had a channel error. -/
def firstStop (attempts : List RetrievalAttempt) : Option RetrievalAttempt :=
  attempts.find? fun attempt =>
    service.Yields context variants attempt ∨ service.Errs context variants attempt

variable {service context variants} {query effectiveQuery : RetrievalQuery}
  {startedAt completedAt : ℕ}

/-- A trace that is complete after it was started is built. -/
theorem buildTrace_eq_ok (hclock : startedAt ≤ completedAt)
    (fallbacks : List RetrievalFallbackStep) (status : RetrievalTraceStatus)
    (errorCode : Option String) :
    buildTrace context query effectiveQuery fallbacks startedAt completedAt status errorCode =
      .ok (traceOf context query effectiveQuery fallbacks status errorCode) := by
  rw [buildTrace, if_neg (not_lt.2 hclock)]

/-- A result for the query with such a trace is valid. -/
theorem valid_of_inScope {candidates : List RetrievalCandidate}
    {fallbacks : List RetrievalFallbackStep} {status : RetrievalTraceStatus}
    {errorCode : Option String} {emptyReason : Option RetrievalEmptyReason}
    (htenant : context.tenantId = query.tenantId)
    (hrequest : ∀ requestId ∈ query.requestId, ∀ requestId' ∈ effectiveQuery.requestId,
      requestId' = requestId)
    (hscope : ∀ candidate ∈ candidates, InScope query candidate)
    (hempty : emptyReason.isSome ↔ candidates = []) :
    RetrievalResult.Valid
      ⟨query, candidates, traceOf context query effectiveQuery fallbacks status errorCode,
        emptyReason⟩ where
  traceId := rfl
  traceTenantId := htenant
  originalQuery := fun _ htext => (Option.some.inj htext).symm
  requestId := hrequest
  emptyReason := hempty
  tenantId := fun candidate hmem => (hscope candidate hmem).1
  knowledgeBaseId := fun candidate hmem => (hscope candidate hmem).2

/-- **How the loop ends.**  It stops at the first attempt that selected something or had an
error; without such an attempt it reports that there is no evidence. -/
theorem attemptLoop_cases (htenant : context.tenantId = query.tenantId)
    (hclock : startedAt ≤ completedAt)
    (hrequest : ∀ requestId ∈ query.requestId, ∀ requestId' ∈ effectiveQuery.requestId,
      requestId' = requestId)
    {attempts : List RetrievalAttempt}
    (hscope : ∀ attempt ∈ attempts, ∀ candidate ∈
      (service.runAttempt context attempt variants).selected, InScope query candidate)
    (fallbacks : List RetrievalFallbackStep) :
    (service.firstStop context variants attempts = none ∧ ∃ trace,
        service.attemptLoop context query effectiveQuery variants startedAt completedAt attempts
          fallbacks = .ok ⟨query, [], trace, some .noEvidence⟩) ∨
      (∃ attempt, service.firstStop context variants attempts = some attempt ∧
        service.Yields context variants attempt ∧ ∃ trace,
          service.attemptLoop context query effectiveQuery variants startedAt completedAt attempts
            fallbacks = .ok ⟨query, (service.runAttempt context attempt variants).selected, trace,
              none⟩) ∨
      ∃ attempt, service.firstStop context variants attempts = some attempt ∧
        ¬ service.Yields context variants attempt ∧
          service.attemptLoop context query effectiveQuery variants startedAt completedAt attempts
            fallbacks = .error .knowledgeRetrieval := by
  induction attempts generalizing fallbacks with
  | nil =>
    refine .inl ⟨rfl, traceOf context query effectiveQuery fallbacks .noEvidence none, ?_⟩
    unfold attemptLoop
    rw [buildTrace_eq_ok hclock]
    exact RetrievalResult.validate_of_valid
      (valid_of_inScope htenant hrequest (fun _ h => absurd h List.not_mem_nil)
        (iff_of_true rfl rfl))
  | cons attempt attempts ih =>
    obtain ⟨hhere, hlater⟩ := List.forall_mem_cons.1 hscope
    unfold attemptLoop
    by_cases hyields : service.Yields context variants attempt
    · have hstop : service.firstStop context variants (attempt :: attempts) = some attempt :=
        List.find?_cons_of_pos (decide_eq_true (.inl hyields))
      refine .inr (.inl ⟨attempt, hstop, hyields, ?_⟩)
      dsimp only
      rw [if_pos (show (service.runAttempt context attempt variants).selected ≠ [] from hyields),
        buildTrace_eq_ok hclock]
      refine ⟨_, RetrievalResult.validate_of_valid ?_⟩
      exact valid_of_inScope htenant hrequest hhere (iff_of_false Bool.false_ne_true hyields)
    have hnil : ¬ (service.runAttempt context attempt variants).selected ≠ [] := hyields
    dsimp only
    rw [if_neg hnil]
    by_cases herrs : service.Errs context variants attempt
    · have hstop : service.firstStop context variants (attempt :: attempts) = some attempt :=
        List.find?_cons_of_pos (decide_eq_true (.inr herrs))
      refine .inr (.inr ⟨attempt, hstop, hyields, ?_⟩)
      rw [if_pos (show (service.runAttempt context attempt variants).errors ≠ [] from herrs),
        buildTrace_eq_ok hclock]
      rfl
    · have hfine : ¬ (service.runAttempt context attempt variants).errors ≠ [] := herrs
      have hstop : service.firstStop context variants (attempt :: attempts) =
          service.firstStop context variants attempts :=
        List.find?_cons_of_neg (by simp [hyields, herrs])
      rw [hstop, if_neg hfine]
      exact ih hlater _

/-- Where the first stop yields, it is the first attempt that does. -/
theorem find_yields_of_firstStop {attempts : List RetrievalAttempt} {attempt : RetrievalAttempt}
    (h : service.firstStop context variants attempts = some attempt)
    (hyields : service.Yields context variants attempt) :
    (attempts.find? fun attempt => service.Yields context variants attempt) = some attempt := by
  obtain ⟨-, before, after, hattempts, hbefore⟩ := List.find?_eq_some_iff_append.1 h
  refine List.find?_eq_some_iff_append.2
    ⟨decide_eq_true hyields, before, after, hattempts, fun other hother => ?_⟩
  have hnot := hbefore other hother
  rw [Bool.not_eq_true', decide_eq_false_iff_not, not_or] at hnot
  rw [Bool.not_eq_true', decide_eq_false_iff_not]
  exact hnot.1

theorem firstStop_eq_none_iff {attempts : List RetrievalAttempt} :
    service.firstStop context variants attempts = none ↔
      ∀ attempt ∈ attempts, ¬ service.Errs context variants attempt ∧
        ¬ service.Yields context variants attempt := by
  rw [firstStop, List.find?_eq_none]
  refine forall₂_congr fun attempt _ => ?_
  rw [decide_eq_true_eq, not_or, and_comm]

end Loop

/-! ## The result -/

section Retrieve

variable {service : OnlineRetrievalService} {context : AuthorizationContext}
  {query : RetrievalQuery} {canonicalText : String} {variants : List QueryVariant}
  {startedAt completedAt : ℕ}

theorem sameScope_effectiveQuery :
    SameScope query (service.effectiveQuery context query canonicalText) :=
  ⟨rfl, rfl, rfl, rfl, rfl⟩

theorem SameScope.trans {query query' query'' : RetrievalQuery} (h : SameScope query query')
    (h' : SameScope query' query'') : SameScope query query'' where
  tenantId := h'.tenantId.trans h.tenantId
  knowledgeBaseIds := h'.knowledgeBaseIds.trans h.knowledgeBaseIds
  filters := h'.filters.trans h.filters
  filterExpression := h'.filterExpression.trans h.filterExpression
  indexVersionIds := h'.indexVersionIds.trans h.indexVersionIds

/-- The query of the first attempt obeys the bounds of a valid query. -/
theorem bounds_effectiveQuery (hquery : query.Valid) :
    1 ≤ (service.effectiveQuery context query canonicalText).topN ∧
      (service.effectiveQuery context query canonicalText).topN ≤
        (service.effectiveQuery context query canonicalText).topK ∧
      (service.effectiveQuery context query canonicalText).topK ≤ 10000 := by
  have hwindow : service.profile.finalTopK ≤ service.profile.candidateTopK :=
    service.profile.finalTopK_le.trans service.profile.rerankCandidateCount_le
  refine ⟨le_min hquery.one_le_topN service.profile.one_le_finalTopK, ?_, ?_⟩
  · exact min_le_min hquery.topN_le_topK hwindow
  · exact (min_le_left _ _).trans hquery.topK_le

/-- After its preparations `retrieve` is the loop. -/
theorem retrieve_eq_attemptLoop (htenant : context.tenantId = query.tenantId)
    (hprocess : service.process query.text = .ok canonicalText)
    (hvariants : service.variants context canonicalText query = .ok variants) :
    service.retrieve context query startedAt completedAt =
      service.attemptLoop context query (service.effectiveQuery context query canonicalText)
        variants startedAt completedAt
        (service.attempts (service.effectiveQuery context query canonicalText)) [] := by
  unfold retrieve
  dsimp only
  rw [if_neg (not_not.2 htenant), hprocess]
  change (service.variants context canonicalText query >>= _) = _
  rw [hvariants]
  rfl

/-- Every attempt keeps the scope of the query, and has limits that a query may have. -/
structure Planned (query : RetrievalQuery) (attempt : RetrievalAttempt) : Prop where
  scope : SameScope query attempt.query
  one_le_topN : 1 ≤ attempt.query.topN
  topN_le_topK : attempt.query.topN ≤ attempt.query.topK
  topK_le : attempt.query.topK ≤ 10000

theorem planned_of_mem_attempts (hquery : query.Valid) {attempt : RetrievalAttempt}
    (h : attempt ∈ service.attempts (service.effectiveQuery context query canonicalText)) :
    Planned query attempt := by
  obtain ⟨htopN, hle, htopK⟩ :
      1 ≤ (service.effectiveQuery context query canonicalText).topN ∧ _ :=
    bounds_effectiveQuery hquery
  obtain ⟨htopN', hle', htopK'⟩ := attempts_bounds htopN hle htopK h
  exact ⟨sameScope_effectiveQuery.trans (attempts_scope h), htopN', hle', htopK'⟩

end Retrieve

namespace Sample

/-- Nothing is found before the first fallback attempt, and the reranker is down. -/
def patient : OnlineRetrievalService :=
  { reversing with
    search := fun number _ _ _ query =>
      if number = 1 ∧ query.tenantId = "t" ∧ "kb" ∈ query.knowledgeBaseIds then
        .ok Knowledge.Sample.byText
      else .ok []
    rerank := fun _ _ _ _ => .error (.timeout "TimeoutError" "") }

theorem searchInScope_patient : SearchInScope patient := by
  intro number channel n context query answer hanswer candidate hmem
  change (if number = 1 ∧ query.tenantId = "t" ∧ "kb" ∈ query.knowledgeBaseIds then _ else _) =
    Except.ok answer at hanswer
  split at hanswer
  · rename_i hasked
    cases hanswer
    have hsource : candidate.tenantId = "t" ∧ candidate.knowledgeBaseId = "kb" := by
      simp only [Knowledge.Sample.byText, List.mem_cons, List.not_mem_nil, or_false] at hmem
      rcases hmem with rfl | rfl <;> exact ⟨rfl, rfl⟩
    rw [InScope, hsource.1, hsource.2]
    exact ⟨hasked.2.1.symm, hasked.2.2⟩
  · cases hanswer
    exact absurd hmem List.not_mem_nil

end Sample

end OnlineRetrievalService
end Knowledge
end RagflowAgent
