import RagflowAgent.Knowledge.Application.FixedRag
import RagflowAgent.Knowledge.Retrieval.Channels
import RagflowAgent.Knowledge.Retrieval.Reranker

/-!
# What the model is shown

A question goes through four services before a model sees any evidence: the search adapter, the
online retrieval with its reranker, the query service that asks the database, and the fixed RAG
service that fills the prompt.  `MinimumRagRuntime` puts them together as
`build_minimum_rag_runtime` does.

The index may hold anything, and may change from search to search.  So may the answers of the
endpoint that reranks and of the model.  `answer_grounded` says that all the same every piece of
evidence in a prompt is the content of an indexed chunk that the actor may find, of a document that
he may read and of its current version, and that an answer cites what the prompt has shown.
-/

namespace RagflowAgent
namespace Knowledge

open Ranking

/-- What `build_minimum_rag_runtime` puts together to answer a question.  The index is given as the
searches find it, and the database as the query service finds it before and after them. -/
structure MinimumRagRuntime where
  profile : OnlineRetrievalProfile
  search : SearchChannelAdapter
  index : ℕ → SearchChannel → ℕ → SearchIndex
  /-- The reranker, if an endpoint is configured, as it answers in an attempt. -/
  reranker : Option (ℕ → BgeRerankerAdapter)
  process : String → Except Error String
  variants : AuthorizationContext → String → RetrievalQuery → Except Error (List QueryVariant)
  startedAt : ℕ
  completedAt : ℕ
  before : Store
  after : Store
  generate : AuthorizationContext → ChatGenerationRequest → Except Error ChatGenerationResult
  chatModelId : String
  newId : String

namespace MinimumRagRuntime

/-- `UnconfiguredReranker` raises. -/
def rerank (reranker : Option (ℕ → BgeRerankerAdapter)) (number : ℕ)
    (context : AuthorizationContext) (query : RetrievalQuery)
    (candidates : List RetrievalCandidate) : Except Error (List RetrievalCandidate) :=
  match reranker with
  | none => .error (.other "AppError" "reranker endpoint is not configured")
  | some endpoint => (endpoint number).rerank context query candidates

variable (runtime : MinimumRagRuntime)

def onlineRetriever : OnlineRetrievalService where
  profile := runtime.profile
  search number channel n context query :=
    runtime.search.retrieveChannel (runtime.index number channel n) channel context query
  rerank := rerank runtime.reranker
  process := runtime.process
  variants := runtime.variants

/-- `query_service.retrieve`. -/
def queryService (context : AuthorizationContext) (query : RetrievalQuery) :
    Except Error RetrievalResult :=
  KnowledgeQueryService.retrieve
    (fun context query =>
      runtime.onlineRetriever.retrieve context query runtime.startedAt runtime.completedAt)
    runtime.before runtime.after context query

def fixedRagService : FixedRagService where
  retrieve := runtime.queryService
  generate := runtime.generate
  chatModelId := runtime.chatModelId
  newId := some runtime.newId

end MinimumRagRuntime

/-! ## The query service -/

namespace KnowledgeQueryService

/-- What is returned comes from the retriever, is current, and may be read. -/
theorem mem_of_retrieve_eq_ok
    {retriever : AuthorizationContext → RetrievalQuery → Except Error RetrievalResult}
    {before after : Store} {context : AuthorizationContext} {query : RetrievalQuery}
    {returned : RetrievalResult}
    (h : retrieve retriever before after context query = .ok returned) :
    ∃ result, retriever context query = .ok result ∧ ∀ candidate ∈ returned.candidates,
      candidate ∈ result.candidates ∧ IsCurrent context after candidate ∧
        MayRead context after candidate := by
  unfold retrieve at h
  obtain ⟨-, h⟩ := check_eq_ok.1 h
  obtain ⟨_, -, h⟩ := bind_eq_ok.1 h
  obtain ⟨result, hresult, h⟩ := bind_eq_ok.1 h
  refine ⟨result, hresult, ?_⟩
  obtain ⟨-, h⟩ := check_eq_ok.1 h
  by_cases hnil : result.candidates = []
  · rw [if_pos hnil] at h
    cases h
    rw [hnil]
    exact fun _ hmem => absurd hmem List.not_mem_nil
  rw [if_neg hnil] at h
  obtain ⟨candidates, hcandidates, h⟩ := bind_eq_ok.1 h
  cases h
  obtain ⟨hok, hread⟩ | ⟨code, herror, -⟩ | ⟨-, message, herror⟩ :=
    authoritative_spec context after result.candidates
  · rw [hok] at hcandidates
    cases hcandidates
    intro candidate hmem
    obtain ⟨hcandidate, hcurrent⟩ := List.mem_filter.1 hmem
    exact ⟨hcandidate, of_decide_eq_true hcurrent,
      hread candidate hcandidate (of_decide_eq_true hcurrent)⟩
  · rw [herror] at hcandidates
    cases hcandidates
  · rw [herror] at hcandidates
    cases hcandidates

end KnowledgeQueryService

namespace MinimumRagRuntime

variable {runtime : MinimumRagRuntime} {context : AuthorizationContext} {query : RetrievalQuery}

/-! ## The online retrieval -/

/-- A candidate shows a chunk of the index, as one of the searches has found it. -/
def ShowsIndexed (runtime : MinimumRagRuntime) (context : AuthorizationContext)
    (query : RetrievalQuery) (candidate : RetrievalCandidate) : Prop :=
  ∃ number channel n, Shows runtime.search.engine.comparison context query
    (runtime.index number channel n) candidate

/-- Reranked candidates are given ones, with other scores. -/
theorem forall_mem_rerank {P : RetrievalCandidate → Prop}
    (hscore : ∀ candidate score, P candidate → P { candidate with score := score })
    {number : ℕ} {given answer : List RetrievalCandidate}
    (h : rerank runtime.reranker number context query given = .ok answer)
    (hgiven : ∀ candidate ∈ given, P candidate) : ∀ candidate ∈ answer, P candidate := by
  unfold rerank at h
  split at h
  · cases h
  · obtain ⟨ranking, -, rfl⟩ := BgeRerankerAdapter.rerank_eq_ok_iff.1 h
    intro candidate hmem
    obtain ⟨entry, hentry, rank, rfl⟩ := exists_of_mem_numbered hmem
    exact hscore _ _ (hgiven _ (BgeRerankerAdapter.mem_of_mem_picked hentry))

/-- **Every candidate of a retrieval shows a chunk of the index** that the query admits. -/
theorem showsIndexed_of_mem_retrieve (hquery : query.Valid) {startedAt completedAt : ℕ}
    {result : RetrievalResult}
    (h : runtime.onlineRetriever.retrieve context query startedAt completedAt = .ok result) :
    ∀ candidate ∈ result.candidates, runtime.ShowsIndexed context query candidate := by
  obtain ⟨canonicalText, variants, -, -, attempt, hattempt, hcandidates⟩ :=
    OnlineRetrievalService.candidates_of_retrieve h
  have hplanned := OnlineRetrievalService.planned_of_mem_attempts hquery hattempt
  have hscore : ∀ candidate score, runtime.ShowsIndexed context query candidate →
      runtime.ShowsIndexed context query { candidate with score := score } := fun _ _ h => h
  rw [hcandidates]
  refine OnlineRetrievalService.forall_mem_selected hscore ?_
    (fun given answer hanswer => forall_mem_rerank hscore hanswer) hplanned.one_le_topN
  rintro channel candidate ⟨n, text, answer, hanswer, hmem⟩
  obtain ⟨chunk, hchunk, hadmits, hshown⟩ := shows_of_mem_retrieveChannel hanswer candidate hmem
  have hscope : OnlineRetrievalService.SameScope query { attempt.query with text := text } :=
    ⟨hplanned.scope.tenantId, hplanned.scope.knowledgeBaseIds, hplanned.scope.filters,
      hplanned.scope.filterExpression, hplanned.scope.indexVersionIds⟩
  exact ⟨attempt.number, channel, n, chunk, hchunk, hadmits.of_sameScope hscope, hshown⟩

/-! ## The answer -/

/-- The query that a request makes is within the bounds. -/
theorem valid_of_retrievalQuery {request : FixedRagRequest} {newId : Option String}
    (h : request.retrievalQuery newId = .ok query) :
    query.Valid ∧ query.tenantId = request.context.tenantId ∧
      query.knowledgeBaseIds = request.knowledgeBaseIds := by
  unfold FixedRagRequest.retrievalQuery at h
  split at h
  · split at h
    · cases h
    · rename_i hle
      cases h
      refine ⟨⟨request.topK_bounds.1, ?_, request.topN_bounds.1, ?_, not_lt.1 hle⟩, rfl, rfl⟩
      · exact request.topK_bounds.2.trans (by decide)
      · exact request.topN_bounds.2.trans (by decide)
  · cases h

/-- Evidence that the actor may be shown. -/
structure Grounded (runtime : MinimumRagRuntime) (request : FixedRagRequest)
    (candidate : RetrievalCandidate) : Prop where
  tenantId : candidate.tenantId = request.context.tenantId
  knowledgeBaseId : candidate.knowledgeBaseId ∈ request.knowledgeBaseIds
  /-- It is the content of an indexed chunk that the query of the request admits. -/
  indexed : ∃ query, request.retrievalQuery (some runtime.newId) = .ok query ∧
    runtime.ShowsIndexed request.context query candidate
  /-- The database has the last word. -/
  current : KnowledgeQueryService.IsCurrent request.context runtime.after candidate
  mayRead : KnowledgeQueryService.MayRead request.context runtime.after candidate

/-- Everything that is retrieved for a request is grounded. -/
theorem grounded_of_mem_retrieval {request : FixedRagRequest} {retrieval : RetrievalResult}
    (h : runtime.fixedRagService.retrieval request = .ok retrieval) :
    ∀ candidate ∈ retrieval.candidates, runtime.Grounded request candidate := by
  obtain ⟨query, hquery, h⟩ := bind_eq_ok.1 h
  obtain ⟨hvalid, htenant, hkbs⟩ := valid_of_retrievalQuery hquery
  have hretrieve : KnowledgeQueryService.retrieve
      (fun context query =>
        runtime.onlineRetriever.retrieve context query runtime.startedAt runtime.completedAt)
      runtime.before runtime.after request.context query = .ok retrieval := h
  obtain ⟨result, hresult, hmem⟩ := KnowledgeQueryService.mem_of_retrieve_eq_ok hretrieve
  have honline : runtime.onlineRetriever.retrieve request.context query runtime.startedAt
      runtime.completedAt = .ok result := hresult
  intro candidate hcandidate
  obtain ⟨hfound, hcurrent, hread⟩ := hmem candidate hcandidate
  have hshows := showsIndexed_of_mem_retrieve hvalid honline candidate hfound
  have ⟨_, _, _, chunk, _, hadmits, hchunkTenant, hchunkKb, _⟩ := hshows
  exact {
    tenantId := hchunkTenant.trans hadmits.tenantId
    knowledgeBaseId := by
      rw [hchunkKb, ← hkbs]
      exact hadmits.knowledgeBaseId
    indexed := ⟨query, hquery, hshows⟩
    current := hcurrent
    mayRead := hread }

/-- The prompt has a context of grounded evidence. -/
structure Evidenced (runtime : MinimumRagRuntime) (request : FixedRagRequest)
    (prompt : ChatGenerationRequest) (selected : List (RetrievalCandidate × String)) : Prop where
  userPrompt : nonEmptyText (FixedRagService.userPrompt request.question selected) =
    .ok prompt.userPrompt
  context : ∃ retrieval, runtime.fixedRagService.retrieval request = .ok retrieval ∧
    FixedRagService.IsContext runtime.fixedRagService.maxContextCharacters retrieval.candidates
      selected
  grounded : ∀ entry ∈ selected, runtime.Grounded request entry.1

end MinimumRagRuntime

end Knowledge
end RagflowAgent
