import RagflowAgent.Knowledge.Retrieval.Attempts
import RagflowAgent.Knowledge.Retrieval.Filters

/-!
# The search channels

`ElasticsearchSearchAdapter` answers both channels of a retrieval from the index: it searches with
the clauses of `filters` and makes a candidate of every hit.

* `SearchEngine` is the engine, which answers with stored chunks that satisfy the filter of the
  search;
* `Admits` is what the clauses say about a chunk, and `admits_of_matches` reads them;
* `forall_mem_selected` carries a property of what the channels answer through fusion, reranking
  and selection, if scores do not matter to it.
-/

namespace RagflowAgent
namespace Knowledge

open Ranking Search

/-! ## The engine -/

/-- `_SearchHit`: the source of a chunk, with its score or zero. -/
structure SearchHit where
  chunk : IndexedChunk
  score : ℚ

/-- What is searched for: a text, or the neighbours of a vector. -/
inductive SearchTarget where
  | fullText (text : String)
  | knn (queryVector : List ℚ) (k numCandidates : ℕ)

structure SearchRequest where
  target : SearchTarget
  filter : List (Clause FilterScalar)
  size : ℕ

/-- The engine: it answers with chunks of the index that match all clauses of the filter. -/
structure SearchEngine where
  comparison : FieldComparison
  search : SearchIndex → SearchRequest → Except Error (List SearchHit)
  filtered : ∀ {index request answer}, search index request = .ok answer → ∀ hit ∈ answer,
    hit.chunk ∈ index.chunks ∧
      ∀ clause ∈ request.filter, clause.Matches comparison.toComparison hit.chunk.values

/-- The search adapter as a `SearchChannelPort`, with the embedding of a query text. -/
structure SearchChannelAdapter where
  engine : SearchEngine
  embed : AuthorizationContext → RetrievalQuery → Except Error (List ℚ)

namespace SearchChannelAdapter

variable (adapter : SearchChannelAdapter)

/-- `_candidate`, for a hit of a channel with its rank. -/
def candidate (channel : SearchChannel) (hit : SearchHit) (rank : ℕ) : RetrievalCandidate where
  tenantId := hit.chunk.tenantId
  knowledgeBaseId := hit.chunk.knowledgeBaseId
  documentId := hit.chunk.documentId
  documentVersionId := hit.chunk.documentVersionId
  chunkId := hit.chunk.chunkId
  content := hit.chunk.content
  score :=
    match channel with
    | .fullText =>
      { finalScore := hit.score, fullTextScore := some hit.score, fullTextRank := some rank }
    | .vector =>
      { finalScore := hit.score, vectorScore := some hit.score, vectorRank := some rank }

/-- `_full_text_hits` and `_vector_hits`. -/
def hits (index : SearchIndex) (channel : SearchChannel) (context : AuthorizationContext)
    (query : RetrievalQuery) : Except Error (List SearchHit) :=
  match channel with
  | .fullText => adapter.engine.search index {
      target := .fullText query.text
      filter := filters context query
      size := query.topK }
  | .vector => do
    let queryVector ← adapter.embed context query
    adapter.engine.search index {
      target := .knn queryVector query.topK (max query.topK (min (query.topK * 4) 10000))
      filter := filters context query
      size := query.topK }

/-- `retrieve_full_text` and `retrieve_vector`. -/
def retrieveChannel (index : SearchIndex) (channel : SearchChannel)
    (context : AuthorizationContext) (query : RetrievalQuery) :
    Except Error (List RetrievalCandidate) := do
  let hits ← adapter.hits index channel context query
  return numbered (candidate channel) (hits.take query.topK)

end SearchChannelAdapter

/-! ## What the clauses say -/

/-- A chunk that a search of the actor may find, whatever is inferred from the query. -/
structure Admits (cmp : FieldComparison) (context : AuthorizationContext) (query : RetrievalQuery)
    (chunk : IndexedChunk) : Prop where
  tenantId : chunk.tenantId = context.tenantId
  knowledgeBaseId : chunk.knowledgeBaseId ∈ query.knowledgeBaseIds
  active : chunk.active = true
  enabled : chunk.documentEnabled = true
  not_deleted : chunk.documentDeleted = false
  readable : context.actorId = chunk.ownerId ∨ chunk.visibility = .tenant ∨
    context.actorId ∈ chunk.allowedActorIds ∨ ∃ role ∈ context.roles, role ∈ chunk.allowedRoles
  indexVersionId : query.indexVersionIds ≠ [] → chunk.indexVersionId ∈ query.indexVersionIds
  filters : ∀ item ∈ query.filters, item.Holds cmp chunk
  filterExpression : ∀ group ∈ query.filterExpression, group.Holds cmp chunk

section Admits

variable {cmp : FieldComparison} {context : AuthorizationContext} {query : RetrievalQuery}
  {chunk : IndexedChunk}

/-- The clause on readers, for chunks that may name actors and roles. -/
theorem readable_of_matches (h : (readableClause context).Matches cmp.toComparison chunk.values) :
    context.actorId = chunk.ownerId ∨ chunk.visibility = .tenant ∨
      context.actorId ∈ chunk.allowedActorIds ∨
        ∃ role ∈ context.roles, role ∈ chunk.allowedRoles := by
  rw [readableClause, Clause.matches_should] at h
  obtain ⟨clause, hclause, hmatches⟩ := h
  simp only [List.cons_append, List.nil_append, List.mem_cons] at hclause
  rcases hclause with rfl | rfl | rfl | hclause
  · have howner : chunk.ownerId = context.actorId := (matches_term_str rfl).1 hmatches
    exact .inl howner.symm
  · refine .inr (.inl ?_)
    have hvalue : chunk.visibility.value = Visibility.tenant.value :=
      (matches_term_str rfl).1 hmatches
    revert hvalue
    cases chunk.visibility <;> decide
  · refine .inr (.inr (.inl ?_))
    simpa [IndexedChunk.values, cmp.term_str] using hmatches
  · refine .inr (.inr (.inr ?_))
    split at hclause
    · cases hclause
    · rw [List.mem_singleton] at hclause
      subst hclause
      obtain ⟨role, hrole, role', hrole', heq⟩ :
          ∃ role ∈ chunk.allowedRoles, ∃ role' ∈ context.roles, role = role' := by
        simpa [IndexedChunk.values, cmp.term_str] using hmatches
      exact ⟨role', hrole', heq ▸ hrole⟩

/-- **What a search finds is admitted.** -/
theorem admits_of_matches (h : ∀ clause ∈ filters context query,
    clause.Matches cmp.toComparison chunk.values) : Admits cmp context query chunk := by
  rw [filters, List.forall_mem_append, List.forall_mem_append, List.forall_mem_append,
    List.forall_mem_append, matches_indexVersions, List.forall_mem_map, List.forall_mem_map] at h
  obtain ⟨⟨⟨⟨haccess, hversions⟩, hfilters⟩, hexpression⟩, -⟩ := h
  simp only [accessClauses, List.forall_mem_cons, Clause.matches_mustNot] at haccess
  obtain ⟨htenant, hkb, hactive, henabled, hdeleted, hreadable, -⟩ := haccess
  exact {
    tenantId := (matches_term_str rfl).1 htenant
    knowledgeBaseId := (matches_terms_str rfl).1 hkb
    active := (matches_term_bool rfl).1 hactive
    enabled := matches_enabledClause.1 henabled
    not_deleted := Bool.eq_false_iff.2 fun heq => hdeleted.1 ((matches_term_bool rfl).2 heq)
    readable := readable_of_matches hreadable
    indexVersionId := hversions
    filters := fun item hitem => (matches_metadataFilter item).1 (hfilters item hitem)
    filterExpression := fun group hgroup =>
      (matches_metadataFilterGroup group).1 (hexpression group (Option.mem_toList.2 hgroup)) }

/-- The copies of a query that the attempts search with admit no more than the query. -/
theorem Admits.of_sameScope {query' : RetrievalQuery}
    (hscope : OnlineRetrievalService.SameScope query query') (h : Admits cmp context query' chunk) :
    Admits cmp context query chunk where
  tenantId := h.tenantId
  knowledgeBaseId := hscope.knowledgeBaseIds ▸ h.knowledgeBaseId
  active := h.active
  enabled := h.enabled
  not_deleted := h.not_deleted
  readable := h.readable
  indexVersionId := hscope.indexVersionIds ▸ h.indexVersionId
  filters := hscope.filters ▸ h.filters
  filterExpression := hscope.filterExpression ▸ h.filterExpression

end Admits

/-! ## From the channels to the selection -/

/-- A candidate shows a chunk of the index that the query admits. -/
def Shows (cmp : FieldComparison) (context : AuthorizationContext) (query : RetrievalQuery)
    (index : SearchIndex) (candidate : RetrievalCandidate) : Prop :=
  ∃ chunk ∈ index.chunks, Admits cmp context query chunk ∧
    candidate.tenantId = chunk.tenantId ∧ candidate.knowledgeBaseId = chunk.knowledgeBaseId ∧
    candidate.documentId = chunk.documentId ∧
    candidate.documentVersionId = chunk.documentVersionId ∧
    candidate.chunkId = chunk.chunkId ∧ candidate.content = chunk.content

/-- **A channel shows what is in the index.** -/
theorem shows_of_mem_retrieveChannel {adapter : SearchChannelAdapter} {index : SearchIndex}
    {channel : SearchChannel} {context : AuthorizationContext} {query : RetrievalQuery}
    {answer : List RetrievalCandidate}
    (h : adapter.retrieveChannel index channel context query = .ok answer) :
    ∀ candidate ∈ answer, Shows adapter.engine.comparison context query index candidate := by
  obtain ⟨hits, hhits, h⟩ := bind_eq_ok.1 h
  cases h
  have hsearch : ∃ target size, adapter.engine.search index
      { target := target, filter := filters context query, size := size } = .ok hits := by
    cases channel with
    | fullText => exact ⟨_, _, hhits⟩
    | vector =>
      obtain ⟨vector, -, hhits⟩ := bind_eq_ok.1 hhits
      exact ⟨_, _, hhits⟩
  obtain ⟨target, size, hanswer⟩ := hsearch
  intro candidate hcandidate
  obtain ⟨hit, hhit, rank, rfl⟩ := exists_of_mem_numbered hcandidate
  obtain ⟨hstored, hmatches⟩ := adapter.engine.filtered hanswer hit (List.mem_of_mem_take hhit)
  exact ⟨hit.chunk, hstored, admits_of_matches hmatches, rfl, rfl, rfl, rfl, rfl, rfl⟩

namespace OnlineRetrievalService

variable {service : OnlineRetrievalService} {context : AuthorizationContext}
  {attempt : RetrievalAttempt} {variants : List QueryVariant} {P : RetrievalCandidate → Prop}

/-- **What the channels answer is what is selected.**  A property that does not look at scores
passes from the answers of the channels to the selection, if the reranker keeps it. -/
theorem forall_mem_selected (hscore : ∀ candidate score, P candidate →
      P { candidate with score := score })
    (hsearch : ∀ channel candidate,
      Answers (fun n => service.search attempt.number channel n context) attempt.query candidate →
        P candidate)
    (hrerank : ∀ given answer,
      service.rerank attempt.number context attempt.query given = .ok answer →
        (∀ candidate ∈ given, P candidate) → ∀ candidate ∈ answer, P candidate)
    (htopN : 1 ≤ attempt.query.topN) :
    ∀ candidate ∈ (service.runAttempt context attempt variants).selected, P candidate := by
  have hwindow : ∀ candidate ∈ service.windowOf context attempt variants, P candidate := by
    intro candidate hmem
    obtain ⟨found, score, hfound, rfl⟩ := exists_of_mem_reciprocalRankFusion
      (runChannel_nodup _ _) (runChannel_nodup _ _) (List.mem_of_mem_take hmem)
    refine hscore found score ?_
    rcases hfound with hfound | hfound
    · exact hsearch _ _ (answers_of_mem_runChannel hfound)
    · exact hsearch _ _ (answers_of_mem_runChannel hfound)
  have hreranked : ∀ candidate ∈ (service.runAttempt context attempt variants).reranked,
      P candidate := by
    rcases runAttempt_cases service context attempt variants with ⟨-, hnil⟩ | ⟨heq, -, -⟩
    · rw [hnil]
      exact fun _ h => absurd h List.not_mem_nil
    rw [heq]
    rcases rerankWithFallback_cases (service.rerank attempt.number context attempt.query)
        (service.windowOf context attempt variants) with
      ⟨hcandidates, -⟩ | ⟨answer, hanswer, -, -, houtcome⟩
    · rw [hcandidates]
      exact hwindow
    · rw [houtcome]
      intro candidate hmem
      obtain ⟨answered, hanswered, rank, rfl⟩ := exists_of_mem_numbered hmem
      exact hscore _ _ (hrerank _ _ hanswer hwindow answered hanswered)
  intro candidate hmem
  obtain ⟨selection, hsublist, -, hselected⟩ :=
    selected_runAttempt service context attempt variants htopN
  rw [hselected] at hmem
  obtain ⟨chosen, hchosen, rank, rfl⟩ := exists_of_mem_numbered hmem
  exact hscore _ _ (hreranked chosen (hsublist.subset hchosen))

end OnlineRetrievalService

end Knowledge
end RagflowAgent
