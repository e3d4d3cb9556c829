import RagflowAgent.Knowledge.Domain.Authorization
import RagflowAgent.Knowledge.Retrieval.Fusion
import Mathlib.Algebra.Order.Field.Rat
import Mathlib.Data.Finset.Dedup

/-!
# Online retrieval

`OnlineRetrievalService.retrieve` tries a finite list of attempts.  An attempt asks the two
search channels for every variant of the query, fuses what they answer, lets the reranker
reorder a window of it, and selects; the first attempt that selects something is returned.

* `collectChannel`, `rerankWithFallback` and `cleanCandidates` are the stages of an attempt,
  `runAttempt` is the attempt;
* `fallbackAttempts` derives the attempts after the first one from the query and the profile;
* `OnlineRetrievalService.retrieve` is the loop over the attempts.

The search port, the reranker, the preprocessor and the builder of variants are parameters.
The search port and the reranker are told the number of the attempt, and the search port the
number of the variant too, so that they may answer the same question differently.
-/

namespace RagflowAgent
namespace Knowledge

open Ranking

/-- A query variation that never carries authorization state. -/
structure QueryVariant where
  text : String
  deriving DecidableEq, Repr

/-- Frozen algorithm and budget profile for one deployment, with `validate_windows`. -/
structure OnlineRetrievalProfile where
  rrfK : ℕ := 60
  candidateTopK : ℕ := 100
  rerankCandidateCount : ℕ := 30
  finalTopK : ℕ := 10
  fusionThreshold : ℚ := 0
  fallbackThresholdFloor : ℚ := 0
  maxFallbackAttempts : ℕ := 4
  fallbackCandidateMultiplier : ℕ := 2
  perDocumentLimit : ℕ := 4
  one_le_rrfK : 1 ≤ rrfK := by decide
  candidateTopK_le : candidateTopK ≤ 10000 := by decide
  one_le_finalTopK : 1 ≤ finalTopK := by decide
  fallbackThresholdFloor_nonneg : 0 ≤ fallbackThresholdFloor := by decide
  maxFallbackAttempts_le : maxFallbackAttempts ≤ 4 := by decide
  one_le_multiplier : 1 ≤ fallbackCandidateMultiplier := by decide
  multiplier_le : fallbackCandidateMultiplier ≤ 10 := by decide
  one_le_perDocumentLimit : 1 ≤ perDocumentLimit := by decide
  finalTopK_le : finalTopK ≤ rerankCandidateCount := by decide
  rerankCandidateCount_le : rerankCandidateCount ≤ candidateTopK := by decide
  fallbackThresholdFloor_le : fallbackThresholdFloor ≤ fusionThreshold := by decide

/-! ## One channel -/

instance : Keyed String RetrievalCandidate := ⟨RetrievalCandidate.chunkId⟩

/-- `_channel_score`. -/
def channelScore (channel : SearchChannel) (candidate : RetrievalCandidate) : ℚ :=
  match channel with
  | .fullText => candidate.score.fullTextScore.getD 0
  | .vector => candidate.score.vectorScore.getD 0

/-- Of the candidates with one chunk id the first of the best ones is kept. -/
def mergeCandidate (channel : SearchChannel) (merged : Table RetrievalCandidate)
    (candidate : RetrievalCandidate) : Table RetrievalCandidate :=
  match merged.get candidate.chunkId with
  | none => merged.upsert candidate
  | some existing =>
    if channelScore channel existing < channelScore channel candidate then merged.upsert candidate
    else merged

/-- `(-self._channel_score(item, channel), item.chunk_id)`. -/
def channelKey (channel : SearchChannel) (candidate : RetrievalCandidate) : ℚ ×ₗ String :=
  toLex (-channelScore channel candidate, candidate.chunkId)

/-- The loop over the variants, with the number of the next one. -/
def mergeVariants (search : ℕ → RetrievalQuery → Except Error (List RetrievalCandidate))
    (channel : SearchChannel) (query : RetrievalQuery) :
    ℕ → List QueryVariant → Table RetrievalCandidate → Except Error (Table RetrievalCandidate)
  | _, [], merged => .ok merged
  | n, variant :: variants, merged => do
    let candidates ← search n { query with text := variant.text }
    mergeVariants search channel query (n + 1) variants
      (candidates.foldl (mergeCandidate channel) merged)

/-- `_collect_channel`. -/
def collectChannel (search : ℕ → RetrievalQuery → Except Error (List RetrievalCandidate))
    (channel : SearchChannel) (query : RetrievalQuery) (variants : List QueryVariant) :
    Except Error (List RetrievalCandidate) := do
  let merged ← mergeVariants search channel query 0 variants .empty
  return (sortedBy (channelKey channel) merged.rows).take query.topK

/-! ## Reranking -/

structure RerankOutcome where
  candidates : List RetrievalCandidate
  applied : Bool
  fallbackReason : Option String := none

/-- The score of a candidate the reranker has returned. -/
def rerankedScore (candidate : RetrievalCandidate) : ℚ :=
  candidate.score.rerankScore.getD candidate.score.finalScore

def withRerankRank (candidate : RetrievalCandidate) (rank : ℕ) : RetrievalCandidate :=
  { candidate with
    score := { candidate.score with
      rerankRank := some rank
      finalScore := rerankedScore candidate } }

def chunkIds (candidates : List RetrievalCandidate) : Finset String :=
  (candidates.map (·.chunkId)).toFinset

/-- `rerank_with_fallback`.  A reranker that takes too long raises `TimeoutError`. -/
def rerankWithFallback
    (rerank : List RetrievalCandidate → Except Error (List RetrievalCandidate))
    (candidates : List RetrievalCandidate) : RerankOutcome :=
  if candidates = [] then ⟨[], false, none⟩
  else
    match rerank candidates with
    | .ok reranked =>
      if chunkIds candidates ≠ chunkIds reranked ∨ reranked.length ≠ candidates.length then
        ⟨candidates, false, some "reranker_error:ValueError"⟩
      else ⟨numbered withRerankRank reranked, true, none⟩
    | .error (.timeout _ _) => ⟨candidates, false, some "reranker_timeout"⟩
    | .error error => ⟨candidates, false, some ("reranker_error:" ++ error.typeName)⟩

/-! ## Selection -/

structure CleanResult where
  candidates : List RetrievalCandidate
  excluded : List (RetrievalCandidate × String)

/-- The variables of the loop of `clean_candidates`. -/
structure CleanState where
  kept : List RetrievalCandidate := []
  excluded : List (RetrievalCandidate × String) := []
  documentCounts : String → ℕ := fun _ => 0
  seen : List String := []

def withFinalRank (candidate : RetrievalCandidate) (rank : ℕ) : RetrievalCandidate :=
  { candidate with score := { candidate.score with finalRank := some rank } }

namespace CleanState

def see (state : CleanState) (candidate : RetrievalCandidate) : CleanState :=
  { state with seen := candidate.chunkId :: state.seen }

def exclude (state : CleanState) (candidate : RetrievalCandidate) (reason : String) :
    CleanState :=
  { state with excluded := state.excluded ++ [(candidate, reason)] }

def keep (state : CleanState) (candidate : RetrievalCandidate) : CleanState :=
  { state with
    documentCounts := Function.update state.documentCounts candidate.documentId
      (state.documentCounts candidate.documentId + 1)
    kept := state.kept ++ [withFinalRank candidate (state.kept.length + 1)] }

end CleanState

/-- The loop of `clean_candidates`. -/
def cleanLoop (threshold : ℚ) (perDocumentLimit finalTopK : ℕ) :
    List RetrievalCandidate → CleanState → CleanState
  | [], state => state
  | candidate :: candidates, state =>
    if candidate.chunkId ∈ state.seen then
      cleanLoop threshold perDocumentLimit finalTopK candidates
        (state.exclude candidate "duplicate_chunk")
    else if candidate.score.finalScore < threshold then
      cleanLoop threshold perDocumentLimit finalTopK candidates
        ((state.see candidate).exclude candidate "below_threshold")
    else if perDocumentLimit ≤ state.documentCounts candidate.documentId then
      cleanLoop threshold perDocumentLimit finalTopK candidates
        ((state.see candidate).exclude candidate "per_document_limit")
    else if finalTopK ≤ state.kept.length + 1 then (state.see candidate).keep candidate
    else
      cleanLoop threshold perDocumentLimit finalTopK candidates
        ((state.see candidate).keep candidate)

/-- Apply soft relevance and diversity limits without touching hard scope. -/
def cleanCandidates (candidates : List RetrievalCandidate) (threshold : ℚ)
    (perDocumentLimit finalTopK : ℕ) : CleanResult :=
  let state := cleanLoop threshold perDocumentLimit finalTopK candidates {}
  ⟨state.kept, state.excluded⟩

/-! ## Attempts -/

/-- The modes of the attempts. -/
inductive RetrievalMode where
  | hybrid
  | expandedHybrid
  | softFilterRemoved
  | fullTextOnly
  | vectorOnly
  deriving DecidableEq, Repr

def RetrievalMode.value : RetrievalMode → String
  | hybrid => "hybrid"
  | expandedHybrid => "expanded_hybrid"
  | softFilterRemoved => "soft_filter_removed"
  | fullTextOnly => "full_text_only"
  | vectorOnly => "vector_only"

def RetrievalMode.expectedChannels (mode : RetrievalMode) : ℕ :=
  if mode = .fullTextOnly ∨ mode = .vectorOnly then 1 else 2

structure RetrievalAttempt where
  number : ℕ
  mode : RetrievalMode
  query : RetrievalQuery
  threshold : ℚ
  inferredFilterRemoved : Bool

/-- The copy of the query for one row of `definitions`. -/
def fallbackAttempt (query : RetrievalQuery)
    (definition : RetrievalMode × ℕ × ℚ × Bool) (number : ℕ) : RetrievalAttempt where
  number := number
  mode := definition.1
  query :=
    { query with
      topK := definition.2.1
      inferredFilterExpression :=
        if definition.2.2.2 then none else query.inferredFilterExpression }
  threshold := definition.2.2.1
  inferredFilterRemoved := definition.2.2.2

/-- Build a finite sequence while preserving tenant/scope/user filters verbatim. -/
def fallbackAttempts (query : RetrievalQuery) (normalThreshold thresholdFloor : ℚ)
    (candidateMultiplier maximumAttempts : ℕ) : List RetrievalAttempt :=
  let expandedTopK := min 10000 (query.topK * candidateMultiplier)
  let lowered := max thresholdFloor ((normalThreshold + thresholdFloor) / 2)
  let definitions :=
    [(RetrievalMode.expandedHybrid, expandedTopK, lowered, false),
      (RetrievalMode.softFilterRemoved, expandedTopK, thresholdFloor, true),
      (RetrievalMode.fullTextOnly, expandedTopK, thresholdFloor, true),
      (RetrievalMode.vectorOnly, expandedTopK, thresholdFloor, true)]
  numbered (fallbackAttempt query) (definitions.take maximumAttempts)

/-- `_AttemptOutcome`. -/
structure AttemptOutcome where
  selected : List RetrievalCandidate
  fused : List RetrievalCandidate
  reranked : List RetrievalCandidate
  clean : CleanResult
  errors : List String
  rerankerApplied : Bool
  rerankerFallback : Option String

/-- The service with its ports. -/
structure OnlineRetrievalService where
  profile : OnlineRetrievalProfile
  search : ℕ → SearchChannel → ℕ → AuthorizationContext → RetrievalQuery →
    Except Error (List RetrievalCandidate)
  rerank : ℕ → AuthorizationContext → RetrievalQuery → List RetrievalCandidate →
    Except Error (List RetrievalCandidate)
  process : String → Except Error String
  variants : AuthorizationContext → String → RetrievalQuery → Except Error (List QueryVariant)

namespace OnlineRetrievalService

variable (service : OnlineRetrievalService)

/-- What a channel of an attempt yields: its candidates, and the error it is noted with. -/
def runChannel (context : AuthorizationContext) (attempt : RetrievalAttempt)
    (variants : List QueryVariant) (skipped : RetrievalMode) (channel : SearchChannel) :
    List RetrievalCandidate × List String :=
  if attempt.mode = skipped then ([], [])
  else
    match collectChannel (fun n => service.search attempt.number channel n context) channel
        attempt.query variants with
    | .ok candidates => (candidates, [])
    | .error error => ([], [channel.value ++ ":" ++ error.typeName])

/-- `_run_attempt`. -/
def runAttempt (context : AuthorizationContext) (attempt : RetrievalAttempt)
    (variants : List QueryVariant) : AttemptOutcome :=
  let text := service.runChannel context attempt variants .vectorOnly .fullText
  let vector := service.runChannel context attempt variants .fullTextOnly .vector
  let errors := text.2 ++ vector.2
  if errors.length = attempt.mode.expectedChannels then ⟨[], [], [], ⟨[], []⟩, errors, false, none⟩
  else
    let fused := reciprocalRankFusion text.1 vector.1 service.profile.rrfK
    let rerankWindow := fused.take (min fused.length service.profile.rerankCandidateCount)
    let rerank := rerankWithFallback (service.rerank attempt.number context attempt.query)
      rerankWindow
    let clean := cleanCandidates rerank.candidates attempt.threshold
      service.profile.perDocumentLimit attempt.query.topN
    ⟨clean.candidates, fused, rerank.candidates, clean, errors, rerank.applied,
      rerank.fallbackReason⟩

/-! ## The service -/

/-- The query of the first attempt. -/
def effectiveQuery (context : AuthorizationContext) (query : RetrievalQuery)
    (canonicalText : String) : RetrievalQuery :=
  { query with
    text := canonicalText
    topK := min query.topK service.profile.candidateTopK
    topN := min query.topN service.profile.finalTopK
    requestId := some (query.requestId.getD context.requestId) }

/-- All attempts that are planned. -/
def attempts (effectiveQuery : RetrievalQuery) : List RetrievalAttempt :=
  { number := 0
    mode := .hybrid
    query := effectiveQuery
    threshold := service.profile.fusionThreshold
    inferredFilterRemoved := false } ::
  fallbackAttempts effectiveQuery service.profile.fusionThreshold
    service.profile.fallbackThresholdFloor service.profile.fallbackCandidateMultiplier
    service.profile.maxFallbackAttempts

end OnlineRetrievalService

/-- `KnowledgeRetrievalError`: this must never be reported as no evidence. -/
def Error.knowledgeRetrieval : Error :=
  .other "KnowledgeRetrievalError" "knowledge retrieval dependency failed"

def retrievalFallbackStep (attempt : RetrievalAttempt) (outcome : AttemptOutcome) :
    RetrievalFallbackStep where
  attempt := attempt.number
  mode := attempt.mode.value
  reason := if outcome.selected ≠ [] then "recovered_evidence" else "no_candidates_after_selection"
  candidateTopK := attempt.query.topK
  threshold := attempt.threshold
  inferredFilterRemoved := attempt.inferredFilterRemoved
  resultCount := outcome.selected.length

/-- The scope checks of `validate_result_scope_and_empty_state`. -/
def RetrievalResult.validateScope (result : RetrievalResult) :
    List RetrievalCandidate → Except Error RetrievalResult
  | [] => .ok result
  | candidate :: candidates =>
    if candidate.tenantId ≠ result.query.tenantId then
      .error (.validation "candidate tenant must match query tenant")
    else if candidate.knowledgeBaseId ∉ result.query.knowledgeBaseIds then
      .error (.validation "candidate knowledge base was not requested")
    else result.validateScope candidates

/-- `validate_result_scope_and_empty_state`. -/
def RetrievalResult.validate (result : RetrievalResult) : Except Error RetrievalResult :=
  if result.trace.traceId ≠ result.query.traceId then
    .error (.validation "query and trace identifiers must match")
  else if result.trace.tenantId ≠ result.query.tenantId then
    .error (.validation "query and trace tenant must match")
  else if ∃ text ∈ result.trace.originalQuery, text ≠ result.query.text then
    .error (.validation "trace original_query must match query text")
  else if ∃ requestId ∈ result.query.requestId, ∃ requestId' ∈ result.trace.requestId,
      requestId' ≠ requestId then
    .error (.validation "query and trace request identifiers must match")
  else if result.candidates ≠ [] ∧ result.emptyReason ≠ none then
    .error (.validation "non-empty results cannot have empty_reason")
  else if result.candidates = [] ∧ result.emptyReason = none then
    .error (.validation "empty results require empty_reason")
  else result.validateScope result.candidates

namespace OnlineRetrievalService

variable (service : OnlineRetrievalService)

/-- The fields of a trace that the model keeps. -/
def traceOf (context : AuthorizationContext) (originalQuery effectiveQuery : RetrievalQuery)
    (fallbacks : List RetrievalFallbackStep) (status : RetrievalTraceStatus)
    (errorCode : Option String) : RetrievalTrace where
  traceId := originalQuery.traceId
  requestId := effectiveQuery.requestId
  tenantId := context.tenantId
  originalQuery := some originalQuery.text
  authorizationApplied := true
  fallbackSteps := fallbacks
  status := status
  errorCode := errorCode

/-- `_build_trace`.  The trace is complete at the second reading of the clock. -/
def buildTrace (context : AuthorizationContext) (originalQuery effectiveQuery : RetrievalQuery)
    (fallbacks : List RetrievalFallbackStep) (startedAt completedAt : ℕ)
    (status : RetrievalTraceStatus) (errorCode : Option String := none) :
    Except Error RetrievalTrace :=
  if completedAt < startedAt then
    .error (.validation "retrieval trace completion cannot precede start")
  else .ok (traceOf context originalQuery effectiveQuery fallbacks status errorCode)

/-- The loop over the attempts. -/
def attemptLoop (context : AuthorizationContext) (query effectiveQuery : RetrievalQuery)
    (variants : List QueryVariant) (startedAt completedAt : ℕ) :
    List RetrievalAttempt → List RetrievalFallbackStep → Except Error RetrievalResult
  | [], fallbacks => do
    let trace ← buildTrace context query effectiveQuery fallbacks startedAt completedAt .noEvidence
    RetrievalResult.validate
      { query := query, candidates := [], trace := trace, emptyReason := some .noEvidence }
  | attempt :: attempts, fallbacks =>
    let outcome := service.runAttempt context attempt variants
    let fallbacks :=
      if 0 < attempt.number then fallbacks ++ [retrievalFallbackStep attempt outcome]
      else fallbacks
    if outcome.selected ≠ [] then do
      let trace ← buildTrace context query effectiveQuery fallbacks startedAt completedAt .success
      RetrievalResult.validate
        { query := query, candidates := outcome.selected, trace := trace }
    else if outcome.errors ≠ [] then do
      let _ ← buildTrace context query effectiveQuery fallbacks startedAt completedAt .failed
        (some "retrieval_dependency_failed")
      throw .knowledgeRetrieval
    else
      attemptLoop context query effectiveQuery variants startedAt completedAt attempts fallbacks

/-- `retrieve`, with the two readings of the clock. -/
def retrieve (context : AuthorizationContext) (query : RetrievalQuery)
    (startedAt completedAt : ℕ) : Except Error RetrievalResult := do
  if context.tenantId ≠ query.tenantId then throw (.authorization "tenant_mismatch")
  let canonicalText ← service.process query.text
  let variants ← service.variants context canonicalText query
  let effective := service.effectiveQuery context query canonicalText
  service.attemptLoop context query effective variants startedAt completedAt
    (service.attempts effective) []

end OnlineRetrievalService

end Knowledge
end RagflowAgent
