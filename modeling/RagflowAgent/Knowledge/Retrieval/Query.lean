import RagflowAgent.Knowledge.SearchIndex

/-!
# Retrieval queries and results

The backend-neutral side of retrieval: what a query asks for, and what a retriever answers.

* `MetadataFilter` compares one metadata field with a value, and a `MetadataFilterGroup`
  combines filters with AND, OR and NOT.  Their validators are fields, so that an `in`
  filter has a tuple and a NOT has exactly one child wherever one is met;
* `RetrievalQuery` carries the filters and the limits, `RetrievalResult` the ranked candidates
  with their scores; `RetrievalQuery.Valid` and `RetrievalResult.Valid` are what their
  validators accept.

Floats are rationals.
-/

namespace RagflowAgent
namespace Knowledge

inductive FilterScalar where
  | str (value : String)
  | int (value : ℤ)
  | float (value : ℚ)
  | bool (value : Bool)
  deriving DecidableEq

inductive MetadataField where
  | documentId
  | documentVersionId
  | mediaType
  | language
  | createdAt
  | headingPath
  | containsTable
  | containsImage
  | chunkStrategyId
  deriving DecidableEq, Repr

def MetadataField.value : MetadataField → String
  | documentId => "document_id"
  | documentVersionId => "document_version_id"
  | mediaType => "media_type"
  | language => "language"
  | createdAt => "created_at"
  | headingPath => "heading_path"
  | containsTable => "contains_table"
  | containsImage => "contains_image"
  | chunkStrategyId => "chunk_strategy_id"

inductive FilterOperator where
  | equals
  | isIn
  | greaterThanOrEqual
  | lessThanOrEqual
  deriving DecidableEq, Repr

/-- `FilterScalar | tuple[FilterScalar, ...]`. -/
inductive FilterValue where
  | one (value : FilterScalar)
  | many (values : List FilterScalar)
  deriving DecidableEq

/-- `validate_operator_value`. -/
def FilterOperator.Accepts : FilterOperator → FilterValue → Prop
  | isIn, .many values => values ≠ []
  | isIn, .one _ => False
  | _, .one _ => True
  | _, .many _ => False

/-- Typed filter expression; adapters translate it to their own DSL. -/
structure MetadataFilter where
  field : MetadataField
  operator : FilterOperator
  value : FilterValue
  accepts : operator.Accepts value

inductive FilterGroupOperator where
  | and
  | or
  | not
  deriving DecidableEq, Repr

/-- An item of a filter group: a filter, or a group again. -/
inductive MetadataFilterItem where
  | filter (filter : MetadataFilter)
  | group (operator : FilterGroupOperator) (items : List MetadataFilterItem)

mutual

/-- `Field(min_length=1)` and `not_has_exactly_one_child`, at every group. -/
def MetadataFilterItem.Valid : MetadataFilterItem → Prop
  | .filter _ => True
  | .group operator items =>
    items ≠ [] ∧ (operator = .not → items.length = 1) ∧ MetadataFilterItem.AllValid items

def MetadataFilterItem.AllValid : List MetadataFilterItem → Prop
  | [] => True
  | item :: items => item.Valid ∧ MetadataFilterItem.AllValid items

end

/-- Recursive, validated metadata expression. -/
structure MetadataFilterGroup where
  operator : FilterGroupOperator
  items : List MetadataFilterItem
  valid : (MetadataFilterItem.group operator items).Valid

/-- Shared fixed-RAG and agent-tool query request. -/
structure RetrievalQuery where
  tenantId : String
  text : String
  knowledgeBaseIds : List String
  topK : ℕ := 100
  topN : ℕ := 10
  filters : List MetadataFilter := []
  filterExpression : Option MetadataFilterGroup := none
  inferredFilterExpression : Option MetadataFilterGroup := none
  indexVersionIds : List String := []
  traceId : String
  requestId : Option String := none
  knowledgeBaseIds_ne_nil : knowledgeBaseIds ≠ []
  knowledgeBaseIds_nodup : knowledgeBaseIds.Nodup

/-- The bounds of `top_k` and `top_n`, and `top_n_does_not_exceed_top_k`.  A query that is
built by `model_copy` has not been checked for them. -/
structure RetrievalQuery.Valid (query : RetrievalQuery) : Prop where
  one_le_topK : 1 ≤ query.topK
  topK_le : query.topK ≤ 10000
  one_le_topN : 1 ≤ query.topN
  topN_le : query.topN ≤ 1000
  topN_le_topK : query.topN ≤ query.topK

/-! ## Results -/

/-- Explainable scores without assuming backend score ranges. -/
structure ScoreBreakdown where
  finalScore : ℚ
  fullTextScore : Option ℚ := none
  vectorScore : Option ℚ := none
  fusionScore : Option ℚ := none
  rerankScore : Option ℚ := none
  fullTextRank : Option ℕ := none
  vectorRank : Option ℕ := none
  fusionRank : Option ℕ := none
  rerankRank : Option ℕ := none
  finalRank : Option ℕ := none
  deriving DecidableEq, Repr

/-- One ranked evidence item.  Its citation repeats the scope. -/
structure RetrievalCandidate where
  tenantId : String
  knowledgeBaseId : String
  documentId : String
  documentVersionId : String
  chunkId : String
  content : String
  score : ScoreBreakdown
  deriving DecidableEq, Repr

/-- One finite fallback attempt. -/
structure RetrievalFallbackStep where
  attempt : ℕ
  mode : String
  reason : String
  candidateTopK : ℕ
  threshold : ℚ
  inferredFilterRemoved : Bool := false
  resultCount : ℕ
  deriving DecidableEq, Repr

/-- Final retrieval state, intentionally separating no evidence and failure. -/
inductive RetrievalTraceStatus where
  | success
  | noEvidence
  | failed
  deriving DecidableEq, Repr

/-- What the result validator, the query service and the retriever's answer tell of a trace. -/
structure RetrievalTrace where
  traceId : String
  requestId : Option String := none
  tenantId : String
  originalQuery : Option String := none
  authorizationApplied : Bool
  fallbackSteps : List RetrievalFallbackStep := []
  status : RetrievalTraceStatus := .success
  errorCode : Option String := none
  deriving DecidableEq, Repr

inductive RetrievalEmptyReason where
  | noMatch
  | permissionFiltered
  | belowThreshold
  | noEvidence
  deriving DecidableEq, Repr

/-- Shared structured query outcome. -/
structure RetrievalResult where
  query : RetrievalQuery
  candidates : List RetrievalCandidate
  trace : RetrievalTrace
  emptyReason : Option RetrievalEmptyReason := none

/-- `validate_result_scope_and_empty_state`. -/
structure RetrievalResult.Valid (result : RetrievalResult) : Prop where
  traceId : result.trace.traceId = result.query.traceId
  traceTenantId : result.trace.tenantId = result.query.tenantId
  originalQuery : ∀ text ∈ result.trace.originalQuery, text = result.query.text
  requestId : ∀ requestId ∈ result.query.requestId, ∀ requestId' ∈ result.trace.requestId,
    requestId' = requestId
  emptyReason : result.emptyReason.isSome ↔ result.candidates = []
  tenantId : ∀ candidate ∈ result.candidates, candidate.tenantId = result.query.tenantId
  knowledgeBaseId : ∀ candidate ∈ result.candidates,
    candidate.knowledgeBaseId ∈ result.query.knowledgeBaseIds

end Knowledge
end RagflowAgent
