import RagflowAgent.Agent.Application.ToolPolicy
import RagflowAgent.Knowledge.Domain.Authorization

/-!
# The knowledge base as a tool

`KnowledgeBaseTool` hands a question to the retrieval of the knowledge services and gives
back what it found as a JSON value.  Tenant and actor are those of the caller's context.

* `KnowledgeBaseTool.output` is the value for a result of the retrieval;
* `evidenceRefs` reads off a value of that form which version of which document each evidence
  item comes from;
* redaction does not touch ids as they are generated, so the references are the same after it.
-/

namespace RagflowAgent
namespace Agent

/-! ## The tool -/

/-- A candidate of the retrieval, as far as the tool reads it.  The citation is given as it is
dumped. -/
structure RetrievalCandidate where
  knowledgeBaseId : String
  documentId : String
  documentVersionId : String
  chunkId : String
  content : String
  finalRank : Option ℕ := none
  citation : Json := .null

structure RetrievalResult where
  candidates : List RetrievalCandidate
  traceId : String
  emptyReason : Option String := none

/-- `_knowledge_context`. -/
def knowledgeContext (context : ToolAuthorizationContext) : Knowledge.AuthorizationContext where
  tenantId := context.tenantId
  actorId := context.actorId
  requestId := context.requestId
  roles := context.roles

namespace KnowledgeBaseTool

/-- A property of a schema that asks for a type. -/
def typed (name type : String) : String × Json := (name, .dict [("type", .str type)])

theorem approvalRoles_explicit : false = true → ([] : List String) ≠ [] := nofun

theorem idempotent_of_effect : ToolEffect.readOnly = .sideEffecting → true = true := fun _ => rfl

/-- The schemas are those of `KnowledgeBaseToolInput` and `KnowledgeBaseToolOutput`, as far as
the schema check reads them. -/
def registration : ToolRegistration where
  toolName := "knowledge_base"
  version := "1"
  inputSchema := [
    ("additionalProperties", .bool false),
    ("properties", .dict [typed "query" "string", typed "knowledge_base_ids" "array",
      typed "top_k" "integer", typed "top_n" "integer"]),
    ("required", .list [.str "query", .str "knowledge_base_ids"]),
    ("type", .str "object")]
  outputSchema := [
    ("additionalProperties", .bool false),
    ("properties", .dict [typed "evidence" "array", typed "citations" "array",
      typed "retrieval_trace_id" "string", ("empty_reason", .dict [("default", .null)])]),
    ("required", .list [.str "evidence", .str "citations", .str "retrieval_trace_id"]),
    ("type", .str "object")]
  effect := .readOnly
  riskLevel := .low
  maxRetries := 1
  maxOutputBytes := 1000000
  idempotent := true
  requiresHitl := false
  approvalRoles_explicit := approvalRoles_explicit
  idempotent_of_effect := idempotent_of_effect

/-- `candidate.score.final_rank or index`. -/
def rank (candidate : RetrievalCandidate) (index : ℕ) : ℕ :=
  match candidate.finalRank with
  | some (rank + 1) => rank + 1
  | _ => index

/-- A dumped `KnowledgeEvidence`. -/
def evidence (candidate : RetrievalCandidate) (index : ℕ) : Json :=
  .dict [("chunk_id", .str candidate.chunkId),
    ("document_id", .str candidate.documentId),
    ("document_version_id", .str candidate.documentVersionId),
    ("knowledge_base_id", .str candidate.knowledgeBaseId),
    ("excerpt", .str (takeText 2000 candidate.content)),
    ("normalized_rank_score", .float (1 / rank candidate index)),
    ("citation", candidate.citation)]

/-- What `invoke` returns for a result of the retrieval. -/
def output (result : RetrievalResult) : Json :=
  .dict [("evidence", .list (result.candidates.zipIdx 1 |>.map fun item =>
      evidence item.1 item.2)),
    ("citations", .list (result.candidates.map RetrievalCandidate.citation)),
    ("retrieval_trace_id", .str result.traceId),
    ("empty_reason", (result.emptyReason.map Json.str).getD .null)]

end KnowledgeBaseTool

/-! ## What evidence refers to -/

/-- A version of a document. -/
structure EvidenceRef where
  documentId : String
  documentVersionId : String
  deriving DecidableEq, Repr

/-- What an evidence item refers to. -/
def evidenceRef (item : Json) : Option EvidenceRef :=
  match item.get? "document_id", item.get? "document_version_id" with
  | some (.str documentId), some (.str documentVersionId) => some ⟨documentId, documentVersionId⟩
  | _, _ => none

/-- What the evidence in an output of the tool refers to. -/
def evidenceRefs (output : Json) : List EvidenceRef :=
  match output.get? "evidence" with
  | some (.list items) => items.filterMap evidenceRef
  | _ => []

/-- The document versions that the knowledge-base evidence of an outcome refers to. -/
def ToolExecutionOutcome.evidence (outcome : ToolExecutionOutcome) : List EvidenceRef :=
  if outcome.summary.toolName = "knowledge_base" then evidenceRefs outcome.output else []

def RetrievalCandidate.ref (candidate : RetrievalCandidate) : EvidenceRef :=
  ⟨candidate.documentId, candidate.documentVersionId⟩

/-- A text of the form in which ids are generated: hexadecimal digits and hyphens. -/
def isGeneratedId (id : String) : Bool :=
  id.toList.all fun c => c.isDigit || ('a' ≤ c && c ≤ 'f') || c == '-'

/-- There is nothing to redact in a generated id. -/
theorem redactSecretLikeText_of_isGeneratedId {host : Host} {id : String}
    (h : isGeneratedId id = true) : redactSecretLikeText host id = id := by
  refine redactSecretLikeText_eq_self fun c hc => ?_
  have hgenerated := List.all_eq_true.1 h c hc
  constructor
  · rintro rfl
    revert hgenerated
    decide
  · rintro rfl
    revert hgenerated
    decide

/-! ## Redaction and references -/

theorem get_redactEntries (host : Host) (entries : List (String × Json)) (key : String) :
    Json.get (redactEntries host [] entries) key =
      (Json.get entries key).map (redact host []) := by
  induction entries with
  | nil => rfl
  | cons entry entries ih =>
    obtain ⟨name, child⟩ := entry
    unfold Json.get at ih ⊢
    rw [redactEntries, List.find?_cons, List.find?_cons]
    by_cases hname : name = key
    · simp [hname]
    · simpa [hname] using ih

theorem get?_redact (host : Host) (value : Json) (key : String) :
    (redact host [] value).get? key = (value.get? key).map (redact host []) := by
  cases value with
  | dict entries =>
    rw [redact]
    exact get_redactEntries host entries key
  | _ => simp [redact, Json.get?]

theorem redactItems_eq_map (host : Host) (items : List Json) :
    redactItems host [] items = items.map (redact host []) := by
  induction items with
  | nil => rfl
  | cons item items ih => rw [redactItems, ih, List.map_cons]

/-- **The evidence that is left of an output after redaction** refers to the versions that the
candidates came from, if their ids are generated. -/
theorem evidenceRefs_redact_output {host : Host} {result : RetrievalResult}
    (h : ∀ candidate ∈ result.candidates, isGeneratedId candidate.documentId = true ∧
      isGeneratedId candidate.documentVersionId = true) :
    evidenceRefs (redact host [] (KnowledgeBaseTool.output result)) =
      result.candidates.map RetrievalCandidate.ref := by
  have hitem : ∀ candidate ∈ result.candidates, ∀ index,
      evidenceRef (redact host [] (KnowledgeBaseTool.evidence candidate index)) =
        some candidate.ref := by
    intro candidate hcandidate index
    obtain ⟨hdocument, hversion⟩ := h candidate hcandidate
    have hdocumentId : (KnowledgeBaseTool.evidence candidate index).get? "document_id" =
        some (.str candidate.documentId) := rfl
    have hversionId : (KnowledgeBaseTool.evidence candidate index).get? "document_version_id" =
        some (.str candidate.documentVersionId) := rfl
    rw [evidenceRef, get?_redact, get?_redact, hdocumentId, hversionId]
    simp only [Option.map_some, redact, redactSecretLikeText_of_isGeneratedId hdocument,
      redactSecretLikeText_of_isGeneratedId hversion]
    rfl
  have hevidence : (redact host [] (KnowledgeBaseTool.output result)).get? "evidence" =
      some (.list ((result.candidates.zipIdx 1).map fun item =>
        redact host [] (KnowledgeBaseTool.evidence item.1 item.2))) := by
    rw [get?_redact]
    simp [KnowledgeBaseTool.output, Json.get?, Json.get, redact, redactItems_eq_map]
  calc evidenceRefs (redact host [] (KnowledgeBaseTool.output result))
      = (result.candidates.zipIdx 1).filterMap (evidenceRef ∘ fun item =>
          redact host [] (KnowledgeBaseTool.evidence item.1 item.2)) := by
        rw [evidenceRefs, hevidence]
        simp only [List.filterMap_map]
    _ = (result.candidates.zipIdx 1).filterMap (some ∘ fun item => item.1.ref) := by
        refine List.filterMap_congr fun item hmem => ?_
        exact hitem item.1 (List.fst_mem_of_mem_zipIdx hmem) item.2
    _ = (result.candidates.zipIdx 1).map fun item => item.1.ref := by
        rw [List.filterMap_eq_map]
    _ = result.candidates.map RetrievalCandidate.ref := by
        rw [← Function.comp_def RetrievalCandidate.ref Prod.fst, ← List.map_map,
          List.zipIdx_map_fst]

end Agent
end RagflowAgent
