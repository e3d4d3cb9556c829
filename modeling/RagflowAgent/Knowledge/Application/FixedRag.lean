import RagflowAgent.Knowledge.Retrieval.Authority
import RagflowAgent.Ranking

/-!
# Answers from retrieved evidence

`FixedRagService.answer` retrieves evidence for a question, copies as much of it as fits into a
prompt, and has a model answer.

* `selectContext` is the loop that fills the prompt, and `IsContext` is what it leaves: a first
  part of the candidates, each with its number, that fits and that would not fit with another one;
* `answer` gives the requests that were sent to the model along with the answer.

The text fields of a generation request are stripped, so the prompt loses the newline at its end.
The history of the conversation and the target languages are not here, since a query has none.
-/

namespace RagflowAgent
namespace Knowledge

open Ranking

/-! ## Contracts -/

/-- Version-bound source reference, as a hit of the search is cited. -/
structure Citation where
  tenantId : String
  knowledgeBaseId : String
  documentId : String
  documentVersionId : String
  chunkId : String
  quote : String
  deriving DecidableEq, Repr

/-- The citation of a candidate: it has the scope and the content of it. -/
def RetrievalCandidate.citation (candidate : RetrievalCandidate) : Citation where
  tenantId := candidate.tenantId
  knowledgeBaseId := candidate.knowledgeBaseId
  documentId := candidate.documentId
  documentVersionId := candidate.documentVersionId
  chunkId := candidate.chunkId
  quote := candidate.content

/-- Tenant-scoped fixed RAG request. -/
structure FixedRagRequest where
  context : AuthorizationContext
  question : String
  knowledgeBaseIds : List String
  topK : ℕ := 20
  topN : ℕ := 5
  filters : List MetadataFilter := []
  filterExpression : Option MetadataFilterGroup := none
  knowledgeBaseIds_ne_nil : knowledgeBaseIds ≠ []
  topK_bounds : 1 ≤ topK ∧ topK ≤ 1000 := by decide
  topN_bounds : 1 ≤ topN ∧ topN ≤ 50 := by decide

structure ChatGenerationRequest where
  modelId : String
  systemPrompt : String
  userPrompt : String
  traceId : String
  deriving DecidableEq, Repr

structure ChatGenerationResult where
  modelId : String
  content : String
  inputTokens : ℤ := 0
  outputTokens : ℤ := 0

/-- Answer with version-bound citations and retrieval trace. -/
structure FixedRagAnswer where
  answer : String
  citations : List Citation
  traceId : String
  retrievalTrace : RetrievalTrace
  promptVersion : String
  modelId : Option String := none
  inputTokens : ℤ := 0
  outputTokens : ℤ := 0

def fixedRagPromptVersion : String := "fixed-rag-v1"

def noEvidenceAnswer : String := "未检索到可用于回答该问题的授权证据。"

/-- `RetrievalQuery(...)` in `answer`, with its validators.  With an id generator the trace has an
id of its own, and the id of the request is kept beside it. -/
def FixedRagRequest.retrievalQuery (request : FixedRagRequest) (newId : Option String) :
    Except Error RetrievalQuery :=
  if hnodup : request.knowledgeBaseIds.Nodup then
    if request.topK < request.topN then .error (.validation "top_n cannot exceed top_k")
    else .ok {
      tenantId := request.context.tenantId
      text := request.question
      knowledgeBaseIds := request.knowledgeBaseIds
      topK := request.topK
      topN := request.topN
      filters := request.filters
      filterExpression := request.filterExpression
      traceId := newId.getD request.context.requestId
      requestId := newId.map fun _ => request.context.requestId
      knowledgeBaseIds_ne_nil := request.knowledgeBaseIds_ne_nil
      knowledgeBaseIds_nodup := hnodup }
  else .error (.validation "knowledge_base_ids must be unique")

/-! ## The service -/

structure FixedRagService where
  retrieve : AuthorizationContext → RetrievalQuery → Except Error RetrievalResult
  generate : AuthorizationContext → ChatGenerationRequest → Except Error ChatGenerationResult
  chatModelId : String
  newId : Option String := none
  maxContextCharacters : ℕ := 12000

namespace FixedRagService

/-- A numbered piece of evidence. -/
def marker (candidate : RetrievalCandidate) (number : ℕ) : String :=
  "[" ++ toString number ++ "] " ++ candidate.content ++ "\n"

/-- The loop over the candidates, with what is selected and how many characters it has. -/
def selectLoop (maxContextCharacters : ℕ) : List (RetrievalCandidate × String) → ℕ →
    List RetrievalCandidate → List (RetrievalCandidate × String)
  | selected, _, [] => selected
  | selected, consumed, candidate :: candidates =>
    let text := marker candidate (selected.length + 1)
    if selected ≠ [] ∧ maxContextCharacters < consumed + text.length then selected
    else selectLoop maxContextCharacters (selected ++ [(candidate, text)])
      (consumed + text.length) candidates

def selectContext (maxContextCharacters : ℕ) (candidates : List RetrievalCandidate) :
    List (RetrievalCandidate × String) :=
  selectLoop maxContextCharacters [] 0 candidates

variable (service : FixedRagService)

def systemPrompt : String :=
  "你是企业知识库问答助手。只能依据提供的证据回答;" ++
    "无法从证据确定时必须明确说明。引用证据时使用 [1]、[2] 编号。"

def userPrompt (question : String) (selected : List (RetrievalCandidate × String)) : String :=
  "问题: " ++ question ++ "\n\n证据:\n" ++ String.join (selected.map Prod.snd)

/-- `ChatGenerationRequest(...)` in `answer`. -/
def generationRequest (request : FixedRagRequest)
    (selected : List (RetrievalCandidate × String)) : Except Error ChatGenerationRequest := do
  let modelId ← nonEmptyText service.chatModelId
  let prompt ← nonEmptyText (userPrompt request.question selected)
  return {
    modelId := modelId
    systemPrompt := systemPrompt
    userPrompt := prompt
    traceId := request.context.requestId }

/-- The answer without evidence. -/
def noEvidence (trace : RetrievalTrace) : FixedRagAnswer where
  answer := noEvidenceAnswer
  citations := []
  traceId := trace.traceId
  retrievalTrace := trace
  promptVersion := fixedRagPromptVersion

/-- The answer of the model, with the bounds of the token counts. -/
def answered (trace : RetrievalTrace) (selected : List (RetrievalCandidate × String))
    (generated : ChatGenerationResult) : Except Error FixedRagAnswer :=
  if generated.inputTokens < 0 ∨ generated.outputTokens < 0 then
    .error (.validation "Input should be greater than or equal to 0")
  else .ok {
    answer := generated.content
    citations := selected.map fun entry => entry.1.citation
    traceId := trace.traceId
    retrievalTrace := trace
    promptVersion := fixedRagPromptVersion
    modelId := some generated.modelId
    inputTokens := generated.inputTokens
    outputTokens := generated.outputTokens }

/-- The retrieval of `answer`. -/
def retrieval (request : FixedRagRequest) : Except Error RetrievalResult := do
  let query ← request.retrievalQuery service.newId
  service.retrieve request.context query

/-- `answer`: the requests that are sent to the model, and the answer.  `beforeModelCall` is what
the caller's callback does. -/
def answer (request : FixedRagRequest) (beforeModelCall : Except Error Unit) :
    List ChatGenerationRequest × Except Error FixedRagAnswer :=
  match service.retrieval request with
  | .error e => ([], .error e)
  | .ok retrieval =>
    if retrieval.candidates = [] then ([], .ok (noEvidence retrieval.trace))
    else
      let selected := selectContext service.maxContextCharacters retrieval.candidates
      match beforeModelCall >>= fun _ => service.generationRequest request selected with
      | .error e => ([], .error e)
      | .ok prompt =>
        ([prompt], service.generate request.context prompt >>= answered retrieval.trace selected)

/-! ## The context of a prompt -/

/-- The characters of the markers. -/
def size (selected : List (RetrievalCandidate × String)) : ℕ :=
  (selected.map fun entry => entry.2.length).sum

/-- What the loop leaves of the candidates. -/
structure IsContext (maxContextCharacters : ℕ) (candidates : List RetrievalCandidate)
    (selected : List (RetrievalCandidate × String)) : Prop where
  ne_nil : selected ≠ []
  numbered : selected = numbered (fun candidate n => (candidate, marker candidate n))
    (selected.map Prod.fst)
  fits : size selected ≤ maxContextCharacters ∨ selected.length = 1
  /-- Nothing is left out, or the next candidate is too long. -/
  maximal : selected.map Prod.fst = candidates ∨ ∃ next rest,
    candidates = selected.map Prod.fst ++ next :: rest ∧
      maxContextCharacters < size selected + (marker next (selected.length + 1)).length

section Context

variable {maxContextCharacters : ℕ} {candidates : List RetrievalCandidate}
  {selected : List (RetrievalCandidate × String)}

theorem size_concat (selected : List (RetrievalCandidate × String))
    (entry : RetrievalCandidate × String) :
    size (selected ++ [entry]) = size selected + entry.2.length := by
  simp [size]

/-- The loop goes on from what it has selected. -/
theorem isContext_selectLoop {all : List RetrievalCandidate}
    (hall : all = selected.map Prod.fst ++ candidates) (hne : all ≠ [])
    (hnumbered : selected = numbered (fun candidate n => (candidate, marker candidate n))
      (selected.map Prod.fst))
    (hfits : size selected ≤ maxContextCharacters ∨ selected.length = 1) :
    IsContext maxContextCharacters all
      (selectLoop maxContextCharacters selected (size selected) candidates) := by
  induction candidates generalizing selected with
  | nil =>
    rw [List.append_nil] at hall
    refine ⟨fun h => hne ?_, hnumbered, hfits, .inl hall.symm⟩
    rw [hall, show selected = [] from h, List.map_nil]
  | cons candidate candidates ih =>
    rw [selectLoop]
    split
    · rename_i hlong
      exact ⟨hlong.1, hnumbered, hfits, .inr ⟨candidate, candidates, hall, hlong.2⟩⟩
    · rename_i hshort
      have hsize := size_concat selected (candidate, marker candidate (selected.length + 1))
      rw [← hsize]
      refine ih ?_ ?_ ?_
      · rw [hall, List.map_append, List.map_singleton, List.append_assoc]
        rfl
      · rw [List.map_append, List.map_singleton, numbered_append_singleton, ← hnumbered,
          List.length_map]
      · rw [hsize]
        by_cases hnil : selected = []
        · exact .inr (by rw [hnil]; rfl)
        · exact .inl (not_lt.1 fun hlt => hshort ⟨hnil, hlt⟩)

/-- **The context of a prompt** is the longest first part of the candidates that fits. -/
theorem isContext_selectContext (hne : candidates ≠ []) :
    IsContext maxContextCharacters candidates (selectContext maxContextCharacters candidates) :=
  isContext_selectLoop rfl hne rfl (.inl (Nat.zero_le _))

end Context

/-! ## What is sent, and what is answered -/

variable {service : FixedRagService} {request : FixedRagRequest}
  {beforeModelCall : Except Error Unit}

/-- **One call or none.**  Without evidence no model is asked and the answer says so.  Otherwise
at most one request is sent, and its prompt has a context of the retrieved candidates; an answer
cites the candidates of that context, in their order. -/
theorem answer_cases (service : FixedRagService) (request : FixedRagRequest)
    (beforeModelCall : Except Error Unit) :
    let answered := service.answer request beforeModelCall
    (∃ e, answered = ([], .error e)) ∨
      (∃ retrieval, service.retrieval request = .ok retrieval ∧ retrieval.candidates = [] ∧
        answered = ([], .ok (noEvidence retrieval.trace))) ∨
      ∃ retrieval selected prompt, service.retrieval request = .ok retrieval ∧
        IsContext service.maxContextCharacters retrieval.candidates selected ∧
        nonEmptyText (userPrompt request.question selected) = .ok prompt.userPrompt ∧
        answered.1 = [prompt] ∧
        ∀ answer, answered.2 = .ok answer → ∃ generated,
          service.generate request.context prompt = .ok generated ∧
            answer.answer = generated.content ∧
            answer.citations = selected.map fun entry => entry.1.citation := by
  intro result
  cases hretrieval : service.retrieval request with
  | error e => exact .inl ⟨e, by simp only [result, answer, hretrieval]⟩
  | ok retrieval =>
    by_cases hnil : retrieval.candidates = []
    · refine .inr (.inl ⟨retrieval, rfl, hnil, ?_⟩)
      simp only [result, answer, hretrieval]
      exact if_pos hnil
    cases hprompt : beforeModelCall >>= fun _ => service.generationRequest request
        (selectContext service.maxContextCharacters retrieval.candidates) with
    | error e => exact .inl ⟨e, by simp only [result, answer, hretrieval, if_neg hnil, hprompt]⟩
    | ok prompt =>
      have hresult : result = ([prompt], service.generate request.context prompt >>=
          FixedRagService.answered retrieval.trace
            (selectContext service.maxContextCharacters retrieval.candidates)) := by
        simp only [result, answer, hretrieval, if_neg hnil, hprompt]
      obtain ⟨_, -, hrequest⟩ := bind_eq_ok.1 hprompt
      obtain ⟨modelId, -, hrequest⟩ := bind_eq_ok.1 hrequest
      obtain ⟨text, htext, hrequest⟩ := bind_eq_ok.1 hrequest
      have huser : nonEmptyText (userPrompt request.question
          (selectContext service.maxContextCharacters retrieval.candidates)) =
            .ok prompt.userPrompt := by
        cases hrequest
        exact htext
      refine .inr (.inr ⟨retrieval, _, prompt, rfl, isContext_selectContext hnil, huser, ?_, ?_⟩)
      · rw [hresult]
      · intro answer hanswer
        rw [hresult] at hanswer
        obtain ⟨generated, hgenerated, hanswer⟩ := bind_eq_ok.1 hanswer
        refine ⟨generated, hgenerated, ?_⟩
        unfold answered at hanswer
        split at hanswer
        · cases hanswer
        · cases hanswer
          exact ⟨rfl, rfl⟩

end FixedRagService

end Knowledge
end RagflowAgent
