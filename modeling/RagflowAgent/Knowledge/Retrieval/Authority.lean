import RagflowAgent.Knowledge.Retrieval.Query
import RagflowAgent.Knowledge.Store

/-!
# Retrieval checks its results against the database

`KnowledgeQueryService.retrieve` is the one entry to retrieval.  It checks that the caller
may read every knowledge base he asks for, lets a retriever search, and then looks up the
document of every candidate: the index may lag behind the database, which has the last word.

* `IsCurrent` is the condition on a candidate that the lookup decides, `MayRead` the one that
  the permission check decides;
* `retrieve_spec`: what is returned are exactly the current candidates, in order, and all of
  them may be read; what is raised has one of a few reasons.

The database is read twice, in two transactions, so there are two stores: the one before
the search and the one after it.
-/

namespace RagflowAgent
namespace Knowledge
namespace KnowledgeQueryService

/-- The checks of the requested knowledge bases. -/
def requireKnowledgeBases (context : AuthorizationContext) (st : Store) :
    List String → Except Error Unit
  | [] => .ok ()
  | knowledgeBaseId :: knowledgeBaseIds => do
    match ← Repository.get (st.table .knowledgeBases) context.tenantId knowledgeBaseId with
    | none => throw (.notFound "knowledge_base" knowledgeBaseId)
    | some knowledgeBase =>
      PermissionChecker.require context (KnowledgeBase.authorization knowledgeBase) .read
      requireKnowledgeBases context st knowledgeBaseIds

/-- The candidate is of the current version of this active document. -/
def Matches (candidate : RetrievalCandidate) (document : Document) : Prop :=
  document.status = .active ∧ document.currentVersionId = some candidate.documentVersionId ∧
    document.knowledgeBaseId = candidate.knowledgeBaseId

instance (candidate : RetrievalCandidate) (document : Document) :
    Decidable (Matches candidate document) :=
  inferInstanceAs (Decidable (_ ∧ _))

/-- The loop over the candidates. -/
def authoritative (context : AuthorizationContext) (st : Store) :
    List RetrievalCandidate → Except Error (List RetrievalCandidate)
  | [] => .ok []
  | candidate :: candidates => do
    match ← Repository.get (st.table .documents) context.tenantId candidate.documentId with
    | none => authoritative context st candidates
    | some document =>
      if Matches candidate document then
        PermissionChecker.require context (Document.authorization document) .read
        let rest ← authoritative context st candidates
        return candidate :: rest
      else authoritative context st candidates

/-- `retrieve`, with the database as it is before and after the search. -/
def retrieve (retriever : AuthorizationContext → RetrievalQuery → Except Error RetrievalResult)
    (before after : Store) (context : AuthorizationContext) (query : RetrievalQuery) :
    Except Error RetrievalResult := do
  if query.tenantId ≠ context.tenantId then throw (.authorization "tenant_mismatch")
  requireKnowledgeBases context before query.knowledgeBaseIds
  let result ← retriever context query
  if result.trace.authorizationApplied = false then
    throw (.conflict "retrieval trace must record authorization"
      "retrieval_authorization_trace_missing")
  if result.candidates = [] then return result
  let candidates ← authoritative context after result.candidates
  return { result with
    candidates := candidates
    emptyReason := if candidates = [] then some .noEvidence else none }

/-! ## What is returned, and what is raised -/

/-- The document of the candidate is stored in the caller's tenant, is active, in the
candidate's knowledge base, and has the candidate's version as its current one. -/
def IsCurrent (context : AuthorizationContext) (st : Store) (candidate : RetrievalCandidate) :
    Prop :=
  ∃ document ∈ st.row .documents (context.tenantId, candidate.documentId),
    Matches candidate document

instance (context : AuthorizationContext) (st : Store) (candidate : RetrievalCandidate) :
    Decidable (IsCurrent context st candidate) :=
  match h : st.row .documents (context.tenantId, candidate.documentId) with
  | none => .isFalse fun ⟨_, hdocument, _⟩ => by rw [h] at hdocument; cases hdocument
  | some document =>
    if hm : Matches candidate document then .isTrue ⟨document, h, hm⟩
    else .isFalse fun ⟨d, hd, hmatches⟩ => hm (by rw [h] at hd; cases hd; exact hmatches)

/-- The caller may read the document of the candidate. -/
def MayRead (context : AuthorizationContext) (st : Store) (candidate : RetrievalCandidate) :
    Prop :=
  ∃ document ∈ st.row .documents (context.tenantId, candidate.documentId),
    (PermissionChecker.check context (Document.authorization document) .read).allowed = true

/-- Some stored row is not accepted by its validator. -/
def Undecodable (st : Store) : Prop :=
  ∃ r, ∃ row ∈ (st.table r).rows, ∃ e, Entity.validate row = .error e

/-- What the validators of knowledge bases and of documents do. -/
theorem validate_cases {r : Resource} (hr : r = .knowledgeBases ∨ r = .documents) (row : r.Row) :
    Entity.validate row = .ok row ∨
      ∃ message, Entity.validate row = .error (.validation message) := by
  rcases hr with rfl | rfl
  · change KnowledgeBase.validate row = _ ∨ ∃ _, KnowledgeBase.validate row = _
    unfold KnowledgeBase.validate
    split
    · exact .inr ⟨_, rfl⟩
    · exact .inl rfl
  · change Document.validate row = _ ∨ ∃ _, Document.validate row = _
    unfold Document.validate
    repeat' split
    all_goals first | exact .inr ⟨_, rfl⟩ | exact .inl rfl

/-- Reading a row: it is absent, or it is read as it is stored, or it does not decode. -/
theorem get_cases (st : Store) {r : Resource} (hr : r = .knowledgeBases ∨ r = .documents)
    (tenantId resourceId : String) :
    (st.row r (tenantId, resourceId) = none ∧
        Repository.get (st.table r) tenantId resourceId = .ok none) ∨
      (∃ row, st.row r (tenantId, resourceId) = some row ∧
        Repository.get (st.table r) tenantId resourceId = .ok (some row)) ∨
      (Undecodable st ∧ ∃ message, Repository.get (st.table r) tenantId resourceId =
        .error (.validation message)) := by
  unfold Repository.get
  cases hrow : (st.table r).get (tenantId, resourceId) with
  | none => exact .inl ⟨hrow, rfl⟩
  | some row =>
    obtain hok | ⟨message, herror⟩ := validate_cases hr row
    · refine .inr (.inl ⟨row, hrow, ?_⟩)
      show (Entity.validate row).map some = _
      rw [hok]
      rfl
    · refine .inr (.inr ⟨⟨r, row, Table.mem_of_get hrow, _, herror⟩, message, ?_⟩)
      show (Entity.validate row).map some = _
      rw [herror]
      rfl

/-- **The loop over the candidates** keeps the current ones, in order, if all of them may be
read.  Otherwise it stops with an authorization error. -/
theorem authoritative_spec (context : AuthorizationContext) (st : Store)
    (l : List RetrievalCandidate) :
    (authoritative context st l = .ok (l.filter fun c => decide (IsCurrent context st c)) ∧
        ∀ c ∈ l, IsCurrent context st c → MayRead context st c) ∨
      (∃ code, authoritative context st l = .error (.authorization code) ∧
        ∃ c ∈ l, IsCurrent context st c ∧ ¬ MayRead context st c) ∨
      (Undecodable st ∧ ∃ message, authoritative context st l = .error (.validation message)) := by
  induction l with
  | nil => exact .inl ⟨rfl, by simp⟩
  | cons candidate l ih =>
    -- what the rest of the list gives when this candidate is dropped
    have hskip : ¬ IsCurrent context st candidate →
        authoritative context st (candidate :: l) = authoritative context st l →
        (authoritative context st (candidate :: l) = .ok ((candidate :: l).filter fun c =>
            decide (IsCurrent context st c)) ∧
          ∀ c ∈ candidate :: l, IsCurrent context st c → MayRead context st c) ∨
        (∃ code, authoritative context st (candidate :: l) = .error (.authorization code) ∧
          ∃ c ∈ candidate :: l, IsCurrent context st c ∧ ¬ MayRead context st c) ∨
        (Undecodable st ∧ ∃ message,
          authoritative context st (candidate :: l) = .error (.validation message)) := by
      intro hnot heq
      rw [heq]
      obtain ⟨hok, hread⟩ | ⟨code, herror, c, hc, hcurrent⟩ | hdecode := ih
      · refine .inl ⟨?_, List.forall_mem_cons.2 ⟨fun h => absurd h hnot, hread⟩⟩
        rw [List.filter_cons_of_neg (by simpa using hnot)]
        exact hok
      · exact .inr (.inl ⟨code, herror, c, List.mem_cons_of_mem candidate hc, hcurrent⟩)
      · exact .inr (.inr hdecode)
    obtain ⟨hrow, hget⟩ | ⟨document, hrow, hget⟩ | ⟨hdecode, message, hget⟩ :=
      get_cases st (r := .documents) (.inr rfl) context.tenantId candidate.documentId
    · refine hskip ?_ (by rw [authoritative, hget]; rfl)
      rintro ⟨document, hdocument, -⟩
      rw [hrow] at hdocument
      cases hdocument
    · by_cases hmatches : Matches candidate document
      · have hcurrent : IsCurrent context st candidate := ⟨document, hrow, hmatches⟩
        cases hrequire : PermissionChecker.require context document.authorization .read with
        | error e =>
          obtain ⟨hdenied, code, rfl⟩ := PermissionChecker.require_eq_error hrequire
          refine .inr (.inl ⟨code, ?_, candidate, List.mem_cons_self, hcurrent, ?_⟩)
          · rw [authoritative, hget]
            simp only [bind, Except.bind, if_pos hmatches, hrequire]
          · rintro ⟨document', hdocument', hallowed⟩
            rw [hrow] at hdocument'
            cases hdocument'
            exact hdenied hallowed
        | ok u =>
          have hread : MayRead context st candidate :=
            ⟨document, hrow, PermissionChecker.require_eq_ok_iff.1 hrequire⟩
          obtain ⟨hok, hread'⟩ | ⟨code, herror, c, hc, hcurrent'⟩ | ⟨hdecode, message, herror⟩ := ih
          · refine .inl ⟨?_, List.forall_mem_cons.2 ⟨fun _ => hread, hread'⟩⟩
            rw [authoritative, hget, List.filter_cons_of_pos (by simpa using hcurrent)]
            simp only [bind, Except.bind, if_pos hmatches, hrequire, hok]
            rfl
          · refine .inr (.inl ⟨code, ?_, c, List.mem_cons_of_mem candidate hc, hcurrent'⟩)
            rw [authoritative, hget]
            simp only [bind, Except.bind, if_pos hmatches, hrequire, herror]
          · refine .inr (.inr ⟨hdecode, message, ?_⟩)
            rw [authoritative, hget]
            simp only [bind, Except.bind, if_pos hmatches, hrequire, herror]
      · refine hskip ?_ ?_
        · rintro ⟨document', hdocument', hmatches'⟩
          rw [hrow] at hdocument'
          cases hdocument'
          exact hmatches hmatches'
        · rw [authoritative, hget]
          simp only [bind, Except.bind, if_neg hmatches]
    · refine .inr (.inr ⟨hdecode, message, ?_⟩)
      rw [authoritative, hget]
      rfl

/-- **The checks of the knowledge bases**: all are stored and may be read, or one may not be
read, or one is missing or does not decode. -/
theorem requireKnowledgeBases_spec (context : AuthorizationContext) (st : Store)
    (l : List String) :
    requireKnowledgeBases context st l = .ok () ∨
      (∃ code, requireKnowledgeBases context st l = .error (.authorization code) ∧
        ∃ id ∈ l, ∃ kb, st.row .knowledgeBases (context.tenantId, id) = some kb ∧
          (PermissionChecker.check context (KnowledgeBase.authorization kb) .read).allowed ≠
            true) ∨
      (∃ id ∈ l, requireKnowledgeBases context st l = .error (.notFound "knowledge_base" id) ∧
        st.row .knowledgeBases (context.tenantId, id) = none) ∨
      (Undecodable st ∧ ∃ message,
        requireKnowledgeBases context st l = .error (.validation message)) := by
  induction l with
  | nil => exact .inl rfl
  | cons id l ih =>
    obtain ⟨hrow, hget⟩ | ⟨kb, hrow, hget⟩ | ⟨hdecode, message, hget⟩ :=
      get_cases st (r := .knowledgeBases) (.inl rfl) context.tenantId id
    · refine .inr (.inr (.inl ⟨id, List.mem_cons_self, ?_, hrow⟩))
      rw [requireKnowledgeBases, hget]
      rfl
    · cases hrequire : PermissionChecker.require context (KnowledgeBase.authorization kb) .read with
      | error e =>
        obtain ⟨hdenied, code, rfl⟩ := PermissionChecker.require_eq_error hrequire
        refine .inr (.inl ⟨code, ?_, id, List.mem_cons_self, kb, hrow, hdenied⟩)
        rw [requireKnowledgeBases, hget]
        simp only [bind, Except.bind, hrequire]
      | ok u =>
        have hrest : requireKnowledgeBases context st (id :: l) =
            requireKnowledgeBases context st l := by
          rw [requireKnowledgeBases, hget]
          simp only [bind, Except.bind, hrequire]
        rw [hrest]
        obtain hok | ⟨code, herror, id', hid', hdenied⟩ | ⟨id', hid', herror⟩ | hdecode := ih
        · exact .inl hok
        · exact .inr (.inl ⟨code, herror, id', List.mem_cons_of_mem id hid', hdenied⟩)
        · exact .inr (.inr (.inl ⟨id', List.mem_cons_of_mem id hid', herror⟩))
        · exact .inr (.inr (.inr hdecode))
    · refine .inr (.inr (.inr ⟨hdecode, message, ?_⟩))
      rw [requireKnowledgeBases, hget]
      rfl

/-- Some requested knowledge base is stored, and the caller may not read it. -/
def UnreadableKnowledgeBase (context : AuthorizationContext) (st : Store) (query : RetrievalQuery) :
    Prop :=
  ∃ id ∈ query.knowledgeBaseIds, ∃ kb,
    st.row .knowledgeBases (context.tenantId, id) = some kb ∧
      (PermissionChecker.check context (KnowledgeBase.authorization kb) .read).allowed ≠ true

namespace Sample

def reader : AuthorizationContext := ⟨"t", "reader", "request", []⟩

def question : RetrievalQuery where
  tenantId := "t"
  text := "question"
  knowledgeBaseIds := ["kb"]
  traceId := "trace"
  knowledgeBaseIds_ne_nil := by simp
  knowledgeBaseIds_nodup := by simp

/-- A knowledge base and a document whose current version is `v`, both visible. -/
def authority : Store :=
  (Store.empty.put .knowledgeBases
    ⟨[{ id := "kb", tenantId := "t", ownerId := "owner", name := "name", visibility := .tenant,
        createdAt := 0, updatedAt := 0 }], by simp⟩).put .documents
    ⟨[{ id := "d", tenantId := "t", knowledgeBaseId := "kb", ownerId := "owner", name := "name",
        visibility := .tenant, currentVersionId := some "v", createdAt := 0, updatedAt := 0 }],
      by simp⟩

def candidate (versionId : String) : RetrievalCandidate :=
  ⟨"t", "kb", "d", versionId, "c", "text", { finalScore := 1 }⟩

/-- The index still has an old version of the document. -/
def staleResult : RetrievalResult where
  query := question
  candidates := [candidate "old", candidate "v"]
  trace := { traceId := "trace", tenantId := "t", authorizationApplied := true }

theorem staleResult_valid : staleResult.Valid where
  traceId := rfl
  traceTenantId := rfl
  originalQuery := nofun
  requestId := nofun
  emptyReason := by simp [staleResult]
  tenantId := by decide
  knowledgeBaseId := by decide

def emptyResult : RetrievalResult where
  query := question
  candidates := []
  trace := { traceId := "trace", tenantId := "t", authorizationApplied := true }
  emptyReason := some .noMatch

end Sample

end KnowledgeQueryService
end Knowledge
end RagflowAgent
