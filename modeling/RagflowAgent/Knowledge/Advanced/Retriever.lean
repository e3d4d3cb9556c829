import RagflowAgent.Knowledge.Advanced.Domain
import RagflowAgent.Knowledge.Retrieval.Selection

/-!
# Advanced retrieval

`AdvancedRetriever.retrieve` decorates a retriever: candidates of the advanced capabilities are
merged with those of the base result, the better one of two with the same chunk id, and the best
`top_n` of all are returned in a copy of the base result.

* `checkManifest` says whether the index of a capability may be used;
* `answer` is what a provider returns for a knowledge base, `accepted` what is taken of it;
* `merged_eq_foldl` says that the loops merge what is accepted, and `Merged` what comes of it;
* `retrieve_conservative_iff` says when the decoration is conservative.  It is not always: the
  merged candidates are sorted again and cut even if no provider has returned, and a base result
  without candidates keeps its reason for being empty when some are added.
-/

namespace RagflowAgent
namespace Knowledge
namespace Advanced

open Ranking

structure CompatibilityDecision where
  usable : Bool
  fallbackReason : Option String := none
  deriving DecidableEq, Repr

def checkManifest (manifest : Option AdvancedIndexManifest) (capability : AdvancedCapability)
    (tenantId knowledgeBaseId : String) (activeDocumentVersions : List String) :
    CompatibilityDecision :=
  match manifest with
  | none => ⟨false, some "index_missing"⟩
  | some manifest =>
    if manifest.schemaVersion ≠ schemaVersion then ⟨false, some "schema_incompatible"⟩
    else if ¬ manifest.complete then ⟨false, some "index_incomplete"⟩
    else if manifest.capability ≠ capability then ⟨false, some "capability_mismatch"⟩
    else if manifest.tenantId ≠ tenantId ∨ manifest.knowledgeBaseId ≠ knowledgeBaseId then
      ⟨false, some "scope_mismatch"⟩
    else if ¬ manifest.documentVersionIds ⊆ activeDocumentVersions then
      ⟨false, some "stale_document_version"⟩
    else ⟨true, none⟩

/-- The retriever with its ports.  A provider is asked once for every knowledge base of a query,
always the same, and may answer differently each time. -/
structure AdvancedRetriever where
  base : AuthorizationContext → RetrievalQuery → Except Error RetrievalResult
  enabled : AdvancedCapability → Bool
  providers : AdvancedCapability → Option (String → AuthorizationContext → RetrievalQuery →
    Except Error (List RetrievalCandidate))
  manifests : String × String × AdvancedCapability → Option AdvancedIndexManifest
  activeDocumentVersions : String × String → Option (List String)

namespace AdvancedRetriever

variable (retriever : AdvancedRetriever) (context : AuthorizationContext)

/-- `enabled_capabilities`. -/
def enabledCapabilities : List AdvancedCapability :=
  AdvancedCapability.all.filter retriever.enabled

/-- The versions that are active for a knowledge base. -/
def active (knowledgeBaseId : String) : List String :=
  (retriever.activeDocumentVersions (context.tenantId, knowledgeBaseId)).getD []

/-- The index of a capability may be used. -/
def decision (capability : AdvancedCapability) (knowledgeBaseId : String) :
    CompatibilityDecision :=
  checkManifest (retriever.manifests (context.tenantId, knowledgeBaseId, capability)) capability
    context.tenantId knowledgeBaseId (retriever.active context knowledgeBaseId)

/-- The condition on a candidate of a provider. -/
def Accepts (knowledgeBaseId : String) (candidate : RetrievalCandidate) : Prop :=
  candidate.tenantId = context.tenantId ∧ candidate.knowledgeBaseId = knowledgeBaseId ∧
    candidate.documentVersionId ∈ retriever.active context knowledgeBaseId

instance (knowledgeBaseId : String) (candidate : RetrievalCandidate) :
    Decidable (retriever.Accepts context knowledgeBaseId candidate) :=
  inferInstanceAs (Decidable (_ ∧ _))

/-- Of two candidates with one chunk id the better one is kept, the first one if they are even. -/
def keepBetter (merged : Table RetrievalCandidate) (candidate : RetrievalCandidate) :
    Table RetrievalCandidate :=
  match merged.get candidate.chunkId with
  | none => merged.upsert candidate
  | some prior =>
    if prior.score.finalScore < candidate.score.finalScore then merged.upsert candidate
    else merged

/-- The loop over the candidates of a provider. -/
def mergeCandidates (knowledgeBaseId : String) (merged : Table RetrievalCandidate)
    (candidates : List RetrievalCandidate) : Table RetrievalCandidate :=
  candidates.foldl (fun merged candidate =>
    if retriever.Accepts context knowledgeBaseId candidate then keepBetter merged candidate
    else merged) merged

/-- One turn of the loop over the knowledge bases. -/
def mergeKnowledgeBase (query : RetrievalQuery) (capability : AdvancedCapability)
    (provider : String → AuthorizationContext → RetrievalQuery →
      Except Error (List RetrievalCandidate))
    (merged : Table RetrievalCandidate) (knowledgeBaseId : String) : Table RetrievalCandidate :=
  if ¬ (retriever.decision context capability knowledgeBaseId).usable then merged
  else
    match provider knowledgeBaseId context query with
    | .error _ => merged
    | .ok candidates => retriever.mergeCandidates context knowledgeBaseId merged candidates

/-- One turn of the loop over the capabilities. -/
def mergeCapability (query : RetrievalQuery) (merged : Table RetrievalCandidate)
    (capability : AdvancedCapability) : Table RetrievalCandidate :=
  match retriever.providers capability with
  | none => merged
  | some provider =>
    query.knowledgeBaseIds.foldl (retriever.mergeKnowledgeBase context query capability provider)
      merged

/-- `{item.chunk_id: item for item in base_result.candidates}`. -/
def byChunkId (candidates : List RetrievalCandidate) : Table RetrievalCandidate :=
  candidates.foldl Table.upsert .empty

/-- The candidates after all loops. -/
def merged (query : RetrievalQuery) (candidates : List RetrievalCandidate) :
    Table RetrievalCandidate :=
  retriever.enabledCapabilities.foldl (retriever.mergeCapability context query)
    (byChunkId candidates)

/-- The best of the candidates. -/
def ranked (query : RetrievalQuery) (merged : Table RetrievalCandidate) :
    List RetrievalCandidate :=
  (sortedBy (fun item => -item.score.finalScore) merged.rows).take query.topN

def retrieve (query : RetrievalQuery) : Except Error RetrievalResult := do
  let baseResult ← retriever.base context query
  let merged := retriever.merged context query baseResult.candidates
  return { baseResult with candidates := ranked query merged }

/-! ## The loops -/

/-- What a provider returns for a knowledge base, if it is asked. -/
def answer (query : RetrievalQuery) (capability : AdvancedCapability)
    (knowledgeBaseId : String) : Option (List RetrievalCandidate) :=
  (retriever.providers capability).bind fun provider =>
    if (retriever.decision context capability knowledgeBaseId).usable then
      (provider knowledgeBaseId context query).toOption
    else none

/-- What is taken of it. -/
def accepted (query : RetrievalQuery) (capability : AdvancedCapability)
    (knowledgeBaseId : String) : List RetrievalCandidate :=
  ((retriever.answer context query capability knowledgeBaseId).getD []).filter fun candidate =>
    retriever.Accepts context knowledgeBaseId candidate

/-- What is taken of all answers, in the order of the loops. -/
def allAccepted (query : RetrievalQuery) : List RetrievalCandidate :=
  retriever.enabledCapabilities.flatMap fun capability =>
    query.knowledgeBaseIds.flatMap (retriever.accepted context query capability)

/-- Some provider is asked, and returns. -/
def Answered (query : RetrievalQuery) : Prop :=
  ∃ capability ∈ retriever.enabledCapabilities, ∃ knowledgeBaseId ∈ query.knowledgeBaseIds,
    (retriever.answer context query capability knowledgeBaseId).isSome

variable {retriever context} {query : RetrievalQuery} {base : RetrievalResult}
  {table : Table RetrievalCandidate} {candidates : List RetrievalCandidate}
  {capability : AdvancedCapability} {knowledgeBaseId : String} {candidate : RetrievalCandidate}

theorem mergeCandidates_eq_foldl (knowledgeBaseId : String) (table : Table RetrievalCandidate)
    (candidates : List RetrievalCandidate) :
    retriever.mergeCandidates context knowledgeBaseId table candidates =
      (candidates.filter fun candidate =>
        retriever.Accepts context knowledgeBaseId candidate).foldl keepBetter table := by
  rw [mergeCandidates, List.foldl_filter]
  simp only [decide_eq_true_eq]

theorem mergeKnowledgeBase_eq_foldl
    {provider : String → AuthorizationContext → RetrievalQuery →
      Except Error (List RetrievalCandidate)}
    (hprovider : retriever.providers capability = some provider)
    (table : Table RetrievalCandidate) (knowledgeBaseId : String) :
    retriever.mergeKnowledgeBase context query capability provider table knowledgeBaseId =
      (retriever.accepted context query capability knowledgeBaseId).foldl keepBetter table := by
  rw [mergeKnowledgeBase, accepted, answer, hprovider, Option.bind_some]
  by_cases husable : (retriever.decision context capability knowledgeBaseId).usable = true
  · rw [if_neg (not_not_intro husable), if_pos husable]
    cases hanswer : provider knowledgeBaseId context query with
    | error e => rfl
    | ok candidates => exact mergeCandidates_eq_foldl knowledgeBaseId table candidates
  · rw [if_pos husable, if_neg husable]
    rfl

theorem mergeCapability_eq_foldl (table : Table RetrievalCandidate)
    (capability : AdvancedCapability) :
    retriever.mergeCapability context query table capability =
      (query.knowledgeBaseIds.flatMap
        (retriever.accepted context query capability)).foldl keepBetter table := by
  unfold mergeCapability
  split
  · rename_i hprovider
    have hnone : ∀ knowledgeBaseId ∈ query.knowledgeBaseIds,
        retriever.accepted context query capability knowledgeBaseId = [] := by
      intro knowledgeBaseId _
      rw [accepted, answer, hprovider]
      rfl
    rw [List.flatMap_eq_nil_iff.2 hnone]
    rfl
  · rename_i provider hprovider
    rw [List.foldl_flatMap]
    refine congrArg (fun f => List.foldl f table query.knowledgeBaseIds) ?_
    funext table knowledgeBaseId
    exact mergeKnowledgeBase_eq_foldl hprovider table knowledgeBaseId

/-- **The loops merge what is taken of the answers.** -/
theorem merged_eq_foldl (candidates : List RetrievalCandidate) :
    retriever.merged context query candidates =
      (retriever.allAccepted context query).foldl keepBetter (byChunkId candidates) := by
  rw [merged, allAccepted, List.foldl_flatMap]
  refine congrArg (fun f => List.foldl f (byChunkId candidates) retriever.enabledCapabilities) ?_
  funext table capability
  exact mergeCapability_eq_foldl table capability

/-- What is taken is of the caller's tenant, of a requested knowledge base and of a version that is
active for it. -/
theorem scope_of_mem_allAccepted (h : candidate ∈ retriever.allAccepted context query) :
    candidate.tenantId = context.tenantId ∧ candidate.knowledgeBaseId ∈ query.knowledgeBaseIds ∧
      candidate.documentVersionId ∈ retriever.active context candidate.knowledgeBaseId := by
  obtain ⟨capability, -, h⟩ := List.mem_flatMap.1 h
  obtain ⟨knowledgeBaseId, hid, h⟩ := List.mem_flatMap.1 h
  obtain ⟨htenant, rfl, hversion⟩ := of_decide_eq_true (List.mem_filter.1 h).2
  exact ⟨htenant, hid, hversion⟩

/-- Without an answer nothing is taken. -/
theorem allAccepted_eq_nil (h : ¬ retriever.Answered context query) :
    retriever.allAccepted context query = [] := by
  refine List.flatMap_eq_nil_iff.2 fun capability hcapability => ?_
  refine List.flatMap_eq_nil_iff.2 fun knowledgeBaseId hid => ?_
  have hnone : retriever.answer context query capability knowledgeBaseId = none := by
    by_contra hsome
    exact h ⟨capability, hcapability, knowledgeBaseId, hid, Option.isSome_iff_ne_none.2 hsome⟩
  rw [accepted, hnone]
  rfl

/-! ## The merged candidates -/

theorem mem_keepBetter {other : RetrievalCandidate}
    (h : other ∈ (keepBetter table candidate).rows) : other = candidate ∨ other ∈ table.rows := by
  unfold keepBetter at h
  split at h
  · exact mem_upsert_rows h
  · split at h
    · exact mem_upsert_rows h
    · exact .inr h

theorem mem_foldl_keepBetter (h : candidate ∈ (candidates.foldl keepBetter table).rows) :
    candidate ∈ candidates ∨ candidate ∈ table.rows := by
  induction candidates generalizing table with
  | nil => exact .inr h
  | cons other candidates ih =>
    rcases ih h with hmem | hmem
    · exact .inl (List.mem_cons_of_mem _ hmem)
    · rcases mem_keepBetter hmem with rfl | hmem
      · exact .inl List.mem_cons_self
      · exact .inr hmem

theorem upsert_rows_ne_nil (table : Table RetrievalCandidate) (candidate : RetrievalCandidate) :
    (table.upsert candidate).rows ≠ [] := by
  have hget : (table.upsert candidate).get (Keyed.key candidate) = some candidate := by
    rw [Table.get_upsert, if_pos rfl]
  exact List.ne_nil_of_mem (Table.mem_of_get hget)

/-- A table with a row keeps one. -/
theorem keepBetter_rows_ne_nil (table : Table RetrievalCandidate)
    (candidate : RetrievalCandidate) : (keepBetter table candidate).rows ≠ [] := by
  unfold keepBetter
  split
  · exact upsert_rows_ne_nil _ _
  · rename_i prior hprior
    split
    · exact upsert_rows_ne_nil _ _
    · exact List.ne_nil_of_mem (Table.mem_of_get hprior)

theorem foldl_keepBetter_rows_eq_nil :
    (candidates.foldl keepBetter table).rows = [] ↔ candidates = [] ∧ table.rows = [] := by
  induction candidates using List.reverseRecOn with
  | nil => simp
  | append_singleton candidates last ih =>
    rw [List.foldl_append]
    exact iff_of_false (keepBetter_rows_ne_nil _ last) fun h => by simp at h

theorem mem_of_mem_byChunkId (h : candidate ∈ (byChunkId candidates).rows) :
    candidate ∈ candidates := by
  induction candidates using List.reverseRecOn with
  | nil => exact h
  | append_singleton candidates last ih =>
    rw [byChunkId, List.foldl_append] at h
    rcases mem_upsert_rows h with rfl | h
    · exact List.mem_append_right _ (List.mem_singleton_self _)
    · exact List.mem_append_left _ (ih h)

theorem byChunkId_rows_eq_nil : (byChunkId candidates).rows = [] ↔ candidates = [] := by
  induction candidates using List.reverseRecOn with
  | nil => exact iff_of_true rfl rfl
  | append_singleton candidates last ih =>
    rw [byChunkId, List.foldl_append]
    exact iff_of_false (upsert_rows_ne_nil _ last) (by simp)

/-- Candidates with different chunk ids are all kept, in their order. -/
theorem byChunkId_rows (h : (candidates.map RetrievalCandidate.chunkId).Nodup) :
    (byChunkId candidates).rows = candidates := by
  induction candidates using List.reverseRecOn with
  | nil => rfl
  | append_singleton candidates last ih =>
    rw [List.map_append, List.nodup_append] at h
    obtain ⟨hnodup, -, hnew⟩ := h
    have hrows := ih hnodup
    have hfresh : (byChunkId candidates).get (Keyed.key last) = none := by
      rw [Table.get_eq_none_iff, hrows]
      exact fun hmem => hnew _ hmem last.chunkId (List.mem_singleton_self _) rfl
    rw [byChunkId, List.foldl_append]
    change (Table.upsert (byChunkId candidates) last).rows = _
    rw [Table.upsert, Table.add, dif_pos hfresh]
    change (byChunkId candidates).rows ++ [last] = _
    rw [hrows]

/-! ## The ranked candidates -/

theorem mem_of_mem_ranked (h : candidate ∈ ranked query table) : candidate ∈ table.rows := by
  have hsorted := List.mem_of_mem_take h
  rwa [mem_sortedBy] at hsorted

theorem length_ranked_le (query : RetrievalQuery) (table : Table RetrievalCandidate) :
    (ranked query table).length ≤ query.topN := by
  rw [ranked, List.length_take]
  exact min_le_left _ _

theorem nodup_ranked (query : RetrievalQuery) (table : Table RetrievalCandidate) :
    ((ranked query table).map RetrievalCandidate.chunkId).Nodup := by
  have hsorted : ((sortedBy (fun item : RetrievalCandidate => -item.score.finalScore)
      table.rows).map RetrievalCandidate.chunkId).Nodup :=
    ((sortedBy_perm _ table.rows).map _).nodup_iff.2 table.nodup
  exact hsorted.sublist ((List.take_sublist _ _).map _)

theorem ranked_pairwise (query : RetrievalQuery) (table : Table RetrievalCandidate) :
    (ranked query table).Pairwise fun item item' =>
      item'.score.finalScore ≤ item.score.finalScore := by
  have hsorted := (sortedBy_pairwise (fun item : RetrievalCandidate => -item.score.finalScore)
    table.rows).sublist (List.take_sublist query.topN _)
  exact hsorted.imp fun h => neg_le_neg_iff.1 h

theorem ranked_eq_nil (htopN : 1 ≤ query.topN) : ranked query table = [] ↔ table.rows = [] := by
  have hlength := length_sortedBy (fun item : RetrievalCandidate => -item.score.finalScore)
    (l := table.rows)
  rw [ranked, List.take_eq_nil_iff, ← List.length_eq_zero_iff (l := sortedBy _ _), hlength,
    List.length_eq_zero_iff]
  exact or_iff_right (by omega)

/-- **Candidates are ranked as they are** exactly when they have different chunk ids, their scores
do not increase, and there are not too many of them. -/
theorem ranked_byChunkId_eq_self :
    ranked query (byChunkId candidates) = candidates ↔
      (candidates.map RetrievalCandidate.chunkId).Nodup ∧
        (candidates.Pairwise fun item item' => item'.score.finalScore ≤ item.score.finalScore) ∧
        candidates.length ≤ query.topN := by
  constructor
  · intro h
    have hnodup := nodup_ranked query (byChunkId candidates)
    have hpairwise := ranked_pairwise query (byChunkId candidates)
    have hlength := length_ranked_le query (byChunkId candidates)
    rw [h] at hnodup hpairwise hlength
    exact ⟨hnodup, hpairwise, hlength⟩
  · rintro ⟨hnodup, hpairwise, hlength⟩
    have hsorted : sortedBy (fun item : RetrievalCandidate => -item.score.finalScore) candidates =
        candidates := by
      refine List.Pairwise.insertionSort_eq (hpairwise.imp fun h => ?_)
      exact neg_le_neg h
    rw [ranked, byChunkId_rows hnodup, hsorted, List.take_of_length_le hlength]

/-! ## The decoration -/

/-- The base result is one for the query: the caller's tenant and the requested knowledge bases are
those of its query. -/
structure ForQuery (context : AuthorizationContext) (query : RetrievalQuery)
    (base : RetrievalResult) : Prop where
  valid : base.Valid
  tenantId : base.query.tenantId = context.tenantId
  knowledgeBaseIds : query.knowledgeBaseIds ⊆ base.query.knowledgeBaseIds

/-- The results of online retrieval are such. -/
theorem forQuery_of_retrieve {service : OnlineRetrievalService} {startedAt completedAt : ℕ}
    (h : service.retrieve context query startedAt completedAt = .ok base) :
    ForQuery context query base := by
  obtain ⟨hquery, htenant, hvalid⟩ := OnlineRetrievalService.valid_of_retrieve h
  refine ⟨hvalid, ?_, ?_⟩
  · rw [hquery, htenant]
  · rw [hquery]
    exact List.Subset.refl _

/-- What the decoration is meant to keep. -/
structure Conservative (retriever : AdvancedRetriever) (context : AuthorizationContext)
    (query : RetrievalQuery) (base result : RetrievalResult) : Prop where
  unchanged : ¬ retriever.Answered context query → result = base
  valid : retriever.Answered context query → result.Valid
  length_le : retriever.Answered context query → result.candidates.length ≤ query.topN
  nodup : retriever.Answered context query →
    (result.candidates.map RetrievalCandidate.chunkId).Nodup
  scope : retriever.Answered context query → ∀ candidate ∈ result.candidates,
    candidate ∈ base.candidates ∨
      candidate.tenantId = context.tenantId ∧
        candidate.knowledgeBaseId ∈ query.knowledgeBaseIds ∧
        candidate.documentVersionId ∈ retriever.active context candidate.knowledgeBaseId

/-- The base result is ranked as it is if it is all there is, and has a candidate if one is
added. -/
def Rankable (retriever : AdvancedRetriever) (context : AuthorizationContext)
    (query : RetrievalQuery) (base : RetrievalResult) : Prop :=
  (¬ retriever.Answered context query →
    (base.candidates.map RetrievalCandidate.chunkId).Nodup ∧
      (base.candidates.Pairwise fun item item' =>
        item'.score.finalScore ≤ item.score.finalScore) ∧
      base.candidates.length ≤ query.topN) ∧
  (retriever.allAccepted context query ≠ [] → base.candidates ≠ [])

/-- The copy of the base result is valid unless it keeps a reason for being empty. -/
theorem valid_ranked_iff (hquery : query.Valid) (hbase : ForQuery context query base) :
    RetrievalResult.Valid { base with
      candidates := ranked query (retriever.merged context query base.candidates) } ↔
      (retriever.allAccepted context query ≠ [] → base.candidates ≠ []) := by
  have hnil : ranked query (retriever.merged context query base.candidates) = [] ↔
      retriever.allAccepted context query = [] ∧ base.candidates = [] := by
    rw [ranked_eq_nil hquery.one_le_topN, merged_eq_foldl, foldl_keepBetter_rows_eq_nil,
      byChunkId_rows_eq_nil]
  constructor
  · intro hvalid haccepted hempty
    have hreason := hvalid.emptyReason.1 (hbase.valid.emptyReason.2 hempty)
    exact haccepted (hnil.1 hreason).1
  · intro h
    have hscope : ∀ candidate ∈ ranked query (retriever.merged context query base.candidates),
        candidate.tenantId = base.query.tenantId ∧
          candidate.knowledgeBaseId ∈ base.query.knowledgeBaseIds := by
      intro candidate hcandidate
      have hmerged := mem_of_mem_ranked hcandidate
      rw [merged_eq_foldl] at hmerged
      rcases mem_foldl_keepBetter hmerged with haccepted | hmem
      · obtain ⟨htenant, hid, -⟩ := scope_of_mem_allAccepted haccepted
        exact ⟨htenant.trans hbase.tenantId.symm, hbase.knowledgeBaseIds hid⟩
      · have hmem := mem_of_mem_byChunkId hmem
        exact ⟨hbase.valid.tenantId _ hmem, hbase.valid.knowledgeBaseId _ hmem⟩
    refine ⟨hbase.valid.traceId, hbase.valid.traceTenantId, hbase.valid.originalQuery,
      hbase.valid.requestId, ?_, fun candidate hmem => (hscope candidate hmem).1,
      fun candidate hmem => (hscope candidate hmem).2⟩
    refine hbase.valid.emptyReason.trans ((Iff.intro (fun hempty => ?_) And.right).trans hnil.symm)
    by_contra hnot
    exact h (fun haccepted => hnot ⟨haccepted, hempty⟩) hempty

/-- **When advanced retrieval is conservative.** -/
theorem retrieve_conservative_iff (hquery : query.Valid)
    (hanswer : retriever.base context query = .ok base) (hbase : ForQuery context query base) :
    ∃ result, retriever.retrieve context query = .ok result ∧
      (Conservative retriever context query base result ↔
        Rankable retriever context query base) := by
  refine ⟨{ base with candidates := ranked query (retriever.merged context query base.candidates) },
    ?_, ?_⟩
  · rw [retrieve, hanswer]
    rfl
  have hunchanged : ¬ retriever.Answered context query →
      (({ base with candidates := ranked query (retriever.merged context query base.candidates) } :
          RetrievalResult) = base ↔ ranked query (byChunkId base.candidates) = base.candidates) := by
    intro hnone
    rw [merged_eq_foldl, allAccepted_eq_nil hnone]
    exact ⟨fun h => congrArg RetrievalResult.candidates h, fun h => by
      rw [List.foldl_nil, h]⟩
  constructor
  · intro h
    refine ⟨fun hnone => ?_, fun haccepted => ?_⟩
    · exact ranked_byChunkId_eq_self.1 ((hunchanged hnone).1 (h.unchanged hnone))
    · have hanswered : retriever.Answered context query := by
        by_contra hnone
        exact haccepted (allAccepted_eq_nil hnone)
      exact (valid_ranked_iff hquery hbase).1 (h.valid hanswered) haccepted
  · rintro ⟨hrankable, hempty⟩
    refine ⟨fun hnone => ?_, fun _ => (valid_ranked_iff hquery hbase).2 hempty,
      fun _ => length_ranked_le _ _, fun _ => nodup_ranked _ _, fun _ candidate hcandidate => ?_⟩
    · exact (hunchanged hnone).2 (ranked_byChunkId_eq_self.2 (hrankable hnone))
    · have hmerged := mem_of_mem_ranked hcandidate
      rw [merged_eq_foldl] at hmerged
      rcases mem_foldl_keepBetter hmerged with haccepted | hmem
      · exact .inr (scope_of_mem_allAccepted haccepted)
      · exact .inl (mem_of_mem_byChunkId hmem)

/-! ## Two decorated retrievers -/

namespace Sample

def reader : AuthorizationContext := ⟨"t", "reader", "request", []⟩

theorem base_ne_nil : ["kb"] ≠ [] := by decide

theorem base_nodup : ["kb"].Nodup := by decide

def question : RetrievalQuery where
  tenantId := "t"
  text := "question"
  knowledgeBaseIds := ["kb"]
  traceId := "trace"
  knowledgeBaseIds_ne_nil := base_ne_nil
  knowledgeBaseIds_nodup := base_nodup

theorem question_valid : question.Valid := by
  constructor <;> decide

def found (chunkId : String) (finalScore : ℚ) : RetrievalCandidate :=
  ⟨"t", "kb", "d", "v", chunkId, "text", { finalScore := finalScore }⟩

def answering (candidates : List RetrievalCandidate) : RetrievalResult where
  query := question
  candidates := candidates
  trace := { traceId := "trace", tenantId := "t", authorizationApplied := true }
  emptyReason := if candidates = [] then some .noEvidence else none

theorem forQuery_answering {candidates : List RetrievalCandidate}
    (h : ∀ candidate ∈ candidates, candidate.tenantId = "t" ∧ candidate.knowledgeBaseId = "kb") :
    ForQuery reader question (answering candidates) := by
  refine ⟨⟨rfl, rfl, fun _ hnone => absurd hnone (by simp [answering]),
    fun _ hnone => absurd hnone (by simp [answering, question]), ?_, fun candidate hmem =>
      (h candidate hmem).1, fun candidate hmem => ?_⟩, rfl, List.Subset.refl _⟩
  · by_cases hnil : candidates = [] <;> simp [answering, hnil]
  · exact List.mem_singleton.2 (h candidate hmem).2

/-- A retriever over a fixed base, with an index of keywords that knows one chunk. -/
def retrieverOver (enabled : AdvancedCapability → Bool) (candidates : List RetrievalCandidate) :
    AdvancedRetriever where
  base _ _ := .ok (answering candidates)
  enabled := enabled
  providers _ := some fun _ _ _ => .ok [found "k" (1 / 2)]
  manifests _ := some
    { capability := .keywords
      tenantId := "t"
      knowledgeBaseId := "kb"
      documentVersionIds := ["v"]
      documentVersionIds_ne_nil := by decide }
  activeDocumentVersions _ := some ["v"]

/-- Everything is disabled. -/
def plain (candidates : List RetrievalCandidate) : AdvancedRetriever :=
  retrieverOver (fun _ => false) candidates

def withKeywords (candidates : List RetrievalCandidate) : AdvancedRetriever :=
  retrieverOver (fun capability => capability = .keywords) candidates

/-- Candidates as a reranker may leave them. -/
def reranked : List RetrievalCandidate := [found "a" (1 / 10), found "b" (9 / 10)]

theorem not_answered (candidates : List RetrievalCandidate) :
    ¬ (plain candidates).Answered reader question := by
  rintro ⟨capability, hcapability, -⟩
  have hnone : (plain candidates).enabledCapabilities = [] := rfl
  rw [hnone] at hcapability
  exact List.not_mem_nil hcapability

theorem answered (candidates : List RetrievalCandidate) :
    (withKeywords candidates).Answered reader question :=
  ⟨.keywords, List.mem_cons_self, "kb", List.mem_cons_self, rfl⟩

end Sample

/-- Without any provider the candidates of the base result are sorted again; and a result that was
empty says so with a candidate in it. -/
theorem not_conservative :
    (∃ result, (Sample.plain Sample.reranked).retrieve Sample.reader Sample.question = .ok result ∧
      ¬ Conservative (Sample.plain Sample.reranked) Sample.reader Sample.question
        (Sample.answering Sample.reranked) result) ∧
    ∃ result, (Sample.withKeywords []).retrieve Sample.reader Sample.question = .ok result ∧
      ¬ Conservative (Sample.withKeywords []) Sample.reader Sample.question (Sample.answering [])
        result := by
  constructor
  · refine ⟨_, rfl, fun h => ?_⟩
    have hsame := congrArg RetrievalResult.candidates
      (h.unchanged (Sample.not_answered Sample.reranked))
    exact absurd hsame (by decide +kernel)
  · refine ⟨_, rfl, fun h => ?_⟩
    have hreason := (h.valid (Sample.answered [])).emptyReason.1 rfl
    exact absurd hreason (by decide +kernel)

/-- A base result with one candidate, to which another one is added. -/
theorem retrieve_conservative_withKeywords :
    ∃ result, (Sample.withKeywords [Sample.found "a" 1]).retrieve Sample.reader
        Sample.question = .ok result ∧
      (Conservative (Sample.withKeywords [Sample.found "a" 1]) Sample.reader Sample.question
          (Sample.answering [Sample.found "a" 1]) result ↔
        Rankable (Sample.withKeywords [Sample.found "a" 1]) Sample.reader Sample.question
          (Sample.answering [Sample.found "a" 1])) :=
  retrieve_conservative_iff Sample.question_valid rfl
    (Sample.forQuery_answering fun _ hmem => by rw [List.mem_singleton.1 hmem]; exact ⟨rfl, rfl⟩)

end AdvancedRetriever
end Advanced
end Knowledge
end RagflowAgent
