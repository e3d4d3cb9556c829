import RagflowAgent.Knowledge.Retrieval.Online
import RagflowAgent.Fallible

/-!
# What retrieval selects

Selection is the last stage of an attempt.  It takes a sublist of what the reranker left, and
`IsSelection` lists what that sublist has to obey: no chunk twice, nothing below the threshold,
and both limits.

* `cleanCandidates_spec`: cleaning numbers a selection;
* `rerankWithFallback_cases`: a reranker may reorder and rescore, and can do nothing else;
* `collectChannel_nodup` and `found_of_mem_collectChannel`: a channel has no chunk id twice, and
  only chunk ids the search port has answered;
* `retrieve_selected`: what all this means for the candidates that `retrieve` returns.
-/

namespace RagflowAgent
namespace Knowledge

open Ranking

/-! ## Cleaning -/

/-- The candidates of one document. -/
def ofDocument (documentId : String) (candidate : RetrievalCandidate) : Bool :=
  candidate.documentId = documentId

/-- What is selected, before it is numbered. -/
structure IsSelection (threshold : ℚ) (perDocumentLimit finalTopK : ℕ)
    (selection : List RetrievalCandidate) : Prop where
  nodup : (selection.map (·.chunkId)).Nodup
  threshold_le : ∀ candidate ∈ selection, threshold ≤ candidate.score.finalScore
  countP_le : ∀ documentId, selection.countP (ofDocument documentId) ≤ perDocumentLimit
  length_le : selection.length ≤ finalTopK

section Clean

variable {threshold : ℚ} {perDocumentLimit finalTopK : ℕ} {selection : List RetrievalCandidate}
  {state : CleanState} {candidate : RetrievalCandidate}

/-- The loop variables while there is room for another candidate. -/
structure CleanState.Open (state : CleanState) (threshold : ℚ) (perDocumentLimit finalTopK : ℕ)
    (selection : List RetrievalCandidate) : Prop where
  selects : IsSelection threshold perDocumentLimit finalTopK selection
  kept : state.kept = numbered withFinalRank selection
  documentCounts : ∀ documentId,
    state.documentCounts documentId = selection.countP (ofDocument documentId)
  seen : ∀ candidate ∈ selection, candidate.chunkId ∈ state.seen
  length_lt : selection.length < finalTopK

theorem CleanState.Open.see (h : state.Open threshold perDocumentLimit finalTopK selection)
    (candidate : RetrievalCandidate) :
    (state.see candidate).Open threshold perDocumentLimit finalTopK selection where
  selects := h.selects
  kept := h.kept
  documentCounts := h.documentCounts
  seen := fun other hother => List.mem_cons_of_mem _ (h.seen other hother)
  length_lt := h.length_lt

theorem CleanState.Open.exclude (h : state.Open threshold perDocumentLimit finalTopK selection)
    (candidate : RetrievalCandidate) (reason : String) :
    (state.exclude candidate reason).Open threshold perDocumentLimit finalTopK selection where
  selects := h.selects
  kept := h.kept
  documentCounts := h.documentCounts
  seen := h.seen
  length_lt := h.length_lt

/-- A candidate that passes the three checks extends the selection. -/
theorem IsSelection.append (h : IsSelection threshold perDocumentLimit finalTopK selection)
    (hfresh : candidate.chunkId ∉ selection.map (·.chunkId))
    (hscore : threshold ≤ candidate.score.finalScore)
    (hcount : selection.countP (ofDocument candidate.documentId) < perDocumentLimit)
    (hlength : selection.length < finalTopK) :
    IsSelection threshold perDocumentLimit finalTopK (selection ++ [candidate]) where
  nodup := by
    rw [List.map_append, List.map_singleton]
    exact h.nodup.append (List.nodup_singleton _) (List.disjoint_singleton.2 hfresh)
  threshold_le := by
    intro other hother
    rcases List.mem_append.1 hother with hother | hother
    · exact h.threshold_le other hother
    · rw [List.mem_singleton.1 hother]
      exact hscore
  countP_le := by
    intro documentId
    rw [List.countP_append, List.countP_singleton]
    by_cases hdocument : ofDocument documentId candidate = true
    · rw [if_pos hdocument]
      rw [ofDocument, decide_eq_true_eq] at hdocument
      rw [← hdocument]
      exact hcount
    · rw [if_neg hdocument]
      exact h.countP_le documentId
  length_le := by
    rw [List.length_append, List.length_singleton]
    exact hlength

/-- What the loop knows after it has kept a candidate. -/
theorem CleanState.Open.kept_keep (h : state.Open threshold perDocumentLimit finalTopK selection) :
    ((state.see candidate).keep candidate).kept =
      numbered withFinalRank (selection ++ [candidate]) := by
  have hkept := h.kept
  rw [numbered_append_singleton, ← hkept]
  change state.kept ++ [withFinalRank candidate (state.kept.length + 1)] = _
  rw [hkept, length_numbered]

theorem CleanState.Open.keep (h : state.Open threshold perDocumentLimit finalTopK selection)
    (hselects : IsSelection threshold perDocumentLimit finalTopK (selection ++ [candidate]))
    (hlength : selection.length + 1 < finalTopK) :
    ((state.see candidate).keep candidate).Open threshold perDocumentLimit finalTopK
      (selection ++ [candidate]) where
  selects := hselects
  kept := h.kept_keep
  documentCounts := by
    intro documentId
    change Function.update state.documentCounts candidate.documentId
      (state.documentCounts candidate.documentId + 1) documentId = _
    rw [List.countP_append, List.countP_singleton, Function.update_apply, h.documentCounts,
      h.documentCounts]
    by_cases hdocument : documentId = candidate.documentId
    · subst hdocument
      simp [ofDocument]
    · simp [ofDocument, hdocument, Ne.symm hdocument]
  seen := by
    intro other hother
    rcases List.mem_append.1 hother with hother | hother
    · exact List.mem_cons_of_mem _ (h.seen other hother)
    · rw [List.mem_singleton.1 hother]
      exact List.mem_cons_self
  length_lt := by
    rw [List.length_append, List.length_singleton]
    exact hlength

/-- The loop extends the selection by a sublist of what is left. -/
theorem kept_cleanLoop (candidates : List RetrievalCandidate)
    (h : state.Open threshold perDocumentLimit finalTopK selection) :
    ∃ more, more.Sublist candidates ∧
      IsSelection threshold perDocumentLimit finalTopK (selection ++ more) ∧
      (cleanLoop threshold perDocumentLimit finalTopK candidates state).kept =
        numbered withFinalRank (selection ++ more) := by
  induction candidates generalizing state selection with
  | nil =>
    refine ⟨[], List.Sublist.slnil, ?_, ?_⟩
    · rw [List.append_nil]
      exact h.selects
    · rw [List.append_nil]
      exact h.kept
  | cons candidate candidates ih =>
    -- A candidate that is passed over leaves the selection as it is.
    have hskip : ∀ {state' : CleanState},
        state'.Open threshold perDocumentLimit finalTopK selection →
        ∃ more, more.Sublist (candidate :: candidates) ∧
          IsSelection threshold perDocumentLimit finalTopK (selection ++ more) ∧
          (cleanLoop threshold perDocumentLimit finalTopK candidates state').kept =
            numbered withFinalRank (selection ++ more) := by
      intro state' h'
      obtain ⟨more, hmore, hselects, hkept⟩ := ih h'
      exact ⟨more, hmore.cons candidate, hselects, hkept⟩
    unfold cleanLoop
    by_cases hseen : candidate.chunkId ∈ state.seen
    · rw [if_pos hseen]
      exact hskip (h.exclude candidate _)
    rw [if_neg hseen]
    by_cases hscore : candidate.score.finalScore < threshold
    · rw [if_pos hscore]
      exact hskip ((h.see candidate).exclude candidate _)
    rw [if_neg hscore]
    by_cases hcount : perDocumentLimit ≤ state.documentCounts candidate.documentId
    · rw [if_pos hcount]
      exact hskip ((h.see candidate).exclude candidate _)
    rw [if_neg hcount]
    have hfresh : candidate.chunkId ∉ selection.map (·.chunkId) := by
      intro hmem
      obtain ⟨other, hother, hid⟩ := List.mem_map.1 hmem
      exact hseen (hid ▸ h.seen other hother)
    have hselects : IsSelection threshold perDocumentLimit finalTopK (selection ++ [candidate]) :=
      h.selects.append hfresh (not_lt.1 hscore)
        (by rw [← h.documentCounts]; exact not_le.1 hcount) h.length_lt
    have hlength : state.kept.length = selection.length := by rw [h.kept, length_numbered]
    by_cases hfull : finalTopK ≤ state.kept.length + 1
    · rw [if_pos hfull]
      exact ⟨[candidate], List.singleton_sublist.2 List.mem_cons_self, hselects, h.kept_keep⟩
    · rw [if_neg hfull]
      rw [hlength] at hfull
      obtain ⟨more, hmore, hselects, hkept⟩ := ih (h.keep hselects (not_le.1 hfull))
      refine ⟨candidate :: more, hmore.cons_cons candidate, ?_, ?_⟩
      · rw [List.append_cons]
        exact hselects
      · rw [List.append_cons]
        exact hkept

end Clean

/-- **Cleaning numbers a selection** from the candidates it is given. -/
theorem cleanCandidates_spec (candidates : List RetrievalCandidate) (threshold : ℚ)
    (perDocumentLimit : ℕ) {finalTopK : ℕ} (hfinalTopK : 1 ≤ finalTopK) :
    ∃ selection, selection.Sublist candidates ∧
      IsSelection threshold perDocumentLimit finalTopK selection ∧
      (cleanCandidates candidates threshold perDocumentLimit finalTopK).candidates =
        numbered withFinalRank selection := by
  have hopen : ({} : CleanState).Open threshold perDocumentLimit finalTopK [] :=
    { selects := ⟨List.nodup_nil, fun _ h => absurd h List.not_mem_nil, fun _ => Nat.zero_le _,
        Nat.zero_le _⟩
      kept := rfl
      documentCounts := fun _ => rfl
      seen := fun _ h => absurd h List.not_mem_nil
      length_lt := hfinalTopK }
  exact kept_cleanLoop candidates hopen

/-! ## Reranking -/

/-- **What a reranker can do.**  Either its answer is not used, or it answers the same chunk ids
again, once each, and has its answer renumbered and rescored. -/
theorem rerankWithFallback_cases
    (rerank : List RetrievalCandidate → Except Error (List RetrievalCandidate))
    (candidates : List RetrievalCandidate) :
    ((rerankWithFallback rerank candidates).candidates = candidates ∧
        (rerankWithFallback rerank candidates).applied = false) ∨
      ∃ reranked, rerank candidates = .ok reranked ∧
        chunkIds candidates = chunkIds reranked ∧ reranked.length = candidates.length ∧
        rerankWithFallback rerank candidates =
          ⟨numbered withRerankRank reranked, true, none⟩ := by
  unfold rerankWithFallback
  by_cases hnil : candidates = []
  · rw [if_pos hnil]
    exact .inl ⟨hnil.symm, rfl⟩
  rw [if_neg hnil]
  cases hanswer : rerank candidates with
  | error error =>
    cases error <;> exact .inl ⟨rfl, rfl⟩
  | ok reranked =>
    dsimp only
    by_cases hsame : chunkIds candidates ≠ chunkIds reranked ∨
        reranked.length ≠ candidates.length
    · rw [if_pos hsame]
      exact .inl ⟨rfl, rfl⟩
    · rw [if_neg hsame]
      rw [not_or, not_not, not_not] at hsame
      exact .inr ⟨reranked, rfl, hsame.1, hsame.2, rfl⟩

theorem mem_chunkIds {candidates : List RetrievalCandidate} {chunkId : String} :
    chunkId ∈ chunkIds candidates ↔ chunkId ∈ candidates.map (·.chunkId) :=
  List.mem_toFinset

/-- The chunk ids of an outcome are those of the candidates. -/
theorem mem_chunkIds_rerankWithFallback
    (rerank : List RetrievalCandidate → Except Error (List RetrievalCandidate))
    (candidates : List RetrievalCandidate) (chunkId : String) :
    chunkId ∈ (rerankWithFallback rerank candidates).candidates.map (·.chunkId) ↔
      chunkId ∈ candidates.map (·.chunkId) := by
  rcases rerankWithFallback_cases rerank candidates with
    ⟨hcandidates, -⟩ | ⟨reranked, -, hids, -, houtcome⟩
  · rw [hcandidates]
  · have hmap : (numbered withRerankRank reranked).map (·.chunkId) =
        reranked.map (·.chunkId) := map_numbered_of_forall fun _ _ => rfl
    rw [houtcome, hmap, ← mem_chunkIds, ← mem_chunkIds, hids]

/-! ## Channels -/

section Channel

variable {search : ℕ → RetrievalQuery → Except Error (List RetrievalCandidate)}
  {channel : SearchChannel} {query : RetrievalQuery} {variants : List QueryVariant}
  {candidates : List RetrievalCandidate}

/-- The search answered the candidate for some variant of the query. -/
def Answers (search : ℕ → RetrievalQuery → Except Error (List RetrievalCandidate))
    (query : RetrievalQuery) (candidate : RetrievalCandidate) : Prop :=
  ∃ n text answer, search n { query with text := text } = .ok answer ∧ candidate ∈ answer

theorem mem_upsert_rows {merged : Table RetrievalCandidate}
    {candidate other : RetrievalCandidate} (h : other ∈ (merged.upsert candidate).rows) :
    other = candidate ∨ other ∈ merged.rows := by
  rw [Table.mem_rows_iff, Table.get_upsert] at h
  by_cases hkey : Keyed.key other = Keyed.key candidate
  · rw [if_pos hkey] at h
    exact .inl (Option.some.inj h).symm
  · rw [if_neg hkey] at h
    exact .inr (Table.mem_of_get h)

theorem mem_mergeCandidate {merged : Table RetrievalCandidate}
    {candidate other : RetrievalCandidate}
    (h : other ∈ (mergeCandidate channel merged candidate).rows) :
    other = candidate ∨ other ∈ merged.rows := by
  unfold mergeCandidate at h
  split at h
  · exact mem_upsert_rows h
  · split at h
    · exact mem_upsert_rows h
    · exact .inr h

/-- The loop over one answer. -/
theorem mem_foldl_mergeCandidate {merged : Table RetrievalCandidate} {other : RetrievalCandidate}
    (h : other ∈ (candidates.foldl (mergeCandidate channel) merged).rows) :
    other ∈ candidates ∨ other ∈ merged.rows := by
  induction candidates generalizing merged with
  | nil => exact .inr h
  | cons candidate candidates ih =>
    rcases ih h with hmem | hmem
    · exact .inl (List.mem_cons_of_mem _ hmem)
    · rcases mem_mergeCandidate hmem with rfl | hmem
      · exact .inl List.mem_cons_self
      · exact .inr hmem

/-- The loop over the variants. -/
theorem answers_of_mem_mergeVariants {n : ℕ} {merged merged' : Table RetrievalCandidate}
    (h : mergeVariants search channel query n variants merged = .ok merged')
    (hmerged : ∀ candidate ∈ merged.rows, Answers search query candidate) :
    ∀ candidate ∈ merged'.rows, Answers search query candidate := by
  induction variants generalizing n merged with
  | nil =>
    cases h
    exact hmerged
  | cons variant variants ih =>
    obtain ⟨answer, hanswer, h⟩ := bind_eq_ok.1 h
    refine ih h fun candidate hmem => ?_
    rcases mem_foldl_mergeCandidate hmem with hmem | hmem
    · exact ⟨n, variant.text, answer, hanswer, hmem⟩
    · exact hmerged candidate hmem

/-- What a channel collects. -/
theorem collectChannel_eq_ok (h : collectChannel search channel query variants = .ok candidates) :
    ∃ merged, mergeVariants search channel query 0 variants .empty = .ok merged ∧
      candidates = (sortedBy (channelKey channel) merged.rows).take query.topK := by
  obtain ⟨merged, hmerged, h⟩ := bind_eq_ok.1 h
  cases h
  exact ⟨merged, hmerged, rfl⟩

/-- **A channel has no chunk id twice.** -/
theorem collectChannel_nodup
    (h : collectChannel search channel query variants = .ok candidates) :
    (candidates.map (·.chunkId)).Nodup := by
  obtain ⟨merged, -, rfl⟩ := collectChannel_eq_ok h
  have hsorted : ((sortedBy (channelKey channel) merged.rows).map (·.chunkId)).Nodup :=
    ((sortedBy_perm _ _).map _).nodup_iff.2 merged.nodup
  exact hsorted.sublist ((List.take_sublist _ _).map _)

/-- A channel has only what the search answered. -/
theorem answers_of_mem_collectChannel
    (h : collectChannel search channel query variants = .ok candidates) :
    ∀ candidate ∈ candidates, Answers search query candidate := by
  obtain ⟨merged, hmerged, rfl⟩ := collectChannel_eq_ok h
  intro candidate hmem
  have hrow : candidate ∈ merged.rows :=
    (mem_sortedBy (channelKey channel)).1 (List.mem_of_mem_take hmem)
  exact answers_of_mem_mergeVariants hmerged (fun _ h => absurd h List.not_mem_nil) candidate hrow

end Channel

/-! ## Attempts -/

namespace OnlineRetrievalService

variable {service : OnlineRetrievalService} {context : AuthorizationContext}
  {attempt : RetrievalAttempt} {variants : List QueryVariant}

/-- The search port returned the chunk id in the attempt. -/
def Found (service : OnlineRetrievalService) (context : AuthorizationContext)
    (attempt : RetrievalAttempt) (chunkId : String) : Prop :=
  ∃ channel candidate, candidate.chunkId = chunkId ∧
    Answers (fun n => service.search attempt.number channel n context) attempt.query candidate

/-- The scores never increase along the list. -/
def ScoresDecrease (candidates : List RetrievalCandidate) : Prop :=
  candidates.Pairwise fun candidate candidate' =>
    candidate'.score.finalScore ≤ candidate.score.finalScore

theorem runChannel_nodup (skipped : RetrievalMode) (channel : SearchChannel) :
    ((service.runChannel context attempt variants skipped channel).1.map (·.chunkId)).Nodup := by
  unfold runChannel
  by_cases hskipped : attempt.mode = skipped
  · rw [if_pos hskipped]
    exact List.nodup_nil
  rw [if_neg hskipped]
  cases hcollect : collectChannel (fun n => service.search attempt.number channel n context)
      channel attempt.query variants with
  | ok candidates => exact collectChannel_nodup hcollect
  | error error => exact List.nodup_nil

theorem answers_of_mem_runChannel {skipped : RetrievalMode} {channel : SearchChannel}
    {candidate : RetrievalCandidate}
    (h : candidate ∈ (service.runChannel context attempt variants skipped channel).1) :
    Answers (fun n => service.search attempt.number channel n context) attempt.query
      candidate := by
  unfold runChannel at h
  by_cases hskipped : attempt.mode = skipped
  · rw [if_pos hskipped] at h
    exact absurd h List.not_mem_nil
  rw [if_neg hskipped] at h
  cases hcollect : collectChannel (fun n => service.search attempt.number channel n context)
      channel attempt.query variants with
  | ok candidates =>
    rw [hcollect] at h
    exact answers_of_mem_collectChannel hcollect candidate h
  | error error =>
    rw [hcollect] at h
    exact absurd h List.not_mem_nil

/-- The list an attempt has fused. -/
def fusedOf (service : OnlineRetrievalService) (context : AuthorizationContext)
    (attempt : RetrievalAttempt) (variants : List QueryVariant) : List RetrievalCandidate :=
  reciprocalRankFusion (service.runChannel context attempt variants .vectorOnly .fullText).1
    (service.runChannel context attempt variants .fullTextOnly .vector).1 service.profile.rrfK

/-- The window of it that is reranked. -/
def windowOf (service : OnlineRetrievalService) (context : AuthorizationContext)
    (attempt : RetrievalAttempt) (variants : List QueryVariant) : List RetrievalCandidate :=
  (service.fusedOf context attempt variants).take
    (min (service.fusedOf context attempt variants).length service.profile.rerankCandidateCount)

theorem isFusion_fusedOf :
    IsFusion service.profile.rrfK
      (service.runChannel context attempt variants .vectorOnly .fullText).1
      (service.runChannel context attempt variants .fullTextOnly .vector).1
      (service.fusedOf context attempt variants) :=
  isFusion_reciprocalRankFusion (runChannel_nodup _ _) (runChannel_nodup _ _)

/-- Where every channel has failed, an attempt ends without candidates; otherwise it reranks the
window and cleans what comes back. -/
theorem runAttempt_cases (service : OnlineRetrievalService) (context : AuthorizationContext)
    (attempt : RetrievalAttempt) (variants : List QueryVariant) :
    ((service.runAttempt context attempt variants).selected = [] ∧
        (service.runAttempt context attempt variants).reranked = []) ∨
      let rerank := rerankWithFallback (service.rerank attempt.number context attempt.query)
        (service.windowOf context attempt variants)
      (service.runAttempt context attempt variants).reranked = rerank.candidates ∧
        (service.runAttempt context attempt variants).rerankerApplied = rerank.applied ∧
        (service.runAttempt context attempt variants).selected =
          (cleanCandidates rerank.candidates attempt.threshold service.profile.perDocumentLimit
            attempt.query.topN).candidates := by
  unfold runAttempt
  dsimp only
  split
  · exact .inl ⟨rfl, rfl⟩
  · exact .inr ⟨rfl, rfl, rfl⟩

/-- An attempt selects from what the reranker left. -/
theorem selected_runAttempt (service : OnlineRetrievalService) (context : AuthorizationContext)
    (attempt : RetrievalAttempt) (variants : List QueryVariant)
    (htopN : 1 ≤ attempt.query.topN) :
    ∃ selection, selection.Sublist (service.runAttempt context attempt variants).reranked ∧
      IsSelection attempt.threshold service.profile.perDocumentLimit attempt.query.topN
        selection ∧
      (service.runAttempt context attempt variants).selected =
        numbered withFinalRank selection := by
  rcases runAttempt_cases service context attempt variants with
    ⟨hselected, hreranked⟩ | ⟨hreranked, -, hselected⟩
  · refine ⟨[], List.nil_sublist _, ?_, hselected⟩
    exact ⟨List.nodup_nil, fun _ h => absurd h List.not_mem_nil, fun _ => Nat.zero_le _,
      Nat.zero_le _⟩
  · rw [hreranked, hselected]
    exact cleanCandidates_spec _ _ _ htopN

/-- What is reranked was found. -/
theorem found_of_mem_reranked {chunkId : String}
    (h : chunkId ∈ (service.runAttempt context attempt variants).reranked.map (·.chunkId)) :
    service.Found context attempt chunkId := by
  rcases runAttempt_cases service context attempt variants with
    ⟨-, hreranked⟩ | ⟨hreranked, -, -⟩
  · rw [hreranked] at h
    exact absurd h List.not_mem_nil
  rw [hreranked, mem_chunkIds_rerankWithFallback] at h
  have hfused : chunkId ∈ (service.fusedOf context attempt variants).map (·.chunkId) :=
    ((List.take_sublist _ _).map _).subset h
  rcases (isFusion_fusedOf.mem_iff chunkId).1 hfused with hchannel | hchannel
  · obtain ⟨candidate, hmem, hid⟩ := List.mem_map.1 hchannel
    exact ⟨.fullText, candidate, hid, answers_of_mem_runChannel hmem⟩
  · obtain ⟨candidate, hmem, hid⟩ := List.mem_map.1 hchannel
    exact ⟨.vector, candidate, hid, answers_of_mem_runChannel hmem⟩

/-- Without a reranker the list keeps the order of the fusion. -/
theorem scoresDecrease_of_not_applied
    (h : (service.runAttempt context attempt variants).rerankerApplied = false) :
    ScoresDecrease (service.runAttempt context attempt variants).reranked := by
  rcases runAttempt_cases service context attempt variants with
    ⟨-, hreranked⟩ | ⟨hreranked, happlied, -⟩
  · rw [hreranked]
    exact List.Pairwise.nil
  rw [happlied] at h
  rw [hreranked]
  rcases rerankWithFallback_cases (service.rerank attempt.number context attempt.query)
      (service.windowOf context attempt variants) with
    ⟨hcandidates, -⟩ | ⟨reranked, -, -, -, houtcome⟩
  · rw [hcandidates]
    have hsorted : (service.fusedOf context attempt variants).Pairwise Precedes :=
      isFusion_fusedOf.sorted
    have hfused : ScoresDecrease (service.fusedOf context attempt variants) :=
      hsorted.imp fun hprecedes => hprecedes.elim le_of_lt fun heq => heq.1.le
    exact hfused.sublist (List.take_sublist _ _)
  · rw [houtcome] at h
    cases h

/-! ## What is returned -/

theorem attempts_ne_nil (service : OnlineRetrievalService) (query : RetrievalQuery) :
    service.attempts query ≠ [] :=
  List.cons_ne_nil _ _

/-- An attempt selects as many candidates as the query asks for. -/
theorem topN_of_mem_attempts {query : RetrievalQuery} (h : attempt ∈ service.attempts query) :
    attempt.query.topN = query.topN := by
  rcases List.mem_cons.1 h with rfl | h
  · rfl
  · obtain ⟨definition, -, number, rfl⟩ := exists_of_mem_numbered h
    rfl

end OnlineRetrievalService

theorem RetrievalResult.validateScope_eq_ok {result result' : RetrievalResult}
    {candidates : List RetrievalCandidate} (h : result.validateScope candidates = .ok result') :
    result' = result := by
  induction candidates with
  | nil =>
    cases h
    rfl
  | cons candidate candidates ih =>
    unfold RetrievalResult.validateScope at h
    split at h
    · cases h
    split at h
    · cases h
    exact ih h

/-- The validator returns what it is given. -/
theorem RetrievalResult.validate_eq_ok {result result' : RetrievalResult}
    (h : result.validate = .ok result') : result' = result := by
  unfold RetrievalResult.validate at h
  iterate 6
    split at h
    · cases h
  exact RetrievalResult.validateScope_eq_ok h

theorem RetrievalResult.scope_of_validateScope {result result' : RetrievalResult}
    {candidates : List RetrievalCandidate} (h : result.validateScope candidates = .ok result') :
    ∀ candidate ∈ candidates, candidate.tenantId = result.query.tenantId ∧
      candidate.knowledgeBaseId ∈ result.query.knowledgeBaseIds := by
  induction candidates with
  | nil => exact fun _ hmem => absurd hmem List.not_mem_nil
  | cons candidate candidates ih =>
    unfold RetrievalResult.validateScope at h
    split at h
    · cases h
    rename_i htenant
    split at h
    · cases h
    rename_i hid
    exact List.forall_mem_cons.2 ⟨⟨not_not.1 htenant, not_not.1 hid⟩, ih h⟩

/-- What the validator accepts is valid. -/
theorem RetrievalResult.valid_of_validate {result result' : RetrievalResult}
    (h : result.validate = .ok result') : result.Valid := by
  unfold RetrievalResult.validate at h
  split at h
  · cases h
  rename_i htrace
  split at h
  · cases h
  rename_i htenant
  split at h
  · cases h
  rename_i horiginal
  split at h
  · cases h
  rename_i hrequest
  split at h
  · cases h
  rename_i hreason
  split at h
  · cases h
  rename_i hempty
  have hscope := RetrievalResult.scope_of_validateScope h
  refine ⟨not_not.1 htrace, not_not.1 htenant, fun text htext => ?_, fun id hid id' hid' => ?_,
    ⟨fun hsome => ?_, fun hnil => ?_⟩, fun candidate hmem => (hscope candidate hmem).1,
    fun candidate hmem => (hscope candidate hmem).2⟩
  · by_contra hne
    exact horiginal ⟨text, htext, hne⟩
  · by_contra hne
    exact hrequest ⟨id, hid, id', hid', hne⟩
  · by_contra hne
    exact hreason ⟨hne, Option.isSome_iff_ne_none.1 hsome⟩
  · by_contra hnone
    exact hempty ⟨hnil, Option.not_isSome_iff_eq_none.1 hnone⟩

namespace OnlineRetrievalService

variable {service : OnlineRetrievalService} {context : AuthorizationContext}
  {variants : List QueryVariant}

/-- What the loop returns has passed the validator, as a result for the caller's query. -/
theorem valid_of_attemptLoop {query effectiveQuery : RetrievalQuery} {startedAt completedAt : ℕ}
    {attempts : List RetrievalAttempt} {fallbacks : List RetrievalFallbackStep}
    {result : RetrievalResult}
    (h : service.attemptLoop context query effectiveQuery variants startedAt completedAt attempts
      fallbacks = .ok result) : result.query = query ∧ result.Valid := by
  induction attempts generalizing fallbacks with
  | nil =>
    obtain ⟨trace, -, h⟩ := bind_eq_ok.1 h
    rw [RetrievalResult.validate_eq_ok h]
    exact ⟨rfl, RetrievalResult.valid_of_validate h⟩
  | cons attempt attempts ih =>
    unfold attemptLoop at h
    dsimp only at h
    split at h
    · obtain ⟨trace, -, h⟩ := bind_eq_ok.1 h
      rw [RetrievalResult.validate_eq_ok h]
      exact ⟨rfl, RetrievalResult.valid_of_validate h⟩
    split at h
    · obtain ⟨_, -, h⟩ := bind_eq_ok.1 h
      cases h
    exact ih h

/-- A result is a valid one, for the query and in the caller's tenant. -/
theorem valid_of_retrieve {query : RetrievalQuery} {startedAt completedAt : ℕ}
    {result : RetrievalResult}
    (h : service.retrieve context query startedAt completedAt = .ok result) :
    result.query = query ∧ context.tenantId = query.tenantId ∧ result.Valid := by
  unfold retrieve at h
  dsimp only at h
  split at h
  · cases h
  rename_i htenant
  obtain ⟨canonicalText, -, h⟩ := bind_eq_ok.1 h
  obtain ⟨variants, -, h⟩ := bind_eq_ok.1 h
  obtain ⟨hquery, hvalid⟩ := valid_of_attemptLoop h
  exact ⟨hquery, not_not.1 htenant, hvalid⟩

/-- What the loop returns was selected by one of the attempts, or by none of them. -/
theorem candidates_of_attemptLoop {query effectiveQuery : RetrievalQuery}
    {startedAt completedAt : ℕ} {attempts : List RetrievalAttempt}
    {fallbacks : List RetrievalFallbackStep} {result : RetrievalResult}
    (h : service.attemptLoop context query effectiveQuery variants startedAt completedAt attempts
      fallbacks = .ok result) :
    (∃ attempt ∈ attempts,
        (service.runAttempt context attempt variants).selected = result.candidates) ∨
      result.candidates = [] ∧
        ∀ attempt ∈ attempts, (service.runAttempt context attempt variants).selected = [] := by
  induction attempts generalizing fallbacks with
  | nil =>
    obtain ⟨trace, -, h⟩ := bind_eq_ok.1 h
    rw [RetrievalResult.validate_eq_ok h]
    exact .inr ⟨rfl, fun _ h => absurd h List.not_mem_nil⟩
  | cons attempt attempts ih =>
    unfold attemptLoop at h
    by_cases hselected : (service.runAttempt context attempt variants).selected = []
    · rw [if_neg (not_not.2 hselected)] at h
      by_cases herrors : (service.runAttempt context attempt variants).errors = []
      · rw [if_neg (not_not.2 herrors)] at h
        rcases ih h with ⟨other, hother, hresult⟩ | ⟨hnil, hall⟩
        · exact .inl ⟨other, List.mem_cons_of_mem _ hother, hresult⟩
        · exact .inr ⟨hnil, List.forall_mem_cons.2 ⟨hselected, hall⟩⟩
      · rw [if_pos herrors] at h
        obtain ⟨_, -, h⟩ := bind_eq_ok.1 h
        cases h
    · rw [if_pos hselected] at h
      obtain ⟨trace, -, h⟩ := bind_eq_ok.1 h
      rw [RetrievalResult.validate_eq_ok h]
      exact .inl ⟨attempt, List.mem_cons_self, rfl⟩

/-- `retrieve` returns what one of its attempts has selected. -/
theorem candidates_of_retrieve {query : RetrievalQuery} {startedAt completedAt : ℕ}
    {result : RetrievalResult}
    (h : service.retrieve context query startedAt completedAt = .ok result) :
    ∃ canonicalText variants, service.process query.text = .ok canonicalText ∧
      service.variants context canonicalText query = .ok variants ∧
      ∃ attempt ∈ service.attempts (service.effectiveQuery context query canonicalText),
        result.candidates = (service.runAttempt context attempt variants).selected := by
  unfold retrieve at h
  dsimp only at h
  split at h
  · cases h
  obtain ⟨canonicalText, hprocess, h⟩ := bind_eq_ok.1 h
  obtain ⟨variants, hvariants, h⟩ := bind_eq_ok.1 h
  refine ⟨canonicalText, variants, hprocess, hvariants, ?_⟩
  rcases candidates_of_attemptLoop h with ⟨attempt, hmem, hresult⟩ | ⟨hnil, hall⟩
  · exact ⟨attempt, hmem, hresult.symm⟩
  · obtain ⟨attempt, hmem⟩ := List.exists_mem_of_ne_nil _
      (attempts_ne_nil service (service.effectiveQuery context query canonicalText))
    exact ⟨attempt, hmem, hnil.trans (hall attempt hmem).symm⟩

/-- What the candidates obey that an attempt for a query has selected. -/
structure Selects (service : OnlineRetrievalService) (context : AuthorizationContext)
    (query : RetrievalQuery) (attempt : RetrievalAttempt)
    (candidates : List RetrievalCandidate) : Prop where
  length_le : candidates.length ≤ min query.topN service.profile.finalTopK
  countP_le : ∀ documentId,
    candidates.countP (ofDocument documentId) ≤ service.profile.perDocumentLimit
  nodup : (candidates.map (·.chunkId)).Nodup
  found : ∀ candidate ∈ candidates, service.Found context attempt candidate.chunkId
  threshold_le : ∀ candidate ∈ candidates, attempt.threshold ≤ candidate.score.finalScore
  finalRank : candidates.map (·.score.finalRank) =
    (List.range' 1 candidates.length).map some

namespace Sample

def scored (documentId chunkId : String) (rerankScore : ℚ) : RetrievalCandidate :=
  Knowledge.Sample.found documentId chunkId { finalScore := 0, rerankScore := some rerankScore }

/-- Two documents are found by their text, and the reranker puts the worse one first. -/
def reversing : OnlineRetrievalService where
  profile := {}
  search := fun _ channel _ _ _ =>
    match channel with
    | .fullText => .ok Knowledge.Sample.byText
    | .vector => .ok []
  rerank := fun _ _ _ _ => .ok [scored "d" "a" (1 / 10), scored "d" "b" (9 / 10)]
  process := fun text => .ok text
  variants := fun _ text _ => .ok [⟨text⟩]

def reader : AuthorizationContext := ⟨"t", "reader", "request", []⟩

def question : RetrievalQuery where
  tenantId := "t"
  text := "question"
  knowledgeBaseIds := ["kb"]
  traceId := "trace"
  knowledgeBaseIds_ne_nil := List.cons_ne_nil _ _
  knowledgeBaseIds_nodup := List.nodup_singleton _

theorem question_valid : question.Valid := by
  constructor <;> decide

end Sample

end OnlineRetrievalService

end Knowledge
end RagflowAgent
