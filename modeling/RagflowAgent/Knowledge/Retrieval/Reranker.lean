import RagflowAgent.Agent.Domain.Json
import RagflowAgent.Knowledge.Retrieval.Selection

/-!
# The endpoint that reranks

`BgeRerankerAdapter.rerank` sends the texts of the candidates to an endpoint and reads from its
answer, result by result, the index of a candidate and the score it has now.

* `readResult` reads a result, and `Ranks` says that the results name every candidate once;
* `rankResults_eq_ok_iff` is the loop over the results, `rerank_eq_ok_iff` the call;
* `rerankWithFallback_rerank`: whatever the endpoint answers, the candidates that come out of
  `rerankWithFallback` are those that went in, and they are rescored exactly when the answer ranks
  them.

JSON numbers are read as integers and rationals.
-/

namespace RagflowAgent
namespace Knowledge

open Agent (Json)
open Ranking

/-! ## Values -/

/-- The value as an `int`.  A truth value is one. -/
def pyInt? : Json → Option ℤ
  | .bool value => some value.toNat
  | .int value => some value
  | _ => none

/-- `float(value)`, if the value is an `int` or a `float`. -/
def pyFloat? : Json → Option ℚ
  | .float value => some value
  | value => (pyInt? value).map fun n => n

namespace BgeRerankerAdapter

/-- `item.get("relevance_score", item.get("score"))`. -/
def relevance (entries : List (String × Json)) : Json :=
  (Json.get entries "relevance_score").getD ((Json.get entries "score").getD .null)

/-- The candidate with the rank and the score that the endpoint has given it. -/
def ranked (candidate : RetrievalCandidate) (score : ℚ) (rank : ℕ) : RetrievalCandidate :=
  { candidate with
    score := { candidate.score with
      finalScore := score
      rerankScore := some score
      rerankRank := some rank } }

/-- The loop over the results, with the indexes that are used and the rank of the next result. -/
def rankResults (candidates : List RetrievalCandidate) :
    List ℤ → ℕ → List Json → Except Error (List RetrievalCandidate)
  | _, _, [] => .ok []
  | used, rank, .dict entries :: items => do
    match pyInt? ((Json.get entries "index").getD .null) with
    | none =>
      throw (.conflict "reranker returned an invalid candidate index" "reranker_invalid_result")
    | some index =>
      if index ∈ used ∨ ¬ (0 ≤ index ∧ index < candidates.length) then
        throw (.conflict "reranker returned an invalid candidate index" "reranker_invalid_result")
      match pyFloat? (relevance entries), candidates[index.toNat]? with
      | some score, some candidate =>
        let rest ← rankResults candidates (index :: used) (rank + 1) items
        return ranked candidate score rank :: rest
      | _, _ =>
        throw (.conflict "reranker returned an invalid score" "reranker_invalid_result")
  | _, _, _ :: _ =>
    throw (.conflict "reranker result item is invalid" "reranker_invalid_result")

end BgeRerankerAdapter

/-- What is sent to the endpoint. -/
structure RerankCall where
  model : String
  query : String
  documents : List String
  topN : ℕ

/-- The adapter, with the exchange over HTTP: it raises, or it has the decoded body. -/
structure BgeRerankerAdapter where
  modelId : String
  post : RerankCall → Except Error Json

namespace BgeRerankerAdapter

variable (adapter : BgeRerankerAdapter)

def call (query : RetrievalQuery) (candidates : List RetrievalCandidate) : RerankCall where
  model := adapter.modelId
  query := query.text
  documents := candidates.map (·.content)
  topN := candidates.length

/-- `rerank`. -/
def rerank (context : AuthorizationContext) (query : RetrievalQuery)
    (candidates : List RetrievalCandidate) : Except Error (List RetrievalCandidate) := do
  if context.tenantId ≠ query.tenantId then
    throw (.conflict "rerank tenant does not match request context" "reranker_tenant_mismatch")
  match ← adapter.post (adapter.call query candidates) with
  | .dict payload =>
    match Json.get payload "results" with
    | some (.list results) =>
      let reranked ← rankResults candidates [] 1 results
      if reranked.length ≠ candidates.length then
        throw (.conflict "reranker returned a partial result" "reranker_partial_result")
      return reranked
    | _ => throw (.conflict "reranker returned no result list" "reranker_invalid_result")
  | _ => throw (.missingAttribute "object has no attribute 'get'")

/-! ## What a ranking is -/

/-- What a result says: the index of a candidate, and its score. -/
def readResult : Json → Option (ℤ × ℚ)
  | .dict entries => do
    let index ← pyInt? ((Json.get entries "index").getD .null)
    let score ← pyFloat? (relevance entries)
    return (index, score)
  | _ => none

/-- The results, as a list of indexes with scores. -/
def Reads (results : List Json) (ranking : List (ℕ × ℚ)) : Prop :=
  results.map readResult = ranking.map fun entry => some ((entry.1 : ℤ), entry.2)

/-- The candidates that are ranked, with their scores. -/
def picked (candidates : List RetrievalCandidate) (ranking : List (ℕ × ℚ)) :
    List (RetrievalCandidate × ℚ) :=
  ranking.filterMap fun entry => candidates[entry.1]?.map fun candidate => (candidate, entry.2)

/-- The endpoint answers with a ranking of the candidates: it names each of them once. -/
structure Answers (context : AuthorizationContext) (query : RetrievalQuery)
    (candidates : List RetrievalCandidate) (ranking : List (ℕ × ℚ)) : Prop where
  tenantId : context.tenantId = query.tenantId
  results : ∃ payload results, adapter.post (adapter.call query candidates) = .ok (.dict payload) ∧
    Json.get payload "results" = some (.list results) ∧ Reads results ranking
  perm : (ranking.map Prod.fst).Perm (List.range candidates.length)

variable {adapter} {context : AuthorizationContext} {query : RetrievalQuery}
  {candidates reranked : List RetrievalCandidate} {ranking : List (ℕ × ℚ)}

/-! ## The loop over the results -/

theorem reads_nil : Reads [] ranking ↔ ranking = [] := by
  rw [Reads, List.map_nil, eq_comm, List.map_eq_nil_iff]

theorem reads_cons {item : Json} {items : List Json} : Reads (item :: items) ranking ↔
    ∃ (index : ℕ) (score : ℚ) (rest : List (ℕ × ℚ)), ranking = (index, score) :: rest ∧
      readResult item = some ((index : ℤ), score) ∧ Reads items rest := by
  constructor
  · intro h
    cases ranking with
    | nil => cases h
    | cons entry rest =>
      rw [Reads, List.map_cons, List.map_cons, List.cons.injEq] at h
      exact ⟨entry.1, entry.2, rest, rfl, h.1, h.2⟩
  · rintro ⟨index, score, rest, rfl, hitem, hitems⟩
    rw [Reads, List.map_cons, List.map_cons, hitem, hitems]

theorem readResult_dict {entries : List (String × Json)} {n : ℤ} {score : ℚ} :
    readResult (.dict entries) = some (n, score) ↔
      pyInt? ((Json.get entries "index").getD .null) = some n ∧
        pyFloat? (relevance entries) = some score := by
  simp [readResult, Option.bind_eq_some_iff]

/-- One turn of the loop. -/
theorem rankResults_cons {used : List ℤ} {rank : ℕ} {item : Json} {items : List Json} :
    rankResults candidates used rank (item :: items) = .ok reranked ↔
      ∃ (index : ℕ) (score : ℚ) (candidate : RetrievalCandidate) (rest : List RetrievalCandidate),
        readResult item = some ((index : ℤ), score) ∧ (index : ℤ) ∉ used ∧
          candidates[index]? = some candidate ∧
          rankResults candidates (index :: used) (rank + 1) items = .ok rest ∧
          reranked = ranked candidate score rank :: rest := by
  cases item with
  | dict entries =>
    rw [rankResults]
    simp only [readResult_dict]
    cases hindex : pyInt? ((Json.get entries "index").getD .null) with
    | none => simp [throw, throwThe, MonadExceptOf.throw]
    | some n =>
      dsimp only
      by_cases hbad : n ∈ used ∨ ¬ (0 ≤ n ∧ n < candidates.length)
      · rw [if_pos hbad]
        refine ⟨nofun, ?_⟩
        rintro ⟨index, score, candidate, rest, ⟨hn, -⟩, hused, hcandidate, -, -⟩
        obtain rfl := Option.some.inj hn
        obtain ⟨hlt, -⟩ := List.getElem?_eq_some_iff.1 hcandidate
        exact absurd hbad
          (not_or.2 ⟨hused, not_not.2 ⟨Int.natCast_nonneg _, by exact_mod_cast hlt⟩⟩)
      · rw [if_neg hbad]
        obtain ⟨hused, hrange⟩ := not_or.1 hbad
        obtain ⟨index, rfl⟩ := Int.eq_ofNat_of_zero_le (not_not.1 hrange).1
        have hlt : index < candidates.length := by exact_mod_cast (not_not.1 hrange).2
        rw [Int.toNat_natCast, List.getElem?_eq_getElem hlt]
        cases hscore : pyFloat? (relevance entries) with
        | none => simp [throw, throwThe, MonadExceptOf.throw]
        | some score =>
          constructor
          · intro h
            obtain ⟨rest, hrest, heq⟩ := bind_eq_ok.1 h
            cases heq
            exact ⟨index, score, _, rest, ⟨rfl, rfl⟩, hused, List.getElem?_eq_getElem hlt, hrest,
              rfl⟩
          · rintro ⟨index', score', candidate, rest, ⟨hn, hs⟩, -, hcandidate, hrest, rfl⟩
            cases hs
            obtain rfl : index = index' := by exact_mod_cast Option.some.inj hn
            rw [List.getElem?_eq_getElem hlt] at hcandidate
            cases hcandidate
            exact bind_eq_ok.2 ⟨rest, hrest, rfl⟩
  | _ => simp [rankResults, readResult, throw, throwThe, MonadExceptOf.throw]

theorem picked_cons {index : ℕ} {score : ℚ} {candidate : RetrievalCandidate}
    (h : candidates[index]? = some candidate) :
    picked candidates ((index, score) :: ranking) =
      (candidate, score) :: picked candidates ranking :=
  List.filterMap_cons_some (by rw [h]; rfl)

/-- **The loop over the results** returns when they name different candidates. -/
theorem rankResults_eq_ok_iff {used : List ℤ} {rank : ℕ} {results : List Json} :
    rankResults candidates used rank results = .ok reranked ↔
      ∃ ranking, Reads results ranking ∧ (ranking.map Prod.fst).Nodup ∧
        (∀ entry ∈ ranking, (entry.1 : ℤ) ∉ used ∧ entry.1 < candidates.length) ∧
        reranked = ((picked candidates ranking).zipIdx rank).map fun p =>
          ranked p.1.1 p.1.2 p.2 := by
  induction results generalizing used rank reranked with
  | nil =>
    simp only [rankResults, reads_nil, Except.ok.injEq]
    constructor
    · rintro rfl
      exact ⟨[], rfl, List.nodup_nil, by simp, rfl⟩
    · rintro ⟨_, rfl, -, -, rfl⟩
      rfl
  | cons item items ih =>
    rw [rankResults_cons]
    constructor
    · rintro ⟨index, score, candidate, rest, hread, hused, hcandidate, hrest, rfl⟩
      obtain ⟨ranking, hreads, hnodup, hvalid, rfl⟩ := ih.1 hrest
      refine ⟨(index, score) :: ranking, reads_cons.2 ⟨_, _, _, rfl, hread, hreads⟩, ?_, ?_, ?_⟩
      · refine List.nodup_cons.2 ⟨fun hmem => ?_, hnodup⟩
        obtain ⟨entry, hentry, rfl⟩ := List.mem_map.1 hmem
        exact (hvalid entry hentry).1 List.mem_cons_self
      · refine List.forall_mem_cons.2 ⟨⟨hused, (List.getElem?_eq_some_iff.1 hcandidate).1⟩, ?_⟩
        intro entry hentry
        exact ⟨fun h => (hvalid entry hentry).1 (List.mem_cons_of_mem _ h),
          (hvalid entry hentry).2⟩
      · rw [picked_cons hcandidate]
        rfl
    · rintro ⟨ranking', hreads, hnodup, hvalid, rfl⟩
      obtain ⟨index, score, ranking, rfl, hread, hreads⟩ := reads_cons.1 hreads
      obtain ⟨⟨hused, hlt⟩, hvalid⟩ := List.forall_mem_cons.1 hvalid
      obtain ⟨hnot, hnodup⟩ := List.nodup_cons.1 hnodup
      have hcandidate := List.getElem?_eq_getElem hlt
      refine ⟨index, score, _, _, hread, hused, hcandidate,
        ih.2 ⟨ranking, hreads, hnodup, fun entry hentry => ⟨fun h => ?_, (hvalid entry hentry).2⟩,
          rfl⟩, ?_⟩
      · rcases List.mem_cons.1 h with heq | h
        · exact hnot (List.mem_map.2 ⟨entry, hentry, by exact_mod_cast heq⟩)
        · exact (hvalid entry hentry).1 h
      · rw [picked_cons hcandidate]
        rfl

/-! ## The call -/

/-- The candidate without its scores. -/
def unscored (candidate : RetrievalCandidate) : RetrievalCandidate :=
  { candidate with score := { finalScore := 0 } }

/-- What is picked for a ranking of all candidates are all candidates. -/
theorem picked_perm (h : (ranking.map Prod.fst).Perm (List.range candidates.length)) :
    ((picked candidates ranking).map Prod.fst).Perm candidates := by
  have hmap : (picked candidates ranking).map Prod.fst =
      (ranking.map Prod.fst).filterMap fun index => candidates[index]? := by
    rw [picked, List.map_filterMap, List.filterMap_map]
    refine List.filterMap_congr fun entry _ => ?_
    simp [Option.map_map, Function.comp_def]
  have hrange : (List.range candidates.length).filterMap (fun index => candidates[index]?) =
      candidates := by
    have hsome : (List.range candidates.length).map (fun index => candidates[index]?) =
        candidates.map some := List.ext_getElem (by simp) fun i _ _ => by simp
    calc
      (List.range candidates.length).filterMap (fun index => candidates[index]?) =
          ((List.range candidates.length).map fun index => candidates[index]?).filterMap id := by
        rw [List.filterMap_map]
        rfl
      _ = candidates := by
        rw [hsome, List.filterMap_map]
        exact List.filterMap_some
  rw [hmap]
  calc
    ((ranking.map Prod.fst).filterMap fun index => candidates[index]?).Perm
        ((List.range candidates.length).filterMap fun index => candidates[index]?) :=
      h.filterMap _
    _ = candidates := hrange

theorem mem_of_mem_picked {entry : RetrievalCandidate × ℚ} (h : entry ∈ picked candidates ranking) :
    entry.1 ∈ candidates := by
  obtain ⟨place, -, hplace⟩ := List.mem_filterMap.1 h
  obtain ⟨candidate, hcandidate, rfl⟩ := Option.map_eq_some_iff.1 hplace
  exact List.mem_of_getElem? hcandidate

theorem length_picked (h : ∀ entry ∈ ranking, entry.1 < candidates.length) :
    (picked candidates ranking).length = ranking.length := by
  induction ranking with
  | nil => rfl
  | cons entry ranking ih =>
    obtain ⟨hlt, hrest⟩ := List.forall_mem_cons.1 h
    rw [picked_cons (List.getElem?_eq_getElem hlt), List.length_cons, List.length_cons, ih hrest]

/-- **The call returns** exactly when the endpoint answers with a ranking. -/
theorem rerank_eq_ok_iff : adapter.rerank context query candidates = .ok reranked ↔
    ∃ ranking, adapter.Answers context query candidates ranking ∧
      reranked = numbered (fun p => ranked p.1 p.2) (picked candidates ranking) := by
  have hresults : ∀ results, rankResults candidates [] 1 results = .ok reranked ∧
      reranked.length = candidates.length ↔ ∃ ranking, Reads results ranking ∧
        (ranking.map Prod.fst).Perm (List.range candidates.length) ∧
        reranked = numbered (fun p => ranked p.1 p.2) (picked candidates ranking) := by
    intro results
    rw [rankResults_eq_ok_iff]
    constructor
    · rintro ⟨⟨ranking, hreads, hnodup, hvalid, rfl⟩, hlength⟩
      refine ⟨ranking, hreads, ?_, rfl⟩
      have hlt : ∀ entry ∈ ranking, entry.1 < candidates.length := fun entry hentry =>
        (hvalid entry hentry).2
      rw [List.length_map, List.length_zipIdx, length_picked hlt] at hlength
      refine (hnodup.subperm fun index hindex => ?_).perm_of_length_le ?_
      · obtain ⟨entry, hentry, rfl⟩ := List.mem_map.1 hindex
        exact List.mem_range.2 (hlt entry hentry)
      · rw [List.length_range, List.length_map, hlength]
    · rintro ⟨ranking, hreads, hperm, rfl⟩
      have hlt : ∀ entry ∈ ranking, entry.1 < candidates.length := fun entry hentry =>
        List.mem_range.1 (hperm.mem_iff.1 (List.mem_map_of_mem hentry))
      refine ⟨⟨ranking, hreads, hperm.nodup_iff.2 List.nodup_range,
        fun entry hentry => ⟨List.not_mem_nil, hlt entry hentry⟩, rfl⟩, ?_⟩
      rw [length_numbered, length_picked hlt]
      simpa using hperm.length_eq
  unfold rerank
  by_cases htenant : context.tenantId = query.tenantId
  swap
  · rw [if_pos htenant]
    exact ⟨nofun, fun ⟨_, hanswers, _⟩ => absurd hanswers.tenantId htenant⟩
  rw [if_neg (not_not.2 htenant)]
  constructor
  · intro h
    obtain ⟨body, hpost, h⟩ := bind_eq_ok.1 h
    cases body with
    | dict payload =>
      cases hlist : Json.get payload "results" with
      | none => simp [hlist, throw, throwThe, MonadExceptOf.throw] at h
      | some value =>
        cases value with
        | list results =>
          simp only [hlist] at h
          obtain ⟨reranked', hrank, h⟩ := bind_eq_ok.1 h
          obtain ⟨hlength, h⟩ := check_eq_ok.1 h
          cases h
          obtain ⟨ranking, hreads, hperm, heq⟩ := (hresults results).1 ⟨hrank, not_not.1 hlength⟩
          exact ⟨ranking, ⟨htenant, ⟨payload, results, hpost, hlist, hreads⟩, hperm⟩, heq⟩
        | _ => simp [hlist, throw, throwThe, MonadExceptOf.throw] at h
    | _ => cases h
  · rintro ⟨ranking, ⟨-, ⟨payload, results, hpost, hlist, hreads⟩, hperm⟩, heq⟩
    obtain ⟨hrank, hlength⟩ := (hresults results).2 ⟨ranking, hreads, hperm, heq⟩
    refine bind_eq_ok.2 ⟨_, hpost, ?_⟩
    simp only [hlist]
    exact bind_eq_ok.2 ⟨reranked, hrank, check_eq_ok.2 ⟨not_not.2 hlength, rfl⟩⟩

/-- The rescored candidates are the candidates. -/
theorem unscored_perm (h : (ranking.map Prod.fst).Perm (List.range candidates.length)) :
    ((numbered (fun p => ranked p.1 p.2) (picked candidates ranking)).map unscored).Perm
      (candidates.map unscored) := by
  have hmap : (numbered (fun p => ranked p.1 p.2) (picked candidates ranking)).map unscored =
      ((picked candidates ranking).map Prod.fst).map unscored := by
    rw [List.map_map]
    exact map_numbered_of_forall fun _ _ => rfl
  rw [hmap]
  exact (picked_perm h).map unscored

/-- A ranking that the endpoint answers is applied. -/
theorem rerankWithFallback_of_answers (hne : candidates ≠ [])
    (h : adapter.Answers context query candidates ranking) :
    rerankWithFallback (adapter.rerank context query) candidates =
      ⟨numbered (fun p => ranked p.1 p.2) (picked candidates ranking), true, none⟩ := by
  have hperm := unscored_perm h.perm
  have hids : chunkIds candidates =
      chunkIds (numbered (fun p => ranked p.1 p.2) (picked candidates ranking)) := by
    have hchunks := hperm.map RetrievalCandidate.chunkId
    rw [List.map_map, List.map_map] at hchunks
    exact List.toFinset_eq_of_perm _ _ hchunks.symm
  have hlength : (numbered (fun p => ranked p.1 p.2) (picked candidates ranking)).length =
      candidates.length := by
    simpa using hperm.length_eq
  rw [rerankWithFallback, if_neg hne, rerank_eq_ok_iff.2 ⟨ranking, h, rfl⟩]
  dsimp only
  rw [if_neg (not_or.2 ⟨not_not.2 hids, not_not.2 hlength⟩), numbered_numbered]
  rfl

/-- Truth values are indexes, and a null score is not replaced by the other key. -/
example :
    let candidates := [Knowledge.Sample.found "d" "a" { finalScore := 1 },
      Knowledge.Sample.found "d" "b" { finalScore := 1 }]
    rankResults candidates [] 1
        [.dict [("index", .bool true), ("score", .int 3)],
          .dict [("index", .int 0), ("relevance_score", .float (1 / 2))]] =
      .ok [ranked (Knowledge.Sample.found "d" "b" { finalScore := 1 }) 3 1,
        ranked (Knowledge.Sample.found "d" "a" { finalScore := 1 }) (1 / 2) 2] ∧
    (rankResults candidates [] 1
      [.dict [("index", .int 0), ("relevance_score", .null), ("score", .int 3)]]).isOk = false := by
  decide +kernel

end BgeRerankerAdapter

end Knowledge
end RagflowAgent
