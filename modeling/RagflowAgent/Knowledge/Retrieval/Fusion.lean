import RagflowAgent.Knowledge.Retrieval.Query
import RagflowAgent.Ranking
import RagflowAgent.Relational.Table
import Mathlib.Data.Prod.Lex
import Mathlib.Data.String.Basic

/-!
# Reciprocal rank fusion

`reciprocal_rank_fusion` merges the ranked lists of the full-text and of the vector channel.
It keeps one entry for each chunk id, in the order in which the ids are met, and every
candidate adds `1 / (k + rank)` to the entry of its id.

* `reciprocalRankFusion` is the function, with `FusionEntry` and `recordChannel` for its map;
* `IsFusion` says what a fused list is, with `contribution` for what one channel adds;
* `reciprocalRankFusion_exact`: the function returns a fusion, and exchanging the channels
  exchanges nothing but the provenance.
-/

namespace RagflowAgent
namespace Knowledge

open Ranking

/-! ## The function -/

/-- One ranked channel of the search port. -/
inductive SearchChannel where
  | fullText
  | vector
  deriving DecidableEq, Repr

def SearchChannel.value : SearchChannel → String
  | fullText => "full_text"
  | vector => "vector"

/-- `_FusionEntry`. -/
structure FusionEntry where
  candidate : RetrievalCandidate
  rrf : ℚ := 0
  fullTextRank : Option ℕ := none
  fullTextScore : Option ℚ := none
  vectorRank : Option ℕ := none
  vectorScore : Option ℚ := none

instance : Keyed String FusionEntry := ⟨fun entry => entry.candidate.chunkId⟩

/-- What a candidate of a channel adds to the entry of its chunk id. -/
def FusionEntry.record (k : ℕ) (channel : SearchChannel) (rank : ℕ)
    (candidate : RetrievalCandidate) (entry : FusionEntry) : FusionEntry :=
  let entry := { entry with rrf := entry.rrf + 1 / ((k : ℚ) + rank) }
  match channel with
  | .fullText =>
    { entry with fullTextRank := some rank, fullTextScore := candidate.score.fullTextScore }
  | .vector => { entry with vectorRank := some rank, vectorScore := candidate.score.vectorScore }

/-- The body of the loop over one channel. -/
def recordCandidate (k : ℕ) (channel : SearchChannel) (entries : Table FusionEntry)
    (ranked : RetrievalCandidate × ℕ) : Table FusionEntry :=
  let entry := (entries.get ranked.1.chunkId).getD { candidate := ranked.1 }
  entries.upsert (entry.record k channel ranked.2 ranked.1)

/-- The loop over one channel. -/
def recordChannel (k : ℕ) (channel : SearchChannel) (candidates : List RetrievalCandidate)
    (entries : Table FusionEntry) : Table FusionEntry :=
  (candidates.zipIdx 1).foldl (recordCandidate k channel) entries

def fusionEntries (fullText vector : List RetrievalCandidate) (k : ℕ) : Table FusionEntry :=
  recordChannel k .vector vector (recordChannel k .fullText fullText .empty)

/-- `(-item.rrf, item.candidate.chunk_id)`. -/
def FusionEntry.sortKey (entry : FusionEntry) : ℚ ×ₗ String :=
  toLex (-entry.rrf, entry.candidate.chunkId)

/-- The candidate of an entry with its fused scores. -/
def FusionEntry.fused (entry : FusionEntry) (fusionRank : ℕ) : RetrievalCandidate :=
  { entry.candidate with
    score := { entry.candidate.score with
      finalScore := entry.rrf
      fullTextScore := entry.fullTextScore
      vectorScore := entry.vectorScore
      fusionScore := some entry.rrf
      fullTextRank := entry.fullTextRank
      vectorRank := entry.vectorRank
      fusionRank := some fusionRank } }

/-- Deduplicate by chunk ID and retain raw scores/ranks from both channels. -/
def reciprocalRankFusion (fullText vector : List RetrievalCandidate) (k : ℕ) :
    List RetrievalCandidate :=
  numbered FusionEntry.fused (sortedBy FusionEntry.sortKey (fusionEntries fullText vector k).rows)

/-! ## What a fusion is -/

/-- The candidate has this chunk id. -/
def hasChunkId (chunkId : String) (candidate : RetrievalCandidate) : Bool :=
  candidate.chunkId = chunkId

/-- The rank of a chunk id in a channel, counted from one. -/
def rankIn (candidates : List RetrievalCandidate) (chunkId : String) : Option ℕ :=
  placeFrom (hasChunkId chunkId) 1 candidates

/-- What a channel adds to the score of a chunk id: `1 / (k + rank)` when it contains it. -/
def contribution (k : ℕ) (candidates : List RetrievalCandidate) (chunkId : String) : ℚ :=
  match rankIn candidates chunkId with
  | none => 0
  | some rank => 1 / ((k : ℚ) + rank)

/-- By decreasing score, and by chunk id where the scores are equal. -/
def Precedes (candidate candidate' : RetrievalCandidate) : Prop :=
  candidate'.score.finalScore < candidate.score.finalScore ∨
    candidate'.score.finalScore = candidate.score.finalScore ∧
      candidate.chunkId < candidate'.chunkId

/-- `fused` is the reciprocal rank fusion of the two channels. -/
structure IsFusion (k : ℕ) (fullText vector fused : List RetrievalCandidate) : Prop where
  nodup : (fused.map (·.chunkId)).Nodup
  mem_iff : ∀ chunkId, chunkId ∈ fused.map (·.chunkId) ↔
    chunkId ∈ fullText.map (·.chunkId) ∨ chunkId ∈ vector.map (·.chunkId)
  finalScore : ∀ candidate ∈ fused, candidate.score.finalScore =
    contribution k fullText candidate.chunkId + contribution k vector candidate.chunkId
  fusionScore : ∀ candidate ∈ fused, candidate.score.fusionScore = some candidate.score.finalScore
  fullTextRank : ∀ candidate ∈ fused,
    candidate.score.fullTextRank = rankIn fullText candidate.chunkId
  vectorRank : ∀ candidate ∈ fused, candidate.score.vectorRank = rankIn vector candidate.chunkId
  sorted : fused.Pairwise Precedes
  fusionRank : fused.map (·.score.fusionRank) = (List.range' 1 fused.length).map some

/-- What is the same when the channels are exchanged. -/
def fusedRow (candidate : RetrievalCandidate) : String × ℚ × Option ℚ × Option ℕ :=
  (candidate.chunkId, candidate.score.finalScore, candidate.score.fusionScore,
    candidate.score.fusionRank)

/-! ## The entries -/

section Entries

variable {k : ℕ} {channel : SearchChannel} {entries : Table FusionEntry}
  {candidates fullText vector : List RetrievalCandidate} {chunkId : String}

@[simp] theorem FusionEntry.record_candidate (rank : ℕ) (candidate : RetrievalCandidate)
    (entry : FusionEntry) :
    (entry.record k channel rank candidate).candidate = entry.candidate := by
  cases channel <;> rfl

@[simp] theorem FusionEntry.record_rrf (rank : ℕ) (candidate : RetrievalCandidate)
    (entry : FusionEntry) :
    (entry.record k channel rank candidate).rrf = entry.rrf + 1 / ((k : ℚ) + rank) := by
  cases channel <;> rfl

/-- The entry of a chunk id has it. -/
theorem FusionEntry.chunkId_of_get {entry : FusionEntry} (h : entries.get chunkId = some entry) :
    entry.candidate.chunkId = chunkId :=
  Table.key_of_get h

/-- What a channel makes of the entry of a chunk id it has at some place. -/
def FusionEntry.hit (k : ℕ) (channel : SearchChannel) (entry : Option FusionEntry)
    (ranked : RetrievalCandidate × ℕ) : FusionEntry :=
  (entry.getD { candidate := ranked.1 }).record k channel ranked.2 ranked.1

/-- Reading after one candidate. -/
theorem get_recordCandidate (ranked : RetrievalCandidate × ℕ) :
    (recordCandidate k channel entries ranked).get chunkId =
      if ranked.1.chunkId = chunkId then
        some (FusionEntry.hit k channel (entries.get chunkId) ranked)
      else entries.get chunkId := by
  have hkey : Keyed.key (FusionEntry.hit k channel (entries.get ranked.1.chunkId) ranked) =
      ranked.1.chunkId := by
    change (FusionEntry.record k channel _ _ _).candidate.chunkId = _
    rw [FusionEntry.record_candidate]
    cases hget : entries.get ranked.1.chunkId with
    | none => rfl
    | some entry => exact FusionEntry.chunkId_of_get hget
  change (entries.upsert (FusionEntry.hit k channel _ ranked)).get chunkId = _
  rw [Table.get_upsert, hkey]
  by_cases h : chunkId = ranked.1.chunkId
  · subst h
    rw [if_pos rfl]
  · rw [if_neg h, if_neg (Ne.symm h)]

/-- **Reading after a channel.**  Where no chunk id is repeated, a chunk id of the channel is
recorded once, at its place. -/
theorem get_foldl_recordCandidate (hnodup : (candidates.map (·.chunkId)).Nodup) (n : ℕ)
    (entries : Table FusionEntry) :
    ((candidates.zipIdx n).foldl (recordCandidate k channel) entries).get chunkId =
      match hitFrom (hasChunkId chunkId) n candidates with
      | none => entries.get chunkId
      | some ranked => some (FusionEntry.hit k channel (entries.get chunkId) ranked) := by
  induction candidates generalizing n entries with
  | nil => rfl
  | cons candidate candidates ih =>
    rw [List.map_cons, List.nodup_cons] at hnodup
    rw [List.zipIdx_cons, List.foldl_cons, ih hnodup.2, hitFrom_cons, get_recordCandidate]
    by_cases h : candidate.chunkId = chunkId
    · have hmiss : hitFrom (hasChunkId chunkId) (n + 1) candidates = none := by
        refine hitFrom_eq_none.2 fun other hother => decide_eq_false fun hid => ?_
        exact hnodup.1 (List.mem_map.2 ⟨other, hother, hid.trans h.symm⟩)
      have hhit : hasChunkId chunkId candidate = true := decide_eq_true h
      rw [hmiss, if_pos hhit, if_pos h]
    · have hhit : hasChunkId chunkId candidate = false := decide_eq_false h
      rw [if_neg h, hhit, if_neg Bool.false_ne_true]

theorem get_recordChannel (hnodup : (candidates.map (·.chunkId)).Nodup)
    (entries : Table FusionEntry) :
    (recordChannel k channel candidates entries).get chunkId =
      match hitFrom (hasChunkId chunkId) 1 candidates with
      | none => entries.get chunkId
      | some ranked => some (FusionEntry.hit k channel (entries.get chunkId) ranked) :=
  get_foldl_recordCandidate hnodup 1 entries

/-- The entry of a chunk id, by its places in the two channels. -/
theorem get_fusionEntries (hfullText : (fullText.map (·.chunkId)).Nodup)
    (hvector : (vector.map (·.chunkId)).Nodup) :
    (fusionEntries fullText vector k).get chunkId =
      match hitFrom (hasChunkId chunkId) 1 fullText, hitFrom (hasChunkId chunkId) 1 vector with
      | none, none => none
      | some ranked, none => some (FusionEntry.hit k .fullText none ranked)
      | none, some ranked => some (FusionEntry.hit k .vector none ranked)
      | some ranked, some ranked' =>
        some (FusionEntry.hit k .vector (some (FusionEntry.hit k .fullText none ranked))
          ranked') := by
  have hempty : (Table.empty : Table FusionEntry).get chunkId = none := rfl
  rw [fusionEntries, get_recordChannel hvector, get_recordChannel hfullText, hempty]
  cases hitFrom (hasChunkId chunkId) 1 fullText <;>
    cases hitFrom (hasChunkId chunkId) 1 vector <;> rfl

theorem rankIn_eq (candidates : List RetrievalCandidate) (chunkId : String) :
    rankIn candidates chunkId =
      (hitFrom (hasChunkId chunkId) 1 candidates).map Prod.snd :=
  map_snd_hitFrom.symm

theorem mem_map_chunkId_iff (candidates : List RetrievalCandidate) (chunkId : String) :
    chunkId ∈ candidates.map (·.chunkId) ↔
      hitFrom (hasChunkId chunkId) 1 candidates ≠ none := by
  rw [Ne, hitFrom_eq_none, List.mem_map]
  constructor
  · rintro ⟨candidate, hmem, hid⟩ hall
    exact absurd hid (of_decide_eq_false (hall candidate hmem))
  · intro h
    by_contra hnone
    refine h fun candidate hmem => decide_eq_false fun hid => ?_
    exact hnone ⟨candidate, hmem, hid⟩

/-- What an entry records of its chunk id. -/
structure FusionEntry.Records (entry : FusionEntry) (k : ℕ)
    (fullText vector : List RetrievalCandidate) (chunkId : String) : Prop where
  rrf : entry.rrf = contribution k fullText chunkId + contribution k vector chunkId
  fullTextRank : entry.fullTextRank = rankIn fullText chunkId
  vectorRank : entry.vectorRank = rankIn vector chunkId

theorem FusionEntry.records_of_get (hfullText : (fullText.map (·.chunkId)).Nodup)
    (hvector : (vector.map (·.chunkId)).Nodup) {entry : FusionEntry}
    (h : (fusionEntries fullText vector k).get chunkId = some entry) :
    entry.Records k fullText vector chunkId := by
  rw [get_fusionEntries hfullText hvector] at h
  have hrank := rankIn_eq fullText chunkId
  have hrank' := rankIn_eq vector chunkId
  cases hhit : hitFrom (hasChunkId chunkId) 1 fullText with
  | none =>
    cases hhit' : hitFrom (hasChunkId chunkId) 1 vector with
    | none =>
      rw [hhit, hhit'] at h
      cases h
    | some ranked =>
      rw [hhit, hhit'] at h
      rw [hhit] at hrank
      rw [hhit'] at hrank'
      cases h
      exact ⟨by simp [contribution, hrank, hrank', hit], hrank.symm, hrank'.symm⟩
  | some ranked =>
    cases hhit' : hitFrom (hasChunkId chunkId) 1 vector with
    | none =>
      rw [hhit, hhit'] at h
      rw [hhit] at hrank
      rw [hhit'] at hrank'
      cases h
      exact ⟨by simp [contribution, hrank, hrank', hit], hrank.symm, hrank'.symm⟩
    | some ranked' =>
      rw [hhit, hhit'] at h
      rw [hhit] at hrank
      rw [hhit'] at hrank'
      cases h
      exact ⟨by simp [contribution, hrank, hrank', hit], hrank.symm, hrank'.symm⟩

theorem mem_of_hitFrom {ranked : RetrievalCandidate × ℕ}
    (h : hitFrom (hasChunkId chunkId) 1 candidates = some ranked) : ranked.1 ∈ candidates :=
  List.fst_mem_of_mem_zipIdx (List.mem_of_find?_eq_some h)

/-- The candidate of an entry is one of the channels. -/
theorem FusionEntry.candidate_mem_of_get (hfullText : (fullText.map (·.chunkId)).Nodup)
    (hvector : (vector.map (·.chunkId)).Nodup) {entry : FusionEntry}
    (h : (fusionEntries fullText vector k).get chunkId = some entry) :
    entry.candidate ∈ fullText ∨ entry.candidate ∈ vector := by
  rw [get_fusionEntries hfullText hvector] at h
  cases hhit : hitFrom (hasChunkId chunkId) 1 fullText with
  | none =>
    cases hhit' : hitFrom (hasChunkId chunkId) 1 vector with
    | none =>
      rw [hhit, hhit'] at h
      cases h
    | some ranked =>
      rw [hhit, hhit'] at h
      cases h
      exact .inr (mem_of_hitFrom hhit')
  | some ranked =>
    refine .inl ?_
    cases hhit' : hitFrom (hasChunkId chunkId) 1 vector with
    | none =>
      rw [hhit, hhit'] at h
      cases h
      exact mem_of_hitFrom hhit
    | some ranked' =>
      rw [hhit, hhit'] at h
      cases h
      exact mem_of_hitFrom hhit

/-- The entries are those of the chunk ids of the two channels. -/
theorem mem_map_fusionEntries (hfullText : (fullText.map (·.chunkId)).Nodup)
    (hvector : (vector.map (·.chunkId)).Nodup) (chunkId : String) :
    chunkId ∈ (fusionEntries fullText vector k).rows.map (·.candidate.chunkId) ↔
      chunkId ∈ fullText.map (·.chunkId) ∨ chunkId ∈ vector.map (·.chunkId) := by
  have hget : chunkId ∈ (fusionEntries fullText vector k).rows.map (·.candidate.chunkId) ↔
      (fusionEntries fullText vector k).get chunkId ≠ none := by
    rw [Ne, Table.get_eq_none_iff, not_not]
    rfl
  rw [hget, mem_map_chunkId_iff, mem_map_chunkId_iff, get_fusionEntries hfullText hvector]
  cases hitFrom (hasChunkId chunkId) 1 fullText <;>
    cases hitFrom (hasChunkId chunkId) 1 vector <;> simp

/-- The sort keys of the entries: every chunk id of the channels with its score. -/
theorem mem_map_sortKey (hfullText : (fullText.map (·.chunkId)).Nodup)
    (hvector : (vector.map (·.chunkId)).Nodup) (key : ℚ ×ₗ String) :
    key ∈ (fusionEntries fullText vector k).rows.map FusionEntry.sortKey ↔
      ((ofLex key).2 ∈ fullText.map (·.chunkId) ∨ (ofLex key).2 ∈ vector.map (·.chunkId)) ∧
        (ofLex key).1 =
          -(contribution k fullText (ofLex key).2 + contribution k vector (ofLex key).2) := by
  have hentry : ∀ entry ∈ (fusionEntries fullText vector k).rows,
      entry.Records k fullText vector entry.candidate.chunkId := fun entry hmem =>
    FusionEntry.records_of_get hfullText hvector (Table.mem_rows_iff.1 hmem)
  rw [← mem_map_fusionEntries hfullText hvector]
  constructor
  · intro hkey
    obtain ⟨entry, hmem, rfl⟩ := List.mem_map.1 hkey
    refine ⟨List.mem_map_of_mem hmem, ?_⟩
    exact congrArg Neg.neg (hentry entry hmem).rrf
  · rintro ⟨hid, hscore⟩
    obtain ⟨entry, hmem, hentryId⟩ := List.mem_map.1 hid
    refine List.mem_map.2 ⟨entry, hmem, ?_⟩
    have hrrf := (hentry entry hmem).rrf
    rw [hentryId] at hrrf
    rw [FusionEntry.sortKey, hrrf, hentryId, ← hscore]
    rfl

theorem nodup_map_chunkId (entries : Table FusionEntry) :
    (entries.rows.map (·.candidate.chunkId)).Nodup :=
  entries.nodup

theorem nodup_map_sortKey (entries : Table FusionEntry) :
    (entries.rows.map FusionEntry.sortKey).Nodup := by
  refine List.Nodup.of_map (fun key : ℚ ×ₗ String => (ofLex key).2) ?_
  rw [List.map_map]
  exact nodup_map_chunkId entries

end Entries

/-! ## The result -/

theorem FusionEntry.precedes_fused {entry entry' : FusionEntry} (n n' : ℕ)
    (h : entry.sortKey < entry'.sortKey) : Precedes (entry.fused n) (entry'.fused n') := by
  rcases Prod.Lex.toLex_lt_toLex.1 h with hscore | ⟨hscore, hid⟩
  · exact .inl (neg_lt_neg_iff.1 hscore)
  · exact .inr ⟨(neg_injective hscore).symm, hid⟩

theorem isFusion_reciprocalRankFusion {k : ℕ} {fullText vector : List RetrievalCandidate}
    (hfullText : (fullText.map (·.chunkId)).Nodup) (hvector : (vector.map (·.chunkId)).Nodup) :
    IsFusion k fullText vector (reciprocalRankFusion fullText vector k) := by
  have hids : (reciprocalRankFusion fullText vector k).map (·.chunkId) =
      (sortedBy FusionEntry.sortKey (fusionEntries fullText vector k).rows).map
        (·.candidate.chunkId) :=
    map_numbered_of_forall fun _ _ => rfl
  have hperm := (sortedBy_perm FusionEntry.sortKey (fusionEntries fullText vector k).rows).map
    (·.candidate.chunkId)
  have hrecords : ∀ candidate ∈ reciprocalRankFusion fullText vector k,
      ∃ (entry : FusionEntry) (n : ℕ), entry.Records k fullText vector candidate.chunkId ∧
        entry.fused n = candidate := by
    intro candidate hmem
    obtain ⟨entry, hentry, n, rfl⟩ := exists_of_mem_numbered hmem
    rw [mem_sortedBy] at hentry
    exact ⟨entry, n,
      FusionEntry.records_of_get hfullText hvector (Table.mem_rows_iff.1 hentry), rfl⟩
  constructor
  case nodup =>
    rw [hids]
    exact hperm.nodup_iff.2 (nodup_map_chunkId _)
  case mem_iff =>
    intro chunkId
    rw [hids, hperm.mem_iff]
    exact mem_map_fusionEntries hfullText hvector chunkId
  case finalScore =>
    intro candidate hmem
    obtain ⟨entry, n, hentry, rfl⟩ := hrecords candidate hmem
    exact hentry.rrf
  case fusionScore =>
    intro candidate hmem
    obtain ⟨entry, n, -, rfl⟩ := hrecords candidate hmem
    rfl
  case fullTextRank =>
    intro candidate hmem
    obtain ⟨entry, n, hentry, rfl⟩ := hrecords candidate hmem
    exact hentry.fullTextRank
  case vectorRank =>
    intro candidate hmem
    obtain ⟨entry, n, hentry, rfl⟩ := hrecords candidate hmem
    exact hentry.vectorRank
  case sorted =>
    exact pairwise_numbered (sortedBy_pairwise_lt _ (nodup_map_sortKey _))
      fun _ n _ n' h => FusionEntry.precedes_fused n n' h
  case fusionRank =>
    rw [reciprocalRankFusion, length_numbered]
    exact map_numbered_place fun _ _ => rfl

/-- A fused candidate is one of the channels with other scores. -/
theorem exists_of_mem_reciprocalRankFusion {k : ℕ} {fullText vector : List RetrievalCandidate}
    (hfullText : (fullText.map (·.chunkId)).Nodup) (hvector : (vector.map (·.chunkId)).Nodup)
    {candidate : RetrievalCandidate} (h : candidate ∈ reciprocalRankFusion fullText vector k) :
    ∃ found score, (found ∈ fullText ∨ found ∈ vector) ∧
      candidate = { found with score := score } := by
  obtain ⟨entry, hentry, n, rfl⟩ := exists_of_mem_numbered h
  rw [mem_sortedBy] at hentry
  exact ⟨entry.candidate, _,
    FusionEntry.candidate_mem_of_get hfullText hvector (Table.mem_rows_iff.1 hentry), rfl⟩

/-- Exchanging the channels keeps the keys of the entries. -/
theorem map_fusedRow_comm {k : ℕ} {fullText vector : List RetrievalCandidate}
    (hfullText : (fullText.map (·.chunkId)).Nodup) (hvector : (vector.map (·.chunkId)).Nodup) :
    (reciprocalRankFusion vector fullText k).map fusedRow =
      (reciprocalRankFusion fullText vector k).map fusedRow := by
  have hrow : ∀ l : List FusionEntry, (numbered FusionEntry.fused l).map fusedRow =
      numbered (fun (key : ℚ ×ₗ String) n =>
        ((ofLex key).2, -(ofLex key).1, some (-(ofLex key).1), some n))
        (l.map FusionEntry.sortKey) := by
    intro l
    refine map_numbered_eq_numbered fun entry n => ?_
    simp [fusedRow, FusionEntry.fused, FusionEntry.sortKey]
  have hkeys : ((fusionEntries vector fullText k).rows.map FusionEntry.sortKey).Perm
      ((fusionEntries fullText vector k).rows.map FusionEntry.sortKey) := by
    refine (List.perm_ext_iff_of_nodup (nodup_map_sortKey _) (nodup_map_sortKey _)).2 fun key => ?_
    rw [mem_map_sortKey hvector hfullText, mem_map_sortKey hfullText hvector, or_comm, add_comm]
  rw [reciprocalRankFusion, reciprocalRankFusion, hrow, hrow, map_key_sortedBy_congr _ hkeys]

/-- **Fusion is exact, and symmetric in its channels.** -/
theorem reciprocalRankFusion_exact (k : ℕ) (fullText vector : List RetrievalCandidate)
    (hfullText : (fullText.map (·.chunkId)).Nodup) (hvector : (vector.map (·.chunkId)).Nodup) :
    IsFusion k fullText vector (reciprocalRankFusion fullText vector k) ∧
      (reciprocalRankFusion vector fullText k).map fusedRow =
        (reciprocalRankFusion fullText vector k).map fusedRow :=
  ⟨isFusion_reciprocalRankFusion hfullText hvector, map_fusedRow_comm hfullText hvector⟩

namespace Sample

def found (documentId chunkId : String) (score : ScoreBreakdown) : RetrievalCandidate :=
  ⟨"t", "kb", documentId, "v", chunkId, "text", score⟩

def byText : List RetrievalCandidate :=
  [found "d" "a" { finalScore := 2, fullTextScore := some 2 },
    found "d" "b" { finalScore := 1, fullTextScore := some 1 }]

def byVector : List RetrievalCandidate :=
  [found "d" "b" { finalScore := 1, vectorScore := some 1 },
    found "d" "c" { finalScore := 0, vectorScore := some 0 }]

end Sample

/-- A chunk that both channels found, and two that one of them found. -/
theorem reciprocalRankFusion_exact_byText :
    (reciprocalRankFusion Sample.byText Sample.byVector 60).map (·.chunkId) = ["b", "a", "c"] ∧
      IsFusion 60 Sample.byText Sample.byVector
        (reciprocalRankFusion Sample.byText Sample.byVector 60) :=
  ⟨by decide +kernel,
    (reciprocalRankFusion_exact 60 Sample.byText Sample.byVector (by decide) (by decide)).1⟩

end Knowledge
end RagflowAgent
