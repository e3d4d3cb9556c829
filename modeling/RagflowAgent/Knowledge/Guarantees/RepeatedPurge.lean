import Mathlib.Data.List.Dedup
import RagflowAgent.Interleaving.Triple
import RagflowAgent.Knowledge.Commands
import RagflowAgent.Knowledge.Effects

/-!
# Purges that fail and are repeated

A purge deletes the chunks and the source objects of a document one by one, and only then records
in one transaction that they are gone.  It can fail anywhere in between.

* `Cleaned` says which chunks and objects are gone, `PartlyCleaned` that they are some of those of
  the document;
* `settles_purge_of_unrecorded` and `settles_purge_of_purged` are the triples of one attempt, before
  and after the transaction;
* `completedBy_runAll` runs any attempts, and `purge_repeated` says what an attempt that succeeds
  after them has left.
-/

namespace RagflowAgent
namespace Knowledge

open Interleaving Keyed

/-! ## What deletions take away -/

namespace SearchIndex

variable {index : SearchIndex} {scopes scopes' : List VersionScope}

/-- The index without the chunks of some versions. -/
def without (index : SearchIndex) (scopes : List VersionScope) : SearchIndex :=
  index.deleteByQuery fun chunk => ∃ scope ∈ scopes, chunk.InScope scope

theorem without_nil : index.without [] = index := by
  have hall : index.chunks.filter (fun chunk =>
      ¬ ∃ scope ∈ ([] : List VersionScope), chunk.InScope scope) = index.chunks :=
    List.filter_eq_self.2 fun chunk _ => by simp
  unfold without deleteByQuery
  rw [hall]

theorem without_congr (h : ∀ scope, scope ∈ scopes ↔ scope ∈ scopes') :
    index.without scopes = index.without scopes' := by
  unfold without
  simp only [h]

theorem without_without : (index.without scopes).without scopes' =
    index.without (scopes ++ scopes') := by
  simp only [without, deleteByQuery, List.filter_filter, SearchIndex.mk.injEq, true_and]
  refine List.filter_congr fun chunk _ => ?_
  simp only [← Bool.decide_and, decide_eq_decide, List.mem_append, or_and_right, exists_or, not_or]
  exact and_comm

theorem mem_without {chunk : IndexedChunk} :
    chunk ∈ (index.without scopes).chunks ↔
      chunk ∈ index.chunks ∧ ∀ scope ∈ scopes, ¬ chunk.InScope scope := by
  rw [without, mem_deleteByQuery, not_exists]
  simp only [not_and]

end SearchIndex

/-- The same database, index and objects. -/
structure World.SameStores (w w' : World) : Prop where
  store : w'.store = w.store
  index : w'.index = w.index
  objects : w'.objects = w.objects

/-- The chunks of some versions and some objects are gone, and nothing else. -/
structure Cleaned (w w' : World) (scopes : List VersionScope) (objectKeys : List String) :
    Prop where
  store : w'.store = w.store
  index : w'.index = w.index.without scopes
  objects : w'.objects = w.objects.filter fun objectKey => objectKey ∉ objectKeys

namespace Cleaned

variable {w w₁ w₂ : World} {scopes scopes' : List VersionScope} {objectKeys objectKeys' : List String}

theorem of_sameStores (h : w.SameStores w₁) : Cleaned w w₁ [] [] where
  store := h.store
  index := by rw [h.index, SearchIndex.without_nil]
  objects := by simp [h.objects]

theorem trans (h : Cleaned w w₁ scopes objectKeys) (h' : Cleaned w₁ w₂ scopes' objectKeys') :
    Cleaned w w₂ (scopes ++ scopes') (objectKeys ++ objectKeys') where
  store := h'.store.trans h.store
  index := by rw [h'.index, h.index, SearchIndex.without_without]
  objects := by
    rw [h'.objects, h.objects, List.filter_filter]
    refine List.filter_congr fun objectKey _ => ?_
    simp only [← Bool.decide_and, decide_eq_decide, List.mem_append, not_or]
    exact and_comm

theorem congr (h : Cleaned w w₁ scopes objectKeys) (hscopes : ∀ s, s ∈ scopes ↔ s ∈ scopes')
    (hkeys : ∀ k, k ∈ objectKeys ↔ k ∈ objectKeys') : Cleaned w w₁ scopes' objectKeys' where
  store := h.store
  index := h.index.trans (SearchIndex.without_congr hscopes)
  objects := by
    rw [h.objects]
    refine List.filter_congr fun objectKey _ => ?_
    rw [decide_eq_decide, hkeys]

end Cleaned

/-! ## Calls that fail, or do not -/

/-- Nothing fails from outside. -/
def Input.Faultless (x : Input) : Prop := x.fault = none ∧ x.lateFault = none

/-- **How a call ends**: with the answer of its effect; or with an error, before or after its
effect, and then it was disturbed or has no effect. -/
theorem ends_exec {β : Type} (a : Action β) (x : Input) (w : World) :
    Ends (fun b w' => a.call.effect x w = .ok (b, w'))
      (fun _ w' => (w' = w ∨ ∃ b, a.call.effect x w = .ok (b, w')) ∧
        ¬ (x.Faultless ∧ ∃ result, a.call.effect x w = .ok result)) (exec a x w) := by
  unfold exec
  split
  · rename_i e hfault
    refine ends_error.2 ⟨.inl rfl, fun h => ?_⟩
    rw [h.1.1] at hfault
    cases hfault
  split
  · rename_i e heffect
    refine ends_error.2 ⟨.inl rfl, ?_⟩
    rintro ⟨-, result, hresult⟩
    rw [heffect] at hresult
    cases hresult
  rename_i b w' heffect
  split
  · rename_i e hlate
    refine ends_error.2 ⟨.inr ⟨b, heffect⟩, fun h => ?_⟩
    rw [h.1.2] at hlate
    cases hlate
  · exact ends_ok.2 heffect

/-- A triple whose inputs are `allowed` and that asks nothing of the calls. -/
abbrev Settles {α : Type} (allowed : Input → Prop) (P : World → Prop) (p : Service α)
    (Q : α → World → Prop) (E : World → Prop) : Prop :=
  Triple exec (fun _ _ x _ => allowed x) (fun _ _ _ _ => True) P p Q fun _ => E

section Settles

variable {allowed : Input → Prop} {P : World → Prop} {E : World → Prop}

theorem settles_ask {β : Type} {task : Task} {knows : List Fact} {call : Call β}
    {Q : β → World → Prop}
    (hok : ∀ x w b w', P w → allowed x → call.effect x w = .ok (b, w') → Q b w')
    (herror : ∀ x w w', P w → allowed x →
      (w' = w ∨ ∃ b, call.effect x w = .ok (b, w')) →
      ¬ (x.Faultless ∧ ∃ result, call.effect x w = .ok result) → E w') :
    Settles allowed P (ask task knows call) Q E := by
  refine triple_perform fun x w hw hx => ⟨trivial, ?_⟩
  obtain ⟨hends, hraises⟩ := ends_exec ⟨task, knows, call⟩ x w
  exact ⟨fun b hb => hok x w b _ hw hx (hends b hb),
    fun e he => herror x w _ hw hx (hraises e he).1 (hraises e he).2⟩

theorem settles_query {β : Type} {task : Task} {knows : List Fact} {q : Query β}
    (herror : ∀ x w, P w → allowed x → ¬ (x.Faultless ∧ ∃ b, q.answer w = .ok b) → E w) :
    Settles allowed P (ask task knows (.query q)) (fun b w => P w ∧ q.answer w = .ok b) E := by
  refine settles_ask (fun x w b w' hw _ heffect => ?_) fun x w w' hw hx hw' hnot => ?_
  · obtain ⟨b', hanswer, heq⟩ := map_eq_ok.1 heffect
    cases heq
    exact ⟨hw, hanswer⟩
  · obtain rfl : w' = w := by
      rcases hw' with h | ⟨b, heffect⟩
      · exact h
      · obtain ⟨b', -, heq⟩ := map_eq_ok.1 heffect
        cases heq
        rfl
    refine herror x w' hw hx ?_
    rintro ⟨hfaultless, b, hb⟩
    exact hnot ⟨hfaultless, (b, w'), map_eq_ok.2 ⟨b, hb, rfl⟩⟩

/-- A sequence that starts with a query whose answer is known. -/
theorem settles_bind_query {α β : Type} {task : Task} {knows : List Fact} {q : Query β}
    {f : β → Service α} {Q : α → World → Prop} {φ : β → Prop}
    (herror : ∀ x w, P w → allowed x → ¬ (x.Faultless ∧ ∃ b, q.answer w = .ok b) → E w)
    (hanswer : ∀ w b, P w → q.answer w = .ok b → φ b)
    (hf : ∀ b, φ b → Settles allowed P (f b) Q E) :
    Settles allowed P ((ask task knows (.query q)).bind f) Q E := by
  refine triple_bind (settles_query herror) fun b x w hw hA => ?_
  exact hf b (hanswer w b hw.1 hw.2) x w hw.1 hA

/-- A sequence that starts with a look at the clock, which cannot fail. -/
theorem settles_bind_now {α : Type} {task : Task} {knows : List Fact} {f : ℕ → Service α}
    {Q : α → World → Prop} (hclock : ∀ w n, P w → P { w with clock := n })
    (hf : ∀ x, allowed x → Settles allowed P (f x.now) Q E) :
    Settles allowed P ((ask task knows .now).bind f) Q E := by
  have hnow : Settles allowed P (ask task knows .now)
      (fun n w => P w ∧ ∃ x, allowed x ∧ n = x.now) E := by
    refine triple_perform fun x w hw hx => ⟨trivial, ?_⟩
    rw [exec_now]
    exact ends_ok.2 ⟨hclock w x.now hw, x, hx, rfl⟩
  refine triple_bind hnow ?_
  rintro n x w ⟨hw, y, hy, rfl⟩ hA
  exact hf y hy x w hw hA

/-- The id generator does not fail either. -/
theorem settles_bind_newId {α : Type} {task : Task} {knows : List Fact} {f : String → Service α}
    {Q : α → World → Prop} (hf : ∀ x, allowed x → Settles allowed P (f x.newId) Q E) :
    Settles allowed P ((ask task knows .newId).bind f) Q E := by
  have hnewId : Settles allowed P (ask task knows .newId)
      (fun id w => P w ∧ ∃ x, allowed x ∧ id = x.newId) E := by
    refine triple_perform fun x w hw hx => ⟨trivial, ?_⟩
    rw [exec_newId]
    exact ends_ok.2 ⟨hw, x, hx, rfl⟩
  refine triple_bind hnewId ?_
  rintro id x w ⟨hw, y, hy, rfl⟩ hA
  exact hf y hy x w hw hA

end Settles

/-! ## The clean-up -/

namespace DocumentDeletionService

/-- The scopes of the versions of a document. -/
def scopes (document : Document) (tenantId : String) (versions : List DocumentVersion) :
    List VersionScope :=
  versions.map fun version => document.scope tenantId version.id

/-- Some of the versions are cleaned up. -/
def PartlyCleaned (document : Document) (tenantId : String) (versions : List DocumentVersion)
    (w w' : World) : Prop :=
  ∃ s ⊆ scopes document tenantId versions, ∃ k ⊆ versions.map DocumentVersion.objectKey,
    Cleaned w w' s k

section Cleanup

variable {allowed : Input → Prop} {document : Document} {tenantId : String}
  {versions : List DocumentVersion} {knows : List Fact} {w : World} {Smooth : Prop}

/-- The chunks of the versions are deleted, one version after the other. -/
theorem settles_deleteProjections
    (hsmooth : Smooth → ∀ x, allowed x → x.Faultless) :
    Settles allowed (PartlyCleaned document tenantId versions w)
      (.forEach versions fun version => ask .purging knows (.changeIndex
        (.deleteDocumentVersion (document.scope tenantId version.id))))
      (fun _ w' => ∃ k ⊆ versions.map DocumentVersion.objectKey,
        Cleaned w w' (scopes document tenantId versions) k)
      fun w' => PartlyCleaned document tenantId versions w w' ∧ ¬ Smooth := by
  refine (triple_forEach (I := fun done w' => ∃ s ⊆ scopes document tenantId versions,
    scopes document tenantId done ⊆ s ∧ ∃ k ⊆ versions.map DocumentVersion.objectKey,
      Cleaned w w' s k) fun done version rest hversions => ?_).mono ?_ ?_ fun _ _ h => h
  · have hmem : document.scope tenantId version.id ∈ scopes document tenantId versions :=
      List.mem_map_of_mem (hversions ▸ List.mem_append_right _ List.mem_cons_self)
    have hdeleted : ∀ {w₁ w₂ : World} {x : Input} {u : Unit} {s k},
        Cleaned w w₁ s k →
        (Call.changeIndex (.deleteDocumentVersion
          (document.scope tenantId version.id))).effect x w₁ = .ok (u, w₂) →
        Cleaned w w₂ (document.scope tenantId version.id :: s) k := by
      intro w₁ w₂ x u s k hcleaned heffect
      cases heffect
      have hone : Cleaned w₁
          { w₁ with index := w₁.index.deleteByQuery fun chunk =>
              chunk.InScope (document.scope tenantId version.id) }
          [document.scope tenantId version.id] [] :=
        { store := rfl
          index := by simp [SearchIndex.without]
          objects := by simp }
      exact (hcleaned.trans hone).congr (by simp [or_comm]) (by simp)
    refine settles_ask ?_ ?_
    · rintro x w₁ u w₂ ⟨s, hs, hdone, k, hk, hcleaned⟩ - heffect
      refine ⟨_, List.cons_subset.2 ⟨hmem, hs⟩, ?_, k, hk, hdeleted hcleaned heffect⟩
      intro scope hscope
      rw [scopes, List.map_append, List.mem_append] at hscope
      rcases hscope with hscope | hscope
      · exact List.mem_cons_of_mem _ (hdone hscope)
      · exact List.mem_singleton.1 hscope ▸ List.mem_cons_self
    · rintro x w₁ w₂ ⟨s, hs, -, k, hk, hcleaned⟩ hx hw₂ hnot
      refine ⟨?_, fun hs => hnot ⟨hsmooth hs x hx, _, rfl⟩⟩
      rcases hw₂ with rfl | ⟨u, heffect⟩
      · exact ⟨s, hs, k, hk, hcleaned⟩
      · exact ⟨_, List.cons_subset.2 ⟨hmem, hs⟩, k, hk, hdeleted hcleaned heffect⟩
  · rintro w' ⟨s, hs, k, hk, hcleaned⟩
    exact ⟨s, hs, List.nil_subset _, k, hk, hcleaned⟩
  · rintro _ w' ⟨s, hs, hdone, k, hk, hcleaned⟩
    exact ⟨k, hk, hcleaned.congr (fun scope => ⟨fun h => hs h, fun h => hdone h⟩) fun _ => Iff.rfl⟩

/-- The objects of the versions are deleted, each once. -/
theorem settles_deleteObjects (hsmooth : Smooth → ∀ x, allowed x → x.Faultless) :
    Settles allowed
      (fun w' => ∃ k ⊆ versions.map DocumentVersion.objectKey,
        Cleaned w w' (scopes document tenantId versions) k)
      (.forEach (versions.map DocumentVersion.objectKey).dedup fun objectKey => do
        if ← ask .purging knows (.query (.objectExists objectKey)) then
          ask .purging knows (.changeObjects (.delete objectKey)))
      (fun _ w' => Cleaned w w' (scopes document tenantId versions)
        (versions.map DocumentVersion.objectKey))
      fun w' => PartlyCleaned document tenantId versions w w' ∧ ¬ Smooth := by
  refine (triple_forEach (I := fun done w' => ∃ k ⊆ versions.map DocumentVersion.objectKey,
    done ⊆ k ∧ Cleaned w w' (scopes document tenantId versions) k)
    fun done objectKey rest hkeys => ?_).mono ?_ ?_ fun _ _ h => h
  · have hmem : objectKey ∈ versions.map DocumentVersion.objectKey := by
      rw [← List.mem_dedup, ← hkeys]
      exact List.mem_append_right _ List.mem_cons_self
    have hgone : ∀ {w₁ w₂ : World} {k},
        Cleaned w w₁ (scopes document tenantId versions) k →
        w₂ = { w₁ with objects := w₁.objects.filter fun key => key ≠ objectKey } →
        Cleaned w w₂ (scopes document tenantId versions) (objectKey :: k) := by
      rintro w₁ w₂ k hcleaned rfl
      have hone : Cleaned w₁
          { w₁ with objects := w₁.objects.filter fun key => key ≠ objectKey } [] [objectKey] :=
        { store := rfl
          index := SearchIndex.without_nil.symm
          objects := by simp }
      exact (hcleaned.trans hone).congr (by simp) (by simp [or_comm])
    have hdone : ∀ {k : List String}, done ⊆ k → done ++ [objectKey] ⊆ objectKey :: k := by
      intro k hdone key hkey
      rcases List.mem_append.1 hkey with hkey | hkey
      · exact List.mem_cons_of_mem _ (hdone hkey)
      · exact List.mem_singleton.1 hkey ▸ List.mem_cons_self
    refine triple_bind (settles_query ?_) fun found => ?_
    · rintro x w₁ ⟨k, hk, -, hcleaned⟩ hx hnot
      exact ⟨⟨_, List.Subset.refl _, k, hk, hcleaned⟩,
        fun hs => hnot ⟨hsmooth hs x hx, _, rfl⟩⟩
    cases found with
    | false =>
      refine triple_ret ?_
      rintro w₁ ⟨⟨k, hk, hsub, hcleaned⟩, hfound⟩
      have habsent : objectKey ∉ w₁.objects := of_decide_eq_false (Except.ok.inj hfound)
      refine ⟨objectKey :: k, List.cons_subset.2 ⟨hmem, hk⟩, hdone hsub, hgone hcleaned ?_⟩
      have hobjects : w₁.objects.filter (fun key => key ≠ objectKey) = w₁.objects := by
        refine List.filter_eq_self.2 fun key hkey => decide_eq_true ?_
        rintro rfl
        exact habsent hkey
      rw [hobjects]
    | true =>
      refine settles_ask ?_ ?_
      · rintro x w₁ u w₂ ⟨⟨k, hk, hsub, hcleaned⟩, -⟩ - heffect
        cases heffect
        exact ⟨objectKey :: k, List.cons_subset.2 ⟨hmem, hk⟩, hdone hsub, hgone hcleaned rfl⟩
      · rintro x w₁ w₂ ⟨⟨k, hk, -, hcleaned⟩, -⟩ hx hw₂ hnot
        refine ⟨?_, fun hs => hnot ⟨hsmooth hs x hx, _, rfl⟩⟩
        rcases hw₂ with rfl | ⟨u, heffect⟩
        · exact ⟨_, List.Subset.refl _, k, hk, hcleaned⟩
        · cases heffect
          exact ⟨_, List.Subset.refl _, _, List.cons_subset.2 ⟨hmem, hk⟩, hgone hcleaned rfl⟩
  · rintro w' ⟨k, hk, hcleaned⟩
    exact ⟨k, hk, List.nil_subset _, hcleaned⟩
  · rintro _ w' ⟨k, hk, hdone, hcleaned⟩
    refine hcleaned.congr (fun _ => Iff.rfl) fun key => ⟨fun h => hk h, fun h => ?_⟩
    exact hdone (List.mem_dedup.2 h)

end Cleanup

/-! ## One attempt -/

/-- The rows of the versions of a document, in the order of a query. -/
def storedVersions (st : Store) (tenantId documentId : String) : List DocumentVersion :=
  Query.orderBy DocumentVersion.id <| (st.table .documentVersions).rows.filter fun row =>
    row.tenantId = tenantId ∧ row.documentId = documentId

/-- The rows of the operations on a document, in the order of a query. -/
def storedOperations (st : Store) (tenantId documentId : String) : List LifecycleOperation :=
  Query.orderBy LifecycleOperation.updatedAt <|
    (st.table .lifecycleOperations).rows.filter fun row =>
      row.tenantId = tenantId ∧ row.documentId = documentId

section Rows

variable {st : Store} {tenantId documentId : String}

theorem mem_storedVersions {version : DocumentVersion} :
    version ∈ storedVersions st tenantId documentId ↔
      st.row .documentVersions (key version) = some version ∧ version.tenantId = tenantId ∧
        version.documentId = documentId := by
  rw [storedVersions, Query.orderBy, List.mem_insertionSort, List.mem_filter]
  exact and_congr Table.mem_rows_iff (by simp)

theorem mem_storedOperations {operation : LifecycleOperation} :
    operation ∈ storedOperations st tenantId documentId ↔
      st.row .lifecycleOperations (key operation) = some operation ∧
        operation.tenantId = tenantId ∧ operation.documentId = documentId := by
  rw [storedOperations, Query.orderBy, List.mem_insertionSort, List.mem_filter]
  exact and_congr Table.mem_rows_iff (by simp)

/-- Versions are decoded as they are stored. -/
theorem decode_storedVersions {versions : List DocumentVersion} :
    Repository.decode (storedVersions st tenantId documentId) = .ok versions ↔
      versions = storedVersions st tenantId documentId ∧
        ∀ version ∈ storedVersions st tenantId documentId, version.Valid := by
  constructor
  · intro h
    refine ⟨eq_of_mapM_eq_ok (fun v _ v' hv => (DocumentVersion.validate_eq_ok.1 hv).1) h,
      fun v hv => ?_⟩
    obtain ⟨v', -, hv'⟩ := exists_of_mapM_eq_ok h v hv
    exact (DocumentVersion.validate_eq_ok.1 hv').2
  · rintro ⟨rfl, hvalid⟩
    exact mapM_eq_self fun v hv => DocumentVersion.validate_eq_ok.2 ⟨rfl, hvalid v hv⟩

end Rows

/-- What a purge reads can be read, and the caller may purge. -/
structure Readable (st : Store) (context : AuthorizationContext) (document : Document)
    (documentId : String) (enforcePermission : Bool) : Prop where
  permitted : requireDelete context document enforcePermission = .ok ()
  documentValid : document.Valid
  versionsValid : ∀ version ∈ storedVersions st context.tenantId documentId, version.Valid
  operationsDecode : document.status = .deleted →
    ∃ l, Repository.decode (storedOperations st context.tenantId documentId) = .ok l

section Attempt

variable {allowed : Input → Prop} {context : AuthorizationContext} {documentId reason : String}
  {enforcePermission : Bool} {document : Document} {st : Store} {J E : World → Prop}
  {Q : LifecycleOperation → World → Prop}

/-- **What an attempt reads first.**  It returns the purge that is recorded, or goes on to the
deletions; while it reads, nothing changes but the clock. -/
theorem settles_purge (hstore : ∀ w, J w → w.store = st)
    (hclock : ∀ w n, J w → J { w with clock := n })
    (hrow : st.row .documents (context.tenantId, documentId) = some document)
    (hprior : ∀ l prior,
      Repository.decode (storedOperations st context.tenantId documentId) = .ok l →
      document.status = .deleted → l.reverse.find? (·.kind = .purge) = some prior →
      ∀ w, J w → Q prior w)
    (hpurge : ∀ x, allowed x → Readable st context document documentId enforcePermission →
      (document.status = .deleted → ∀ l,
        Repository.decode (storedOperations st context.tenantId documentId) = .ok l →
        l.reverse.find? (·.kind = .purge) = none) →
      Settles allowed J (purgeDocument context document
        (storedVersions st context.tenantId documentId) reason x.now) Q E)
    (hfails : ∀ w, J w → ¬ (Readable st context document documentId enforcePermission ∧
      ∀ x, allowed x → x.Faultless) → E w) :
    Settles allowed J (purge context documentId reason enforcePermission) Q E := by
  have hget : ∀ w, J w → (w.store.table .documents).get (context.tenantId, documentId) =
      some document := fun w hw => by
    rw [hstore w hw]
    exact hrow
  refine settles_bind_query (φ := fun found => found = some document ∧ document.Valid)
    (fun x w hw hx hnot => hfails w hw fun h => hnot ?_) (fun w found hw hfound => ?_)
    fun found hfound => ?_
  · refine ⟨h.2 x hx, some document, ?_⟩
    simp only [Query.answer, Repository.get, hget w hw]
    exact map_eq_ok.2 ⟨_, Document.validate_eq_ok.2 ⟨rfl, h.1.documentValid⟩, rfl⟩
  · simp only [Query.answer, Repository.get, hget w hw] at hfound
    obtain ⟨d, hd, rfl⟩ := map_eq_ok.1 hfound
    obtain ⟨rfl, hvalid⟩ := Document.validate_eq_ok.1 hd
    exact ⟨rfl, hvalid⟩
  obtain ⟨rfl, hdocument⟩ := hfound
  refine settles_bind_query
    (φ := fun versions => versions = storedVersions st context.tenantId documentId ∧
      ∀ version ∈ storedVersions st context.tenantId documentId, version.Valid)
    (fun x w hw hx hnot => hfails w hw fun h => hnot ?_)
    (fun w versions hw hversions => ?_) fun versions hversions => ?_
  · refine ⟨h.2 x hx, _, decode_storedVersions.2 ⟨rfl, ?_⟩⟩
    rw [hstore w hw]
    exact h.1.versionsValid
  · rw [← hstore w hw]
    exact decode_storedVersions.1 hversions
  obtain ⟨rfl, hversions⟩ := hversions
  refine triple_bind_ofExcept (fun _ hpermitted => ?_) fun e hdenied w hw => hfails w hw fun h => ?_
  · refine settles_bind_now hclock fun x hx => ?_
    split
    · rename_i hdeleted
      refine settles_bind_query
        (φ := fun l => Repository.decode (storedOperations st context.tenantId documentId) = .ok l)
        (fun x w hw hx hnot => hfails w hw fun h => hnot ?_)
        (fun w l hw hl => ?_) fun l hl => ?_
      · obtain ⟨l, hl⟩ := h.1.operationsDecode hdeleted
        rw [← hstore w hw] at hl
        exact ⟨h.2 x hx, l, hl⟩
      · rw [← hstore w hw]
        exact hl
      split
      · exact triple_ret (hprior l _ hl hdeleted ‹_›)
      · refine hpurge x hx ⟨hpermitted, hdocument, hversions, fun _ => ⟨l, hl⟩⟩ fun _ l' hl' => ?_
        obtain rfl : l = l' := Except.ok.inj (hl.symm.trans hl')
        assumption
    · rename_i hopen
      exact hpurge x hx ⟨hpermitted, hdocument, hversions, fun h => absurd h hopen⟩
        fun h => absurd h hopen
  · rw [h.1.permitted] at hdenied
    cases hdenied

end Attempt

/-! ## The transaction -/

/-- What a purge writes. -/
def purgeStatements (context : AuthorizationContext) (document : Document)
    (deleted : List DocumentVersion) (operation : LifecycleOperation) (now : ℕ) : List Stmt :=
  deleted.map (.save context.tenantId .documentVersions) ++
    [.saveIfRevision context.tenantId (purged document now) document.revision,
      .add context.tenantId .lifecycleOperations operation]

/-- The transaction of a purge leads from the database `st` to `st'`. -/
structure Records (st : Store) (context : AuthorizationContext) (document : Document)
    (documentId reason : String) (now : ℕ) (operationId : String) (st' : Store) : Prop where
  due : document.purgeAfter.any (· ≤ now) = true
  transacts : ∃ deleted,
    deletedVersions (storedVersions st context.tenantId documentId) now = .ok deleted ∧
      st.transact (purgeStatements context document deleted (purgeOperation context document
        (storedVersions st context.tenantId documentId) operationId reason now) now) = .ok st'

/-- A purge of the world `w` is complete and recorded in `w'`. -/
structure Recorded (w : World) (context : AuthorizationContext) (document : Document)
    (documentId reason : String) (now : ℕ) (operationId : String) (w' : World) : Prop where
  records : Records w.store context document documentId reason now operationId w'.store
  index : w'.index = w.index.without
    (scopes document context.tenantId (storedVersions w.store context.tenantId documentId))
  objects : w'.objects = w.objects.filter fun objectKey => objectKey ∉
    (storedVersions w.store context.tenantId documentId).map DocumentVersion.objectKey

section Attempt

variable {allowed : Input → Prop} {context : AuthorizationContext} {documentId reason : String}
  {enforcePermission : Bool} {document : Document} {w : World}

/-- **The deletions and their transaction.**  They end recorded, or partly done, or recorded and
not answered; they end recorded and answered when nothing fails from outside and the transaction
goes through. -/
theorem settles_purgeDocument {x₀ : Input} (hx₀ : allowed x₀) :
    Settles allowed (PartlyCleaned document context.tenantId
        (storedVersions w.store context.tenantId documentId) w)
      (purgeDocument context document (storedVersions w.store context.tenantId documentId) reason
        x₀.now)
      (fun operation w' => ∃ y, allowed y ∧
        operation = purgeOperation context document
          (storedVersions w.store context.tenantId documentId) y.newId reason x₀.now ∧
        Recorded w context document documentId reason x₀.now y.newId w')
      fun w' => (PartlyCleaned document context.tenantId
          (storedVersions w.store context.tenantId documentId) w w' ∨
          ∃ y, allowed y ∧ Recorded w context document documentId reason x₀.now y.newId w') ∧
        ¬ ((∀ x, allowed x → x.Faultless) ∧ ∀ x y, allowed x → allowed y →
          ∃ st', Records w.store context document documentId reason x.now y.newId st') := by
  set versions := storedVersions w.store context.tenantId documentId with hversions
  set Smooth := (∀ x, allowed x → x.Faultless) ∧ ∀ x y, allowed x → allowed y →
    ∃ st', Records w.store context document documentId reason x.now y.newId st'
  have hsmooth : Smooth → ∀ x, allowed x → x.Faultless := fun h => h.1
  refine triple_bind_raiseWhen (fun hdue => ?_) fun hearly w' hw' => ⟨.inl hw', fun hs => ?_⟩
  · refine triple_bind ((settles_deleteProjections hsmooth).mono (fun _ h => h)
      (fun _ _ h => h) fun _ _ h => ⟨.inl h.1, h.2⟩) fun _ => ?_
    refine triple_bind ((settles_deleteObjects hsmooth).mono (fun _ h => h)
      (fun _ _ h => h) fun _ _ h => ⟨.inl h.1, h.2⟩) fun _ => ?_
    have hpartly : ∀ w', Cleaned w w' (scopes document context.tenantId versions)
        (versions.map DocumentVersion.objectKey) →
        PartlyCleaned document context.tenantId versions w w' :=
      fun w' h => ⟨_, List.Subset.refl _, _, List.Subset.refl _, h⟩
    refine triple_bind_ofExcept (fun deleted hdeleted => ?_)
      fun e hrefused w' hw' => ⟨.inl (hpartly w' hw'), fun hs => ?_⟩
    · refine settles_bind_newId fun y hy => ?_
      have hrecorded : ∀ {w₁ w₂ : World} {u : Unit} {x : Input} {operation : LifecycleOperation},
          operation = purgeOperation context document versions y.newId reason x₀.now →
          Cleaned w w₁ (scopes document context.tenantId versions)
            (versions.map DocumentVersion.objectKey) →
          (Call.commit (purgeStatements context document deleted operation x₀.now)).effect x w₁ =
            .ok (u, w₂) →
          Recorded w context document documentId reason x₀.now y.newId w₂ := by
        rintro w₁ w₂ u x operation rfl hcleaned heffect
        obtain ⟨st', hst, heq⟩ := map_eq_ok.1 heffect
        cases heq
        rw [hcleaned.store] at hst
        exact ⟨⟨not_not.1 hdue, deleted, hdeleted, hst⟩, hcleaned.index, hcleaned.objects⟩
      refine triple_bind (settles_ask ?_ ?_) fun _ => triple_ret fun w' hw' => ⟨y, hy, rfl, hw'⟩
      · intro x w₁ u w₂ hw₁ _ heffect
        exact hrecorded rfl hw₁ heffect
      · intro x w₁ w₂ hw₁ hx hw₂ hnot
        refine ⟨?_, fun hs => hnot ⟨hs.1 x hx, ?_⟩⟩
        · rcases hw₂ with rfl | ⟨u, heffect⟩
          · exact .inl (hpartly _ hw₁)
          · exact .inr ⟨y, hy, hrecorded rfl hw₁ heffect⟩
        · obtain ⟨st', hrecords⟩ := hs.2 x₀ y hx₀ hy
          obtain ⟨deleted', hdeleted', hst⟩ := hrecords.transacts
          obtain rfl : deleted' = deleted := Except.ok.inj (hdeleted'.symm.trans hdeleted)
          refine ⟨_, map_eq_ok.2 ⟨st', ?_, rfl⟩⟩
          rw [hw₁.store]
          exact hst
    · obtain ⟨st', hrecords⟩ := hs.2 x₀ x₀ hx₀ hx₀
      obtain ⟨deleted', hdeleted', -⟩ := hrecords.transacts
      cases hdeleted'.symm.trans hrefused
  · obtain ⟨st', hrecords⟩ := hs.2 x₀ x₀ hx₀ hx₀
    exact hearly (by simpa using hrecords.due)

/-- **An attempt on a document whose purge is not recorded yet.** -/
theorem settles_purge_of_unrecorded
    (hrow : w.store.row .documents (context.tenantId, documentId) = some document)
    (hunrecorded : ∀ operation ∈ storedOperations w.store context.tenantId documentId,
      operation.kind ≠ .purge) :
    Settles allowed (PartlyCleaned document context.tenantId
        (storedVersions w.store context.tenantId documentId) w)
      (purge context documentId reason enforcePermission)
      (fun operation w' => ∃ x y, allowed x ∧ allowed y ∧
        operation = purgeOperation context document
          (storedVersions w.store context.tenantId documentId) y.newId reason x.now ∧
        Readable w.store context document documentId enforcePermission ∧
        Recorded w context document documentId reason x.now y.newId w')
      fun w' => (PartlyCleaned document context.tenantId
          (storedVersions w.store context.tenantId documentId) w w' ∨
          ∃ x y, allowed x ∧ allowed y ∧
            Readable w.store context document documentId enforcePermission ∧
            Recorded w context document documentId reason x.now y.newId w') ∧
        ¬ (Readable w.store context document documentId enforcePermission ∧
          (∀ x, allowed x → x.Faultless) ∧ ∀ x y, allowed x → allowed y →
            ∃ st', Records w.store context document documentId reason x.now y.newId st') := by
  refine settles_purge (fun w' h => ?_) (fun w' n h => ?_) hrow ?_ ?_ ?_
  · obtain ⟨s, -, k, -, hcleaned⟩ := h
    exact hcleaned.store
  · obtain ⟨s, hs, k, hk, hcleaned⟩ := h
    exact ⟨s, hs, k, hk, hcleaned.store, hcleaned.index, hcleaned.objects⟩
  · intro l prior hl _ hfind
    obtain ⟨row, hrow', hvalidate⟩ :=
      mem_of_mapM_eq_ok hl prior (List.mem_reverse.1 (List.mem_of_find?_eq_some hfind))
    obtain ⟨status, -, rfl⟩ := LifecycleOperation.validate_eq_ok hvalidate
    exact absurd (by simpa using List.find?_some hfind) (hunrecorded row hrow')
  · intro x hx hreadable _
    refine (settles_purgeDocument hx).mono (fun _ h => h) ?_ ?_
    · rintro operation w' ⟨y, hy, hoperation, hrecorded⟩
      exact ⟨x, y, hx, hy, hoperation, hreadable, hrecorded⟩
    · rintro _ w' ⟨hended, hnot⟩
      refine ⟨hended.imp_right ?_, fun h => hnot h.2⟩
      rintro ⟨y, hy, hrecorded⟩
      exact ⟨x, y, hx, hy, hreadable, hrecorded⟩
  · exact fun w' hw' hnot => ⟨.inl hw', fun h => hnot ⟨h.1, h.2.1⟩⟩

/-- The document is deleted, and one purge of it is recorded. -/
structure Purged (st : Store) (tenantId documentId : String) (document : Document)
    (operation : LifecycleOperation) : Prop where
  row : st.row .documents (tenantId, documentId) = some document
  deleted : document.status = .deleted
  recorded : operation ∈ storedOperations st tenantId documentId
  kind : operation.kind = .purge
  status : operation.status = .member .succeeded
  unique : ∀ other ∈ storedOperations st tenantId documentId, other.kind = .purge →
    other = operation

/-- **An attempt after the purge** changes nothing and returns what is recorded. -/
theorem settles_purge_of_purged {operation : LifecycleOperation}
    (hpurged : Purged w.store context.tenantId documentId document operation) :
    Settles allowed w.SameStores (purge context documentId reason enforcePermission)
      (fun found w' => w.SameStores w' ∧ found = operation)
      fun w' => w.SameStores w' ∧
        ¬ (Readable w.store context document documentId enforcePermission ∧
          ∀ x, allowed x → x.Faultless) := by
  refine settles_purge (fun w' h => h.store) (fun w' n h => ⟨h.store, h.index, h.objects⟩)
    hpurged.row ?_ ?_ fun w' hw' hnot => ⟨hw', hnot⟩
  · intro l prior hl _ hfind w' hw'
    obtain ⟨row, hrow, hvalidate⟩ :=
      mem_of_mapM_eq_ok hl prior (List.mem_reverse.1 (List.mem_of_find?_eq_some hfind))
    have hkind : row.kind = .purge := by
      obtain ⟨status, -, rfl⟩ := LifecycleOperation.validate_eq_ok hvalidate
      simpa using List.find?_some hfind
    obtain rfl := hpurged.unique row hrow hkind
    exact ⟨hw', LifecycleOperation.eq_of_validate_eq_ok hpurged.status hvalidate⟩
  · intro x _ hreadable hnone
    exfalso
    obtain ⟨l, hl⟩ := hreadable.operationsDecode hpurged.deleted
    obtain ⟨found, hfound, hvalidate⟩ := exists_of_mapM_eq_ok hl operation hpurged.recorded
    obtain rfl := LifecycleOperation.eq_of_validate_eq_ok hpurged.status hvalidate
    have hnot := List.find?_eq_none.1 (hnone hpurged.deleted l hl) found
      (List.mem_reverse.2 hfound)
    exact hnot (by simpa using hpurged.kind)

end Attempt

/-! ## What the transaction leaves -/

/-- `deleted` is the deleted snapshot of a version. -/
structure Deletes (version deleted : DocumentVersion) : Prop where
  status : deleted.status = .deleted
  sameScope : deleted.SameScope version
  objectKey : deleted.objectKey = version.objectKey
  valid : version.Valid → deleted.Valid

theorem deletes_of_eq_ok {version deleted : DocumentVersion} {now : ℕ}
    (h : (if version.status = .deleted then .ok version
      else transitionDocumentVersion version .deleted now) = .ok deleted) :
    Deletes version deleted := by
  split at h
  · cases h
    exact ⟨‹_›, .refl _, rfl, id⟩
  · refine ⟨status_of_transitionDocumentVersion h, sameScope_of_transitionDocumentVersion h, ?_, ?_⟩
    · obtain ⟨-, ⟨-, rfl⟩ | ⟨-, rfl⟩⟩ := transitionDocumentVersion_eq_ok h <;> rfl
    · obtain ⟨hclock, ⟨-, rfl⟩ | ⟨-, rfl⟩⟩ := transitionDocumentVersion_eq_ok h
      · exact id
      · exact fun hvalid => Nat.le_trans hvalid hclock

section Records

variable {st st' : Store} {context : AuthorizationContext} {document : Document}
  {documentId reason operationId : String} {now : ℕ}

/-- The document row after a purge. -/
theorem Records.documentRow
    (h : Records st context document documentId reason now operationId st')
    (hrow : st.row .documents (context.tenantId, documentId) = some document) :
    st'.row .documents (context.tenantId, documentId) = some (purged document now) := by
  obtain ⟨deleted, -, hst⟩ := h.transacts
  have hkey : key (purged document now) = (context.tenantId, documentId) := Store.key_of_row hrow
  refine (row_of_transact_of_written (r := .documents) hst (by decide)
    (by simp [Stmt.written]) (by simp [Stmt.written]) rfl _).trans ?_
  exact if_pos hkey

/-- The versions that a purge writes are the deleted ones. -/
theorem mem_of_lastWritten_purgeStatements {deleted : List DocumentVersion}
    {operation : LifecycleOperation} {k : String × String} {d : DocumentVersion}
    (h : lastWritten .documentVersions k (purgeStatements context document deleted operation now) =
      some d) : key d = k ∧ d ∈ deleted := by
  obtain ⟨hkey, s, hs, hwritten⟩ := exists_written_of_lastWritten h
  refine ⟨hkey, ?_⟩
  simp only [purgeStatements, List.mem_append, List.mem_map, List.mem_cons, List.not_mem_nil,
    or_false] at hs
  rcases hs with ⟨d', hd', rfl⟩ | rfl | rfl
  · cases hwritten
    exact hd'
  · cases hwritten
  · cases hwritten

/-- Every version is there after a purge, and deleted. -/
theorem Records.versionRow
    (h : Records st context document documentId reason now operationId st')
    {version : DocumentVersion}
    (hversion : version ∈ storedVersions st context.tenantId documentId) :
    ∃ deleted, st'.row .documentVersions (key version) = some deleted ∧
      Deletes version deleted := by
  obtain ⟨deleted, hdeleted, hst⟩ := h.transacts
  obtain ⟨d, hd, hdeletes⟩ := exists_of_mapM_eq_ok hdeleted version hversion
  have hkey : ∀ {v d : DocumentVersion}, Deletes v d → key d = key v := fun hd => by
    rw [key_documentVersion, key_documentVersion, hd.sameScope.1, hd.sameScope.2.1]
  obtain ⟨d', hd'⟩ := exists_lastWritten_of_mem (r := .documentVersions) (e := d)
    (l := purgeStatements context document deleted (purgeOperation context document
      (storedVersions st context.tenantId documentId) operationId reason now) now)
    (List.mem_append_left _ (List.mem_map_of_mem hd)) rfl
  obtain ⟨hkey', hmem⟩ := mem_of_lastWritten_purgeStatements hd'
  -- the row that is written under the key of the version is made from the version
  obtain ⟨version', hversion', hdeletes'⟩ := mem_of_mapM_eq_ok hdeleted d' hmem
  have hsame : version' = version := by
    have hrow := (mem_storedVersions.1 hversion').1
    have hrow' := (mem_storedVersions.1 hversion).1
    rw [← hkey (deletes_of_eq_ok hdeletes'), hkey', hkey (deletes_of_eq_ok hdeletes), hrow'] at hrow
    exact (Option.some.inj hrow).symm
  subst hsame
  refine ⟨d', ?_, deletes_of_eq_ok hdeletes'⟩
  rw [← hkey (deletes_of_eq_ok hdeletes), row_of_transact hst (by decide), hd', Option.some_or]

/-- After a purge every version of the document is the deleted snapshot of one that was there. -/
theorem Records.deletes
    (h : Records st context document documentId reason now operationId st')
    {deleted : DocumentVersion}
    (hdeleted : deleted ∈ storedVersions st' context.tenantId documentId) :
    ∃ version ∈ storedVersions st context.tenantId documentId, Deletes version deleted := by
  obtain ⟨hrow, htenant, hdocument⟩ := mem_storedVersions.1 hdeleted
  obtain ⟨l, hl, hst⟩ := h.transacts
  have hread := hrow
  rw [row_of_transact hst (by decide), Option.or_eq_some_iff] at hread
  rcases hread with hwritten | ⟨-, hold⟩
  · obtain ⟨-, hmem⟩ := mem_of_lastWritten_purgeStatements hwritten
    obtain ⟨version, hversion, hdeletes⟩ := mem_of_mapM_eq_ok hl deleted hmem
    exact ⟨version, hversion, deletes_of_eq_ok hdeletes⟩
  · have hversion := mem_storedVersions.2 ⟨hold, htenant, hdocument⟩
    obtain ⟨d, hd, hdeletes⟩ := h.versionRow hversion
    obtain rfl : deleted = d := Option.some.inj (hrow.symm.trans hd)
    exact ⟨deleted, hversion, hdeletes⟩

/-- A purge adds one operation. -/
theorem Records.operationRows
    (h : Records st context document documentId reason now operationId st')
    (hrow : st.row .documents (context.tenantId, documentId) = some document)
    {operation : LifecycleOperation} :
    operation ∈ storedOperations st' context.tenantId documentId ↔
      operation = purgeOperation context document
        (storedVersions st context.tenantId documentId) operationId reason now ∨
      operation ∈ storedOperations st context.tenantId documentId := by
  obtain ⟨deleted, -, hst⟩ := h.transacts
  set added := purgeOperation context document
    (storedVersions st context.tenantId documentId) operationId reason now with hadded
  have hwritten : ∀ s ∈ deleted.map (Stmt.save context.tenantId .documentVersions) ++
      [.saveIfRevision context.tenantId (purged document now) document.revision],
      s.written .lifecycleOperations = none := by
    simp [Stmt.written, or_imp, forall_and]
  rw [purgeStatements, List.append_cons] at hst
  have habsent := absent_of_add (m := []) hst (by decide) hwritten
  have hread := row_of_transact_of_written (m := []) (r := .lifecycleOperations) hst (by decide)
    hwritten (by simp) rfl
  have hdocument : added.documentId = documentId := congrArg Prod.snd (Store.key_of_row hrow)
  rw [mem_storedOperations, mem_storedOperations, hread]
  constructor
  · rintro ⟨hfound, hscope⟩
    split at hfound
    · exact .inl (Option.some.inj hfound).symm
    · exact .inr ⟨hfound, hscope⟩
  · rintro (rfl | ⟨hfound, hscope⟩)
    · exact ⟨if_pos rfl, rfl, hdocument⟩
    · refine ⟨(if_neg fun hkey => ?_).trans hfound, hscope⟩
      rw [← hkey, habsent] at hfound
      cases hfound

/-- After a purge no other purge of the document is recorded. -/
theorem Records.recordedOnce
    (h : Records st context document documentId reason now operationId st')
    (hrow : st.row .documents (context.tenantId, documentId) = some document)
    (hunrecorded : ∀ operation ∈ storedOperations st context.tenantId documentId,
      operation.kind ≠ .purge) :
    Purged st' context.tenantId documentId (purged document now) (purgeOperation context document
      (storedVersions st context.tenantId documentId) operationId reason now) where
  row := h.documentRow hrow
  deleted := rfl
  recorded := (h.operationRows hrow).2 (.inl rfl)
  kind := rfl
  status := rfl
  unique other hother hkind := by
    rcases (h.operationRows hrow).1 hother with h | h
    · exact h
    · exact absurd hkind (hunrecorded other h)

/-- After a purge everything that a purge reads can be read again. -/
theorem Records.readable
    (h : Records st context document documentId reason now operationId st')
    (hrow : st.row .documents (context.tenantId, documentId) = some document)
    {enforcePermission enforcePermission' : Bool} {context' : AuthorizationContext}
    (hreadable : Readable st context document documentId enforcePermission)
    (hdecode : ∃ l, Repository.decode (storedOperations st context.tenantId documentId) = .ok l)
    (hdeadline : ∀ deadline ∈ document.purgeAfter, document.createdAt ≤ deadline)
    (htenant : context'.tenantId = context.tenantId)
    (hpermitted : requireDelete context' document enforcePermission' = .ok ()) :
    Readable st' context' (purged document now) documentId enforcePermission' := by
  obtain ⟨deadline, hpurgeAfter, hdue⟩ := Option.any_eq_true _ _ |>.1 h.due
  have hvalid := hreadable.documentValid
  have hinactive : document.status ≠ .active :=
    hvalid.not_active_of_purgeAfter (by rw [hpurgeAfter]; exact Option.some_ne_none _)
  have hcurrent : document.currentVersionId = none := by
    by_contra hcurrent
    exact hinactive (hvalid.active_of_current hcurrent)
  have hdeletedAt : document.deletedAt ≠ none :=
    fun hnone => hinactive (hvalid.deletedAt_eq_none.1 hnone)
  refine ⟨hpermitted, ⟨?_, ?_, ?_, ?_⟩, ?_, fun _ => ?_⟩
  · exact Nat.le_trans (hdeadline deadline hpurgeAfter) (of_decide_eq_true hdue)
  · exact fun hne => absurd hcurrent hne
  · exact ⟨fun hnone => absurd hnone hdeletedAt, fun hactive => by cases hactive⟩
  · exact fun hnone => absurd hnone hdeletedAt
  · intro deleted hdeleted
    rw [htenant] at hdeleted
    obtain ⟨version, hversion, hdeletes⟩ := h.deletes hdeleted
    exact hdeletes.valid (hreadable.versionsValid version hversion)
  · rw [htenant]
    refine exists_mapM_eq_ok fun operation hoperation => ?_
    rcases (h.operationRows hrow).1 hoperation with rfl | hold
    · have hadded : (purgeOperation context document
          (storedVersions st context.tenantId documentId) operationId reason now).Valid :=
        { status := ⟨.succeeded, rfl⟩
          fencingToken := Nat.le_add_left 1 document.revision
          progress_nonneg := zero_le_one
          progress_le_one := le_refl 1
          createdAt_le := Nat.le_refl now
          error_ne_none := fun h => by cases h
          error_eq_none := fun _ => rfl }
      exact ⟨_, LifecycleOperation.validate_of_valid hadded⟩
    · obtain ⟨l, hl⟩ := hdecode
      obtain ⟨decoded, -, hdecoded⟩ := exists_of_mapM_eq_ok hl operation hold
      exact ⟨decoded, hdecoded⟩

end Records

/-! ## Repeated attempts -/

/-- One call of `purge` or of `purge_due`, with what settles its calls. -/
structure PurgeAttempt where
  context : AuthorizationContext
  reason : String
  enforcePermission : Bool
  inputs : ℕ → Input

namespace PurgeAttempt

def run (attempt : PurgeAttempt) (documentId : String) (w : World) :
    Except Error LifecycleOperation × World :=
  (purge attempt.context documentId attempt.reason attempt.enforcePermission).runAlone exec
    attempt.inputs w

/-- The world after some attempts, one after the other. -/
def runAll (documentId : String) (attempts : List PurgeAttempt) (w : World) : World :=
  attempts.foldl (fun w attempt => (attempt.run documentId w).2) w

/-- None of the calls fails from outside. -/
def Faultless (attempt : PurgeAttempt) : Prop := ∀ n, (attempt.inputs n).Faultless

end PurgeAttempt

/-- A triple of an attempt, read at its run. -/
theorem ends_run (allowed : Input → Prop) {P E : World → Prop}
    {Q : LifecycleOperation → World → Prop} (attempt : PurgeAttempt) {documentId : String}
    (h : Settles allowed P (purge attempt.context documentId attempt.reason
      attempt.enforcePermission) Q E) (hallowed : ∀ n, allowed (attempt.inputs n)) {w : World}
    (hw : P w) : Ends Q (fun _ => E) (attempt.run documentId w) :=
  (h attempt.inputs w hw (Prog.along_of_forall fun n _ _ _ => hallowed n)).2

/-- A document that waits for its purge, as its deletion leaves it. -/
structure AwaitsPurge (w : World) (tenantId documentId : String) (document : Document) :
    Prop where
  row : w.store.row .documents (tenantId, documentId) = some document
  unrecorded : ∀ operation ∈ storedOperations w.store tenantId documentId,
    operation.kind ≠ .purge
  operationsDecode : ∃ l, Repository.decode (storedOperations w.store tenantId documentId) = .ok l
  createdAt_le : ∀ deadline ∈ document.purgeAfter, document.createdAt ≤ deadline

/-- One of the attempts has completed the purge with this operation. -/
def CompletedBy (attempts : List PurgeAttempt) (w : World) (document : Document)
    (documentId : String) (operation : LifecycleOperation) (w' : World) : Prop :=
  ∃ attempt ∈ attempts, ∃ now operationId,
    operation = purgeOperation attempt.context document
      (storedVersions w.store attempt.context.tenantId documentId) operationId attempt.reason
        now ∧
    Readable w.store attempt.context document documentId attempt.enforcePermission ∧
    Recorded w attempt.context document documentId attempt.reason now operationId w'

section Attempts

variable {w w' w₁ w₂ : World} {tenantId documentId : String} {document : Document}
  {operation : LifecycleOperation} {attempts : List PurgeAttempt} {attempt : PurgeAttempt}

theorem CompletedBy.mono {attempts' : List PurgeAttempt} (hsub : attempts ⊆ attempts')
    (h : CompletedBy attempts w document documentId operation w₁) (hsame : w₁.SameStores w₂) :
    CompletedBy attempts' w document documentId operation w₂ := by
  obtain ⟨attempt, hattempt, now, operationId, hoperation, hreadable, hrecorded⟩ := h
  refine ⟨attempt, hsub hattempt, now, operationId, hoperation, hreadable, ?_, ?_, ?_⟩
  · rw [hsame.store]
    exact hrecorded.records
  · rw [hsame.index]
    exact hrecorded.index
  · rw [hsame.objects]
    exact hrecorded.objects

/-- A completed purge is the only one that is recorded. -/
theorem CompletedBy.purged (hawaits : AwaitsPurge w tenantId documentId document)
    (htenant : ∀ attempt ∈ attempts, attempt.context.tenantId = tenantId)
    (h : CompletedBy attempts w document documentId operation w') :
    ∃ now, Purged w'.store tenantId documentId (purged document now) operation := by
  obtain ⟨attempt, hattempt, now, operationId, hoperation, -, hrecorded⟩ := h
  obtain rfl := htenant attempt hattempt
  exact ⟨now, hoperation ▸ hrecorded.records.recordedOnce hawaits.row hawaits.unrecorded⟩

/-- **One attempt more.** -/
theorem completedBy_run (hawaits : AwaitsPurge w tenantId documentId document)
    (htenant : ∀ attempt ∈ attempts, attempt.context.tenantId = tenantId)
    (hattempt : attempt.context.tenantId = tenantId)
    (h : PartlyCleaned document tenantId (storedVersions w.store tenantId documentId) w w₁ ∨
      ∃ operation, CompletedBy attempts w document documentId operation w₁) :
    Ends (fun operation w₂ => CompletedBy (attempts ++ [attempt]) w document documentId operation w₂)
      (fun _ w₂ =>
        PartlyCleaned document tenantId (storedVersions w.store tenantId documentId) w w₂ ∨
          ∃ operation, CompletedBy (attempts ++ [attempt]) w document documentId operation w₂)
      (attempt.run documentId w₁) := by
  have hlast : attempt ∈ attempts ++ [attempt] :=
    List.mem_append_right _ (List.mem_singleton_self _)
  have hsub : attempts ⊆ attempts ++ [attempt] := List.subset_append_left _ _
  rcases h with hpartly | ⟨operation, hcompleted⟩
  · obtain rfl := hattempt
    obtain ⟨hok, herror⟩ := ends_run (fun _ => True) attempt
      (settles_purge_of_unrecorded hawaits.row hawaits.unrecorded) (fun _ => trivial) hpartly
    refine ⟨fun operation hoperation => ?_, fun e he => ?_⟩
    · obtain ⟨x, y, -, -, h, hreadable, hrecorded⟩ := hok operation hoperation
      exact ⟨attempt, hlast, x.now, y.newId, h, hreadable, hrecorded⟩
    · refine (herror e he).1.imp_right ?_
      rintro ⟨x, y, -, -, hreadable, hrecorded⟩
      exact ⟨_, attempt, hlast, x.now, y.newId, rfl, hreadable, hrecorded⟩
  · obtain ⟨now, hpurged⟩ := hcompleted.purged hawaits htenant
    obtain rfl := hattempt
    obtain ⟨hok, herror⟩ := ends_run (fun _ => True) attempt
      (settles_purge_of_purged hpurged) (fun _ => trivial) ⟨rfl, rfl, rfl⟩
    refine ⟨fun found hfound => ?_, fun e he => .inr ⟨operation, ?_⟩⟩
    · obtain ⟨hsame, rfl⟩ := hok found hfound
      exact hcompleted.mono hsub hsame
    · exact hcompleted.mono hsub (herror e he).1

/-- **Any attempts, one after the other.** -/
theorem completedBy_runAll (hawaits : AwaitsPurge w tenantId documentId document)
    (htenant : ∀ attempt ∈ attempts, attempt.context.tenantId = tenantId) :
    PartlyCleaned document tenantId (storedVersions w.store tenantId documentId) w
        (PurgeAttempt.runAll documentId attempts w) ∨
      ∃ operation, CompletedBy attempts w document documentId operation
        (PurgeAttempt.runAll documentId attempts w) := by
  induction attempts using List.reverseRecOn with
  | nil =>
    exact .inl ⟨[], List.nil_subset _, [], List.nil_subset _, Cleaned.of_sameStores ⟨rfl, rfl, rfl⟩⟩
  | append_singleton attempts attempt ih =>
    have hprevious := ih fun a ha => htenant a (List.mem_append_left _ ha)
    have hends := completedBy_run hawaits (fun a ha => htenant a (List.mem_append_left _ ha))
      (htenant attempt (List.mem_append_right _ (List.mem_singleton_self _))) hprevious
    rw [PurgeAttempt.runAll, List.foldl_append]
    cases hresult : (attempt.run documentId (PurgeAttempt.runAll documentId attempts w)).1 with
    | ok operation => exact .inr ⟨operation, hends.1 operation hresult⟩
    | error e => exact hends.2 e hresult

/-- What completes a purge can be done by one attempt in which nothing fails. -/
theorem CompletedBy.single (hawaits : AwaitsPurge w tenantId documentId document)
    (htenant : ∀ attempt ∈ attempts, attempt.context.tenantId = tenantId)
    (h : CompletedBy attempts w document documentId operation w') :
    ∃ attempt ∈ attempts, ∃ inputs, (∀ n, (inputs n).Faultless) ∧
      ({ attempt with inputs := inputs }.run documentId w).1 = .ok operation ∧
      w'.SameStores ({ attempt with inputs := inputs }.run documentId w).2 := by
  obtain ⟨attempt, hattempt, now, operationId, hoperation, hreadable, hrecorded⟩ := h
  obtain rfl := htenant attempt hattempt
  -- the same reading of the clock and the same fresh id at every call
  set x : Input := { now := now, newId := operationId }
  have hx : x.Faultless := ⟨rfl, rfl⟩
  refine ⟨attempt, hattempt, fun _ => x, fun _ => hx, ?_⟩
  have hends := ends_run (· = x) { attempt with inputs := fun _ => x }
    (settles_purge_of_unrecorded hawaits.row hawaits.unrecorded) (fun _ => rfl)
    ⟨[], List.nil_subset _, [], List.nil_subset _, Cleaned.of_sameStores ⟨rfl, rfl, rfl⟩⟩
  cases hresult : ({ attempt with inputs := fun _ => x }.run documentId w).1 with
  | ok found =>
    obtain ⟨_, _, rfl, rfl, hfound, -, hsingle⟩ := hends.1 found hresult
    refine ⟨congrArg Except.ok (hfound.trans hoperation.symm), ?_, ?_, ?_⟩
    · obtain ⟨deleted, hdeleted, hst⟩ := hrecorded.records.transacts
      obtain ⟨deleted', hdeleted', hst'⟩ := hsingle.records.transacts
      obtain rfl : deleted = deleted' := Except.ok.inj (hdeleted.symm.trans hdeleted')
      exact Except.ok.inj (hst'.symm.trans hst)
    · rw [hsingle.index, hrecorded.index]
    · rw [hsingle.objects, hrecorded.objects]
  | error e =>
    refine absurd ⟨hreadable, ?_, ?_⟩ (hends.2 e hresult).2
    · rintro _ rfl
      exact hx
    · rintro _ _ rfl rfl
      exact ⟨w'.store, hrecorded.records⟩

/-- **An attempt before the deadline** deletes nothing. -/
theorem sameStores_run_of_early
    (hrow : w.store.row .documents (attempt.context.tenantId, documentId) = some document)
    (hearly : ∀ n, ¬ document.purgeAfter.any (· ≤ (attempt.inputs n).now) = true) :
    w.SameStores (attempt.run documentId w).2 := by
  have hsettles : Settles (fun x => ¬ document.purgeAfter.any (· ≤ x.now) = true) w.SameStores
      (purge attempt.context documentId attempt.reason attempt.enforcePermission)
      (fun _ => w.SameStores) w.SameStores := by
    refine settles_purge (fun _ h => h.store) (fun _ _ h => ⟨h.store, h.index, h.objects⟩) hrow
      (fun _ _ _ _ _ _ h => h) (fun x hx _ _ => ?_) fun _ h _ => h
    exact triple_bind_raiseWhen (fun h => absurd hx h) fun _ _ h => h
  obtain ⟨hok, herror⟩ := ends_run _ attempt hsettles hearly ⟨rfl, rfl, rfl⟩
  cases hresult : (attempt.run documentId w).1 with
  | ok operation => exact hok operation hresult
  | error e => exact herror e hresult

/-- What the purge of a document has left: `w` is the world before the attempts. -/
structure PurgeComplete (tenantId documentId : String) (document : Document)
    (operation : LifecycleOperation) (attempts : List PurgeAttempt) (w w' : World) : Prop where
  /-- One attempt in which nothing fails leaves the same. -/
  single : ∃ attempt ∈ attempts, ∃ inputs, (∀ n, (inputs n).Faultless) ∧
    ({ attempt with inputs := inputs }.run documentId w).1 = .ok operation ∧
    w'.SameStores ({ attempt with inputs := inputs }.run documentId w).2
  documentDeleted : ∃ deleted, w'.store.row .documents (tenantId, documentId) = some deleted ∧
    deleted.status = .deleted
  /-- Every version that was there is deleted, its chunks and its source object are gone. -/
  versions : ∀ version ∈ storedVersions w.store tenantId documentId,
    (∃ deleted, w'.store.row .documentVersions (key version) = some deleted ∧
      deleted.status = .deleted) ∧
    version.objectKey ∉ w'.objects ∧
    ∀ chunk ∈ w'.index.chunks, ¬ chunk.InScope (document.scope tenantId version.id)
  /-- There are no other versions. -/
  all : ∀ deleted ∈ storedVersions w'.store tenantId documentId,
    ∃ version ∈ storedVersions w.store tenantId documentId, Deletes version deleted
  recorded : operation ∈ storedOperations w'.store tenantId documentId ∧ operation.kind = .purge
  /-- Further attempts change nothing and return what is recorded. -/
  again : ∀ w₁, w'.SameStores w₁ → ∀ attempt : PurgeAttempt, attempt.context.tenantId = tenantId →
    w'.SameStores (attempt.run documentId w₁).2 ∧
    (∀ found, (attempt.run documentId w₁).1 = .ok found → found = operation) ∧
    (attempt.Faultless →
      requireDelete attempt.context document attempt.enforcePermission = .ok () →
      (attempt.run documentId w₁).1 = .ok operation)

/-- **A purge is complete, and further attempts find it complete.** -/
theorem CompletedBy.complete (hawaits : AwaitsPurge w tenantId documentId document)
    (htenant : ∀ attempt ∈ attempts, attempt.context.tenantId = tenantId)
    (h : CompletedBy attempts w document documentId operation w') :
    PurgeComplete tenantId documentId document operation attempts w w' := by
  have hsingle := h.single hawaits htenant
  obtain ⟨attempt, hattempt, now, operationId, hoperation, hreadable, hrecorded⟩ := h
  obtain rfl := htenant attempt hattempt
  have hpurged := hrecorded.records.recordedOnce hawaits.row hawaits.unrecorded
  rw [← hoperation] at hpurged
  refine ⟨hsingle, ⟨_, hpurged.row, rfl⟩, fun version hversion => ⟨?_, ?_, ?_⟩, ?_,
    ⟨hpurged.recorded, hpurged.kind⟩, ?_⟩
  · obtain ⟨deleted, hrow, hdeletes⟩ := hrecorded.records.versionRow hversion
    exact ⟨deleted, hrow, hdeletes.status⟩
  · rw [hrecorded.objects, List.mem_filter]
    rintro ⟨-, hnot⟩
    exact of_decide_eq_true hnot (List.mem_map_of_mem hversion)
  · intro chunk hchunk
    rw [hrecorded.index] at hchunk
    exact (SearchIndex.mem_without.1 hchunk).2 _ (List.mem_map_of_mem hversion)
  · exact fun deleted hdeleted => hrecorded.records.deletes hdeleted
  · intro w₁ hsame other hother
    have hpurged₁ := hpurged
    rw [← hsame.store, ← hother] at hpurged₁
    have htrans : ∀ {w₂ : World}, w₁.SameStores w₂ → w'.SameStores w₂ := fun h =>
      ⟨h.store.trans hsame.store, h.index.trans hsame.index, h.objects.trans hsame.objects⟩
    have hends := ends_run (fun _ => True) other (settles_purge_of_purged hpurged₁)
      (fun _ => trivial) ⟨rfl, rfl, rfl⟩
    refine ⟨?_, fun found hfound => (hends.1 found hfound).2, fun hfaultless hpermitted => ?_⟩
    · cases hresult : (other.run documentId w₁).1 with
      | ok found => exact htrans (hends.1 found hresult).1
      | error e => exact htrans (hends.2 e hresult).1
    · have hends' := ends_run Input.Faultless other (settles_purge_of_purged hpurged₁)
        hfaultless ⟨rfl, rfl, rfl⟩
      cases hresult : (other.run documentId w₁).1 with
      | ok found => exact congrArg Except.ok (hends'.1 found hresult).2
      | error e =>
        refine absurd ⟨?_, fun _ hx => hx⟩ (hends'.2 e hresult).2
        rw [hsame.store]
        exact hrecorded.records.readable hawaits.row hreadable hawaits.operationsDecode
          hawaits.createdAt_le hother hpermitted

/-- **A purge that fails and is repeated.**  After any attempts, whatever failed in them, an
attempt that succeeds leaves what one attempt would have left; and no attempt before the deadline
deletes anything. -/
theorem purge_repeated {last : PurgeAttempt} (hawaits : AwaitsPurge w tenantId documentId document)
    (htenant : ∀ attempt ∈ attempts ++ [last], attempt.context.tenantId = tenantId)
    (hlast : (last.run documentId (PurgeAttempt.runAll documentId attempts w)).1 =
      .ok operation) :
    PurgeComplete tenantId documentId document operation (attempts ++ [last]) w
        (last.run documentId (PurgeAttempt.runAll documentId attempts w)).2 ∧
      ∀ (attempt : PurgeAttempt) (w₁ : World), attempt.context.tenantId = tenantId →
        w₁.store.row .documents (tenantId, documentId) = some document →
        (∀ n, ¬ document.purgeAfter.any (· ≤ (attempt.inputs n).now) = true) →
        w₁.SameStores (attempt.run documentId w₁).2 := by
  constructor
  · have hends := completedBy_run hawaits
      (fun attempt h => htenant attempt (List.mem_append_left _ h))
      (htenant last (List.mem_append_right _ (List.mem_singleton_self _)))
      (completedBy_runAll hawaits fun attempt h => htenant attempt (List.mem_append_left _ h))
    exact (hends.1 operation hlast).complete hawaits htenant
  · intro attempt w₁ hattempt hrow hearly
    rw [← hattempt] at hrow
    exact sameStores_run_of_early hrow hearly

end Attempts

/-! ## A purge that fails once -/

/-- The document of the small tenant, deleted at 0 and to be purged from 1 on. -/
def deletedDocument : Document :=
  { Sample.document with
    status := .deletePending
    currentVersionId := none
    revision := 2
    deletedAt := some 0
    purgeAfter := some 1 }

theorem nodup_version : ([Sample.version].map key).Nodup := by simp

def deletedWorld : World :=
  { Sample.world with
    store := (Store.empty.put .documents ⟨[deletedDocument], by simp⟩).put .documentVersions
      ⟨[Sample.version], nodup_version⟩ }

def fineAttempt : PurgeAttempt where
  context := Sample.context
  reason := "r"
  enforcePermission := true
  inputs := fun _ => { now := 1, newId := "p" }

/-- The object store does not answer when the source object is to be deleted. -/
def failingAttempt : PurgeAttempt :=
  { fineAttempt with
    inputs := fun n =>
      if n = 5 then { fault := some (.conflict "unavailable" "unavailable") } else
        { now := 1, newId := "p" } }

theorem purge_repeated_once :
    PurgeComplete "t" "d" deletedDocument
        (purgeOperation Sample.context deletedDocument [Sample.version] "p" "r" 1)
        ([failingAttempt] ++ [fineAttempt]) deletedWorld
        (fineAttempt.run "d" (PurgeAttempt.runAll "d" [failingAttempt] deletedWorld)).2 ∧
      ∀ (attempt : PurgeAttempt) (w₁ : World), attempt.context.tenantId = "t" →
        w₁.store.row .documents ("t", "d") = some deletedDocument →
        (∀ n, ¬ deletedDocument.purgeAfter.any (· ≤ (attempt.inputs n).now) = true) →
        w₁.SameStores (attempt.run "d" w₁).2 := by
  have hawaits : AwaitsPurge deletedWorld "t" "d" deletedDocument :=
    { row := by decide +kernel
      unrecorded := by decide +kernel
      operationsDecode := ⟨[], by decide +kernel⟩
      createdAt_le := by decide +kernel }
  have htenant : ∀ attempt ∈ [failingAttempt] ++ [fineAttempt],
      attempt.context.tenantId = "t" := by decide
  have hlast : (fineAttempt.run "d" (PurgeAttempt.runAll "d" [failingAttempt] deletedWorld)).1 =
      .ok (purgeOperation Sample.context deletedDocument [Sample.version] "p" "r" 1) := by
    decide +kernel
  exact purge_repeated hawaits htenant hlast

end DocumentDeletionService

end Knowledge
end RagflowAgent
