import RagflowAgent.Knowledge.Tenancy.Rows

/-!
# The chunks of a tenant

Every chunk carries the name of its tenant, and every request of the index selects chunks of one
tenant.  `SearchIndex.ofTenant` leaves of the index what belongs to one tenant, and `acts_apply`
says that a change acts on the chunks of its tenant as if there were no others, and on no others.

A chunk is written under an id that begins with the name of its tenant, so here the names have to
be plain (`SearchIndex.Plain`).
-/

namespace RagflowAgent
namespace Knowledge

/-- Chunks under one id in the index are of one tenant. -/
theorem IndexedChunk.tenantId_eq_of_documentKey {chunk chunk' : IndexedChunk}
    (h : chunk.documentKey = chunk'.documentKey) (hplain : PlainName chunk.tenantId)
    (hplain' : PlainName chunk'.tenantId) : chunk.tenantId = chunk'.tenantId := by
  have hjoined := congrArg String.toList h
  simp only [IndexedChunk.documentKey, String.toList_append, List.append_assoc] at hjoined
  exact String.toList_inj.1 (eq_of_append_cons_eq hjoined hplain.2 hplain'.2)

namespace SearchIndex

variable {tenantId : String} {index : SearchIndex}

/-- The chunks of a tenant. -/
def ofTenant (tenantId : String) (index : SearchIndex) : SearchIndex :=
  { index with chunks := index.chunks.filter fun chunk => chunk.tenantId = tenantId }

@[simp] theorem dimensions_ofTenant : (index.ofTenant tenantId).dimensions = index.dimensions :=
  rfl

theorem ofTenant_ofTenant :
    (index.ofTenant tenantId).ofTenant tenantId = index.ofTenant tenantId := by
  simp only [ofTenant, List.filter_filter, Bool.and_self]

/-- A filter that selects chunks of the tenant only. -/
theorem filter_ofTenant {p : IndexedChunk → Bool}
    (hp : ∀ chunk ∈ index.chunks, p chunk = true → chunk.tenantId = tenantId) :
    (index.ofTenant tenantId).chunks.filter p = index.chunks.filter p := by
  simp only [ofTenant, List.filter_filter]
  refine List.filter_congr fun chunk hchunk => ?_
  cases hselected : p chunk with
  | false => rfl
  | true => simp [hp chunk hchunk hselected]

theorem any_ofTenant {p : IndexedChunk → Bool}
    (hp : ∀ chunk ∈ index.chunks, p chunk = true → chunk.tenantId = tenantId) :
    (index.ofTenant tenantId).chunks.any p = index.chunks.any p := by
  have hany : ∀ chunks : List IndexedChunk, chunks.any p = !(chunks.filter p).isEmpty := by
    intro chunks
    cases hchunks : chunks.any p with
    | false =>
      rw [List.filter_eq_nil_iff.2 (List.any_eq_false.1 hchunks)]
      rfl
    | true =>
      obtain ⟨chunk, hmem, hchunk⟩ := List.any_eq_true.1 hchunks
      have hne := List.ne_nil_of_mem (List.mem_filter.2 ⟨hmem, hchunk⟩)
      simpa using hne
  rw [hany, hany, filter_ofTenant hp]

/-- An update of chunks of one tenant only. -/
structure Within (tenantId : String) (index : SearchIndex) (p : IndexedChunk → Prop)
    (script : IndexedChunk → IndexedChunk) : Prop where
  selects : ∀ chunk ∈ index.chunks, p chunk → chunk.tenantId = tenantId
  keeps : ∀ chunk ∈ index.chunks, p chunk → (script chunk).tenantId = chunk.tenantId

section Update

variable {p : IndexedChunk → Prop} [DecidablePred p] {script : IndexedChunk → IndexedChunk}

/-- Chunks keep their tenants. -/
theorem tenantId_updateByQuery (h : Within tenantId index p script) :
    ∀ chunk ∈ index.chunks,
      (if p chunk then script chunk else chunk).tenantId = chunk.tenantId := by
  intro chunk hchunk
  split
  · exact h.keeps chunk hchunk ‹_›
  · rfl

theorem ofTenant_updateByQuery {tenantId' : String} (h : Within tenantId' index p script) :
    (index.updateByQuery p script).ofTenant tenantId =
      (index.ofTenant tenantId).updateByQuery p script := by
  simp only [ofTenant, updateByQuery, List.filter_map, mk.injEq, true_and]
  refine congrArg (List.map _) (List.filter_congr fun chunk hchunk => ?_)
  simp only [Function.comp_apply, tenantId_updateByQuery h chunk hchunk]

theorem ofTenant_updateByQuery_of_ne {tenantId' : String} (h : Within tenantId' index p script)
    (hne : tenantId ≠ tenantId') :
    (index.updateByQuery p script).ofTenant tenantId = index.ofTenant tenantId := by
  rw [ofTenant_updateByQuery h]
  simp only [ofTenant, updateByQuery, mk.injEq, true_and]
  refine (List.map_congr_left fun chunk hchunk => ?_).trans (List.map_id _)
  obtain ⟨hmem, htenant⟩ := List.mem_filter.1 hchunk
  have hnot : ¬ p chunk := fun hp =>
    hne ((of_decide_eq_true htenant).symm.trans (h.selects chunk hmem hp))
  exact if_neg hnot

end Update

/-- Every chunk is of a tenant with a plain name. -/
def Plain (index : SearchIndex) : Prop := ∀ chunk ∈ index.chunks, PlainName chunk.tenantId

theorem Plain.ofTenant (h : index.Plain) : (index.ofTenant tenantId).Plain :=
  fun chunk hchunk => h chunk (List.mem_filter.1 hchunk).1

theorem Plain.updateByQuery {p : IndexedChunk → Prop} [DecidablePred p]
    {script : IndexedChunk → IndexedChunk} (h : index.Plain)
    (hwithin : Within tenantId index p script) : (index.updateByQuery p script).Plain := by
  intro chunk hchunk
  obtain ⟨chunk', hmem, rfl⟩ := mem_updateByQuery.1 hchunk
  rw [tenantId_updateByQuery hwithin chunk' hmem]
  exact h chunk' hmem

section Write

variable {chunk : IndexedChunk}

/-- Writing over a chunk is writing over one of the same tenant. -/
theorem within_write (h : index.Plain) (hplain : PlainName chunk.tenantId) :
    Within chunk.tenantId index (fun chunk' => chunk'.documentKey = chunk.documentKey)
      fun _ => chunk where
  selects chunk' hmem hkey := IndexedChunk.tenantId_eq_of_documentKey hkey (h chunk' hmem) hplain
  keeps chunk' hmem hkey :=
    (IndexedChunk.tenantId_eq_of_documentKey hkey (h chunk' hmem) hplain).symm

theorem write_ofTenant (h : index.Plain) (hplain : PlainName chunk.tenantId) :
    (index.write chunk).ofTenant chunk.tenantId = (index.ofTenant chunk.tenantId).write chunk := by
  have hwithin := within_write h hplain
  unfold write
  rw [any_ofTenant fun chunk' hmem hkey => hwithin.selects chunk' hmem (of_decide_eq_true hkey)]
  split
  · exact ofTenant_updateByQuery hwithin
  · simp [ofTenant, List.filter_append]

theorem ofTenant_write_of_ne (h : index.Plain) (hplain : PlainName chunk.tenantId)
    (hne : tenantId ≠ chunk.tenantId) :
    (index.write chunk).ofTenant tenantId = index.ofTenant tenantId := by
  unfold write
  split
  · exact ofTenant_updateByQuery_of_ne (within_write h hplain) hne
  · simp [ofTenant, List.filter_append, hne.symm]

theorem Plain.write (h : index.Plain) (hplain : PlainName chunk.tenantId) :
    (index.write chunk).Plain := by
  unfold SearchIndex.write
  split
  · exact h.updateByQuery (within_write h hplain)
  · intro chunk' hmem
    rcases List.mem_append.1 hmem with hmem | hmem
    · exact h chunk' hmem
    · rw [List.mem_singleton.1 hmem]
      exact hplain

/-- The records of a tenant, written one after the other. -/
theorem write_records {records : List IndexRecord} (hplain : PlainName tenantId)
    (hrecords : ∀ record ∈ records, record.tenantId = tenantId) (h : index.Plain) :
    (records.foldl (fun index record => index.write (record.source false)) index).Plain ∧
      (records.foldl (fun index record => index.write (record.source false)) index).ofTenant
          tenantId =
        records.foldl (fun index record => index.write (record.source false))
          (index.ofTenant tenantId) ∧
      ∀ tenantId' ≠ tenantId,
        (records.foldl (fun index record => index.write (record.source false)) index).ofTenant
          tenantId' = index.ofTenant tenantId' := by
  induction records generalizing index with
  | nil => exact ⟨h, rfl, fun _ _ => rfl⟩
  | cons record records ih =>
    have htenant : (record.source false).tenantId = tenantId := hrecords record List.mem_cons_self
    have hone : PlainName (record.source false).tenantId := htenant ▸ hplain
    obtain ⟨hkept, hown, hothers⟩ := ih (fun r hr => hrecords r (List.mem_cons_of_mem _ hr))
      (h.write hone)
    have hwrite := write_ofTenant h hone
    rw [htenant] at hwrite
    refine ⟨hkept, ?_, fun tenantId' hne => ?_⟩
    · rw [List.foldl_cons, hown, hwrite, List.foldl_cons]
    · rw [List.foldl_cons, hothers tenantId' hne,
        ofTenant_write_of_ne h hone (htenant.symm ▸ hne)]

end Write

end SearchIndex

namespace IndexChange

/-- A change that names the tenant. -/
def OfTenant (tenantId : String) : IndexChange → Prop
  | upsert tenantId' _ _ => tenantId' = tenantId
  | deactivate tenantId' _ => tenantId' = tenantId
  | activate version => version.tenantId = tenantId
  | promoteDocumentVersion scope _ => scope.tenantId = tenantId
  | retireDocumentVersion scope => scope.tenantId = tenantId
  | deleteDocumentVersion scope => scope.tenantId = tenantId

variable {tenantId tenantId' : String} {index index' : SearchIndex} {change : IndexChange}

theorem records_of_checkRecords {dimensions : ℕ} {version : IndexVersion}
    {records : List IndexRecord} (h : checkRecords dimensions version records = .ok ()) :
    ∀ record ∈ records, record.tenantId = version.tenantId := by
  intro record hrecord
  unfold checkRecords at h
  split at h
  · cases h
  split at h
  · cases h
  · rename_i hany
    by_contra hne
    refine hany (List.any_eq_true.2 ⟨record, hrecord, decide_eq_true (.inl fun heq => ?_)⟩)
    exact hne (Prod.mk.inj heq).1

theorem within_inScope (scope : VersionScope) {script : IndexedChunk → IndexedChunk}
    (hscript : ∀ chunk, (script chunk).tenantId = chunk.tenantId) :
    SearchIndex.Within scope.tenantId index (·.InScope scope) script where
  selects _ _ h := h.1
  keeps chunk _ _ := hscript chunk

theorem tenantId_promote (chunk : IndexedChunk) (token : ℕ) :
    (chunk.promote token).tenantId = chunk.tenantId := by
  unfold IndexedChunk.promote
  split <;> rfl

/-- What a change does to the index: to the chunks of its tenant, as if there were no others, and
to no others. -/
structure Acts (tenantId : String) (index : SearchIndex)
    (change : SearchIndex → Except Error SearchIndex) : Prop where
  own : change (index.ofTenant tenantId) = (change index).map (SearchIndex.ofTenant tenantId)
  others : ∀ tenantId' ≠ tenantId, ∀ index', change index = .ok index' →
    index'.ofTenant tenantId' = index.ofTenant tenantId'
  plain : ∀ index', change index = .ok index' → index'.Plain

/-- A change that is refused. -/
theorem Acts.error (e : Error) : Acts tenantId index fun _ => .error e where
  own := rfl
  others _ _ _ heq := by cases heq
  plain _ heq := by cases heq

/-- An update of chunks of the tenant. -/
theorem Acts.update {p : IndexedChunk → Prop} [DecidablePred p]
    {script : IndexedChunk → IndexedChunk} (hplain : index.Plain)
    (h : SearchIndex.Within tenantId index p script) :
    Acts tenantId index fun index => .ok (index.updateByQuery p script) where
  own := congrArg Except.ok (SearchIndex.ofTenant_updateByQuery h).symm
  others tenantId' hne index' heq := by
    cases heq
    exact SearchIndex.ofTenant_updateByQuery_of_ne h hne
  plain index' heq := by
    cases heq
    exact hplain.updateByQuery h

/-- An update that is refused when there is nothing to update. -/
theorem Acts.updateIf {p q : IndexedChunk → Prop} [DecidablePred p] [DecidablePred q]
    {script : IndexedChunk → IndexedChunk} {e : Error} (hplain : index.Plain)
    (h : SearchIndex.Within tenantId index p script)
    (hq : ∀ chunk ∈ index.chunks, q chunk → chunk.tenantId = tenantId) :
    Acts tenantId index fun index =>
      if index.chunks.any fun chunk => q chunk then .ok (index.updateByQuery p script)
      else .error e := by
  have hany : ((index.ofTenant tenantId).chunks.any fun chunk => decide (q chunk)) =
      index.chunks.any fun chunk => decide (q chunk) :=
    SearchIndex.any_ofTenant fun chunk hmem hchunk => hq chunk hmem (of_decide_eq_true hchunk)
  have hupdate := Acts.update hplain h
  cases hfound : index.chunks.any fun chunk => decide (q chunk) with
  | true =>
    refine ⟨?_, fun tenantId' hne index' => ?_, fun index' => ?_⟩
    · simpa only [hany, hfound, if_true] using hupdate.own
    · simpa only [hfound, if_true] using hupdate.others tenantId' hne index'
    · simpa only [hfound, if_true] using hupdate.plain index'
  | false =>
    refine ⟨?_, fun tenantId' hne index' heq => ?_, fun index' heq => ?_⟩
    · simp only [hany, hfound, Bool.false_eq_true, if_false]
      rfl
    · simp [hfound] at heq
    · simp [hfound] at heq

/-- **A change acts on the chunks of its tenant.** -/
theorem acts_apply (hchange : change.OfTenant tenantId) (hname : PlainName tenantId)
    (hplain : index.Plain) : Acts tenantId index fun index => change.apply index := by
  cases change with
  | upsert tenantId₀ version records =>
    obtain rfl : tenantId₀ = tenantId := hchange
    by_cases htenant : tenantId₀ = version.tenantId
    · have happly : ∀ index : SearchIndex, (upsert tenantId₀ version records).apply index =
          (checkRecords index.dimensions version records).map fun _ => records.foldl
            (fun index record => index.write (record.source false)) index := by
        intro index
        refine (if_neg (not_not.2 htenant)).trans ?_
        cases checkRecords index.dimensions version records <;> rfl
      cases hcheck : checkRecords index.dimensions version records with
      | error e =>
        refine ⟨?_, fun tenantId' hne index' heq => ?_, fun index' heq => ?_⟩
        · rw [happly, happly, SearchIndex.dimensions_ofTenant, hcheck]
          rfl
        · rw [happly, hcheck] at heq
          cases heq
        · rw [happly, hcheck] at heq
          cases heq
      | ok u =>
        have hrecords : ∀ record ∈ records, record.tenantId = tenantId₀ := fun record hmem =>
          (records_of_checkRecords hcheck record hmem).trans htenant.symm
        obtain ⟨hkept, hown, hothers⟩ := SearchIndex.write_records hname hrecords hplain
        refine ⟨?_, fun tenantId' hne index' heq => ?_, fun index' heq => ?_⟩
        · rw [happly, happly, SearchIndex.dimensions_ofTenant, hcheck]
          exact congrArg Except.ok hown.symm
        · rw [happly, hcheck] at heq
          cases heq
          exact hothers tenantId' hne
        · rw [happly, hcheck] at heq
          cases heq
          exact hkept
    · have happly : (fun index => (upsert tenantId₀ version records).apply index) =
          fun _ => .error (.authorization "tenant_mismatch") := funext fun index => if_pos htenant
      rw [happly]
      exact .error _
  | deactivate tenantId₀ version =>
    obtain rfl : tenantId₀ = tenantId := hchange
    by_cases htenant : tenantId₀ = version.tenantId
    · have happly : (fun index => (deactivate tenantId₀ version).apply index) =
          fun index => .ok (index.updateByQuery (·.InIndexVersion version)
            ({ · with active := false })) := funext fun index => if_neg (not_not.2 htenant)
      rw [happly]
      exact .update hplain ⟨fun _ _ h => h.1.trans htenant.symm, fun _ _ _ => rfl⟩
    · have happly : (fun index => (deactivate tenantId₀ version).apply index) =
          fun _ => .error (.authorization "tenant_mismatch") := funext fun index => if_pos htenant
      rw [happly]
      exact .error _
  | activate version =>
    obtain rfl : version.tenantId = tenantId := hchange
    exact .updateIf hplain ⟨fun _ _ h => h.1.1, fun _ _ _ => rfl⟩ fun _ _ h => h.1.1
  | promoteDocumentVersion scope fencingToken =>
    obtain rfl : scope.tenantId = tenantId := hchange
    exact .updateIf hplain (within_inScope scope fun chunk => tenantId_promote chunk _)
      fun _ _ h => h.1
  | retireDocumentVersion scope =>
    obtain rfl : scope.tenantId = tenantId := hchange
    exact .update hplain (within_inScope scope fun _ => rfl)
  | deleteDocumentVersion scope =>
    obtain rfl : scope.tenantId = tenantId := hchange
    refine ⟨?_, fun tenantId' hne index' heq => ?_, fun index' heq => ?_⟩
    · simp only [apply, SearchIndex.deleteByQuery, SearchIndex.ofTenant, List.filter_filter,
        Except.map, Bool.and_comm]
    · cases heq
      simp only [SearchIndex.deleteByQuery, SearchIndex.ofTenant, List.filter_filter,
        SearchIndex.mk.injEq, true_and]
      refine List.filter_congr fun chunk _ => ?_
      by_cases hscope : chunk.InScope scope
      · have hother : chunk.tenantId ≠ tenantId' := fun h => hne (h.symm.trans hscope.1)
        simp [hother]
      · simp [hscope]
    · cases heq
      exact fun chunk hmem => hplain chunk (SearchIndex.mem_deleteByQuery.1 hmem).1

end IndexChange

end Knowledge
end RagflowAgent
