import RagflowAgent.Knowledge.Guarantees.RepeatedPurge
import RagflowAgent.Knowledge.Retrieval.Authority
import RagflowAgent.Knowledge.Retrieval.Channels

/-!
# What has been ingested can be found

A delivery of the job of a first version writes the chunks of the document into the index, makes
them visible there, and commits the version as the current one of its document.  A fault can
interrupt it at every call; but when it returns, its chunks can be found.

* `exists_mem_writeRecords` and `mem_activated` say what a bulk write and an activation leave in
  the index, and `showsAll_activated` puts them together;
* `Leads` is a triple of a program that may always raise.  The stages up to the embedding only hand
  their values on; `leads_indexStage` and `leads_finish` carry the argument;
* `handle_searchable`: the chunks of a delivery that returned satisfy the clauses of exactly those
  searches that ask for their knowledge base on behalf of somebody who may read the document, and
  the database takes what is found for current.
-/

namespace RagflowAgent
namespace Knowledge

open Interleaving Keyed

/-! ## Writing chunks and activating them -/

namespace SearchIndex

variable {index : SearchIndex} {chunk chunk' : IndexedChunk} {records : List IndexRecord}

theorem mem_write_self : chunk ∈ (index.write chunk).chunks := by
  unfold write
  split
  · rename_i hany
    obtain ⟨chunk', hmem, hkey⟩ := List.any_eq_true.1 hany
    exact mem_updateByQuery.2 ⟨chunk', hmem, if_pos (of_decide_eq_true hkey)⟩
  · exact List.mem_append_right _ List.mem_cons_self

/-- A chunk stays as it is while one with another key is written. -/
theorem mem_write_of_ne (h : chunk ∈ index.chunks) (hne : chunk.documentKey ≠ chunk'.documentKey) :
    chunk ∈ (index.write chunk').chunks := by
  unfold write
  split
  · exact mem_updateByQuery.2 ⟨chunk, h, if_neg hne⟩
  · exact List.mem_append_left _ h

/-- `upsert` once its records are accepted. -/
def writeRecords (index : SearchIndex) (records : List IndexRecord) : SearchIndex :=
  records.foldl (fun index record => index.write (record.source false)) index

theorem mem_writeRecords_of_ne (h : chunk ∈ index.chunks)
    (hne : ∀ record ∈ records, chunk.documentKey ≠ (record.source false).documentKey) :
    chunk ∈ (index.writeRecords records).chunks := by
  induction records generalizing index with
  | nil => exact h
  | cons record records ih =>
    exact ih (mem_write_of_ne h (hne record List.mem_cons_self))
      fun later hlater => hne later (List.mem_cons_of_mem _ hlater)

/-- **What a bulk write leaves**: of the records with one key, the last one. -/
theorem exists_mem_writeRecords {record : IndexRecord} (h : record ∈ records) :
    ∃ written ∈ records,
      (written.source false).documentKey = (record.source false).documentKey ∧
        written.source false ∈ (index.writeRecords records).chunks := by
  induction records generalizing index record with
  | nil => cases h
  | cons first records ih =>
    by_cases hlater : ∃ later ∈ records,
        (later.source false).documentKey = (record.source false).documentKey
    · obtain ⟨later, hmem, hkey⟩ := hlater
      obtain ⟨written, hwritten, hkey', hindex⟩ := @ih (index.write (first.source false)) later hmem
      exact ⟨written, List.mem_cons_of_mem _ hwritten, hkey'.trans hkey, hindex⟩
    · obtain heq | hmem := List.mem_cons.1 h
      · refine ⟨first, List.mem_cons_self, by rw [heq], ?_⟩
        have hwritten : first.source false ∈ (index.write (first.source false)).chunks :=
          mem_write_self
        change _ ∈ ((index.write (first.source false)).writeRecords records).chunks
        refine mem_writeRecords_of_ne hwritten fun later hmem hkey => ?_
        exact hlater ⟨later, hmem, by rw [heq, hkey]⟩
      · exact absurd ⟨record, hmem, rfl⟩ hlater

/-- The two requests of `activate`. -/
def activated (index : SearchIndex) (version : IndexVersion) : SearchIndex :=
  (index.updateByQuery (·.InIndexVersion version) ({ · with active := false })).updateByQuery
    (fun chunk => chunk.InIndexVersion version ∧ chunk.indexVersionId = version.id)
    ({ · with active := true })

variable {version : IndexVersion}

theorem mem_activated {record : IndexRecord} (h : record.source false ∈ index.chunks)
    (hin : (record.source false).InIndexVersion version)
    (hid : record.indexVersionId = version.id) :
    record.source true ∈ (index.activated version).chunks := by
  refine mem_updateByQuery.2 ⟨record.source false, ?_, if_pos ⟨hin, hid⟩⟩
  exact mem_updateByQuery.2 ⟨record.source false, h, if_pos hin⟩

/-- After an activation no chunk of another index version of the document is active. -/
theorem indexVersionId_of_mem_activated (h : chunk ∈ (index.activated version).chunks)
    (hin : chunk.InIndexVersion version) (hactive : chunk.active = true) :
    chunk.indexVersionId = version.id := by
  obtain ⟨deactivated, hmem, rfl⟩ := mem_updateByQuery.1 h
  obtain ⟨before, -, rfl⟩ := mem_updateByQuery.1 hmem
  by_cases hbefore : before.InIndexVersion version
  · rw [if_pos hbefore] at hin hactive ⊢
    by_cases hid : before.indexVersionId = version.id
    · rw [if_pos ⟨hbefore, hid⟩]
      exact hid
    · rw [if_neg fun hand => hid hand.2] at hactive
      cases hactive
  · rw [if_neg hbefore, if_neg fun hand => hbefore hand.1] at hin
    exact absurd hin hbefore

end SearchIndex

namespace IndexChange

variable {index index' : SearchIndex} {tenantId : String} {version : IndexVersion}
  {records : List IndexRecord}

theorem apply_upsert_eq_ok (h : (upsert tenantId version records).apply index = .ok index') :
    index' = index.writeRecords records ∧ ∀ record ∈ records,
      record.tenantId = version.tenantId ∧ record.knowledgeBaseId = version.knowledgeBaseId ∧
        record.indexVersionId = version.id := by
  rw [apply] at h
  split at h
  · cases h
  split at h
  · cases h
  rename_i hcheck
  cases h
  refine ⟨rfl, fun record hrecord => ?_⟩
  unfold checkRecords at hcheck
  split at hcheck
  · cases hcheck
  split at hcheck
  · cases hcheck
  rename_i hany
  by_contra hnot
  refine hany (List.any_eq_true.2 ⟨record, hrecord, decide_eq_true (.inl fun heq => hnot ?_)⟩)
  rw [Prod.mk.injEq, Prod.mk.injEq] at heq
  exact heq

/-- The two requests of `activate`, one after the other. -/
theorem apply_activate_eq_ok {index'' : SearchIndex}
    (h : (deactivate tenantId version).apply index = .ok index')
    (h' : (activate version).apply index' = .ok index'') : index'' = index.activated version := by
  rw [apply] at h
  rw [apply] at h'
  split at h
  · cases h
  cases h
  split at h'
  · cases h'
    rfl
  · cases h'

end IndexChange

/-! ## What a delivery leaves behind -/

/-- The same job of the same document version, at another moment. -/
def IngestionJob.SameScope (job job' : IngestionJob) : Prop :=
  job.id = job'.id ∧ job.tenantId = job'.tenantId ∧
    job.knowledgeBaseId = job'.knowledgeBaseId ∧ job.documentId = job'.documentId ∧
    job.documentVersionId = job'.documentVersionId ∧ job.operationId = job'.operationId

theorem IngestionJob.SameScope.refl (job : IngestionJob) : job.SameScope job :=
  ⟨rfl, rfl, rfl, rfl, rfl, rfl⟩

theorem IngestionJob.SameScope.trans {job job' job'' : IngestionJob} (h : job.SameScope job')
    (h' : job'.SameScope job'') : job.SameScope job'' :=
  ⟨h.1.trans h'.1, h.2.1.trans h'.2.1, h.2.2.1.trans h'.2.2.1, h.2.2.2.1.trans h'.2.2.2.1,
    h.2.2.2.2.1.trans h'.2.2.2.2.1, h.2.2.2.2.2.trans h'.2.2.2.2.2⟩

/-- The index version of the job of a document version. -/
def IngestionJob.indexVersionId (job : IngestionJob) : String := "idx_" ++ job.documentVersionId

/-- The indexed chunk is this one, with the access that its document gives, and can be found. -/
structure IndexedChunk.Shows (indexed : IndexedChunk) (job : IngestionJob) (document : Document)
    (chunk : ChunkRecord) : Prop where
  chunkId : indexed.chunkId = chunk.id
  content : indexed.content = chunk.content
  indexVersionId : indexed.indexVersionId = job.indexVersionId
  tenantId : indexed.tenantId = job.tenantId
  knowledgeBaseId : indexed.knowledgeBaseId = job.knowledgeBaseId
  documentId : indexed.documentId = job.documentId
  documentVersionId : indexed.documentVersionId = job.documentVersionId
  ownerId : indexed.ownerId = document.ownerId
  visibility : indexed.visibility = document.visibility
  allowedActorIds : indexed.allowedActorIds = []
  allowedRoles : indexed.allowedRoles = []
  active : indexed.active = true
  enabled : indexed.documentEnabled = true
  not_deleted : indexed.documentDeleted = false

/-- The chunks of the job are in the index, and nothing older of its document is active. -/
structure SearchIndex.ShowsAll (index : SearchIndex) (job : IngestionJob) (document : Document)
    (chunks : List ChunkRecord) : Prop where
  /-- Of the chunks with one id, one is shown. -/
  shown : ∀ chunk ∈ chunks, ∃ chunk' ∈ chunks, chunk'.id = chunk.id ∧
    ∃ indexed ∈ index.chunks, indexed.Shows job document chunk'
  indexVersionId : ∀ indexed ∈ index.chunks, indexed.tenantId = job.tenantId →
    indexed.knowledgeBaseId = job.knowledgeBaseId → indexed.documentId = job.documentId →
    indexed.active = true → indexed.indexVersionId = job.indexVersionId

theorem IndexedChunk.Shows.of_sameScope {indexed : IndexedChunk} {job job' : IngestionJob}
    {document : Document} {chunk : ChunkRecord} (h : indexed.Shows job document chunk)
    (hsame : job'.SameScope job) : indexed.Shows job' document chunk := by
  obtain ⟨-, htenant, hkb, hdocument, hversion, -⟩ := hsame
  exact { h with
    indexVersionId := by rw [h.indexVersionId, IngestionJob.indexVersionId,
      IngestionJob.indexVersionId, hversion]
    tenantId := h.tenantId.trans htenant.symm
    knowledgeBaseId := h.knowledgeBaseId.trans hkb.symm
    documentId := h.documentId.trans hdocument.symm
    documentVersionId := h.documentVersionId.trans hversion.symm }

theorem SearchIndex.ShowsAll.of_sameScope {index : SearchIndex} {job job' : IngestionJob}
    {document : Document} {chunks : List ChunkRecord} (h : index.ShowsAll job document chunks)
    (hsame : job'.SameScope job) : index.ShowsAll job' document chunks where
  shown := by
    intro chunk hchunk
    obtain ⟨chunk', hchunk', hid, indexed, hindexed, hshows⟩ := h.shown chunk hchunk
    exact ⟨chunk', hchunk', hid, indexed, hindexed, hshows.of_sameScope hsame⟩
  indexVersionId := by
    intro indexed hindexed htenant hkb hdocument hactive
    rw [IngestionJob.indexVersionId, hsame.2.2.2.2.1]
    exact h.indexVersionId indexed hindexed (htenant.trans hsame.2.1) (hkb.trans hsame.2.2.1)
      (hdocument.trans hsame.2.2.2.1) hactive

namespace IngestionPipeline

variable {α β : Type} {chunks : List ChunkRecord} {P : World → Prop} {Q : α → World → Prop}
  {knows : List Fact} {job : IngestionJob}

/-- **The index after the index stage**: written, and then activated. -/
theorem showsAll_activated {document : Document} {version : DocumentVersion}
    {embedded : EmbeddingResult} {indexVersion : IndexVersion} {records : List IndexRecord}
    {index : SearchIndex} (hrecords : ∀ chunk ∈ chunks, ∃ now,
      indexRecord job.indexVersionId document version embedded chunk now ∈ records)
    (honly : ∀ record ∈ records, ∃ chunk ∈ chunks, ∃ now,
      record = indexRecord job.indexVersionId document version embedded chunk now)
    (hstamped : ∀ chunk ∈ chunks,
      chunk.documentId = job.documentId ∧ chunk.documentVersionId = job.documentVersionId)
    (hid : indexVersion.id = job.indexVersionId) (htenant : indexVersion.tenantId = job.tenantId)
    (hkb : indexVersion.knowledgeBaseId = job.knowledgeBaseId)
    (hdocument : indexVersion.documentId = some job.documentId)
    (hfits : ∀ record ∈ records, record.tenantId = indexVersion.tenantId ∧
      record.knowledgeBaseId = indexVersion.knowledgeBaseId ∧
        record.indexVersionId = indexVersion.id) :
    ((index.writeRecords records).activated indexVersion).ShowsAll job document chunks where
  shown := by
    intro chunk hchunk
    obtain ⟨now, hrecord⟩ := hrecords chunk hchunk
    obtain ⟨written, hwritten, hkey, hindex⟩ :=
      @SearchIndex.exists_mem_writeRecords index records _ hrecord
    obtain ⟨chunk', hchunk', now', rfl⟩ := honly written hwritten
    obtain ⟨htenant', hkb', hid'⟩ := hfits _ hwritten
    obtain ⟨htenant₀, -, -⟩ := hfits _ hrecord
    have hin : ((indexRecord job.indexVersionId document version embedded chunk' now').source
        false).InIndexVersion indexVersion := by
      refine ⟨htenant', hkb', fun documentId hmem => ?_⟩
      rw [hdocument] at hmem
      cases hmem
      exact (hstamped chunk' hchunk').1
    have hsame : chunk'.id = chunk.id := by
      have htenants : chunk'.tenantId = chunk.tenantId := htenant'.trans htenant₀.symm
      change chunk'.tenantId ++ ":" ++ job.indexVersionId ++ ":" ++ chunk'.id =
        chunk.tenantId ++ ":" ++ job.indexVersionId ++ ":" ++ chunk.id at hkey
      rw [htenants] at hkey
      exact (String.append_right_inj _).1 hkey
    refine ⟨chunk', hchunk', hsame, _, SearchIndex.mem_activated hindex hin hid', ?_⟩
    exact {
      chunkId := rfl
      content := rfl
      indexVersionId := rfl
      tenantId := htenant'.trans htenant
      knowledgeBaseId := hkb'.trans hkb
      documentId := (hstamped chunk' hchunk').1
      documentVersionId := (hstamped chunk' hchunk').2
      ownerId := rfl
      visibility := rfl
      allowedActorIds := rfl
      allowedRoles := rfl
      active := rfl
      enabled := rfl
      not_deleted := rfl }
  indexVersionId := by
    intro indexed hindexed htenant' hkb' hdocument' hactive
    rw [← hid]
    refine SearchIndex.indexVersionId_of_mem_activated hindexed
      ⟨htenant'.trans htenant.symm, hkb'.trans hkb.symm, fun documentId hmem => ?_⟩ hactive
    rw [hdocument] at hmem
    cases hmem
    exact hdocument'

/-! ## The stages of a delivery -/

/-- Where the chunker answers with `chunks`, the program leads from `P` to `Q`, or raises. -/
abbrev Leads (chunks : List ChunkRecord) (P : World → Prop) (p : Service α)
    (Q : α → World → Prop) : Prop :=
  Settles (fun x => x.chunks = chunks) P p Q fun _ => True

theorem leads_true {p : Service α} : Leads chunks P p fun _ _ => True := by
  intro x w _ _
  exact ⟨Prog.along_of_forall fun _ _ _ _ => trivial, fun _ _ => trivial, fun _ _ => trivial⟩

theorem leads_ask {task : Task} {call : Call α}
    (h : ∀ x w a w', P w → x.chunks = chunks → call.effect x w = .ok (a, w') → Q a w') :
    Leads chunks P (ask task knows call) Q :=
  settles_ask h fun _ _ _ _ _ _ _ => trivial

/-- A sequence of which the first part tells something about its value. -/
theorem leads_bind {p : Service β} {f : β → Service α} {φ : β → Prop}
    (hp : Leads chunks P p fun b _ => φ b)
    (hf : ∀ b, φ b → Leads chunks (fun _ => True) (f b) Q) : Leads chunks P (p.bind f) Q :=
  triple_bind hp fun b x w hb hx => hf b hb x w trivial hx

/-- A sequence whose first part tells nothing. -/
theorem leads_skip {p : Service β} {f : β → Service α}
    (hf : ∀ b, Leads chunks (fun _ => True) (f b) Q) : Leads chunks P (p.bind f) Q :=
  triple_bind leads_true hf

/-- A sequence that starts with a computation. -/
theorem leads_bind_except {r : Except Error β} {f : β → Service α}
    (hf : ∀ b, r = .ok b → Leads chunks P (f b) Q) :
    Leads chunks P ((Prog.ofExcept r : Service β).bind f) Q :=
  triple_bind_ofExcept hf fun _ _ _ _ => trivial

theorem sameScope_of_transitionIngestion {job' : IngestionJob} {target : IngestionStatus} {q : ℚ}
    {now : ℕ} {error : Option IngestionError}
    (h : transitionIngestion job target q now error = .ok job') :
    job'.SameScope job ∧ job'.status = target := by
  obtain ⟨-, ⟨rfl, rfl⟩ | ⟨-, -, rfl⟩⟩ := transitionIngestion_eq_ok h
  · exact ⟨.refl _, rfl⟩
  · exact ⟨⟨rfl, rfl, rfl, rfl, rfl, rfl⟩, rfl⟩

theorem leads_prepare : Leads chunks P (prepare knows job) fun job' _ => job'.SameScope job := by
  unfold prepare
  split
  · exact leads_skip fun now => triple_ofExcept
      (fun job' hjob' _ _ => (sameScope_of_transitionIngestion hjob').1) fun _ _ _ _ => trivial
  · exact triple_ret fun _ _ => .refl job

theorem leads_startVersion {version : DocumentVersion} :
    Leads chunks P (startVersion knows version) fun started _ => started.SameScope version := by
  unfold startVersion
  split
  · exact leads_skip fun now => leads_bind_except fun started hstarted => leads_skip fun _ =>
      triple_ret fun _ _ => sameScope_of_transitionDocumentVersion hstarted
  · exact triple_ret fun _ _ => .refl version

theorem leads_progress {q : ℚ} :
    Leads chunks P (progress knows job q) fun job' _ => job'.SameScope job := by
  unfold progress
  refine leads_skip fun now => leads_skip fun _ => ?_
  have hret : ∀ P, Leads chunks P (.ret { job with progress := q, updatedAt := now })
      fun job' _ => job'.SameScope job :=
    fun P => triple_ret fun _ _ => ⟨rfl, rfl, rfl, rfl, rfl, rfl⟩
  split
  · exact hret _
  · refine leads_skip fun operation => ?_
    split
    · exact hret _
    · exact leads_skip fun now' => leads_bind_except fun _ _ => leads_skip fun _ => hret _

theorem leads_parseStage {pending : Bool} {tasks : List IngestionTask}
    {version : DocumentVersion} :
    Leads chunks P (parseStage knows pending tasks version job)
      fun r _ => r.1.SameScope job ∧ r.2.1.SameScope version := by
  refine leads_skip fun _ => leads_bind leads_startVersion fun started hstarted => ?_
  refine leads_skip fun _ => leads_bind_except fun task _ => leads_skip fun task' => ?_
  refine leads_skip fun parsed => leads_skip fun _ => leads_bind leads_progress fun job' hjob' => ?_
  exact triple_ret fun _ _ => ⟨hjob', hstarted⟩

theorem leads_chunkStage {settings : Settings} {tasks : List IngestionTask}
    {parsed : ParsedDocument} :
    Leads chunks P (chunkStage settings knows tasks parsed job)
      fun r _ => r.1.SameScope job ∧ r.2 = chunks := by
  refine leads_skip fun _ => leads_bind_except fun task _ => leads_skip fun task' => ?_
  have hcuts : ∀ request, Leads chunks (fun _ => True) (ask .reading knows (.chunk request))
      fun cut _ => cut = chunks := by
    intro request
    refine leads_ask fun x w cut w' _ hx heffect => ?_
    cases heffect
    exact hx
  refine leads_bind (hcuts _) fun cut hcut => ?_
  refine triple_bind_raiseWhen (fun _ => ?_) fun _ _ _ => trivial
  refine leads_skip fun _ => leads_bind leads_progress fun job' hjob' => ?_
  exact triple_ret fun _ _ => ⟨hjob', hcut⟩

theorem leads_embedStage {settings : Settings} {tasks : List IngestionTask}
    {cut : List ChunkRecord} :
    Leads chunks P (embedStage settings knows tasks cut job) fun r _ => r.1.SameScope job := by
  refine leads_skip fun _ => leads_bind_except fun task _ => leads_skip fun task' => ?_
  refine leads_skip fun embedded => triple_bind_raiseWhen (fun _ => ?_) fun _ _ _ => trivial
  refine leads_skip fun _ => leads_bind leads_progress fun job' hjob' => ?_
  exact triple_ret fun _ _ => hjob'

/-- The records of the chunks, one for each. -/
theorem leads_indexRecords {indexVersionId : String} {document : Document}
    {version : DocumentVersion} {embedded : EmbeddingResult} {cut : List ChunkRecord} :
    Leads chunks P (indexRecords knows indexVersionId document version embedded cut)
      fun records _ =>
        (∀ chunk ∈ cut, ∃ now,
          indexRecord indexVersionId document version embedded chunk now ∈ records) ∧
        ∀ record ∈ records, ∃ chunk ∈ cut, ∃ now,
          record = indexRecord indexVersionId document version embedded chunk now := by
  induction cut generalizing P with
  | nil =>
    exact triple_ret fun _ _ => ⟨fun _ h => absurd h List.not_mem_nil,
      fun _ h => absurd h List.not_mem_nil⟩
  | cons chunk cut ih =>
    refine leads_skip fun now => leads_bind ih fun records hrecords => triple_ret fun _ _ => ?_
    refine ⟨List.forall_mem_cons.2 ⟨⟨now, List.mem_cons_self⟩, fun chunk' hchunk' => ?_⟩,
      List.forall_mem_cons.2 ⟨⟨chunk, List.mem_cons_self, now, rfl⟩, fun record hrecord => ?_⟩⟩
    · obtain ⟨now', hmem⟩ := hrecords.1 chunk' hchunk'
      exact ⟨now', List.mem_cons_of_mem _ hmem⟩
    · obtain ⟨chunk', hchunk', now', heq⟩ := hrecords.2 record hrecord
      exact ⟨chunk', List.mem_cons_of_mem _ hchunk', now', heq⟩

/-- A sequence of which the first part tells something about its value and about the state. -/
theorem leads_bind_state {P' : World → Prop} {p : Service β} {f : β → Service α} {φ : β → Prop}
    (hp : Leads chunks P p fun b w => φ b ∧ P' w)
    (hf : ∀ b, φ b → Leads chunks P' (f b) Q) : Leads chunks P (p.bind f) Q :=
  triple_bind hp fun b x w hb hx => hf b hb.1 x w hb.2 hx

section Index

variable {I : SearchIndex → Prop} {task : Task}

theorem leads_now (I : SearchIndex → Prop) : Leads chunks (fun w => I w.index) (ask task knows .now)
    fun _ w => I w.index := by
  refine leads_ask fun x w now w' hw _ heffect => ?_
  cases heffect
  exact hw

theorem leads_saveTask {stageTask : IngestionTask} :
    Leads chunks (fun w => I w.index) (saveTask knows stageTask) fun _ w => I w.index := by
  refine leads_ask fun x w now w' hw _ heffect => ?_
  obtain ⟨store, -, heq⟩ := map_eq_ok.1 heffect
  cases heq
  exact hw

theorem leads_succeedTask {stageTask : IngestionTask} :
    Leads chunks (fun w => I w.index) (succeedTask knows stageTask) fun _ w => I w.index := by
  unfold succeedTask
  split
  · exact triple_ret fun _ hw => hw
  · exact triple_bind (leads_now I) fun now => leads_bind_except fun _ _ => leads_saveTask

/-- The index was left by a bulk write of these records, and they were accepted. -/
def Written (version : IndexVersion) (records : List IndexRecord) (index : SearchIndex) : Prop :=
  (∃ before : SearchIndex, index = before.writeRecords records) ∧ ∀ record ∈ records,
    record.tenantId = version.tenantId ∧ record.knowledgeBaseId = version.knowledgeBaseId ∧
      record.indexVersionId = version.id

theorem leads_upsert {tenantId : String} {version : IndexVersion} {records : List IndexRecord} :
    Leads chunks P (ask task knows (.changeIndex (.upsert tenantId version records)))
      fun _ w => Written version records w.index := by
  refine leads_ask fun x w _ w' _ _ heffect => ?_
  obtain ⟨index, hindex, heq⟩ := map_eq_ok.1 heffect
  cases heq
  obtain ⟨hwritten, hfits⟩ := IndexChange.apply_upsert_eq_ok hindex
  exact ⟨⟨w.index, hwritten⟩, hfits⟩

/-- The pipeline makes a first version current by itself. -/
theorem leads_makeCurrent {settings : Settings} {context : AuthorizationContext}
    {document : Document} {version : DocumentVersion} {indexVersion : IndexVersion}
    (hnone : job.operationId = none) :
    Leads chunks (fun w => I w.index)
      (makeCurrent settings context knows document version indexVersion job)
      fun document' w => ((∃ now, document' = document.activated version now) ∧
          version.ReadyFor document ∧ document.status = .active) ∧
        ∃ index, I index ∧ w.index = index.activated indexVersion := by
  unfold makeCurrent
  split
  · rename_i hsome
    rw [hnone] at hsome
    cases hsome
  have hdeactivate : Leads chunks (fun w => I w.index)
      (ask .indexing knows (.changeIndex (.deactivate context.tenantId indexVersion)))
      fun _ w => ∃ index, I index ∧
        (IndexChange.deactivate context.tenantId indexVersion).apply index = .ok w.index := by
    refine leads_ask fun x w _ w' hw _ heffect => ?_
    obtain ⟨index, hindex, heq⟩ := map_eq_ok.1 heffect
    cases heq
    exact ⟨w.index, hw, hindex⟩
  have hactivate : Leads chunks (fun w => ∃ index, I index ∧
        (IndexChange.deactivate context.tenantId indexVersion).apply index = .ok w.index)
      (ask .indexing knows (.changeIndex (.activate indexVersion)))
      fun _ w => ∃ index, I index ∧ w.index = index.activated indexVersion := by
    refine leads_ask fun x w _ w' hw _ heffect => ?_
    obtain ⟨index, hI, hdeactivated⟩ := hw
    obtain ⟨index', hindex', heq⟩ := map_eq_ok.1 heffect
    cases heq
    exact ⟨index, hI, IndexChange.apply_activate_eq_ok hdeactivated hindex'⟩
  have hclock : Leads chunks (fun w => ∃ index, I index ∧ w.index = index.activated indexVersion)
      (ask .activating knows .now)
      fun _ w => ∃ index, I index ∧ w.index = index.activated indexVersion :=
    leads_now fun index' => ∃ index, I index ∧ index' = index.activated indexVersion
  refine triple_bind hdeactivate fun _ => triple_bind hactivate fun _ => ?_
  refine triple_bind hclock fun now => triple_ofExcept (fun document' hdocument' w hw => ?_)
    fun _ _ _ _ => trivial
  obtain ⟨hactivated, hready, hactive, -⟩ := activateDocumentVersion_eq_ok hdocument'
  exact ⟨⟨⟨now, hactivated⟩, hready, hactive⟩, hw⟩

end Index

/-- What the index stage hands to the last transaction. -/
structure Staged (chunks : List ChunkRecord) (document : Document) (version : DocumentVersion)
    (job : IngestionJob) (r : IngestionJob × Document × DocumentVersion) (w : World) : Prop where
  job_sameScope : r.1.SameScope job
  job_status : r.1.status = .succeeded
  version_sameScope : r.2.2.SameScope version
  version_status : r.2.2.status = .ready
  version_indexVersionId : r.2.2.indexVersionId = some job.indexVersionId
  version_readyFor : r.2.2.ReadyFor document
  document_activated : ∃ now, r.2.1 = document.activated r.2.2 now
  document_status : document.status = .active
  showsAll : w.index.ShowsAll job document chunks

theorem leads_indexStage {settings : Settings} {context : AuthorizationContext}
    {tasks : List IngestionTask} {document : Document} {version : DocumentVersion}
    {embedded : EmbeddingResult} (hnone : job.operationId = none)
    (hstamped : ∀ chunk ∈ chunks,
      chunk.documentId = job.documentId ∧ chunk.documentVersionId = job.documentVersionId) :
    Leads chunks P
      (indexStage settings context knows tasks document version chunks embedded job)
      (Staged chunks document version job) := by
  refine leads_skip fun _ => leads_bind_except fun task _ => leads_skip fun task' => ?_
  refine leads_skip fun now => leads_bind leads_indexRecords fun records hrecords => ?_
  obtain ⟨hrecords, honly⟩ := hrecords
  refine triple_bind leads_upsert fun _ => triple_bind leads_succeedTask fun _ => ?_
  refine triple_bind (leads_now (Written _ records)) fun now' => ?_
  refine leads_bind_except fun ready hready => ?_
  have hcurrent : Leads chunks (fun w => Written
        { id := job.indexVersionId, tenantId := job.tenantId
          knowledgeBaseId := job.knowledgeBaseId, documentId := some job.documentId
          dimensions := embedded.dimensions, createdAt := now } records w.index)
      (makeCurrent settings context knows document
        { ready with indexVersionId := some job.indexVersionId }
        { id := job.indexVersionId, tenantId := job.tenantId
          knowledgeBaseId := job.knowledgeBaseId, documentId := some job.documentId
          dimensions := embedded.dimensions, createdAt := now } job)
      fun document' w => ((∃ now, document' = document.activated
            { ready with indexVersionId := some job.indexVersionId } now) ∧
          DocumentVersion.ReadyFor { ready with indexVersionId := some job.indexVersionId }
            document ∧ document.status = .active) ∧
        w.index.ShowsAll job document chunks := by
    refine Triple.mono (leads_makeCurrent hnone) (fun _ hw => hw) ?_ fun _ _ _ => trivial
    rintro document' w ⟨hdocument', index, ⟨⟨before, rfl⟩, hfits⟩, hindex⟩
    refine ⟨hdocument', ?_⟩
    rw [hindex]
    exact showsAll_activated hrecords honly hstamped rfl rfl rfl rfl hfits
  refine leads_bind_state hcurrent fun document' hdocument' => ?_
  refine triple_bind (leads_now (·.ShowsAll job document chunks)) fun now'' => ?_
  refine leads_bind_except fun job' hjob' => triple_ret fun w hw => ?_
  obtain ⟨hsame, hsucceeded⟩ := sameScope_of_transitionIngestion hjob'
  have hscope : ready.SameScope version := sameScope_of_transitionDocumentVersion hready
  have hstatus : ready.status = .ready := status_of_transitionDocumentVersion hready
  exact {
    job_sameScope := hsame
    job_status := hsucceeded
    version_sameScope := hscope
    version_status := hstatus
    version_indexVersionId := rfl
    version_readyFor := hdocument'.2.1
    document_activated := hdocument'.1
    document_status := hdocument'.2.2
    showsAll := hw }

/-- A delivery has come to its end: what it read at the beginning, and what it returned. -/
structure Delivered (chunks : List ChunkRecord) (loaded : Loaded) (job : IngestionJob)
    (w : World) : Prop where
  job_sameScope : job.SameScope loaded.job
  job_status : job.status = .succeeded
  job_row : w.store.row .ingestionJobs (key job) = some job
  version_row : ∃ version now, version.SameScope loaded.version ∧ version.status = .ready ∧
    version.indexVersionId = some loaded.job.indexVersionId ∧
    version.ReadyFor loaded.document ∧
    w.store.row .documentVersions (key version) = some version ∧
    w.store.row .documents (key loaded.document) = some (loaded.document.activated version now)
  document_status : loaded.document.status = .active
  showsAll : w.index.ShowsAll job loaded.document chunks

theorem rows_of_transact {st st' : Store} {tenantId : String} {version : DocumentVersion}
    {document : Document}
    (h : st.transact [.save tenantId .documentVersions version,
      .save tenantId .documents document, .save tenantId .ingestionJobs job] = .ok st') :
    st'.row .documentVersions (key version) = some version ∧
      st'.row .documents (key document) = some document ∧
      st'.row .ingestionJobs (key job) = some job := by
  refine ⟨?_, ?_, ?_⟩
  · exact (row_of_transact_of_written (l := []) (r := .documentVersions) h (by decide) (by simp)
      (by simp [Stmt.written]) rfl _).trans (if_pos rfl)
  · exact (row_of_transact_of_written (l := [_]) (r := .documents) h (by decide)
      (by simp [Stmt.written]) (by simp [Stmt.written]) rfl _).trans (if_pos rfl)
  · exact (row_of_transact_of_written (l := [_, _]) (r := .ingestionJobs) h (by decide)
      (by simp [Stmt.written]) (by simp) rfl _).trans (if_pos rfl)

/-- The last transaction of a first version. -/
theorem leads_finish {loaded : Loaded} {version : DocumentVersion}
    {r : IngestionJob × Document × DocumentVersion} (hnone : loaded.job.operationId = none)
    (hsame : job.SameScope loaded.job) (hversion : version.SameScope loaded.version) :
    Leads chunks (Staged chunks loaded.document version job r)
      (finish knows r.2.1 r.2.2 r.1) (Delivered chunks loaded) := by
  unfold finish
  split
  · have hlast : Leads chunks (Staged chunks loaded.document version job r)
        (ask .activating knows (.commit [.save r.1.tenantId .documentVersions r.2.2,
          .save r.1.tenantId .documents r.2.1, .save r.1.tenantId .ingestionJobs r.1]))
        fun _ => Delivered chunks loaded r.1 := by
      refine leads_ask fun x w _ w' hw _ heffect => ?_
      obtain ⟨store, hstore, heq⟩ := map_eq_ok.1 heffect
      cases heq
      obtain ⟨hversionRow, hdocumentRow, hjobRow⟩ := rows_of_transact hstore
      obtain ⟨now, hactivated⟩ := hw.document_activated
      rw [hactivated] at hdocumentRow
      have hindexVersionId : r.2.2.indexVersionId = some loaded.job.indexVersionId := by
        rw [hw.version_indexVersionId, IngestionJob.indexVersionId, IngestionJob.indexVersionId,
          hsame.2.2.2.2.1]
      exact {
        job_sameScope := hw.job_sameScope.trans hsame
        job_status := hw.job_status
        job_row := hjobRow
        version_row := ⟨r.2.2, now, hw.version_sameScope.trans hversion, hw.version_status,
          hindexVersionId, hw.version_readyFor, hversionRow, hdocumentRow⟩
        document_status := hw.document_status
        showsAll := hw.showsAll.of_sameScope hw.job_sameScope }
    exact triple_bind hlast fun _ => triple_ret fun _ hw => hw
  · rename_i hsome
    have hlast : Leads chunks (Staged chunks loaded.document version job r)
        (ask .finishing [] (.commit [.save r.1.tenantId .ingestionJobs r.1]))
        fun _ _ => False := by
      refine leads_ask fun x w _ w' hw _ _ => ?_
      exact hsome ((hw.job_sameScope.trans hsame).2.2.2.2.2.trans hnone)
    exact triple_bind hlast fun _ => triple_ret fun _ hw => hw.elim

section Delivery

variable {settings : Settings} {envelope : IngestionEnvelope} {deliveryAttempt : ℕ}

/-- The handler never returns. -/
theorem leads_handleFailure {error : Error} :
    Leads chunks P (handleFailure settings envelope deliveryAttempt job error) Q := by
  refine leads_skip fun _ => ?_
  split <;> exact triple_raise fun _ _ => trivial

/-- A piece of the `try` block, with its handler. -/
theorem leads_guarded {p : Service α} (h : Leads chunks P p Q) :
    Leads chunks P (p.attempt (handleFailure settings envelope deliveryAttempt job)) Q :=
  triple_attempt h fun _ => leads_handleFailure

theorem leads_run {loaded : Loaded} (hnone : loaded.job.operationId = none)
    (hstamped : ∀ chunk ∈ chunks, chunk.documentId = loaded.job.documentId ∧
      chunk.documentVersionId = loaded.job.documentVersionId) :
    Leads chunks P (run settings envelope deliveryAttempt loaded) (Delivered chunks loaded) := by
  refine leads_bind (leads_guarded leads_prepare) fun job hprepared => ?_
  refine leads_bind (leads_guarded leads_parseStage) fun parsed hparsed => ?_
  refine leads_bind (leads_guarded leads_chunkStage) fun chunked hchunked => ?_
  obtain ⟨chunkedJob, cut⟩ := chunked
  obtain ⟨hchunkedJob, rfl⟩ := hchunked
  refine leads_bind (leads_guarded leads_embedStage) fun embedded hembedded => ?_
  have hsame : embedded.1.SameScope loaded.job :=
    hembedded.trans (hchunkedJob.trans (hparsed.1.trans hprepared))
  obtain ⟨-, -, -, hdocument, hversion, hoperation⟩ := id hsame
  have hembeddedStamped : ∀ chunk ∈ cut, chunk.documentId = embedded.1.documentId ∧
      chunk.documentVersionId = embedded.1.documentVersionId := by
    intro chunk hchunk
    obtain ⟨h, h'⟩ := hstamped chunk hchunk
    exact ⟨h.trans hdocument.symm, h'.trans hversion.symm⟩
  refine triple_bind (leads_guarded (leads_indexStage (hoperation.trans hnone) hembeddedStamped))
    fun r => ?_
  exact leads_guarded (leads_finish hnone hsame hparsed.2)

/-- What `_load` has read. -/
structure LoadedFrom (w : World) (envelope : IngestionEnvelope) (loaded : Loaded) : Prop where
  job : w.store.row .ingestionJobs (envelope.tenantId, envelope.jobId) = some loaded.job
  version : w.store.row .documentVersions (envelope.tenantId, envelope.documentVersionId) =
    some loaded.version
  document : w.store.row .documents (envelope.tenantId, loaded.job.documentId) =
    some loaded.document
  job_documentVersionId : loaded.job.documentVersionId = envelope.documentVersionId

theorem leads_bind_query {w : World} {q : Query β} {task : Task} {f : β → Service α}
    (hf : ∀ b, q.answer w = .ok b → Leads chunks (· = w) (f b) Q) :
    Leads chunks (· = w) ((ask task knows (.query q)).bind f) Q := by
  refine settles_bind_query (fun _ _ _ _ _ => trivial) (fun w' b hw hb => ?_) hf
  rwa [← hw]

theorem leads_load {w : World} :
    Leads chunks (· = w) (load envelope)
      fun loaded w' => LoadedFrom w envelope loaded ∧ w' = w := by
  refine leads_bind_query fun job hjob => leads_bind_query fun tasks _ =>
    leads_bind_query fun version hversion => ?_
  cases job with
  | none => exact triple_raise fun _ _ => trivial
  | some job =>
    refine leads_bind_query fun document hdocument => ?_
    cases version with
    | none => exact triple_raise fun _ _ => trivial
    | some version =>
      cases document with
      | none => exact triple_raise fun _ _ => trivial
      | some document =>
        refine triple_bind_raiseWhen (fun hscope => triple_ret fun w' hw => ⟨?_, hw⟩)
          fun _ _ _ => trivial
        obtain ⟨jobRow, hjobRow, hjobValid⟩ := Repository.get_eq_some hjob
        obtain ⟨versionRow, hversionRow, hversionValid⟩ := Repository.get_eq_some hversion
        obtain ⟨documentRow, hdocumentRow, hdocumentValid⟩ := Repository.get_eq_some hdocument
        obtain ⟨rfl, -⟩ := validateIngestionRecord_eq_ok.1 hjobValid
        obtain ⟨rfl, -⟩ := DocumentVersion.validate_eq_ok.1 hversionValid
        obtain ⟨rfl, -⟩ := Document.validate_eq_ok.1 hdocumentValid
        rw [not_not, Prod.mk.injEq, Prod.mk.injEq] at hscope
        exact ⟨hjobRow, hversionRow, hdocumentRow, hscope.2.1⟩

/-- **What a delivery returns with.**  It has been delivered before, and nothing happens; or it
runs to its end. -/
theorem leads_handle {w : World} {stored : IngestionJob}
    (hstored : w.store.row .ingestionJobs (envelope.tenantId, envelope.jobId) = some stored)
    (hnone : stored.operationId = none)
    (hstamped : ∀ chunk ∈ chunks, chunk.documentId = stored.documentId ∧
      chunk.documentVersionId = stored.documentVersionId) :
    Leads chunks (· = w) (handle settings envelope deliveryAttempt) fun job w' =>
      (w' = w ∧ job = stored ∧ job.status = .succeeded) ∨
        ∃ loaded, LoadedFrom w envelope loaded ∧ Delivered chunks loaded job w' := by
  refine leads_bind_state leads_load fun loaded hloaded => ?_
  obtain rfl : loaded.job = stored := Option.some.inj (hloaded.job.symm.trans hstored)
  split
  · exact triple_ret fun w' hw => .inl ⟨hw, rfl, ‹_›⟩
  · exact (leads_run hnone hstamped).mono (fun _ h => h) (fun _ _ h => .inr ⟨loaded, hloaded, h⟩)
      fun _ _ h => h

end Delivery

end IngestionPipeline

/-! ## Who finds the chunks -/

/-- What a query asks of a chunk besides its knowledge base: an index version and its filters. -/
def RetrievalQuery.Selects (cmp : FieldComparison) (query : RetrievalQuery)
    (indexed : IndexedChunk) : Prop :=
  (query.indexVersionIds ≠ [] → indexed.indexVersionId ∈ query.indexVersionIds) ∧
    (∀ item ∈ query.filters, item.Holds cmp indexed) ∧
    (∀ group ∈ query.filterExpression, group.Holds cmp indexed) ∧
    ∀ group ∈ query.inferredFilterExpression, group.Holds cmp indexed

/-- An indexed chunk is found by those who ask for its knowledge base and may read its document, and
then the database takes it for current. -/
structure IndexedChunk.FoundByReaders (indexed : IndexedChunk) (st : Store)
    (knowledgeBaseId : String) (document : Document) : Prop where
  matches_iff : ∀ (cmp : FieldComparison) context query,
    (∀ clause ∈ filters context query, clause.Matches cmp.toComparison indexed.values) ↔
      knowledgeBaseId ∈ query.knowledgeBaseIds ∧
        (PermissionChecker.check context document.authorization .read).allowed = true ∧
        query.Selects cmp indexed
  current : ∀ context channel score rank,
    (PermissionChecker.check context document.authorization .read).allowed = true →
      KnowledgeQueryService.IsCurrent context st
        (SearchChannelAdapter.candidate channel ⟨indexed, score⟩ rank) ∧
      KnowledgeQueryService.MayRead context st
        (SearchChannelAdapter.candidate channel ⟨indexed, score⟩ rank)

/-- **The chunks of a job can be found.** -/
structure Searchable (w : World) (job : IngestionJob) (document : Document)
    (chunks : List ChunkRecord) : Prop where
  job_row : w.store.row .ingestionJobs (job.tenantId, job.id) = some job
  job_status : job.status = .succeeded
  version_row : ∃ version,
    w.store.row .documentVersions (job.tenantId, job.documentVersionId) = some version ∧
      version.status = .ready ∧ version.indexVersionId = some job.indexVersionId
  document_row : w.store.row .documents (job.tenantId, job.documentId) = some document
  document_current : document.status = .active ∧
    document.currentVersionId = some job.documentVersionId
  /-- Of the chunks with one id, one is found. -/
  found : ∀ chunk ∈ chunks, ∃ chunk' ∈ chunks, chunk'.id = chunk.id ∧
    ∃ indexed ∈ w.index.chunks, indexed.chunkId = chunk'.id ∧ indexed.content = chunk'.content ∧
      indexed.documentVersionId = job.documentVersionId ∧
      indexed.FoundByReaders w.store job.knowledgeBaseId document
  /-- And of the document nothing else is found but chunks of the same index version. -/
  only : ∀ indexed ∈ w.index.chunks, indexed.tenantId = job.tenantId →
    indexed.knowledgeBaseId = job.knowledgeBaseId → indexed.documentId = job.documentId →
    indexed.active = true → indexed.indexVersionId = job.indexVersionId

theorem IndexedChunk.Shows.foundByReaders {indexed : IndexedChunk} {job : IngestionJob}
    {document : Document} {chunk : ChunkRecord} {st : Store} (h : indexed.Shows job document chunk)
    (hrow : st.row .documents (job.tenantId, job.documentId) = some document)
    (hstatus : document.status = .active)
    (hcurrent : document.currentVersionId = some job.documentVersionId)
    (hkb : document.knowledgeBaseId = job.knowledgeBaseId) :
    indexed.FoundByReaders st job.knowledgeBaseId document where
  matches_iff := by
    intro cmp context query
    have htenant : document.tenantId = job.tenantId := congrArg Prod.fst (Store.key_of_row hrow)
    have hsame : indexed.authorization = document.authorization := by
      rw [IndexedChunk.authorization, Document.authorization, h.tenantId, h.ownerId, h.visibility,
        htenant]
    rw [matches_filters h.allowedActorIds h.allowedRoles, hsame, h.knowledgeBaseId]
    constructor
    · rintro ⟨⟨-, hrequested, -, -, -, hallowed⟩, hselects⟩
      exact ⟨hrequested, hallowed, hselects⟩
    · rintro ⟨hrequested, hallowed, hselects⟩
      have hcontext : context.tenantId = document.tenantId :=
        (PermissionChecker.allowed_read_iff.1 hallowed).1
      refine ⟨⟨?_, hrequested, h.active, h.enabled, h.not_deleted, hallowed⟩, hselects⟩
      rw [h.tenantId, hcontext, htenant]
  current := by
    intro context channel score rank hallowed
    have htenant : context.tenantId = job.tenantId :=
      (PermissionChecker.allowed_read_iff.1 hallowed).1.trans
        (congrArg Prod.fst (Store.key_of_row hrow))
    have hdocument : st.row .documents (context.tenantId, indexed.documentId) = some document := by
      rw [htenant, h.documentId, hrow]
    refine ⟨⟨document, hdocument, hstatus, ?_, ?_⟩, document, hdocument, hallowed⟩
    · exact hcurrent.trans (congrArg some h.documentVersionId.symm)
    · exact hkb.trans h.knowledgeBaseId.symm

namespace IngestionPipeline

theorem Delivered.searchable {w w' : World} {envelope : IngestionEnvelope} {loaded : Loaded}
    {job : IngestionJob} {chunks : List ChunkRecord} (h : Delivered chunks loaded job w')
    (hloaded : LoadedFrom w envelope loaded)
    (hkb : loaded.document.knowledgeBaseId = loaded.job.knowledgeBaseId) :
    ∃ document, Searchable w' job document chunks := by
  obtain ⟨-, htenant, hjobKb, hjobDocument, hjobVersion, -⟩ := h.job_sameScope
  obtain ⟨version, now, hscope, hready, hindex, -, hversionRow, hdocumentRow⟩ := h.version_row
  have hjobTenant : loaded.job.tenantId = envelope.tenantId :=
    congrArg Prod.fst (Store.key_of_row hloaded.job)
  have hversionKey : key version = (job.tenantId, job.documentVersionId) := by
    rw [key_documentVersion, hscope.2.1, hscope.1, htenant, hjobTenant, hjobVersion,
      hloaded.job_documentVersionId]
    exact Store.key_of_row hloaded.version
  have hdocumentKey : key loaded.document = (job.tenantId, job.documentId) := by
    rw [Store.key_of_row hloaded.document, htenant, hjobTenant, hjobDocument]
  rw [hversionKey] at hversionRow
  rw [hdocumentKey] at hdocumentRow
  have hcurrent : (loaded.document.activated version now).currentVersionId =
      some job.documentVersionId := congrArg some (congrArg Prod.snd hversionKey)
  have hactiveKb : (loaded.document.activated version now).knowledgeBaseId = job.knowledgeBaseId :=
    hkb.trans hjobKb.symm
  refine ⟨loaded.document.activated version now, ?_⟩
  exact {
    job_row := h.job_row
    job_status := h.job_status
    version_row := ⟨version, hversionRow, hready, by
      rw [hindex, IngestionJob.indexVersionId, IngestionJob.indexVersionId, hjobVersion]⟩
    document_row := hdocumentRow
    document_current := ⟨h.document_status, hcurrent⟩
    found := by
      intro chunk hchunk
      obtain ⟨chunk', hchunk', hid, indexed, hmem, hshows⟩ := h.showsAll.shown chunk hchunk
      have hshows' : indexed.Shows job (loaded.document.activated version now) chunk' :=
        { hshows with }
      exact ⟨chunk', hchunk', hid, indexed, hmem, hshows.chunkId, hshows.content,
        hshows.documentVersionId, hshows'.foundByReaders hdocumentRow h.document_status hcurrent
          hactiveKb⟩
    only := h.showsAll.indexVersionId }

/-- **A first version that was ingested can be found.**  Whatever faults a delivery meets, if it
returns then it has been there before and nothing happens, or its chunks can be found. -/
theorem handle_searchable (settings : Settings) (envelope : IngestionEnvelope)
    (deliveryAttempt : ℕ) (x : ℕ → Input) (w : World) (chunks : List ChunkRecord)
    (stored job : IngestionJob) (hchunker : ∀ n, (x n).chunks = chunks)
    (hstored : w.store.row .ingestionJobs (envelope.tenantId, envelope.jobId) = some stored)
    (hfirst : stored.operationId = none)
    (hkb : ∀ document ∈ w.store.row .documents (envelope.tenantId, stored.documentId),
      document.knowledgeBaseId = stored.knowledgeBaseId)
    (hstamped : ∀ chunk ∈ chunks, chunk.documentId = stored.documentId ∧
      chunk.documentVersionId = stored.documentVersionId)
    (hrun : ((handle settings envelope deliveryAttempt).runAlone exec x w).1 = .ok job) :
    (job = stored ∧ job.status = .succeeded ∧
        ((handle settings envelope deliveryAttempt).runAlone exec x w).2 = w) ∨
      ∃ document, Searchable ((handle settings envelope deliveryAttempt).runAlone exec x w).2 job
        document chunks := by
  have hends := (leads_handle hstored hfirst hstamped x w rfl
    (Prog.along_of_forall fun n _ _ _ => hchunker n)).2.1 job hrun
  obtain ⟨hw, rfl, hstatus⟩ | ⟨loaded, hloaded, hdelivered⟩ := hends
  · exact .inl ⟨rfl, hstatus, hw⟩
  · obtain rfl : loaded.job = stored := Option.some.inj (hloaded.job.symm.trans hstored)
    exact .inr (hdelivered.searchable hloaded (hkb _ hloaded.document))

end IngestionPipeline

namespace Sample

/-- The tenant after its upload. -/
def uploaded : World :=
  ((system settings (fun _ : Bool => upload) fresh).run exec (uploads true)).state

def uploadedJob : IngestionJob where
  id := jobId
  tenantId := "t"
  knowledgeBaseId := "kb"
  documentId := "d"
  documentVersionId := "v"
  requestedBy := "owner"
  idempotencyKey := "k"
  traceId := "request"
  createdAt := 1
  updatedAt := 1

def ingestedJob : IngestionJob := { uploadedJob with status := .succeeded, progress := 1 }

end Sample

/-- The upload is delivered, and its chunk can be found. -/
theorem IngestionPipeline.handle_searchable_uploaded : ∃ document,
    Searchable ((IngestionPipeline.handle Sample.settings Sample.envelope 1).runAlone exec
      (fun _ => Sample.input) Sample.uploaded).2 Sample.ingestedJob document
      Sample.input.chunks := by
  have hkb : (Sample.uploaded.store.row .documents ("t", "d")).map Document.knowledgeBaseId =
      some "kb" := by decide +kernel
  refine (IngestionPipeline.handle_searchable Sample.settings Sample.envelope 1
    (fun _ => Sample.input) Sample.uploaded Sample.input.chunks Sample.uploadedJob
    Sample.ingestedJob (fun _ => rfl) (by decide +kernel) rfl ?_ (by decide) (by decide +kernel)
    ).resolve_left fun h => absurd h.1 (by decide)
  intro document hdocument
  change Sample.uploaded.store.row .documents ("t", "d") = some document at hdocument
  rw [hdocument] at hkb
  exact Option.some.inj hkb

end Knowledge
end RagflowAgent
