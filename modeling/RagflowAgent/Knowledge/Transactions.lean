import RagflowAgent.Knowledge.Application.Delete
import RagflowAgent.Knowledge.Application.Ingestion
import RagflowAgent.Knowledge.Application.Upload

/-!
# The transactions of the system

Everything the services ever write, in one place.  `Writes task knows statements` lists the
transactions: at which task, knowing what, which statements are committed.  `Changes` does
the same for the search index and `Moves` for the object store.  A row that is mentioned as
known was read by the writer at some moment before, and may have changed since.

`conduct S` makes a discipline of these lists, for services that work at the tasks `S`.
Every property of interleaved runs is proved from it by cases over the transactions,
without looking at a service again; that the services keep to it is the subject of
`Conduct`.
-/

namespace RagflowAgent
namespace Knowledge

open Interleaving Keyed

/-! ## What an answer tells -/

/-- `e` is what decoding some payload gives. -/
def Decoded {r : Resource} (e : r.Row) : Prop := ∃ row : r.Row, Entity.validate row = .ok e

/-- Decoding keeps the key. -/
theorem key_of_validate : ∀ {r : Resource} {row e : r.Row},
    Entity.validate row = .ok e → key e = key row
  | .knowledgeBases, row, e, h => by
    change KnowledgeBase.validate row = .ok e at h
    unfold KnowledgeBase.validate at h
    split at h <;> cases h
    rfl
  | .documents, row, e, h => by rw [(Document.validate_eq_ok.1 h).1]
  | .documentVersions, row, e, h => by rw [(DocumentVersion.validate_eq_ok.1 h).1]
  | .ingestionJobs, row, e, h => by rw [(validateIngestionRecord_eq_ok.1 h).1]
  | .ingestionTasks, row, e, h => by rw [(validateIngestionRecord_eq_ok.1 h).1]
  | .lifecycleOperations, row, e, h => by
    obtain ⟨status, -, rfl⟩ := LifecycleOperation.validate_eq_ok h
    rfl
  | .lifecycleOutbox, row, e, h => by cases h; rfl

theorem valid_of_decoded {document : Document} (h : Decoded (r := .documents) document) :
    document.Valid := by
  obtain ⟨row, hrow⟩ := h
  obtain ⟨rfl, hvalid⟩ := Document.validate_eq_ok.1 hrow
  exact hvalid

/-- The answers a query can get: the rows it selects, decoded. -/
def Query.Answers {β : Type} : Query β → β → Prop
  | get _ tenantId resourceId, o => ∀ e ∈ o, key e = (tenantId, resourceId) ∧ Decoded e
  | getByIdempotencyKey tenantId idempotencyKey, o =>
    ∀ e ∈ o, e.tenantId = tenantId ∧ e.idempotencyKey = idempotencyKey
  | listVersionsForDocument tenantId documentId, l =>
    ∀ e ∈ l, e.tenantId = tenantId ∧ e.documentId = documentId
  | listOperationsForDocument tenantId documentId, l =>
    ∀ e ∈ l, e.tenantId = tenantId ∧ e.documentId = documentId
  | listTasksForJob tenantId jobId, l => ∀ e ∈ l, e.tenantId = tenantId ∧ e.jobId = jobId
  | _, _ => True

/-- A fact that a query has just read off the store. -/
def Fact.ReadFrom (st : Store) : Fact → Prop
  | stored r e => ∃ row ∈ (st.table r).rows, Entity.validate row = .ok e
  | uncancelled operation => ¬ operation.Cancelled ∧
      ∃ row ∈ (st.table .lifecycleOperations).rows, Entity.validate row = .ok operation
  | _ => False

theorem stored_mem_ofRow {r : Resource} (e : r.Row) : Fact.stored r e ∈ Fact.ofRow r e := by
  cases r
  case lifecycleOperations =>
    by_cases h : LifecycleOperation.Cancelled e <;> simp [Fact.ofRow, h]
  all_goals exact List.mem_singleton.2 rfl

theorem readFrom_ofRow {st : Store} {r : Resource} {row e : r.Row}
    (hrow : row ∈ (st.table r).rows) (he : Entity.validate row = .ok e) :
    ∀ f ∈ Fact.ofRow r e, f.ReadFrom st := by
  have hstored : (Fact.stored r e).ReadFrom st := ⟨row, hrow, he⟩
  cases r
  case lifecycleOperations =>
    by_cases hcancelled : LifecycleOperation.Cancelled e
    · simpa [Fact.ofRow, hcancelled] using hstored
    · intro f hf
      simp only [Fact.ofRow, hcancelled, if_false, List.mem_cons, List.not_mem_nil,
        or_false] at hf
      rcases hf with rfl | rfl
      · exact hstored
      · exact ⟨hcancelled, row, hrow, he⟩
  all_goals simpa [Fact.ofRow] using hstored

/-- What `decode` returns comes from the rows it was given. -/
theorem mem_of_decode {ρ : Type} [Entity ρ] {rows l : List ρ}
    (h : Repository.decode rows = .ok l) :
    ∀ e ∈ l, ∃ row ∈ rows, Entity.validate row = .ok e :=
  mem_of_mapM_eq_ok h

/-- The rows that survive ordering and a filter. -/
theorem mem_of_mem_orderBy {ρ κ : Type} [LE κ] [DecidableLE κ] {sortKey : ρ → κ}
    {rows : List ρ} {p : ρ → Bool} {row : ρ}
    (h : row ∈ Query.orderBy sortKey (rows.filter p)) : row ∈ rows ∧ p row = true :=
  List.mem_filter.1 ((List.mem_insertionSort _).1 h)

section Listings

variable {r : Resource} {st : Store} {rows l : List r.Row}

/-- The facts of a decoded listing are read from the store. -/
theorem readFrom_of_decode (hrows : ∀ row ∈ rows, row ∈ (st.table r).rows)
    (h : Repository.decode rows = .ok l) :
    ∀ f ∈ l.flatMap (Fact.ofRow r), f.ReadFrom st := by
  intro f hf
  obtain ⟨e, he, hf⟩ := List.mem_flatMap.1 hf
  obtain ⟨row, hrow, hvalid⟩ := mem_of_decode h e he
  exact readFrom_ofRow (hrows row hrow) hvalid f hf

end Listings

/-- **What the answer of a query tells**: it is one of the possible answers, and its facts
are read from the store as it is. -/
theorem Query.answer_spec {β : Type} {q : Query β} {w : World} {b : β}
    (h : q.answer w = .ok b) : q.Answers b ∧ ∀ f ∈ q.facts b, f.ReadFrom w.store := by
  cases q with
  | get r tenantId resourceId =>
    cases b with
    | none => exact ⟨by simp [Query.Answers], by simp [Query.facts]⟩
    | some e =>
      obtain ⟨row, hrow, hvalid⟩ := Repository.get_eq_some h
      refine ⟨fun e' he' => ?_, fun f hf => ?_⟩
      · cases he'
        exact ⟨(key_of_validate hvalid).trans (Table.key_of_get hrow), row, hvalid⟩
      · rw [Query.facts, Option.toList_some, List.flatMap_singleton] at hf
        exact readFrom_ofRow (Table.mem_of_get hrow) hvalid f hf
  | getByIdempotencyKey tenantId idempotencyKey =>
    simp only [Query.answer] at h
    split at h
    · cases h
      exact ⟨by simp [Query.Answers], by simp [Query.facts]⟩
    · rename_i row hfind
      obtain ⟨e, hvalid, rfl⟩ := map_eq_ok.1 h
      have hmem := List.mem_of_find?_eq_some hfind
      have hp := List.find?_some hfind
      obtain ⟨status, -, rfl⟩ := LifecycleOperation.validate_eq_ok hvalid
      refine ⟨fun e' he' => ?_, fun f hf => ?_⟩
      · cases he'
        simpa using hp
      · rw [Query.facts, Option.toList_some, List.flatMap_singleton] at hf
        exact readFrom_ofRow (r := .lifecycleOperations) hmem hvalid f hf
  | listVersionsForDocument tenantId documentId =>
    refine ⟨fun e he => ?_, readFrom_of_decode (r := .documentVersions)
      (fun row hrow => (mem_of_mem_orderBy hrow).1) h⟩
    obtain ⟨row, hrow, hvalid⟩ := mem_of_decode h e he
    obtain ⟨rfl, -⟩ := DocumentVersion.validate_eq_ok.1 hvalid
    simpa using (mem_of_mem_orderBy hrow).2
  | listVersionsForTenant tenantId limit =>
    exact ⟨trivial, readFrom_of_decode (r := .documentVersions)
      (fun row hrow => (mem_of_mem_orderBy (List.mem_of_mem_take hrow)).1) h⟩
  | listOperationsForDocument tenantId documentId =>
    refine ⟨fun e he => ?_, readFrom_of_decode (r := .lifecycleOperations)
      (fun row hrow => (mem_of_mem_orderBy hrow).1) h⟩
    obtain ⟨row, hrow, hvalid⟩ := mem_of_decode h e he
    obtain ⟨status, -, rfl⟩ := LifecycleOperation.validate_eq_ok hvalid
    simpa using (mem_of_mem_orderBy hrow).2
  | listOperationsByStatus tenantId statuses updatedBefore limit =>
    exact ⟨trivial, readFrom_of_decode (r := .lifecycleOperations)
      (fun row hrow => (mem_of_mem_orderBy (List.mem_of_mem_take hrow)).1) h⟩
  | listDocumentsByStatus tenantId statuses limit =>
    exact ⟨trivial, readFrom_of_decode (r := .documents)
      (fun row hrow => (mem_of_mem_orderBy (List.mem_of_mem_take hrow)).1) h⟩
  | listTasksForJob tenantId jobId =>
    refine ⟨fun e he => ?_, readFrom_of_decode (r := .ingestionTasks)
      (fun row hrow => (mem_of_mem_orderBy hrow).1) h⟩
    obtain ⟨row, hrow, hvalid⟩ := mem_of_decode h e he
    obtain ⟨rfl, -⟩ := validateIngestionRecord_eq_ok.1 hvalid
    simpa using (mem_of_mem_orderBy hrow).2
  | listDue tenantId now limit =>
    exact ⟨trivial, readFrom_of_decode (r := .lifecycleOutbox)
      (fun row hrow => (mem_of_mem_orderBy (List.mem_of_mem_take hrow)).1) h⟩
  | _ => exact ⟨trivial, by simp [Query.facts]⟩

/-! ## The catalogue -/

/-- The rows a publication has loaded belong together: they were read under the keys that
the operation names. -/
structure DocumentVersionPublisher.Loaded.Coherent (loaded : DocumentVersionPublisher.Loaded)
    (tenantId : String) : Prop where
  operation : loaded.operation.tenantId = tenantId
  document : key loaded.document = (tenantId, loaded.operation.documentId)
  version : key loaded.version = (tenantId, loaded.operation.versionId)
  previous : ∀ p ∈ loaded.previous,
    p.tenantId = tenantId ∧ loaded.operation.previousVersionId = some p.id

/-- An operation is published by whoever asks for it, or at the end of a delivery that has
looked and not found it cancelled. -/
def Publishes (task : Task) (knows : List Fact) (operation : LifecycleOperation) : Prop :=
  task = .publishing ∨
    task = .completing ∧ ∃ seen, Fact.uncancelled seen ∈ knows ∧ key seen = key operation

/-- The transactions: at which task, knowing what, which statements are committed. -/
inductive Writes : Task → List Fact → List Stmt → Prop where
  /-- `complete_ingestion`. -/
  | publication {tenantId indexVersionId : String} {historyRetention now : ℕ} {task : Task}
      {knows : List Fact} {loaded : DocumentVersionPublisher.Loaded} {step : LifecycleStep}
      {steps : List LifecycleStepState} {p : DocumentVersionPublisher.Publication} :
      loaded.facts ⊆ knows → Fact.clock now ∈ knows →
      Fact.promoted (loaded.document.scope tenantId loaded.version.id)
        loaded.operation.fencingToken ∈ knows →
      loaded.Coherent tenantId → Publishes task knows loaded.operation →
      DocumentVersionPublisher.publication historyRetention loaded
        { loaded.operation with currentStep := step, steps := steps, updatedAt := now }
        indexVersionId now = .ok p →
      Writes task knows (p.statements tenantId loaded.document)
  /-- `rollback`, before it publishes. -/
  | rollback {context : AuthorizationContext}
      {operationId idempotencyKey reason fingerprint : String} {now : ℕ} {knows : List Fact}
      {document : Document} {target : DocumentVersion} :
      Fact.stored .documents document ∈ knows →
      Fact.stored .documentVersions target ∈ knows → Fact.clock now ∈ knows →
      document.tenantId = context.tenantId → target.tenantId = context.tenantId →
      target.documentId = document.id → target.status = .superseded →
      Writes .rollingBack knows
        [.add context.tenantId .lifecycleOperations
          (DocumentVersionPublisher.rollbackOperation context document target operationId
            idempotencyKey reason fingerprint now)]
  /-- `request_delete`. -/
  | deletion {settings : Settings} {context : AuthorizationContext}
      {currentVersionId operationId idempotencyKey reason fingerprint : String} {now : ℕ}
      {knows : List Fact} {document : Document} :
      Fact.stored .documents document ∈ knows → Fact.clock now ∈ knows →
      document.tenantId = context.tenantId → document.status = .active →
      document.currentVersionId = some currentVersionId →
      Writes .deleting knows
        [.saveIfRevision context.tenantId
          (DocumentDeletionService.tombstone settings document now) document.revision,
          .add context.tenantId .lifecycleOperations
            (DocumentDeletionService.deletion settings context document currentVersionId
              operationId idempotencyKey reason fingerprint now),
          .add context.tenantId .lifecycleOutbox
            (DocumentDeletionService.cleanupEvent settings context document operationId now)]
  /-- `restore`. -/
  | restoration {context : AuthorizationContext}
      {operationId idempotencyKey reason fingerprint : String} {now : ℕ} {knows : List Fact}
      {document restored : Document} {deletion : Option LifecycleOperation}
      {target ready : DocumentVersion} :
      Fact.stored .documents document ∈ knows →
      Fact.stored .documentVersions target ∈ knows → Fact.clock now ∈ knows →
      Fact.promoted (document.scope context.tenantId target.id) (document.revision + 1) ∈
        knows →
      document.tenantId = context.tenantId → target.tenantId = context.tenantId →
      ¬ DocumentDeletionService.Unrecoverable document (some target) now →
      DocumentDeletionService.restoredVersion target now = .ok ready →
      activateDocumentVersion (DocumentDeletionService.untombstoned document now) ready now
        (some document.revision) = .ok restored →
      Writes .restoring knows
        ([.save context.tenantId .documentVersions ready,
          .saveIfRevision context.tenantId restored document.revision,
          .add context.tenantId .lifecycleOperations
            (DocumentDeletionService.restoration context document ready.id operationId
              idempotencyKey reason fingerprint now)] ++
          deletion.toList.map fun deletion =>
            .cancelPending context.tenantId ("outbox:" ++ deletion.id) now)
  /-- `_purge`. -/
  | purge {context : AuthorizationContext} {operationId reason : String} {now : ℕ}
      {knows : List Fact} {document : Document} {versions deleted : List DocumentVersion} :
      Fact.stored .documents document ∈ knows → Fact.clock now ∈ knows →
      (∀ version ∈ versions, Fact.stored .documentVersions version ∈ knows) →
      document.Valid → document.tenantId = context.tenantId →
      (∀ version ∈ versions,
        version.tenantId = context.tenantId ∧ version.documentId = document.id) →
      document.purgeAfter.any (· ≤ now) = true →
      DocumentDeletionService.deletedVersions versions now = .ok deleted →
      Writes .purging knows
        (deleted.map (.save context.tenantId .documentVersions) ++
          [.saveIfRevision context.tenantId (DocumentDeletionService.purged document now)
            document.revision,
            .add context.tenantId .lifecycleOperations
              (DocumentDeletionService.purgeOperation context document versions operationId
                reason now)])
  /-- `cancel`. -/
  | cancellation {tenantId : String} {now : ℕ} {knows : List Fact}
      {operation : LifecycleOperation} :
      Fact.stored .lifecycleOperations operation ∈ knows → Fact.clock now ∈ knows →
      operation.status.isIn terminalLifecycleStatuses = false →
      Writes .cancelling knows
        [.save tenantId .lifecycleOperations
          { operation with status := .member .cancelRequested, updatedAt := now }]
  /-- `_progress`, of the operation. -/
  | progress {tenantId : String} {progress : ℚ} {now : ℕ} {knows : List Fact}
      {operation updated : LifecycleOperation} :
      Fact.ofRow .lifecycleOperations operation ⊆ knows → Fact.clock now ∈ knows →
      updateProgress operation progress now = .ok updated →
      Writes .progressing knows [.save tenantId .lifecycleOperations updated]
  /-- `_save_job`. -/
  | job {tenantId : String} {knows : List Fact} {job : IngestionJob} :
      Writes .savingJob knows [.save tenantId .ingestionJobs job]
  /-- `_save_task`. -/
  | task {tenantId : String} {knows : List Fact} {task : IngestionTask} :
      Writes .savingTask knows [.save tenantId .ingestionTasks task]
  /-- The first `_save_version` of a delivery. -/
  | startVersion {tenantId : String} {now : ℕ} {knows : List Fact}
      {version started : DocumentVersion} :
      Fact.stored .documentVersions version ∈ knows → version.status = .registered →
      transitionDocumentVersion version .ingesting now = .ok started →
      Writes .startingVersion knows [.save tenantId .documentVersions started]
  /-- The second `_save_version` of a delivery. -/
  | readyVersion {tenantId : String} {knows : List Fact} {version ready : DocumentVersion} :
      Fact.stored .documentVersions version ∈ knows → ready.SameScope version →
      ready.status = .ready →
      Writes .readyingVersion knows [.save tenantId .documentVersions ready]
  /-- `_record_failure`, of the version. -/
  | failVersion {tenantId : String} {now : ℕ} {knows : List Fact}
      {version failed : DocumentVersion} :
      Fact.stored .documentVersions version ∈ knows → version.status = .ingesting →
      transitionDocumentVersion version .failed now = .ok failed →
      Writes .failingVersion knows [.save tenantId .documentVersions failed]
  /-- `_record_failure`, of the operation. -/
  | failOperation {tenantId : String} {deliveryAttempt now : ℕ} {knows : List Fact}
      {operation : LifecycleOperation} {failure : IngestionError} :
      Fact.stored .lifecycleOperations operation ∈ knows →
      Writes .failingOperation knows
        [.save tenantId .lifecycleOperations
          (IngestionPipeline.failedOperation operation failure deliveryAttempt now)]
  /-- The last transaction of a delivery that has activated its version itself. -/
  | activation {tenantId : String} {now : ℕ} {knows : List Fact} {document active : Document}
      {version ready : DocumentVersion} {job : IngestionJob} :
      Fact.stored .documents document ∈ knows →
      (∀ d, Fact.stored .documents d ∈ knows → d = document) →
      Fact.stored .documentVersions version ∈ knows → ready.SameScope version →
      activateDocumentVersion document ready now = .ok active →
      Writes .activating knows
        [.save tenantId .documentVersions ready, .save tenantId .documents active,
          .save tenantId .ingestionJobs job]
  /-- The last transaction of a delivery whose version was published. -/
  | finishedJob {tenantId : String} {knows : List Fact} {job : IngestionJob} :
      Writes .finishing knows [.save tenantId .ingestionJobs job]
  /-- `_register`. -/
  | registration {settings : Settings} {request : DocumentUpdateService.RegisterRequest}
      {currentVersionId operationId : String} {now : ℕ} {knows : List Fact}
      {document : Document} :
      Fact.stored .documents document ∈ knows → Fact.clock now ∈ knows →
      document.tenantId = request.context.tenantId →
      document.currentVersionId = some currentVersionId →
      (∀ objectKey ∈ request.storedObject,
        objectKey = request.objectKey ∧ Fact.put objectKey ∈ knows) →
      Writes .registering knows
        ((DocumentUpdateService.registration settings request document currentVersionId
          operationId now).statements request.context.tenantId)
  /-- `register_document`. -/
  | submission {command : KnowledgeService.RegisterDocumentCommand}
      {knowledgeBase : KnowledgeBase} {documentId versionId : String} {now : ℕ}
      {knows : List Fact} :
      Fact.put command.objectKey ∈ knows →
      Writes .submitting knows
        [.add command.context.tenantId .documents
          (KnowledgeService.registered command knowledgeBase documentId versionId now).document,
          .add command.context.tenantId .documentVersions
            (KnowledgeService.registered command knowledgeBase documentId versionId now).version]
  /-- `submit`, the job and its tasks. -/
  | jobs {tenantId : String} {knows : List Fact} {job : IngestionJob}
      {tasks : List IngestionTask} :
      Writes .submitting knows
        (.add tenantId .ingestionJobs job :: tasks.map (.add tenantId .ingestionTasks))

/-- The changes of the search index. -/
inductive Changes : Task → List Fact → IndexChange → Prop where
  /-- `complete_ingestion` promotes the version it is about to publish. -/
  | promotePublication {tenantId : String} {now : ℕ} {task : Task} {knows : List Fact}
      {loaded : DocumentVersionPublisher.Loaded} :
      loaded.facts ⊆ knows → Fact.clock now ∈ knows → loaded.Coherent tenantId →
      Publishes task knows loaded.operation →
      loaded.document.status = .active →
      loaded.document.revision = loaded.operation.expectedDocumentRevision →
      Changes task knows (.promoteDocumentVersion
        (loaded.document.scope tenantId loaded.version.id) loaded.operation.fencingToken)
  /-- `restore` promotes the version it is about to restore. -/
  | promoteRestoration {tenantId : String} {now : ℕ} {knows : List Fact} {document : Document}
      {target : DocumentVersion} :
      Fact.stored .documents document ∈ knows →
      Fact.stored .documentVersions target ∈ knows → Fact.clock now ∈ knows →
      document.tenantId = tenantId → target.tenantId = tenantId →
      ¬ DocumentDeletionService.Unrecoverable document (some target) now →
      Changes .restoring knows (.promoteDocumentVersion (document.scope tenantId target.id)
        (document.revision + 1))
  /-- After its transaction, a publication or a deletion retires the version that it has
  replaced. -/
  | retire {tenantId versionId : String} {document : Document} :
      document.tenantId = tenantId → document.currentVersionId ≠ some versionId →
      Changes .retiring [.wrote document]
        (.retireDocumentVersion (document.scope tenantId versionId))
  /-- `_purge` deletes the projections of the versions it has listed. -/
  | deleteProjection {tenantId : String} {now : ℕ} {knows : List Fact} {document : Document}
      {version : DocumentVersion} :
      Fact.stored .documents document ∈ knows → Fact.clock now ∈ knows →
      Fact.stored .documentVersions version ∈ knows → document.Valid →
      document.tenantId = tenantId → version.tenantId = tenantId →
      version.documentId = document.id → document.purgeAfter.any (· ≤ now) = true →
      Changes .purging knows
        (.deleteDocumentVersion (document.scope tenantId version.id))
  | upsert {tenantId : String} {knows : List Fact} {version : IndexVersion}
      {records : List IndexRecord} : Changes .indexing knows (.upsert tenantId version records)
  | deactivate {tenantId : String} {knows : List Fact} {version : IndexVersion} :
      Changes .indexing knows (.deactivate tenantId version)
  | activate {knows : List Fact} {version : IndexVersion} :
      Changes .indexing knows (.activate version)
  /-- The reconciler deletes projections without a listed version. -/
  | reconcile {knows : List Fact} {scope : VersionScope} :
      Changes .reconciling knows (.deleteDocumentVersion scope)

/-- The changes of the object store. -/
inductive Moves : Task → List Fact → ObjectChange → Prop where
  | put {knows : List Fact} {objectKey : String} : Moves .reading knows (.put objectKey)
  /-- `_purge` deletes the source objects of the versions it has listed. -/
  | delete {now : ℕ} {knows : List Fact} {document : Document} {version : DocumentVersion} :
      Fact.stored .documents document ∈ knows → Fact.clock now ∈ knows →
      Fact.stored .documentVersions version ∈ knows → document.Valid →
      version.tenantId = document.tenantId → version.documentId = document.id →
      document.purgeAfter.any (· ≤ now) = true →
      Moves .purging knows (.delete version.objectKey)
  /-- The reconciler deletes objects without a listed version. -/
  | reconcile {knows : List Fact} {objectKey : String} :
      Moves .reconciling knows (.delete objectKey)

/-! ## The discipline -/

/-- The calls the services make. -/
def Action.Licit {β : Type} (a : Action β) : Prop :=
  match a.call with
  | .commit statements => Writes a.task a.knows statements
  | .changeIndex change => Changes a.task a.knows change
  | .changeObjects change => Moves a.task a.knows change
  | _ => True

/-- The answers a call can get. -/
def Action.Answers {β : Type} (a : Action β) : Except Error β → Prop
  | .ok b =>
    match a.call, b with
    | .query q, b => q.Answers b
    | _, _ => True
  | .error _ => True

/-- **The discipline of the services** that work at the tasks in `S` only. -/
def conduct (S : Task → Prop) : Discipline Action Error Fact where
  licit _ a := S a.task ∧ a.Licit
  knows _ := Action.knows
  answers _ := Action.Answers
  yields _ := Action.yields
  -- only a service that records failures handles errors
  mayHandle := S .failingVersion

theorem answers_exec {β : Type} (a : Action β) (x : Input) (w : World) :
    a.Answers (exec a x w).1 := by
  obtain ⟨e, he⟩ | ⟨-, b, w', heffect, hb | ⟨e, he⟩⟩ := exec_cases a x w
  · rw [he]; trivial
  · rw [hb]
    obtain ⟨task, knows, call⟩ := a
    cases call with
    | query q =>
      obtain ⟨b', hq, hb'⟩ := map_eq_ok.1 heffect
      cases hb'
      exact (Query.answer_spec hq).1
    | _ => trivial
  · rw [he]; trivial

end Knowledge
end RagflowAgent
