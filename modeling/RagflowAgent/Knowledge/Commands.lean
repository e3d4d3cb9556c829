import RagflowAgent.Knowledge.Application.Reconcile
import RagflowAgent.Knowledge.Conduct.Ingestion

/-!
# Commands

`Command` is what a caller can ask for, `Command.service` the service that does it, and
`system` the configuration of any number of callers over one world.  Everything that is
proved about runs of the system rests on `disciplined_service`: a command keeps to the
catalogue of `Transactions`, at the tasks `Command.tasks`.
-/

namespace RagflowAgent
namespace Knowledge

open Interleaving Discipline

variable {α : Type} {τ : Type} {S : Task → Prop} {knows known : List Fact}

/-! ## The reconciler -/

namespace LifecycleReconciler

variable {context : AuthorizationContext}

theorem conducts_collect {p : α → Service (List ReconciliationFinding)} {l : List α}
    (hp : ∀ a ∈ l, ∀ known, Conducts S (p a) (fun _ _ => True) known) :
    Conducts S (collect p l) (fun _ _ => True) known := by
  induction l generalizing known with
  | nil => exact Conducts.ret trivial
  | cons a l ih =>
    refine Conducts.bind (hp a List.mem_cons_self known) fun found _ _ => ?_
    refine Conducts.bind (ih fun b hb => hp b (List.mem_cons_of_mem a hb)) fun rest _ _ => ?_
    exact Conducts.ret trivial

theorem conducts_checkOperation {operation : LifecycleOperation} (hS : S .reconciling) :
    Conducts S (checkOperation context operation) (fun _ _ => True) known := by
  refine Conducts.ask hS trivial (List.nil_subset _) fun document _ => ?_
  refine Conducts.ask hS trivial (List.nil_subset _) fun version _ => ?_
  split
  · refine Conducts.ask hS trivial (List.nil_subset _) fun count _ => ?_
    refine Conducts.ask hS trivial (List.nil_subset _) fun found _ => ?_
    split <;> exact Conducts.ret trivial
  · exact Conducts.ret trivial

theorem conducts_checkObject {dryRun : Bool} {versions : List DocumentVersion}
    {objectKey : String} (hS : S .reconciling) :
    Conducts S (checkObject context [] dryRun versions objectKey) (fun _ _ => True) known := by
  unfold checkObject
  split
  · exact Conducts.ret trivial
  · dsimp only
    split
    · exact Conducts.ret trivial
    · exact Conducts.ask hS Moves.reconcile (List.nil_subset _) fun _ _ => Conducts.ret trivial

theorem conducts_checkProjection {dryRun : Bool} {versions : List DocumentVersion}
    {projection : String × String × String} (hS : S .reconciling) :
    Conducts S (checkProjection context [] dryRun versions projection) (fun _ _ => True)
      known := by
  unfold checkProjection
  dsimp only
  split
  · exact Conducts.ret trivial
  · split
    · exact Conducts.ret trivial
    · exact Conducts.ask hS .reconcile (List.nil_subset _) fun _ _ => Conducts.ret trivial

theorem conducts_run {limit staleBefore : ℕ} {dryRun : Bool} (hS : S .reconciling) :
    Conducts S (run context limit staleBefore dryRun) (fun _ _ => True) known := by
  refine Conducts.ask hS trivial (List.nil_subset _) fun operations _ => ?_
  refine Conducts.ask hS trivial (List.nil_subset _) fun now _ => ?_
  refine Conducts.ask hS trivial (List.nil_subset _) fun outbox _ => ?_
  refine Conducts.ask hS trivial (List.nil_subset _) fun versions _ => ?_
  refine Conducts.ask hS trivial (List.nil_subset _) fun documents _ => ?_
  refine Conducts.bind (conducts_collect fun _ _ _ => conducts_checkOperation hS)
    fun drift _ _ => ?_
  refine Conducts.ask hS trivial (List.nil_subset _) fun objects _ => ?_
  refine Conducts.bind (conducts_collect fun _ _ _ => conducts_checkObject hS)
    fun orphanObjects _ _ => ?_
  refine Conducts.ask hS trivial (List.nil_subset _) fun projections _ => ?_
  refine Conducts.bind (conducts_collect fun _ _ _ => conducts_checkProjection hS)
    fun orphanProjections _ _ => ?_
  exact Conducts.ask hS trivial (List.nil_subset _) fun now _ => Conducts.ret trivial

end LifecycleReconciler

/-! ## Commands -/

/-- What a caller can ask for. -/
inductive Command where
  | submit (command : UploadService.UploadDocumentCommand)
  | update (command : DocumentUpdateService.UpdateDocumentCommand)
  | reparse (command : DocumentUpdateService.ReparseDocumentCommand)
  | handle (envelope : IngestionEnvelope) (deliveryAttempt : ℕ)
  | completeIngestion (context : AuthorizationContext) (operationId indexVersionId : String)
  | rollback (context : AuthorizationContext)
      (documentId targetVersionId idempotencyKey reason : String)
  | requestDelete (context : AuthorizationContext) (documentId idempotencyKey reason : String)
  | restore (context : AuthorizationContext) (documentId idempotencyKey reason : String)
  | purge (context : AuthorizationContext) (documentId reason : String)
      (enforcePermission : Bool)
  | cancel (context : AuthorizationContext) (operationId : String)
  | reconcile (context : AuthorizationContext) (limit staleBefore : ℕ) (dryRun : Bool)

namespace Command

/-- The service that does what a command asks for.  What it returns is forgotten: other
callers only see what it does. -/
def service (settings : Settings) : Command → Service Unit
  | submit command => (UploadService.submit settings command).void
  | update command => (DocumentUpdateService.update settings command).void
  | reparse command => (DocumentUpdateService.reparse settings command).void
  | handle envelope deliveryAttempt =>
    (IngestionPipeline.handle settings envelope deliveryAttempt).void
  | completeIngestion context operationId indexVersionId =>
    (DocumentVersionPublisher.completeIngestion settings context operationId
      indexVersionId).void
  | rollback context documentId targetVersionId idempotencyKey reason =>
    (DocumentVersionPublisher.rollback settings context documentId targetVersionId
      idempotencyKey reason).void
  | requestDelete context documentId idempotencyKey reason =>
    (DocumentDeletionService.requestDelete settings context documentId idempotencyKey
      reason).void
  | restore context documentId idempotencyKey reason =>
    (DocumentDeletionService.restore settings context documentId idempotencyKey reason).void
  | purge context documentId reason enforcePermission =>
    (DocumentDeletionService.purge context documentId reason enforcePermission).void
  | cancel context operationId => (LifecycleControlService.cancel context operationId).void
  | reconcile context limit staleBefore dryRun =>
    (LifecycleReconciler.run context limit staleBefore dryRun).void

/-- The tasks a command is about. -/
def tasks : Command → Task → Prop
  | submit _, t => t ∈ [.reading, .submitting]
  | update _, t => t ∈ [.reading, .registering]
  | reparse _, t => t ∈ [.reading, .registering]
  | handle _ _, _ => True
  | completeIngestion _ _ _, t => t ∈ [.publishing, .retiring]
  | rollback _ _ _ _ _, t => t ∈ [.rollingBack, .publishing, .retiring]
  | requestDelete _ _ _ _, t => t ∈ [.deleting, .retiring]
  | restore _ _ _ _, t => t = .restoring
  | purge _ _ _ _, t => t = .purging
  | cancel _ _, t => t = .cancelling
  | reconcile _ _ _ _, t => t = .reconciling

end Command

/-- Only a delivery saves a document blindly, and only a delivery handles errors. -/
theorem Command.not_activating_of_ne_handle {command : Command}
    (h : ∀ envelope deliveryAttempt, command ≠ .handle envelope deliveryAttempt) (t : Task)
    (ht : command.tasks t) : t ≠ .activating ∧ t ≠ .failingVersion := by
  cases command with
  | handle envelope deliveryAttempt => exact absurd rfl (h envelope deliveryAttempt)
  | _ =>
    constructor <;>
      · rintro rfl
        simp [tasks] at ht

/-- **A command keeps to the catalogue**, at its own tasks. -/
theorem disciplined_service {settings : Settings} {command : Command}
    (hS : ∀ t, command.tasks t → S t) : (conduct S).Disciplined (command.service settings) := by
  cases command with
  | submit command =>
    obtain ⟨hreading, hsubmitting⟩ : S .reading ∧ S .submitting := by simpa [Command.tasks] using hS
    exact Disciplined.void (UploadService.conducts_submit hreading hsubmitting)
  | update command =>
    obtain ⟨hreading, hregistering⟩ : S .reading ∧ S .registering := by
      simpa [Command.tasks] using hS
    exact Disciplined.void (DocumentUpdateService.conducts_update hreading hregistering)
  | reparse command =>
    obtain ⟨hreading, hregistering⟩ : S .reading ∧ S .registering := by
      simpa [Command.tasks] using hS
    exact Disciplined.void (DocumentUpdateService.conducts_reparse hreading hregistering)
  | handle envelope deliveryAttempt =>
    obtain rfl : S = fun _ => True := funext fun t => eq_true (hS t trivial)
    exact Disciplined.void IngestionPipeline.conducts_handle
  | completeIngestion context operationId indexVersionId =>
    obtain ⟨hpublishing, hretiring⟩ : S .publishing ∧ S .retiring := by
      simpa [Command.tasks] using hS
    exact Disciplined.void (DocumentVersionPublisher.conducts_completeIngestion hpublishing
      hretiring (.inl rfl) (List.Subset.refl _))
  | rollback context documentId targetVersionId idempotencyKey reason =>
    obtain ⟨hrollingBack, hpublishing, hretiring⟩ :
        S .rollingBack ∧ S .publishing ∧ S .retiring := by simpa [Command.tasks] using hS
    exact Disciplined.void
      (DocumentVersionPublisher.conducts_rollback hrollingBack hpublishing hretiring)
  | requestDelete context documentId idempotencyKey reason =>
    obtain ⟨hdeleting, hretiring⟩ : S .deleting ∧ S .retiring := by
      simpa [Command.tasks] using hS
    exact Disciplined.void (DocumentDeletionService.conducts_requestDelete hdeleting hretiring)
  | restore context documentId idempotencyKey reason =>
    exact Disciplined.void (DocumentDeletionService.conducts_restore (hS _ rfl))
  | purge context documentId reason enforcePermission =>
    exact Disciplined.void (DocumentDeletionService.conducts_purge (hS _ rfl))
  | cancel context operationId =>
    exact Disciplined.void (LifecycleControlService.conducts_cancel (hS _ rfl))
  | reconcile context limit staleBefore dryRun =>
    exact Disciplined.void (LifecycleReconciler.conducts_run (hS _ rfl))

/-- Any number of callers over one world. -/
def system (settings : Settings) (commands : τ → Command) (w : World) :
    Config Action Error Unit World τ :=
  ⟨w, fun t => (commands t).service settings⟩

section Runs

variable [DecidableEq τ] {settings : Settings} {commands : τ → Command} {w : World}

/-- What is left of every caller keeps to the catalogue. -/
def AllObedient (S : Task → Prop) (cfg : Config Action Error Unit World τ) : Prop :=
  ∀ t, (conduct S).Obedient (cfg.threads t)

omit [DecidableEq τ] in
theorem allObedient_system (hS : ∀ t task, (commands t).tasks task → S task) :
    AllObedient S (system settings commands w) :=
  fun t => (disciplined_service (hS t)).obedient

/-- At every moment of every run what is left of the commands keeps to the catalogue. -/
theorem AllObedient.run {cfg : Config Action Error Unit World τ} (h : AllObedient S cfg)
    (l : List (τ × Input)) : AllObedient S (cfg.run exec l) :=
  fun t => obedient_run answers_exec h l t

theorem AllObedient.step {cfg : Config Action Error Unit World τ} (h : AllObedient S cfg)
    (t : τ) (x : Input) : AllObedient S (cfg.step exec t x) :=
  h.run [(t, x)]

end Runs

/-! ## A small tenant

One document with one ready version and one indexed chunk.  The runs that show where a
property fails, and that its conditions can be met, start here. -/

namespace Sample

/-- The SHA-256 digests of the texts that occur in the small runs. -/
def sha256 (s : String) : String :=
  ([("delete\x1fd\x1fr", "4616ebd15e144926851665d04d05096c0ace0751bf41965ba355ff7972b8ece7"),
    ("restore\x1fd\x1fr",
      "1b5ec4f27c590cc8e9c596a671ee3ed40ad416ba740a9f267f2eb8e1b47a1c66"),
    ("reparse\x1fd\x1fr\x1f",
      "52d933c9266801ad7671b7a8eb3fc888a2f01d8529516e11c7ddebc69f55e93a"),
    ("t\x1fk", "20952d1c98ce87cb14409ca4539436742675f73065d00c986752dd21a29851de"),
    ("text",
      "982d9e3eb996f559e633f4d194def3761d909f5a3b647d1a851fead67c32c9d1")].lookup s).getD ""

def settings : Settings where
  sha256 := sha256
  profile := ⟨"fixed", "1", 100, "model"⟩

def context : AuthorizationContext where
  tenantId := "t"
  actorId := "owner"
  requestId := "request"

def version : DocumentVersion where
  id := "v"
  tenantId := "t"
  knowledgeBaseId := "kb"
  documentId := "d"
  createdBy := "owner"
  objectKey := "tenants/t/uploads/job/source"
  mediaType := "text/plain"
  contentHash := "hash"
  sizeBytes := 1
  status := .ready
  createdAt := 0
  updatedAt := 0

def document : Document where
  id := "d"
  tenantId := "t"
  knowledgeBaseId := "kb"
  ownerId := "owner"
  name := "name"
  currentVersionId := some "v"
  revision := 1
  createdAt := 0
  updatedAt := 0

def chunk : IndexedChunk where
  indexVersionId := "idx_v"
  tenantId := "t"
  knowledgeBaseId := "kb"
  ownerId := "owner"
  visibility := .ownerOnly
  documentId := "d"
  documentVersionId := "v"
  chunkId := "c"
  content := "text"
  mediaType := "text/plain"
  createdAt := 0
  active := true
  lifecycleFencingToken := some 0
  embedding := [1]

def world : World where
  store := (Store.empty.put .documents ⟨[document], by simp⟩).put .documentVersions
    ⟨[version], by simp⟩
  index := { dimensions := 1, chunks := [chunk] }
  objects := ["tenants/t/uploads/job/source"]

/-! ### The document is parsed again -/

def reparse : Command :=
  .reparse { context := context, documentId := "d", idempotencyKey := "k", reason := "r" }

/-- A call that succeeds; where the text of the document is cut, it makes one chunk of the
version `versionId`. -/
def inputOf (versionId : String) : Input where
  now := 1
  chunks := [⟨"c" ++ versionId, "t", "kb", "d", versionId, "text", {}⟩]
  embedded := { modelId := "model", dimensions := 1, vectors := [⟨"c" ++ versionId, [1]⟩] }

/-- Thread `t` registers the version `v2` with the operation `o`. -/
def reparses {τ : Type} (t : τ) : List (τ × Input) :=
  List.replicate 3 (t, inputOf "v2") ++
    [(t, { inputOf "v2" with newId := "v2" }), (t, inputOf "v2"),
      (t, { inputOf "v2" with newId := "o" })] ++
    List.replicate 2 (t, inputOf "v2")

def reparseJobId : String := "lifecycle_job_20952d1c98ce87cb14409ca4"

/-- The envelope of the reparse, as its outbox event has it. -/
def reparseEnvelope : IngestionEnvelope where
  messageId := "lifecycle-ingestion:o"
  tenantId := "t"
  jobId := reparseJobId
  taskId := reparseJobId ++ ":parse"
  documentVersionId := "v2"
  stage := .parse
  attempt := 1
  idempotencyKey := "k:parse"
  traceId := "request"
  createdAt := 1

/-! ### The same tenant from the beginning -/

def knowledgeBase : KnowledgeBase where
  id := "kb"
  tenantId := "t"
  ownerId := "owner"
  name := "name"
  createdAt := 0
  updatedAt := 0

/-- A database with one knowledge base and nothing else. -/
def fresh : World where
  store := Store.empty.put .knowledgeBases ⟨[knowledgeBase], by simp⟩
  index := { dimensions := 1 }

def upload : Command :=
  .submit {
    context := context
    knowledgeBaseId := "kb"
    fileName := "source"
    mediaType := "text/plain"
    content := "text"
    idempotencyKey := "k" }

/-- The calls about the first version. -/
def input : Input := inputOf "v"

/-- Thread `t` uploads the document `d` with the version `v`. -/
def uploads {τ : Type} (t : τ) : List (τ × Input) :=
  List.replicate 5 (t, input) ++
    [(t, { input with newId := "d" }), (t, { input with newId := "v" })] ++
    List.replicate 4 (t, input)

def jobId : String := "job_20952d1c98ce87cb14409ca453943674"

/-- The envelope that the upload publishes. -/
def envelope : IngestionEnvelope where
  messageId := "ingestion:" ++ jobId
  tenantId := "t"
  jobId := jobId
  taskId := jobId ++ ":parse"
  documentVersionId := "v"
  stage := .parse
  attempt := 1
  idempotencyKey := "k:parse"
  traceId := "request"
  createdAt := 1

end Sample

end Knowledge
end RagflowAgent
