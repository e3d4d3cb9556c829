import RagflowAgent.Knowledge.Conduct.Lifecycle

/-!
# Upload, update and ingestion keep to the catalogue

The walks of the services that bring content in: `conducts_update`, `conducts_reparse`,
`conducts_submit` and, stage by stage, `conducts_handle`.  Everything that a stage needs to
know it has read when the delivery began, so the stages have one shape of walk: they start
from the facts of the loaded rows and keep them (`Keeps`).
-/

namespace RagflowAgent
namespace Knowledge

open Interleaving Discipline Keyed

variable {α β γ : Type} {S : Task → Prop} {task : Task} {knows known : List Fact}

/-! ## Update -/

namespace DocumentUpdateService

variable {settings : Settings}

theorem conducts_register {request : RegisterRequest} (hS : S .registering)
    (hobject : ∀ objectKey ∈ request.storedObject,
      objectKey = request.objectKey ∧ Fact.put objectKey ∈ knows)
    (hknown : knows ⊆ known) :
    Conducts S (register settings request knows) (fun _ _ => True) known := by
  refine Conducts.ask hS trivial hknown fun now _ => ?_
  refine Conducts.ask hS trivial (List.Subset.refl _) fun operationId _ => ?_
  refine Conducts.ask hS trivial (List.subset_append_left _ _) fun document hdoc => ?_
  cases document with
  | none => exact Conducts.raise
  | some document =>
    refine Conducts.lift fun _ _ => ?_
    split
    · exact Conducts.raise
    · rename_i currentVersionId hcurrent
      refine Conducts.ask hS (.registration (by simp) (by simp)
        (congrArg Prod.fst (hdoc document rfl).1) hcurrent fun objectKey ho => ?_)
        (subset_append_row .documents _ _ (some document)) fun _ _ => Conducts.ret trivial
      exact ⟨(hobject objectKey ho).1, by simp [(hobject objectKey ho).2]⟩

theorem conducts_existing {context : AuthorizationContext} {documentId idempotencyKey : String}
    {kind : LifecycleOperationKind} {fingerprint : String} (hS : S .reading) :
    Conducts S (existing settings context documentId idempotencyKey kind fingerprint)
      (fun _ _ => True) known := by
  refine Conducts.ask hS trivial (List.nil_subset _) fun operation _ => ?_
  cases operation with
  | none => exact Conducts.ret trivial
  | some operation =>
    refine Conducts.raiseWhen fun _ => ?_
    refine Conducts.ask hS trivial (List.nil_subset _) fun document _ => ?_
    refine Conducts.ask hS trivial (List.nil_subset _) fun job _ => ?_
    refine Conducts.ask hS trivial (List.nil_subset _) fun event _ => ?_
    cases document with
    | none => exact Conducts.raise
    | some document =>
      refine Conducts.lift fun _ _ => ?_
      split
      · exact Conducts.raise
      · exact Conducts.raise
      · exact Conducts.ret trivial

theorem conducts_requireDocumentWrite {context : AuthorizationContext} {documentId : String}
    (hS : S .reading) :
    Conducts S (requireDocumentWrite context documentId) (fun _ _ => True) known := by
  refine Conducts.ask hS trivial (List.nil_subset _) fun document _ => ?_
  cases document with
  | none => exact Conducts.raise
  | some document => exact Conducts.lift' fun _ _ => trivial

theorem conducts_update {command : UpdateDocumentCommand} (hreading : S .reading)
    (hregistering : S .registering) :
    Conducts S (update settings command) (fun _ _ => True) known := by
  refine Conducts.raiseWhen fun _ => ?_
  refine Conducts.bind (conducts_existing hreading) fun submitted _ _ => ?_
  cases submitted with
  | some submitted => exact Conducts.ret trivial
  | none =>
    refine Conducts.bind (conducts_requireDocumentWrite hreading) fun _ _ _ => ?_
    refine Conducts.ask hreading trivial (List.nil_subset _) fun versionId _ => ?_
    refine Conducts.ask hreading Moves.put (List.nil_subset _) fun _ _ => ?_
    refine conducts_register hregistering (fun objectKey ho => ?_) (List.Subset.refl _)
    cases ho
    exact ⟨rfl, List.mem_cons_self⟩

theorem conducts_reparse {command : ReparseDocumentCommand} (hreading : S .reading)
    (hregistering : S .registering) :
    Conducts S (reparse settings command) (fun _ _ => True) known := by
  refine Conducts.bind (conducts_existing hreading) fun submitted _ _ => ?_
  cases submitted with
  | some submitted => exact Conducts.ret trivial
  | none =>
    refine Conducts.ask hreading trivial (List.nil_subset _) fun document _ => ?_
    split
    · refine Conducts.lift fun _ _ => ?_
      refine Conducts.ask hreading trivial (List.nil_subset _) fun current _ => ?_
      cases current with
      | none => exact Conducts.raise
      | some current =>
        refine Conducts.ask hreading trivial (List.nil_subset _) fun versionId _ => ?_
        exact conducts_register hregistering (by simp) (List.nil_subset _)
    · exact Conducts.raise

end DocumentUpdateService

/-! ## Upload -/

theorem KnowledgeService.conducts_registerDocument {command : RegisterDocumentCommand}
    (hS : S .submitting) (hput : Fact.put command.objectKey ∈ knows) (hknown : knows ⊆ known) :
    Conducts S (registerDocument command knows)
      (fun _ l => knows ⊆ l) known := by
  refine Conducts.ask hS trivial hknown fun now _ => ?_
  refine Conducts.ask hS trivial (List.Subset.refl _) fun knowledgeBase _ => ?_
  cases knowledgeBase with
  | none => exact Conducts.raise
  | some knowledgeBase =>
    refine Conducts.lift fun _ _ => ?_
    refine Conducts.ask hS trivial (List.subset_append_left _ _) fun documentId _ => ?_
    refine Conducts.ask hS trivial (List.subset_append_left _ _) fun versionId _ => ?_
    refine Conducts.ask hS (.submission (List.mem_append_left _ hput))
      (List.subset_append_left _ _) fun _ _ => ?_
    refine Conducts.ask hS trivial (List.subset_append_left _ _) fun _ _ => Conducts.ret ?_
    exact List.Subset.trans (List.subset_append_left _ _) (List.subset_append_left _ _)

namespace UploadService

variable {settings : Settings}

theorem conducts_republishPending {job : IngestionJob} (hS : S .reading) :
    Conducts S (republishPending job) (fun _ _ => True) known := by
  unfold republishPending
  split
  · exact Conducts.ret trivial
  · refine Conducts.ask hS trivial (List.nil_subset _) fun tasks _ => ?_
    split
    · exact Conducts.raise
    · refine Conducts.ask hS trivial (List.nil_subset _) fun now _ => ?_
      exact Conducts.ask hS trivial (List.nil_subset _) fun _ _ => Conducts.ret trivial

theorem conducts_submit {command : UploadDocumentCommand} (hreading : S .reading)
    (hsubmitting : S .submitting) :
    Conducts S (submit settings command) (fun _ _ => True) known := by
  refine Conducts.lift fun _ _ => ?_
  refine Conducts.ask hreading trivial (List.nil_subset _) fun existing _ => ?_
  cases existing with
  | some existing =>
    refine Conducts.raiseWhen fun _ => ?_
    exact Conducts.bind (conducts_republishPending hreading) fun _ _ _ => Conducts.ret trivial
  | none =>
    refine Conducts.ask hreading trivial (List.nil_subset _) fun now _ => ?_
    refine Conducts.ask hreading Moves.put (List.subset_append_right _ _) fun _ _ => ?_
    refine Conducts.bind (KnowledgeService.conducts_registerDocument hsubmitting
      List.mem_cons_self ?_) fun registered l hl => ?_
    · intro f hf
      simp only [List.mem_cons, List.not_mem_nil, or_false] at hf
      rcases hf with rfl | rfl
      · exact List.mem_append_right _ List.mem_cons_self
      · exact List.mem_append_left _ List.mem_cons_self
    refine Conducts.ask hsubmitting .jobs ?_ fun _ _ => ?_
    · exact List.Subset.trans (List.subset_cons_self _ _) hl
    exact Conducts.ask hreading trivial (List.nil_subset _) fun _ _ => Conducts.ret trivial

end UploadService

/-! ## The pipeline -/

/-- `p` keeps to the catalogue, at any task, and does not forget `knows`. -/
def Keeps (p : Service α) (knows : List Fact) : Prop :=
  ∀ known, knows ⊆ known → Conducts (fun _ => True) p (fun _ l => knows ⊆ l) known

theorem Keeps.ret (a : α) : Keeps (.ret a) knows := fun _ h => h

theorem Keeps.bind {p : Service β} {f : β → Service α} (hp : Keeps p knows)
    (hf : ∀ b, Keeps (f b) knows) : Keeps (p.bind f) knows :=
  fun known h => Conducts.bind (hp known h) fun b l hl => hf b l hl

/-- A piece that knows more forgets less. -/
theorem Keeps.conducts {p : Service α} {more : List Fact} (hp : Keeps p (knows ++ more))
    (h : knows ++ more ⊆ known) :
    Conducts (fun _ => True) p (fun _ l => knows ⊆ l) known :=
  (hp known h).mono fun _ _ hl => List.Subset.trans (List.subset_append_left _ _) hl

namespace IngestionPipeline

variable {settings : Settings} {envelope : IngestionEnvelope} {job : IngestionJob}

theorem keeps_saveJob : Keeps (saveJob knows job) knows :=
  fun _ h => Conducts.ask' trivial .job h fun _ _ => List.subset_append_left _ _

theorem keeps_saveTask {task : IngestionTask} : Keeps (saveTask knows task) knows :=
  fun _ h => Conducts.ask' trivial .task h fun _ _ => List.subset_append_left _ _

theorem keeps_startTask {task : IngestionTask} : Keeps (startTask knows task) knows := by
  intro known h
  unfold startTask
  split
  · exact Conducts.ret h
  · refine Conducts.ask trivial trivial h fun now _ => Conducts.lift fun task' _ => ?_
    exact Conducts.bind (keeps_saveTask.conducts (List.Subset.refl _)) fun _ _ hl =>
      Conducts.ret hl
  · refine Conducts.ask trivial trivial h fun now _ => Conducts.lift fun task' _ => ?_
    exact Conducts.bind (keeps_saveTask.conducts (List.Subset.refl _)) fun _ _ hl =>
      Conducts.ret hl
  · exact Conducts.bind (keeps_saveTask _ h) fun _ _ hl => Conducts.ret hl
  · exact Conducts.bind (keeps_saveTask _ h) fun _ _ hl => Conducts.ret hl

theorem keeps_succeedTask {task : IngestionTask} : Keeps (succeedTask knows task) knows := by
  intro known h
  unfold succeedTask
  split
  · exact Conducts.ret h
  · refine Conducts.ask trivial trivial h fun now _ => Conducts.lift fun task' _ => ?_
    exact keeps_saveTask.conducts (List.Subset.refl _)

theorem conducts_progress {q : ℚ} (h : knows ⊆ known) :
    Conducts (fun _ => True) (progress knows job q)
      (fun job' l => knows ⊆ l ∧ job'.tenantId = job.tenantId) known := by
  refine Conducts.ask trivial trivial h fun now _ => ?_
  refine Conducts.bind (keeps_saveJob.conducts (List.Subset.refl _)) fun _ l hl => ?_
  split
  · exact Conducts.ret ⟨hl, rfl⟩
  · refine Conducts.ask trivial trivial hl fun operation _ => ?_
    cases operation with
    | none => exact Conducts.ret ⟨List.subset_append_left _ _, rfl⟩
    | some operation =>
      refine Conducts.ask trivial trivial
        (append_subset_append_right (ofRow_subset_facts .lifecycleOperations _ _ operation))
        fun now _ => Conducts.lift fun updated hupdated => ?_
      refine Conducts.ask trivial (.progress (List.Subset.trans (List.subset_append_right _ _)
        (List.subset_append_left _ _)) (by simp) hupdated) (List.Subset.refl _) fun _ _ => ?_
      refine Conducts.ret ⟨List.Subset.trans ?_ (List.subset_append_left _ _), rfl⟩
      exact List.Subset.trans (List.subset_append_left _ _) (List.subset_append_left _ _)

/-- The cancellation check returns what it has seen: that the operation of the job is not
cancelled. -/
theorem conducts_requireLifecycleActive (h : knows ⊆ known) :
    Conducts (fun _ => True) (requireLifecycleActive knows job)
      (fun seen l => knows ++ seen ⊆ l ∧ ∀ operationId ∈ job.operationId,
        ∃ operation, Fact.uncancelled operation ∈ seen ∧
          key operation = (job.tenantId, operationId)) known := by
  unfold requireLifecycleActive
  split
  · rename_i hnone
    exact Conducts.ret ⟨by simpa using h, by simp [hnone]⟩
  · rename_i operationId hsome
    refine Conducts.ask trivial trivial h fun operation hoperation => ?_
    cases operation with
    | none => exact Conducts.raise
    | some operation =>
      refine Conducts.lift fun _ hactive => Conducts.ret ⟨?_, fun operationId' h' => ?_⟩
      · exact append_subset_append_right (ofRow_subset_facts .lifecycleOperations _ _ operation)
      · obtain rfl : operationId = operationId' := Option.some.inj (hsome.symm.trans h')
        have hcancelled : ¬ operation.Cancelled := by
          rw [LifecycleOperation.Cancelled, requireNotCancelled_eq_ok.1 hactive]
          exact Bool.false_ne_true
        exact ⟨operation, by simp [Fact.ofRow, hcancelled], (hoperation operation rfl).1⟩

theorem keeps_requireLifecycleActive : Keeps (requireLifecycleActive knows job) knows :=
  fun _ h => (conducts_requireLifecycleActive h).mono fun _ _ hl =>
    List.Subset.trans (List.subset_append_left _ _) hl.1

/-- A job keeps its tenant and its operation along its transitions. -/
theorem scope_of_transitionIngestion {job' : IngestionJob} {target : IngestionStatus}
    {q : ℚ} {now : ℕ} {error : Option IngestionError}
    (h : transitionIngestion job target q now error = .ok job') :
    job'.tenantId = job.tenantId ∧ job'.operationId = job.operationId := by
  obtain ⟨-, ⟨-, rfl⟩ | ⟨-, -, rfl⟩⟩ := transitionIngestion_eq_ok h <;> exact ⟨rfl, rfl⟩

theorem conducts_prepare (h : knows ⊆ known) :
    Conducts (fun _ => True) (prepare knows job)
      (fun job' l => knows ⊆ l ∧ job'.tenantId = job.tenantId) known := by
  unfold prepare
  split
  · exact Conducts.ask trivial trivial h fun now _ => Conducts.lift' fun _ hjob =>
      ⟨List.subset_append_left _ _, (scope_of_transitionIngestion hjob).1⟩
  · exact Conducts.ret ⟨h, rfl⟩

theorem keeps_saveIfPending {pending : Bool} : Keeps (saveIfPending knows pending job) knows := by
  unfold saveIfPending
  split
  · exact keeps_saveJob
  · exact Keeps.ret _

theorem conducts_startVersion {version : DocumentVersion}
    (hversion : Fact.stored .documentVersions version ∈ knows) (h : knows ⊆ known) :
    Conducts (fun _ => True) (startVersion knows version)
      (fun started l => knows ⊆ l ∧ started.SameScope version) known := by
  unfold startVersion
  split
  · rename_i hregistered
    refine Conducts.ask trivial trivial h fun now _ => Conducts.lift fun started hstarted => ?_
    refine Conducts.ask trivial (.startVersion (List.mem_append_left _ hversion) hregistered
      hstarted) (List.Subset.refl _) fun _ _ => Conducts.ret ⟨?_, ?_⟩
    · exact List.Subset.trans (List.subset_append_left _ _) (List.subset_append_left _ _)
    · exact sameScope_of_transitionDocumentVersion hstarted
  · exact Conducts.ret ⟨h, .refl _⟩

theorem conducts_parseStage {pending : Bool} {tasks : List IngestionTask}
    {version : DocumentVersion} (hversion : Fact.stored .documentVersions version ∈ knows)
    (h : knows ⊆ known) :
    Conducts (fun _ => True) (parseStage knows pending tasks version job)
      (fun r l => knows ⊆ l ∧ r.1.tenantId = job.tenantId ∧ r.2.1.SameScope version)
      known := by
  refine Conducts.bind (keeps_saveIfPending _ h) fun _ l hl => ?_
  refine Conducts.bind (conducts_startVersion hversion hl) fun started l hl => ?_
  refine Conducts.bind (keeps_requireLifecycleActive _ hl.1) fun _ l hl' => ?_
  refine Conducts.lift fun task _ => Conducts.bind (keeps_startTask _ hl') fun task l hl' => ?_
  refine Conducts.ask trivial trivial hl' fun parsed _ => ?_
  refine Conducts.bind (keeps_succeedTask _ (List.subset_append_left _ _)) fun _ l hl' => ?_
  exact Conducts.bind (conducts_progress hl') fun _ l hl' =>
    Conducts.ret ⟨hl'.1, hl'.2, hl.2⟩

theorem conducts_chunkStage {tasks : List IngestionTask} {parsed : ParsedDocument}
    (h : knows ⊆ known) :
    Conducts (fun _ => True) (chunkStage settings knows tasks parsed job)
      (fun r l => knows ⊆ l ∧ r.1.tenantId = job.tenantId) known := by
  refine Conducts.bind (keeps_requireLifecycleActive _ h) fun _ l hl => ?_
  refine Conducts.lift fun task _ => Conducts.bind (keeps_startTask _ hl) fun task l hl => ?_
  refine Conducts.ask trivial trivial hl fun chunks _ => Conducts.raiseWhen fun _ => ?_
  refine Conducts.bind (keeps_succeedTask _ (List.subset_append_left _ _)) fun _ l hl => ?_
  exact Conducts.bind (conducts_progress hl) fun _ l hl => Conducts.ret hl

theorem conducts_embedStage {tasks : List IngestionTask} {chunks : List ChunkRecord}
    (h : knows ⊆ known) :
    Conducts (fun _ => True) (embedStage settings knows tasks chunks job)
      (fun r l => knows ⊆ l ∧ r.1.tenantId = job.tenantId) known := by
  refine Conducts.bind (keeps_requireLifecycleActive _ h) fun _ l hl => ?_
  refine Conducts.lift fun task _ => Conducts.bind (keeps_startTask _ hl) fun task l hl => ?_
  refine Conducts.ask trivial trivial hl fun embedded _ => Conducts.raiseWhen fun _ => ?_
  refine Conducts.bind (keeps_succeedTask _ (List.subset_append_left _ _)) fun _ l hl => ?_
  exact Conducts.bind (conducts_progress hl) fun _ l hl => Conducts.ret hl

theorem keeps_indexRecords {indexVersionId : String} {document : Document}
    {version : DocumentVersion} {embedded : EmbeddingResult} {chunks : List ChunkRecord} :
    Keeps (indexRecords knows indexVersionId document version embedded chunks) knows := by
  induction chunks with
  | nil => exact Keeps.ret _
  | cons chunk chunks ih =>
    refine fun known h => Conducts.ask trivial trivial h fun now _ => ?_
    exact Conducts.bind (ih _ (List.subset_append_left _ _)) fun _ _ hl => Conducts.ret hl

/-- What making a version current leaves: without an operation the document in hand is
activated and nothing is forgotten. -/
theorem conducts_makeCurrent {context : AuthorizationContext} {document : Document}
    {loaded version : DocumentVersion} {indexVersion : IndexVersion}
    (hversion : Fact.stored .documentVersions loaded ∈ knows)
    (hscope : version.SameScope loaded) (hready : version.status = .ready)
    (hjob : job.tenantId = context.tenantId) (h : knows ⊆ known) :
    Conducts (fun _ => True)
      (makeCurrent settings context knows document version indexVersion job)
      (fun active l => job.operationId = none →
        knows ⊆ l ∧ ∃ now, activateDocumentVersion document version now = .ok active)
      known := by
  unfold makeCurrent
  split
  · rename_i operationId hoperation
    refine Conducts.raiseWhen fun _ => ?_
    refine Conducts.ask trivial (.readyVersion hversion hscope hready) h fun _ _ => ?_
    refine Conducts.bind (conducts_requireLifecycleActive (List.subset_append_left _ _))
      fun seen l hl => ?_
    obtain ⟨seen', hseen, hkey⟩ := hl.2 operationId hoperation
    have hpublishes : Task.completing = .publishing ∨ Task.completing = .completing ∧
        ∃ o, Fact.uncancelled o ∈ knows ++ seen ∧ key o = (context.tenantId, operationId) :=
      .inr ⟨rfl, seen', List.mem_append_right _ hseen, hjob ▸ hkey⟩
    refine Conducts.bind (DocumentVersionPublisher.conducts_completeIngestion trivial trivial
      hpublishes hl.1) fun _ _ _ => Conducts.ret fun hnone => ?_
    rw [hoperation] at hnone
    cases hnone
  · refine Conducts.ask trivial .deactivate h fun _ _ => ?_
    refine Conducts.ask trivial .activate (List.subset_append_left _ _) fun _ _ => ?_
    refine Conducts.ask trivial trivial (List.subset_append_left _ _) fun now _ => ?_
    exact Conducts.lift' fun active hactive _ =>
      ⟨List.subset_append_left _ _, now, hactive⟩

theorem conducts_indexStage {context : AuthorizationContext} {tasks : List IngestionTask}
    {document : Document} {loaded version : DocumentVersion} {chunks : List ChunkRecord}
    {embedded : EmbeddingResult} (hversion : Fact.stored .documentVersions loaded ∈ knows)
    (hscope : version.SameScope loaded) (hjob : job.tenantId = context.tenantId)
    (h : knows ⊆ known) :
    Conducts (fun _ => True)
      (indexStage settings context knows tasks document version chunks embedded job)
      (fun r l => r.1.operationId = none → knows ⊆ l ∧ r.2.2.SameScope loaded ∧
        ∃ now, activateDocumentVersion document r.2.2 now = .ok r.2.1) known := by
  refine Conducts.bind (keeps_requireLifecycleActive _ h) fun _ l hl => ?_
  refine Conducts.lift fun task _ => Conducts.bind (keeps_startTask _ hl) fun task l hl => ?_
  refine Conducts.ask trivial trivial hl fun now _ => ?_
  refine Conducts.bind (keeps_indexRecords _ (List.subset_append_left _ _)) fun records l hl => ?_
  refine Conducts.ask trivial .upsert hl fun _ _ => ?_
  refine Conducts.bind (keeps_succeedTask _ (List.subset_append_left _ _)) fun _ l hl => ?_
  refine Conducts.ask trivial trivial hl fun now _ => Conducts.lift fun ready hready => ?_
  have hscope' : ready.SameScope loaded :=
    (sameScope_of_transitionDocumentVersion hready).trans hscope
  have hstatus : ready.status = .ready := status_of_transitionDocumentVersion hready
  refine Conducts.bind
    (conducts_makeCurrent hversion hscope' hstatus hjob (List.subset_append_left _ _))
    fun active l hactive => ?_
  refine Conducts.ask trivial trivial ?_ fun now _ => Conducts.lift fun job' hjob' =>
    Conducts.ret fun hnone => ?_
  · split
    · exact (hactive ‹_›).1
    · exact List.nil_subset _
  · rw [(scope_of_transitionIngestion hjob').2] at hnone
    refine ⟨?_, hscope', (hactive hnone).2⟩
    rw [if_pos hnone]
    exact List.subset_append_left _ _

theorem conducts_finish {document active : Document} {loaded version : DocumentVersion}
    (hdocument : Fact.stored .documents document ∈ knows)
    (honly : ∀ d, Fact.stored .documents d ∈ knows → d = document)
    (hversion : Fact.stored .documentVersions loaded ∈ knows)
    (h : job.operationId = none → knows ⊆ known ∧ version.SameScope loaded ∧
      ∃ now, activateDocumentVersion document version now = .ok active) :
    Conducts (fun _ => True) (finish knows active version job) (fun _ _ => True) known := by
  unfold finish
  split
  · obtain ⟨hknown, hscope, now, hactive⟩ := h ‹_›
    exact Conducts.ask trivial (.activation hdocument honly hversion hscope hactive) hknown
      fun _ _ => Conducts.ret trivial
  · exact Conducts.ask trivial .finishedJob (List.nil_subset _) fun _ _ => Conducts.ret trivial

/-! ## Failures and deliveries -/

variable {deliveryAttempt : ℕ}

theorem conducts_failTask {running : Option IngestionTask} {failure : IngestionError} :
    Conducts (fun _ => True) (failTask running failure) (fun _ _ => True) known := by
  unfold failTask
  split
  · exact Conducts.ret trivial
  · refine Conducts.ask trivial trivial (List.nil_subset _) fun now _ =>
      Conducts.lift fun failed _ => ?_
    exact (keeps_saveTask [.clock now] (List.Subset.refl _)).mono fun _ _ _ => trivial

theorem conducts_failVersion :
    Conducts (fun _ => True) (failVersion envelope) (fun _ _ => True) known := by
  refine Conducts.ask trivial trivial (List.nil_subset _) fun version _ => ?_
  cases version with
  | none => exact Conducts.ret trivial
  | some version =>
    dsimp only
    split
    · rename_i hingesting
      refine Conducts.ask trivial trivial
        (subset_append_row (l := []) .documentVersions _ _ (some version)) fun now _ =>
        Conducts.lift fun failed hfailed => ?_
      exact Conducts.ask' trivial (.failVersion (by simp) hingesting hfailed)
        (List.Subset.refl _) fun _ _ => trivial
    · exact Conducts.ret trivial

theorem conducts_failOperation {operationId : String} {failure : IngestionError} :
    Conducts (fun _ => True) (failOperation envelope operationId failure deliveryAttempt)
      (fun _ _ => True) known := by
  refine Conducts.ask trivial trivial (List.nil_subset _) fun operation _ => ?_
  cases operation with
  | none => exact Conducts.ret trivial
  | some operation =>
    refine Conducts.ask trivial trivial
      (subset_append_row (l := []) .lifecycleOperations _ _ (some operation)) fun now _ => ?_
    exact Conducts.ask' trivial (.failOperation (by simp)) (List.Subset.refl _)
      fun _ _ => trivial

theorem conducts_recordFailure {error : Error} :
    Conducts (fun _ => True) (recordFailure settings envelope deliveryAttempt job error)
      (fun _ _ => True) known := by
  refine Conducts.ask trivial trivial (List.nil_subset _) fun tasks _ =>
    Conducts.lift fun failure _ => Conducts.bind conducts_failTask fun _ _ _ => ?_
  split
  · refine Conducts.ask trivial trivial (List.nil_subset _) fun now _ =>
      Conducts.lift fun failed _ => ?_
    refine Conducts.bind (keeps_saveJob _ (List.Subset.refl _)) fun _ _ _ => ?_
    refine Conducts.bind conducts_failVersion fun _ _ _ => ?_
    split
    · exact Conducts.ret trivial
    · exact conducts_failOperation
  · exact Conducts.ret trivial

/-- The handler keeps to the catalogue, and it never returns. -/
theorem conducts_handleFailure {Q : α → List Fact → Prop} {error : Error} :
    Conducts (fun _ => True) (handleFailure settings envelope deliveryAttempt job error) Q
      known := by
  refine Conducts.bind conducts_recordFailure fun _ _ _ => ?_
  split <;> exact Conducts.raise

/-- A piece of the `try` block, with its handler. -/
theorem conducts_guarded {p : Service α} {Q : α → List Fact → Prop}
    (h : Conducts (fun _ => True) p Q known) :
    Conducts (fun _ => True) (p.attempt (handleFailure settings envelope deliveryAttempt job)) Q
      known :=
  Conducts.attempt trivial h fun _ _ => conducts_handleFailure

theorem conducts_run {loaded : Loaded} (hjob : loaded.job.tenantId = envelope.tenantId)
    (h : loaded.facts ⊆ known) :
    Conducts (fun _ => True) (run settings envelope deliveryAttempt loaded) (fun _ _ => True)
      known := by
  have hdocument : Fact.stored .documents loaded.document ∈ loaded.facts := by
    simp [Loaded.facts]
  have honly : ∀ d, Fact.stored .documents d ∈ loaded.facts → d = loaded.document := by
    simp [Loaded.facts]
  have hversion : Fact.stored .documentVersions loaded.version ∈ loaded.facts := by
    simp [Loaded.facts]
  refine Conducts.bind (conducts_guarded (conducts_prepare h)) fun job l hprepared => ?_
  refine Conducts.bind (conducts_guarded (conducts_parseStage hversion hprepared.1))
    fun parsed l hparsed => ?_
  refine Conducts.bind (conducts_guarded (conducts_chunkStage hparsed.1))
    fun chunked l hchunked => ?_
  refine Conducts.bind (conducts_guarded (conducts_embedStage hchunked.1))
    fun embedded l hembedded => ?_
  have htenant : embedded.1.tenantId = (workerContext envelope).tenantId := by
    rw [hembedded.2, hchunked.2, hparsed.2.1, hprepared.2, hjob]
    rfl
  refine Conducts.bind (conducts_guarded
    (conducts_indexStage hversion hparsed.2.2 htenant hembedded.1)) fun _ l hactive => ?_
  exact conducts_guarded (conducts_finish hdocument honly hversion hactive)

theorem conducts_load :
    Conducts (fun _ => True) (load envelope)
      (fun loaded l => loaded.facts ⊆ l ∧ loaded.job.tenantId = envelope.tenantId) known := by
  refine Conducts.ask trivial trivial (List.nil_subset _) fun job _ => ?_
  refine Conducts.ask trivial trivial (subset_append_row (l := []) .ingestionJobs _ _ job)
    fun tasks _ => ?_
  refine Conducts.ask trivial trivial (List.subset_append_left _ _) fun version _ => ?_
  cases job with
  | none => exact Conducts.raise
  | some job =>
    refine Conducts.ask trivial trivial (subset_append_row .documentVersions _ _ version)
      fun document _ => ?_
    cases version with
    | none => exact Conducts.raise
    | some version =>
      cases document with
      | none => exact Conducts.raise
      | some document =>
        refine Conducts.raiseWhen fun hscope => Conducts.ret ⟨?_, ?_⟩
        swap
        · rw [not_not, Prod.mk.injEq] at hscope
          exact hscope.1
        have hrow := stored_mem_ofRow (r := .documents) document
        intro f hf
        simp only [Loaded.facts, List.mem_cons, List.not_mem_nil, or_false] at hf
        rcases hf with rfl | rfl | rfl
        · simp [Fact.row]
        · exact List.mem_append_right _ (ofRow_subset_facts .documents _ _ document hrow)
        · simp [Fact.row]

theorem conducts_handle :
    Conducts (fun _ => True) (handle settings envelope deliveryAttempt) (fun _ _ => True)
      known := by
  refine Conducts.bind conducts_load fun loaded l hl => ?_
  split
  · exact Conducts.ret trivial
  · exact conducts_run hl.2 hl.1

end IngestionPipeline

end Knowledge
end RagflowAgent
