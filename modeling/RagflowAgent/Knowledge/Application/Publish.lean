import RagflowAgent.Knowledge.World

/-!
# Publication and rollback

`DocumentVersionPublisher` makes an indexed version the current one of its document.  It
promotes the version in the index, then switches the document row by a conditional update,
and when that has committed it switches the previous version off in the index.

* `DocumentVersionPublisher.completeIngestion` publishes the version of an operation;
* `DocumentVersionPublisher.rollback` registers an operation for a superseded version and
  publishes that one.

What a publication writes is computed by a pure function, `publication`, and
`publication_eq_ok` is all that is ever used of it.
-/

namespace RagflowAgent
namespace Knowledge

open Interleaving

/-- What the services are configured with. -/
structure Settings where
  /-- The hexadecimal SHA-256 digest of a text. -/
  sha256 : String → String
  /-- How long a superseded version is kept. -/
  historyRetention : ℕ := 30
  /-- How long a deleted document can be restored. -/
  retention : ℕ := 30
  maxUploadBytes : ℕ := 1000000
  maxAttempts : ℕ := 6
  profile : IngestionProfile
  /-- The pipeline has a publisher for lifecycle operations. -/
  lifecycleActivation : Bool := true

/-- `_fingerprint`: the digest of the kind and the parts of a command. -/
def Settings.fingerprint (settings : Settings) (kind : LifecycleOperationKind)
    (parts : List String) : String :=
  settings.sha256 ("\x1f".intercalate (kind.value :: parts))

/-- Make a call, labelled with the task at hand and what is known. -/
def ask {β : Type} (task : Task) (knows : List Fact) (call : Call β) : Service β :=
  Prog.perform ⟨task, knows, call⟩

/-- `tuple.append`: what is known after a row was read or not found. -/
def Fact.row (r : Resource) (o : Option r.Row) : List Fact := o.toList.map (.stored r)

/-- `operation.metadata.get("command_fingerprint")`. -/
def LifecycleOperation.commandFingerprint (operation : LifecycleOperation) : Option String :=
  operation.metadata.lookup "command_fingerprint"

def idempotencyConflict : Error :=
  .conflict "idempotency key was already used for a different command"
    "lifecycle_idempotency_conflict"

/-- The scope of a version of a document in the index, as the calls of the services name
it. -/
def Document.scope (document : Document) (tenantId versionId : String) : VersionScope where
  tenantId := tenantId
  knowledgeBaseId := document.knowledgeBaseId
  documentId := document.id
  documentVersionId := versionId

namespace DocumentVersionPublisher

/-- What `_load` returns. -/
structure Loaded where
  operation : LifecycleOperation
  document : Document
  version : DocumentVersion
  previous : Option DocumentVersion

def Loaded.facts (loaded : Loaded) : List Fact :=
  [.stored .lifecycleOperations loaded.operation, .stored .documents loaded.document,
    .stored .documentVersions loaded.version] ++ Fact.row .documentVersions loaded.previous

/-- The version that the operation replaces; `if operation.previous_version_id` is false
for the empty text, too. -/
def loadPrevious (context : AuthorizationContext) (task : Task) (knows : List Fact)
    (operation : LifecycleOperation) : Service (Option DocumentVersion) :=
  match operation.previousVersionId.filter (· ≠ "") with
  | none => pure none
  | some previousVersionId => ask task knows (.query
      (.get .documentVersions context.tenantId previousVersionId))

/-- `_load`. -/
def load (context : AuthorizationContext) (operationId : String) (task : Task)
    (knows : List Fact) :
    Service Loaded := do
  match ← ask task knows (.query
      (.get .lifecycleOperations context.tenantId operationId)) with
  | none => .raise (.notFound "lifecycle_operation" operationId)
  | some operation =>
    let known := knows ++ [.stored .lifecycleOperations operation]
    let document ← ask task known (.query
      (.get .documents context.tenantId operation.documentId))
    let known := known ++ Fact.row .documents document
    let version ← ask task known (.query
      (.get .documentVersions context.tenantId operation.versionId))
    let known := known ++ Fact.row .documentVersions version
    let previous ← loadPrevious context task known operation
    match document, version with
    | some document, some version => pure ⟨operation, document, version, previous⟩
    | _, _ => .raise (.notFound "document" operation.documentId)

/-- The snapshots that a publication writes. -/
structure Publication where
  ready : DocumentVersion
  retired : Option DocumentVersion
  active : Document
  operation : LifecycleOperation

/-- The previous version, superseded. -/
def supersede (historyRetention : ℕ) (previous : Option DocumentVersion)
    (ready : DocumentVersion) (now : ℕ) : Except Error (Option DocumentVersion) :=
  match previous with
  | none => .ok none
  | some previous =>
    if previous.id ≠ ready.id then do
      let retired ← transitionDocumentVersion previous .superseded now
      return some { retired with
        retiredAt := some now
        purgeAfter := some (now + historyRetention) }
    else .ok none

/-- The version of the operation, ready and with its index version. -/
def readyVersion (version : DocumentVersion) (indexVersionId : String) (now : ℕ) :
    Except Error DocumentVersion :=
  (if version.status = .ready then .ok version
    else transitionDocumentVersion version .ready now).map fun ready =>
      { ready with indexVersionId := some indexVersionId, activatedAt := some now }

/-- The computation between the promotion and the writing transaction.  `operation` is the
loaded operation with its first two steps recorded. -/
def publication (historyRetention : ℕ) (loaded : Loaded) (operation : LifecycleOperation)
    (indexVersionId : String) (now : ℕ) : Except Error Publication := do
  let ready ← readyVersion loaded.version indexVersionId now
  let active ← activateDocumentVersion loaded.document ready now
    (some operation.expectedDocumentRevision)
  let retired ← supersede historyRetention loaded.previous ready now
  let operation ← updateStep operation .activate .succeeded now
  return {
    ready := ready
    retired := retired
    active := active
    operation := { operation with
      status := .member .succeeded
      progress := 1
      indexVersionId := some indexVersionId
      updatedAt := now } }

/-- The writing transaction of a publication. -/
def Publication.statements (p : Publication) (tenantId : String) (document : Document) :
    List Stmt :=
  .save tenantId .documentVersions p.ready ::
    (p.retired.toList.map (.save tenantId .documentVersions) ++
      [.saveIfRevision tenantId p.active document.revision,
        .save tenantId .lifecycleOperations p.operation])

/-- From the checks to the end of `complete_ingestion`. -/
def publish (settings : Settings) (context : AuthorizationContext) (loaded : Loaded)
    (indexVersionId : String) (task : Task) (knows : List Fact) : Service LifecycleOperation := do
  let document := loaded.document
  .raiseWhen (document.status ≠ .active)
    (.conflict "document is not active" "document_deleted")
  .raiseWhen (document.revision ≠ loaded.operation.expectedDocumentRevision)
    (.conflict "stale lifecycle operation" "document_revision_conflict")
  let known := knows ++ loaded.facts
  let now ← ask task known .now
  let known := known ++ [.clock now]
  let scope := document.scope context.tenantId loaded.version.id
  let count ← ask task known (.query (.validateDocumentVersion scope))
  .raiseWhen (count < 1)
    (.conflict "candidate version has no searchable chunks" "lifecycle_candidate_empty")
  let operation ← updateStep loaded.operation .validate .succeeded now
  ask task known (.changeIndex
    (.promoteDocumentVersion scope operation.fencingToken))
  let operation ← updateStep operation .promote .succeeded now
  let p ← publication settings.historyRetention loaded operation indexVersionId now
  ask task (known ++ [.promoted scope operation.fencingToken])
    (.commit (p.statements context.tenantId document))
  match p.retired with
  | none => pure p.operation
  | some retired =>
    ask .retiring [.wrote p.active] (.changeIndex
      (.retireDocumentVersion (document.scope context.tenantId retired.id)))
    pure p.operation

/-- `complete_ingestion`. -/
def completeIngestion (settings : Settings) (context : AuthorizationContext)
    (operationId indexVersionId : String) (task : Task := .publishing) (knows : List Fact := []) :
    Service LifecycleOperation := do
  let loaded ← load context operationId task knows
  if loaded.operation.status = .member .succeeded then pure loaded.operation
  else publish settings context loaded indexVersionId task knows

/-- The replay of a rollback: the operation of the first call, if the commands agree. -/
def matchDuplicate (duplicate : LifecycleOperation) (documentId targetVersionId : String)
    (fingerprint : String) : Except Error LifecycleOperation :=
  if duplicate.kind ≠ .rollback ∨ duplicate.documentId ≠ documentId ∨
      duplicate.versionId ≠ targetVersionId ∨
      duplicate.commandFingerprint ≠ some fingerprint then
    .error idempotencyConflict
  else .ok duplicate

/-- The operation that `rollback` adds. -/
def rollbackOperation (context : AuthorizationContext) (document : Document)
    (target : DocumentVersion) (operationId idempotencyKey reason fingerprint : String)
    (now : ℕ) : LifecycleOperation where
  id := operationId
  tenantId := context.tenantId
  knowledgeBaseId := document.knowledgeBaseId
  documentId := document.id
  versionId := target.id
  kind := .rollback
  idempotencyKey := idempotencyKey
  actorId := context.actorId
  reason := reason
  requestId := context.requestId
  expectedDocumentRevision := document.revision
  fencingToken := document.revision + 1
  previousVersionId := document.currentVersionId
  metadata := [("command_fingerprint", fingerprint)]
  createdAt := now
  updatedAt := now

/-- `rollback`. -/
def rollback (settings : Settings) (context : AuthorizationContext)
    (documentId targetVersionId idempotencyKey reason : String) :
    Service LifecycleOperation := do
  let duplicate ← ask .rollingBack [] (.query
    (.getByIdempotencyKey context.tenantId idempotencyKey))
  let document ← ask .rollingBack [] (.query (.get .documents context.tenantId documentId))
  let known := Fact.row .documents document
  let target ← ask .rollingBack known (.query
    (.get .documentVersions context.tenantId targetVersionId))
  match document, target with
  | some document, some target =>
    PermissionChecker.require context document.authorization .write
    let fingerprint := settings.fingerprint .rollback [documentId, targetVersionId, reason]
    match duplicate with
    | some duplicate => matchDuplicate duplicate documentId targetVersionId fingerprint
    | none =>
      .raiseWhen (target.documentId ≠ document.id ∨ target.status ≠ .superseded)
        (.conflict "rollback target is not a retained historical version"
          "rollback_target_invalid")
      let known : List Fact :=
        [.stored .documents document, .stored .documentVersions target]
      let now ← ask .rollingBack known .now
      let known := known ++ [.clock now]
      let operationId ← ask .rollingBack known .newId
      let operation := rollbackOperation context document target operationId idempotencyKey
        reason fingerprint now
      ask .rollingBack known (.commit
        [.add context.tenantId .lifecycleOperations operation])
      -- `target.index_version_id or f"idx_{target.id}"`
      let indexVersionId := match target.indexVersionId.filter (· ≠ "") with
        | some indexVersionId => indexVersionId
        | none => "idx_" ++ target.id
      completeIngestion settings context operation.id indexVersionId
  | _, _ => .raise (.notFound "document_version" targetVersionId)

/-! ## What a publication writes -/

theorem sameScope_of_readyVersion {version ready : DocumentVersion} {indexVersionId : String}
    {now : ℕ} (h : readyVersion version indexVersionId now = .ok ready) :
    ready.SameScope version := by
  obtain ⟨r, hr, rfl⟩ := map_eq_ok.1 h
  have hscope : r.SameScope version := by
    split at hr
    · cases hr
      exact .refl _
    · exact sameScope_of_transitionDocumentVersion hr
  exact hscope

/-- What `supersede` returns: nothing, or the superseded previous version. -/
theorem supersede_eq_ok {historyRetention now : ℕ} {previous retired : Option DocumentVersion}
    {ready : DocumentVersion}
    (h : supersede historyRetention previous ready now = .ok retired) :
    ∀ r ∈ retired, ∃ p ∈ previous, p.id ≠ ready.id ∧ r.SameScope p ∧ r.status = .superseded := by
  intro r hr
  unfold supersede at h
  split at h
  · cases h
    cases hr
  rename_i p
  split at h
  · rename_i hne
    obtain ⟨r', ht, hretired⟩ := bind_eq_ok.1 h
    cases hretired
    cases hr
    have hscope := sameScope_of_transitionDocumentVersion ht
    have hstatus := status_of_transitionDocumentVersion ht
    exact ⟨p, rfl, hne, hscope, hstatus⟩
  · cases h
    cases hr

/-- **What a publication writes**: the version of the operation, ready; the previous
version superseded, if it is another one; the document with the version as its current
one; and the operation succeeded. -/
theorem publication_eq_ok {historyRetention now : ℕ} {loaded : Loaded}
    {operation : LifecycleOperation} {indexVersionId : String} {p : Publication}
    (h : publication historyRetention loaded operation indexVersionId now = .ok p) :
    p.ready.SameScope loaded.version ∧ p.ready.ReadyFor loaded.document ∧
      p.active = loaded.document.activated p.ready now ∧
      loaded.document.status = .active ∧
      loaded.document.revision = operation.expectedDocumentRevision ∧
      (∀ r ∈ p.retired, ∃ q ∈ loaded.previous,
        q.id ≠ p.ready.id ∧ r.SameScope q ∧ r.status = .superseded) ∧
      ∃ steps, p.operation = { operation with
        currentStep := .activate
        steps := steps
        status := .member .succeeded
        progress := 1
        indexVersionId := some indexVersionId
        updatedAt := now } := by
  obtain ⟨ready, hready, h⟩ := bind_eq_ok.1 h
  obtain ⟨active, hactive, h⟩ := bind_eq_ok.1 h
  obtain ⟨retired, hretired, h⟩ := bind_eq_ok.1 h
  obtain ⟨operation', hoperation, h⟩ := bind_eq_ok.1 h
  cases h
  obtain ⟨rfl, hfor, hdoc, hrevision⟩ := activateDocumentVersion_eq_ok hactive
  obtain ⟨steps, rfl⟩ := updateStep_eq_ok hoperation
  exact ⟨sameScope_of_readyVersion hready, hfor, rfl, hdoc, hrevision _ rfl,
    supersede_eq_ok hretired, steps, rfl⟩

end DocumentVersionPublisher

end Knowledge
end RagflowAgent
