import RagflowAgent.Interleaving.Discipline
import RagflowAgent.Knowledge.SearchIndex
import RagflowAgent.Knowledge.Store

/-!
# The world the services run in

A service is a sequential program over calls: it reads the clock, it asks for an id, it
runs a query, it commits the writing statements of a transaction, it changes the search
index or the object store, or it asks the parser, the chunker and the embedding model.
`World` is what the calls share, `Call` the calls, and `exec` answers one call.

A unit of work of the source is a transaction.  Its reads are calls of their own here and
its statements run together at its `commit`, so a schedule may put other transactions
between a read and the commit, as the database does at its default isolation level.  A
schedule that does not is one where every transaction is atomic.

Whatever the code does not decide is in the `Input` of a call: the clock, fresh ids, the
results of the models, and failures.  An external call can fail before it takes effect
(`fault`), or take effect and then report a failure (`lateFault`).

`Action` labels a call with the `Task` its caller is at and with the facts the caller has
seen.  A label is bookkeeping about the program text; `exec` does not look at it.
-/

namespace RagflowAgent
namespace Knowledge

open Interleaving

/-! ## What parser, chunker and embedding model return -/

/-- A parsed document.  The pipeline hands it to the chunker unread. -/
structure ParsedDocument where
  id : String := ""
  text : String := ""
  deriving DecidableEq, Repr

structure ParseRequest where
  tenantId : String
  knowledgeBaseId : String
  documentId : String
  documentVersionId : String
  objectKey : String
  mediaType : String
  traceId : String
  deriving DecidableEq, Repr

structure ChunkRecord where
  id : String
  tenantId : String
  knowledgeBaseId : String
  documentId : String
  documentVersionId : String
  content : String
  metadata : ChunkMetadata := {}
  deriving DecidableEq, Repr

/-- Frozen minimum parser, chunker and embedding profile. -/
structure IngestionProfile where
  chunkStrategyId : String
  chunkStrategyVersion : String
  chunkMaxTokens : ℕ
  embeddingModelId : String
  deriving DecidableEq, Repr

structure ChunkingRequest where
  parsedDocument : ParsedDocument
  strategyId : String
  strategyVersion : String
  maxTokens : ℕ
  traceId : String
  deriving DecidableEq, Repr

structure EmbeddingInput where
  id : String
  text : String
  deriving DecidableEq, Repr

structure EmbeddingRequest where
  tenantId : String
  modelId : String
  inputs : List EmbeddingInput
  traceId : String
  deriving DecidableEq, Repr

structure EmbeddingVector where
  inputId : String
  values : List ℚ
  deriving DecidableEq

structure EmbeddingResult where
  modelId : String := ""
  dimensions : ℕ := 0
  normalized : Bool := false
  vectors : List EmbeddingVector := []
  deriving DecidableEq

/-! ## State and inputs -/

/-- Database, search index, the keys in the object store, and the last clock reading. -/
structure World where
  store : Store
  index : SearchIndex := {}
  objects : List String := []
  clock : ℕ := 0

/-- What settles a call. -/
structure Input where
  fault : Option Error := none
  lateFault : Option Error := none
  now : ℕ := 0
  newId : String := ""
  parsed : ParsedDocument := {}
  chunks : List ChunkRecord := []
  embedded : EmbeddingResult := {}
  deriving DecidableEq

/-! ## Calls -/

/-- The queries: reads of the repositories, of the index and of the object store. -/
inductive Query : Type → Type where
  | get (r : Resource) (tenantId resourceId : String) : Query (Option r.Row)
  | getByIdempotencyKey (tenantId idempotencyKey : String) : Query (Option LifecycleOperation)
  | listVersionsForDocument (tenantId documentId : String) : Query (List DocumentVersion)
  | listVersionsForTenant (tenantId : String) (limit : ℕ) : Query (List DocumentVersion)
  | listOperationsForDocument (tenantId documentId : String) : Query (List LifecycleOperation)
  | listOperationsByStatus (tenantId : String) (statuses : List LifecycleOperationStatus)
      (updatedBefore : Option ℕ) (limit : ℕ) : Query (List LifecycleOperation)
  | listDocumentsByStatus (tenantId : String) (statuses : List DocumentStatus) (limit : ℕ) :
      Query (List Document)
  | listTasksForJob (tenantId jobId : String) : Query (List IngestionTask)
  | listDue (tenantId : String) (now limit : ℕ) : Query (List LifecycleOutboxEvent)
  | validateDocumentVersion (scope : VersionScope) : Query ℕ
  | listProjectionVersions (tenantId : String) (limit : ℕ) :
      Query (List (String × String × String))
  | objectExists (objectKey : String) : Query Bool
  | listPrefix (keyPrefix : String) : Query (List String)

inductive ObjectChange where
  | put (objectKey : String)
  | delete (objectKey : String)
  deriving DecidableEq, Repr

def ObjectChange.apply (objects : List String) : ObjectChange → List String
  | put objectKey => if objectKey ∈ objects then objects else objects ++ [objectKey]
  | delete objectKey => objects.filter fun key => key ≠ objectKey

/-- The calls, with the type of their answers. -/
inductive Call : Type → Type 1 where
  | now : Call ℕ
  | newId : Call String
  | query {β : Type} (q : Query β) : Call β
  | commit (statements : List Stmt) : Call Unit
  | changeIndex (change : IndexChange) : Call Unit
  | changeObjects (change : ObjectChange) : Call Unit
  | parse (request : ParseRequest) : Call ParsedDocument
  | chunk (request : ChunkingRequest) : Call (List ChunkRecord)
  | embed (request : EmbeddingRequest) : Call EmbeddingResult
  | publish (envelope : IngestionEnvelope) : Call Unit
  | record (action resourceId : String) : Call Unit

namespace Query

/-- `ORDER BY key`, stable on ties. -/
def orderBy {ρ κ : Type} [LE κ] [DecidableLE κ] (key : ρ → κ) (rows : List ρ) : List ρ :=
  rows.insertionSort fun row row' => key row ≤ key row'

def answer {β : Type} (w : World) : Query β → Except Error β
  | get r tenantId resourceId => Repository.get (w.store.table r) tenantId resourceId
  | getByIdempotencyKey tenantId idempotencyKey =>
    match (w.store.table .lifecycleOperations).rows.find? fun row =>
        row.tenantId = tenantId ∧ row.idempotencyKey = idempotencyKey with
    | none => .ok none
    | some row => row.validate.map some
  | listVersionsForDocument tenantId documentId =>
    Repository.decode <| orderBy DocumentVersion.id <|
      (w.store.table .documentVersions).rows.filter fun row =>
        row.tenantId = tenantId ∧ row.documentId = documentId
  | listVersionsForTenant tenantId limit =>
    Repository.decode <| List.take limit <| orderBy DocumentVersion.id <|
      (w.store.table .documentVersions).rows.filter fun row => row.tenantId = tenantId
  | listOperationsForDocument tenantId documentId =>
    Repository.decode <| orderBy LifecycleOperation.updatedAt <|
      (w.store.table .lifecycleOperations).rows.filter fun row =>
        row.tenantId = tenantId ∧ row.documentId = documentId
  | listOperationsByStatus tenantId statuses updatedBefore limit =>
    Repository.decode <| List.take limit <| orderBy LifecycleOperation.updatedAt <|
      (w.store.table .lifecycleOperations).rows.filter fun row =>
        row.tenantId = tenantId ∧ row.status.isIn statuses ∧
          updatedBefore.all fun before => row.updatedAt ≤ before
  | listDocumentsByStatus tenantId statuses limit =>
    Repository.decode <| List.take limit <| orderBy Document.id <|
      (w.store.table .documents).rows.filter fun row =>
        row.tenantId = tenantId ∧ row.status ∈ statuses
  | listTasksForJob tenantId jobId =>
    Repository.decode <| orderBy IngestionTask.id <|
      (w.store.table .ingestionTasks).rows.filter fun row =>
        row.tenantId = tenantId ∧ row.jobId = jobId
  | listDue tenantId now limit =>
    Repository.decode <| List.take limit <| orderBy LifecycleOutboxEvent.availableAt <|
      (w.store.table .lifecycleOutbox).rows.filter fun row =>
        row.tenantId = tenantId ∧ row.status = .pending ∧ row.availableAt ≤ now
  | validateDocumentVersion scope => .ok (w.index.validateDocumentVersion scope)
  | listProjectionVersions tenantId limit => .ok (w.index.listProjectionVersions tenantId limit)
  | objectExists objectKey => .ok (decide (objectKey ∈ w.objects))
  | listPrefix keyPrefix =>
    .ok (orderBy id (w.objects.filter fun key => keyPrefix.toList.isPrefixOf key.toList))

end Query

namespace Call

/-- The clock and the id generator are not external services. -/
def external {β : Type} : Call β → Bool
  | now => false
  | newId => false
  | _ => true

/-- What a call does when it takes effect: its answer and the next state.  A call that
raises leaves the state as it was. -/
def effect {β : Type} (x : Input) (w : World) : Call β → Except Error (β × World)
  | now => .ok (x.now, { w with clock := x.now })
  | newId => .ok (x.newId, w)
  | query q => (q.answer w).map fun b => (b, w)
  | commit statements =>
    (w.store.transact statements).map fun store => ((), { w with store := store })
  | changeIndex change => (change.apply w.index).map fun index => ((), { w with index := index })
  | changeObjects change => .ok ((), { w with objects := change.apply w.objects })
  | parse _ => .ok (x.parsed, w)
  | chunk _ => .ok (x.chunks, w)
  | embed _ => .ok (x.embedded, w)
  | publish _ => .ok ((), w)
  | record _ _ => .ok ((), w)

end Call

/-! ## Labels -/

/-- What a service is about to do.  The names are those of the functions of the source. -/
inductive Task where
  | reading
  | publishing
  /-- Publishing as the end of a delivery, after its last look for a cancellation. -/
  | completing
  | retiring
  | rollingBack
  | deleting
  | restoring
  | purging
  | cancelling
  | progressing
  | savingJob
  | savingTask
  | startingVersion
  | readyingVersion
  | failingVersion
  | failingOperation
  | indexing
  | activating
  | finishing
  | registering
  | submitting
  | reconciling
  deriving DecidableEq, Repr

/-- What a service has seen. -/
inductive Fact where
  /-- This row was read. -/
  | stored (r : Resource) (entity : r.Row)
  /-- This operation was read, and its cancellation had not been requested. -/
  | uncancelled (operation : LifecycleOperation)
  /-- The clock showed this. -/
  | clock (now : ℕ)
  /-- The promotion of this version with this token went through. -/
  | promoted (scope : VersionScope) (fencingToken : ℕ)
  /-- A transaction that replaced the document row by this one went through. -/
  | wrote (document : Document)
  /-- This object was put. -/
  | put (objectKey : String)

/-- A call with its label. -/
structure Action (β : Type) : Type 1 where
  task : Task
  knows : List Fact
  call : Call β

abbrev Service (α : Type) : Type 1 := Prog Action Error α

/-- The cancellation of an operation has been asked for. -/
def LifecycleOperation.Cancelled (operation : LifecycleOperation) : Prop :=
  operation.status.isIn [.cancelRequested, .cancelled] = true

instance (operation : LifecycleOperation) : Decidable operation.Cancelled :=
  inferInstanceAs (Decidable (_ = true))

/-- A row that was read; of an operation also whether it was cancelled. -/
def Fact.ofRow : (r : Resource) → r.Row → List Fact
  | .lifecycleOperations, operation =>
    if operation.Cancelled then [.stored .lifecycleOperations operation]
    else [.stored .lifecycleOperations operation, .uncancelled operation]
  | r, entity => [.stored r entity]

/-- The facts that the answer of a query tells. -/
def Query.facts {β : Type} : Query β → β → List Fact
  | get r _ _, o => o.toList.flatMap (Fact.ofRow r)
  | getByIdempotencyKey _ _, o => o.toList.flatMap (Fact.ofRow .lifecycleOperations)
  | listVersionsForDocument _ _, l => l.flatMap (Fact.ofRow .documentVersions)
  | listVersionsForTenant _ _, l => l.flatMap (Fact.ofRow .documentVersions)
  | listOperationsForDocument _ _, l => l.flatMap (Fact.ofRow .lifecycleOperations)
  | listOperationsByStatus _ _ _ _, l => l.flatMap (Fact.ofRow .lifecycleOperations)
  | listDocumentsByStatus _ _ _, l => l.flatMap (Fact.ofRow .documents)
  | listTasksForJob _ _, l => l.flatMap (Fact.ofRow .ingestionTasks)
  | listDue _ _ _, l => l.flatMap (Fact.ofRow .lifecycleOutbox)
  | _, _ => []

/-- The document row that a conditional update writes. -/
def Stmt.wrote : Stmt → Option Fact
  | .saveIfRevision _ entity _ => some (.wrote entity)
  | _ => none

/-- The facts that the answer of a call tells. -/
def Call.facts {β : Type} : Call β → β → List Fact
  | now, n => [.clock n]
  | query q, b => q.facts b
  | commit statements, _ => statements.filterMap Stmt.wrote
  | changeIndex (.promoteDocumentVersion scope fencingToken), _ =>
    [.promoted scope fencingToken]
  | changeObjects (.put objectKey), _ => [.put objectKey]
  | _, _ => []

/-- The facts that an answer tells: an error tells nothing. -/
def Action.yields {β : Type} (a : Action β) : Except Error β → List Fact
  | .ok b => a.call.facts b
  | .error _ => []

/-! ## Answering a call -/

/-- **One step of a service.** -/
def exec ⦃β : Type⦄ (a : Action β) (x : Input) (w : World) : Except Error β × World :=
  match x.fault.filter fun _ => a.call.external with
  | some e => (.error e, w)
  | none =>
    match a.call.effect x w with
    | .error e => (.error e, w)
    | .ok (b, w') =>
      match x.lateFault.filter fun _ => a.call.external with
      | some e => (.error e, w')
      | none => (.ok b, w')

/-- What one step can do: fail without effect, or take effect and answer or fail. -/
theorem exec_cases {β : Type} (a : Action β) (x : Input) (w : World) :
    (∃ e, exec a x w = (.error e, w)) ∨
      (a.call.external = true → x.fault = none) ∧ ∃ b w', a.call.effect x w = .ok (b, w') ∧
        (exec a x w = (.ok b, w') ∨ ∃ e, exec a x w = (.error e, w')) := by
  unfold exec
  split
  · exact .inl ⟨_, rfl⟩
  rename_i hfault
  split
  · exact .inl ⟨_, rfl⟩
  · rename_i b w' heffect
    refine .inr ⟨fun hexternal => ?_, b, w', heffect, ?_⟩
    · rw [Option.filter_eq_none_iff] at hfault
      exact Option.eq_none_iff_forall_not_mem.2 fun e he => hfault e he hexternal
    · split
      · exact .inr ⟨_, rfl⟩
      · exact .inl rfl

/-- What a call changes, if anything but the clock. -/
inductive Change where
  | transaction (statements : List Stmt)
  | index (change : IndexChange)
  | objects (change : ObjectChange)

def Call.change {β : Type} : Call β → Option Change
  | commit statements => some (.transaction statements)
  | changeIndex change => some (.index change)
  | changeObjects change => some (.objects change)
  | _ => none

/-- **Every call changes what it says**: database, index or objects, and not the others. -/
theorem exec_frame {β : Type} (a : Action β) (x : Input) (w : World) :
    ((∀ statements, a.call.change ≠ some (.transaction statements)) →
        (exec a x w).2.store = w.store) ∧
      ((∀ change, a.call.change ≠ some (.index change)) → (exec a x w).2.index = w.index) ∧
      ((∀ change, a.call.change ≠ some (.objects change)) →
        (exec a x w).2.objects = w.objects) := by
  obtain ⟨e, he⟩ | ⟨-, b, w', heffect, he⟩ := exec_cases a x w
  · rw [he]
    exact ⟨fun _ => rfl, fun _ => rfl, fun _ => rfl⟩
  · have hw : (exec a x w).2 = w' := by obtain he | ⟨e, he⟩ := he <;> rw [he]
    rw [hw]
    obtain ⟨task, knows, call⟩ := a
    cases call with
    | commit statements =>
      obtain ⟨_, _, hbw⟩ := map_eq_ok.1 heffect
      cases hbw
      exact ⟨fun h => absurd rfl (h statements), fun _ => rfl, fun _ => rfl⟩
    | changeIndex change =>
      obtain ⟨_, _, hbw⟩ := map_eq_ok.1 heffect
      cases hbw
      exact ⟨fun _ => rfl, fun h => absurd rfl (h change), fun _ => rfl⟩
    | changeObjects change =>
      cases heffect
      exact ⟨fun _ => rfl, fun _ => rfl, fun h => absurd rfl (h change)⟩
    | query q =>
      obtain ⟨_, _, hbw⟩ := map_eq_ok.1 heffect
      cases hbw
      exact ⟨fun _ => rfl, fun _ => rfl, fun _ => rfl⟩
    | _ =>
      cases heffect
      exact ⟨fun _ => rfl, fun _ => rfl, fun _ => rfl⟩

/-- A query fails, or is answered; nothing changes. -/
theorem exec_query_cases {β : Type} (task : Task) (knows : List Fact) (q : Query β) (x : Input)
    (w : World) :
    (∃ e, exec ⟨task, knows, .query q⟩ x w = (.error e, w)) ∨
      ∃ b, q.answer w = .ok b ∧ exec ⟨task, knows, .query q⟩ x w = (.ok b, w) := by
  obtain ⟨e, he⟩ | ⟨-, b, w', heffect, he⟩ := exec_cases ⟨task, knows, .query q⟩ x w
  · exact .inl ⟨e, he⟩
  · obtain ⟨b', hanswer, hb⟩ := map_eq_ok.1 heffect
    cases hb
    obtain he | ⟨e, he⟩ := he
    · exact .inr ⟨b, hanswer, he⟩
    · exact .inl ⟨e, he⟩

/-- A query that is answered leaves everything as it is. -/
theorem exec_query_eq_ok {β : Type} {task : Task} {knows : List Fact} {q : Query β} {x : Input}
    {w w' : World} {b : β} (h : exec ⟨task, knows, .query q⟩ x w = (.ok b, w')) :
    q.answer w = .ok b ∧ w' = w := by
  obtain ⟨e, he⟩ | ⟨b', hanswer, he⟩ := exec_query_cases task knows q x w
  · rw [he] at h
    cases h
  · rw [he] at h
    cases h
    exact ⟨hanswer, rfl⟩

/-- The clock is not an external service: it answers. -/
theorem exec_now (task : Task) (knows : List Fact) (y : Input) (w : World) :
    exec ⟨task, knows, .now⟩ y w = (.ok y.now, { w with clock := y.now }) := by
  have hfilter : y.fault.filter (fun _ => Call.external .now) = none := by
    cases y.fault <;> rfl
  have hlate : y.lateFault.filter (fun _ => Call.external .now) = none := by
    cases y.lateFault <;> rfl
  simp only [exec, hfilter, Call.effect, hlate]

/-- Neither is the id generator. -/
theorem exec_newId (task : Task) (knows : List Fact) (y : Input) (w : World) :
    exec ⟨task, knows, .newId⟩ y w = (.ok y.newId, w) := by
  have hfilter : y.fault.filter (fun _ => Call.external .newId) = none := by
    cases y.fault <;> rfl
  have hlate : y.lateFault.filter (fun _ => Call.external .newId) = none := by
    cases y.lateFault <;> rfl
  simp only [exec, hfilter, Call.effect, hlate]

/-- A call takes effect when nothing fails. -/
theorem exec_faultless {β : Type} {a : Action β} {x : Input} {w w' : World} {b : β}
    (hx : x.fault = none) (hlate : x.lateFault = none) (h : a.call.effect x w = .ok (b, w')) :
    exec a x w = (.ok b, w') := by
  simp only [exec, hx, hlate, Option.filter_none, h]

section Commit

variable {task : Task} {knows : List Fact} {statements : List Stmt} {x : Input} {w : World}

/-- The state after a committed transaction. -/
theorem exec_commit {store : Store} (hx : x.fault = none)
    (h : w.store.transact statements = .ok store) :
    (exec ⟨task, knows, .commit statements⟩ x w).2 = { w with store := store } := by
  simp only [exec, hx, Option.filter_none, Call.effect, h, Except.map]
  split <;> rfl

/-- A transaction that does not take effect is answered with an error. -/
theorem exec_commit_of_not
    (h : ¬ (x.fault = none ∧ ∃ store, w.store.transact statements = .ok store)) :
    ∃ e, exec ⟨task, knows, .commit statements⟩ x w = (.error e, w) := by
  unfold exec
  cases hx : x.fault with
  | some e => exact ⟨e, rfl⟩
  | none =>
    cases hst : w.store.transact statements with
    | error e => exact ⟨e, by simp [Call.effect, hst, Except.map]⟩
    | ok store => exact absurd ⟨hx, store, hst⟩ h

end Commit

end Knowledge
end RagflowAgent
