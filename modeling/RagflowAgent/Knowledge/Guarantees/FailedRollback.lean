import RagflowAgent.Interleaving.Amid
import RagflowAgent.Knowledge.Effects
import RagflowAgent.Knowledge.Obligations

/-!
# Rollbacks that fail

A rollback stores its operation in a transaction of its own, and then publishes the version.  When
the publication raises, nobody takes the operation back.

* `RollbackCommand.LeavesNoTrace` says that no operation of the call is pending, that no call of it
  has changed a document or a version, and that the same command returns an operation only when
  the rollback has been carried out;
* `RollbackCommand.AddsOperation` says that the transaction with the operation takes effect;
* `leavesNoTrace_iff`: a rollback that raises behind its checks leaves no trace exactly when that
  transaction has not taken effect.

The others may do to the store what they like, but the operations with the idempotency key of the
rollback are its own.
-/

namespace RagflowAgent
namespace Knowledge

open Interleaving Keyed Monitor DocumentVersionPublisher

/-! ## The statements -/

/-- What the others do leaves the operations with an idempotency key as they are. -/
def LeavesKey (tenantId idempotencyKey : String) (others : World → World) : Prop :=
  ∀ w operationId operation, operation.idempotencyKey = idempotencyKey →
    ((others w).store.row .lifecycleOperations (tenantId, operationId) = some operation ↔
      w.store.row .lifecycleOperations (tenantId, operationId) = some operation)

/-- A call leaves the documents and their versions as they are. -/
def LeavesDocuments (x : Input × (World → World)) (w w' : World) : Prop :=
  ∀ k, w'.store.row .documents k = (x.2 w).store.row .documents k ∧
    w'.store.row .documentVersions k = (x.2 w).store.row .documentVersions k

/-- The arguments of `rollback`. -/
structure RollbackCommand where
  context : AuthorizationContext
  documentId : String
  targetVersionId : String
  idempotencyKey : String
  reason : String

namespace RollbackCommand

def program (settings : Settings) (command : RollbackCommand) : Service LifecycleOperation :=
  rollback settings command.context command.documentId command.targetVersionId
    command.idempotencyKey command.reason

/-- The calls of a rollback among others: the inputs, and what the others do before each call. -/
abbrev Calls : Type := ℕ → Input × (World → World)

/-- The run is past its checks: it has made more calls than the three that read. -/
def PassesChecks (settings : Settings) (command : RollbackCommand) (x : Calls) (w : World) :
    Prop :=
  3 < (command.program settings).callsAlone (execAmid exec) x w

/-- The sixth call, the transaction that adds the operation, takes effect. -/
def AddsOperation (settings : Settings) (command : RollbackCommand) (x : Calls) (w : World) :
    Prop :=
  let rest := (command.program settings).after (execAmid exec) x w 5
  ∃ task knows statements store, transactionOf rest.1 = some (task, knows, statements) ∧
    (x 5).1.fault = none ∧ ((x 5).2 rest.2).store.transact statements = .ok store

/-- A rollback that started in `w` has left no trace in `w'`. -/
structure LeavesNoTrace (settings : Settings) (command : RollbackCommand) (x : Calls)
    (w w' : World) : Prop where
  /-- No operation that the call has created is pending. -/
  pending : ∀ operationId operation,
    w'.store.row .lifecycleOperations (command.context.tenantId, operationId) = some operation →
      operation.idempotencyKey = command.idempotencyKey → operation.status ≠ .member .pending
  /-- No call of it has changed a document or a version. -/
  documents : (command.program settings).Throughout (execAmid exec) LeavesDocuments x w
  /-- The same command returns an operation only when it has been carried out. -/
  replay : ∀ y : Calls,
    (∀ n, LeavesKey command.context.tenantId command.idempotencyKey (y n).2) →
      ∀ operation w'', (command.program settings).runAlone (execAmid exec) y w' =
        (.ok operation, w'') → operation.status = .member .succeeded

end RollbackCommand

/-! ## The publication -/

section Publication

/-- A publication that takes effect changes the row of its document. -/
theorem row_ne_of_publication {historyRetention now : ℕ} {loaded : Loaded}
    {operation : LifecycleOperation} {indexVersionId tenantId : String} {p : Publication}
    {st st' : Store}
    (hp : publication historyRetention loaded operation indexVersionId now = .ok p)
    (hst : st.transact (p.statements tenantId loaded.document) = .ok st') :
    st'.row .documents (key p.active) ≠ st.row .documents (key p.active) := by
  obtain ⟨-, -, hactive, -⟩ := publication_eq_ok hp
  rw [Publication.statements, ← List.cons_append] at hst
  have hbefore : ∀ s ∈ Stmt.save tenantId .documentVersions p.ready ::
      p.retired.toList.map (Stmt.save tenantId .documentVersions), s.written .documents = none := by
    intro s hs
    rcases List.mem_cons.1 hs with rfl | hs
    · rfl
    · obtain ⟨retired, -, rfl⟩ := List.mem_map.1 hs
      rfl
  obtain ⟨stored, hstored, hrevision⟩ := stored_of_saveIfRevision hst hbefore
  have hrow : st'.row .documents (key p.active) = some p.active :=
    (row_of_transact_of_written (r := .documents) hst (by decide) hbefore
      (by simp [Stmt.written]) rfl _).trans (if_pos rfl)
  rw [hrow, hstored]
  intro heq
  have hnext : p.active.revision = loaded.document.revision + 1 := by
    rw [hactive]
    rfl
  rw [← Option.some.inj heq, hnext] at hrevision
  exact absurd hrevision (Nat.succ_ne_self _)

/-- The calls of a publication: its transaction is that of `publish`. -/
def PublishCall ⦃β : Type⦄ (a : Action β) : Prop :=
  ∀ statements, a.call.change = some (.transaction statements) →
    ∃ historyRetention loaded operation indexVersionId now p tenantId,
      publication historyRetention loaded operation indexVersionId now = .ok p ∧
        statements = p.statements tenantId loaded.document

variable {settings : Settings} {context : AuthorizationContext} {task : Task} {knows : List Fact}

/-- A call that changes nothing. -/
theorem makes_ask {β : Type} {call : Call β} (hcall : call.change = none) :
    Makes PublishCall (ask task knows call) := by
  refine makes_perform fun statements h => ?_
  have h' : call.change = some (.transaction statements) := h
  rw [hcall] at h'
  cases h'

theorem makes_changeIndex (change : IndexChange) :
    Makes PublishCall (ask task knows (.changeIndex change)) := by
  refine makes_perform fun statements h => ?_
  cases h

theorem makes_ofExcept {α : Type} (r : Except Error α) :
    Makes PublishCall (Prog.ofExcept r : Service α) :=
  conforms_ofExcept (fun _ _ => trivial) fun _ _ => trivial

theorem makes_raiseWhen {p : Prop} [Decidable p] (error : Error) :
    Makes PublishCall (Prog.raiseWhen p error : Service Unit) :=
  conforms_raiseWhen (fun _ => trivial) fun _ => trivial

theorem makes_load (operationId : String) :
    Makes PublishCall (load context operationId task knows) := by
  refine makes_bind (makes_ask rfl) fun operation => ?_
  cases operation with
  | none => trivial
  | some operation =>
    refine makes_bind (makes_ask rfl) fun document => ?_
    refine makes_bind (makes_ask rfl) fun version => ?_
    refine makes_bind ?_ fun previous => ?_
    · unfold loadPrevious
      split
      · trivial
      · exact makes_ask rfl
    · split <;> trivial

theorem makes_publish (loaded : Loaded) (indexVersionId : String) :
    Makes PublishCall (publish settings context loaded indexVersionId task knows) := by
  refine makes_bind (makes_raiseWhen _) fun _ => ?_
  refine makes_bind (makes_raiseWhen _) fun _ => ?_
  refine makes_bind (makes_ask rfl) fun now => ?_
  refine makes_bind (makes_ask rfl) fun count => ?_
  refine makes_bind (makes_raiseWhen _) fun _ => ?_
  refine makes_bind (makes_ofExcept _) fun operation => ?_
  refine makes_bind (makes_changeIndex _) fun _ => ?_
  refine makes_bind (makes_ofExcept _) fun operation' => ?_
  refine conforms_bind (R := fun p _ =>
      publication settings.historyRetention loaded operation' indexVersionId now = .ok p)
    (conforms_ofExcept (fun _ hp => hp) fun _ _ => trivial) fun p _ hp => ?_
  refine makes_bind (makes_perform fun statements h => ?_) fun _ => ?_
  · cases h
    exact ⟨_, loaded, operation', indexVersionId, now, p, context.tenantId, hp, rfl⟩
  · split
    · trivial
    · exact makes_bind (makes_changeIndex _) fun _ => trivial

theorem makes_completeIngestion (operationId indexVersionId : String) :
    Makes PublishCall
      (completeIngestion settings context operationId indexVersionId task knows) := by
  refine makes_bind (makes_load operationId) fun loaded => ?_
  split
  · trivial
  · exact makes_publish loaded indexVersionId

/-- What a publication returns has succeeded. -/
theorem status_of_completeIngestion {operationId indexVersionId : String}
    {operation : LifecycleOperation}
    (h : (completeIngestion settings context operationId indexVersionId task knows).CanEnd
      (.ok operation)) : operation.status = .member .succeeded := by
  obtain ⟨loaded, -, h⟩ := Prog.canEnd_bind_ok.1 h
  split at h
  · rename_i hsucceeded
    cases h
    exact hsucceeded
  obtain ⟨-, -, h⟩ := Prog.canEnd_bind_ok.1 h
  obtain ⟨-, -, h⟩ := Prog.canEnd_bind_ok.1 h
  obtain ⟨now, -, h⟩ := Prog.canEnd_bind_ok.1 h
  obtain ⟨count, -, h⟩ := Prog.canEnd_bind_ok.1 h
  obtain ⟨-, -, h⟩ := Prog.canEnd_bind_ok.1 h
  obtain ⟨operation₁, -, h⟩ := Prog.canEnd_bind_ok.1 h
  obtain ⟨-, -, h⟩ := Prog.canEnd_bind_ok.1 h
  obtain ⟨operation₂, -, h⟩ := Prog.canEnd_bind_ok.1 h
  obtain ⟨p, hp, h⟩ := Prog.canEnd_bind_ok.1 h
  obtain ⟨-, -, h⟩ := Prog.canEnd_bind_ok.1 h
  obtain ⟨-, -, -, -, -, -, steps, hoperation⟩ :=
    publication_eq_ok (Prog.canEnd_ofExcept.1 hp).symm
  have hreturned : operation = p.operation := by
    split at h
    · cases h
      rfl
    · obtain ⟨-, -, h⟩ := Prog.canEnd_bind_ok.1 h
      cases h
      rfl
  rw [hreturned, hoperation]

end Publication

/-! ## The operations of the rollback -/

section Operations

variable {tenantId idempotencyKey : String} {w w' : World}

/-- No operation of the tenant has the idempotency key. -/
def KeyFree (tenantId idempotencyKey : String) (w : World) : Prop :=
  ∀ operationId operation,
    w.store.row .lifecycleOperations (tenantId, operationId) = some operation →
      operation.idempotencyKey ≠ idempotencyKey

theorem KeyFree.of_store (h : KeyFree tenantId idempotencyKey w) (hstore : w'.store = w.store) :
    KeyFree tenantId idempotencyKey w' := by
  intro operationId operation hrow
  rw [hstore] at hrow
  exact h operationId operation hrow

theorem LeavesKey.keyFree {others : World → World} (h : LeavesKey tenantId idempotencyKey others)
    (hfree : KeyFree tenantId idempotencyKey w) : KeyFree tenantId idempotencyKey (others w) := by
  intro operationId operation hrow hkey
  exact hfree operationId operation ((h w operationId operation hkey).1 hrow) hkey

/-- **The look-up of a rollback finds nothing exactly when nothing has the key.** -/
theorem answer_getByIdempotencyKey :
    (Query.getByIdempotencyKey tenantId idempotencyKey).answer w = .ok none ↔
      KeyFree tenantId idempotencyKey w := by
  constructor
  · intro h operationId operation hrow hkey
    have hmem : operation ∈ (w.store.table .lifecycleOperations).rows := Table.mem_of_get hrow
    have htenant : operation.tenantId = tenantId :=
      congrArg Prod.fst (Store.key_of_row (r := .lifecycleOperations) hrow)
    rw [Query.answer] at h
    split at h
    · rename_i hnone
      have hrow' := List.find?_eq_none.1 hnone operation hmem
      exact hrow' (decide_eq_true ⟨htenant, hkey⟩)
    · obtain ⟨o, -, ho⟩ := map_eq_ok.1 h
      cases ho
  · intro h
    have hnone : (w.store.table .lifecycleOperations).rows.find? (fun row =>
        row.tenantId = tenantId ∧ row.idempotencyKey = idempotencyKey) = none := by
      refine List.find?_eq_none.2 fun operation hmem hfound => ?_
      obtain ⟨htenant, hkey⟩ := of_decide_eq_true hfound
      refine h operation.id operation ?_ hkey
      rw [← htenant]
      exact Table.mem_rows_iff.1 hmem
    rw [Query.answer, hnone]

/-- **The operation stays**: the calls of a publication that change no document leave it as it
is. -/
theorem row_of_publishCall {β : Type} {a : Action β} {x : Input × (World → World)}
    {operationId : String} {operation : LifecycleOperation}
    (hothers : LeavesKey tenantId operation.idempotencyKey x.2)
    (hrow : w.store.row .lifecycleOperations (tenantId, operationId) = some operation)
    (ha : PublishCall a) (hleaves : LeavesDocuments x w (execAmid exec a x w).2) :
    (execAmid exec a x w).2.store.row .lifecycleOperations (tenantId, operationId) =
      some operation := by
  have hrow' : (x.2 w).store.row .lifecycleOperations (tenantId, operationId) = some operation :=
    (hothers w operationId operation rfl).2 hrow
  rw [execAmid] at hleaves ⊢
  obtain ⟨e, he⟩ | ⟨-, b, w'', heffect, he⟩ := exec_cases a x.1 (x.2 w)
  · rw [he]
    exact hrow'
  by_cases htransaction : ∃ statements, a.call.change = some (.transaction statements)
  · obtain ⟨statements, hchange⟩ := htransaction
    obtain ⟨historyRetention, loaded, op, indexVersionId, now, p, tenant, hp, rfl⟩ :=
      ha statements hchange
    have hw : (exec a x.1 (x.2 w)).2 = w'' := by obtain he | ⟨e, he⟩ := he <;> rw [he]
    rw [hw] at hleaves
    obtain ⟨task, knows, call⟩ := a
    cases call with
    | commit statements =>
      cases hchange
      obtain ⟨store, hst, hb⟩ := map_eq_ok.1 heffect
      cases hb
      exact absurd (hleaves (key p.active)).1 (row_ne_of_publication hp hst)
    | _ => cases hchange
  · have hstore := (exec_frame a x.1 (x.2 w)).1 fun statements h => htransaction ⟨statements, h⟩
    rw [hstore]
    exact hrow'

end Operations

/-! ## The calls of a rollback -/

namespace RollbackCommand

variable {settings : Settings} {command : RollbackCommand} {x : Calls} {w w' : World}
  {document : Document} {target : DocumentVersion}

def fingerprint (settings : Settings) (command : RollbackCommand) : String :=
  settings.fingerprint .rollback [command.documentId, command.targetVersionId, command.reason]

/-- The operation that the rollback adds. -/
def operation (settings : Settings) (command : RollbackCommand) (document : Document)
    (target : DocumentVersion) (now : ℕ) (operationId : String) : LifecycleOperation :=
  rollbackOperation command.context document target operationId command.idempotencyKey
    command.reason (command.fingerprint settings) now

/-- What is left of a rollback when its operation is added. -/
def publishing (settings : Settings) (command : RollbackCommand) (target : DocumentVersion)
    (operationId : String) : Service LifecycleOperation :=
  let indexVersionId := match target.indexVersionId.filter (· ≠ "") with
    | some indexVersionId => indexVersionId
    | none => "idx_" ++ target.id
  completeIngestion settings command.context operationId indexVersionId

/-- The transaction that adds the operation. -/
def addition (settings : Settings) (command : RollbackCommand) (document : Document)
    (target : DocumentVersion) (now : ℕ) (operationId : String) : Action Unit where
  task := .rollingBack
  knows := [.stored .documents document, .stored .documentVersions target] ++ [.clock now]
  call := .commit [.add command.context.tenantId .lifecycleOperations
    (command.operation settings document target now operationId)]

/-- What is left of a rollback when it has its operation. -/
def adding (settings : Settings) (command : RollbackCommand) (document : Document)
    (target : DocumentVersion) (now : ℕ) (operationId : String) : Service LifecycleOperation :=
  (Prog.perform (addition settings command document target now operationId)).bind fun _ =>
  publishing settings command target operationId

/-- What is left of a rollback behind its checks. -/
def registering (settings : Settings) (command : RollbackCommand) (document : Document)
    (target : DocumentVersion) : Service LifecycleOperation := do
  let known : List Fact := [.stored .documents document, .stored .documentVersions target]
  let now ← ask .rollingBack known .now
  let operationId ← ask .rollingBack (known ++ [.clock now]) .newId
  adding settings command document target now operationId

/-- What is left of a rollback that has read. -/
def decided (settings : Settings) (command : RollbackCommand)
    (duplicate : Option LifecycleOperation) (document : Option Document)
    (target : Option DocumentVersion) : Service LifecycleOperation :=
  match document, target with
  | some document, some target => do
    PermissionChecker.require command.context document.authorization .write
    match duplicate with
    | some duplicate =>
      matchDuplicate duplicate command.documentId command.targetVersionId
        (command.fingerprint settings)
    | none =>
      .raiseWhen (target.documentId ≠ document.id ∨ target.status ≠ .superseded)
        (.conflict "rollback target is not a retained historical version"
          "rollback_target_invalid")
      registering settings command document target
  | _, _ => .raise (.notFound "document_version" command.targetVersionId)

theorem program_eq (settings : Settings) (command : RollbackCommand) :
    command.program settings =
      (ask .rollingBack [] (.query (.getByIdempotencyKey command.context.tenantId
        command.idempotencyKey))).bind fun duplicate =>
      (ask .rollingBack [] (.query (.get .documents command.context.tenantId
        command.documentId))).bind fun document =>
      (ask .rollingBack (Fact.row .documents document) (.query (.get .documentVersions
        command.context.tenantId command.targetVersionId))).bind fun target =>
      decided settings command duplicate document target := rfl

/-- A rollback that makes a fourth call has found no operation and passed the checks. -/
theorem decided_of_lt {duplicate : Option LifecycleOperation} {document : Option Document}
    {target : Option DocumentVersion}
    (h : 0 < (decided settings command duplicate document target).callsAlone
      (execAmid exec) x w) :
    duplicate = none ∧ ∃ document' target', decided settings command duplicate document target =
      registering settings command document' target' := by
  cases document with
  | none => exact absurd h (Nat.lt_irrefl 0)
  | some document =>
    cases target with
    | none => exact absurd h (Nat.lt_irrefl 0)
    | some target =>
      simp only [decided] at h ⊢
      cases hrequire : PermissionChecker.require command.context document.authorization .write with
      | error e =>
        rw [hrequire] at h
        exact absurd h (Nat.lt_irrefl 0)
      | ok u =>
        rw [hrequire] at h
        cases duplicate with
        | some duplicate =>
          have hnone : (Prog.ofExcept (matchDuplicate duplicate command.documentId
            command.targetVersionId (command.fingerprint settings)) :
              Service LifecycleOperation).callsAlone (execAmid exec) x w = 0 :=
            Prog.callsAlone_ofExcept _ _ _
          exact absurd h (Nat.not_lt.2 (Nat.le_of_eq hnone))
        | none =>
          by_cases hinvalid : target.documentId ≠ document.id ∨ target.status ≠ .superseded
          · have hraised : (Prog.raiseWhen (target.documentId ≠ document.id ∨
                target.status ≠ .superseded) (.conflict
                  "rollback target is not a retained historical version"
                  "rollback_target_invalid") : Service Unit) = .raise (.conflict
                  "rollback target is not a retained historical version"
                  "rollback_target_invalid") := if_pos hinvalid
            change 0 < ((Prog.raiseWhen _ _ : Service Unit).bind _).callsAlone _ _ _ at h
            rw [hraised] at h
            exact absurd h (Nat.lt_irrefl 0)
          · refine ⟨rfl, document, target, ?_⟩
            change (Prog.raiseWhen _ _ : Service Unit).bind _ = _
            rw [Prog.raiseWhen, if_neg hinvalid]
            rfl

/-- A rollback that returns without having found an operation has registered one. -/
theorem canEnd_of_decided {document : Option Document} {target : Option DocumentVersion}
    {operation : LifecycleOperation}
    (h : (decided settings command none document target).CanEnd (.ok operation)) :
    ∃ document' target',
      (registering settings command document' target').CanEnd (.ok operation) := by
  cases document with
  | none => cases h
  | some document =>
    cases target with
    | none => cases h
    | some target =>
      obtain ⟨-, -, h⟩ := Prog.canEnd_bind_ok.1 h
      obtain ⟨-, -, h⟩ := Prog.canEnd_bind_ok.1 h
      exact ⟨document, target, h⟩

/-- A query that is answered changes nothing. -/
theorem leavesDocuments_query {β : Type} {task : Task} {knows : List Fact} {q : Query β}
    {y : Input × (World → World)} {b : β}
    (h : execAmid exec ⟨task, knows, .query q⟩ y w = (.ok b, w')) :
    w' = y.2 w ∧ LeavesDocuments y w w' := by
  obtain ⟨-, rfl⟩ := exec_query_eq_ok h
  exact ⟨rfl, fun _ => ⟨rfl, rfl⟩⟩

/-- **The first five calls of a rollback change nothing**, and when it is past its checks nothing
has its idempotency key. -/
theorem passes_adding (hchecks : command.PassesChecks settings x w)
    (hothers : ∀ n, LeavesKey command.context.tenantId command.idempotencyKey (x n).2) :
    ∃ document target now operationId w₅,
      Prog.Passes (execAmid exec) LeavesDocuments x 5 (command.program settings) w
        (adding settings command document target now operationId) w₅ ∧
      KeyFree command.context.tenantId command.idempotencyKey w₅ := by
  rw [PassesChecks, program_eq] at hchecks
  rw [program_eq]
  obtain ⟨duplicate, w₁, h₁, hchecks⟩ := Prog.exists_goes_of_lt hchecks
  obtain ⟨document, w₂, h₂, hchecks⟩ := Prog.exists_goes_of_lt hchecks
  obtain ⟨target, w₃, h₃, hchecks⟩ := Prog.exists_goes_of_lt hchecks
  obtain ⟨rfl, document', target', hdecided⟩ := decided_of_lt hchecks
  obtain ⟨hw₁, hleaves₁⟩ := leavesDocuments_query h₁
  obtain ⟨hw₂, hleaves₂⟩ := leavesDocuments_query h₂
  obtain ⟨hw₃, hleaves₃⟩ := leavesDocuments_query h₃
  have hfree₁ : KeyFree command.context.tenantId command.idempotencyKey w₁ :=
    hw₁ ▸ answer_getByIdempotencyKey.1 (exec_query_eq_ok h₁).1
  have hfree₃ : KeyFree command.context.tenantId command.idempotencyKey w₃ := by
    rw [hw₃, hw₂]
    exact (hothers 2).keyFree ((hothers 1).keyFree hfree₁)
  have h₄ := exec_now .rollingBack
    [.stored .documents document', .stored .documentVersions target'] (x 3).1 ((x 3).2 w₃)
  have h₅ := exec_newId .rollingBack
    ([.stored .documents document', .stored .documentVersions target'] ++ [.clock (x 3).1.now])
    (x 4).1 ((x 4).2 { (x 3).2 w₃ with clock := (x 3).1.now })
  refine ⟨document', target', (x 3).1.now, (x 4).1.newId,
    (x 4).2 { (x 3).2 w₃ with clock := (x 3).1.now }, ?_, ?_⟩
  · refine .step (Prog.goes_perform h₁) hleaves₁ ?_
    refine .step (Prog.goes_perform h₂) hleaves₂ ?_
    refine .step (Prog.goes_perform h₃) hleaves₃ ?_
    rw [hdecided]
    refine .step (Prog.goes_perform h₄) (fun _ => ⟨rfl, rfl⟩) ?_
    exact .step (Prog.goes_perform h₅) (fun _ => ⟨rfl, rfl⟩) .refl
  · refine (hothers 4).keyFree (.of_store ((hothers 3).keyFree hfree₃) ?_)
    rfl

/-- A rollback that finds nothing with its key returns only an operation that has succeeded. -/
theorem status_of_keyFree {y : Calls}
    (hothers : ∀ n, LeavesKey command.context.tenantId command.idempotencyKey (y n).2)
    (hfree : KeyFree command.context.tenantId command.idempotencyKey w')
    {operation : LifecycleOperation} {w'' : World}
    (h : (command.program settings).runAlone (execAmid exec) y w' = (.ok operation, w'')) :
    operation.status = .member .succeeded := by
  rw [program_eq] at h
  obtain ⟨duplicate, w₁, h₁, h⟩ := Prog.exists_of_runAlone_bind h
  rw [ask, Prog.runAlone_perform] at h₁
  have hnone : duplicate = none := by
    have hanswer := (exec_query_eq_ok h₁).1
    rw [answer_getByIdempotencyKey.2 ((hothers 0).keyFree hfree)] at hanswer
    exact (Except.ok.inj hanswer).symm
  subst hnone
  obtain ⟨document, w₂, -, h⟩ := Prog.exists_of_runAlone_bind h
  obtain ⟨target, w₃, -, h⟩ := Prog.exists_of_runAlone_bind h
  obtain ⟨document', target', hend⟩ := canEnd_of_decided (Prog.canEnd_of_runAlone h)
  obtain ⟨now, -, hend⟩ := Prog.canEnd_bind_ok.1 hend
  obtain ⟨operationId, -, hend⟩ := Prog.canEnd_bind_ok.1 hend
  obtain ⟨-, -, hend⟩ := Prog.canEnd_bind_ok.1 hend
  exact status_of_completeIngestion hend

/-- The transaction that adds the operation stores it as it is. -/
theorem row_of_adding {st st' : Store} {operation : LifecycleOperation} {tenantId : String}
    (hst : st.transact [.add tenantId .lifecycleOperations operation] = .ok st') :
    st'.row .lifecycleOperations (key operation) = some operation :=
  (row_of_transact_of_written (r := .lifecycleOperations) (l := []) hst (by decide) (by simp)
    (by simp) rfl _).trans (if_pos rfl)

/-- **An added operation stays pending**, if no later call changes a document. -/
theorem row_of_added {operationId : String} {now : ℕ} {error : Error} {y : Calls}
    (hothers : ∀ n, LeavesKey command.context.tenantId command.idempotencyKey (y n).2)
    (hfault : (y 0).1.fault = none) {store : Store}
    (hst : ((y 0).2 w).store.transact [.add command.context.tenantId .lifecycleOperations
      (command.operation settings document target now operationId)] = .ok store)
    (hraised : (adding settings command document target now operationId).runAlone
      (execAmid exec) y w = (.error error, w'))
    (hdocuments : (adding settings command document target now operationId).Throughout
      (execAmid exec) LeavesDocuments y w) :
    w'.store.row .lifecycleOperations (command.context.tenantId, operationId) =
      some (command.operation settings document target now operationId) := by
  have hcommit : (exec (addition settings command document target now operationId) (y 0).1
      ((y 0).2 w)).2 = { (y 0).2 w with store := store } := exec_commit hfault hst
  rcases hr : exec (addition settings command document target now operationId) (y 0).1
    ((y 0).2 w) with ⟨r, w₆⟩
  rw [hr] at hcommit
  have hrow : w₆.store.row .lifecycleOperations (command.context.tenantId, operationId) =
      some (command.operation settings document target now operationId) := by
    have hstore : w₆.store = store := congrArg World.store hcommit
    rw [hstore]
    exact row_of_adding hst
  cases r with
  | error e =>
    have hgoes : (adding settings command document target now operationId).Goes (execAmid exec)
        (y 0) w (.raise e) w₆ := Prog.goes_perform_error hr
    rw [hgoes.runAlone] at hraised
    cases hraised
    exact hrow
  | ok u =>
    have hgoes : (adding settings command document target now operationId).Goes (execAmid exec)
        (y 0) w (publishing settings command target operationId) w₆ := Prog.goes_perform hr
    rw [hgoes.throughout] at hdocuments
    have hmakes : Makes PublishCall (publishing settings command target operationId) :=
      makes_completeIngestion _ _
    have hstays := hmakes.runAlone_throughout
        (P := fun w => w.store.row .lifecycleOperations (command.context.tenantId, operationId) =
          some (command.operation settings document target now operationId))
        (fun n _ _ _ hrow ha hleaves => row_of_publishCall (hothers (n + 1)) hrow ha hleaves)
        hdocuments.2 hrow
    rw [hgoes.runAlone] at hraised
    have hend : ((publishing settings command target operationId).runAlone (execAmid exec)
        (fun m => y (m + 1)) w₆).2 = w' := congrArg Prod.snd hraised
    rw [← hend]
    exact hstays

/-- **A failed rollback leaves no trace exactly when its operation was not added.**  The rollback
runs among others that leave the operations with its key alone, and raises behind its checks. -/
theorem leavesNoTrace_iff (settings : Settings) (command : RollbackCommand) (x : Calls)
    (w w' : World) (error : Error)
    (hothers : ∀ n, LeavesKey command.context.tenantId command.idempotencyKey (x n).2)
    (hchecks : command.PassesChecks settings x w)
    (hraised : (command.program settings).runAlone (execAmid exec) x w = (.error error, w')) :
    command.LeavesNoTrace settings x w w' ↔ ¬ command.AddsOperation settings x w := by
  obtain ⟨document, target, now, operationId, w₅, hpasses, hfree⟩ := passes_adding hchecks hothers
  rw [hpasses.runAlone] at hraised
  constructor
  · rintro htrace ⟨task, knows, statements, store, htransaction, hfault, hst⟩
    have hdocuments := hpasses.throughout.1 htrace.documents
    rw [hpasses.after] at htransaction hst
    cases htransaction
    have hrow := row_of_added (fun n => hothers (n + 5)) hfault hst hraised hdocuments
    exact htrace.pending operationId _ hrow rfl rfl
  · intro hnot
    have hfails : ¬ ((x 5).1.fault = none ∧ ∃ store, ((x 5).2 w₅).store.transact
        [.add command.context.tenantId .lifecycleOperations
          (command.operation settings document target now operationId)] = .ok store) := by
      rintro ⟨hfault, store, hst⟩
      rw [AddsOperation, hpasses.after] at hnot
      exact hnot ⟨_, _, _, store, rfl, hfault, hst⟩
    -- the sixth call fails without an effect, and the run ends there
    obtain ⟨e, he⟩ : ∃ e, exec (addition settings command document target now operationId)
        (x 5).1 ((x 5).2 w₅) = (.error e, (x 5).2 w₅) := exec_commit_of_not hfails
    have hgoes : (adding settings command document target now operationId).Goes (execAmid exec)
        (x 5) w₅ (.raise e) ((x 5).2 w₅) := Prog.goes_perform_error he
    have hend := hraised.symm.trans (hgoes.runAlone (x := fun m => x (m + 5)))
    obtain rfl : w' = (x 5).2 w₅ := congrArg Prod.snd hend
    have hfree' := (hothers 5).keyFree hfree
    refine ⟨fun operationId operation hrow hkey _ => hfree' operationId operation hrow hkey, ?_,
      fun y hy operation w'' h => status_of_keyFree hy hfree' h⟩
    refine hpasses.throughout.2 ((hgoes.throughout (x := fun m => x (m + 5))).2 ⟨?_, trivial⟩)
    exact fun _ => ⟨rfl, rfl⟩

end RollbackCommand

/-! ## A rollback while the index is down -/

namespace Sample

def rollbackSettings : Settings :=
  { settings with
    sha256 := fun s => ([("rollback\x1fd\x1fv\x1fr",
      "d6c2d7715b10f3848d080668695b8ad6609bf8504069c649b622f442021f1cf3")].lookup s).getD "" }

/-- The document has moved on to a second version. -/
def movedOn : World where
  store := (Store.empty.put .documents
    ⟨[{ document with currentVersionId := some "v2", revision := 2 }], by simp⟩).put
      .documentVersions ⟨[{ version with status := .superseded }, { version with id := "v2" }],
        by simp [version]⟩
  index := { dimensions := 1, chunks := [chunk] }

def rollbackCommand : RollbackCommand where
  context := context
  documentId := "d"
  targetVersionId := "v"
  idempotencyKey := "k"
  reason := "r"

def indexDown : Error := .other "ConnectionError" "index is down"

/-- Nobody else does anything, and the call `n` fails before it takes effect. -/
def failsAt (n : ℕ) : RollbackCommand.Calls := fun m =>
  ({ now := 1, newId := "o", fault := if m = n then some indexDown else none }, id)

theorem leavesKey_failsAt (tenantId idempotencyKey : String) (n m : ℕ) :
    LeavesKey tenantId idempotencyKey (failsAt n m).2 :=
  fun _ _ _ _ => Iff.rfl

end Sample

namespace RollbackCommand

/-- The index cannot be asked whether the version has chunks, and the operation is left pending. -/
theorem not_leavesNoTrace_indexDown :
    let run := (Sample.rollbackCommand.program Sample.rollbackSettings).runAlone
      (execAmid exec) (Sample.failsAt 11) Sample.movedOn
    run.1 = .error Sample.indexDown ∧
      Sample.rollbackCommand.PassesChecks Sample.rollbackSettings (Sample.failsAt 11)
        Sample.movedOn ∧
      ¬ Sample.rollbackCommand.LeavesNoTrace Sample.rollbackSettings (Sample.failsAt 11)
        Sample.movedOn run.2 := by
  intro run
  have hraised : run.1 = .error Sample.indexDown := by decide +kernel
  have hchecks : 3 < (Sample.rollbackCommand.program Sample.rollbackSettings).callsAlone
      (execAmid exec) (Sample.failsAt 11) Sample.movedOn := by decide +kernel
  have hrow : (run.2.store.row .lifecycleOperations ("t", "o")).map
      (fun operation => (operation.idempotencyKey, operation.status)) =
        some ("k", .member .pending) := by decide +kernel
  refine ⟨hraised, hchecks, fun htrace => ?_⟩
  obtain ⟨operation, hoperation, hfields⟩ := Option.map_eq_some_iff.1 hrow
  obtain ⟨hkey, hstatus⟩ := Prod.mk.inj hfields
  exact htrace.pending "o" operation hoperation hkey hstatus

/-- When the operation cannot be added, nothing is left. -/
theorem leavesNoTrace_iff_notAdded :
    Sample.rollbackCommand.LeavesNoTrace Sample.rollbackSettings (Sample.failsAt 5)
      Sample.movedOn ((Sample.rollbackCommand.program Sample.rollbackSettings).runAlone
        (execAmid exec) (Sample.failsAt 5) Sample.movedOn).2 := by
  have hraised : ((Sample.rollbackCommand.program Sample.rollbackSettings).runAlone
      (execAmid exec) (Sample.failsAt 5) Sample.movedOn).1 = .error Sample.indexDown := by
    decide +kernel
  have hchecks : 3 < (Sample.rollbackCommand.program Sample.rollbackSettings).callsAlone
      (execAmid exec) (Sample.failsAt 5) Sample.movedOn := by decide +kernel
  refine (leavesNoTrace_iff Sample.rollbackSettings Sample.rollbackCommand (Sample.failsAt 5)
    Sample.movedOn _ Sample.indexDown (Sample.leavesKey_failsAt _ _ 5) hchecks
    (Prod.ext hraised rfl)).2 ?_
  rintro ⟨task, knows, statements, store, -, hfault, -⟩
  cases hfault

end RollbackCommand

end Knowledge
end RagflowAgent
