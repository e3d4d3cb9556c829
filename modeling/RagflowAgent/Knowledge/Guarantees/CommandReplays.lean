import RagflowAgent.Interleaving.Monitor
import RagflowAgent.Knowledge.Guarantees.OperationIdentity
import RagflowAgent.Text.Joined

/-!
# Commands that are sent again

A caller that got no answer sends its command again, under the same idempotency key, and so two
services work for one command at the same time.  Each looks for the key first and adds its
operation much later, in a transaction of its own, so both can find the key free.

* `Command.answer` is the service with the operation that it answers, `CommandIdentity` is what
  an idempotency key stands for;
* a `watcher` follows a caller and writes down what it has `Seen`, and `Answered` is what every
  caller has seen when it is answered, by the walks of the five services;
* `Sighted` is the invariant that relates what all callers have seen with the database;
* `replays_run`: callers with one key are answered copies of one operation, their commands agree,
  and at most one of them has changed anything.
-/

namespace RagflowAgent
namespace Knowledge

open Interleaving Keyed Monitor

/-! ## Answers and identities -/

/-- What an idempotency key stands for. -/
structure CommandIdentity where
  tenantId : String
  idempotencyKey : String
  documentId : String
  kind : LifecycleOperationKind
  /-- The texts that the fingerprint is computed from. -/
  parts : List String
  deriving DecidableEq, Repr

def CommandIdentity.fingerprint (settings : Settings) (identity : CommandIdentity) : String :=
  settings.fingerprint identity.kind identity.parts

namespace Command

/-- The identity of a command that has an idempotency key for an operation. -/
def identity (settings : Settings) : Command → Option CommandIdentity
  | update command => some {
      tenantId := command.context.tenantId
      idempotencyKey := command.idempotencyKey
      documentId := command.documentId
      kind := .update
      parts := [command.documentId, command.fileName, command.mediaType,
        settings.sha256 command.content, command.reason, command.batchId.getD ""] }
  | reparse command => some {
      tenantId := command.context.tenantId
      idempotencyKey := command.idempotencyKey
      documentId := command.documentId
      kind := .reparse
      parts := [command.documentId, command.reason, command.batchId.getD ""] }
  | rollback context documentId targetVersionId idempotencyKey reason => some {
      tenantId := context.tenantId
      idempotencyKey := idempotencyKey
      documentId := documentId
      kind := .rollback
      parts := [documentId, targetVersionId, reason] }
  | requestDelete context documentId idempotencyKey reason => some {
      tenantId := context.tenantId
      idempotencyKey := idempotencyKey
      documentId := documentId
      kind := .delete
      parts := [documentId, reason] }
  | restore context documentId idempotencyKey reason => some {
      tenantId := context.tenantId
      idempotencyKey := idempotencyKey
      documentId := documentId
      kind := .restore
      parts := [documentId, reason] }
  | _ => none

/-- The service of a command, with the operation that it answers. -/
def answer (settings : Settings) : Command → Service (Option LifecycleOperation)
  | update command => do
    let submitted ← DocumentUpdateService.update settings command
    pure (some submitted.operation)
  | reparse command => do
    let submitted ← DocumentUpdateService.reparse settings command
    pure (some submitted.operation)
  | rollback context documentId targetVersionId idempotencyKey reason => do
    let operation ← DocumentVersionPublisher.rollback settings context documentId
      targetVersionId idempotencyKey reason
    pure (some operation)
  | requestDelete context documentId idempotencyKey reason => do
    let operation ← DocumentDeletionService.requestDelete settings context documentId
      idempotencyKey reason
    pure (some operation)
  | restore context documentId idempotencyKey reason => do
    let operation ← DocumentDeletionService.restore settings context documentId idempotencyKey
      reason
    pure (some operation)
  | command => do
    command.service settings
    pure none

end Command

/-- The operation is the one of a command. -/
structure LifecycleOperation.IsOf (operation : LifecycleOperation) (settings : Settings)
    (identity : CommandIdentity) : Prop where
  tenantId : operation.tenantId = identity.tenantId
  idempotencyKey : operation.idempotencyKey = identity.idempotencyKey
  documentId : operation.documentId = identity.documentId
  kind : operation.kind = identity.kind
  commandFingerprint : operation.commandFingerprint = some (identity.fingerprint settings)

/-- A copy is the operation of the same command. -/
theorem LifecycleOperation.IsOf.of_sameCommand {operation operation' : LifecycleOperation}
    {settings : Settings} {identity : CommandIdentity} (h : operation.IsOf settings identity)
    (hsame : operation'.SameCommand operation) : operation'.IsOf settings identity where
  tenantId := hsame.tenantId.trans h.tenantId
  idempotencyKey := hsame.idempotencyKey.trans h.idempotencyKey
  documentId := hsame.documentId.trans h.documentId
  kind := hsame.kind.trans h.kind
  commandFingerprint := hsame.commandFingerprint.trans h.commandFingerprint

/-! ## The watcher -/

/-- What a caller has seen. -/
inductive Seen where
  /-- A row that it asked for. -/
  | row (r : Resource) (tenantId resourceId : String) (entity : r.Row)
  /-- An operation that it found under an idempotency key. -/
  | replayed (tenantId idempotencyKey : String) (operation : LifecycleOperation)
  /-- An operation that it has added. -/
  | added (operation : LifecycleOperation)
  /-- That it has tried to change something. -/
  | acted

def Query.seen {β : Type} : Query β → β → List Seen
  | get r tenantId resourceId, o => o.toList.map (.row r tenantId resourceId)
  | getByIdempotencyKey tenantId idempotencyKey, o =>
    o.toList.map (.replayed tenantId idempotencyKey)
  | _, _ => []

/-- The operation that a statement adds. -/
def Stmt.added : Stmt → Option LifecycleOperation
  | .add _ .lifecycleOperations operation => some operation
  | _ => none

def Call.seen {β : Type} : Call β → β → List Seen
  | query q, b => q.seen b
  | commit statements, _ => .acted :: (statements.filterMap Stmt.added).map .added
  | changeIndex _, _ => [.acted]
  | changeObjects _, _ => [.acted]
  | _, _ => []

/-- What a caller has seen after an answer.  A change that is answered with an error may have
taken effect. -/
def look (m : List Seen) ⦃β : Type⦄ (a : Action β) : Except Error β → List Seen
  | .ok b => m ++ a.call.seen b
  | .error _ => if a.call.change.isSome then m ++ [.acted] else m

/-- The watcher that forbids nothing. -/
def watcher : Monitor Action Error (List Seen) where
  licit _ _ _ := True
  next := look

theorem subset_look (m : List Seen) {β : Type} (a : Action β) (r : Except Error β) :
    m ⊆ look m a r := by
  cases r with
  | ok b => exact List.subset_append_left _ _
  | error e =>
    rw [look]
    split
    · exact List.subset_append_left _ _
    · exact List.Subset.refl _

/-- Who has not tried to change anything has changed nothing but the clock. -/
theorem frame_of_look {m : List Seen} {β : Type} {a : Action β} {x : Input} {w : World}
    (h : Seen.acted ∉ look m a (exec a x w).1) :
    ∃ n, (exec a x w).2 = { w with clock := n } := by
  have hchange : a.call.change = none := by
    obtain ⟨task, knows, call⟩ := a
    cases hr : (exec ⟨task, knows, call⟩ x w).1 with
    | ok b =>
      rw [hr] at h
      cases call <;> first | rfl | simp [look, Call.seen] at h
    | error e =>
      rw [hr] at h
      cases call <;> first | rfl | simp [look, Call.change] at h
  obtain ⟨hstore, hindex, hobjects⟩ := exec_frame a x w
  rw [hchange] at hstore hindex hobjects
  have hstore := hstore (by simp)
  have hindex := hindex (by simp)
  have hobjects := hobjects (by simp)
  refine ⟨(exec a x w).2.clock, ?_⟩
  rw [← hstore, ← hindex, ← hobjects]

/-- `Q` holds of what a service returns and of what its caller has seen then. -/
def Sees {α : Type} (p : Service α) (Q : α → List Seen → Prop) (m : List Seen) : Prop :=
  watcher.Conforms p Q (fun _ _ => True) m

namespace Sees

variable {α β : Type} {Q : α → List Seen → Prop} {m : List Seen} {task : Task}
  {knows : List Fact}

theorem ret {a : α} (h : Q a m) : Sees (.ret a) Q m := h

theorem raise {e : Error} : Sees (.raise e : Service α) Q m := trivial

theorem bind {p : Service β} {f : β → Service α} {R : β → List Seen → Prop} (hp : Sees p R m)
    (hf : ∀ b m', R b m' → Sees (f b) Q m') : Sees (p.bind f) Q m :=
  conforms_bind hp hf

theorem ask {call : Call β} {f : β → Service α}
    (hf : ∀ b, Sees (f b) Q (m ++ call.seen b)) :
    Sees ((Knowledge.ask task knows call).bind f) Q m :=
  bind (R := fun b m' => m' = m ++ call.seen b)
    (conforms_perform trivial (fun _ => rfl) fun _ => trivial) fun b _ hb => hb ▸ hf b

/-- A last call. -/
theorem ask' {call : Call α} (hQ : ∀ a, Q a (m ++ call.seen a)) :
    Sees (Knowledge.ask task knows call) Q m :=
  conforms_perform trivial hQ fun _ => trivial

theorem lift {r : Except Error β} {f : β → Service α} (hf : ∀ b, r = .ok b → Sees (f b) Q m) :
    Sees ((Prog.ofExcept r : Service β).bind f) Q m :=
  bind (R := fun b m' => r = .ok b ∧ m' = m)
    (conforms_ofExcept (fun _ hb => ⟨hb, rfl⟩) fun _ _ => trivial) fun b _ hb => hb.2 ▸ hf b hb.1

/-- A last pure computation. -/
theorem lift' {r : Except Error α} (hQ : ∀ a, r = .ok a → Q a m) :
    Sees (Prog.ofExcept r : Service α) Q m :=
  conforms_ofExcept hQ fun _ _ => trivial

theorem raiseWhen {p : Prop} [Decidable p] {e : Error} {f : Unit → Service α}
    (hf : ¬ p → Sees (f ()) Q m) : Sees ((Prog.raiseWhen p e : Service Unit).bind f) Q m :=
  bind (R := fun _ m' => ¬ p ∧ m' = m)
    (conforms_raiseWhen (fun _ => trivial) fun hp => ⟨hp, rfl⟩) fun _ _ hb => hb.2 ▸ hf hb.1

theorem mono {p : Service α} {Q' : α → List Seen → Prop} (h : Sees p Q m)
    (hQ : ∀ a m', Q a m' → Q' a m') : Sees p Q' m :=
  Conforms.mono h hQ fun _ _ _ => trivial

/-- Whatever a service does, its caller forgets nothing. -/
theorem remembers (p : Service α) (m : List Seen) : Sees p (fun _ m' => m ⊆ m') m := by
  induction p generalizing m with
  | ret a => exact List.Subset.refl _
  | raise e => trivial
  | call a k ih =>
    refine ⟨trivial, fun r => ?_⟩
    exact (ih r (look m a r)).mono fun _ _ h => List.Subset.trans (subset_look m a r) h

theorem and {p : Service α} {Q' : α → List Seen → Prop} (h : Sees p Q m) (h' : Sees p Q' m) :
    Sees p (fun a m' => Q a m' ∧ Q' a m') m := by
  induction p generalizing m with
  | ret a => exact ⟨h, h'⟩
  | raise e => trivial
  | call a k ih => exact ⟨trivial, fun r => ih r (h.2 r) (h'.2 r)⟩

/-- What the caller has seen before it still has seen. -/
theorem bind_keep {p : Service β} {f : β → Service α} {R : β → List Seen → Prop}
    (hp : Sees p R m) (hf : ∀ b m', R b m' → m ⊆ m' → Sees (f b) Q m') : Sees (p.bind f) Q m :=
  bind (hp.and (remembers p m)) fun b m' h => hf b m' h.1 h.2

end Sees

/-! ## The walks -/

/-- What a caller has seen when it is answered: the operation that was found under its key, and
then it has not tried to change anything, or an operation that it has added itself, perhaps in a
later copy. -/
inductive Answered (settings : Settings) (identity : CommandIdentity)
    (operation : LifecycleOperation) (m : List Seen) : Prop where
  | replayed : Seen.replayed identity.tenantId identity.idempotencyKey operation ∈ m →
      operation.documentId = identity.documentId → operation.kind = identity.kind →
      operation.commandFingerprint = some (identity.fingerprint settings) →
      Seen.acted ∉ m → Answered settings identity operation m
  | added {added : LifecycleOperation} {document : Document} : Seen.added added ∈ m →
      Seen.row .documents identity.tenantId identity.documentId document ∈ m →
      (document.id = identity.documentId → added.IsOf settings identity) →
      (operation = added ∨ ∃ loaded,
        Seen.row .lifecycleOperations identity.tenantId added.id loaded ∈ m ∧
          operation.SameCommand loaded) →
      Answered settings identity operation m

/-- A caller that asks for the document of its command, once its key was free. -/
theorem mem_seen_documents {m : List Seen} {tenantId documentId : String} {document : Document} :
    Seen.row .documents tenantId documentId document ∈ m ++
      (Call.query (.get .documents tenantId documentId)).seen (some document) := by
  simp [Call.seen, Query.seen]

section Callers

variable {settings : Settings} {context : AuthorizationContext} {m : List Seen}

namespace DocumentUpdateService

theorem sees_existing {documentId idempotencyKey fingerprint : String}
    {kind : LifecycleOperationKind} (hm : Seen.acted ∉ m) :
    Sees (existing settings context documentId idempotencyKey kind fingerprint)
      (fun submitted m' => ∀ s ∈ submitted,
        Seen.replayed context.tenantId idempotencyKey s.operation ∈ m' ∧ Seen.acted ∉ m' ∧
          s.operation.documentId = documentId ∧ s.operation.kind = kind ∧
          s.operation.commandFingerprint = some fingerprint) m := by
  refine Sees.ask fun operation => ?_
  cases operation with
  | none => exact Sees.ret (by simp)
  | some operation =>
    refine Sees.raiseWhen fun hmatch => ?_
    simp only [not_or, not_not] at hmatch
    refine Sees.ask fun document => Sees.ask fun job => Sees.ask fun event => ?_
    cases document with
    | none => exact Sees.raise
    | some document =>
      refine Sees.lift fun _ _ => ?_
      split
      · exact Sees.raise
      · exact Sees.raise
      · refine Sees.ret fun s hs => ?_
        cases hs
        exact ⟨by simp [Call.seen, Query.seen], by simp [Call.seen, Query.seen, hm], hmatch⟩

/-- A registration adds its operation. -/
theorem sees_register {request : RegisterRequest} {knows : List Fact} :
    Sees (register settings request knows)
      (fun submitted m' => ∃ document currentVersionId operationId now,
        Seen.row .documents request.context.tenantId request.documentId document ∈ m' ∧
          Seen.added submitted.operation ∈ m' ∧
          submitted.operation =
            (registration settings request document currentVersionId operationId now).operation)
      m := by
  refine Sees.ask fun now => Sees.ask fun operationId => Sees.ask fun document => ?_
  cases document with
  | none => exact Sees.raise
  | some document =>
    refine Sees.lift fun _ _ => ?_
    split
    · exact Sees.raise
    · rename_i currentVersionId _
      refine Sees.ask fun _ => Sees.ret ?_
      refine ⟨document, currentVersionId, operationId, now, ?_, ?_, rfl⟩
      · exact List.mem_append_left _ mem_seen_documents
      · exact List.mem_append_right _ (List.mem_cons_of_mem _ (List.mem_map.2
          ⟨_, List.mem_filterMap.2 ⟨.add request.context.tenantId .lifecycleOperations
            (registration settings request document currentVersionId operationId now).operation,
            by simp [Registration.statements], rfl⟩, rfl⟩))

/-- A registration for a command. -/
theorem answered_of_register {request : RegisterRequest} {knows : List Fact}
    {identity : CommandIdentity} (htenant : request.context.tenantId = identity.tenantId)
    (hkey : request.idempotencyKey = identity.idempotencyKey)
    (hdocument : request.documentId = identity.documentId)
    (hkind : request.kind = identity.kind)
    (hfingerprint : request.commandFingerprint = identity.fingerprint settings) :
    Sees (register settings request knows)
      (fun submitted m' => Answered settings identity submitted.operation m') m := by
  refine sees_register.mono ?_
  rintro submitted m' ⟨document, currentVersionId, operationId, now, hrow, hadded, hoperation⟩
  rw [htenant, hdocument] at hrow
  refine .added hadded hrow (fun hid => ?_) (.inl rfl)
  rw [hoperation]
  exact ⟨htenant, hkey, hid, hkind, by rw [← hfingerprint]; rfl⟩

theorem sees_update {command : UpdateDocumentCommand} {identity : CommandIdentity}
    (hidentity : (Command.update command).identity settings = some identity) :
    Sees (update settings command)
      (fun submitted m => Answered settings identity submitted.operation m) [] := by
  cases hidentity
  refine Sees.raiseWhen fun _ => ?_
  refine Sees.bind (sees_existing List.not_mem_nil) fun submitted m' hsubmitted => ?_
  cases submitted with
  | some submitted =>
    obtain ⟨hreplayed, hquiet, hdocument, hkind, hfingerprint⟩ := hsubmitted submitted rfl
    exact Sees.ret (.replayed hreplayed hdocument hkind hfingerprint hquiet)
  | none =>
    refine Sees.bind (Sees.remembers _ _) fun _ _ _ => ?_
    exact Sees.ask fun versionId => Sees.ask fun _ => answered_of_register rfl rfl rfl rfl rfl

theorem sees_reparse {command : ReparseDocumentCommand} {identity : CommandIdentity}
    (hidentity : (Command.reparse command).identity settings = some identity) :
    Sees (reparse settings command)
      (fun submitted m => Answered settings identity submitted.operation m) [] := by
  cases hidentity
  refine Sees.bind (sees_existing List.not_mem_nil) fun submitted m' hsubmitted => ?_
  cases submitted with
  | some submitted =>
    obtain ⟨hreplayed, hquiet, hdocument, hkind, hfingerprint⟩ := hsubmitted submitted rfl
    exact Sees.ret (.replayed hreplayed hdocument hkind hfingerprint hquiet)
  | none =>
    refine Sees.ask fun document => ?_
    split
    · refine Sees.lift fun _ _ => Sees.ask fun current => ?_
      cases current with
      | none => exact Sees.raise
      | some current =>
        exact Sees.ask fun versionId => answered_of_register rfl rfl rfl rfl rfl
    · exact Sees.raise

end DocumentUpdateService

namespace DocumentVersionPublisher

theorem sees_load {operationId : String} {task : Task} {knows : List Fact} :
    Sees (load context operationId task knows)
      (fun loaded m' =>
        Seen.row .lifecycleOperations context.tenantId operationId loaded.operation ∈ m') m := by
  refine Sees.ask fun operation => ?_
  cases operation with
  | none => exact Sees.raise
  | some operation =>
    refine Sees.ask fun document => Sees.ask fun version => ?_
    refine Sees.bind_keep (Sees.remembers _ _) fun previous m' _ hm' => ?_
    split
    · exact Sees.ret (hm' (by simp [Call.seen, Query.seen]))
    · exact Sees.raise

/-- A publication returns a copy of what was loaded. -/
theorem sees_publish {loaded : Loaded} {indexVersionId : String} {task : Task}
    {knows : List Fact} :
    Sees (publish settings context loaded indexVersionId task knows)
      (fun operation _ => operation.SameCommand loaded.operation) m := by
  refine Sees.raiseWhen fun _ => Sees.raiseWhen fun _ => ?_
  refine Sees.ask fun now => Sees.ask fun count => Sees.raiseWhen fun _ => ?_
  refine Sees.lift fun operation hvalidate => ?_
  obtain ⟨steps, rfl⟩ := updateStep_eq_ok hvalidate
  refine Sees.ask fun _ => Sees.lift fun operation hpromote => ?_
  obtain ⟨steps', rfl⟩ := updateStep_eq_ok hpromote
  refine Sees.lift fun p hp => Sees.ask fun _ => ?_
  obtain ⟨-, -, -, -, -, -, steps'', hoperation⟩ := publication_eq_ok hp
  have hsame : p.operation.SameCommand loaded.operation := by
    rw [hoperation]
    exact ⟨rfl, rfl, rfl, rfl, rfl, rfl⟩
  cases p.retired with
  | none => exact Sees.ret hsame
  | some retired => exact Sees.ask fun _ => Sees.ret hsame

theorem sees_completeIngestion {operationId indexVersionId : String} {task : Task}
    {knows : List Fact} :
    Sees (completeIngestion settings context operationId indexVersionId task knows)
      (fun operation m' => ∃ loaded,
        Seen.row .lifecycleOperations context.tenantId operationId loaded ∈ m' ∧
          operation.SameCommand loaded) m := by
  refine Sees.bind sees_load fun loaded m' hloaded => ?_
  split
  · exact Sees.ret ⟨_, hloaded, .refl _⟩
  · refine (sees_publish.and (Sees.remembers _ _)).mono fun operation m'' h => ?_
    exact ⟨_, h.2 hloaded, h.1⟩

theorem sees_rollback {documentId targetVersionId idempotencyKey reason : String}
    {identity : CommandIdentity}
    (hidentity : (Command.rollback context documentId targetVersionId idempotencyKey
      reason).identity settings = some identity) :
    Sees (rollback settings context documentId targetVersionId idempotencyKey reason)
      (fun operation m => Answered settings identity operation m) [] := by
  cases hidentity
  refine Sees.ask fun duplicate => Sees.ask fun document => Sees.ask fun target => ?_
  cases document with
  | none => exact Sees.raise
  | some document =>
    cases target with
    | none => exact Sees.raise
    | some target =>
      refine Sees.lift fun _ _ => ?_
      cases duplicate with
      | some duplicate =>
        refine Sees.lift' fun operation hduplicate => ?_
        rw [matchDuplicate] at hduplicate
        split at hduplicate
        · cases hduplicate
        rename_i hmatch
        cases hduplicate
        simp only [not_or, not_not] at hmatch
        obtain ⟨hkind, hdocument, -, hfingerprint⟩ := hmatch
        exact .replayed (by simp [Call.seen, Query.seen]) hdocument hkind hfingerprint
          (by simp [Call.seen, Query.seen])
      | none =>
        refine Sees.raiseWhen fun _ => Sees.ask fun now => Sees.ask fun operationId => ?_
        refine Sees.ask fun _ => ?_
        refine (sees_completeIngestion.and (Sees.remembers _ _)).mono ?_
        rintro operation m' ⟨hloaded, hm'⟩
        have hrow : Seen.row .documents context.tenantId documentId document ∈ m' :=
          hm' (by simp [Call.seen, Query.seen])
        have hadded : Seen.added (rollbackOperation context document target operationId
            idempotencyKey reason (settings.fingerprint .rollback
              [documentId, targetVersionId, reason]) now) ∈ m' :=
          hm' (List.mem_append_right _ (List.mem_cons_of_mem _ List.mem_cons_self))
        exact .added hadded hrow (fun hid => ⟨rfl, rfl, hid, rfl, rfl⟩) (.inr hloaded)

end DocumentVersionPublisher

namespace DocumentDeletionService

/-- A duplicate that matches was found under the key. -/
theorem answered_of_matching {duplicate operation : LifecycleOperation}
    {identity : CommandIdentity}
    (h : requireMatchingDuplicate duplicate identity.kind identity.documentId
      (identity.fingerprint settings) = .ok operation)
    (hreplayed : Seen.replayed identity.tenantId identity.idempotencyKey duplicate ∈ m)
    (hm : Seen.acted ∉ m) : Answered settings identity operation m := by
  rw [requireMatchingDuplicate] at h
  split at h
  · cases h
  rename_i hmatch
  cases h
  simp only [not_or, not_not] at hmatch
  exact .replayed hreplayed hmatch.2.1 hmatch.1 hmatch.2.2 hm

theorem sees_requestDelete {documentId idempotencyKey reason : String}
    {identity : CommandIdentity}
    (hidentity : (Command.requestDelete context documentId idempotencyKey reason).identity
      settings = some identity) :
    Sees (requestDelete settings context documentId idempotencyKey reason)
      (fun operation m => Answered settings identity operation m) [] := by
  cases hidentity
  refine Sees.ask fun duplicate => Sees.ask fun document => ?_
  cases document with
  | none => exact Sees.raise
  | some document =>
    refine Sees.lift fun _ _ => ?_
    cases duplicate with
    | some duplicate =>
      refine Sees.lift' fun operation hduplicate => ?_
      exact answered_of_matching hduplicate (by simp [Call.seen, Query.seen])
        (by simp [Call.seen, Query.seen])
    | none =>
      dsimp only
      split
      · refine Sees.ask fun now => Sees.ask fun operationId => Sees.ask fun _ =>
          Sees.bind_keep (Sees.remembers _ _) fun _ m' _ hm' => Sees.ret ?_
        have hrow : Seen.row .documents context.tenantId documentId document ∈ m' :=
          hm' (by simp [Call.seen, Query.seen])
        exact .added (hm' (List.mem_append_right _ (List.mem_cons_of_mem _ List.mem_cons_self)))
          hrow (fun hid => ⟨rfl, rfl, hid, rfl, rfl⟩) (.inl rfl)
      · exact Sees.raise

/-- A restoration adds its operation. -/
theorem sees_restoreTarget {document : Document} {deletion : Option LifecycleOperation}
    {target : Option DocumentVersion} {idempotencyKey reason fingerprint : String} :
    Sees (restoreTarget context document deletion target idempotencyKey reason fingerprint)
      (fun operation m' => Seen.added operation ∈ m' ∧ ∃ versionId operationId now,
        operation = restoration context document versionId operationId idempotencyKey reason
          fingerprint now) m := by
  refine Sees.ask fun now => Sees.raiseWhen fun _ => ?_
  cases target with
  | none => exact Sees.raise
  | some target =>
    refine Sees.ask fun count => Sees.raiseWhen fun _ => Sees.ask fun _ => ?_
    refine Sees.lift fun ready _ => Sees.lift fun restored _ => ?_
    refine Sees.ask fun operationId => Sees.ask fun _ => Sees.ret ⟨?_, _, _, _, rfl⟩
    exact List.mem_append_right _ (List.mem_cons_of_mem _ List.mem_cons_self)

theorem sees_restore {documentId idempotencyKey reason : String} {identity : CommandIdentity}
    (hidentity : (Command.restore context documentId idempotencyKey reason).identity settings =
      some identity) :
    Sees (restore settings context documentId idempotencyKey reason)
      (fun operation m => Answered settings identity operation m) [] := by
  cases hidentity
  refine Sees.ask fun duplicate => Sees.ask fun document => ?_
  cases document with
  | none => exact Sees.raise
  | some document =>
    refine Sees.lift fun _ _ => ?_
    cases duplicate with
    | some duplicate =>
      refine Sees.lift' fun operation hduplicate => ?_
      exact answered_of_matching hduplicate (by simp [Call.seen, Query.seen])
        (by simp [Call.seen, Query.seen])
    | none =>
      refine Sees.ask fun operations => ?_
      refine Sees.bind_keep (Sees.remembers _ _) fun target m' _ hm' => ?_
      refine (sees_restoreTarget.and (Sees.remembers _ _)).mono ?_
      rintro operation m'' ⟨⟨hadded, versionId, operationId, now, rfl⟩, hm''⟩
      have hrow : Seen.row .documents context.tenantId documentId document ∈ m'' :=
        hm'' (hm' (by simp [Call.seen, Query.seen]))
      exact .added hadded hrow (fun hid => ⟨rfl, rfl, hid, rfl, rfl⟩) (.inl rfl)

end DocumentDeletionService

/-- **What every caller has seen when it is answered.** -/
theorem sees_answer {command : Command} {identity : CommandIdentity}
    (hidentity : command.identity settings = some identity) :
    Sees (command.answer settings)
      (fun answer m => ∀ operation ∈ answer, Answered settings identity operation m) [] := by
  have hsome : ∀ {operation : LifecycleOperation} {m : List Seen},
      Answered settings identity operation m →
      ∀ operation' ∈ some operation, Answered settings identity operation' m := by
    rintro operation m h operation' ⟨⟩
    exact h
  cases command with
  | update command =>
    exact Sees.bind (DocumentUpdateService.sees_update hidentity) fun _ _ h =>
      Sees.ret (hsome h)
  | reparse command =>
    exact Sees.bind (DocumentUpdateService.sees_reparse hidentity) fun _ _ h =>
      Sees.ret (hsome h)
  | rollback context documentId targetVersionId idempotencyKey reason =>
    exact Sees.bind (DocumentVersionPublisher.sees_rollback hidentity) fun _ _ h =>
      Sees.ret (hsome h)
  | requestDelete context documentId idempotencyKey reason =>
    exact Sees.bind (DocumentDeletionService.sees_requestDelete hidentity) fun _ _ h =>
      Sees.ret (hsome h)
  | restore context documentId idempotencyKey reason =>
    exact Sees.bind (DocumentDeletionService.sees_restore hidentity) fun _ _ h =>
      Sees.ret (hsome h)
  | _ => cases hidentity

/-! ## What all callers have seen -/

/-- What was seen is true of the database. -/
def Seen.Holds (st : Store) : Seen → Prop
  | row r tenantId resourceId entity =>
    key entity = (tenantId, resourceId) ∧ (Fact.stored r entity).Remembered st
  | replayed tenantId idempotencyKey operation =>
    operation.tenantId = tenantId ∧ operation.idempotencyKey = idempotencyKey ∧
      operation.Remembered st
  | added operation => operation.Remembered st
  | acted => True

theorem Seen.Holds.keeps {st st' : Store} {s : Seen} (h : s.Holds st)
    (hkeeps : KeepsCommands st st') : s.Holds st' := by
  cases s with
  | row r tenantId resourceId entity => exact ⟨h.1, h.2.keeps hkeeps⟩
  | replayed tenantId idempotencyKey operation => exact ⟨h.1, h.2.1, h.2.2.keeps hkeeps⟩
  | added operation => exact LifecycleOperation.Remembered.keeps h hkeeps
  | acted => trivial

/-- What a query shows is true. -/
theorem holds_of_query {β : Type} {q : Query β} {b : β} {w : World} (hq : q.answer w = .ok b)
    {s : Seen} (hs : s ∈ q.seen b) : s.Holds w.store := by
  obtain ⟨hanswers, hfacts⟩ := Query.answer_spec hq
  cases q with
  | get r tenantId resourceId =>
    obtain ⟨entity, hentity, rfl⟩ := List.mem_map.1 hs
    rw [Option.mem_toList] at hentity
    have hfact : Fact.stored r entity ∈ (Query.get r tenantId resourceId).facts b :=
      List.mem_flatMap.2 ⟨entity, Option.mem_toList.2 hentity, stored_mem_ofRow entity⟩
    exact ⟨(hanswers entity hentity).1, .read (hfacts _ hfact)⟩
  | getByIdempotencyKey tenantId idempotencyKey =>
    obtain ⟨operation, hoperation, rfl⟩ := List.mem_map.1 hs
    rw [Option.mem_toList] at hoperation
    have hfact : Fact.stored .lifecycleOperations operation ∈
        (Query.getByIdempotencyKey tenantId idempotencyKey).facts b :=
      List.mem_flatMap.2 ⟨operation, Option.mem_toList.2 hoperation,
        stored_mem_ofRow (r := .lifecycleOperations) operation⟩
    have hremembered := Fact.Remembered.read (hfacts _ hfact)
    exact ⟨(hanswers operation hoperation).1, (hanswers operation hoperation).2, hremembered⟩
  | _ => cases hs

/-- What the calls of the catalogue show is true after the call, and an operation that one of
them adds was not there before. -/
theorem holds_of_seen {β : Type} {a : Action β} {x : Input} {w w' : World} {b : β}
    (hlicit : a.Licit) (heffect : a.call.effect x w = .ok (b, w')) {s : Seen}
    (hs : s ∈ a.call.seen b) :
    s.Holds w'.store ∧ ∀ operation, s = .added operation →
      w.store.row .lifecycleOperations (key operation) = none := by
  obtain ⟨task, knows, call⟩ := a
  cases call with
  | query q =>
    obtain ⟨b', hanswer, hb⟩ := map_eq_ok.1 heffect
    cases hb
    refine ⟨holds_of_query hanswer hs, ?_⟩
    rintro operation rfl
    cases q <;> simp [Call.seen, Query.seen] at hs
  | commit statements =>
    obtain ⟨store, hst, hb⟩ := map_eq_ok.1 heffect
    cases hb
    obtain rfl | hs := List.mem_cons.1 hs
    · exact ⟨trivial, by simp⟩
    obtain ⟨operation, hoperation, rfl⟩ := List.mem_map.1 hs
    obtain ⟨statement, hmem, hadded⟩ := List.mem_filterMap.1 hoperation
    unfold Stmt.added at hadded
    split at hadded
    · cases hadded
      obtain ⟨hnone, hsome⟩ := Writes.row_of_add hlicit hst hmem
      refine ⟨⟨operation, hsome, .refl operation⟩, ?_⟩
      rintro operation' ⟨⟩
      exact hnone
    · cases hadded
  | changeIndex change =>
    rw [List.mem_singleton.1 hs]
    exact ⟨trivial, by simp⟩
  | changeObjects change =>
    rw [List.mem_singleton.1 hs]
    exact ⟨trivial, by simp⟩
  | _ => cases hs

/-- One look at an answer. -/
theorem holds_of_look {β : Type} {a : Action β} {x : Input} {w : World} {m : List Seen}
    (hlicit : a.Licit) {s : Seen} (hs : s ∈ look m a (exec a x w).1) :
    s ∈ m ∨ s.Holds (exec a x w).2.store ∧ ∀ operation, s = .added operation →
      w.store.row .lifecycleOperations (key operation) = none := by
  have herror : ∀ e, s ∈ look m a (.error e) → s ∈ m ∨ s = .acted := by
    intro e hs
    rw [look] at hs
    split at hs
    · simpa using hs
    · exact .inl hs
  have hacted : s ∈ m ∨ s = .acted → s ∈ m ∨ s.Holds (exec a x w).2.store ∧
      ∀ operation, s = .added operation →
        w.store.row .lifecycleOperations (key operation) = none := by
    rintro (hs | rfl)
    · exact .inl hs
    · exact .inr ⟨trivial, by simp⟩
  obtain ⟨e, he⟩ | ⟨-, b, w', heffect, he | ⟨e, he⟩⟩ := exec_cases a x w
  · rw [he] at hs
    exact hacted (herror e hs)
  · rw [he] at hs ⊢
    exact (List.mem_append.1 hs).imp_right (holds_of_seen hlicit heffect)
  · rw [he] at hs
    exact hacted (herror e hs)

/-- The invariant: what the callers have seen is true, and no two have added one operation. -/
structure Sighted {τ : Type} (ms : τ → List Seen) (w : World) : Prop where
  holds : ∀ t, ∀ s ∈ ms t, s.Holds w.store
  apart : ∀ t u, t ≠ u → ∀ a b, Seen.added a ∈ ms t → Seen.added b ∈ ms u → key a ≠ key b

/-! ## Runs -/

section Runs

variable {τ : Type} {commands : τ → Command} {w : World}

/-- Any number of callers who wait for their operations. -/
def answers (settings : Settings) (commands : τ → Command) (w : World) :
    Config Action Error (Option LifecycleOperation) World τ :=
  ⟨w, fun t => (commands t).answer settings⟩

theorem disciplined_answer {command : Command} :
    (conduct fun _ => True).Disciplined (command.answer settings) := by
  cases command with
  | update command =>
    exact Discipline.obeys_bind (DocumentUpdateService.conducts_update trivial trivial)
      fun _ _ _ => trivial
  | reparse command =>
    exact Discipline.obeys_bind (DocumentUpdateService.conducts_reparse trivial trivial)
      fun _ _ _ => trivial
  | rollback context documentId targetVersionId idempotencyKey reason =>
    exact Discipline.obeys_bind
      (DocumentVersionPublisher.conducts_rollback trivial trivial trivial) fun _ _ _ => trivial
  | requestDelete context documentId idempotencyKey reason =>
    exact Discipline.obeys_bind
      (DocumentDeletionService.conducts_requestDelete trivial trivial) fun _ _ _ => trivial
  | restore context documentId idempotencyKey reason =>
    exact Discipline.obeys_bind (DocumentDeletionService.conducts_restore trivial)
      fun _ _ _ => trivial
  | _ =>
    exact Discipline.obeys_bind (disciplined_service fun _ _ => trivial) fun _ _ _ => trivial

variable [DecidableEq τ]

/-- The call that is made is one of the catalogue, and it leaves every operation the operation
of its command. -/
def StepKeeps (cfg : Config Action Error (Option LifecycleOperation) World τ) (t : τ) (x : Input) :
    Prop :=
  (conduct fun _ => True).Obedient (cfg.threads t) ∧
    KeepsCommands cfg.state.store (cfg.step exec t x).state.store

/-- The threads are sound and keep to the catalogue. -/
structure Answering (cfg : Config Action Error (Option LifecycleOperation) World τ) : Prop where
  sound : Protocol.Sound commandTerms.protocol cfg
  obedient : ∀ t, (conduct fun _ => True).Obedient (cfg.threads t)

omit [DecidableEq τ] in
theorem answering_answers (hw : KeysUnique w.store) : Answering (answers settings commands w) where
  sound := commandTerms_obligations.supports.sound hw fun _ => disciplined_answer
  obedient _ := Discipline.Disciplined.obedient disciplined_answer

variable {cfg : Config Action Error (Option LifecycleOperation) World τ} {t u : τ} {x : Input}
  {l : List (τ × Input)}

omit [DecidableEq τ] in
/-- Nothing is asked of the steps. -/
theorem coordinates_commandTerms : Protocol.Coordinates commandTerms.protocol
    fun (_ : Config Action Error (Option LifecycleOperation) World τ) _ _ => True where
  allow _ _ := trivial
  rely _ _ _ _ _ hguar := hguar

theorem Answering.step (h : Answering cfg) (t : τ) (x : Input) : Answering (cfg.step exec t x) where
  sound := h.sound.step coordinates_commandTerms trivial
  obedient := Discipline.obedient_run answers_exec h.obedient [(t, x)]

theorem Answering.keeps (h : Answering cfg) (t : τ) (x : Input) : StepKeeps cfg t x := by
  refine ⟨h.obedient t, ?_⟩
  cases ht : cfg.threads t with
  | ret a =>
    rw [Config.step_finished (by rw [ht]; rfl)]
    exact .refl _
  | raise e =>
    rw [Config.step_finished (by rw [ht]; rfl)]
    exact .refl _
  | call a k =>
    rw [Config.step_call ht]
    exact h.sound.guar coordinates_commandTerms (x := x) trivial ht

theorem Answering.run (h : Answering cfg) (l : List (τ × Input)) : Answering (cfg.run exec l) := by
  induction l generalizing cfg with
  | nil => exact h
  | cons tx l ih => exact ih (h.step tx.1 tx.2)

theorem Answering.respects (h : Answering cfg) (l : List (τ × Input)) :
    cfg.Respects exec StepKeeps l := by
  induction l generalizing cfg with
  | nil => trivial
  | cons tx l ih => exact ⟨h.keeps tx.1 tx.2, ih (h.step tx.1 tx.2)⟩

/-- One call keeps what all callers have seen. -/
theorem keptWhen_sighted : watcher.KeptWhen exec (StepKeeps (τ := τ)) Sighted := by
  intro cfg ms t β a k x ht hkeeps hinv _
  obtain ⟨hobedient, hkeeps⟩ := hkeeps
  rw [ht] at hobedient
  rw [Config.step_call ht] at hkeeps
  have hlook : ∀ u, ∀ s ∈ Function.update ms t (look (ms t) a (exec a x cfg.state).1) u,
      s ∈ ms u ∨ u = t ∧ s.Holds (exec a x cfg.state).2.store ∧
        ∀ operation, s = .added operation →
          cfg.state.store.row .lifecycleOperations (key operation) = none := by
    intro u s hs
    by_cases hu : u = t
    · subst hu
      rw [Function.update_self] at hs
      exact (holds_of_look hobedient.licit.2 hs).imp_right fun h => ⟨rfl, h⟩
    · rw [Function.update_of_ne hu] at hs
      exact .inl hs
  -- an operation that is new has another key than those that others have added
  have hfresh : ∀ u (a b : LifecycleOperation), Seen.added b ∈ ms u →
      cfg.state.store.row .lifecycleOperations (key a) = none → key a ≠ key b := by
    rintro u a b hb hnone heq
    obtain ⟨stored, hstored, -⟩ := hinv.holds u _ hb
    rw [heq, hstored] at hnone
    cases hnone
  refine ⟨fun u s hs => ?_, fun u v huv a b ha hb => ?_⟩
  · obtain hs | ⟨-, hs, -⟩ := hlook u s hs
    · exact (hinv.holds u s hs).keeps hkeeps
    · exact hs
  · obtain hold | ⟨hu, -, hnew⟩ := hlook u _ ha <;>
      obtain hold' | ⟨hv, -, hnew'⟩ := hlook v _ hb
    · exact hinv.apart u v huv a b hold hold'
    · exact (hfresh u b a hold (hnew' b rfl)).symm
    · exact hfresh v a b hold' (hnew a rfl)
    · exact absurd (hu.trans hv.symm) huv

/-- At every moment of every run the callers have seen what is true. -/
theorem sighted_run (hw : KeysUnique w.store) (l : List (τ × Input)) :
    Sighted (watcher.observe exec (answers settings commands w) (fun _ => []) l)
      ((answers settings commands w).run exec l).state := by
  have hstart : watcher.Watched Sighted (answers settings commands w) (fun _ => []) :=
    { inv := ⟨by simp, by simp⟩
      conforms := fun t => Conforms.mono (Sees.remembers _ _) (fun _ _ _ => trivial)
        fun _ _ _ => trivial }
  exact (hstart.run_when keptWhen_sighted ((answering_answers hw).respects l)).inv

/-- Thread `t` changes nothing but the clock. -/
def Quiet (cfg : Config Action Error (Option LifecycleOperation) World τ)
    (l : List (τ × Input)) (t : τ) : Prop :=
  ∀ m x, m ++ [(t, x)] <+: l →
    ∃ n, (cfg.run exec (m ++ [(t, x)])).state = { (cfg.run exec m).state with clock := n }

/-- Who has not tried to change anything is quiet. -/
theorem quiet_of_not_acted {ms : τ → List Seen}
    (h : Seen.acted ∉ watcher.observe exec cfg ms l t) : Quiet cfg l t := by
  rintro m x ⟨rest, rfl⟩
  have hstep : Seen.acted ∉ watcher.watch exec (cfg.run exec m) (watcher.observe exec cfg ms m)
      t x t := by
    rw [observe_append, observe_concat] at h
    refine fun hmem => h ?_
    exact observe_of_next (P := fun m' => Seen.acted ∈ m')
      (fun m _ a r hm => subset_look m a r hm) hmem rest
  rw [Config.run_append, Config.run_cons, Config.run_nil]
  cases ht : (cfg.run exec m).threads t with
  | ret a =>
    rw [Config.step_finished (by rw [ht]; rfl)]
    exact ⟨_, rfl⟩
  | raise e =>
    rw [Config.step_finished (by rw [ht]; rfl)]
    exact ⟨_, rfl⟩
  | call a k =>
    rw [watch_call ht, Function.update_self] at hstep
    rw [Config.step_call ht]
    exact frame_of_look hstep

/-- A caller who was answered is quiet, or has added the operation. -/
theorem quiet_or_added {identity : CommandIdentity} {operation : LifecycleOperation}
    (hw : KeysUnique w.store) (hidentity : (commands t).identity settings = some identity)
    (hret : ((answers settings commands w).run exec l).threads t = .ret (some operation)) :
    operation.Remembered ((answers settings commands w).run exec l).state.store ∧
      operation.IsOf settings identity ∧
      (Quiet (answers settings commands w) l t ∨ ∃ added,
        Seen.added added ∈
          watcher.observe exec (answers settings commands w) (fun _ => []) l t ∧
        key added = key operation) := by
  have hstart : watcher.Conforms ((answers settings commands w).threads t)
      (fun answer m => ∀ operation ∈ answer, Answered settings identity operation m)
      (fun _ _ => True) [] := sees_answer hidentity
  have hconforms : watcher.Conforms (((answers settings commands w).run exec l).threads t)
      (fun answer m => ∀ operation ∈ answer, Answered settings identity operation m)
      (fun _ _ => True)
      (watcher.observe exec (answers settings commands w) (fun _ => []) l t) :=
    conforms_run hstart l
  rw [hret] at hconforms
  have hsighted : Sighted (watcher.observe exec (answers settings commands w) (fun _ => []) l)
      ((answers settings commands w).run exec l).state := sighted_run hw l
  have hholds := hsighted.holds t
  cases hconforms operation rfl with
  | replayed hreplayed hdocument hkind hfingerprint hquiet =>
    obtain ⟨htenant, hkey, hremembered⟩ := hholds _ hreplayed
    exact ⟨hremembered, ⟨htenant, hkey, hdocument, hkind, hfingerprint⟩,
      .inl (quiet_of_not_acted hquiet)⟩
  | @added added document hadded hrow hisOf hcopy =>
    have hid : document.id = identity.documentId := congrArg Prod.snd (hholds _ hrow).1
    have hremembered : added.Remembered _ := hholds _ hadded
    obtain rfl | ⟨loaded, hloaded, hsame⟩ := hcopy
    · exact ⟨hremembered, hisOf hid, .inr ⟨_, hadded, rfl⟩⟩
    · -- the copy was loaded under the key of the operation that was added
      obtain ⟨hkey, stored, hstored, hcopy⟩ := hholds _ hloaded
      obtain ⟨stored', hstored', hcopy'⟩ := hremembered
      have hkeys : key added = key loaded := by
        rw [hkey, key_lifecycleOperation, (hisOf hid).tenantId]
      rw [hkeys, hstored] at hstored'
      cases hstored'
      have hsame' : operation.SameCommand added := (hsame.trans hcopy).trans hcopy'.symm
      refine ⟨⟨stored, ?_, hsame.trans hcopy⟩, (hisOf hid).of_sameCommand hsame', .inr
        ⟨added, hadded, hsame'.key.symm⟩⟩
      rw [hsame.key, hstored]

/-- The joined texts of two commands are told apart by their digests, and no part has the
separator. -/
structure CommandIdentity.ToldApart (settings : Settings) (identity identity' : CommandIdentity) :
    Prop where
  digest : identity.fingerprint settings = identity'.fingerprint settings →
    "\x1f".intercalate (identity.kind.value :: identity.parts) =
      "\x1f".intercalate (identity'.kind.value :: identity'.parts)
  separated : ∀ part ∈ identity.parts ++ identity'.parts, '\x1f' ∉ part.toList

omit [DecidableEq τ] in
/-- The parts of a command are read off its joined text. -/
theorem CommandIdentity.ToldApart.parts_eq {identity identity' : CommandIdentity}
    (h : identity.ToldApart settings identity')
    (hfingerprint : identity.fingerprint settings = identity'.fingerprint settings) :
    identity.parts = identity'.parts := by
  have htexts := congrArg String.toList (h.digest hfingerprint)
  have hseparator : "\x1f".toList = ['\x1f'] := rfl
  rw [String.toList_intercalate, String.toList_intercalate, hseparator] at htexts
  have hpieces := (Text.intercalate_eq_iff (by simp) (by simp)).1 htexts
  have hseparated : ∀ {i : CommandIdentity}, (∀ part ∈ i.parts, '\x1f' ∉ part.toList) →
      ∀ part ∈ (i.kind.value :: i.parts).map String.toList, '\x1f' ∉ part := by
    intro i hi part hpart
    rw [List.map_cons, List.mem_cons] at hpart
    obtain rfl | hpart := hpart
    · cases i.kind <;> decide
    · obtain ⟨text, htext, rfl⟩ := List.mem_map.1 hpart
      exact hi text htext
  have hall := List.forall_mem_append.1 h.separated
  rw [Text.flatMap_splitOn_of_not_mem (hseparated hall.1),
    Text.flatMap_splitOn_of_not_mem (hseparated hall.2), List.map_cons, List.map_cons,
    List.cons.injEq] at hpieces
  exact List.map_injective_iff.2 (fun _ _ => String.toList_inj.1) hpieces.2

/-- **A command that is sent again is carried out once.**  In every run of any commands, two
callers with one idempotency key who are both answered are answered copies of one operation.
Their commands are the same, as far as the digests tell texts apart, and one of the two has
changed nothing in all the run. -/
theorem replays_run (settings : Settings) (commands : τ → Command) (w : World)
    (hw : KeysUnique w.store) (l : List (τ × Input)) {t u : τ} (htu : t ≠ u)
    {identity identity' : CommandIdentity} {operation operation' : LifecycleOperation}
    (ht : (commands t).identity settings = some identity)
    (hu : (commands u).identity settings = some identity')
    (htenant : identity.tenantId = identity'.tenantId)
    (hkey : identity.idempotencyKey = identity'.idempotencyKey)
    (hret : ((answers settings commands w).run exec l).threads t = .ret (some operation))
    (hret' : ((answers settings commands w).run exec l).threads u = .ret (some operation')) :
    operation.SameCommand operation' ∧ operation.IsOf settings identity ∧
      (identity.ToldApart settings identity' → identity = identity') ∧
      (Quiet (answers settings commands w) l t ∨ Quiet (answers settings commands w) l u) := by
  obtain ⟨hremembered, hisOf, hquiet⟩ := quiet_or_added hw ht hret
  obtain ⟨hremembered', hisOf', hquiet'⟩ := quiet_or_added hw hu hret'
  have hunique : KeysUnique ((answers settings commands w).run exec l).state.store :=
    ((answering_answers hw).run l).sound.inv
  have hsame : operation.SameCommand operation' :=
    hremembered.sameCommand hunique hremembered'
      (by rw [hisOf.tenantId, htenant, hisOf'.tenantId])
      (by rw [hisOf.idempotencyKey, hkey, hisOf'.idempotencyKey])
  refine ⟨hsame, hisOf, fun happart => ?_, ?_⟩
  · have hkind : identity.kind = identity'.kind := by
      rw [← hisOf.kind, hsame.kind, hisOf'.kind]
    have hdocument : identity.documentId = identity'.documentId := by
      rw [← hisOf.documentId, hsame.documentId, hisOf'.documentId]
    have hfingerprint : some (identity.fingerprint settings) =
        some (identity'.fingerprint settings) := by
      rw [← hisOf.commandFingerprint, hsame.commandFingerprint, hisOf'.commandFingerprint]
    have hparts := happart.parts_eq (Option.some.inj hfingerprint)
    cases identity
    cases identity'
    simp only [CommandIdentity.mk.injEq]
    exact ⟨htenant, hkey, hdocument, hkind, hparts⟩
  · obtain hquiet | ⟨added, hadded, hkeys⟩ := hquiet
    · exact .inl hquiet
    obtain hquiet' | ⟨added', hadded', hkeys'⟩ := hquiet'
    · exact .inr hquiet'
    -- both would have added the operation
    exact absurd (hkeys.trans (hsame.key.trans hkeys'.symm))
      ((sighted_run hw l).apart t u htu added added' hadded hadded')

end Runs

end Callers

/-! ## Two deletions -/

namespace Sample

theorem keysUnique_world : KeysUnique world.store := by
  intro k k' operation operation' h
  cases h

/-- Two callers ask for one deletion. -/
def deleteTwice (_ : Fin 2) : Command := .requestDelete context "d" "k" "r"

def deleteIdentity : CommandIdentity where
  tenantId := "t"
  idempotencyKey := "k"
  documentId := "d"
  kind := .delete
  parts := ["d", "r"]

theorem identity_deleteTwice {t : Fin 2} :
    (deleteTwice t).identity settings = some deleteIdentity := rfl

/-- The second caller comes when the first one has been answered. -/
def deletions : List (Fin 2 × Input) :=
  List.replicate 3 (0, inputOf "v") ++ [(0, { inputOf "v" with newId := "o" })] ++
    List.replicate 2 (0, inputOf "v") ++ List.replicate 2 (1, inputOf "v")

/-- What both are answered. -/
def deleteOperation : LifecycleOperation :=
  DocumentDeletionService.deletion settings context document "v" "o" "k" "r"
    (deleteIdentity.fingerprint settings) 1

theorem returned_deletions (t : Fin 2) :
    ((answers settings deleteTwice world).run exec deletions).threads t =
      .ret (some deleteOperation) := by
  have h : ∀ t, (((answers settings deleteTwice world).run exec deletions).threads t).returned =
      some (some deleteOperation) := by
    decide +kernel
  exact Prog.returned_eq_some.1 (h t)

end Sample

/-- Of two deletions with one key one changes nothing. -/
theorem replays_run_deletions :
    Quiet (answers Sample.settings Sample.deleteTwice Sample.world) Sample.deletions 0 ∨
      Quiet (answers Sample.settings Sample.deleteTwice Sample.world) Sample.deletions 1 :=
  (replays_run Sample.settings Sample.deleteTwice Sample.world Sample.keysUnique_world
    Sample.deletions (t := 0) (u := 1) (by decide) Sample.identity_deleteTwice
    Sample.identity_deleteTwice rfl rfl (Sample.returned_deletions 0)
    (Sample.returned_deletions 1)).2.2.2

end Knowledge
end RagflowAgent
