import RagflowAgent.Knowledge.Effects
import RagflowAgent.Knowledge.Obligations

/-!
# What an operation is about

A lifecycle operation is saved over and over again while its command is carried out, by services
that do not know of each other.  But what is saved is always a copy of what was loaded, and what
the operation is about is the same in the copy.  So a stored operation stays the operation of its
command, and no two operations of a tenant ever have the same idempotency key.

* `LifecycleOperation.SameCommand` is the relation of such copies;
* `Writes.operationsStep` says what a transaction does to the operations, `OperationsStep`;
* `commandTerms_obligations`: `KeysUnique` is an invariant, every step is one of `KeepsCommands`,
  and a snapshot that was loaded is forever `Remembered`.
-/

namespace RagflowAgent
namespace Knowledge

open Interleaving Keyed

/-! ## Copies -/

/-- Two snapshots of one operation: what the operation is about is the same. -/
structure LifecycleOperation.SameCommand (operation loaded : LifecycleOperation) : Prop where
  key : key operation = key loaded
  documentId : operation.documentId = loaded.documentId
  versionId : operation.versionId = loaded.versionId
  kind : operation.kind = loaded.kind
  idempotencyKey : operation.idempotencyKey = loaded.idempotencyKey
  metadata : operation.metadata = loaded.metadata

namespace LifecycleOperation.SameCommand

variable {a b c : LifecycleOperation}

theorem refl (a : LifecycleOperation) : a.SameCommand a := ⟨rfl, rfl, rfl, rfl, rfl, rfl⟩

theorem symm (h : a.SameCommand b) : b.SameCommand a :=
  ⟨h.key.symm, h.documentId.symm, h.versionId.symm, h.kind.symm, h.idempotencyKey.symm,
    h.metadata.symm⟩

theorem trans (h : a.SameCommand b) (h' : b.SameCommand c) : a.SameCommand c :=
  ⟨h.key.trans h'.key, h.documentId.trans h'.documentId, h.versionId.trans h'.versionId,
    h.kind.trans h'.kind, h.idempotencyKey.trans h'.idempotencyKey,
    h.metadata.trans h'.metadata⟩

theorem tenantId (h : a.SameCommand b) : a.tenantId = b.tenantId := congrArg Prod.fst h.key

theorem commandFingerprint (h : a.SameCommand b) :
    a.commandFingerprint = b.commandFingerprint := by
  rw [LifecycleOperation.commandFingerprint, LifecycleOperation.commandFingerprint, h.metadata]

/-- Decoding a payload gives a copy. -/
theorem of_validate (h : a.validate = .ok b) : b.SameCommand a := by
  obtain ⟨status, -, rfl⟩ := validate_eq_ok h
  exact ⟨rfl, rfl, rfl, rfl, rfl, rfl⟩

end LifecycleOperation.SameCommand

/-! ## Transactions -/

section Transactions

variable {task : Task} {knows : List Fact} {statements : List Stmt} {st st' : Store}

/-- What a transaction does to the operations: it leaves them alone, it adds one whose
idempotency key is free, or it saves a copy of one that was loaded. -/
inductive OperationsStep (knows : List Fact) (st st' : Store) : Prop where
  | same : (∀ k, st'.row .lifecycleOperations k = st.row .lifecycleOperations k) →
      OperationsStep knows st st'
  | added {operation : LifecycleOperation} :
      st.row .lifecycleOperations (key operation) = none →
      ¬ Repository.Clashes (st.table .lifecycleOperations) operation →
      (∀ k, st'.row .lifecycleOperations k =
        if key operation = k then some operation else st.row .lifecycleOperations k) →
      OperationsStep knows st st'
  | saved {operation loaded stored : LifecycleOperation} :
      Fact.stored .lifecycleOperations loaded ∈ knows → operation.SameCommand loaded →
      st.row .lifecycleOperations (key operation) = some stored →
      (∀ k, st'.row .lifecycleOperations k =
        if key operation = k then some operation else st.row .lifecycleOperations k) →
      OperationsStep knows st st'

/-- A statement that leaves a table alone. -/
theorem table_of_run {s : Stmt} {r : Resource} (h : s.run st = .ok st')
    (hr : r ≠ .lifecycleOutbox) (hs : s.written r = none) : st'.table r = st.table r := by
  cases s with
  | add tenantId r' entity =>
    obtain ⟨T, -, rfl⟩ := map_eq_ok.1 h
    have hne : r' ≠ r := by
      rintro rfl
      simp [Stmt.written] at hs
    exact Store.table_put_of_ne _ _ hne.symm
  | save tenantId r' entity =>
    obtain ⟨T, -, rfl⟩ := map_eq_ok.1 h
    have hne : r' ≠ r := by
      rintro rfl
      simp [Stmt.written] at hs
    exact Store.table_put_of_ne _ _ hne.symm
  | saveIfRevision tenantId entity expectedRevision =>
    obtain ⟨T, -, rfl⟩ := map_eq_ok.1 h
    have hne : Resource.documents ≠ r := by
      rintro rfl
      simp [Stmt.written] at hs
    exact Store.table_put_of_ne _ _ hne.symm
  | cancelPending tenantId resourceId changedAt =>
    rw [Stmt.run] at h
    split at h
    · cases h
    · cases h
      rfl
    split at h
    · obtain ⟨T, -, rfl⟩ := map_eq_ok.1 h
      exact Store.table_put_of_ne _ _ hr
    · cases h
      rfl

/-- Statements that leave a table alone. -/
theorem table_of_transact {r : Resource} (h : st.transact statements = .ok st')
    (hr : r ≠ .lifecycleOutbox) (hs : ∀ s ∈ statements, s.written r = none) :
    st'.table r = st.table r := by
  induction statements generalizing st with
  | nil =>
    cases h
    rfl
  | cons s statements ih =>
    obtain ⟨st₁, h₁, h₂⟩ := Store.transact_cons_eq_ok.1 h
    rw [ih h₂ fun s' hs' => hs s' (List.mem_cons_of_mem s hs'),
      table_of_run h₁ hr (hs s List.mem_cons_self)]

/-- A row is added under a free idempotency key only. -/
theorem not_clashes_of_add {l m : List Stmt} {tenantId : String} {r : Resource} {entity : r.Row}
    (h : st.transact (l ++ .add tenantId r entity :: m) = .ok st') (hr : r ≠ .lifecycleOutbox)
    (hl : ∀ s ∈ l, s.written r = none) : ¬ Repository.Clashes (st.table r) entity := by
  obtain ⟨st₁, h₁, h₂⟩ := Store.transact_append_eq_ok.1 h
  obtain ⟨st₂, h₃, -⟩ := Store.transact_cons_eq_ok.1 h₂
  obtain ⟨T, hT, -⟩ := map_eq_ok.1 h₃
  rw [table_of_transact h₁ hr hl, Repository.add] at hT
  split at hT
  · cases hT
  split at hT
  · cases hT
  split at hT
  · cases hT
  · assumption

/-- What the statements of a transaction write to the operations: nothing, a new one, or a copy
of one that was loaded. -/
inductive WritesOperations (knows : List Fact) (statements : List Stmt) : Prop where
  | nothing : (∀ s ∈ statements, s.written .lifecycleOperations = none) →
      WritesOperations knows statements
  | added {l m : List Stmt} {tenantId : String} {operation : LifecycleOperation} :
      statements = l ++ .add tenantId .lifecycleOperations operation :: m →
      (∀ s ∈ l, s.written .lifecycleOperations = none) →
      (∀ s ∈ m, s.written .lifecycleOperations = none) → WritesOperations knows statements
  | saved {l m : List Stmt} {tenantId : String} {operation loaded : LifecycleOperation} :
      statements = l ++ .save tenantId .lifecycleOperations operation :: m →
      (∀ s ∈ l, s.written .lifecycleOperations = none) →
      (∀ s ∈ m, s.written .lifecycleOperations = none) →
      Fact.stored .lifecycleOperations loaded ∈ knows → operation.SameCommand loaded →
      WritesOperations knows statements

/-- **What the transactions of the catalogue write to the operations.** -/
theorem Writes.writesOperations (h : Writes task knows statements) :
    WritesOperations knows statements := by
  cases h with
  | @publication tenantId _ _ _ _ _ loaded _ _ p hfacts _ _ _ _ hp =>
    obtain ⟨-, -, -, -, -, -, steps, hoperation⟩ :=
      DocumentVersionPublisher.publication_eq_ok hp
    have hloaded : Fact.stored .lifecycleOperations loaded.operation ∈ knows :=
      hfacts (by simp [DocumentVersionPublisher.Loaded.facts])
    have hsame : p.operation.SameCommand loaded.operation := by
      rw [hoperation]
      exact ⟨rfl, rfl, rfl, rfl, rfl, rfl⟩
    have hstatements : p.statements tenantId loaded.document =
        (.save tenantId .documentVersions p.ready ::
          (p.retired.toList.map (.save tenantId .documentVersions) ++
            [.saveIfRevision tenantId p.active loaded.document.revision])) ++
          .save tenantId .lifecycleOperations p.operation :: [] := by
      simp [DocumentVersionPublisher.Publication.statements]
    exact .saved hstatements (by simp [Stmt.written, or_imp, forall_and]) (by simp) hloaded hsame
  | rollback => exact .added (l := []) rfl (by simp) (by simp)
  | deletion =>
    exact .added (l := [_]) rfl (by simp [Stmt.written]) (by simp [Stmt.written])
  | restoration =>
    exact .added (l := [_, _]) rfl (by simp [Stmt.written]) (by simp [Stmt.written])
  | purge =>
    exact .added (List.append_cons _ _ _) (by simp [Stmt.written, or_imp, forall_and]) (by simp)
  | cancellation hoperation =>
    exact .saved (l := []) rfl (by simp) (by simp) hoperation ⟨rfl, rfl, rfl, rfl, rfl, rfl⟩
  | @progress _ _ _ _ loaded _ hfacts _ hupdated =>
    obtain ⟨-, rfl⟩ := updateProgress_eq_ok hupdated
    exact .saved (l := []) rfl (by simp) (by simp)
      (hfacts (stored_mem_ofRow (r := .lifecycleOperations) loaded))
      ⟨rfl, rfl, rfl, rfl, rfl, rfl⟩
  | failOperation hoperation =>
    exact .saved (l := []) rfl (by simp) (by simp) hoperation ⟨rfl, rfl, rfl, rfl, rfl, rfl⟩
  | registration =>
    exact .added (l := [_]) rfl (by simp [Stmt.written])
      (by simp [DocumentUpdateService.registration, Stmt.written, or_imp, forall_and])
  | _ => exact .nothing (by simp [Stmt.written])

/-- **What a transaction does to the operations.** -/
theorem Writes.operationsStep (h : Writes task knows statements)
    (hst : st.transact statements = .ok st') : OperationsStep knows st st' := by
  cases h.writesOperations with
  | nothing hs => exact .same (row_of_transact_of_written_eq_none hst (by decide) hs)
  | added hstatements h₁ h₂ =>
    rw [hstatements] at hst
    exact .added (absent_of_add hst (by decide) h₁) (not_clashes_of_add hst (by decide) h₁)
      (row_of_transact_of_written (r := .lifecycleOperations) hst (by decide) h₁ h₂ rfl)
  | saved hstatements h₁ h₂ hloaded hsame =>
    rw [hstatements] at hst
    obtain ⟨⟨stored, hstored⟩, -⟩ := stored_of_save hst (by decide) h₁
    exact .saved hloaded hsame hstored
      (row_of_transact_of_written (r := .lifecycleOperations) hst (by decide) h₁ h₂ rfl)

/-- An operation that a transaction adds is new, and is stored. -/
theorem Writes.row_of_add (h : Writes task knows statements)
    (hst : st.transact statements = .ok st') {tenantId : String} {operation : LifecycleOperation}
    (hmem : Stmt.add tenantId .lifecycleOperations operation ∈ statements) :
    st.row .lifecycleOperations (key operation) = none ∧
      st'.row .lifecycleOperations (key operation) = some operation := by
  -- the statement is not among those that leave the operations alone
  have hnot : ∀ {l : List Stmt}, (∀ s ∈ l, s.written .lifecycleOperations = none) →
      Stmt.add tenantId .lifecycleOperations operation ∉ l := by
    intro l hl hmem
    have hnone := hl _ hmem
    cases hnone
  cases h.writesOperations with
  | nothing hs => exact absurd hmem (hnot hs)
  | added hstatements h₁ h₂ =>
    rw [hstatements, List.mem_append, List.mem_cons] at hmem
    obtain hmem | hmem | hmem := hmem
    · exact absurd hmem (hnot h₁)
    · cases hmem
      rw [hstatements] at hst
      refine ⟨absent_of_add hst (by decide) h₁, ?_⟩
      rw [row_of_transact_of_written (r := .lifecycleOperations) hst (by decide) h₁ h₂ rfl,
        if_pos rfl]
    · exact absurd hmem (hnot h₂)
  | saved hstatements h₁ h₂ =>
    rw [hstatements, List.mem_append, List.mem_cons] at hmem
    obtain hmem | hmem | hmem := hmem
    · exact absurd hmem (hnot h₁)
    · cases hmem
    · exact absurd hmem (hnot h₂)

end Transactions

/-! ## The invariant -/

/-- No two operations of a tenant have the same idempotency key.  A database without operations
is an instance. -/
def KeysUnique (st : Store) : Prop :=
  ∀ k k' operation operation', st.row .lifecycleOperations k = some operation →
    st.row .lifecycleOperations k' = some operation' →
    operation.tenantId = operation'.tenantId →
    operation.idempotencyKey = operation'.idempotencyKey → k = k'

/-- Every stored operation stays the operation of its command. -/
def KeepsCommands (st st' : Store) : Prop :=
  ∀ k operation, st.row .lifecycleOperations k = some operation →
    ∃ operation', st'.row .lifecycleOperations k = some operation' ∧
      operation'.SameCommand operation

/-- The operation of this snapshot is stored. -/
def LifecycleOperation.Remembered (operation : LifecycleOperation) (st : Store) : Prop :=
  ∃ stored, st.row .lifecycleOperations (key operation) = some stored ∧
    operation.SameCommand stored

/-- A fact that is a snapshot of an operation stays one. -/
def Fact.Remembered (st : Store) : Fact → Prop
  | stored .lifecycleOperations operation =>
    LifecycleOperation.Remembered operation st
  | _ => True

section Invariant

variable {st st' : Store} {knows : List Fact} {operation : LifecycleOperation}

theorem KeepsCommands.refl (st : Store) : KeepsCommands st st :=
  fun _ operation hrow => ⟨operation, hrow, .refl operation⟩

theorem KeepsCommands.trans {st₁ st₂ st₃ : Store} (h : KeepsCommands st₁ st₂)
    (h' : KeepsCommands st₂ st₃) : KeepsCommands st₁ st₃ := by
  intro k operation hrow
  obtain ⟨operation', hrow', hsame⟩ := h k operation hrow
  obtain ⟨operation'', hrow'', hsame'⟩ := h' k operation' hrow'
  exact ⟨operation'', hrow'', hsame'.trans hsame⟩

theorem LifecycleOperation.Remembered.keeps (h : operation.Remembered st)
    (hkeeps : KeepsCommands st st') : operation.Remembered st' := by
  obtain ⟨stored, hrow, hsame⟩ := h
  obtain ⟨stored', hrow', hsame'⟩ := hkeeps _ stored hrow
  exact ⟨stored', hrow', hsame.trans hsame'.symm⟩

/-- **Operations with one idempotency key are one operation.** -/
theorem LifecycleOperation.Remembered.sameCommand {operation' : LifecycleOperation}
    (hunique : KeysUnique st) (h : operation.Remembered st) (h' : operation'.Remembered st)
    (htenant : operation.tenantId = operation'.tenantId)
    (hkey : operation.idempotencyKey = operation'.idempotencyKey) :
    operation.SameCommand operation' := by
  obtain ⟨stored, hrow, hsame⟩ := h
  obtain ⟨stored', hrow', hsame'⟩ := h'
  have htenants : stored.tenantId = stored'.tenantId :=
    hsame.tenantId.symm.trans (htenant.trans hsame'.tenantId)
  have hkeys := hunique _ _ stored stored' hrow hrow' htenants
    (by rw [← hsame.idempotencyKey, hkey, hsame'.idempotencyKey])
  rw [hkeys, hrow'] at hrow
  cases hrow
  exact hsame.trans hsame'.symm

theorem Fact.Remembered.keeps {f : Fact} (h : f.Remembered st) (hkeeps : KeepsCommands st st') :
    f.Remembered st' := by
  cases f with
  | stored r e =>
    cases r with
    | lifecycleOperations => exact LifecycleOperation.Remembered.keeps h hkeeps
    | _ => trivial
  | _ => trivial

theorem Fact.Remembered.read {f : Fact} (hf : f.ReadFrom st) : f.Remembered st := by
  cases f with
  | stored r e =>
    cases r with
    | lifecycleOperations =>
      obtain ⟨row, hrow, he⟩ := hf
      have hsame := LifecycleOperation.SameCommand.of_validate he
      refine ⟨row, ?_, hsame⟩
      rw [hsame.key]
      exact Table.mem_rows_iff.1 hrow
    | _ => trivial
  | _ => trivial

/-- The operation that a copy is saved over is the one that was loaded. -/
theorem sameCommand_stored {loaded stored : LifecycleOperation} (hloaded : loaded.Remembered st)
    (hsame : operation.SameCommand loaded)
    (hstored : st.row .lifecycleOperations (key operation) = some stored) :
    operation.SameCommand stored := by
  obtain ⟨row, hrow, hsame'⟩ := hloaded
  rw [hsame.key, hrow] at hstored
  cases hstored
  exact hsame.trans hsame'

/-- A transaction leaves every operation the operation of its command. -/
theorem OperationsStep.keepsCommands (h : OperationsStep knows st st')
    (hknows : ∀ f ∈ knows, f.Remembered st) : KeepsCommands st st' := by
  intro k row hrow
  cases h with
  | same hsame => exact ⟨row, by rw [hsame, hrow], .refl row⟩
  | @added operation habsent _ hrows =>
    have hne : key operation ≠ k := by
      rintro rfl
      rw [habsent] at hrow
      cases hrow
    exact ⟨row, by rw [hrows, if_neg hne, hrow], .refl row⟩
  | @saved operation loaded stored hloaded hsame hstored hrows =>
    rw [hrows]
    by_cases hk : key operation = k
    · subst hk
      rw [hstored] at hrow
      cases hrow
      exact ⟨operation, if_pos rfl, sameCommand_stored (hknows _ hloaded) hsame hstored⟩
    · exact ⟨row, by rw [if_neg hk, hrow], .refl row⟩

/-- A transaction leaves the idempotency keys unique. -/
theorem OperationsStep.keysUnique (h : OperationsStep knows st st') (hunique : KeysUnique st)
    (hknows : ∀ f ∈ knows, f.Remembered st) : KeysUnique st' := by
  cases h with
  | same hsame =>
    intro k k' row row' hrow hrow'
    rw [hsame] at hrow hrow'
    exact hunique k k' row row' hrow hrow'
  | @added operation habsent hclash hrows =>
    -- the new operation shares its key with no row
    have hfree : ∀ k row, st.row .lifecycleOperations k = some row →
        row.tenantId = operation.tenantId → row.idempotencyKey ≠ operation.idempotencyKey := by
      intro k row hrow htenant hkey
      exact hclash ⟨row, Table.mem_of_get hrow, htenant, _, rfl, congrArg some hkey.symm⟩
    intro k k' row row' hrow hrow' htenant hkey
    rw [hrows] at hrow hrow'
    split at hrow <;> split at hrow'
    · exact Eq.trans (Eq.symm ‹_›) ‹_›
    · cases hrow
      exact absurd hkey.symm (hfree k' row' hrow' htenant.symm)
    · cases hrow'
      exact absurd hkey (hfree k row hrow htenant)
    · exact hunique k k' row row' hrow hrow' htenant hkey
  | @saved operation loaded stored hloaded hsame hstored hrows =>
    have hsame' := sameCommand_stored (hknows _ hloaded) hsame hstored
    -- the copy has the tenant and the key of the row it replaces
    have hold : ∀ k row, st'.row .lifecycleOperations k = some row →
        ∃ old, st.row .lifecycleOperations k = some old ∧ old.tenantId = row.tenantId ∧
          old.idempotencyKey = row.idempotencyKey := by
      intro k row hrow
      rw [hrows] at hrow
      split at hrow
      · rename_i hk
        cases hrow
        subst hk
        exact ⟨stored, hstored, hsame'.tenantId.symm, hsame'.idempotencyKey.symm⟩
      · exact ⟨row, hrow, rfl, rfl⟩
    intro k k' row row' hrow hrow' htenant hkey
    obtain ⟨old, hold₁, htenant₁, hkey₁⟩ := hold k row hrow
    obtain ⟨old', hold₂, htenant₂, hkey₂⟩ := hold k' row' hrow'
    exact hunique k k' old old' hold₁ hold₂ (by rw [htenant₁, htenant, htenant₂])
      (by rw [hkey₁, hkey, hkey₂])

end Invariant

/-! ## Runs -/

/-- The terms on which operations stay what they are about.  Nothing is asked of the calls. -/
def commandTerms : Terms :=
  .ofRelation (fun w => KeysUnique w.store) (fun _ _ _ _ => True)
    fun w w' => KeepsCommands w.store w'.store

theorem commandTerms_obligations :
    commandTerms.Obligations (fun _ => True) fun f w => f.Remembered w.store where
  refl _ _ w := KeepsCommands.refl w.store
  stable _ _ _ _ _ _ _ _ hrely hf := Fact.Remembered.keeps hf hrely
  read _ hf := .read hf
  tick hw _ hknows := ⟨hw, KeepsCommands.refl _, hknows, by simp [Fact.Remembered]⟩
  commit := by
    intro task knows statements x w store _ hwrites hw _ _ hknows hst
    have hstep := hwrites.operationsStep hst
    have hkeeps := hstep.keepsCommands hknows
    refine ⟨hstep.keysUnique hw hknows, hkeeps, fun f hf => (hknows f hf).keeps hkeeps,
      fun f hf => ?_⟩
    obtain ⟨s, -, hs⟩ := List.mem_filterMap.1 hf
    cases s <;> cases hs
    trivial
  changeIndex {_ _ change _ _ _} _ _ hw _ _ hknows _ :=
    ⟨hw, KeepsCommands.refl _, hknows, by cases change <;> simp [Call.facts, Fact.Remembered]⟩
  changeObjects {_ _ change _ _} _ _ hw _ _ hknows :=
    ⟨hw, KeepsCommands.refl _, hknows, by cases change <;> simp [Call.facts, Fact.Remembered]⟩

end Knowledge
end RagflowAgent
