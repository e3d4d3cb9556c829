import Mathlib.Data.List.Sort
import Mathlib.Logic.Function.Basic
import RagflowAgent.Knowledge.Domain.Document
import RagflowAgent.Knowledge.Domain.Ingestion
import RagflowAgent.Relational.Table

/-!
# The relational store

The repositories keep one snapshot of an entity in a row, under its tenant and id.  The
generic repository of the source is generic here as well: a `Resource` names a table,
`Resource.Row` the entities in it, and `Repository.get`, `Repository.add` and
`Repository.save` are written once for all of them.

* `Store` is the database, one `Table` for each resource;
* `Stmt` is one writing statement, and `Store.transact` runs the statements of a
  transaction one after another, all of them or none;
* `get_of_transact` says what every row is after a committed transaction, and
  `stored_of_save`, `stored_of_saveIfRevision` what a transaction needs to commit.

A row is the JSON payload.  The other columns of a row are copied from the entity on
every write and only serve indexes and filters; of them only the document's revision is
compared by a write, and it is written together with the payload.
-/

namespace RagflowAgent
namespace Knowledge

open Keyed

/-- What the generic repository needs to know of an entity. -/
class Entity (ρ : Type) extends Keyed (String × String) ρ where
  /-- Decoding a stored payload runs the model validators. -/
  validate : ρ → Except Error ρ
  /-- Computing the columns of the row. -/
  rowValues : ρ → Except Error Unit
  /-- The column with a unique index within the tenant, if there is one. -/
  idempotencyKey : ρ → Option String

instance : Entity KnowledgeBase where
  key e := (e.tenantId, e.id)
  validate := KnowledgeBase.validate
  rowValues _ := .ok ()
  idempotencyKey _ := none

instance : Entity Document where
  key e := (e.tenantId, e.id)
  validate := Document.validate
  rowValues _ := .ok ()
  idempotencyKey _ := none

instance : Entity DocumentVersion where
  key e := (e.tenantId, e.id)
  validate := DocumentVersion.validate
  rowValues _ := .ok ()
  idempotencyKey _ := none

instance : Entity IngestionJob where
  key e := (e.tenantId, e.id)
  validate := validateIngestionRecord
  rowValues _ := .ok ()
  idempotencyKey e := some e.idempotencyKey

instance : Entity IngestionTask where
  key e := (e.tenantId, e.id)
  validate := validateIngestionRecord
  rowValues _ := .ok ()
  idempotencyKey _ := none

/-- The `status` column of an operation is `entity.status.value`. -/
instance : Entity LifecycleOperation where
  key e := (e.tenantId, e.id)
  validate := LifecycleOperation.validate
  rowValues e := e.status.value.map fun _ => ()
  idempotencyKey e := some e.idempotencyKey

instance : Entity LifecycleOutboxEvent where
  key e := (e.tenantId, e.id)
  validate := .ok
  rowValues _ := .ok ()
  idempotencyKey e := some e.idempotencyKey

@[simp] theorem key_document (e : Document) : key e = (e.tenantId, e.id) := rfl

@[simp] theorem key_documentVersion (e : DocumentVersion) : key e = (e.tenantId, e.id) := rfl

@[simp] theorem key_ingestionJob (e : IngestionJob) : key e = (e.tenantId, e.id) := rfl

@[simp] theorem key_ingestionTask (e : IngestionTask) : key e = (e.tenantId, e.id) := rfl

@[simp] theorem key_lifecycleOperation (e : LifecycleOperation) :
    key e = (e.tenantId, e.id) := rfl

@[simp] theorem key_lifecycleOutboxEvent (e : LifecycleOutboxEvent) :
    key e = (e.tenantId, e.id) := rfl

/-! ## The generic repository -/

namespace Repository

variable {ρ : Type} [Entity ρ]

/-- `get`: the stored snapshot, decoded. -/
def get (T : Table ρ) (tenantId resourceId : String) : Except Error (Option ρ) :=
  match T.get (tenantId, resourceId) with
  | none => .ok none
  | some row => (Entity.validate row).map some

/-- Decode the rows a query has selected. -/
def decode (rows : List ρ) : Except Error (List ρ) := rows.mapM Entity.validate

def resourceExists : Error :=
  .conflict "knowledge resource already exists" "knowledge_resource_exists"

/-- A row with the idempotency key of `entity` in its tenant. -/
def Clashes (T : Table ρ) (entity : ρ) : Prop :=
  ∃ row ∈ T.rows, (key row).1 = (key entity).1 ∧
    ∃ k, Entity.idempotencyKey row = some k ∧ Entity.idempotencyKey entity = some k

instance (T : Table ρ) (entity : ρ) : Decidable (Clashes T entity) :=
  decidable_of_iff (∃ row ∈ T.rows, (key row).1 = (key entity).1 ∧
      Entity.idempotencyKey entity ≠ none ∧
      Entity.idempotencyKey row = Entity.idempotencyKey entity) <| by
    constructor
    · rintro ⟨row, hrow, htenant, hne, hkey⟩
      obtain ⟨k, hk⟩ := Option.ne_none_iff_exists'.1 hne
      exact ⟨row, hrow, htenant, k, hkey.trans hk, hk⟩
    · rintro ⟨row, hrow, htenant, k, hk, hk'⟩
      exact ⟨row, hrow, htenant, by rw [hk']; exact Option.some_ne_none k, hk.trans hk'.symm⟩

/-- `add`: the insert fails on the primary key and on the unique index. -/
def add (T : Table ρ) (tenantId : String) (entity : ρ) : Except Error (Table ρ) :=
  if (key entity).1 ≠ tenantId then .error (.authorization "tenant_mismatch")
  else
    match Entity.rowValues entity with
    | .error e => .error e
    | .ok () =>
      if Clashes T entity then .error resourceExists
      else
        match T.add entity with
        | none => .error resourceExists
        | some T' => .ok T'

/-- `save`: write over the stored row, whatever it is. -/
def save (T : Table ρ) (tenantId : String) (entity : ρ) : Except Error (Table ρ) :=
  if (key entity).1 ≠ tenantId then .error (.authorization "tenant_mismatch")
  else
    match T.get (key entity) with
    | none => .error (.notFound "knowledge_resource" (key entity).2)
    | some _ =>
      match Entity.rowValues entity with
      | .error e => .error e
      | .ok () => .ok (T.replace entity)

/-- `save_if_revision`: the conditional update of a document row. -/
def saveIfRevision (T : Table Document) (tenantId : String) (entity : Document)
    (expectedRevision : ℕ) : Except Error (Table Document) :=
  if entity.tenantId ≠ tenantId then .error (.authorization "tenant_mismatch")
  else if (T.get (tenantId, entity.id)).any (·.revision = expectedRevision) then
    .ok (T.replace entity)
  else .error (.conflict "document revision changed" "document_revision_conflict")

theorem add_eq_ok {T T' : Table ρ} {tenantId : String} {entity : ρ}
    (h : add T tenantId entity = .ok T') : T.add entity = some T' := by
  unfold add at h
  split at h
  · cases h
  split at h
  · cases h
  split at h
  · cases h
  split at h
  · cases h
  · cases h
    assumption

theorem save_eq_ok {T T' : Table ρ} {tenantId : String} {entity : ρ}
    (h : save T tenantId entity = .ok T') :
    (∃ row, T.get (key entity) = some row) ∧ Entity.rowValues entity = .ok () ∧
      T' = T.replace entity := by
  unfold save at h
  split at h
  · cases h
  split at h
  · cases h
  split at h
  · cases h
  · cases h
    exact ⟨⟨_, ‹_›⟩, ‹_›, rfl⟩

theorem saveIfRevision_eq_ok {T T' : Table Document} {tenantId : String} {entity : Document}
    {expectedRevision : ℕ} (h : saveIfRevision T tenantId entity expectedRevision = .ok T') :
    (∃ row, T.get (key entity) = some row ∧ row.revision = expectedRevision) ∧
      T' = T.replace entity := by
  unfold saveIfRevision at h
  split at h
  · cases h
  split at h
  · rename_i htenant hany
    cases h
    obtain ⟨row, hrow, hrevision⟩ := Option.any_eq_true _ _ |>.1 hany
    rw [not_not] at htenant
    exact ⟨⟨row, by rw [key_document, htenant]; exact hrow, by simpa using hrevision⟩, rfl⟩
  · cases h

/-- A row that is read is stored, and its validator returned it. -/
theorem get_eq_some {T : Table ρ} {tenantId resourceId : String} {e : ρ}
    (h : get T tenantId resourceId = .ok (some e)) :
    ∃ row, T.get (tenantId, resourceId) = some row ∧ Entity.validate row = .ok e := by
  unfold get at h
  split at h
  · cases h
  · rename_i row hrow
    refine ⟨row, hrow, ?_⟩
    cases hv : Entity.validate row with
    | error e => rw [hv] at h; cases h
    | ok e' => rw [hv] at h; cases h; rfl

end Repository

/-! ## The tables -/

inductive Resource where
  | knowledgeBases
  | documents
  | documentVersions
  | ingestionJobs
  | ingestionTasks
  | lifecycleOperations
  | lifecycleOutbox
  deriving DecidableEq, Repr

/-- The entities stored in a table. -/
@[reducible] def Resource.Row : Resource → Type
  | .knowledgeBases => KnowledgeBase
  | .documents => Document
  | .documentVersions => DocumentVersion
  | .ingestionJobs => IngestionJob
  | .ingestionTasks => IngestionTask
  | .lifecycleOperations => LifecycleOperation
  | .lifecycleOutbox => LifecycleOutboxEvent

instance : (r : Resource) → Entity r.Row
  | .knowledgeBases => inferInstanceAs (Entity KnowledgeBase)
  | .documents => inferInstanceAs (Entity Document)
  | .documentVersions => inferInstanceAs (Entity DocumentVersion)
  | .ingestionJobs => inferInstanceAs (Entity IngestionJob)
  | .ingestionTasks => inferInstanceAs (Entity IngestionTask)
  | .lifecycleOperations => inferInstanceAs (Entity LifecycleOperation)
  | .lifecycleOutbox => inferInstanceAs (Entity LifecycleOutboxEvent)

/-- The database. -/
structure Store where
  table : (r : Resource) → Table r.Row

namespace Store

def empty : Store := ⟨fun _ => Table.empty⟩

/-- The row of a table under a tenant and an id. -/
def row (st : Store) (r : Resource) (k : String × String) : Option r.Row := (st.table r).get k

def put (st : Store) (r : Resource) (T : Table r.Row) : Store :=
  ⟨Function.update st.table r T⟩

@[simp] theorem table_put_self (st : Store) (r : Resource) (T : Table r.Row) :
    (st.put r T).table r = T := by
  simp [put]

theorem table_put_of_ne (st : Store) {r r' : Resource} (T : Table r.Row) (h : r' ≠ r) :
    (st.put r T).table r' = st.table r' := by
  simp [put, h]

theorem key_of_row {st : Store} {r : Resource} {k : String × String} {e : r.Row}
    (h : st.row r k = some e) : key e = k :=
  Table.key_of_get h

end Store

/-! ## Statements and transactions -/

/-- One writing statement of a transaction. -/
inductive Stmt where
  | add (tenantId : String) (r : Resource) (entity : r.Row)
  | save (tenantId : String) (r : Resource) (entity : r.Row)
  | saveIfRevision (tenantId : String) (entity : Document) (expectedRevision : ℕ)
  /-- Read an outbox event and, if it is still pending, save it as cancelled. -/
  | cancelPending (tenantId resourceId : String) (changedAt : ℕ)

namespace Stmt

def run : Stmt → Store → Except Error Store
  | add tenantId r entity, st => (Repository.add (st.table r) tenantId entity).map (st.put r)
  | save tenantId r entity, st => (Repository.save (st.table r) tenantId entity).map (st.put r)
  | saveIfRevision tenantId entity expectedRevision, st =>
    (Repository.saveIfRevision (st.table .documents) tenantId entity expectedRevision).map
      (st.put .documents)
  | cancelPending tenantId resourceId changedAt, st =>
    match Repository.get (st.table .lifecycleOutbox) tenantId resourceId with
    | .error e => .error e
    | .ok none => .ok st
    | .ok (some event) =>
      if event.status = .pending then
        (Repository.save (st.table .lifecycleOutbox) tenantId
          { event with status := .cancelled, updatedAt := changedAt }).map
            (st.put .lifecycleOutbox)
      else .ok st

/-- The row a statement writes to a table.  What `cancelPending` writes to the outbox
depends on what is there, so the outbox is left out below. -/
def written (r : Resource) : Stmt → Option r.Row
  | add _ r' entity => if h : r' = r then some (h ▸ entity) else none
  | save _ r' entity => if h : r' = r then some (h ▸ entity) else none
  | saveIfRevision _ entity _ => if h : Resource.documents = r then some (h ▸ entity) else none
  | cancelPending _ _ _ => none

/-- A row that is written under its key hides what was there. -/
theorem ite_key_eq_or {ρ : Type} [Entity ρ] (k : String × String) (e : ρ) (o : Option ρ) :
    (if k = key e then some e else o) = ((some e).filter fun e => key e = k).or o := by
  rw [Option.filter_some]
  by_cases hk : k = key e
  · rw [if_pos hk, if_pos (by simpa using hk.symm), Option.some_or]
  · rw [if_neg hk, if_neg (by simpa using Ne.symm hk), Option.none_or]

/-- Reading after one statement: the row it wrote, or what was there. -/
theorem row_of_run {s : Stmt} {st st' : Store} (h : s.run st = .ok st') {r : Resource}
    (hr : r ≠ .lifecycleOutbox) (k : String × String) :
    st'.row r k = (((s.written r).filter fun e => key e = k).or (st.row r k)) := by
  cases s with
  | add tenantId r' entity =>
    cases hT : Repository.add (st.table r') tenantId entity with
    | error e => rw [run, hT] at h; cases h
    | ok T =>
      rw [run, hT] at h
      cases h
      by_cases hr' : r' = r
      · subst hr'
        simp only [written, dite_true, Store.row, Store.table_put_self]
        rw [Table.get_of_add (Repository.add_eq_ok hT), ite_key_eq_or]
      · simp [written, hr', Store.row, Store.table_put_of_ne _ _ (Ne.symm hr')]
  | save tenantId r' entity =>
    cases hT : Repository.save (st.table r') tenantId entity with
    | error e => rw [run, hT] at h; cases h
    | ok T =>
      rw [run, hT] at h
      cases h
      obtain ⟨⟨row, hrow⟩, -, rfl⟩ := Repository.save_eq_ok hT
      by_cases hr' : r' = r
      · subst hr'
        simp only [written, dite_true, Store.row, Store.table_put_self]
        rw [Table.get_replace hrow, ite_key_eq_or]
      · simp [written, hr', Store.row, Store.table_put_of_ne _ _ (Ne.symm hr')]
  | saveIfRevision tenantId entity expectedRevision =>
    cases hT : Repository.saveIfRevision (st.table .documents) tenantId entity
        expectedRevision with
    | error e => rw [run, hT] at h; cases h
    | ok T =>
      rw [run, hT] at h
      cases h
      obtain ⟨⟨row, hrow, -⟩, rfl⟩ := Repository.saveIfRevision_eq_ok hT
      by_cases hr' : Resource.documents = r
      · subst hr'
        simp only [written, dite_true, Store.row, Store.table_put_self]
        rw [Table.get_replace hrow, ite_key_eq_or]
      · simp [written, hr', Store.row, Store.table_put_of_ne _ _ (Ne.symm hr')]
  | cancelPending tenantId resourceId changedAt =>
    have hsame : st'.table r = st.table r := by
      rw [run] at h
      split at h
      · cases h
      · cases h; rfl
      split at h
      · rename_i event _ _
        cases hT : Repository.save (st.table .lifecycleOutbox) tenantId
            { event with status := .cancelled, updatedAt := changedAt } with
        | error e => rw [hT] at h; cases h
        | ok T => rw [hT] at h; cases h; exact Store.table_put_of_ne _ _ hr
      · cases h; rfl
    simp [written, Store.row, hsame]

end Stmt

namespace Store

/-- Run the statements of one transaction.  A statement that raises rolls the
transaction back, and then there is no new store. -/
def transact (st : Store) : List Stmt → Except Error Store
  | [] => .ok st
  | s :: l =>
    match s.run st with
    | .error e => .error e
    | .ok st' => st'.transact l

theorem transact_cons_eq_ok {st st' : Store} {s : Stmt} {l : List Stmt} :
    st.transact (s :: l) = .ok st' ↔ ∃ st₁, s.run st = .ok st₁ ∧ st₁.transact l = .ok st' := by
  rw [transact]
  cases s.run st <;> simp

theorem transact_append_eq_ok {st st' : Store} {l₁ l₂ : List Stmt} :
    st.transact (l₁ ++ l₂) = .ok st' ↔
      ∃ st₁, st.transact l₁ = .ok st₁ ∧ st₁.transact l₂ = .ok st' := by
  induction l₁ generalizing st with
  | nil => simp [transact]
  | cons s l₁ ih =>
    simp only [List.cons_append, transact_cons_eq_ok, ih]
    constructor
    · rintro ⟨st₁, h₁, st₂, h₂, h₃⟩
      exact ⟨st₂, ⟨st₁, h₁, h₂⟩, h₃⟩
    · rintro ⟨st₂, ⟨st₁, h₁, h₂⟩, h₃⟩
      exact ⟨st₁, h₁, st₂, h₂, h₃⟩

end Store

/-- The last row that a list of statements writes to a table under a key. -/
def lastWritten (r : Resource) (k : String × String) : List Stmt → Option r.Row
  | [] => none
  | s :: l => (lastWritten r k l).or ((s.written r).filter fun e => key e = k)

@[simp] theorem lastWritten_nil (r : Resource) (k : String × String) :
    lastWritten r k [] = none := rfl

@[simp] theorem lastWritten_cons (r : Resource) (k : String × String) (s : Stmt)
    (l : List Stmt) :
    lastWritten r k (s :: l) =
      (lastWritten r k l).or ((s.written r).filter fun e => key e = k) := rfl

theorem lastWritten_append (r : Resource) (k : String × String) (l₁ l₂ : List Stmt) :
    lastWritten r k (l₁ ++ l₂) = (lastWritten r k l₂).or (lastWritten r k l₁) := by
  induction l₁ with
  | nil => simp
  | cons s l₁ ih => simp only [List.cons_append, lastWritten_cons, ih, Option.or_assoc]

/-- What is written under a key is written by some statement, and has that key. -/
theorem exists_written_of_lastWritten {r : Resource} {k : String × String} {l : List Stmt}
    {e : r.Row} (h : lastWritten r k l = some e) :
    key e = k ∧ ∃ s ∈ l, s.written r = some e := by
  induction l with
  | nil => cases h
  | cons s l ih =>
    rw [lastWritten_cons, Option.or_eq_some_iff] at h
    obtain h | ⟨-, h⟩ := h
    · obtain ⟨hk, s', hs', he⟩ := ih h
      exact ⟨hk, s', List.mem_cons_of_mem s hs', he⟩
    · rw [Option.filter_eq_some_iff] at h
      exact ⟨by simpa using h.2, s, List.mem_cons_self, h.1⟩

/-- What one of the statements writes under its key is written, or written over. -/
theorem exists_lastWritten_of_mem {r : Resource} {l : List Stmt} {s : Stmt} {e : r.Row}
    (hs : s ∈ l) (he : s.written r = some e) : ∃ e', lastWritten r (key e) l = some e' := by
  induction l with
  | nil => cases hs
  | cons s' l ih =>
    rw [lastWritten_cons]
    rcases List.mem_cons.1 hs with rfl | hs
    · cases lastWritten r (key e) l with
      | none => exact ⟨e, by simp [he]⟩
      | some e' => exact ⟨e', rfl⟩
    · obtain ⟨e', he'⟩ := ih hs
      exact ⟨e', by rw [he', Option.some_or]⟩

/-- Nothing is written under a key by statements none of which writes to the table. -/
theorem lastWritten_eq_none {r : Resource} {l : List Stmt}
    (h : ∀ s ∈ l, s.written r = none) (k : String × String) : lastWritten r k l = none := by
  cases hw : lastWritten r k l with
  | none => rfl
  | some e =>
    obtain ⟨-, s, hs, he⟩ := exists_written_of_lastWritten hw
    rw [h s hs] at he
    cases he

/-- **Reading after a committed transaction**: the last row it wrote under the key, or
else what was there before. -/
theorem row_of_transact {st st' : Store} {l : List Stmt} (h : st.transact l = .ok st')
    {r : Resource} (hr : r ≠ .lifecycleOutbox) (k : String × String) :
    st'.row r k = (lastWritten r k l).or (st.row r k) := by
  induction l generalizing st with
  | nil => cases h; rfl
  | cons s l ih =>
    obtain ⟨st₁, h₁, h₂⟩ := Store.transact_cons_eq_ok.1 h
    rw [ih h₂, Stmt.row_of_run h₁ hr, lastWritten_cons, Option.or_assoc]

/-- A transaction that writes nothing to a table leaves it as it was. -/
theorem row_of_transact_of_written_eq_none {st st' : Store} {l : List Stmt}
    (h : st.transact l = .ok st') {r : Resource} (hr : r ≠ .lifecycleOutbox)
    (hl : ∀ s ∈ l, s.written r = none) (k : String × String) : st'.row r k = st.row r k := by
  rw [row_of_transact h hr, lastWritten_eq_none hl, Option.none_or]

/-- A committed `save` found a row under its key: after the statements before it. -/
theorem stored_of_save {st st' : Store} {l m : List Stmt} {tenantId : String}
    {r : Resource} {entity : r.Row}
    (h : st.transact (l ++ .save tenantId r entity :: m) = .ok st')
    (hr : r ≠ .lifecycleOutbox) (hl : ∀ s ∈ l, s.written r = none) :
    (∃ e, st.row r (key entity) = some e) ∧ Entity.rowValues entity = .ok () := by
  obtain ⟨st₁, h₁, h₂⟩ := Store.transact_append_eq_ok.1 h
  obtain ⟨st₂, h₃, -⟩ := Store.transact_cons_eq_ok.1 h₂
  rw [Stmt.run] at h₃
  cases hT : Repository.save (st₁.table r) tenantId entity with
  | error e => rw [hT] at h₃; cases h₃
  | ok T =>
    obtain ⟨⟨e, he⟩, hvalues, -⟩ := Repository.save_eq_ok hT
    refine ⟨⟨e, ?_⟩, hvalues⟩
    rw [← row_of_transact_of_written_eq_none h₁ hr hl]
    exact he

/-- **A conditional update commits only against the revision it expects.** -/
theorem stored_of_saveIfRevision {st st' : Store} {l m : List Stmt} {tenantId : String}
    {entity : Document} {expectedRevision : ℕ}
    (h : st.transact (l ++ .saveIfRevision tenantId entity expectedRevision :: m) = .ok st')
    (hl : ∀ s ∈ l, s.written .documents = none) :
    ∃ e, st.row .documents (key entity) = some e ∧ e.revision = expectedRevision := by
  obtain ⟨st₁, h₁, h₂⟩ := Store.transact_append_eq_ok.1 h
  obtain ⟨st₂, h₃, -⟩ := Store.transact_cons_eq_ok.1 h₂
  rw [Stmt.run] at h₃
  cases hT : Repository.saveIfRevision (st₁.table .documents) tenantId entity
      expectedRevision with
  | error e => rw [hT] at h₃; cases h₃
  | ok T =>
    obtain ⟨⟨e, he, hrevision⟩, -⟩ := Repository.saveIfRevision_eq_ok hT
    refine ⟨e, ?_, hrevision⟩
    rw [← row_of_transact_of_written_eq_none h₁ (r := .documents) (by decide) hl]
    exact he

/-- A committed `add` found nothing under its key. -/
theorem absent_of_add {st st' : Store} {l m : List Stmt} {tenantId : String}
    {r : Resource} {entity : r.Row}
    (h : st.transact (l ++ .add tenantId r entity :: m) = .ok st')
    (hr : r ≠ .lifecycleOutbox) (hl : ∀ s ∈ l, s.written r = none) :
    st.row r (key entity) = none := by
  obtain ⟨st₁, h₁, h₂⟩ := Store.transact_append_eq_ok.1 h
  obtain ⟨st₂, h₃, -⟩ := Store.transact_cons_eq_ok.1 h₂
  rw [Stmt.run] at h₃
  cases hT : Repository.add (st₁.table r) tenantId entity with
  | error e => rw [hT] at h₃; cases h₃
  | ok T =>
    rw [← row_of_transact_of_written_eq_none h₁ hr hl]
    exact (Table.add_eq_some (Repository.add_eq_ok hT)).1

end Knowledge
end RagflowAgent
