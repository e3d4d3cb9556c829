import RagflowAgent.Knowledge.Transactions

/-!
# What a transaction does to a row

The transactions of the catalogue, read table by table: what became of the row under a key.

* `DocumentStep` and `Writes.documentStep`: a document row stays, is created, or is replaced
  by a successor of a loaded row --- by a conditional update, or blindly at the first
  activation;
* `Writes.versionWrite` and `Writes.operationWrite` say which snapshots of versions and of
  operations are ever written.
-/

namespace RagflowAgent
namespace Knowledge

open Keyed

variable {task : Task} {knows : List Fact} {statements : List Stmt} {st st' : Store}

/-- Statements that all leave a table alone write nothing under any key. -/
theorem lastWritten_map_eq_none {α : Type} {r : Resource} {f : α → Stmt} {l : List α}
    (h : ∀ a, (f a).written r = none) (k : String × String) :
    lastWritten r k (l.map f) = none := by
  refine lastWritten_eq_none (fun s hs => ?_) k
  obtain ⟨a, -, rfl⟩ := List.mem_map.1 hs
  exact h a

/-- Reading a table that only one statement of a transaction writes to. -/
theorem row_of_transact_of_written {l m : List Stmt} {s : Stmt} {r : Resource} {e : r.Row}
    (hst : st.transact (l ++ s :: m) = .ok st') (hr : r ≠ .lifecycleOutbox)
    (h₁ : ∀ s ∈ l, s.written r = none) (h₂ : ∀ s ∈ m, s.written r = none)
    (hs : s.written r = some e) (k : String × String) :
    st'.row r k = if key e = k then some e else st.row r k := by
  rw [row_of_transact hst hr, lastWritten_append, lastWritten_cons, lastWritten_eq_none h₁,
    lastWritten_eq_none h₂, hs, Option.none_or, Option.or_none, Option.filter_some]
  by_cases hk : key e = k <;> simp [hk]

/-- The statements of a registration, one by one. -/
theorem DocumentUpdateService.Registration.forall_mem_statements {P : Stmt → Prop}
    {r : DocumentUpdateService.Registration} {tenantId : String} :
    (∀ s ∈ r.statements tenantId, P s) ↔
      P (.add tenantId .documentVersions r.version) ∧
      P (.add tenantId .lifecycleOperations r.operation) ∧
      P (.add tenantId .ingestionJobs r.job) ∧
      (∀ task ∈ r.tasks, P (.add tenantId .ingestionTasks task)) ∧
      P (.add tenantId .lifecycleOutbox r.event) := by
  simp [statements, or_imp, forall_and]

/-! ## Documents -/

/-- `document` is the next snapshot of the document that was loaded as `loaded`. -/
structure Document.Succeeds (document loaded : Document) : Prop where
  key : key document = key loaded
  knowledgeBaseId : document.knowledgeBaseId = loaded.knowledgeBaseId
  revision : document.revision = loaded.revision + 1

/-- Only an active document has a current version, and that version is stored, is one of
this document, and is ready. -/
structure Document.Current (document : Document) (st : Store) : Prop where
  active : document.currentVersionId ≠ none → document.status = .active
  version : ∀ versionId ∈ document.currentVersionId, ∃ version,
    st.row .documentVersions (document.tenantId, versionId) = some version ∧
      version.ReadyFor document

/-- A document without a current version. -/
theorem Document.Current.of_none {document : Document} (h : document.currentVersionId = none) :
    document.Current st :=
  ⟨fun hne => absurd h hne, by simp [h]⟩

/-- What a transaction that ends in the store `st'` does to the row of one document. -/
inductive DocumentStep (task : Task) (knows : List Fact) (st' : Store) :
    Option Document → Option Document → Prop where
  | same {row : Option Document} : DocumentStep task knows st' row row
  /-- `register_document`. -/
  | created {document : Document} : task = .submitting → document.status = .active →
      document.currentVersionId = none → document.revision = 0 →
      DocumentStep task knows st' none (some document)
  /-- A conditional update. -/
  | replaced {stored loaded document : Document} : Fact.stored .documents loaded ∈ knows →
      document.Succeeds loaded → document.Current st' → stored.revision = loaded.revision →
      DocumentStep task knows st' (some stored) (some document)
  /-- The unconditional update of a first activation. -/
  | activated {stored loaded document : Document} : task = .activating →
      Fact.stored .documents loaded ∈ knows → document.Succeeds loaded →
      document.Current st' → DocumentStep task knows st' (some stored) (some document)

/-- A transaction without a document. -/
theorem DocumentStep.of_written_eq_none (hst : st.transact statements = .ok st')
    (h : ∀ s ∈ statements, s.written .documents = none) (k : String × String) :
    DocumentStep task knows st' (st.row .documents k) (st'.row .documents k) := by
  rw [row_of_transact_of_written_eq_none hst (by decide) h]
  exact .same

/-- A transaction with one conditional update. -/
theorem DocumentStep.of_saveIfRevision {l m : List Stmt} {tenantId : String}
    {loaded document : Document}
    (hst : st.transact (l ++ .saveIfRevision tenantId document loaded.revision :: m) = .ok st')
    (h₁ : ∀ s ∈ l, s.written .documents = none) (h₂ : ∀ s ∈ m, s.written .documents = none)
    (hloaded : Fact.stored .documents loaded ∈ knows) (hsucceeds : document.Succeeds loaded)
    (hcurrent : document.Current st') (k : String × String) :
    DocumentStep task knows st' (st.row .documents k) (st'.row .documents k) := by
  obtain ⟨stored, hstored, hrevision⟩ := stored_of_saveIfRevision hst h₁
  rw [row_of_transact_of_written (r := .documents) hst (by decide) h₁ h₂ rfl]
  split
  · rename_i hk
    rw [← hk, hstored]
    exact .replaced hloaded hsucceeds hcurrent hrevision
  · exact .same

/-- An activated document has the version it was activated with. -/
theorem Document.Current.of_activated {loaded : Document} {ready : DocumentVersion} {now : ℕ}
    (hactive : loaded.status = .active) (hready : ready.ReadyFor loaded)
    (hrow : st.row .documentVersions (key ready) = some ready) :
    (loaded.activated ready now).Current st := by
  refine ⟨fun _ => hactive, fun versionId hversion => ?_⟩
  cases hversion
  refine ⟨ready, ?_, ⟨hready.tenantId, hready.knowledgeBaseId, hready.documentId,
    hready.status⟩⟩
  rw [key_documentVersion, hready.tenantId] at hrow
  exact hrow

theorem DocumentVersionPublisher.row_ready_of_publication {historyRetention now : ℕ}
    {loaded : Loaded} {operation : LifecycleOperation} {indexVersionId tenantId : String}
    {p : Publication}
    (hp : publication historyRetention loaded operation indexVersionId now = .ok p)
    (hst : st.transact (p.statements tenantId loaded.document) = .ok st') :
    st'.row .documentVersions (key p.ready) = some p.ready := by
  obtain ⟨-, -, -, -, -, hretired, -⟩ := publication_eq_ok hp
  rw [row_of_transact hst (by decide)]
  cases hr : p.retired with
  | none => simp [Publication.statements, hr, Stmt.written]
  | some retired =>
    obtain ⟨q, -, hne, hscope, -⟩ := hretired retired hr
    rw [← hscope.1] at hne
    simp [Publication.statements, hr, Stmt.written, hne]

/-- **What a transaction does to a document row.** -/
theorem Writes.documentStep (h : Writes task knows statements)
    (hst : st.transact statements = .ok st') (k : String × String) :
    DocumentStep task knows st' (st.row .documents k) (st'.row .documents k) := by
  cases h with
  | @publication _ _ _ _ _ _ loaded _ _ p hfacts _ _ _ _ hp =>
    have hrow := DocumentVersionPublisher.row_ready_of_publication hp hst
    obtain ⟨-, hready, hactive, hstatus, -, -⟩ := DocumentVersionPublisher.publication_eq_ok hp
    have hloaded : Fact.stored .documents loaded.document ∈ knows :=
      hfacts (by simp [DocumentVersionPublisher.Loaded.facts])
    have hsucceeds : p.active.Succeeds loaded.document := by
      rw [hactive]
      exact ⟨rfl, rfl, rfl⟩
    have hcurrent : p.active.Current st' := by
      rw [hactive]
      exact .of_activated hstatus hready hrow
    rw [DocumentVersionPublisher.Publication.statements, ← List.cons_append] at hst
    refine DocumentStep.of_saveIfRevision hst ?_ ?_ hloaded hsucceeds hcurrent k
    · simp [Stmt.written]
    · simp [Stmt.written]
  | deletion hdocument =>
    exact DocumentStep.of_saveIfRevision (l := []) hst (by simp) (by simp [Stmt.written])
      hdocument ⟨rfl, rfl, rfl⟩ (.of_none rfl) k
  | restoration hdocument _ _ _ _ _ _ _ hrestored =>
    obtain ⟨rfl, hready, hstatus, -⟩ := activateDocumentVersion_eq_ok hrestored
    have hrow := (row_of_transact_of_written (r := .documentVersions) (l := []) hst (by decide)
      (by simp) (by simp [Stmt.written]) rfl _).trans (if_pos rfl)
    exact DocumentStep.of_saveIfRevision (l := [_]) hst (by simp [Stmt.written])
      (by simp [Stmt.written]) hdocument ⟨rfl, rfl, rfl⟩
      (.of_activated hstatus hready hrow) k
  | @purge _ _ _ _ _ document _ _ hdocument _ _ hvalid _ _ hdue =>
    have hnone : document.currentVersionId = none := by
      by_contra hne
      refine hvalid.not_active_of_purgeAfter ?_ (hvalid.active_of_current hne)
      intro hpurge
      rw [hpurge] at hdue
      cases hdue
    exact DocumentStep.of_saveIfRevision hst (by simp [Stmt.written]) (by simp [Stmt.written])
      hdocument ⟨rfl, rfl, rfl⟩ (.of_none hnone) k
  | activation hdocument _ _ _ hactive =>
    obtain ⟨rfl, hready, hstatus, -⟩ := activateDocumentVersion_eq_ok hactive
    obtain ⟨⟨stored, hstored⟩, -⟩ := stored_of_save (l := [_]) hst (by decide)
      (by simp [Stmt.written])
    have hrow := (row_of_transact_of_written (r := .documentVersions) (l := []) hst (by decide)
      (by simp) (by simp [Stmt.written]) rfl _).trans (if_pos rfl)
    rw [row_of_transact_of_written (r := .documents) (l := [_]) hst (by decide)
      (by simp [Stmt.written]) (by simp [Stmt.written]) rfl]
    split
    · rename_i hk
      rw [← hk, hstored]
      exact .activated rfl hdocument ⟨rfl, rfl, rfl⟩ (.of_activated hstatus hready hrow)
    · exact .same
  | submission =>
    have habsent := absent_of_add (l := []) hst (by decide) (by simp)
    rw [row_of_transact_of_written (r := .documents) (l := []) hst (by decide)
      (by simp) (by simp [Stmt.written]) rfl]
    split
    · rename_i hk
      rw [← hk, habsent]
      exact .created rfl rfl rfl rfl
    · exact .same
  | registration =>
    refine DocumentStep.of_written_eq_none hst ?_ k
    exact DocumentUpdateService.Registration.forall_mem_statements.2
      ⟨rfl, rfl, rfl, fun _ _ => rfl, rfl⟩
  | _ => exact DocumentStep.of_written_eq_none hst (by simp [Stmt.written]) k

/-- A conditional update in a transaction of the catalogue: it is the only statement about
documents, and it writes a successor of the loaded row it is conditional on. -/
theorem Writes.conditional (h : Writes task knows statements) {tenantId : String}
    {document : Document} {n : ℕ} (hs : .saveIfRevision tenantId document n ∈ statements) :
    ∃ l m loaded, statements = l ++ .saveIfRevision tenantId document n :: m ∧
      (∀ s ∈ l ++ m, s.written .documents = none) ∧
      Fact.stored .documents loaded ∈ knows ∧ document.Succeeds loaded ∧
      loaded.revision = n := by
  cases h with
  | @publication t _ _ _ _ _ loaded _ _ p hfacts _ _ _ _ hp =>
    obtain ⟨-, -, hactive, -, -, -⟩ := DocumentVersionPublisher.publication_eq_ok hp
    simp only [DocumentVersionPublisher.Publication.statements, List.mem_cons, List.mem_append,
      List.mem_map, reduceCtorEq, false_or, and_false, exists_false, List.not_mem_nil, or_false,
      Stmt.saveIfRevision.injEq] at hs
    obtain ⟨rfl, rfl, rfl⟩ := hs
    refine ⟨_ :: p.retired.toList.map (.save tenantId .documentVersions), [_], loaded.document,
      rfl, by simp [Stmt.written, or_imp, forall_and],
      hfacts (by simp [DocumentVersionPublisher.Loaded.facts]), ?_, rfl⟩
    rw [hactive]
    exact ⟨rfl, rfl, rfl⟩
  | @deletion _ _ _ _ _ _ _ _ _ loaded hloaded =>
    simp only [List.mem_cons, reduceCtorEq, List.not_mem_nil, or_false,
      Stmt.saveIfRevision.injEq] at hs
    obtain ⟨rfl, rfl, rfl⟩ := hs
    exact ⟨[], _, loaded, rfl, by simp [Stmt.written], hloaded, ⟨rfl, rfl, rfl⟩, rfl⟩
  | @restoration _ _ _ _ _ _ _ loaded _ deletion _ _ hloaded _ _ _ _ _ _ _ hrestored =>
    obtain ⟨rfl, -⟩ := activateDocumentVersion_eq_ok hrestored
    simp only [List.mem_cons, List.mem_append, List.mem_map, reduceCtorEq, false_or, and_false,
      exists_false, List.not_mem_nil, or_false, Stmt.saveIfRevision.injEq] at hs
    obtain ⟨rfl, rfl, rfl⟩ := hs
    exact ⟨[_], _, loaded, rfl, by simp [Stmt.written, or_imp, forall_and], hloaded,
      ⟨rfl, rfl, rfl⟩, rfl⟩
  | @purge _ _ _ _ _ loaded _ _ hloaded =>
    simp only [List.mem_cons, List.mem_append, List.mem_map, reduceCtorEq, false_or, and_false,
      exists_false, List.not_mem_nil, or_false, Stmt.saveIfRevision.injEq] at hs
    obtain ⟨rfl, rfl, rfl⟩ := hs
    exact ⟨_, [_], loaded, rfl, by simp [Stmt.written, or_imp, forall_and], hloaded,
      ⟨rfl, rfl, rfl⟩, rfl⟩
  | _ => simp [DocumentUpdateService.Registration.statements] at hs

/-- **A conditional update that commits** replaces a row with the expected revision by one
with the next revision. -/
theorem Writes.row_of_conditional (h : Writes task knows statements)
    (hst : st.transact statements = .ok st') {tenantId : String} {document : Document} {n : ℕ}
    (hs : .saveIfRevision tenantId document n ∈ statements) :
    (∃ stored, st.row .documents (key document) = some stored ∧ stored.revision = n) ∧
      st'.row .documents (key document) = some document ∧ document.revision = n + 1 := by
  obtain ⟨l, m, loaded, rfl, hl, -, hsucceeds, hn⟩ := h.conditional hs
  obtain ⟨h₁, h₂⟩ := List.forall_mem_append.1 hl
  refine ⟨stored_of_saveIfRevision hst h₁, ?_, hn ▸ hsucceeds.revision⟩
  exact (row_of_transact_of_written (r := .documents) hst (by decide) h₁ h₂ rfl _).trans
    (if_pos rfl)

/-- **How document rows are written**: conditionally, or when the document is created, or
blindly by a first activation. -/
theorem Writes.documentWrite (h : Writes task knows statements) {s : Stmt}
    (hs : s ∈ statements) {document : Document} (he : s.written .documents = some document) :
    (∃ tenantId n, s = .saveIfRevision tenantId document n) ∨
      (∃ tenantId, s = .add tenantId .documents document ∧ statements.head? = some s) ∨
      (task = .activating ∧ ∃ loaded, Fact.stored .documents loaded ∈ knows ∧
        (∀ d, Fact.stored .documents d ∈ knows → d = loaded) ∧ document.Succeeds loaded) := by
  cases s with
  | saveIfRevision tenantId entity n =>
    cases he
    exact .inl ⟨tenantId, n, rfl⟩
  | cancelPending => cases he
  | add tenantId r entity =>
    by_cases hr : r = .documents
    · subst hr
      cases he
      refine .inr (.inl ⟨tenantId, rfl, ?_⟩)
      cases h with
      | submission => simpa [eq_comm] using hs
      | _ => simp [DocumentUpdateService.Registration.statements,
          DocumentVersionPublisher.Publication.statements] at hs
    · simp [Stmt.written, hr] at he
  | save tenantId r entity =>
    by_cases hr : r = .documents
    · subst hr
      cases he
      refine .inr (.inr ?_)
      cases h with
      | activation hdocument honly _ _ hactive =>
        obtain ⟨rfl, -⟩ := activateDocumentVersion_eq_ok hactive
        simp only [List.mem_cons, Stmt.save.injEq, reduceCtorEq, false_and, and_false, true_and,
          List.not_mem_nil, or_false, false_or, heq_eq_eq] at hs
        obtain ⟨-, rfl⟩ := hs
        exact ⟨rfl, _, hdocument, honly, ⟨rfl, rfl, rfl⟩⟩
      | _ => simp [DocumentUpdateService.Registration.statements,
          DocumentVersionPublisher.Publication.statements] at hs
    · simp [Stmt.written, hr] at he

/-! ## Versions -/

/-- The snapshots of versions that a transaction ending in the store `st'` writes. -/
inductive VersionWrite (task : Task) (knows : List Fact) (st' : Store) :
    DocumentVersion → Prop where
  | ready {loaded version : DocumentVersion} : Fact.stored .documentVersions loaded ∈ knows →
      version.SameScope loaded → version.status = .ready → VersionWrite task knows st' version
  /-- The blind saves of a delivery. -/
  | ingested {loaded version : DocumentVersion} :
      task = .startingVersion ∨ task = .failingVersion → version.status ≠ .ready →
      Fact.stored .documentVersions loaded ∈ knows → version.SameScope loaded →
      VersionWrite task knows st' version
  /-- The previous version of a publication.  The document of the operation has another
  current version by then. -/
  | superseded {loaded version : DocumentVersion} {operation : LifecycleOperation}
      {document : Document} : Fact.stored .documentVersions loaded ∈ knows →
      version.SameScope loaded → Fact.stored .lifecycleOperations operation ∈ knows →
      operation.tenantId = version.tenantId → operation.previousVersionId = some version.id →
      st'.row .documents (version.tenantId, operation.documentId) = some document →
      document.currentVersionId ≠ some version.id → VersionWrite task knows st' version
  /-- The versions of a purged document. -/
  | deleted {loaded version : DocumentVersion} {document : Document} :
      Fact.stored .documentVersions loaded ∈ knows → version.SameScope loaded →
      st'.row .documents (version.tenantId, version.documentId) = some document →
      document.status = .deleted → VersionWrite task knows st' version

/-- What a transaction that ends in the store `st'` does to the row of one version. -/
inductive VersionStep (task : Task) (knows : List Fact) (st' : Store) :
    Option DocumentVersion → Option DocumentVersion → Prop where
  | same {row : Option DocumentVersion} : VersionStep task knows st' row row
  | registered {version : DocumentVersion} : version.status = .registered →
      VersionStep task knows st' none (some version)
  | written {row : Option DocumentVersion} {version : DocumentVersion} :
      VersionWrite task knows st' version → VersionStep task knows st' row (some version)

/-- A transaction without a version. -/
theorem VersionStep.of_written_eq_none (hst : st.transact statements = .ok st')
    (h : ∀ s ∈ statements, s.written .documentVersions = none) (k : String × String) :
    VersionStep task knows st' (st.row .documentVersions k) (st'.row .documentVersions k) := by
  rw [row_of_transact_of_written_eq_none hst (by decide) h]
  exact .same

/-- A transaction whose versions are all accounted for. -/
theorem VersionStep.of_versionWrite (hst : st.transact statements = .ok st')
    (h : ∀ s ∈ statements, ∀ version, s.written .documentVersions = some version →
      VersionWrite task knows st' version) (k : String × String) :
    VersionStep task knows st' (st.row .documentVersions k) (st'.row .documentVersions k) := by
  rw [row_of_transact hst (r := .documentVersions) (by decide)]
  cases hw : lastWritten .documentVersions k statements with
  | none => exact .same
  | some version =>
    obtain ⟨-, s, hs, hversion⟩ := exists_written_of_lastWritten hw
    exact .written (h s hs version hversion)

/-- A transaction that registers one version. -/
theorem VersionStep.of_add {l m : List Stmt} {tenantId : String} {version : DocumentVersion}
    (hst : st.transact (l ++ .add tenantId .documentVersions version :: m) = .ok st')
    (h₁ : ∀ s ∈ l, s.written .documentVersions = none)
    (h₂ : ∀ s ∈ m, s.written .documentVersions = none)
    (hversion : version.status = .registered) (k : String × String) :
    VersionStep task knows st' (st.row .documentVersions k) (st'.row .documentVersions k) := by
  have habsent := absent_of_add hst (by decide) h₁
  rw [row_of_transact_of_written (r := .documentVersions) hst (by decide) h₁ h₂ rfl]
  split
  · rename_i hk
    rw [← hk, habsent]
    exact .registered hversion
  · exact .same

/-- **What a transaction does to a version row.** -/
theorem Writes.versionStep (h : Writes task knows statements)
    (hst : st.transact statements = .ok st') (k : String × String) :
    VersionStep task knows st' (st.row .documentVersions k) (st'.row .documentVersions k) := by
  cases h with
  | @publication tenantId _ _ _ _ _ loaded _ _ p hfacts _ _ hcoherent _ hp =>
    obtain ⟨hscope, hready, hactive, -, -, hretired, -⟩ :=
      DocumentVersionPublisher.publication_eq_ok hp
    have hversion : Fact.stored .documentVersions loaded.version ∈ knows :=
      hfacts (by simp [DocumentVersionPublisher.Loaded.facts])
    have hoperation : Fact.stored .lifecycleOperations loaded.operation ∈ knows :=
      hfacts (by simp [DocumentVersionPublisher.Loaded.facts])
    have hrow : st'.row .documents (key p.active) = some p.active := by
      rw [row_of_transact hst (r := .documents) (by decide)]
      cases hr : p.retired <;>
        simp [DocumentVersionPublisher.Publication.statements, hr, Stmt.written]
    refine VersionStep.of_versionWrite hst ?_ k
    have hwritten : ∀ r ∈ p.retired, VersionWrite task knows st' r := by
      intro r hr
      obtain ⟨q, hq, hne, hscope', -⟩ := hretired r hr
      obtain ⟨htenant, hprevious⟩ := hcoherent.previous q hq
      have hloaded : Fact.stored .documentVersions q ∈ knows :=
        hfacts (List.mem_append_right _ (List.mem_map_of_mem (Option.mem_toList.2 hq)))
      refine VersionWrite.superseded hloaded hscope' hoperation ?_ ?_
        (?_ : _ = some p.active) ?_
      · rw [hcoherent.operation, hscope'.2.1, htenant]
      · rw [hprevious, hscope'.1]
      · have hkey : key p.active = (r.tenantId, loaded.operation.documentId) := by
          rw [hactive, hscope'.2.1, htenant]
          exact hcoherent.document
        rw [← hkey]
        exact hrow
      · rw [hactive, hscope'.1]
        exact fun h => hne (Option.some.inj h).symm
    cases hr : p.retired with
    | none =>
      simpa [DocumentVersionPublisher.Publication.statements, hr, Stmt.written] using
        VersionWrite.ready hversion hscope hready.status
    | some r =>
      simpa [DocumentVersionPublisher.Publication.statements, hr, Stmt.written] using
        ⟨VersionWrite.ready hversion hscope hready.status, hwritten r hr⟩
  | restoration _ htarget _ _ _ _ _ hready hrestored =>
    obtain ⟨-, hready', -⟩ := activateDocumentVersion_eq_ok hrestored
    refine VersionStep.of_versionWrite hst ?_ k
    simpa [Stmt.written, or_imp, forall_and] using
      VersionWrite.ready htarget (DocumentDeletionService.restoredVersion_eq_ok hready)
        hready'.status
  | @purge context _ _ now _ document versions deleted _ _ hversions _ htenant hscope _
      hdeleted =>
    have hrow : st'.row .documents (key document) =
        some (DocumentDeletionService.purged document now) := by
      refine (row_of_transact_of_written (r := .documents) hst (by decide)
        (by simp [Stmt.written]) (by simp [Stmt.written]) rfl _).trans (if_pos rfl)
    refine VersionStep.of_versionWrite hst (fun s hs version hversion => ?_) k
    have hmem : version ∈ deleted := by
      simp only [List.mem_append, List.mem_map, List.mem_cons, List.not_mem_nil, or_false] at hs
      rcases hs with ⟨d, hd, rfl⟩ | rfl | rfl
      · cases hversion; exact hd
      · cases hversion
      · cases hversion
    obtain ⟨-, v, hv, hscope'⟩ :=
      DocumentDeletionService.deletedVersions_eq_ok hdeleted version hmem
    refine VersionWrite.deleted (hversions v hv) hscope'
      (?_ : _ = some (DocumentDeletionService.purged document now)) rfl
    rw [hscope'.2.1, hscope'.2.2.2, (hscope v hv).1, (hscope v hv).2, ← htenant]
    exact hrow
  | @startVersion _ _ _ _ started hversion _ hstarted =>
    refine VersionStep.of_versionWrite hst ?_ k
    have hne : started.status ≠ .ready := by
      rw [status_of_transitionDocumentVersion hstarted]
      decide
    simpa [Stmt.written] using VersionWrite.ingested (.inl rfl) hne hversion
      (sameScope_of_transitionDocumentVersion hstarted)
  | readyVersion hversion hscope hready =>
    refine VersionStep.of_versionWrite hst ?_ k
    simpa [Stmt.written] using VersionWrite.ready hversion hscope hready
  | @failVersion _ _ _ _ failed hversion _ hfailed =>
    refine VersionStep.of_versionWrite hst ?_ k
    have hne : failed.status ≠ .ready := by
      rw [status_of_transitionDocumentVersion hfailed]
      decide
    simpa [Stmt.written] using VersionWrite.ingested (.inr rfl) hne hversion
      (sameScope_of_transitionDocumentVersion hfailed)
  | activation _ _ hversion hscope hactive =>
    obtain ⟨-, hready, -⟩ := activateDocumentVersion_eq_ok hactive
    refine VersionStep.of_versionWrite hst ?_ k
    simpa [Stmt.written] using VersionWrite.ready hversion hscope hready.status
  | registration =>
    exact VersionStep.of_add (l := []) hst (by simp) (by
      simp [DocumentUpdateService.registration, Stmt.written, or_imp, forall_and]) rfl k
  | submission =>
    exact VersionStep.of_add (l := [_]) hst (by simp [Stmt.written]) (by simp) rfl k
  | _ => exact VersionStep.of_written_eq_none hst (by simp [Stmt.written]) k

/-- **The blind saves of a delivery** write one version, which is not ready, and nothing else. -/
theorem Writes.ingested (h : Writes task knows statements)
    (htask : task = .startingVersion ∨ task = .failingVersion) :
    ∃ tenantId version, statements = [.save tenantId .documentVersions version] ∧
      version.status ≠ .ready := by
  cases h with
  | publication _ _ _ _ hpublishes => rcases htask with rfl | rfl <;> simp [Publishes] at hpublishes
  | startVersion _ _ hstarted =>
    refine ⟨_, _, rfl, ?_⟩
    rw [status_of_transitionDocumentVersion hstarted]
    decide
  | failVersion _ _ hfailed =>
    refine ⟨_, _, rfl, ?_⟩
    rw [status_of_transitionDocumentVersion hfailed]
    decide
  | _ => rcases htask with h | h <;> cases h

/-! ## Operations -/

/-- **A cancellation and an update of the progress** save one operation and nothing else. -/
theorem Writes.savesOperation (h : Writes task knows statements)
    (htask : task = .cancelling ∨ task = .progressing) :
    ∃ tenantId operation, statements = [.save tenantId .lifecycleOperations operation] := by
  cases h with
  | publication _ _ _ _ hpublishes => rcases htask with rfl | rfl <;> simp [Publishes] at hpublishes
  | cancellation => exact ⟨_, _, rfl⟩
  | progress => exact ⟨_, _, rfl⟩
  | _ => rcases htask with h | h <;> cases h

/-- `operation` is a later snapshot of the operation that was loaded as `loaded`: what the
operation is about has not changed. -/
structure LifecycleOperation.Continues (operation loaded : LifecycleOperation) : Prop where
  key : key operation = key loaded
  documentId : operation.documentId = loaded.documentId
  versionId : operation.versionId = loaded.versionId
  previousVersionId : operation.previousVersionId = loaded.previousVersionId
  expectedDocumentRevision :
    operation.expectedDocumentRevision = loaded.expectedDocumentRevision
  fencingToken : operation.fencingToken = loaded.fencingToken

/-- The snapshots of operations that a transaction saves over a stored one. -/
inductive OperationWrite (task : Task) (knows : List Fact) (loaded : LifecycleOperation) :
    LifecycleOperation → Prop where
  | succeeded {operation : LifecycleOperation} : Publishes task knows loaded →
      operation.status = .member .succeeded → operation.progress = 1 →
      OperationWrite task knows loaded operation
  | cancelRequested {now : ℕ} : task = .cancelling →
      loaded.status.isIn terminalLifecycleStatuses = false →
      OperationWrite task knows loaded
        { loaded with status := .member .cancelRequested, updatedAt := now }
  | progressed {q : ℚ} {now : ℕ} : task = .progressing →
      Fact.ofRow .lifecycleOperations loaded ⊆ knows → loaded.progress ≤ q →
      OperationWrite task knows loaded { loaded with progress := q, updatedAt := now }

/-- An operation that is registered is to be done or is done already, and it replaces the
version that its document, as loaded, had. -/
def Registers (knows : List Fact) (operation : LifecycleOperation) : Prop :=
  (operation.status = .member .pending ∨ operation.status = .member .succeeded) ∧
    ∃ document, Fact.stored .documents document ∈ knows ∧
      key document = (operation.tenantId, operation.documentId) ∧
        ∀ p ∈ operation.previousVersionId, document.currentVersionId = some p

/-- What a transaction does to the row of one operation. -/
inductive OperationStep (task : Task) (knows : List Fact) :
    Option LifecycleOperation → Option LifecycleOperation → Prop where
  | same {row : Option LifecycleOperation} : OperationStep task knows row row
  | added {operation : LifecycleOperation} : Registers knows operation →
      OperationStep task knows none (some operation)
  | saved {stored loaded operation : LifecycleOperation} :
      Fact.stored .lifecycleOperations loaded ∈ knows → operation.Continues loaded →
      OperationWrite task knows loaded operation →
      OperationStep task knows (some stored) (some operation)

/-- A transaction without an operation. -/
theorem OperationStep.of_written_eq_none (hst : st.transact statements = .ok st')
    (h : ∀ s ∈ statements, s.written .lifecycleOperations = none) (k : String × String) :
    OperationStep task knows (st.row .lifecycleOperations k)
      (st'.row .lifecycleOperations k) := by
  rw [row_of_transact_of_written_eq_none hst (by decide) h]
  exact .same

/-- A transaction that adds one operation. -/
theorem OperationStep.of_add {l m : List Stmt} {tenantId : String}
    {operation : LifecycleOperation}
    (hst : st.transact (l ++ .add tenantId .lifecycleOperations operation :: m) = .ok st')
    (h₁ : ∀ s ∈ l, s.written .lifecycleOperations = none)
    (h₂ : ∀ s ∈ m, s.written .lifecycleOperations = none)
    (hregisters : Registers knows operation) (k : String × String) :
    OperationStep task knows (st.row .lifecycleOperations k)
      (st'.row .lifecycleOperations k) := by
  have habsent := absent_of_add hst (by decide) h₁
  rw [row_of_transact_of_written (r := .lifecycleOperations) hst (by decide) h₁ h₂ rfl]
  split
  · rename_i hk
    rw [← hk, habsent]
    exact .added hregisters
  · exact .same

/-- A transaction that saves one operation. -/
theorem OperationStep.of_save {l m : List Stmt} {tenantId : String}
    {loaded operation : LifecycleOperation}
    (hst : st.transact (l ++ .save tenantId .lifecycleOperations operation :: m) = .ok st')
    (h₁ : ∀ s ∈ l, s.written .lifecycleOperations = none)
    (h₂ : ∀ s ∈ m, s.written .lifecycleOperations = none)
    (hloaded : Fact.stored .lifecycleOperations loaded ∈ knows)
    (hcontinues : operation.Continues loaded) (hwrite : OperationWrite task knows loaded operation)
    (k : String × String) :
    OperationStep task knows (st.row .lifecycleOperations k)
      (st'.row .lifecycleOperations k) := by
  obtain ⟨⟨stored, hstored⟩, -⟩ := stored_of_save hst (by decide) h₁
  rw [row_of_transact_of_written (r := .lifecycleOperations) hst (by decide) h₁ h₂ rfl]
  split
  · rename_i hk
    rw [← hk, hstored]
    exact .saved hloaded hcontinues hwrite
  · exact .same

/-- **What a transaction does to the row of an operation.**  The failure of an operation is
never recorded: its status is a text, so that its SQL column cannot be computed. -/
theorem Writes.operationStep (h : Writes task knows statements)
    (hst : st.transact statements = .ok st') (k : String × String) :
    OperationStep task knows (st.row .lifecycleOperations k)
      (st'.row .lifecycleOperations k) := by
  cases h with
  | @publication tenantId _ _ _ _ _ loaded _ _ p hfacts _ _ _ hpublishes hp =>
    obtain ⟨-, -, -, -, -, -, steps, hoperation⟩ :=
      DocumentVersionPublisher.publication_eq_ok hp
    have hloaded : Fact.stored .lifecycleOperations loaded.operation ∈ knows :=
      hfacts (by simp [DocumentVersionPublisher.Loaded.facts])
    have hwrite : OperationWrite task knows loaded.operation p.operation := by
      refine .succeeded hpublishes ?_ ?_ <;> rw [hoperation]
    have hcontinues : p.operation.Continues loaded.operation := by
      rw [hoperation]
      exact ⟨rfl, rfl, rfl, rfl, rfl, rfl⟩
    have hstatements : p.statements tenantId loaded.document =
        (.save tenantId .documentVersions p.ready ::
          (p.retired.toList.map (.save tenantId .documentVersions) ++
            [.saveIfRevision tenantId p.active loaded.document.revision])) ++
          .save tenantId .lifecycleOperations p.operation :: [] := by
      simp [DocumentVersionPublisher.Publication.statements]
    rw [hstatements] at hst
    refine OperationStep.of_save hst ?_ (by simp) hloaded hcontinues hwrite k
    simp [Stmt.written, or_imp, forall_and]
  | rollback hdocument _ _ htenant =>
    exact OperationStep.of_add (l := []) hst (by simp) (by simp)
      ⟨.inl rfl, _, hdocument, congrArg (·, _) htenant, fun _ hp => hp⟩ k
  | deletion hdocument _ htenant _ hcurrent =>
    exact OperationStep.of_add (l := [_]) hst (by simp [Stmt.written]) (by simp [Stmt.written])
      ⟨.inl rfl, _, hdocument, congrArg (·, _) htenant, fun _ hp => hcurrent.trans hp⟩ k
  | restoration hdocument _ _ _ htenant =>
    exact OperationStep.of_add (l := [_, _]) hst (by simp [Stmt.written])
      (by simp [Stmt.written]) ⟨.inr rfl, _, hdocument, congrArg (·, _) htenant, fun _ hp => by cases hp⟩ k
  | purge hdocument _ _ _ htenant =>
    rw [List.append_cons] at hst
    exact OperationStep.of_add hst (by simp [Stmt.written, or_imp, forall_and]) (by simp)
      ⟨.inr rfl, _, hdocument, congrArg (·, _) htenant, fun _ hp => by cases hp⟩ k
  | cancellation hoperation _ hopen =>
    exact OperationStep.of_save (l := []) hst (by simp) (by simp) hoperation
      ⟨rfl, rfl, rfl, rfl, rfl, rfl⟩ (.cancelRequested rfl hopen) k
  | @progress _ _ _ _ loaded _ hfacts _ hupdated =>
    obtain ⟨hle, rfl⟩ := updateProgress_eq_ok hupdated
    exact OperationStep.of_save (l := []) hst (by simp) (by simp)
      (hfacts (stored_mem_ofRow (r := .lifecycleOperations) loaded)) ⟨rfl, rfl, rfl, rfl, rfl, rfl⟩
      (.progressed rfl hfacts hle) k
  | failOperation =>
    obtain ⟨-, hvalues⟩ := stored_of_save (l := []) hst (by decide) (by simp)
    cases hvalues
  | registration hdocument _ htenant hcurrent =>
    exact OperationStep.of_add (l := [_]) hst (by simp [Stmt.written])
      (by simp [DocumentUpdateService.registration, Stmt.written, or_imp, forall_and])
      ⟨.inl rfl, _, hdocument, congrArg (·, _) htenant, fun _ hp => hcurrent.trans hp⟩ k
  | _ => exact OperationStep.of_written_eq_none hst (by simp [Stmt.written]) k

end Knowledge
end RagflowAgent
