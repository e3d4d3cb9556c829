import RagflowAgent.Knowledge.Domain.Authorization

/-!
# Documents and their versions

A `Document` is a logical document whose content is a reference to one of its
`DocumentVersion`s.  Both are immutable snapshots; a change makes a new snapshot with a
revision one higher.

* `transitionDocumentVersion` moves a version along an edge of
  `DocumentVersionStatus.transitions`;
* `activateDocumentVersion` makes a ready version of the same document its current one;
* `Document.validate` and `DocumentVersion.validate` are the model validators, which
  run when a snapshot is built by validation and when a row is decoded.

Services also copy snapshots without validation (`model_copy`), so the validators are
functions here and not fields of the structures.  What the two domain functions return
is stated once, in `transitionDocumentVersion_eq_ok` and `activateDocumentVersion_eq_ok`.
-/

namespace RagflowAgent
namespace Knowledge

inductive DocumentStatus where
  | active
  | deletePending
  | deleted
  deriving DecidableEq, Repr

inductive DocumentVersionStatus where
  | registered
  | ingesting
  | ready
  | failed
  | superseded
  | deleted
  deriving DecidableEq, Repr

/-- `_VERSION_TRANSITIONS`. -/
def DocumentVersionStatus.transitions : DocumentVersionStatus → List DocumentVersionStatus
  | registered => [ingesting, deleted]
  | ingesting => [ready, failed, deleted]
  | ready => [superseded, deleted]
  | failed => [ingesting, deleted]
  | superseded => [ready, deleted]
  | deleted => []

structure Document where
  id : String
  tenantId : String
  knowledgeBaseId : String
  ownerId : String
  name : String
  visibility : Visibility := .ownerOnly
  status : DocumentStatus := .active
  currentVersionId : Option String := none
  revision : ℕ := 0
  deletedAt : Option ℕ := none
  purgeAfter : Option ℕ := none
  createdAt : ℕ
  updatedAt : ℕ
  deriving DecidableEq, Repr

structure DocumentVersion where
  id : String
  tenantId : String
  knowledgeBaseId : String
  documentId : String
  createdBy : String
  objectKey : String
  mediaType : String
  contentHash : String
  contentHashAlgorithm : String := "sha256"
  sizeBytes : ℕ
  status : DocumentVersionStatus := .registered
  revision : ℕ := 0
  indexVersionId : Option String := none
  activatedAt : Option ℕ := none
  retiredAt : Option ℕ := none
  purgeAfter : Option ℕ := none
  createdAt : ℕ
  updatedAt : ℕ
  deriving DecidableEq, Repr

namespace Document

def authorization (document : Document) : ResourceAuthorization where
  tenantId := document.tenantId
  ownerId := document.ownerId
  visibility := document.visibility

/-- `validate_document`, its checks in the order of the source. -/
def validate (document : Document) : Except Error Document :=
  if document.updatedAt < document.createdAt then
    .error (.validation "updated_at cannot precede created_at")
  else if document.status ≠ .active ∧ document.currentVersionId ≠ none then
    .error (.validation "non-active documents cannot expose a current version")
  else if document.status = .active ∧ document.deletedAt ≠ none then
    .error (.validation "active documents cannot carry deleted_at")
  else if document.status ≠ .active ∧ document.deletedAt = none then
    .error (.validation "deleted or delete-pending documents require deleted_at")
  else if document.purgeAfter ≠ none ∧ document.deletedAt = none then
    .error (.validation "purge_after requires deleted_at")
  else .ok document

/-- A snapshot its validator accepts. -/
structure Valid (document : Document) : Prop where
  createdAt_le : document.createdAt ≤ document.updatedAt
  active_of_current : document.currentVersionId ≠ none → document.status = .active
  deletedAt_eq_none : document.deletedAt = none ↔ document.status = .active
  purgeAfter_eq_none : document.deletedAt = none → document.purgeAfter = none

/-- **The validator accepts exactly the valid snapshots**, and returns them unchanged. -/
theorem validate_eq_ok {document document' : Document} :
    document.validate = .ok document' ↔ document' = document ∧ document.Valid := by
  constructor
  · intro h
    unfold validate at h
    split at h
    · cases h
    split at h
    · cases h
    split at h
    · cases h
    split at h
    · cases h
    split at h
    · cases h
    · cases h
      refine ⟨rfl, by omega, fun hcurrent => ?_, ⟨fun hnone => ?_, fun hactive => ?_⟩,
        fun hnone => ?_⟩
      all_goals by_contra hcon; simp_all
  · rintro ⟨rfl, h⟩
    have h1 := h.active_of_current
    have h2 := h.deletedAt_eq_none
    have h3 := h.purgeAfter_eq_none
    unfold validate
    rw [if_neg (Nat.not_lt.2 h.createdAt_le)]
    by_cases hs : document'.status = .active
    · simp [hs, h2.2 hs, h3 (h2.2 hs)]
    · have hc : document'.currentVersionId = none := by
        by_contra hc
        exact hs (h1 hc)
      have hd : document'.deletedAt ≠ none := fun hd => hs (h2.1 hd)
      simp [hs, hc, hd]

/-- A document that waits for its purge is not active. -/
theorem Valid.not_active_of_purgeAfter {document : Document} (h : document.Valid)
    (hp : document.purgeAfter ≠ none) : document.status ≠ .active :=
  fun hs => hp (h.purgeAfter_eq_none (h.deletedAt_eq_none.2 hs))

end Document

namespace DocumentVersion

/-- `validate_version`. -/
def validate (version : DocumentVersion) : Except Error DocumentVersion :=
  if version.updatedAt < version.createdAt then
    .error (.validation "updated_at cannot precede created_at")
  else .ok version

/-- A snapshot its validator accepts. -/
def Valid (version : DocumentVersion) : Prop := version.createdAt ≤ version.updatedAt

theorem validate_eq_ok {version version' : DocumentVersion} :
    version.validate = .ok version' ↔ version' = version ∧ version.Valid := by
  unfold validate Valid
  split <;> rename_i h
  · simp [Nat.not_le.2 h]
  · simp [Nat.not_lt.1 h, eq_comm]

/-- Two snapshots of the same version of the same document.  No service ever writes a
snapshot of a version over one with another scope. -/
def SameScope (version version' : DocumentVersion) : Prop :=
  version.id = version'.id ∧ version.tenantId = version'.tenantId ∧
    version.knowledgeBaseId = version'.knowledgeBaseId ∧
    version.documentId = version'.documentId

theorem SameScope.refl (version : DocumentVersion) : version.SameScope version :=
  ⟨rfl, rfl, rfl, rfl⟩

theorem SameScope.symm {version version' : DocumentVersion} (h : version.SameScope version') :
    version'.SameScope version :=
  ⟨h.1.symm, h.2.1.symm, h.2.2.1.symm, h.2.2.2.symm⟩

theorem SameScope.trans {version version' version'' : DocumentVersion}
    (h : version.SameScope version') (h' : version'.SameScope version'') :
    version.SameScope version'' :=
  ⟨h.1.trans h'.1, h.2.1.trans h'.2.1, h.2.2.1.trans h'.2.2.1, h.2.2.2.trans h'.2.2.2⟩

end DocumentVersion

/-! ## Transitions of a version -/

/-- Return a new version state after validating the lifecycle edge. -/
def transitionDocumentVersion (version : DocumentVersion) (target : DocumentVersionStatus)
    (changedAt : ℕ) : Except Error DocumentVersion :=
  if changedAt < version.updatedAt then
    .error (.conflict "document version timestamp cannot move backwards"
      "document_version_timestamp_regression")
  else if target = version.status then .ok version
  else if target ∉ version.status.transitions then
    .error (.conflict "document version transition is not allowed"
      "document_version_transition_invalid")
  else
    DocumentVersion.validate
      { version with
        status := target
        revision := version.revision + 1
        updatedAt := changedAt }

/-- What a transition returns: the snapshot itself when there is nothing to do, and
otherwise the next revision along an edge. -/
theorem transitionDocumentVersion_eq_ok {version version' : DocumentVersion}
    {target : DocumentVersionStatus} {changedAt : ℕ}
    (h : transitionDocumentVersion version target changedAt = .ok version') :
    version.updatedAt ≤ changedAt ∧
      ((target = version.status ∧ version' = version) ∨
        (target ∈ version.status.transitions ∧
          version' = { version with
            status := target
            revision := version.revision + 1
            updatedAt := changedAt })) := by
  unfold transitionDocumentVersion at h
  split at h
  · cases h
  split at h
  · cases h
    exact ⟨by omega, .inl ⟨‹_›, rfl⟩⟩
  split at h
  · cases h
  · refine ⟨by omega, .inr ⟨by rwa [not_not] at *, ?_⟩⟩
    exact (DocumentVersion.validate_eq_ok.1 h).1

/-- A transition ends in its target. -/
theorem status_of_transitionDocumentVersion {version version' : DocumentVersion}
    {target : DocumentVersionStatus} {changedAt : ℕ}
    (h : transitionDocumentVersion version target changedAt = .ok version') :
    version'.status = target := by
  obtain ⟨-, ⟨rfl, rfl⟩ | ⟨-, rfl⟩⟩ := transitionDocumentVersion_eq_ok h <;> rfl

/-- A transition keeps the scope. -/
theorem sameScope_of_transitionDocumentVersion {version version' : DocumentVersion}
    {target : DocumentVersionStatus} {changedAt : ℕ}
    (h : transitionDocumentVersion version target changedAt = .ok version') :
    version'.SameScope version := by
  obtain ⟨-, ⟨-, rfl⟩ | ⟨-, rfl⟩⟩ := transitionDocumentVersion_eq_ok h <;>
    exact ⟨rfl, rfl, rfl, rfl⟩

/-- A deleted version stays deleted: no edge leaves it. -/
theorem target_eq_deleted_of_transitionDocumentVersion {version version' : DocumentVersion}
    {target : DocumentVersionStatus} {changedAt : ℕ} (hv : version.status = .deleted)
    (h : transitionDocumentVersion version target changedAt = .ok version') :
    target = .deleted := by
  obtain ⟨-, ⟨rfl, -⟩ | ⟨hedge, -⟩⟩ := transitionDocumentVersion_eq_ok h
  · exact hv
  · rw [hv] at hedge
    cases hedge

/-- An edge is taken when the clock has not gone backwards. -/
theorem transitionDocumentVersion_of_mem {version : DocumentVersion}
    {target : DocumentVersionStatus} {changedAt : ℕ} (hvalid : version.Valid)
    (hclock : version.updatedAt ≤ changedAt) (hne : target ≠ version.status)
    (hedge : target ∈ version.status.transitions) :
    transitionDocumentVersion version target changedAt =
      .ok { version with
        status := target
        revision := version.revision + 1
        updatedAt := changedAt } := by
  unfold transitionDocumentVersion
  rw [if_neg (Nat.not_lt.2 hclock), if_neg hne, if_neg (not_not.2 hedge)]
  exact DocumentVersion.validate_eq_ok.2 ⟨rfl, Nat.le_trans hvalid hclock⟩

/-- A transition to the status a version has does nothing. -/
theorem transitionDocumentVersion_self {version : DocumentVersion} {changedAt : ℕ}
    (hclock : version.updatedAt ≤ changedAt) :
    transitionDocumentVersion version version.status changedAt = .ok version := by
  unfold transitionDocumentVersion
  rw [if_neg (Nat.not_lt.2 hclock), if_pos rfl]

/-! ## Activation -/

/-- Set a ready, same-document version as the logical document's current version. -/
def activateDocumentVersion (document : Document) (version : DocumentVersion)
    (changedAt : ℕ) (expectedRevision : Option ℕ := none) : Except Error Document :=
  if changedAt < document.updatedAt then
    .error (.conflict "document timestamp cannot move backwards"
      "document_timestamp_regression")
  else if (document.tenantId, document.knowledgeBaseId, document.id) ≠
      (version.tenantId, version.knowledgeBaseId, version.documentId) then
    .error (.conflict "document version belongs to a different aggregate"
      "document_version_scope_mismatch")
  else if version.status ≠ .ready then
    .error (.conflict "only a ready document version can be activated"
      "document_version_not_ready")
  else if document.status ≠ .active then
    .error (.conflict "deleted documents cannot activate versions" "document_deleted")
  else if expectedRevision.any (document.revision ≠ ·) then
    .error (.conflict "document revision changed before activation"
      "document_revision_conflict")
  else
    Document.validate
      { document with
        currentVersionId := some version.id
        revision := document.revision + 1
        updatedAt := changedAt }

/-- The snapshot that `activateDocumentVersion` builds. -/
def Document.activated (document : Document) (version : DocumentVersion) (changedAt : ℕ) :
    Document :=
  { document with
    currentVersionId := some version.id
    revision := document.revision + 1
    updatedAt := changedAt }

/-- A version that may become current in a document: of the same tenant, knowledge base
and document, and ready. -/
structure DocumentVersion.ReadyFor (version : DocumentVersion) (document : Document) : Prop where
  tenantId : version.tenantId = document.tenantId
  knowledgeBaseId : version.knowledgeBaseId = document.knowledgeBaseId
  documentId : version.documentId = document.id
  status : version.status = .ready

/-- **What an activation needs and returns.** -/
theorem activateDocumentVersion_eq_ok {document document' : Document}
    {version : DocumentVersion} {changedAt : ℕ} {expectedRevision : Option ℕ}
    (h : activateDocumentVersion document version changedAt expectedRevision = .ok document') :
    document' = document.activated version changedAt ∧ version.ReadyFor document ∧
      document.status = .active ∧ (∀ r ∈ expectedRevision, document.revision = r) := by
  unfold activateDocumentVersion at h
  split at h
  · cases h
  split at h
  · cases h
  split at h
  · cases h
  split at h
  · cases h
  split at h
  · cases h
  rename_i hscope hready hactive hrevision
  rw [not_not, Prod.mk.injEq, Prod.mk.injEq] at hscope
  obtain ⟨htenant, hkb, hid⟩ := hscope
  refine ⟨(Document.validate_eq_ok.1 h).1,
    ⟨htenant.symm, hkb.symm, hid.symm, not_not.1 hready⟩, not_not.1 hactive, ?_⟩
  rintro r hr
  cases hr
  simpa using hrevision

/-- An activation succeeds when nothing stands in its way. -/
theorem activateDocumentVersion_of_readyFor {document : Document} {version : DocumentVersion}
    {changedAt : ℕ} {expectedRevision : Option ℕ} (hvalid : document.Valid)
    (hready : version.ReadyFor document) (hactive : document.status = .active)
    (hclock : document.updatedAt ≤ changedAt)
    (hrevision : ∀ r ∈ expectedRevision, document.revision = r) :
    activateDocumentVersion document version changedAt expectedRevision =
      .ok (document.activated version changedAt) := by
  have hany : expectedRevision.any (document.revision ≠ ·) = false := by
    cases expectedRevision with
    | none => rfl
    | some r => simpa using hrevision r rfl
  unfold activateDocumentVersion
  rw [if_neg (Nat.not_lt.2 hclock), if_neg (by
      rw [hready.tenantId, hready.knowledgeBaseId, hready.documentId]
      exact not_not.2 rfl),
    if_neg (not_not.2 hready.status), if_neg (not_not.2 hactive), hany]
  refine Document.validate_eq_ok.2 ⟨rfl, Nat.le_trans hvalid.createdAt_le hclock, fun _ => hactive,
    hvalid.deletedAt_eq_none, hvalid.purgeAfter_eq_none⟩

end Knowledge
end RagflowAgent
