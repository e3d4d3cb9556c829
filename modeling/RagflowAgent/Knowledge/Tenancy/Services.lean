import RagflowAgent.Knowledge.Commands
import RagflowAgent.Knowledge.Tenancy.Calls

/-!
# The services stay with their tenant

Every service works for the tenant of its caller, or of the envelope it was delivered.  Whatever it
is answered, each call it makes is a call of this tenant: `Confined tenant p Q` says so, and that
`Q` holds of what `p` returns.  The walks end in `confined_service`, for all commands.
-/

namespace RagflowAgent
namespace Knowledge

open Interleaving Discipline Keyed

variable {α β γ : Type} {tenant : TenantName} {task : Task} {knows : List Fact}

/-- Every call of the service is a call of the tenant, and `Q` holds of what it returns. -/
def Confined (tenant : TenantName) (p : Service α) (Q : α → Prop) : Prop :=
  (tenantDiscipline tenant).Obeys p (fun b _ => Q b) (fun _ _ => True) []

namespace Confined

variable {Q : α → Prop}

theorem ret {a : α} (h : Q a) : Confined tenant (.ret a) Q := h

theorem raise {e : Error} : Confined tenant (.raise e : Service α) Q := trivial

theorem bind {p : Service β} {f : β → Service α} {R : β → Prop} (hp : Confined tenant p R)
    (hf : ∀ b, R b → Confined tenant (f b) Q) : Confined tenant (p.bind f) Q := by
  refine obeys_bind hp fun b known hb => ?_
  obtain rfl : known = [] := List.eq_nil_iff_forall_not_mem.2 fun fact => fact.elim
  exact hf b hb

/-- One call, then the rest. -/
theorem ask {call : Call β} {f : β → Service α}
    (hcall : (⟨task, knows, call⟩ : Action β).OfTenant tenant)
    (hf : ∀ b, (⟨task, knows, call⟩ : Action β).Tells (.ok b) → Confined tenant (f b) Q) :
    Confined tenant ((Knowledge.ask task knows call).bind f) Q :=
  bind (R := fun b => (⟨task, knows, call⟩ : Action β).Tells (.ok b))
    (obeys_perform hcall (List.nil_subset _) (fun _ hb => hb) fun _ => trivial) hf

/-- A last call. -/
theorem ask' {call : Call α} (hcall : (⟨task, knows, call⟩ : Action α).OfTenant tenant)
    (hQ : ∀ b, (⟨task, knows, call⟩ : Action α).Tells (.ok b) → Q b) :
    Confined tenant (Knowledge.ask task knows call) Q :=
  obeys_perform hcall (List.nil_subset _) hQ fun _ => trivial

/-- A pure computation, then the rest. -/
theorem lift {r : Except Error β} {f : β → Service α}
    (hf : ∀ b, r = .ok b → Confined tenant (f b) Q) :
    Confined tenant ((Prog.ofExcept r : Service β).bind f) Q :=
  bind (R := fun b => r = .ok b) (obeys_ofExcept (fun _ hb => hb) fun _ _ => trivial) hf

/-- A last pure computation. -/
theorem lift' {r : Except Error α} (hQ : ∀ a, r = .ok a → Q a) :
    Confined tenant (Prog.ofExcept r : Service α) Q :=
  obeys_ofExcept hQ fun _ _ => trivial

/-- A check, then the rest. -/
theorem raiseWhen {p : Prop} [Decidable p] {e : Error} {f : Unit → Service α}
    (hf : ¬ p → Confined tenant (f ()) Q) :
    Confined tenant ((Prog.raiseWhen p e : Service Unit).bind f) Q :=
  bind (R := fun _ => ¬ p) (obeys_raiseWhen (fun _ => trivial) fun hp => hp) fun _ hp => hf hp

theorem mono {p : Service α} {Q' : α → Prop} (h : Confined tenant p Q) (hQ : ∀ a, Q a → Q' a) :
    Confined tenant p Q' :=
  Obeys.mono h (fun a _ => hQ a) fun _ _ _ => trivial

theorem forEach {l : List γ} {f : γ → Service Unit}
    (hf : ∀ a ∈ l, Confined tenant (f a) fun _ => True) :
    Confined tenant (Prog.forEach l f) fun _ => True := by
  refine obeys_forEach (I := fun _ => True) (fun a ha known _ => ?_) trivial
  obtain rfl : known = [] := List.eq_nil_iff_forall_not_mem.2 fun fact => fact.elim
  exact hf a ha

/-- A block with a handler. -/
theorem attempt {p : Service α} {h : Error → Service α} (hp : Confined tenant p Q)
    (hh : ∀ e, Confined tenant (h e) Q) : Confined tenant (p.attempt h) Q := by
  refine obeys_attempt trivial hp fun e known _ => ?_
  obtain rfl : known = [] := List.eq_nil_iff_forall_not_mem.2 fun fact => fact.elim
  exact hh e

end Confined

/-! ## Versions keep their object keys -/

theorem wellNamed_of_transition {version version' : DocumentVersion}
    {target : DocumentVersionStatus} {now : ℕ} (hversion : WellNamed .documentVersions version)
    (h : transitionDocumentVersion version target now = .ok version') :
    WellNamed .documentVersions version' := by
  obtain ⟨-, ⟨-, rfl⟩ | ⟨-, rfl⟩⟩ := transitionDocumentVersion_eq_ok h
  · exact hversion
  · exact hversion

/-- Saving versions of the tenant. -/
theorem ofTenant_of_mem_map_save {versions : List DocumentVersion} {tenantId : String}
    (h : ∀ version ∈ versions, WellNamed .documentVersions version) :
    ∀ s ∈ versions.map (Stmt.save tenantId .documentVersions), s.OfTenant tenantId := by
  intro s hs
  obtain ⟨version, hmem, rfl⟩ := List.mem_map.1 hs
  exact ⟨rfl, h version hmem⟩

/-! ## Publication -/

namespace DocumentVersionPublisher

variable {settings : Settings} {context : AuthorizationContext}

/-- The versions of what is loaded have proper names. -/
structure Loaded.WellNamed (loaded : Loaded) : Prop where
  version : Knowledge.WellNamed .documentVersions loaded.version
  previous : ∀ version ∈ loaded.previous, Knowledge.WellNamed .documentVersions version

theorem wellNamed_of_publication {historyRetention now : ℕ} {loaded : Loaded}
    {operation : LifecycleOperation} {indexVersionId : String} {p : Publication}
    (hloaded : loaded.WellNamed)
    (h : publication historyRetention loaded operation indexVersionId now = .ok p) :
    Knowledge.WellNamed .documentVersions p.ready ∧
      ∀ version ∈ p.retired.toList, Knowledge.WellNamed .documentVersions version := by
  obtain ⟨ready, hready, h⟩ := bind_eq_ok.1 h
  obtain ⟨active, -, h⟩ := bind_eq_ok.1 h
  obtain ⟨retired, hretired, h⟩ := bind_eq_ok.1 h
  obtain ⟨operation', -, h⟩ := bind_eq_ok.1 h
  cases h
  refine ⟨?_, fun version hversion => ?_⟩
  · obtain ⟨r, hr, rfl⟩ := map_eq_ok.1 hready
    split at hr
    · cases hr
      exact hloaded.version
    · have hnamed := wellNamed_of_transition hloaded.version hr
      exact hnamed
  · rw [Option.mem_toList] at hversion
    unfold supersede at hretired
    split at hretired
    · cases hretired
      cases hversion
    rename_i previous hprevious
    split at hretired
    · obtain ⟨r, hr, hretired⟩ := bind_eq_ok.1 hretired
      cases hretired
      cases hversion
      have hnamed := wellNamed_of_transition (hloaded.previous previous hprevious) hr
      exact hnamed
    · cases hretired
      cases hversion

theorem confined_loadPrevious {operation : LifecycleOperation}
    (hcontext : context.tenantId = tenant) :
    Confined tenant (loadPrevious context task knows operation)
      fun previous => ∀ version ∈ previous, Knowledge.WellNamed .documentVersions version := by
  unfold loadPrevious
  split
  · exact Confined.ret (by simp)
  · exact Confined.ask' hcontext fun previous h version hversion => (h version hversion).2

theorem confined_load {operationId : String} (hcontext : context.tenantId = tenant) :
    Confined tenant (load context operationId task knows) Loaded.WellNamed := by
  refine Confined.ask hcontext fun operation _ => ?_
  cases operation with
  | none => exact Confined.raise
  | some operation =>
    refine Confined.ask hcontext fun document _ => Confined.ask hcontext fun version hversion => ?_
    refine Confined.bind (confined_loadPrevious hcontext) fun previous hprevious => ?_
    cases document with
    | none => exact Confined.raise
    | some document =>
      cases version with
      | none => exact Confined.raise
      | some version => exact Confined.ret ⟨(hversion version rfl).2, hprevious⟩

theorem confined_publish {loaded : Loaded} {indexVersionId : String}
    (hcontext : context.tenantId = tenant) (hloaded : loaded.WellNamed) :
    Confined tenant (publish settings context loaded indexVersionId task knows)
      fun _ => True := by
  refine Confined.raiseWhen fun _ => Confined.raiseWhen fun _ => ?_
  refine Confined.ask trivial fun now _ => Confined.ask hcontext fun count _ => ?_
  refine Confined.raiseWhen fun _ => Confined.lift fun operation _ => ?_
  refine Confined.ask hcontext fun _ _ => Confined.lift fun operation _ => ?_
  refine Confined.lift fun p hp => ?_
  obtain ⟨hready, hretired⟩ := wellNamed_of_publication hloaded hp
  refine Confined.ask ?_ fun _ _ => ?_
  · intro s hs
    rcases List.mem_cons.1 hs with rfl | hs
    · exact ⟨hcontext, hready⟩
    rcases List.mem_append.1 hs with hs | hs
    · exact hcontext ▸ ofTenant_of_mem_map_save hretired s hs
    · simp only [List.mem_cons, List.not_mem_nil, or_false] at hs
      rcases hs with rfl | rfl
      · exact hcontext
      · exact ⟨hcontext, trivial⟩
  · split
    · exact Confined.ret trivial
    · exact Confined.ask hcontext fun _ _ => Confined.ret trivial

theorem confined_completeIngestion {operationId indexVersionId : String}
    (hcontext : context.tenantId = tenant) :
    Confined tenant (completeIngestion settings context operationId indexVersionId task knows)
      fun _ => True := by
  refine Confined.bind (confined_load hcontext) fun loaded hloaded => ?_
  split
  · exact Confined.ret trivial
  · exact confined_publish hcontext hloaded

theorem confined_rollback {documentId targetVersionId idempotencyKey reason : String}
    (hcontext : context.tenantId = tenant) :
    Confined tenant
      (rollback settings context documentId targetVersionId idempotencyKey reason)
      fun _ => True := by
  refine Confined.ask hcontext fun duplicate _ => Confined.ask hcontext fun document _ => ?_
  refine Confined.ask hcontext fun target _ => ?_
  split
  · refine Confined.lift fun _ _ => ?_
    split
    · exact Confined.lift' fun _ _ => trivial
    · refine Confined.raiseWhen fun _ => Confined.ask trivial fun now _ => ?_
      refine Confined.ask trivial fun operationId _ => Confined.ask ?_ fun _ _ => ?_
      · intro s hs
        obtain rfl := List.mem_singleton.1 hs
        exact ⟨hcontext, trivial⟩
      · exact confined_completeIngestion hcontext
  · exact Confined.raise

end DocumentVersionPublisher

/-! ## Deletion, restoration and purge -/

namespace DocumentDeletionService

variable {settings : Settings} {context : AuthorizationContext}

theorem confined_requestDelete {documentId idempotencyKey reason : String}
    (hcontext : context.tenantId = tenant) :
    Confined tenant (requestDelete settings context documentId idempotencyKey reason)
      fun _ => True := by
  refine Confined.ask hcontext fun duplicate _ => Confined.ask hcontext fun document _ => ?_
  cases document with
  | none => exact Confined.raise
  | some document =>
    refine Confined.lift fun _ _ => ?_
    split
    · exact Confined.lift' fun _ _ => trivial
    · dsimp only
      split
      · refine Confined.ask trivial fun now _ => Confined.ask trivial fun operationId _ => ?_
        refine Confined.ask ?_ fun _ _ => Confined.ask hcontext fun _ _ => Confined.ret trivial
        intro s hs
        simp only [List.mem_cons, List.not_mem_nil, or_false] at hs
        rcases hs with rfl | rfl | rfl
        · exact hcontext
        · exact ⟨hcontext, trivial⟩
        · exact ⟨hcontext, trivial⟩
      · exact Confined.raise

theorem confined_deletedVersion {deletion : Option LifecycleOperation}
    (hcontext : context.tenantId = tenant) :
    Confined tenant (deletedVersion context knows deletion)
      fun target => ∀ version ∈ target, WellNamed .documentVersions version := by
  unfold deletedVersion
  split
  · exact Confined.ret (by simp)
  · exact Confined.ask' hcontext fun target h version hversion => (h version hversion).2

theorem confined_restoreTarget {document : Document} {deletion : Option LifecycleOperation}
    {target : Option DocumentVersion} {idempotencyKey reason fingerprint : String}
    (hcontext : context.tenantId = tenant)
    (htarget : ∀ version ∈ target, WellNamed .documentVersions version) :
    Confined tenant
      (restoreTarget context document deletion target idempotencyKey reason fingerprint)
      fun _ => True := by
  refine Confined.ask trivial fun now _ => Confined.raiseWhen fun _ => ?_
  cases target with
  | none => exact Confined.raise
  | some target =>
    refine Confined.ask hcontext fun count _ => Confined.raiseWhen fun _ => ?_
    refine Confined.ask hcontext fun _ _ => Confined.lift fun ready hready => ?_
    refine Confined.lift fun restored _ => Confined.ask trivial fun operationId _ => ?_
    have hnamed : WellNamed .documentVersions ready := by
      unfold restoredVersion at hready
      split at hready
      · exact wellNamed_of_transition (htarget target rfl) hready
      · cases hready
        exact htarget target rfl
    refine Confined.ask ?_ fun _ _ => Confined.ret trivial
    intro s hs
    rcases List.mem_append.1 hs with hs | hs
    · simp only [List.mem_cons, List.not_mem_nil, or_false] at hs
      rcases hs with rfl | rfl | rfl
      · exact ⟨hcontext, hnamed⟩
      · exact hcontext
      · exact ⟨hcontext, trivial⟩
    · obtain ⟨deletion, -, rfl⟩ := List.mem_map.1 hs
      exact hcontext

theorem confined_restore {documentId idempotencyKey reason : String}
    (hcontext : context.tenantId = tenant) :
    Confined tenant (restore settings context documentId idempotencyKey reason)
      fun _ => True := by
  refine Confined.ask hcontext fun duplicate _ => Confined.ask hcontext fun document _ => ?_
  cases document with
  | none => exact Confined.raise
  | some document =>
    refine Confined.lift fun _ _ => ?_
    split
    · exact Confined.lift' fun _ _ => trivial
    · refine Confined.ask hcontext fun operations _ => ?_
      exact Confined.bind (confined_deletedVersion hcontext) fun target htarget =>
        confined_restoreTarget hcontext htarget

/-- The versions of a document, as they are listed. -/
def ListedFor (tenant : TenantName) (versions : List DocumentVersion) : Prop :=
  ∀ version ∈ versions, version.tenantId = tenant ∧
    OwnsObject version.tenantId version.objectKey

theorem confined_purgeDocument {document : Document} {versions : List DocumentVersion}
    {reason : String} {now : ℕ} (hcontext : context.tenantId = tenant)
    (hversions : ListedFor tenant versions) :
    Confined tenant (purgeDocument context document versions reason now) fun _ => True := by
  refine Confined.raiseWhen fun _ => ?_
  refine Confined.bind (Confined.forEach fun version _ => Confined.ask' hcontext fun _ _ => trivial)
    fun _ _ => ?_
  refine Confined.bind (Confined.forEach fun objectKey hkey => ?_) fun _ _ => ?_
  · obtain ⟨version, hmem, rfl⟩ := List.mem_map.1 (List.mem_dedup.1 hkey)
    obtain ⟨htenant, howns⟩ := hversions version hmem
    have howned : OwnsObject tenant version.objectKey := htenant ▸ howns
    refine Confined.ask howned fun found _ => ?_
    split
    · exact Confined.ask' howned fun _ _ => trivial
    · exact Confined.ret trivial
  refine Confined.lift fun deleted hdeleted => Confined.ask trivial fun operationId _ => ?_
  have hnamed : ∀ version ∈ deleted, WellNamed .documentVersions version := by
    intro version hmem
    obtain ⟨v, hv, hversion⟩ := mem_of_mapM_eq_ok hdeleted version hmem
    split at hversion
    · cases hversion
      exact (hversions _ hv).2
    · exact wellNamed_of_transition (hversions v hv).2 hversion
  refine Confined.ask ?_ fun _ _ => Confined.ret trivial
  intro s hs
  rcases List.mem_append.1 hs with hs | hs
  · exact hcontext ▸ ofTenant_of_mem_map_save hnamed s hs
  · simp only [List.mem_cons, List.not_mem_nil, or_false] at hs
    rcases hs with rfl | rfl
    · exact hcontext
    · exact ⟨hcontext, trivial⟩

theorem confined_purge {documentId reason : String} {enforcePermission : Bool}
    (hcontext : context.tenantId = tenant) :
    Confined tenant (purge context documentId reason enforcePermission) fun _ => True := by
  refine Confined.ask hcontext fun document _ => Confined.ask hcontext fun versions hlisted => ?_
  have hversions : ListedFor tenant versions := fun version hmem =>
    ⟨(hlisted version hmem).1.trans hcontext, (hlisted version hmem).2⟩
  cases document with
  | none => exact Confined.raise
  | some document =>
    refine Confined.lift fun _ _ => Confined.ask trivial fun now _ => ?_
    split
    · refine Confined.ask hcontext fun operations _ => ?_
      split
      · exact Confined.ret trivial
      · exact confined_purgeDocument hcontext hversions
    · exact confined_purgeDocument hcontext hversions

end DocumentDeletionService

/-! ## Update and cancellation -/

namespace DocumentUpdateService

variable {settings : Settings} {context : AuthorizationContext}

/-- The statements of a registration. -/
theorem ofTenant_of_mem_registration {request : RegisterRequest} {document : Document}
    {currentVersionId operationId : String} {now : ℕ}
    (hcontext : request.context.tenantId = tenant) (howns : OwnsObject tenant request.objectKey) :
    ∀ s ∈ (registration settings request document currentVersionId operationId now).statements
      request.context.tenantId, s.OfTenant tenant := by
  have howned : OwnsObject request.context.tenantId request.objectKey := hcontext.symm ▸ howns
  intro s hs
  rcases List.mem_append.1 hs with hs | hs
  · rcases List.mem_append.1 hs with hs | hs
    · simp only [List.mem_cons, List.not_mem_nil, or_false] at hs
      rcases hs with rfl | rfl | rfl
      · exact ⟨hcontext, howned⟩
      · exact ⟨hcontext, trivial⟩
      · exact ⟨hcontext, trivial⟩
    · obtain ⟨task, -, rfl⟩ := List.mem_map.1 hs
      exact ⟨hcontext, trivial⟩
  · obtain rfl := List.mem_singleton.1 hs
    exact ⟨hcontext, trivial⟩

theorem confined_register {request : RegisterRequest}
    (hcontext : request.context.tenantId = tenant) (howns : OwnsObject tenant request.objectKey) :
    Confined tenant (register settings request knows) fun _ => True := by
  refine Confined.ask trivial fun now _ => Confined.ask trivial fun operationId _ => ?_
  refine Confined.ask hcontext fun document _ => ?_
  cases document with
  | none => exact Confined.raise
  | some document =>
    refine Confined.lift fun _ _ => ?_
    split
    · exact Confined.raise
    · exact Confined.ask (ofTenant_of_mem_registration hcontext howns) fun _ _ =>
        Confined.ret trivial

theorem confined_existing {documentId idempotencyKey : String} {kind : LifecycleOperationKind}
    {fingerprint : String} (hcontext : context.tenantId = tenant) :
    Confined tenant (existing settings context documentId idempotencyKey kind fingerprint)
      fun _ => True := by
  refine Confined.ask hcontext fun operation _ => ?_
  cases operation with
  | none => exact Confined.ret trivial
  | some operation =>
    refine Confined.raiseWhen fun _ => Confined.ask hcontext fun document _ => ?_
    refine Confined.ask hcontext fun job _ => Confined.ask hcontext fun event _ => ?_
    cases document with
    | none => exact Confined.raise
    | some document =>
      refine Confined.lift fun _ _ => ?_
      split
      · exact Confined.raise
      · exact Confined.raise
      · exact Confined.ret trivial

theorem confined_requireDocumentWrite {documentId : String}
    (hcontext : context.tenantId = tenant) :
    Confined tenant (requireDocumentWrite context documentId) fun _ => True := by
  refine Confined.ask hcontext fun document _ => ?_
  cases document with
  | none => exact Confined.raise
  | some document => exact Confined.lift' fun _ _ => trivial

/-- An update stores under a key of the tenant. -/
theorem ownsObject_objectKey (tenantId documentId versionId fileName : String) :
    OwnsObject tenantId (objectKey tenantId documentId versionId fileName) := by
  have hkey : objectKey tenantId documentId versionId fileName = tenantPrefix tenantId ++
      ("documents/" ++ documentId ++ "/versions/" ++ versionId ++ "/" ++ safeName fileName) := by
    rw [← String.toList_inj]
    simp [objectKey, tenantPrefix, String.toList_append]
  rw [hkey]
  exact ownsObject_append _ _

theorem confined_update {command : UpdateDocumentCommand}
    (hcontext : command.context.tenantId = tenant) :
    Confined tenant (update settings command) fun _ => True := by
  refine Confined.raiseWhen fun _ => ?_
  refine Confined.bind (confined_existing hcontext) fun submitted _ => ?_
  cases submitted with
  | some submitted => exact Confined.ret trivial
  | none =>
    refine Confined.bind (confined_requireDocumentWrite hcontext) fun _ _ => ?_
    refine Confined.ask trivial fun versionId _ => ?_
    have howns : OwnsObject tenant (objectKey command.context.tenantId command.documentId
        versionId command.fileName) := hcontext ▸ ownsObject_objectKey _ _ _ _
    exact Confined.ask howns fun _ _ => confined_register hcontext howns

theorem confined_reparse {command : ReparseDocumentCommand}
    (hcontext : command.context.tenantId = tenant) :
    Confined tenant (reparse settings command) fun _ => True := by
  refine Confined.bind (confined_existing hcontext) fun submitted _ => ?_
  cases submitted with
  | some submitted => exact Confined.ret trivial
  | none =>
    refine Confined.ask hcontext fun document _ => ?_
    split
    · refine Confined.lift fun _ _ => Confined.ask hcontext fun current hcurrent => ?_
      cases current with
      | none => exact Confined.raise
      | some current =>
        refine Confined.ask trivial fun versionId _ => confined_register hcontext ?_
        -- the stored key is used again
        obtain ⟨hkey, howns⟩ := hcurrent current rfl
        have htenant : current.tenantId = tenant := (congrArg Prod.fst hkey).trans hcontext
        exact htenant ▸ howns
    · exact Confined.raise

end DocumentUpdateService

namespace LifecycleControlService

variable {context : AuthorizationContext} {operationId : String}

theorem confined_get (hcontext : context.tenantId = tenant) :
    Confined tenant (get context operationId) fun _ => True := by
  refine Confined.ask hcontext fun operation _ => ?_
  cases operation with
  | none => exact Confined.raise
  | some operation =>
    refine Confined.ask hcontext fun document _ => ?_
    cases document with
    | none => exact Confined.raise
    | some document => exact Confined.lift fun _ _ => Confined.ret trivial

theorem confined_cancel (hcontext : context.tenantId = tenant) :
    Confined tenant (cancel context operationId) fun _ => True := by
  refine Confined.bind (confined_get hcontext) fun operation _ => ?_
  split
  · exact Confined.ret trivial
  · refine Confined.ask hcontext fun document _ => ?_
    cases document with
    | none => exact Confined.raise
    | some document =>
      refine Confined.lift fun _ _ => Confined.ask trivial fun now _ => ?_
      refine Confined.ask ?_ fun _ _ => Confined.ret trivial
      intro s hs
      obtain rfl := List.mem_singleton.1 hs
      exact ⟨hcontext, trivial⟩

end LifecycleControlService

/-! ## Upload -/

theorem KnowledgeService.confined_registerDocument {command : RegisterDocumentCommand}
    (hcontext : command.context.tenantId = tenant) (howns : OwnsObject tenant command.objectKey) :
    Confined tenant (registerDocument command knows)
      fun _ => True := by
  have howned : OwnsObject command.context.tenantId command.objectKey := hcontext.symm ▸ howns
  refine Confined.ask trivial fun now _ => Confined.ask hcontext fun knowledgeBase _ => ?_
  cases knowledgeBase with
  | none => exact Confined.raise
  | some knowledgeBase =>
    refine Confined.lift fun _ _ => Confined.ask trivial fun documentId _ => ?_
    refine Confined.ask trivial fun versionId _ => Confined.ask ?_ fun _ _ => ?_
    · intro s hs
      simp only [List.mem_cons, List.not_mem_nil, or_false] at hs
      rcases hs with rfl | rfl
      · exact ⟨hcontext, trivial⟩
      · exact ⟨hcontext, howned⟩
    · exact Confined.ask trivial fun _ _ => Confined.ret trivial

namespace UploadService

variable {settings : Settings}

theorem confined_republishPending {job : IngestionJob} (hjob : job.tenantId = tenant) :
    Confined tenant (republishPending job) fun _ => True := by
  unfold republishPending
  split
  · exact Confined.ret trivial
  · refine Confined.ask hjob fun tasks _ => ?_
    split
    · exact Confined.raise
    · exact Confined.ask trivial fun now _ => Confined.ask trivial fun _ _ => Confined.ret trivial

theorem confined_submit {command : UploadDocumentCommand}
    (hcontext : command.context.tenantId = tenant) :
    Confined tenant (submit settings command) fun _ => True := by
  refine Confined.lift fun _ _ => Confined.ask hcontext fun existing hexisting => ?_
  cases existing with
  | some existing =>
    have hjob : existing.tenantId = tenant :=
      (congrArg Prod.fst (hexisting existing rfl).1).trans hcontext
    refine Confined.raiseWhen fun _ => ?_
    exact Confined.bind (confined_republishPending hjob) fun _ _ => Confined.ret trivial
  | none =>
    refine Confined.ask trivial fun now _ => ?_
    have howns : OwnsObject tenant ("tenants/" ++ command.context.tenantId ++ "/uploads/" ++
        jobId settings command.context.tenantId command.idempotencyKey ++ "/" ++
        safeName command.fileName) := by
      have hkey : "tenants/" ++ command.context.tenantId ++ "/uploads/" ++
          jobId settings command.context.tenantId command.idempotencyKey ++ "/" ++
            safeName command.fileName = tenantPrefix tenant ++ ("uploads/" ++
          jobId settings command.context.tenantId command.idempotencyKey ++ "/" ++
            safeName command.fileName) := by
        rw [← String.toList_inj, hcontext]
        simp [tenantPrefix, String.toList_append]
      rw [hkey]
      exact ownsObject_append _ _
    refine Confined.ask howns fun _ _ => ?_
    refine Confined.bind (KnowledgeService.confined_registerDocument hcontext howns)
      fun registered _ => ?_
    refine Confined.ask ?_ fun _ _ => Confined.ask trivial fun _ _ => Confined.ret trivial
    intro s hs
    rcases List.mem_cons.1 hs with rfl | hs
    · exact ⟨hcontext, trivial⟩
    · obtain ⟨task, -, rfl⟩ := List.mem_map.1 hs
      exact ⟨hcontext, trivial⟩

end UploadService

/-! ## Reconciliation -/

namespace LifecycleReconciler

variable {context : AuthorizationContext}

theorem confined_collect {p : α → Service (List ReconciliationFinding)} {l : List α}
    (hp : ∀ a ∈ l, Confined tenant (p a) fun _ => True) :
    Confined tenant (collect p l) fun _ => True := by
  induction l with
  | nil => exact Confined.ret trivial
  | cons a l ih =>
    refine Confined.bind (hp a List.mem_cons_self) fun found _ => ?_
    refine Confined.bind (ih fun b hb => hp b (List.mem_cons_of_mem a hb)) fun rest _ => ?_
    exact Confined.ret trivial

theorem confined_checkOperation {operation : LifecycleOperation}
    (hcontext : context.tenantId = tenant) :
    Confined tenant (checkOperation context operation) fun _ => True := by
  refine Confined.ask hcontext fun document _ => Confined.ask hcontext fun version hversion => ?_
  cases document with
  | none => exact Confined.ret trivial
  | some document =>
    cases version with
    | none => exact Confined.ret trivial
    | some version =>
      obtain ⟨hkey, howns⟩ := hversion version rfl
      have htenant : version.tenantId = tenant := (congrArg Prod.fst hkey).trans hcontext
      have howned : OwnsObject tenant version.objectKey := htenant ▸ howns
      refine Confined.ask hcontext fun count _ => Confined.ask howned fun found _ => ?_
      split
      · exact Confined.ret trivial
      · exact Confined.ret trivial

theorem confined_checkObject {dryRun : Bool} {versions : List DocumentVersion}
    {objectKey : String} (howns : OwnsObject tenant objectKey) :
    Confined tenant (checkObject context knows dryRun versions objectKey) fun _ => True := by
  unfold checkObject
  split
  · exact Confined.ret trivial
  · dsimp only
    split
    · exact Confined.ret trivial
    · exact Confined.ask howns fun _ _ => Confined.ret trivial

theorem confined_checkProjection {dryRun : Bool} {versions : List DocumentVersion}
    {projection : String × String × String} (hcontext : context.tenantId = tenant) :
    Confined tenant (checkProjection context knows dryRun versions projection)
      fun _ => True := by
  unfold checkProjection
  dsimp only
  split
  · exact Confined.ret trivial
  · split
    · exact Confined.ret trivial
    · exact Confined.ask hcontext fun _ _ => Confined.ret trivial

theorem confined_run {limit staleBefore : ℕ} {dryRun : Bool}
    (hcontext : context.tenantId = tenant) :
    Confined tenant (run context limit staleBefore dryRun) fun _ => True := by
  refine Confined.ask hcontext fun operations _ => Confined.ask trivial fun now _ => ?_
  refine Confined.ask hcontext fun outbox _ => Confined.ask hcontext fun versions _ => ?_
  refine Confined.ask hcontext fun documents _ => ?_
  refine Confined.bind (confined_collect fun _ _ => confined_checkOperation hcontext) fun _ _ => ?_
  have hlisting : tenantPrefix context.tenantId = tenantPrefix tenant := by rw [hcontext]
  refine Confined.ask hlisting fun objects hobjects => ?_
  refine Confined.bind (confined_collect fun objectKey hmem => confined_checkObject ?_)
    fun _ _ => ?_
  · have howns : OwnsObject context.tenantId objectKey := hobjects objectKey hmem
    exact hcontext ▸ howns
  refine Confined.ask hcontext fun projections _ => ?_
  refine Confined.bind (confined_collect fun _ _ => confined_checkProjection hcontext)
    fun _ _ => ?_
  exact Confined.ask trivial fun now _ => Confined.ret trivial

end LifecycleReconciler

/-! ## Ingestion -/

namespace IngestionPipeline

variable {settings : Settings} {envelope : IngestionEnvelope} {job : IngestionJob}

theorem confined_saveJob (hjob : job.tenantId = tenant) :
    Confined tenant (saveJob knows job) fun _ => True := by
  refine Confined.ask' ?_ fun _ _ => trivial
  intro s hs
  obtain rfl := List.mem_singleton.1 hs
  exact ⟨hjob, trivial⟩

theorem confined_saveTask {task : IngestionTask} (htask : task.tenantId = tenant) :
    Confined tenant (saveTask knows task) fun _ => True := by
  refine Confined.ask' ?_ fun _ _ => trivial
  intro s hs
  obtain rfl := List.mem_singleton.1 hs
  exact ⟨htask, trivial⟩

/-- A version of the tenant, with its object key. -/
def VersionOf (tenant : TenantName) (version : DocumentVersion) : Prop :=
  version.tenantId = tenant ∧ WellNamed .documentVersions version

theorem VersionOf.transition {version version' : DocumentVersion}
    {target : DocumentVersionStatus} {now : ℕ} (hversion : VersionOf tenant version)
    (h : transitionDocumentVersion version target now = .ok version') :
    VersionOf tenant version' :=
  ⟨(sameScope_of_transitionDocumentVersion h).2.1.trans hversion.1,
    wellNamed_of_transition hversion.2 h⟩

theorem confined_saveVersion {task : Task} {version : DocumentVersion}
    (hversion : VersionOf tenant version) :
    Confined tenant (saveVersion task knows version) fun _ => True := by
  refine Confined.ask' ?_ fun _ _ => trivial
  intro s hs
  obtain rfl := List.mem_singleton.1 hs
  exact hversion

theorem tenantId_of_transitionTask {task task' : IngestionTask} {target : IngestionStatus}
    {q : ℚ} {now : ℕ} {error : Option IngestionError}
    (h : transitionIngestion task target q now error = .ok task') :
    task'.tenantId = task.tenantId := by
  obtain ⟨-, ⟨-, rfl⟩ | ⟨-, -, rfl⟩⟩ := transitionIngestion_eq_ok h
  · rfl
  · rfl

theorem confined_startTask {task : IngestionTask} (htask : task.tenantId = tenant) :
    Confined tenant (startTask knows task) fun started => started.tenantId = tenant := by
  unfold startTask
  split
  · exact Confined.ret htask
  · refine Confined.ask trivial fun now _ => Confined.lift fun retried hretried => ?_
    obtain ⟨-, -, -, rfl⟩ := retryIngestionTask_eq_ok hretried
    exact Confined.bind (confined_saveTask htask) fun _ _ => Confined.ret htask
  · refine Confined.ask trivial fun now _ => Confined.lift fun running hrunning => ?_
    have htenant := (tenantId_of_transitionTask hrunning).trans htask
    exact Confined.bind (confined_saveTask htenant) fun _ _ => Confined.ret htenant
  · exact Confined.bind (confined_saveTask htask) fun _ _ => Confined.ret htask
  · exact Confined.bind (confined_saveTask htask) fun _ _ => Confined.ret htask

theorem confined_succeedTask {task : IngestionTask} (htask : task.tenantId = tenant) :
    Confined tenant (succeedTask knows task) fun _ => True := by
  unfold succeedTask
  split
  · exact Confined.ret trivial
  · refine Confined.ask trivial fun now _ => Confined.lift fun succeeded hsucceeded => ?_
    exact confined_saveTask ((tenantId_of_transitionTask hsucceeded).trans htask)

theorem confined_progress {q : ℚ} (hjob : job.tenantId = tenant) :
    Confined tenant (progress knows job q) fun job' => job'.tenantId = tenant := by
  refine Confined.ask trivial fun now _ => Confined.bind (confined_saveJob hjob) fun _ _ => ?_
  split
  · exact Confined.ret hjob
  · refine Confined.ask hjob fun operation _ => ?_
    cases operation with
    | none => exact Confined.ret hjob
    | some operation =>
      refine Confined.ask trivial fun now _ => Confined.lift fun updated _ => ?_
      refine Confined.ask ?_ fun _ _ => Confined.ret hjob
      intro s hs
      obtain rfl := List.mem_singleton.1 hs
      exact ⟨hjob, trivial⟩

theorem confined_requireLifecycleActive (hjob : job.tenantId = tenant) :
    Confined tenant (requireLifecycleActive knows job) fun _ => True := by
  unfold requireLifecycleActive
  split
  · exact Confined.ret trivial
  · refine Confined.ask hjob fun operation _ => ?_
    cases operation with
    | none => exact Confined.raise
    | some operation => exact Confined.lift fun _ _ => Confined.ret trivial

theorem confined_prepare (hjob : job.tenantId = tenant) :
    Confined tenant (prepare knows job) fun job' => job'.tenantId = tenant := by
  unfold prepare
  split
  · exact Confined.ask trivial fun now _ => Confined.lift' fun job' h =>
      (scope_of_transitionIngestion h).1.trans hjob
  · exact Confined.ret hjob

theorem confined_startVersion {version : DocumentVersion} (hversion : VersionOf tenant version) :
    Confined tenant (startVersion knows version) (VersionOf tenant) := by
  unfold startVersion
  split
  · refine Confined.ask trivial fun now _ => Confined.lift fun started hstarted => ?_
    have hnamed := hversion.transition hstarted
    exact Confined.bind (confined_saveVersion hnamed) fun _ _ => Confined.ret hnamed
  · exact Confined.ret hversion

/-- The tasks of a delivery. -/
def TasksOf (tenant : TenantName) (tasks : List IngestionTask) : Prop :=
  ∀ task ∈ tasks, task.tenantId = tenant

theorem TasksOf.taskOf {tasks : List IngestionTask} {stage : IngestionStage}
    {task : IngestionTask} (htasks : TasksOf tenant tasks)
    (h : IngestionPipeline.taskOf tasks stage = .ok task) : task.tenantId = tenant := by
  unfold IngestionPipeline.taskOf at h
  split at h
  · rename_i hfound
    cases h
    exact htasks _ (List.mem_of_find?_eq_some hfound)
  · cases h

section Stages

variable {tasks : List IngestionTask}

theorem confined_parseStage {pending : Bool} {version : DocumentVersion}
    (hjob : job.tenantId = tenant) (htasks : TasksOf tenant tasks)
    (hversion : VersionOf tenant version) :
    Confined tenant (parseStage knows pending tasks version job)
      fun r => r.1.tenantId = tenant ∧ VersionOf tenant r.2.1 := by
  have hsave : Confined tenant (saveIfPending knows pending job) fun _ => True := by
    unfold saveIfPending
    split
    · exact confined_saveJob hjob
    · exact Confined.ret trivial
  refine Confined.bind hsave fun _ _ => ?_
  refine Confined.bind (confined_startVersion hversion) fun started hstarted => ?_
  refine Confined.bind (confined_requireLifecycleActive hjob) fun _ _ => ?_
  refine Confined.lift fun task htask => ?_
  refine Confined.bind (confined_startTask (htasks.taskOf htask)) fun task htask => ?_
  refine Confined.ask trivial fun parsed _ => ?_
  refine Confined.bind (confined_succeedTask htask) fun _ _ => ?_
  exact Confined.bind (confined_progress hjob) fun _ hprogress =>
    Confined.ret ⟨hprogress, hstarted⟩

theorem confined_chunkStage {parsed : ParsedDocument} (hjob : job.tenantId = tenant)
    (htasks : TasksOf tenant tasks) :
    Confined tenant (chunkStage settings knows tasks parsed job)
      fun r => r.1.tenantId = tenant := by
  refine Confined.bind (confined_requireLifecycleActive hjob) fun _ _ => ?_
  refine Confined.lift fun task htask => ?_
  refine Confined.bind (confined_startTask (htasks.taskOf htask)) fun task htask => ?_
  refine Confined.ask trivial fun chunks _ => Confined.raiseWhen fun _ => ?_
  refine Confined.bind (confined_succeedTask htask) fun _ _ => ?_
  exact Confined.bind (confined_progress hjob) fun _ hprogress => Confined.ret hprogress

theorem confined_embedStage {chunks : List ChunkRecord} (hjob : job.tenantId = tenant)
    (htasks : TasksOf tenant tasks) :
    Confined tenant (embedStage settings knows tasks chunks job)
      fun r => r.1.tenantId = tenant := by
  refine Confined.bind (confined_requireLifecycleActive hjob) fun _ _ => ?_
  refine Confined.lift fun task htask => ?_
  refine Confined.bind (confined_startTask (htasks.taskOf htask)) fun task htask => ?_
  refine Confined.ask trivial fun embedded _ => Confined.raiseWhen fun _ => ?_
  refine Confined.bind (confined_succeedTask htask) fun _ _ => ?_
  exact Confined.bind (confined_progress hjob) fun _ hprogress => Confined.ret hprogress

theorem confined_indexRecords {indexVersionId : String} {document : Document}
    {version : DocumentVersion} {embedded : EmbeddingResult} {chunks : List ChunkRecord} :
    Confined tenant (indexRecords knows indexVersionId document version embedded chunks)
      fun _ => True := by
  induction chunks with
  | nil => exact Confined.ret trivial
  | cons chunk chunks ih =>
    exact Confined.ask trivial fun now _ => Confined.bind ih fun _ _ => Confined.ret trivial

theorem confined_makeCurrent {context : AuthorizationContext} {document : Document}
    {version : DocumentVersion} {indexVersion : IndexVersion}
    (hcontext : context.tenantId = tenant) (hjob : job.tenantId = tenant)
    (hindex : indexVersion.tenantId = tenant) (hversion : VersionOf tenant version) :
    Confined tenant (makeCurrent settings context knows document version indexVersion job)
      fun _ => True := by
  unfold makeCurrent
  split
  · refine Confined.raiseWhen fun _ => ?_
    refine Confined.bind (confined_saveVersion hversion) fun _ _ => ?_
    refine Confined.bind (confined_requireLifecycleActive hjob) fun _ _ => ?_
    exact Confined.bind (DocumentVersionPublisher.confined_completeIngestion hcontext)
      fun _ _ => Confined.ret trivial
  · refine Confined.ask hcontext fun _ _ => Confined.ask hindex fun _ _ => ?_
    exact Confined.ask trivial fun now _ => Confined.lift' fun _ _ => trivial

theorem confined_indexStage {context : AuthorizationContext} {document : Document}
    {version : DocumentVersion} {chunks : List ChunkRecord} {embedded : EmbeddingResult}
    (hcontext : context.tenantId = tenant) (hjob : job.tenantId = tenant)
    (htasks : TasksOf tenant tasks) (hversion : VersionOf tenant version) :
    Confined tenant
      (indexStage settings context knows tasks document version chunks embedded job)
      fun r => r.1.tenantId = tenant ∧ VersionOf tenant r.2.2 := by
  refine Confined.bind (confined_requireLifecycleActive hjob) fun _ _ => ?_
  refine Confined.lift fun task htask => ?_
  refine Confined.bind (confined_startTask (htasks.taskOf htask)) fun task htask => ?_
  refine Confined.ask trivial fun now _ => Confined.bind confined_indexRecords fun records _ => ?_
  refine Confined.ask hcontext fun _ _ => ?_
  refine Confined.bind (confined_succeedTask htask) fun _ _ => ?_
  refine Confined.ask trivial fun now _ => Confined.lift fun ready hready => ?_
  have hnamed : VersionOf tenant ready := hversion.transition hready
  refine Confined.bind (confined_makeCurrent hcontext hjob hjob hnamed) fun active _ => ?_
  refine Confined.ask trivial fun now _ => Confined.lift fun job' hjob' => ?_
  exact Confined.ret ⟨(scope_of_transitionIngestion hjob').1.trans hjob, hnamed⟩

theorem confined_finish {document : Document} {version : DocumentVersion}
    (hjob : job.tenantId = tenant) (hversion : VersionOf tenant version) :
    Confined tenant (finish knows document version job) fun _ => True := by
  unfold finish
  split
  · refine Confined.ask ?_ fun _ _ => Confined.ret trivial
    intro s hs
    simp only [List.mem_cons, List.not_mem_nil, or_false] at hs
    rcases hs with rfl | rfl | rfl
    · exact ⟨hjob, hversion.2⟩
    · exact ⟨hjob, trivial⟩
    · exact ⟨hjob, trivial⟩
  · refine Confined.ask ?_ fun _ _ => Confined.ret trivial
    intro s hs
    obtain rfl := List.mem_singleton.1 hs
    exact ⟨hjob, trivial⟩

end Stages

variable {deliveryAttempt : ℕ}

theorem confined_failTask {running : Option IngestionTask} {failure : IngestionError}
    (hrunning : ∀ task ∈ running, task.tenantId = tenant) :
    Confined tenant (failTask running failure) fun _ => True := by
  unfold failTask
  split
  · exact Confined.ret trivial
  · rename_i task
    refine Confined.ask trivial fun now _ => Confined.lift fun failed hfailed => ?_
    exact confined_saveTask ((tenantId_of_transitionTask hfailed).trans (hrunning task rfl))

theorem confined_failVersion (htenant : envelope.tenantId = tenant) :
    Confined tenant (failVersion envelope) fun _ => True := by
  refine Confined.ask htenant fun version hversion => ?_
  cases version with
  | none => exact Confined.ret trivial
  | some version =>
    dsimp only
    split
    · refine Confined.ask trivial fun now _ => Confined.lift fun failed hfailed => ?_
      refine Confined.ask' ?_ fun _ _ => trivial
      intro s hs
      obtain rfl := List.mem_singleton.1 hs
      exact ⟨htenant, wellNamed_of_transition (hversion version rfl).2 hfailed⟩
    · exact Confined.ret trivial

theorem confined_failOperation {operationId : String} {failure : IngestionError}
    (htenant : envelope.tenantId = tenant) :
    Confined tenant (failOperation envelope operationId failure deliveryAttempt)
      fun _ => True := by
  refine Confined.ask htenant fun operation _ => ?_
  cases operation with
  | none => exact Confined.ret trivial
  | some operation =>
    refine Confined.ask trivial fun now _ => Confined.ask' ?_ fun _ _ => trivial
    intro s hs
    obtain rfl := List.mem_singleton.1 hs
    exact ⟨htenant, trivial⟩

theorem confined_recordFailure {error : Error} (htenant : envelope.tenantId = tenant)
    (hjob : job.tenantId = tenant) :
    Confined tenant (recordFailure settings envelope deliveryAttempt job error)
      fun _ => True := by
  refine Confined.ask htenant fun tasks htasks => Confined.lift fun failure _ => ?_
  have hrunning : ∀ task ∈ tasks.find? (·.status = .running), task.tenantId = tenant :=
    fun task htask => (htasks task (List.mem_of_find?_eq_some htask)).trans htenant
  refine Confined.bind (confined_failTask hrunning) fun _ _ => ?_
  split
  · refine Confined.ask trivial fun now _ => Confined.lift fun failed hfailed => ?_
    have hfailedJob := (scope_of_transitionIngestion hfailed).1.trans hjob
    refine Confined.bind (confined_saveJob hfailedJob) fun _ _ => ?_
    refine Confined.bind (confined_failVersion htenant) fun _ _ => ?_
    split
    · exact Confined.ret trivial
    · exact confined_failOperation htenant
  · exact Confined.ret trivial

/-- A piece of the `try` block, with its handler. -/
theorem confined_guarded {p : Service α} {Q : α → Prop} (htenant : envelope.tenantId = tenant)
    (hjob : job.tenantId = tenant) (h : Confined tenant p Q) :
    Confined tenant (p.attempt (handleFailure settings envelope deliveryAttempt job)) Q := by
  refine Confined.attempt h fun error => ?_
  refine Confined.bind (confined_recordFailure htenant hjob) fun _ _ => ?_
  split
  · exact Confined.raise
  · exact Confined.raise

/-- What a delivery has loaded. -/
structure Loaded.Within (tenant : TenantName) (loaded : Loaded) : Prop where
  job : loaded.job.tenantId = tenant
  tasks : TasksOf tenant loaded.tasks
  version : VersionOf tenant loaded.version

theorem confined_load (htenant : envelope.tenantId = tenant) :
    Confined tenant (load envelope) (Loaded.Within tenant) := by
  refine Confined.ask htenant fun job hjob => Confined.ask htenant fun tasks htasks => ?_
  refine Confined.ask htenant fun version hversion => ?_
  cases job with
  | none => exact Confined.raise
  | some job =>
    refine Confined.ask htenant fun document _ => ?_
    cases version with
    | none => exact Confined.raise
    | some version =>
      cases document with
      | none => exact Confined.raise
      | some document =>
        obtain ⟨hkey, hnamed⟩ := hversion version rfl
        exact Confined.raiseWhen fun _ => Confined.ret
          { job := (congrArg Prod.fst (hjob job rfl).1).trans htenant
            tasks := fun task htask => (htasks task htask).trans htenant
            version := ⟨(congrArg Prod.fst hkey).trans htenant, hnamed⟩ }

theorem confined_run {loaded : Loaded} (htenant : envelope.tenantId = tenant)
    (hloaded : loaded.Within tenant) :
    Confined tenant (run settings envelope deliveryAttempt loaded) fun _ => True := by
  refine Confined.bind (confined_guarded htenant hloaded.job (confined_prepare hloaded.job))
    fun job hjob => ?_
  refine Confined.bind (confined_guarded htenant hjob
    (confined_parseStage hjob hloaded.tasks hloaded.version)) fun parsed hparsed => ?_
  refine Confined.bind (confined_guarded htenant hparsed.1
    (confined_chunkStage hparsed.1 hloaded.tasks)) fun chunked hchunked => ?_
  refine Confined.bind (confined_guarded htenant hchunked
    (confined_embedStage hchunked hloaded.tasks)) fun embedded hembedded => ?_
  refine Confined.bind (confined_guarded htenant hembedded
    (confined_indexStage htenant hembedded hloaded.tasks hparsed.2)) fun indexed hindexed => ?_
  exact confined_guarded htenant hindexed.1 (confined_finish hindexed.1 hindexed.2)

theorem confined_handle (htenant : envelope.tenantId = tenant) :
    Confined tenant (handle settings envelope deliveryAttempt) fun _ => True := by
  refine Confined.bind (confined_load htenant) fun loaded hloaded => ?_
  split
  · exact Confined.ret trivial
  · exact confined_run htenant hloaded

end IngestionPipeline

/-! ## Commands -/

/-- The tenant a command is for: that of its caller, or of the envelope it was delivered. -/
def Command.tenantId : Command → String
  | submit command => command.context.tenantId
  | update command => command.context.tenantId
  | reparse command => command.context.tenantId
  | handle envelope _ => envelope.tenantId
  | completeIngestion context _ _ => context.tenantId
  | rollback context _ _ _ _ => context.tenantId
  | requestDelete context _ _ _ => context.tenantId
  | restore context _ _ _ => context.tenantId
  | purge context _ _ _ => context.tenantId
  | cancel context _ => context.tenantId
  | reconcile context _ _ _ => context.tenantId

theorem Confined.void {p : Service α} (h : Confined tenant p fun _ => True) :
    Confined tenant p.void fun _ => True :=
  Confined.bind h fun _ _ => Confined.ret trivial

/-- **A command stays with its tenant.** -/
theorem confined_service {settings : Settings} {command : Command}
    (h : command.tenantId = tenant) : Confined tenant (command.service settings) fun _ => True := by
  cases command with
  | submit command => exact (UploadService.confined_submit h).void
  | update command => exact (DocumentUpdateService.confined_update h).void
  | reparse command => exact (DocumentUpdateService.confined_reparse h).void
  | handle envelope deliveryAttempt => exact (IngestionPipeline.confined_handle h).void
  | completeIngestion context operationId indexVersionId =>
    exact (DocumentVersionPublisher.confined_completeIngestion h).void
  | rollback context documentId targetVersionId idempotencyKey reason =>
    exact (DocumentVersionPublisher.confined_rollback h).void
  | requestDelete context documentId idempotencyKey reason =>
    exact (DocumentDeletionService.confined_requestDelete h).void
  | restore context documentId idempotencyKey reason =>
    exact (DocumentDeletionService.confined_restore h).void
  | purge context documentId reason enforcePermission =>
    exact (DocumentDeletionService.confined_purge h).void
  | cancel context operationId => exact (LifecycleControlService.confined_cancel h).void
  | reconcile context limit staleBefore dryRun =>
    exact (LifecycleReconciler.confined_run h).void

end Knowledge
end RagflowAgent
