import Mathlib.Data.List.Dedup
import RagflowAgent.Knowledge.Transactions

/-!
# The document services keep to the catalogue

Every service obeys `conduct`: whatever it is answered, each call it makes is in the lists
of `Transactions`, with facts it really has seen.  A walk follows the text of the service
from call to call; nothing here mentions a state.

* `Conducts S p Q known` says that `p` obeys from where `known` is known, at tasks in `S`
  only, and that `Q` holds of its result and of what is known then;
* the walks `conducts_completeIngestion`, `conducts_rollback`, `conducts_requestDelete`,
  `conducts_restore`, `conducts_purge` and `conducts_cancel` are the ones of the services
  that work on a registered document.
-/

namespace RagflowAgent
namespace Knowledge

open Interleaving Discipline Keyed

variable {α β γ : Type} {S : Task → Prop} {task : Task} {knows known : List Fact}

/-- `p` keeps to the catalogue, starting with the facts `known`. -/
def Conducts (S : Task → Prop) (p : Service α) (Q : α → List Fact → Prop)
    (known : List Fact) : Prop :=
  (conduct S).Obeys p Q (fun _ _ => True) known

namespace Conducts

variable {Q : α → List Fact → Prop}

theorem ret {a : α} (h : Q a known) : Conducts S (.ret a) Q known := h

theorem raise {e : Error} : Conducts S (.raise e : Service α) Q known := trivial

theorem bind {p : Service β} {f : β → Service α} {R : β → List Fact → Prop}
    (hp : Conducts S p R known) (hf : ∀ b l, R b l → Conducts S (f b) Q l) :
    Conducts S (p.bind f) Q known :=
  obeys_bind hp hf

/-- One call, then the rest. -/
theorem ask {call : Call β} {f : β → Service α} (htask : S task)
    (hlicit : (⟨task, knows, call⟩ : Action β).Licit) (hknows : knows ⊆ known)
    (hf : ∀ b, (⟨task, knows, call⟩ : Action β).Answers (.ok b) →
      Conducts S (f b) Q (knows ++ call.facts b)) :
    Conducts S ((Knowledge.ask task knows call).bind f) Q known :=
  bind (R := fun b l => (⟨task, knows, call⟩ : Action β).Answers (.ok b) ∧
      l = knows ++ call.facts b)
    (obeys_perform ⟨htask, hlicit⟩ hknows (fun _ hb => ⟨hb, rfl⟩) fun _ => trivial)
    fun b _ hb => hb.2 ▸ hf b hb.1

/-- A last call. -/
theorem ask' {call : Call α} (htask : S task)
    (hlicit : (⟨task, knows, call⟩ : Action α).Licit) (hknows : knows ⊆ known)
    (hQ : ∀ b, (⟨task, knows, call⟩ : Action α).Answers (.ok b) →
      Q b (knows ++ call.facts b)) :
    Conducts S (Knowledge.ask task knows call) Q known :=
  obeys_perform ⟨htask, hlicit⟩ hknows hQ fun _ => trivial

/-- A pure computation, then the rest. -/
theorem lift {r : Except Error β} {f : β → Service α}
    (hf : ∀ b, r = .ok b → Conducts S (f b) Q known) :
    Conducts S ((Prog.ofExcept r : Service β).bind f) Q known :=
  bind (R := fun b l => r = .ok b ∧ l = known)
    (obeys_ofExcept (fun _ hb => ⟨hb, rfl⟩) fun _ _ => trivial)
    fun b _ hb => hb.2 ▸ hf b hb.1

/-- A last pure computation. -/
theorem lift' {r : Except Error α} (hQ : ∀ a, r = .ok a → Q a known) :
    Conducts S (Prog.ofExcept r : Service α) Q known :=
  obeys_ofExcept hQ fun _ _ => trivial

/-- A check, then the rest. -/
theorem raiseWhen {p : Prop} [Decidable p] {e : Error} {f : Unit → Service α}
    (hf : ¬ p → Conducts S (f ()) Q known) :
    Conducts S ((Prog.raiseWhen p e : Service Unit).bind f) Q known :=
  bind (R := fun _ l => ¬ p ∧ l = known)
    (obeys_raiseWhen (fun _ => trivial) fun hp => ⟨hp, rfl⟩) fun _ _ hb => hb.2 ▸ hf hb.1

theorem mono {p : Service α} {Q' : α → List Fact → Prop} (h : Conducts S p Q known)
    (hQ : ∀ a l, Q a l → Q' a l) : Conducts S p Q' known :=
  Obeys.mono h hQ fun _ _ _ => trivial

/-- A block with a handler that starts from nothing. -/
theorem attempt {p : Service α} {h : Error → Service α} (hS : S .failingVersion)
    (hp : Conducts S p Q known) (hh : ∀ e l, Conducts S (h e) Q l) :
    Conducts S (p.attempt h) Q known :=
  obeys_attempt hS hp fun e l _ => hh e l

theorem forEach {l : List γ} {f : γ → Service Unit} {I : List Fact → Prop}
    (hf : ∀ a ∈ l, ∀ known, I known → Conducts S (f a) (fun _ => I) known) (hI : I known) :
    Conducts S (Prog.forEach l f) (fun _ => I) known :=
  obeys_forEach hf hI

end Conducts

/-! ## What an answer tells the caller -/

/-- What `get` tells of a row. -/
theorem ofRow_subset_facts (r : Resource) (tenantId resourceId : String) (e : r.Row) :
    Fact.ofRow r e ⊆ (Call.query (Query.get r tenantId resourceId)).facts (some e) :=
  fun _ hf => List.mem_flatMap.2 ⟨e, List.mem_singleton.2 rfl, hf⟩

/-- What `get` tells includes the row. -/
theorem row_subset_facts (r : Resource) (tenantId resourceId : String) (o : Option r.Row) :
    Fact.row r o ⊆ (Call.query (Query.get r tenantId resourceId)).facts o := by
  cases o with
  | none => simp [Fact.row]
  | some e =>
    intro f hf
    obtain rfl := List.mem_singleton.1 hf
    exact ofRow_subset_facts r tenantId resourceId e (stored_mem_ofRow e)

theorem append_subset_append_right {l l₁ l₂ : List Fact} (h : l₁ ⊆ l₂) :
    l ++ l₁ ⊆ l ++ l₂ :=
  List.append_subset.2 ⟨List.subset_append_left l l₂,
    List.Subset.trans h (List.subset_append_right l l₂)⟩

theorem subset_append_row {l : List Fact} (r : Resource) (tenantId resourceId : String)
    (o : Option r.Row) :
    l ++ Fact.row r o ⊆ l ++ (Call.query (Query.get r tenantId resourceId)).facts o :=
  append_subset_append_right (row_subset_facts r tenantId resourceId o)

/-- A listing of versions tells each of them. -/
theorem stored_subset_flatMap (l : List DocumentVersion) :
    l.map (Fact.stored .documentVersions) ⊆ l.flatMap (Fact.ofRow .documentVersions) := by
  intro f hf
  obtain ⟨e, he, rfl⟩ := List.mem_map.1 hf
  exact List.mem_flatMap.2 ⟨e, he, stored_mem_ofRow (r := .documentVersions) e⟩

/-- A committed conditional update is remembered. -/
theorem wrote_mem_facts {statements : List Stmt} {tenantId : String} {document : Document}
    {expectedRevision : ℕ}
    (h : Stmt.saveIfRevision tenantId document expectedRevision ∈ statements) :
    Fact.wrote document ∈ (Call.commit statements).facts () :=
  List.mem_filterMap.2 ⟨_, h, rfl⟩

/-! ## Publication -/

namespace DocumentVersionPublisher

variable {settings : Settings} {context : AuthorizationContext}

theorem conducts_loadPrevious {operation : LifecycleOperation} (hS : S task)
    (hknown : knows ⊆ known) :
    Conducts S (loadPrevious context task knows operation)
      (fun previous l => knows ++ Fact.row .documentVersions previous ⊆ l ∧
        ∀ p ∈ previous, p.tenantId = context.tenantId ∧
          operation.previousVersionId = some p.id) known := by
  unfold loadPrevious
  split
  · refine Conducts.ret ⟨?_, by simp⟩
    simpa [Fact.row] using hknown
  · rename_i previousVersionId hid
    refine Conducts.ask' hS trivial hknown fun previous hp =>
      ⟨subset_append_row .documentVersions _ _ previous, fun p hpp => ?_⟩
    obtain ⟨hkey, -⟩ := hp p hpp
    rw [Option.filter_eq_some_iff] at hid
    rw [key_documentVersion, Prod.mk.injEq] at hkey
    exact ⟨hkey.1, hkey.2 ▸ hid.1⟩

/-- What `load` returns is known, and belongs together. -/
theorem conducts_load {operationId : String} (hS : S task) (hknown : knows ⊆ known) :
    Conducts S (load context operationId task knows)
      (fun loaded l => knows ++ loaded.facts ⊆ l ∧ loaded.Coherent context.tenantId ∧
        loaded.operation.id = operationId) known := by
  refine Conducts.ask hS trivial hknown fun operation hoperation => ?_
  cases operation with
  | none => exact Conducts.raise
  | some operation =>
    refine Conducts.ask hS trivial (subset_append_row _ _ _ (some operation))
      fun document hdoc => ?_
    refine Conducts.ask hS trivial (subset_append_row _ _ _ document) fun version hversion => ?_
    refine Conducts.bind (conducts_loadPrevious hS (subset_append_row _ _ _ version))
      fun previous l hl => ?_
    cases document with
    | none => exact Conducts.raise
    | some document =>
      cases version with
      | none => exact Conducts.raise
      | some version =>
        refine Conducts.ret ⟨List.Subset.trans ?_ hl.1, ⟨?_, ?_, ?_, hl.2⟩, ?_⟩
        · simp [Loaded.facts, Fact.row]
        · exact congrArg Prod.fst (hoperation operation rfl).1
        · exact (hdoc document rfl).1
        · exact (hversion version rfl).1
        · exact congrArg Prod.snd (hoperation operation rfl).1

theorem conducts_publish {loaded : Loaded} {indexVersionId : String}
    (hS : S task) (hS' : S .retiring)
    (hloaded : loaded.Coherent context.tenantId)
    (hpublishes : ∀ more, Publishes task (knows ++ more) loaded.operation)
    (hknown : knows ++ loaded.facts ⊆ known) :
    Conducts S (publish settings context loaded indexVersionId task knows) (fun _ _ => True)
      known := by
  refine Conducts.raiseWhen fun hactive => Conducts.raiseWhen fun hrevision => ?_
  rw [not_not] at hactive hrevision
  refine Conducts.ask hS trivial hknown fun now _ => ?_
  refine Conducts.ask hS trivial (List.Subset.refl _) fun count _ =>
    Conducts.raiseWhen fun _ => ?_
  have hfacts : loaded.facts ⊆ knows ++ loaded.facts ++ [Fact.clock now] := by simp
  have hclock : Fact.clock now ∈ knows ++ loaded.facts ++ [Fact.clock now] := by simp
  refine Conducts.lift fun operation hvalidate => ?_
  obtain ⟨steps, rfl⟩ := updateStep_eq_ok hvalidate
  have hpromotes : Publishes task (knows ++ loaded.facts ++ [Fact.clock now])
      loaded.operation := by simpa using hpublishes (loaded.facts ++ [Fact.clock now])
  refine Conducts.ask hS
    (.promotePublication hfacts hclock hloaded hpromotes hactive hrevision)
    (List.subset_append_left _ _) fun _ _ => ?_
  refine Conducts.lift fun operation hpromote => ?_
  obtain ⟨steps', rfl⟩ := updateStep_eq_ok hpromote
  refine Conducts.lift fun p hp => ?_
  refine Conducts.ask hS (.publication (List.Subset.trans hfacts (List.subset_append_left _ _))
    (List.mem_append_left _ hclock) (by simp) hloaded
    (by simpa using hpublishes (loaded.facts ++ [Fact.clock now, _])) hp)
    (List.Subset.refl _) fun _ _ => ?_
  obtain ⟨-, -, hactive', -, -, hretired, -⟩ := publication_eq_ok hp
  cases hr : p.retired with
  | none => exact Conducts.ret trivial
  | some retired =>
    obtain ⟨q, -, hne, hscope, -⟩ := hretired retired hr
    have htenant : p.active.tenantId = context.tenantId := by
      rw [hactive']
      exact congrArg Prod.fst hloaded.document
    have hcurrent : p.active.currentVersionId ≠ some retired.id := by
      rw [hactive', hscope.1]
      exact fun h => hne (Option.some.inj h).symm
    have hscope' : loaded.document.scope context.tenantId retired.id =
        p.active.scope context.tenantId retired.id := by rw [hactive']; rfl
    have hwrote : Stmt.saveIfRevision context.tenantId p.active loaded.document.revision ∈
        p.statements context.tenantId loaded.document := by simp [Publication.statements]
    refine Conducts.ask hS' ?_ ?_ fun _ _ => Conducts.ret trivial
    · rw [hscope']
      exact .retire htenant hcurrent
    · exact List.cons_subset.2 ⟨List.mem_append_right _ (wrote_mem_facts hwrote), List.nil_subset _⟩

/-- `complete_ingestion` keeps to the catalogue, also when its caller knows something. -/
theorem conducts_completeIngestion {operationId indexVersionId : String}
    (hS : S task) (hS' : S .retiring)
    (hpublishes : task = .publishing ∨ task = .completing ∧
      ∃ seen, Fact.uncancelled seen ∈ knows ∧ key seen = (context.tenantId, operationId))
    (hknown : knows ⊆ known) :
    Conducts S (completeIngestion settings context operationId indexVersionId task
      knows)
      (fun _ _ => True) known := by
  refine Conducts.bind (conducts_load hS hknown) fun loaded l hl => ?_
  split
  · exact Conducts.ret trivial
  · refine conducts_publish hS hS' hl.2.1 (fun more => ?_) hl.1
    refine hpublishes.imp_right fun ⟨htask, seen, hseen, hkey⟩ =>
      ⟨htask, seen, List.mem_append_left _ hseen, hkey.trans ?_⟩
    rw [key_lifecycleOperation, hl.2.1.operation, hl.2.2]

theorem conducts_rollback {documentId targetVersionId idempotencyKey reason : String}
    (hS : S .rollingBack) (hpublishing : S .publishing) (hretiring : S .retiring) :
    Conducts S (rollback settings context documentId targetVersionId idempotencyKey reason)
      (fun _ _ => True) [] := by
  refine Conducts.ask hS trivial (List.Subset.refl _) fun duplicate _ => ?_
  refine Conducts.ask hS trivial (List.nil_subset _) fun document hdoc => ?_
  refine Conducts.ask hS trivial (subset_append_row (l := []) .documents _ _ document)
    fun target htarget => ?_
  cases document with
  | none => exact Conducts.raise
  | some document =>
    cases target with
    | none => exact Conducts.raise
    | some target =>
      refine Conducts.lift fun _ _ => ?_
      cases duplicate with
      | some duplicate => exact Conducts.lift' fun _ _ => trivial
      | none =>
        refine Conducts.raiseWhen fun htarget' => ?_
        rw [not_or, not_not, not_not] at htarget'
        refine Conducts.ask hS trivial ?_ fun now _ => ?_
        · exact subset_append_row (l := [.stored .documents document]) _ _ _ (some target)
        refine Conducts.ask hS trivial (List.Subset.refl _) fun operationId _ => ?_
        refine Conducts.ask hS (.rollback ?_ ?_ ?_ ?_ ?_
          htarget'.1 htarget'.2) (List.subset_append_left _ _) fun _ _ => ?_
        · simp
        · simp
        · simp
        · exact congrArg Prod.fst (hdoc document rfl).1
        · exact congrArg Prod.fst (htarget target rfl).1
        exact conducts_completeIngestion hpublishing hretiring (.inl rfl) (List.nil_subset _)

end DocumentVersionPublisher

/-! ## Deletion, restoration and purge -/

namespace DocumentDeletionService

variable {settings : Settings} {context : AuthorizationContext}

theorem conducts_requestDelete {documentId idempotencyKey reason : String}
    (hS : S .deleting) (hretiring : S .retiring) :
    Conducts S (requestDelete settings context documentId idempotencyKey reason)
      (fun _ _ => True) [] := by
  refine Conducts.ask hS trivial (List.Subset.refl _) fun duplicate _ => ?_
  refine Conducts.ask hS trivial (List.nil_subset _) fun document hdoc => ?_
  cases document with
  | none => exact Conducts.raise
  | some document =>
    refine Conducts.lift fun _ _ => ?_
    cases duplicate with
    | some duplicate => exact Conducts.lift' fun _ _ => trivial
    | none =>
      dsimp only
      split
      · rename_i currentVersionId hactive hcurrent
        refine Conducts.ask hS trivial (subset_append_row (l := []) .documents _ _ (some document))
          fun now _ => ?_
        refine Conducts.ask hS trivial (List.Subset.refl _) fun operationId _ => ?_
        refine Conducts.ask hS (.deletion (by simp) (by simp)
          (congrArg Prod.fst (hdoc document rfl).1) hactive hcurrent)
          (List.subset_append_left _ _) fun _ _ => ?_
        refine Conducts.ask hretiring (.retire
          (congrArg Prod.fst (hdoc document rfl).1) (by simp [tombstone])) ?_ fun _ _ =>
          Conducts.ret trivial
        exact List.cons_subset.2
          ⟨List.mem_append_right _ (wrote_mem_facts List.mem_cons_self), List.nil_subset _⟩
      · exact Conducts.raise

theorem conducts_deletedVersion {deletion : Option LifecycleOperation} (hS : S .restoring)
    (hknown : knows ⊆ known) :
    Conducts S (deletedVersion context knows deletion)
      (fun target l => knows ++ Fact.row .documentVersions target ⊆ l ∧
        ∀ v ∈ target, v.tenantId = context.tenantId) known := by
  unfold deletedVersion
  split
  · refine Conducts.ret ⟨?_, by simp⟩
    simpa [Fact.row] using hknown
  · refine Conducts.ask' hS trivial hknown fun target htarget =>
      ⟨subset_append_row .documentVersions _ _ target, fun v hv => ?_⟩
    exact congrArg Prod.fst (htarget v hv).1

theorem conducts_restoreTarget {document : Document} {deletion : Option LifecycleOperation}
    {target : Option DocumentVersion} {idempotencyKey reason fingerprint : String}
    (hS : S .restoring) (hdocument : document.tenantId = context.tenantId)
    (htarget : ∀ v ∈ target, v.tenantId = context.tenantId)
    (hknown : [.stored .documents document] ++ Fact.row .documentVersions target ⊆ known) :
    Conducts S (restoreTarget context document deletion target idempotencyKey reason fingerprint)
      (fun _ _ => True) known := by
  refine Conducts.ask hS trivial hknown fun now _ => Conducts.raiseWhen fun hrecoverable => ?_
  cases target with
  | none => exact Conducts.raise
  | some target =>
    refine Conducts.ask hS trivial (List.Subset.refl _) fun count _ =>
      Conducts.raiseWhen fun _ => ?_
    refine Conducts.ask hS
      (.promoteRestoration ?_ ?_ ?_ hdocument (htarget target rfl) hrecoverable)
      (List.subset_append_left _ _) fun _ _ => ?_
    · simp
    · simp [Fact.row]
    · simp
    refine Conducts.lift fun ready hready => Conducts.lift fun restored hrestored => ?_
    refine Conducts.ask hS trivial (List.Subset.refl _) fun operationId _ => ?_
    refine Conducts.ask hS (.restoration ?_ ?_ ?_ ?_
      hdocument (htarget target rfl) hrecoverable hready hrestored)
      (List.subset_append_left _ _) fun _ _ => Conducts.ret trivial
    · simp
    · simp [Fact.row]
    · simp
    · simp

theorem conducts_restore {documentId idempotencyKey reason : String} (hS : S .restoring) :
    Conducts S (restore settings context documentId idempotencyKey reason)
      (fun _ _ => True) [] := by
  refine Conducts.ask hS trivial (List.Subset.refl _) fun duplicate _ => ?_
  refine Conducts.ask hS trivial (List.nil_subset _) fun document hdoc => ?_
  cases document with
  | none => exact Conducts.raise
  | some document =>
    refine Conducts.lift fun _ _ => ?_
    cases duplicate with
    | some duplicate => exact Conducts.lift' fun _ _ => trivial
    | none =>
      refine Conducts.ask hS trivial (subset_append_row (l := []) .documents _ _ (some document))
        fun operations _ => ?_
      refine Conducts.bind (conducts_deletedVersion hS (List.subset_append_left _ _))
        fun target l hl => ?_
      exact conducts_restoreTarget hS (congrArg Prod.fst (hdoc document rfl).1) hl.2 hl.1

theorem conducts_purgeDocument {document : Document} {versions : List DocumentVersion}
    {reason : String} {now : ℕ} (hS : S .purging) (hvalid : document.Valid)
    (hdocument : document.tenantId = context.tenantId)
    (hversions : ∀ version ∈ versions,
      version.tenantId = context.tenantId ∧ version.documentId = document.id)
    (hknown : [.stored .documents document, .clock now] ++
      versions.map (.stored .documentVersions) ⊆ known) :
    Conducts S (purgeDocument context document versions reason now) (fun _ _ => True)
      known := by
  refine Conducts.raiseWhen fun hdue => ?_
  rw [not_not] at hdue
  set facts : List Fact := [.stored .documents document, .clock now] ++
    versions.map (.stored .documentVersions) with hfacts
  have hstored : Fact.stored .documents document ∈ facts := by simp [hfacts]
  have hclock : Fact.clock now ∈ facts := by simp [hfacts]
  have hversion : ∀ v ∈ versions, Fact.stored .documentVersions v ∈ facts :=
    fun v hv => List.mem_append_right _ (List.mem_map_of_mem hv)
  refine Conducts.bind (Conducts.forEach (I := (facts ⊆ ·)) (fun v hv l hl => ?_) hknown)
    fun _ l hl => ?_
  · refine Conducts.ask' hS (.deleteProjection hstored hclock (hversion v hv) hvalid hdocument
      (hversions v hv).1 (hversions v hv).2 hdue) hl fun _ _ => List.subset_append_left _ _
  refine Conducts.bind (Conducts.forEach (I := (facts ⊆ ·)) (fun objectKey hkey l hl => ?_) hl)
    fun _ l hl => ?_
  · refine Conducts.ask hS trivial hl fun found _ => ?_
    obtain ⟨v, hv, rfl⟩ := List.mem_map.1 (List.mem_dedup.1 hkey)
    split
    · exact Conducts.ask' hS (.delete hstored hclock (hversion v hv) hvalid
        ((hversions v hv).1.trans hdocument.symm) (hversions v hv).2 hdue)
        (List.subset_append_left _ _) fun _ _ => List.subset_append_left _ _
    · exact Conducts.ret (List.subset_append_left _ _)
  refine Conducts.lift fun deleted hdeleted => ?_
  refine Conducts.ask hS trivial hl fun operationId _ => ?_
  exact Conducts.ask hS (.purge hstored hclock hversion hvalid hdocument hversions hdue hdeleted)
    (List.subset_append_left _ _) fun _ _ => Conducts.ret trivial

theorem conducts_purge {documentId reason : String} {enforcePermission : Bool}
    (hS : S .purging) :
    Conducts S (purge context documentId reason enforcePermission) (fun _ _ => True) [] := by
  refine Conducts.ask hS trivial (List.Subset.refl _) fun document hdoc => ?_
  refine Conducts.ask hS trivial (subset_append_row (l := []) .documents _ _ document)
    fun versions hversions => ?_
  cases document with
  | none => exact Conducts.raise
  | some document =>
    obtain ⟨hkey, hvalid⟩ := hdoc document rfl
    rw [key_document, Prod.mk.injEq] at hkey
    refine Conducts.lift fun _ _ => ?_
    refine Conducts.ask hS trivial ?_ fun now _ => ?_
    · exact append_subset_append_right (l := [.stored .documents document])
        (stored_subset_flatMap versions)
    have hpurge : ∀ l : List Fact, [.stored .documents document, .clock now] ++
        versions.map (.stored .documentVersions) ⊆ l →
        Conducts S (purgeDocument context document versions reason now) (fun _ _ => True) l :=
      fun l hl => conducts_purgeDocument hS (valid_of_decoded hvalid) hkey.1
        (fun v hv => hkey.2 ▸ hversions v hv) hl
    have hfacts : [Fact.stored .documents document, Fact.clock now] ++
        versions.map (Fact.stored .documentVersions) ⊆
          Fact.stored .documents document :: versions.map (Fact.stored .documentVersions) ++
            [Fact.clock now] := by
      intro f hf
      simp only [List.mem_append, List.mem_cons, List.not_mem_nil, or_false] at hf ⊢
      tauto
    split
    · refine Conducts.ask hS trivial (List.Subset.refl _) fun operations _ => ?_
      split
      · exact Conducts.ret trivial
      · exact hpurge _ (List.Subset.trans hfacts (List.subset_append_left _ _))
    · exact hpurge _ hfacts

end DocumentDeletionService

/-! ## Cancellation -/

namespace LifecycleControlService

variable {context : AuthorizationContext}

theorem conducts_get {operationId : String} (hS : S .cancelling) :
    Conducts S (get context operationId)
      (fun operation l => Fact.stored .lifecycleOperations operation ∈ l) [] := by
  refine Conducts.ask hS trivial (List.Subset.refl _) fun operation _ => ?_
  cases operation with
  | none => exact Conducts.raise
  | some operation =>
    refine Conducts.ask hS trivial
      (subset_append_row (l := []) .lifecycleOperations _ _ (some operation)) fun document _ => ?_
    cases document with
    | none => exact Conducts.raise
    | some document =>
      exact Conducts.lift fun _ _ => Conducts.ret (List.mem_append_left _ List.mem_cons_self)

theorem conducts_cancel {operationId : String} (hS : S .cancelling) :
    Conducts S (cancel context operationId) (fun _ _ => True) [] := by
  refine Conducts.bind (conducts_get hS) fun operation l hl => ?_
  split
  · exact Conducts.ret trivial
  · rename_i hopen
    refine Conducts.ask hS trivial (List.cons_subset.2 ⟨hl, List.nil_subset _⟩)
      fun document _ => ?_
    cases document with
    | none => exact Conducts.raise
    | some document =>
      refine Conducts.lift fun _ _ => ?_
      refine Conducts.ask hS trivial (List.subset_append_left _ _) fun now _ => ?_
      exact Conducts.ask hS (.cancellation (by simp) (by simp) (by simpa using hopen))
        (List.subset_append_left _ _) fun _ _ => Conducts.ret trivial

end LifecycleControlService

end Knowledge
end RagflowAgent
