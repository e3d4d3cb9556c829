import RagflowAgent.Knowledge.Effects
import RagflowAgent.Knowledge.Obligations

/-!
# The current version of an active document

A document is only ever given a current version that is stored, belongs to it, and is
ready.  Later the row of that version may be written again by anybody: publications and
purges do so when the document has moved on in the same transaction, and the stages of a
delivery do so from a snapshot they have loaded before, without looking.

* `CurrentReady` is the property of a store, `KeepsCurrent` what a blind save of a delivery
  has to keep to;
* `currentReady_iff`: from a fresh database every state of a run has the property exactly
  when every blind save has spared the current versions;
* in `Sample.lateStart` one does not, and an active document has a version that is being
  ingested.
-/

namespace RagflowAgent
namespace Knowledge

open Interleaving Keyed

/-- Every active document with a current version has one that is stored, of the same
tenant, knowledge base and document, and ready. -/
def CurrentReady (st : Store) : Prop :=
  ∀ k document versionId, st.row .documents k = some document → document.status = .active →
    document.currentVersionId = some versionId →
    ∃ version, st.row .documentVersions (document.tenantId, versionId) = some version ∧
      version.ReadyFor document

/-- If `a` commits a blind save of a delivery, then it does not write over the current
version of an active document. -/
def KeepsCurrent ⦃β : Type⦄ (a : Action β) (x : Input) (w : World) : Prop :=
  (a.task = .startingVersion ∨ a.task = .failingVersion) → x.fault = none →
    ∀ statements store, a.call.change = some (.transaction statements) →
    w.store.transact statements = .ok store →
    ∀ s ∈ statements, ∀ version, s.written .documentVersions = some version →
    ∀ k document, w.store.row .documents k = some document → document.status = .active →
    document.tenantId = version.tenantId → document.currentVersionId ≠ some version.id

/-! ## What stays true -/

/-- No version row disappears or changes its scope. -/
def VersionsPersist (st st' : Store) : Prop :=
  ∀ k version, st.row .documentVersions k = some version →
    ∃ version', st'.row .documentVersions k = some version' ∧ version'.SameScope version

theorem VersionsPersist.refl (st : Store) : VersionsPersist st st :=
  fun _ version h => ⟨version, h, .refl version⟩

/-- The current version of a loaded document is a version of this document, whatever it has
become. -/
def Document.OwnsCurrent (document : Document) (st : Store) : Prop :=
  ∀ versionId ∈ document.currentVersionId, ∃ version,
    st.row .documentVersions (document.tenantId, versionId) = some version ∧
      version.documentId = document.id

/-- The version that an operation replaces is one of its document. -/
def LifecycleOperation.OwnsPrevious (operation : LifecycleOperation) (st : Store) : Prop :=
  ∀ versionId ∈ operation.previousVersionId, ∃ version,
    st.row .documentVersions (operation.tenantId, versionId) = some version ∧
      version.documentId = operation.documentId

/-- A loaded version is still there. -/
def DocumentVersion.Persists (version : DocumentVersion) (st : Store) : Prop :=
  ∃ version', st.row .documentVersions (key version) = some version' ∧
    version'.SameScope version

section Persistence

variable {st st' : Store} (h : VersionsPersist st st')
include h

theorem Document.OwnsCurrent.mono {document : Document} (hd : document.OwnsCurrent st) :
    document.OwnsCurrent st' := by
  intro versionId hversion
  obtain ⟨version, hrow, hid⟩ := hd versionId hversion
  obtain ⟨version', hrow', hscope⟩ := h _ _ hrow
  exact ⟨version', hrow', hscope.2.2.2.trans hid⟩

theorem LifecycleOperation.OwnsPrevious.mono {operation : LifecycleOperation}
    (ho : operation.OwnsPrevious st) : operation.OwnsPrevious st' := by
  intro versionId hversion
  obtain ⟨version, hrow, hid⟩ := ho versionId hversion
  obtain ⟨version', hrow', hscope⟩ := h _ _ hrow
  exact ⟨version', hrow', hscope.2.2.2.trans hid⟩

theorem DocumentVersion.Persists.mono {version : DocumentVersion} (hv : version.Persists st) :
    version.Persists st' := by
  obtain ⟨version', hrow, hscope⟩ := hv
  obtain ⟨version'', hrow', hscope'⟩ := h _ _ hrow
  exact ⟨version'', hrow', hscope'.trans hscope⟩

end Persistence

/-- What the loaded rows still mean. -/
def Fact.Owned (st : Store) : Fact → Prop
  | stored .documents document => Document.OwnsCurrent document st
  | stored .documentVersions version => DocumentVersion.Persists version st
  | stored .lifecycleOperations operation => LifecycleOperation.OwnsPrevious operation st
  | _ => True

theorem Fact.Owned.mono {st st' : Store} (h : VersionsPersist st st') {f : Fact}
    (hf : f.Owned st) : f.Owned st' := by
  cases f with
  | stored r e =>
    cases r with
    | documents => exact Document.OwnsCurrent.mono h hf
    | documentVersions => exact DocumentVersion.Persists.mono h hf
    | lifecycleOperations => exact LifecycleOperation.OwnsPrevious.mono h hf
    | _ => trivial
  | _ => trivial

/-- The invariant: current versions are in order, and operations replace versions of their
own documents. -/
structure WellOwned (st : Store) : Prop where
  documents : ∀ k document, st.row .documents k = some document → document.Current st
  operations : ∀ k operation, st.row .lifecycleOperations k = some operation →
    operation.OwnsPrevious st

theorem WellOwned.currentReady {st : Store} (h : WellOwned st) : CurrentReady st :=
  fun k document versionId hd _ hversion => (h.documents k document hd).version versionId hversion

/-- What is read off a store in order is as it should be. -/
theorem WellOwned.read {st : Store} (h : WellOwned st) {f : Fact} (hf : f.ReadFrom st) :
    f.Owned st := by
  cases f with
  | stored r e =>
    obtain ⟨row, hrow, he⟩ := hf
    rw [Table.mem_rows_iff] at hrow
    cases r with
    | documents =>
      obtain ⟨rfl, -⟩ := Document.validate_eq_ok.1 he
      intro versionId hversion
      obtain ⟨version, hv, hready⟩ := (h.documents _ _ hrow).version versionId hversion
      exact ⟨version, hv, hready.documentId⟩
    | documentVersions =>
      obtain ⟨rfl, -⟩ := DocumentVersion.validate_eq_ok.1 he
      exact ⟨_, hrow, .refl _⟩
    | lifecycleOperations =>
      obtain ⟨status, -, rfl⟩ := LifecycleOperation.validate_eq_ok he
      exact h.operations _ row hrow
    | _ => trivial
  | _ => trivial

/-! ## One transaction -/

section Transaction

variable {task : Task} {knows : List Fact} {statements : List Stmt} {w : World} {store : Store}

/-- No transaction of the catalogue loses a version. -/
theorem Writes.versionsPersist (h : Writes task knows statements)
    (hknows : ∀ f ∈ knows, f.Owned w.store) (hst : w.store.transact statements = .ok store) :
    VersionsPersist w.store store := by
  intro k version hrow
  have hstep := h.versionStep hst k
  rw [hrow] at hstep
  generalize hrow' : store.row .documentVersions k = row' at hstep
  cases hstep with
  | same => exact ⟨version, rfl, .refl version⟩
  | @written _ version' hwrite =>
    -- the written snapshot was computed from one that persists, under the same key
    have hscope : ∃ loaded, Fact.stored .documentVersions loaded ∈ knows ∧
        version'.SameScope loaded := by
      cases hwrite with
      | ready hloaded hscope => exact ⟨_, hloaded, hscope⟩
      | ingested _ _ hloaded hscope => exact ⟨_, hloaded, hscope⟩
      | superseded hloaded hscope => exact ⟨_, hloaded, hscope⟩
      | deleted hloaded hscope => exact ⟨_, hloaded, hscope⟩
    obtain ⟨loaded, hloaded, hscope⟩ := hscope
    obtain ⟨stored, hstored, hscope'⟩ : DocumentVersion.Persists loaded w.store :=
      hknows _ hloaded
    have hkey : key loaded = k := by
      rw [← Store.key_of_row hrow', key_documentVersion, key_documentVersion, hscope.1, hscope.2.1]
    rw [hkey, hrow, Option.some.injEq] at hstored
    subst hstored
    exact ⟨version', rfl, hscope.trans hscope'.symm⟩

/-- **A document that is not written keeps its current version**, if no blind save of a
delivery hits it. -/
theorem Writes.current_of_same (h : Writes task knows statements)
    (hknows : ∀ f ∈ knows, f.Owned w.store) (hst : w.store.transact statements = .ok store)
    {x : Input} (hx : x.fault = none)
    (hkeeps : KeepsCurrent ⟨task, knows, .commit statements⟩ x w)
    {k : String × String} {document : Document}
    (hbefore : w.store.row .documents k = some document)
    (hafter : store.row .documents k = some document) (hcurrent : document.Current w.store) :
    document.Current store := by
  refine ⟨hcurrent.active, fun versionId hversion => ?_⟩
  obtain ⟨version, hrow, hready⟩ := hcurrent.version versionId hversion
  obtain ⟨version', hrow', hscope⟩ := h.versionsPersist hknows hst _ _ hrow
  obtain ⟨hid, htenant, hkb, hdocument⟩ := hscope
  have hactive : document.status = .active :=
    hcurrent.active (by rw [Option.mem_def.1 hversion]; exact Option.some_ne_none versionId)
  have hkey : (version'.tenantId, version'.id) = (document.tenantId, versionId) :=
    Store.key_of_row hrow'
  rw [Prod.mk.injEq] at hkey
  refine ⟨version', hrow', htenant.trans hready.tenantId, hkb.trans hready.knowledgeBaseId,
    hdocument.trans hready.documentId, ?_⟩
  have hstep := h.versionStep hst (document.tenantId, versionId)
  rw [hrow, hrow'] at hstep
  generalize hold : some version = old at hstep
  cases hstep with
  | same =>
    cases hold
    exact hready.status
  | registered => cases hold
  | written hwrite =>
    cases hwrite with
    | ready _ _ hstatus => exact hstatus
    | ingested htask =>
      -- a blind save: of the current version it cannot be
      obtain ⟨tenantId, saved, rfl, -⟩ := h.ingested htask
      rw [row_of_transact_of_written (r := .documentVersions) (l := []) (m := []) hst (by decide)
        (by simp) (by simp) rfl, hrow] at hrow'
      split at hrow'
      · cases hrow'
        have hne := hkeeps htask hx _ _ rfl hst _ List.mem_cons_self _ rfl k document
          hbefore hactive hkey.1.symm
        rw [hkey.2] at hne
        exact absurd hversion hne
      · cases hrow'
        exact hready.status
    | superseded _ _ hoperation htenant' hprevious hother hne =>
      -- the document has got another current version in this transaction
      obtain ⟨replaced, hreplaced, howner⟩ := hknows _ hoperation _ hprevious
      rw [htenant', hkey.1, hkey.2, hrow, Option.some.injEq] at hreplaced
      subst hreplaced
      rw [hkey.1, ← howner, hready.documentId, ← key_document, Store.key_of_row hbefore, hafter,
        Option.some.injEq] at hother
      subst hother
      rw [hkey.2] at hne
      exact absurd hversion hne
    | deleted _ _ hdeleted hstatus =>
      -- the document has been deleted in this transaction
      rw [htenant, hready.tenantId, hdocument, hready.documentId, ← key_document,
        Store.key_of_row hbefore, hafter, Option.some.injEq] at hdeleted
      subst hdeleted
      rw [hactive] at hstatus
      cases hstatus

/-- **The invariant is kept by every transaction** that spares the current versions. -/
theorem WellOwned.commit (hw : WellOwned w.store) (h : Writes task knows statements)
    (hknows : ∀ f ∈ knows, f.Owned w.store) (hst : w.store.transact statements = .ok store)
    {x : Input} (hx : x.fault = none)
    (hkeeps : KeepsCurrent ⟨task, knows, .commit statements⟩ x w) :
    WellOwned store := by
  have hpersist := h.versionsPersist hknows hst
  refine ⟨fun k document hrow => ?_, fun k operation hrow => ?_⟩
  · have hstep := h.documentStep hst k
    change store.row .documents k = some document at hrow
    rw [hrow] at hstep
    generalize hold : w.store.row .documents k = old at hstep
    cases hstep with
    | same => exact h.current_of_same hknows hst hx hkeeps hold hrow (hw.documents k document hold)
    | created _ _ hnone => exact .of_none hnone
    | replaced _ _ hcurrent => exact hcurrent
    | activated _ _ _ hcurrent => exact hcurrent
  · have hstep := h.operationStep hst k
    change store.row .lifecycleOperations k = some operation at hrow
    rw [hrow] at hstep
    generalize hold : w.store.row .lifecycleOperations k = old at hstep
    cases hstep with
    | same => exact (hw.operations k operation hold).mono hpersist
    | added hregisters =>
      obtain ⟨-, document, hdocument, hkey, hprevious⟩ := hregisters
      rw [key_document, Prod.mk.injEq] at hkey
      have howns : operation.OwnsPrevious w.store := by
        intro versionId hversion
        have := hknows _ hdocument versionId (hprevious versionId hversion)
        rwa [hkey.1, hkey.2] at this
      exact howns.mono hpersist
    | saved hloaded hcontinues =>
      have howns : operation.OwnsPrevious w.store := by
        intro versionId hversion
        have hkey := hcontinues.key
        rw [key_lifecycleOperation, key_lifecycleOperation, Prod.mk.injEq] at hkey
        rw [hcontinues.previousVersionId] at hversion
        rw [hkey.1, hcontinues.documentId]
        exact hknows _ hloaded versionId hversion
      exact howns.mono hpersist

end Transaction

/-! ## Runs -/

/-- The terms under which current versions stay in order. -/
def currentTerms : Terms :=
  .ofRelation (fun w => WellOwned w.store) KeepsCurrent fun w w' =>
    VersionsPersist w.store w'.store

theorem currentTerms_obligations :
    currentTerms.Obligations (fun _ => True) fun f w => f.Owned w.store where
  refl _ _ w := .refl w.store
  stable _ _ _ _ _ _ _ _ hpersist hf := Fact.Owned.mono hpersist hf
  read hw hf := WellOwned.read hw hf
  tick {_ _ _ w} hw _ hknows := ⟨hw, .refl w.store, hknows, by simp [Fact.Owned]⟩
  commit := by
    intro task knows statements x w store _ hwrites hw hallow hx hknows hst
    have hpersist := hwrites.versionsPersist hknows hst
    refine ⟨WellOwned.commit hw hwrites hknows hst hx hallow, hpersist,
      fun f hf => (hknows f hf).mono hpersist, fun f hf => ?_⟩
    obtain ⟨s, -, hs⟩ := List.mem_filterMap.1 hf
    cases s <;> cases hs
    trivial
  changeIndex {_ _ change _ w _} _ _ hw _ _ hknows _ := by
    refine ⟨hw, .refl w.store, hknows, ?_⟩
    cases change <;> simp [Call.facts, Fact.Owned]
  changeObjects {_ _ change _ w} _ _ hw _ _ hknows := by
    refine ⟨hw, .refl w.store, hknows, ?_⟩
    cases change <;> simp [Call.facts, Fact.Owned]

variable {τ : Type} [DecidableEq τ] {cfg : Config Action Error Unit World τ} {t : τ} {x : Input}

/-- A database with knowledge bases only. -/
def Fresh (st : Store) : Prop := ∀ r, r ≠ .knowledgeBases → (st.table r).rows = []

theorem Fresh.row_eq_none {st : Store} (h : Fresh st) {r : Resource} (hr : r ≠ .knowledgeBases)
    (k : String × String) : st.row r k = none := by
  rw [Store.row, Table.get_eq_none_iff, h r hr]
  simp

theorem Fresh.wellOwned {st : Store} (h : Fresh st) : WellOwned st := by
  refine ⟨fun k document hrow => ?_, fun k operation hrow => ?_⟩
  · rw [h.row_eq_none (by decide)] at hrow
    cases hrow
  · rw [h.row_eq_none (by decide)] at hrow
    cases hrow

/-- A step that ends with current versions in order has written over none of them. -/
theorem atEachCall_keepsCurrent {S : Task → Prop} (h : AllObedient S cfg)
    (hready : CurrentReady (cfg.step exec t x).state.store) :
    AtEachCall KeepsCurrent cfg t x := by
  intro β a rest ht htask hx statements store hchange hst s hs version hversion k document
    hdocument hactive htenant hcurrent
  obtain ⟨task, knows, call⟩ := a
  have hobedient := h t
  rw [ht] at hobedient
  rw [Config.step_call ht] at hready
  cases call with
  | commit statements' =>
    cases hchange
    obtain ⟨tenantId, saved, rfl, hne⟩ := Writes.ingested hobedient.licit.2 htask
    rw [List.mem_singleton] at hs
    subst hs
    cases hversion
    rw [exec_commit hx hst] at hready
    have hkept : store.row .documents k = some document := by
      rw [row_of_transact_of_written_eq_none hst (by decide) (by simp [Stmt.written]), hdocument]
    obtain ⟨version, hrow, hversion⟩ := hready k document _ hkept hactive hcurrent
    rw [row_of_transact_of_written (r := .documentVersions) (l := []) (m := []) hst (by decide)
      (by simp) (by simp) rfl, if_pos (by rw [key_documentVersion, htenant])] at hrow
    cases hrow
    exact hne hversion.status
  | _ => cases hchange

/-- **The current version is well formed, exactly when the blind saves of deliveries spare
it.**  From a fresh database, whatever the commands and whatever fails, all states of a run
have the property if and only if no committed save of a delivery at its start, or after its
failure, writes over the current version of an active document. -/
theorem currentReady_iff (settings : Settings) (commands : τ → Command) (w : World)
    (hw : Fresh w.store) (l : List (τ × Input)) :
    (∀ m, m <+: l → CurrentReady ((system settings commands w).run exec m).state.store) ↔
      (system settings commands w).Respects exec (AtEachCall KeepsCurrent) l := by
  have hsound : Protocol.Sound currentTerms.protocol (system settings commands w) :=
    currentTerms_obligations.sound (fun _ _ _ => trivial) hw.wellOwned
  constructor
  · have hobedient : AllObedient (fun _ => True) (system settings commands w) :=
      allObedient_system fun _ _ _ => trivial
    exact Config.respects_of_forall_prefix (I := AllObedient fun _ => True)
      (P := fun cfg : Config Action Error Unit World τ => CurrentReady cfg.state.store)
      (fun _ t x h => h.step t x) (fun _ _ _ h hready => atEachCall_keepsCurrent h hready)
      hobedient
  · intro hl m hm
    exact WellOwned.currentReady (invariant_run hsound (hl.of_prefix hm))

/-! ## A delivery that starts late -/

namespace Sample

/-- An upload and two deliveries of its envelope. -/
def deliveries : ℕ → Command
  | 0 => upload
  | _ => .handle envelope 1

/-- The first delivery has read its rows; the second one runs to its end and activates the
version; then the first one goes on and marks the version as being ingested. -/
def lateStart : List (ℕ × Input) :=
  uploads 0 ++ List.replicate 4 (1, input) ++ List.replicate 42 (2, input) ++
    List.replicate 4 (1, input)

theorem fresh_fresh : Fresh fresh.store := by
  intro r hr
  cases r with
  | knowledgeBases => exact absurd rfl hr
  | _ => rfl

/-- At the end of `lateStart` the document is active with a version that is being ingested. -/
theorem rows_lateStart :
    let st := ((system settings deliveries fresh).run exec lateStart).state.store
    (st.row .documents ("t", "d")).map (fun d => (d.tenantId, d.status, d.currentVersionId)) =
        some ("t", .active, some "v") ∧
      (st.row .documentVersions ("t", "v")).map DocumentVersion.status = some .ingesting := by
  decide +kernel

theorem not_currentReady_lateStart :
    ¬ CurrentReady ((system settings deliveries fresh).run exec lateStart).state.store := by
  intro h
  obtain ⟨hdocument, hversion⟩ := rows_lateStart
  obtain ⟨document, hrow, hfields⟩ := Option.map_eq_some_iff.1 hdocument
  rw [Prod.mk.injEq, Prod.mk.injEq] at hfields
  obtain ⟨version, hrow', hready⟩ := h _ _ _ hrow hfields.2.1 hfields.2.2
  rw [hfields.1] at hrow'
  rw [hrow', Option.map_some, hready.status] at hversion
  cases hversion

end Sample

/-- From a fresh database a late delivery leaves an active document with a current version
that is not ready. -/
theorem not_currentReady :
    Fresh Sample.fresh.store ∧
      ¬ CurrentReady
        ((system Sample.settings Sample.deliveries Sample.fresh).run exec
          Sample.lateStart).state.store :=
  ⟨Sample.fresh_fresh, Sample.not_currentReady_lateStart⟩

/-- That run does not meet the condition. -/
theorem currentReady_iff_lateStart :
    ¬ (system Sample.settings Sample.deliveries Sample.fresh).Respects exec
      (AtEachCall KeepsCurrent) Sample.lateStart := by
  intro h
  have hready := (currentReady_iff Sample.settings Sample.deliveries Sample.fresh
    Sample.fresh_fresh Sample.lateStart).2 h
  exact Sample.not_currentReady_lateStart (hready _ (List.prefix_refl _))

end Knowledge
end RagflowAgent
