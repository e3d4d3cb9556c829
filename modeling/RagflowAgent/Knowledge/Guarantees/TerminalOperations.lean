import RagflowAgent.Knowledge.Effects
import RagflowAgent.Knowledge.Obligations

/-!
# Terminal operations

A lifecycle operation that has succeeded should stay so.  Cancelling an operation and
updating its progress check the snapshot they have loaded and then save a new one without
looking at the row again, so a publication that commits in between is undone.

* `OperationStatuses`: only three statuses are ever stored.  In particular no operation is
  ever stored as failed, although a delivery tries to;
* `StaysTerminal` is the property of a step, `SavesOpen` what the two blind saves need;
* `respects_staysTerminal_iff`: a run has the property at every step exactly when no blind
  save of an open snapshot comes late;
* in `Sample.lateCancel` one does.
-/

namespace RagflowAgent
namespace Knowledge

open Interleaving Keyed

/-- The operation is over. -/
def LifecycleOperation.Terminal (operation : LifecycleOperation) : Prop :=
  operation.status.isIn terminalLifecycleStatuses = true

/-! ## The statuses that are stored -/

/-- The statuses that the services ever store. -/
def storedStatuses : List StatusValue :=
  [.member .pending, .member .cancelRequested, .member .succeeded]

/-- Every stored operation has one of these statuses.  A database without operations is an
instance. -/
def OperationStatuses (st : Store) : Prop :=
  ∀ k operation, st.row .lifecycleOperations k = some operation →
    operation.status ∈ storedStatuses

/-- A loaded operation has one of these statuses. -/
def Fact.KnownStatus : Fact → Prop
  | stored .lifecycleOperations operation =>
    LifecycleOperation.status operation ∈ storedStatuses
  | _ => True

theorem terminal_iff_of_mem {operation : LifecycleOperation}
    (h : operation.status ∈ storedStatuses) :
    operation.Terminal ↔ operation.status = .member .succeeded := by
  simp only [storedStatuses, List.mem_cons, List.not_mem_nil, or_false] at h
  rcases h with h | h | h <;> simp [LifecycleOperation.Terminal, h, terminalLifecycleStatuses]

theorem OperationStatuses.read {st : Store} (h : OperationStatuses st) {f : Fact}
    (hf : f.ReadFrom st) : f.KnownStatus := by
  cases f with
  | stored r e =>
    cases r with
    | lifecycleOperations =>
      obtain ⟨row, hrow, he⟩ := hf
      have hstatus := h _ row (Table.mem_rows_iff.1 hrow)
      have hmember : ∃ status, row.status = .member status := by
        simp only [storedStatuses, List.mem_cons, List.not_mem_nil, or_false] at hstatus
        rcases hstatus with h | h | h <;> exact ⟨_, h⟩
      obtain ⟨status, hmember⟩ := hmember
      rw [LifecycleOperation.eq_of_validate_eq_ok hmember he]
      exact hstatus
    | _ => trivial
  | _ => trivial

/-- No transaction stores another status. -/
theorem OperationStatuses.commit {task : Task} {knows : List Fact} {statements : List Stmt}
    {st st' : Store} (h : OperationStatuses st) (hwrites : Writes task knows statements)
    (hknows : ∀ f ∈ knows, f.KnownStatus) (hst : st.transact statements = .ok st') :
    OperationStatuses st' := by
  intro k operation hrow
  have hstep := hwrites.operationStep hst k
  rw [hrow] at hstep
  generalize hold : st.row .lifecycleOperations k = old at hstep
  cases hstep with
  | same => exact h k operation hold
  | added hregisters => rcases hregisters.1 with hs | hs <;> rw [hs] <;> simp [storedStatuses]
  | saved hloaded _ hwrite =>
    cases hwrite with
    | succeeded _ hstatus => rw [hstatus]; simp [storedStatuses]
    | cancelRequested => simp [storedStatuses]
    | progressed => exact hknows _ hloaded

/-- The terms that record which statuses are stored.  Nothing is asked of the calls. -/
def statusTerms : Terms :=
  .ofRelation (fun w => OperationStatuses w.store) (fun _ _ _ _ => True) fun _ _ => True

theorem statusTerms_obligations :
    statusTerms.Obligations (fun _ => True) fun f _ => f.KnownStatus where
  refl _ _ _ := trivial
  stable _ _ _ _ _ _ _ _ _ hf := hf
  read hw hf := OperationStatuses.read hw hf
  tick hw _ hknows := ⟨hw, trivial, hknows, by simp [Fact.KnownStatus]⟩
  commit := by
    intro task knows statements x w store _ hwrites hw _ _ hknows hst
    refine ⟨OperationStatuses.commit hw hwrites hknows hst, trivial, hknows, fun f hf => ?_⟩
    obtain ⟨s, -, hs⟩ := List.mem_filterMap.1 hf
    cases s <;> cases hs
    trivial
  changeIndex {_ _ change _ _ _} _ _ hw _ _ hknows _ :=
    ⟨hw, trivial, hknows, by cases change <;> simp [Call.facts, Fact.KnownStatus]⟩
  changeObjects {_ _ change _ _} _ _ hw _ _ hknows :=
    ⟨hw, trivial, hknows, by cases change <;> simp [Call.facts, Fact.KnownStatus]⟩

/-! ## One step -/

variable {τ : Type} [DecidableEq τ] {cfg : Config Action Error Unit World τ} {t : τ} {x : Input}

/-- The step keeps the status of every operation that is over. -/
def StaysTerminal (cfg : Config Action Error Unit World τ) (t : τ) (x : Input) : Prop :=
  ∀ k operation, cfg.state.store.row .lifecycleOperations k = some operation →
    operation.Terminal →
    ∃ operation', (cfg.step exec t x).state.store.row .lifecycleOperations k = some operation' ∧
      operation'.status = operation.status

/-- If thread `t` commits a cancellation or an update of the progress, computed from a
snapshot that is not over, then the stored operation is not over either. -/
def SavesOpen (cfg : Config Action Error Unit World τ) (t : τ) (x : Input) : Prop :=
  ∀ task knows statements store,
    transactionOf (cfg.threads t) = some (task, knows, statements) →
    task = .cancelling ∨ task = .progressing → x.fault = none →
    cfg.state.store.transact statements = .ok store →
    ∀ s ∈ statements, ∀ operation, s.written .lifecycleOperations = some operation →
    ¬ operation.Terminal →
    ∀ stored, cfg.state.store.row .lifecycleOperations (key operation) = some stored →
    ¬ stored.Terminal

/-- At one step the two conditions say the same. -/
theorem staysTerminal_iff {S : Task → Prop} (h : AllObedient S cfg)
    (hbefore : OperationStatuses cfg.state.store)
    (hafter : OperationStatuses (cfg.step exec t x).state.store) :
    StaysTerminal cfg t x ↔ SavesOpen cfg t x := by
  constructor
  · intro hstays task knows statements store ht htask hx hst s hs operation hoperation hopen
      stored hstored hterminal
    obtain ⟨tenantId, saved, rfl⟩ := ((writes_of_transactionOf (h t) ht).2).savesOperation htask
    rw [List.mem_singleton] at hs
    subst hs
    cases hoperation
    obtain ⟨rest, hrest⟩ := exists_of_transactionOf ht
    obtain ⟨operation', hrow, hstatus⟩ := hstays _ stored hstored hterminal
    rw [Config.step_call hrest, exec_commit hx hst] at hrow
    rw [row_of_transact_of_written (r := .lifecycleOperations) (l := []) (m := []) hst (by decide)
      (by simp) (by simp) rfl, if_pos rfl] at hrow
    cases hrow
    rw [LifecycleOperation.Terminal, hstatus] at hopen
    exact hopen hterminal
  · intro hsaves k operation hrow hterminal
    obtain hsame | ⟨task, knows, statements, store, ht, hx, hst, hstore⟩ := store_step_cases cfg t x
    · rw [hsame]
      exact ⟨operation, hrow, rfl⟩
    obtain ⟨-, hwrites⟩ := writes_of_transactionOf (h t) ht
    have hstep := hwrites.operationStep hst k
    rw [hstore] at hafter ⊢
    rw [hrow] at hstep
    generalize hrow' : store.row .lifecycleOperations k = row' at hstep
    generalize hold : some operation = old at hstep
    cases hstep with
    | same =>
      exact ⟨operation, hold.symm, rfl⟩
    | added => cases hold
    | @saved _ _ operation' _ _ hwrite =>
      refine ⟨operation', rfl, ?_⟩
      have hterminal' : operation'.Terminal := by
        by_contra hopen
        have htask : task = .cancelling ∨ task = .progressing := by
          cases hwrite with
          | succeeded _ hstatus =>
            exact absurd (by rw [LifecycleOperation.Terminal, hstatus]; rfl) hopen
          | cancelRequested htask => exact .inl htask
          | progressed htask => exact .inr htask
        have hwritten := row_of_transact hst (r := .lifecycleOperations) (by decide) k
        rw [hrow', hrow] at hwritten
        cases hlast : lastWritten .lifecycleOperations k statements with
        | none =>
          rw [hlast] at hwritten
          cases hwritten
          exact hopen hterminal
        | some last =>
          rw [hlast] at hwritten
          cases hwritten
          obtain ⟨rfl, s, hs, hoperation⟩ := exists_written_of_lastWritten hlast
          exact hsaves _ _ _ _ ht htask hx hst s hs _ hoperation hopen operation hrow hterminal
      rw [(terminal_iff_of_mem (hbefore k operation hrow)).1 hterminal,
        (terminal_iff_of_mem (hafter k operation' hrow')).1 hterminal']

/-! ## Runs -/

/-- **Terminal operations stay terminal, exactly when no blind save of an open snapshot comes
late.**  In every run of the system each step keeps the status of every operation that is
over if and only if each committed cancellation, and each committed update of the progress,
that was computed from an open snapshot finds the operation still open. -/
theorem respects_staysTerminal_iff (settings : Settings) (commands : τ → Command) (w : World)
    (hw : OperationStatuses w.store) (l : List (τ × Input)) :
    (system settings commands w).Respects exec StaysTerminal l ↔
      (system settings commands w).Respects exec SavesOpen l := by
  have hcoordinates : Protocol.Coordinates statusTerms.protocol
      (AtEachCall (τ := τ) fun _ _ _ _ => True) := coordinates_ofRelation
  refine Config.respects_congr
    (P := fun cfg => AllObedient (fun _ => True) cfg ∧ Protocol.Sound statusTerms.protocol cfg)
    (fun _ t x h => ⟨h.1.step t x, h.2.step hcoordinates fun _ _ _ _ => trivial⟩) ?_
    ⟨allObedient_system fun _ _ _ => trivial,
      statusTerms_obligations.sound (fun _ _ _ => trivial) hw⟩
  intro cfg t x h
  have hnext : Protocol.Sound statusTerms.protocol (cfg.step exec t x) :=
    h.2.step hcoordinates fun _ _ _ _ => trivial
  exact staysTerminal_iff h.1 h.2.inv hnext.inv

/-! ## A cancellation that comes late -/

namespace Sample

/-- A reparse, a cancellation of its operation, and a delivery of its envelope. -/
def reparseAndCancel : ℕ → Command
  | 0 => reparse
  | 1 => .cancel context "o"
  | _ => .handle reparseEnvelope 1

/-- The operation is registered, the cancellation has loaded it, and the delivery runs to
its end. -/
def succeededMeanwhile : List (ℕ × Input) :=
  reparses 0 ++ List.replicate 4 (1, inputOf "v2") ++ List.replicate 63 (2, inputOf "v2")

/-- Then the cancellation commits. -/
def lateCancel : List (ℕ × Input) := succeededMeanwhile ++ [(1, inputOf "v2")]

theorem operationStatuses_world : OperationStatuses world.store := by
  intro k operation h
  cases h

theorem statuses_lateCancel :
    (((system settings reparseAndCancel world).run exec succeededMeanwhile).state.store.row
        .lifecycleOperations ("t", "o")).map LifecycleOperation.status =
          some (.member .succeeded) ∧
      (((system settings reparseAndCancel world).run exec lateCancel).state.store.row
        .lifecycleOperations ("t", "o")).map LifecycleOperation.status =
          some (.member .cancelRequested) := by
  decide +kernel

theorem not_staysTerminal_lateCancel :
    ¬ (system settings reparseAndCancel world).Respects exec StaysTerminal lateCancel := by
  intro h
  rw [lateCancel, Config.respects_append] at h
  obtain ⟨hbefore, hafter⟩ := statuses_lateCancel
  obtain ⟨operation, hrow, hstatus⟩ := Option.map_eq_some_iff.1 hbefore
  have hterminal : operation.Terminal := by
    rw [LifecycleOperation.Terminal, hstatus]
    rfl
  obtain ⟨operation', hrow', hstatus'⟩ := h.2.1 _ operation hrow hterminal
  rw [lateCancel, Config.run_append, Config.run_cons, Config.run_nil, hrow', Option.map_some,
    hstatus', hstatus] at hafter
  cases hafter

end Sample

/-- A cancellation that comes late takes a success back. -/
theorem not_respects_staysTerminal :
    OperationStatuses Sample.world.store ∧
      ¬ (system Sample.settings Sample.reparseAndCancel Sample.world).Respects exec StaysTerminal
        Sample.lateCancel :=
  ⟨Sample.operationStatuses_world, Sample.not_staysTerminal_lateCancel⟩

/-- That run does not meet the condition. -/
theorem respects_staysTerminal_iff_lateCancel :
    ¬ (system Sample.settings Sample.reparseAndCancel Sample.world).Respects exec SavesOpen
      Sample.lateCancel := by
  intro h
  have hstays := (respects_staysTerminal_iff Sample.settings Sample.reparseAndCancel Sample.world
    Sample.operationStatuses_world Sample.lateCancel).2 h
  exact Sample.not_staysTerminal_lateCancel hstays

end Knowledge
end RagflowAgent
