import RagflowAgent.Knowledge.Guarantees.CompareAndSet

/-!
# Lost updates of documents

A write over a stored document should replace exactly the revision that its writer has
loaded.  Every service meets this by a conditional update, except one: the delivery that
activates the first version of a document saves the document it has loaded at its start
without looking.  If the row has moved on by then, what happened in between is undone.

* `ReplacesLoaded` is the property of a step, `ActivatesLoaded` what the blind save needs;
* `respects_replacesLoaded_iff`: a run has the property at every step exactly when every
  blind save finds the revision it was computed from;
* in `Sample.lateActivation` it does not, and a deletion is undone.
-/

namespace RagflowAgent
namespace Knowledge

open Interleaving Keyed

variable {τ : Type} [DecidableEq τ] {cfg : Config Action Error Unit World τ} {t : τ} {x : Input}

/-- The transaction that thread `t` commits next, if it commits one, replaces a stored
document only at the revision that `t` has loaded, and by a greater one. -/
def ReplacesLoaded (cfg : Config Action Error Unit World τ) (t : τ) (x : Input) : Prop :=
  ∀ task knows statements store,
    transactionOf (cfg.threads t) = some (task, knows, statements) → x.fault = none →
    cfg.state.store.transact statements = .ok store →
    ∀ s ∈ statements, ∀ document, s.written .documents = some document →
    ∀ stored, cfg.state.store.row .documents (key document) = some stored →
      stored.revision < document.revision ∧
        ∃ loaded, Fact.stored .documents loaded ∈ knows ∧ document.Succeeds loaded ∧
          stored.revision = loaded.revision

/-- If thread `t` commits the activation of a first version next, then the document still
has the revision that `t` has loaded. -/
def ActivatesLoaded (cfg : Config Action Error Unit World τ) (t : τ) (x : Input) : Prop :=
  ∀ knows statements store,
    transactionOf (cfg.threads t) = some (.activating, knows, statements) → x.fault = none →
    cfg.state.store.transact statements = .ok store →
    ∀ loaded, Fact.stored .documents loaded ∈ knows →
    ∀ stored, cfg.state.store.row .documents (key loaded) = some stored →
      stored.revision = loaded.revision

/-- The documents of an activation: the one that was loaded is written. -/
theorem Writes.exists_activated {knows : List Fact} {statements : List Stmt}
    (h : Writes .activating knows statements) :
    ∃ s ∈ statements, ∃ document loaded, s.written .documents = some document ∧
      document.Succeeds loaded ∧ ∀ d, Fact.stored .documents d ∈ knows → d = loaded := by
  cases h with
  | publication _ _ _ _ hpublishes => simp [Publishes] at hpublishes
  | @activation _ _ _ document _ _ _ _ _ honly _ _ hactive =>
    obtain ⟨rfl, -⟩ := activateDocumentVersion_eq_ok hactive
    exact ⟨_, List.mem_cons_of_mem _ List.mem_cons_self, _, document, rfl, ⟨rfl, rfl, rfl⟩, honly⟩

omit [DecidableEq τ] in
/-- At one step the two conditions say the same. -/
theorem replacesLoaded_iff {S : Task → Prop} (h : AllObedient S cfg) :
    ReplacesLoaded cfg t x ↔ ActivatesLoaded cfg t x := by
  constructor
  · intro hreplaces knows statements store ht hx hst loaded hloaded stored hstored
    obtain ⟨-, hwrites⟩ := writes_of_transactionOf (h t) ht
    obtain ⟨s, hs, document, loaded', hdocument, hsucceeds, honly⟩ := hwrites.exists_activated
    obtain rfl := honly loaded hloaded
    rw [← hsucceeds.key] at hstored
    obtain ⟨-, loaded', hloaded', hsucceeds', hrevision⟩ :=
      hreplaces _ _ _ _ ht hx hst s hs document hdocument stored hstored
    rw [hrevision, honly loaded' hloaded']
  · intro hactivates task knows statements store ht hx hst s hs document hdocument stored hstored
    obtain ⟨-, hwrites⟩ := writes_of_transactionOf (h t) ht
    obtain ⟨tenantId, n, rfl⟩ | ⟨tenantId, rfl, hhead⟩ | ⟨rfl, loaded, hloaded, honly, hsucceeds⟩ :=
      hwrites.documentWrite hs hdocument
    · cases hdocument
      obtain ⟨-, -, loaded, -, -, hloaded, hsucceeds, rfl⟩ := hwrites.conditional hs
      obtain ⟨⟨stored', hstored', hrevision⟩, -, hnext⟩ := hwrites.row_of_conditional hst hs
      obtain rfl : stored' = stored := Option.some.inj (hstored'.symm.trans hstored)
      exact ⟨by omega, loaded, hloaded, hsucceeds, hrevision⟩
    · obtain ⟨rest, rfl⟩ := List.head?_eq_some_iff.1 hhead
      have habsent := absent_of_add (l := []) hst (by decide) (by simp)
      rw [habsent] at hstored
      cases hstored
    · rw [hsucceeds.key] at hstored
      have hrevision := hactivates _ _ _ ht hx hst loaded hloaded stored hstored
      refine ⟨?_, loaded, hloaded, hsucceeds, hrevision⟩
      have hnext := hsucceeds.revision
      omega

/-- **No document update is lost, exactly when every blind save is in time.**  In every run
of the system, whatever the commands, each committed write over a stored document replaces
the revision its writer has loaded by a greater one if and only if each committed
activation of a first version finds the document at the revision it has loaded. -/
theorem respects_replacesLoaded_iff (settings : Settings) (commands : τ → Command) (w : World)
    (l : List (τ × Input)) :
    (system settings commands w).Respects exec ReplacesLoaded l ↔
      (system settings commands w).Respects exec ActivatesLoaded l :=
  Config.respects_congr (P := AllObedient fun _ => True) (fun _ t x h => h.step t x)
    (fun _ _ _ h => replacesLoaded_iff h) (allObedient_system fun _ _ _ => trivial)

/-- A step with the property takes no revision back. -/
theorem ReplacesLoaded.revisionsGrow (h : ReplacesLoaded cfg t x) :
    RevisionsGrow cfg.state (cfg.step exec t x).state := by
  obtain hsame | ⟨task, knows, statements, store, ht, hx, hst, hstore⟩ := store_step_cases cfg t x
  · exact .of_eq hsame
  · intro k stored hstored
    rw [hstore, row_of_transact hst (r := .documents) (by decide)]
    cases hw : lastWritten .documents k statements with
    | none => exact ⟨stored, hstored, le_rfl⟩
    | some document =>
      obtain ⟨rfl, s, hs, hdocument⟩ := exists_written_of_lastWritten hw
      exact ⟨document, rfl, (h _ _ _ _ ht hx hst s hs document hdocument stored hstored).1.le⟩

/-- A run with the property takes no revision back. -/
theorem revisionsGrow_of_respects {l : List (τ × Input)} (h : cfg.Respects exec ReplacesLoaded l) :
    RevisionsGrow cfg.state (cfg.run exec l).state := by
  induction l generalizing cfg with
  | nil => exact .of_eq rfl
  | cons tx l ih => exact h.1.revisionsGrow.trans (ih h.2)

/-! ## A deletion that is undone -/

namespace Sample

/-- An upload, two deliveries of its envelope, and a deletion. -/
def deliveriesAndDeletion : ℕ → Command
  | 0 => upload
  | 3 => .requestDelete context "d" "k" "r"
  | _ => .handle envelope 1

/-- The first delivery has read its rows; then the second one runs to its end and the
document is deleted. -/
def deletedMeanwhile : List (ℕ × Input) :=
  uploads 0 ++ List.replicate 4 (1, input) ++ List.replicate 42 (2, input) ++
    List.replicate 6 (3, { input with newId := "o" })

/-- The first delivery goes on and activates the document. -/
def lateActivation : List (ℕ × Input) := deletedMeanwhile ++ List.replicate 38 (1, input)

end Sample

/-- A late first activation brings a deleted document back, at an earlier revision. -/
theorem not_respects_replacesLoaded :
    ¬ (system Sample.settings Sample.deliveriesAndDeletion Sample.fresh).Respects exec
      ReplacesLoaded Sample.lateActivation := by
  intro h
  rw [Sample.lateActivation, Config.respects_append] at h
  have hgrow := revisionsGrow_of_respects h.2
  rw [← Config.run_append] at hgrow
  have hdeleted : ((((system Sample.settings Sample.deliveriesAndDeletion Sample.fresh).run exec
      Sample.deletedMeanwhile).state.store.row .documents ("t", "d")).map Document.revision) =
        some 2 := by decide +kernel
  have hlate : ((((system Sample.settings Sample.deliveriesAndDeletion Sample.fresh).run exec
      Sample.lateActivation).state.store.row .documents ("t", "d")).map Document.revision) =
        some 1 := by decide +kernel
  obtain ⟨d, hd, hrevision⟩ := Option.map_eq_some_iff.1 hdeleted
  obtain ⟨d', hd', hle⟩ := hgrow _ d hd
  rw [Sample.lateActivation] at hlate
  rw [hd', Option.map_some, Option.some.injEq] at hlate
  omega

end Knowledge
end RagflowAgent
