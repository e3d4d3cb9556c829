import RagflowAgent.Knowledge.Effects
import RagflowAgent.Knowledge.Obligations

/-!
# Compare and set

Publication, rollback, deletion, restoration and purge write their document by a
conditional update.  Two of their transactions that expect the same revision of the same
document exclude each other: when one has committed, the stored revision has moved past
the expected one and never comes back, so the other's transaction fails, all of its
statements are rolled back, and its caller sees the error.

The blind save of a first activation is the one writer that could bring a revision back, so
the callers here are those that do not ingest.
-/

namespace RagflowAgent
namespace Knowledge

open Interleaving Keyed

variable {τ : Type} [DecidableEq τ] {settings : Settings} {commands : τ → Command}
  {cfg : Config Action Error Unit World τ} {t u : τ} {x y : Input} {k : String × String}
  {n : ℕ}

/-! ## Committing, and not committing -/

/-- Thread `t` is about to run a transaction that updates the document under `k` on
condition that its revision is `n`. -/
def Contends (cfg : Config Action Error Unit World τ) (t : τ) (k : String × String) (n : ℕ) :
    Prop :=
  ∃ task knows statements tenantId document,
    transactionOf (cfg.threads t) = some (task, knows, statements) ∧
      .saveIfRevision tenantId document n ∈ statements ∧ key document = k

/-- With the input `x` the transaction of thread `t` takes effect. -/
def Commits (cfg : Config Action Error Unit World τ) (t : τ) (x : Input) : Prop :=
  ∃ task knows statements store,
    transactionOf (cfg.threads t) = some (task, knows, statements) ∧ x.fault = none ∧
      cfg.state.store.transact statements = .ok store

/-- With the input `x` thread `t` raises, and everything is left as it was. -/
def Aborts (cfg : Config Action Error Unit World τ) (t : τ) (x : Input) : Prop :=
  (cfg.step exec t x).state = cfg.state ∧ ∃ e, (cfg.step exec t x).threads t = .raise e

/-- Who does not commit raises and changes nothing, if errors are not handled. -/
theorem aborts_of_not_commits {S : Task → Prop} (hS : ¬ S .failingVersion)
    (hobedient : (conduct S).Obedient (cfg.threads t)) (h : Contends cfg t k n)
    (hnot : ¬ Commits cfg t x) : Aborts cfg t x := by
  obtain ⟨task, knows, statements, -, -, htransaction, -, -⟩ := h
  obtain ⟨rest, ht⟩ := exists_of_transactionOf htransaction
  rw [ht] at hobedient
  obtain ⟨e, he⟩ : ∃ e, exec ⟨task, knows, .commit statements⟩ x cfg.state =
      (.error e, cfg.state) :=
    exec_commit_of_not fun ⟨hx, store, hst⟩ =>
      hnot ⟨task, knows, statements, store, htransaction, hx, hst⟩
  rw [Aborts, Config.step_call ht, he]
  exact ⟨rfl, e, by simpa using hobedient.raises hS e⟩

/-! ## Revisions only grow -/

/-- No document row disappears, and none goes back to an earlier revision. -/
def RevisionsGrow (w w' : World) : Prop :=
  ∀ k d, w.store.row .documents k = some d →
    ∃ d', w'.store.row .documents k = some d' ∧ d.revision ≤ d'.revision

theorem RevisionsGrow.of_eq {w w' : World} (h : w'.store = w.store) : RevisionsGrow w w' :=
  fun _ d hd => ⟨d, h ▸ hd, le_rfl⟩

theorem RevisionsGrow.trans {w w' w'' : World} (h : RevisionsGrow w w')
    (h' : RevisionsGrow w' w'') : RevisionsGrow w w'' := by
  intro k d hd
  obtain ⟨d', hd', hle⟩ := h k d hd
  obtain ⟨d'', hd'', hle'⟩ := h' k d' hd'
  exact ⟨d'', hd'', hle.trans hle'⟩

/-- One step of a document that is not the blind save. -/
theorem DocumentStep.revision_le {task : Task} {knows : List Fact} {st' : Store}
    {row row' : Option Document} (h : DocumentStep task knows st' row row')
    (htask : task ≠ .activating) {d : Document} (hd : row = some d) :
    ∃ d', row' = some d' ∧ d.revision ≤ d'.revision := by
  cases h with
  | same => exact ⟨d, hd, le_rfl⟩
  | created => cases hd
  | replaced _ hsucceeds _ hrevision =>
    cases hd
    exact ⟨_, rfl, by rw [hsucceeds.revision, hrevision]; omega⟩
  | activated h => exact absurd h htask

/-- The terms of services that never save a document blindly. -/
def revisionTerms : Terms :=
  .ofRelation (fun _ => True) (fun _ _ _ _ => True) RevisionsGrow

theorem revisionTerms_obligations :
    revisionTerms.Obligations (fun t => t ≠ .activating ∧ t ≠ .failingVersion)
      fun _ _ => True where
  refl _ _ _ := .of_eq rfl
  stable _ _ _ _ _ _ _ _ _ _ := trivial
  read _ _ := trivial
  tick _ _ _ := ⟨trivial, .of_eq rfl, fun _ _ => trivial, fun _ _ => trivial⟩
  commit htask hwrites _ _ _ _ hst :=
    ⟨trivial, fun k _ hd => (hwrites.documentStep hst k).revision_le htask.1 hd,
      fun _ _ => trivial, fun _ _ => trivial⟩
  changeIndex _ _ _ _ _ _ _ := ⟨trivial, .of_eq rfl, fun _ _ => trivial, fun _ _ => trivial⟩
  changeObjects _ _ _ _ _ _ := ⟨trivial, .of_eq rfl, fun _ _ => trivial, fun _ _ => trivial⟩

/-- In every run without deliveries revisions only grow. -/
theorem revisionsGrow_run (settings : Settings)
    (hcommands : ∀ t envelope attempt, commands t ≠ .handle envelope attempt) (w : World)
    (l₁ l₂ : List (τ × Input)) :
    RevisionsGrow ((system settings commands w).run exec l₁).state
      (((system settings commands w).run exec l₁).run exec l₂).state := by
  have hsound : Protocol.Sound revisionTerms.protocol (system settings commands w) :=
    revisionTerms_obligations.sound
      (fun t => Command.not_activating_of_ne_handle (hcommands t)) trivial
  have hall : ∀ {cfg : Config Action Error Unit World τ} (l : List (τ × Input)),
      cfg.Respects exec (AtEachCall fun _ _ _ _ => True) l := by
    intro cfg l
    induction l generalizing cfg with
    | nil => trivial
    | cons tx l ih => exact ⟨fun _ _ _ _ => trivial, ih⟩
  exact relation_run (hsound.run coordinates_ofRelation (hall l₁)) (fun _ => .of_eq rfl)
    (fun _ _ _ => RevisionsGrow.trans) (hall l₂)

/-! ## Exclusion -/

/-- A commit that contends for a revision finds it and leaves the next one. -/
theorem Commits.revision {S : Task → Prop} (hobedient : (conduct S).Obedient (cfg.threads t))
    (hcommits : Commits cfg t x) (hcontends : Contends cfg t k n) :
    (∃ d, cfg.state.store.row .documents k = some d ∧ d.revision = n) ∧
      ∃ d, (cfg.step exec t x).state.store.row .documents k = some d ∧ d.revision = n + 1 := by
  obtain ⟨task, knows, statements, store, htransaction, hx, hst⟩ := hcommits
  obtain ⟨task', knows', statements', tenantId, document, htransaction', hs, rfl⟩ := hcontends
  rw [htransaction, Option.some.injEq, Prod.mk.injEq, Prod.mk.injEq] at htransaction'
  obtain ⟨rfl, rfl, rfl⟩ := htransaction'
  obtain ⟨rest, ht⟩ := exists_of_transactionOf htransaction
  rw [ht] at hobedient
  have hwrites : Writes task knows statements := hobedient.licit.2
  obtain ⟨hbefore, hafter, hrevision⟩ := hwrites.row_of_conditional hst hs
  refine ⟨hbefore, document, ?_, hrevision⟩
  rw [Config.step_call ht, exec_commit hx hst]
  exact hafter

/-- **Conditional updates are exclusive and atomic.**  Let threads `t` and `u` of one run
reach, one after the other, transactions that update the same document on the same expected
revision.  Then not both commit, and the one that does not raises and leaves every row, and
everything else, as the others left it. -/
theorem compareAndSet_exclusive (settings : Settings) (commands : τ → Command)
    (hcommands : ∀ t envelope attempt, commands t ≠ .handle envelope attempt) (w : World)
    (l₁ l₂ : List (τ × Input)) (t u : τ) (x y : Input) (k : String × String) (n : ℕ)
    (cfg₁ cfg₂ : Config Action Error Unit World τ)
    (h₁ : cfg₁ = (system settings commands w).run exec l₁)
    (h₂ : cfg₂ = (cfg₁.step exec t x).run exec l₂)
    (ht : Contends cfg₁ t k n) (hu : Contends cfg₂ u k n) :
    ¬ (Commits cfg₁ t x ∧ Commits cfg₂ u y) ∧ (¬ Commits cfg₁ t x → Aborts cfg₁ t x) ∧
      (¬ Commits cfg₂ u y → Aborts cfg₂ u y) := by
  have hstart : AllObedient (fun task => task ≠ .activating ∧ task ≠ .failingVersion)
      (system settings commands w) :=
    allObedient_system fun t => Command.not_activating_of_ne_handle (hcommands t)
  have hobedient₁ := h₁ ▸ hstart.run l₁
  have hobedient₂ := h₂ ▸ (hobedient₁.step t x).run l₂
  refine ⟨fun ⟨hcommits, hcommits'⟩ => ?_,
    aborts_of_not_commits (fun h => h.2 rfl) (hobedient₁ t) ht,
    aborts_of_not_commits (fun h => h.2 rfl) (hobedient₂ u) hu⟩
  obtain ⟨-, d, hd, hrevision⟩ := hcommits.revision (hobedient₁ t) ht
  obtain ⟨⟨d', hd', hrevision'⟩, -⟩ := hcommits'.revision (hobedient₂ u) hu
  have hgrow := revisionsGrow_run settings hcommands w (l₁ ++ [(t, x)]) l₂
  rw [Config.run_append, Config.run_cons, Config.run_nil, ← h₁, ← h₂] at hgrow
  obtain ⟨d'', hd'', hle⟩ := hgrow k d hd
  rw [hd', Option.some.injEq] at hd''
  subst hd''
  omega

/-- Two callers who want to delete the same document. -/
def Sample.twoDeletions (b : Bool) : Command :=
  .requestDelete context "d" (if b then "k1" else "k2") "r"

/-- Both have read the document. -/
def Sample.bothRead : List (Bool × Input) :=
  [(true, {}), (true, {}), (true, { now := 1 }), (true, { newId := "o1" }), (false, {}),
    (false, {}), (false, { now := 1 }), (false, { newId := "o2" })]

/-- The first of two deletions commits, so the second one aborts. -/
theorem compareAndSet_exclusive_twoDeletions :
    ∃ cfg, cfg = (system Sample.settings Sample.twoDeletions Sample.world).run exec
        Sample.bothRead ∧
      Commits cfg true {} ∧ Aborts (cfg.step exec true {}) false {} := by
  refine ⟨_, rfl, ⟨_, _, _, _, rfl, rfl, rfl⟩, ?_⟩
  obtain ⟨hnotBoth, -, haborts⟩ := compareAndSet_exclusive Sample.settings Sample.twoDeletions
    (fun _ _ _ => nofun) Sample.world Sample.bothRead [] true false {} {} ("t", "d") 1 _ _ rfl rfl
    ⟨_, _, _, "t", _, rfl, List.mem_cons_self, rfl⟩
    ⟨_, _, _, "t", _, rfl, List.mem_cons_self, rfl⟩
  exact haborts fun hsecond => hnotBoth ⟨⟨_, _, _, _, rfl, rfl, rfl⟩, hsecond⟩

end Knowledge
end RagflowAgent
