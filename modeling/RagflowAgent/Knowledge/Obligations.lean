import RagflowAgent.Knowledge.Commands

/-!
# What a protocol of the services has to show

Every call of a service is answered by `exec`, so a protocol of the services is an
invariant, the allowed calls, and a guarantee and a rely (`protocol`).  `Obligations`
lists what has to be shown of it, one field for each kind of call that does something:
readings of the clock and of the store, transactions, changes of the index and of the
objects.  A call that fails, and a call without effect, owe nothing but reflexivity.

`Obligations.sound` is how it is used: whatever commands any number of callers run, the
configuration is sound for the protocol.
-/

namespace RagflowAgent
namespace Knowledge

open Interleaving

/-- The terms of a protocol whose calls are answered by `exec`. -/
structure Terms where
  inv : World → Prop
  allow : ∀ ⦃β : Type⦄, Action β → Input → World → Prop
  guar : ∀ ⦃β : Type⦄, Action β → World → World → Prop
  rely : ∀ ⦃β : Type⦄, Action β → World → World → Prop

namespace Terms

/-- The protocol with these terms. -/
def protocol (T : Terms) : Protocol Action Error Input World where
  exec := exec
  inv := T.inv
  allow := T.allow
  guar _ a _ := T.guar a
  rely := T.rely

/-- Terms with one relation between worlds that every step keeps and everybody relies on. -/
def ofRelation (inv : World → Prop) (allow : ∀ ⦃β : Type⦄, Action β → Input → World → Prop)
    (R : World → World → Prop) : Terms where
  inv := inv
  allow := allow
  guar _ _ := R
  rely _ _ := R

/-- What the step of `a` from `w` to `w'` owes, when its answer tells `facts`. -/
structure Owes (T : Terms) (K : Fact → World → Prop) {β : Type} (a : Action β)
    (facts : List Fact) (w w' : World) : Prop where
  inv : T.inv w'
  guar : T.guar a w w'
  knows : ∀ f ∈ a.knows, K f w'
  facts : ∀ f ∈ facts, K f w'

/-- What has to be shown of the terms `T` and the meaning `K` of facts, for services that
work at the tasks `S`. -/
structure Obligations (T : Terms) (S : Task → Prop) (K : Fact → World → Prop) : Prop where
  refl : ∀ ⦃β : Type⦄ (a : Action β) (w : World), T.guar a w w
  stable : ∀ ⦃β : Type⦄ (a : Action β) f, f ∈ a.knows → ∀ w w', T.inv w → T.inv w' →
    T.rely a w w' → K f w → K f w'
  read : ∀ {w : World} {f : Fact}, T.inv w → f.ReadFrom w.store → K f w
  tick : ∀ {task : Task} {knows : List Fact} {x : Input} {w : World}, T.inv w →
    T.allow ⟨task, knows, .now⟩ x w → (∀ f ∈ knows, K f w) →
    T.Owes K ⟨task, knows, .now⟩ [.clock x.now] w { w with clock := x.now }
  commit : ∀ {task : Task} {knows : List Fact} {statements : List Stmt} {x : Input}
    {w : World} {store : Store}, S task → Writes task knows statements → T.inv w →
    T.allow ⟨task, knows, .commit statements⟩ x w → x.fault = none → (∀ f ∈ knows, K f w) →
    w.store.transact statements = .ok store →
    T.Owes K ⟨task, knows, .commit statements⟩ (statements.filterMap Stmt.wrote) w
      { w with store := store }
  changeIndex : ∀ {task : Task} {knows : List Fact} {change : IndexChange} {x : Input}
    {w : World} {index : SearchIndex}, S task → Changes task knows change → T.inv w →
    T.allow ⟨task, knows, .changeIndex change⟩ x w → x.fault = none → (∀ f ∈ knows, K f w) →
    change.apply w.index = .ok index →
    T.Owes K ⟨task, knows, .changeIndex change⟩ ((Call.changeIndex change).facts ()) w
      { w with index := index }
  changeObjects : ∀ {task : Task} {knows : List Fact} {change : ObjectChange} {x : Input}
    {w : World}, S task → Moves task knows change → T.inv w →
    T.allow ⟨task, knows, .changeObjects change⟩ x w → x.fault = none → (∀ f ∈ knows, K f w) →
    T.Owes K ⟨task, knows, .changeObjects change⟩ ((Call.changeObjects change).facts ()) w
      { w with objects := change.apply w.objects }

namespace Obligations

variable {T : Terms} {S : Task → Prop} {K : Fact → World → Prop}

/-- A call that takes effect pays what it owes. -/
theorem owes (h : Obligations T S K) {β : Type} {a : Action β} {x : Input} {w w' : World}
    {b : β} (hw : T.inv w) (hx : T.allow a x w) (hfault : a.call.external = true → x.fault = none)
    (hS : S a.task) (hlicit : a.Licit)
    (hknows : ∀ f ∈ a.knows, K f w) (heffect : a.call.effect x w = .ok (b, w')) :
    T.Owes K a (a.call.facts b) w w' := by
  obtain ⟨task, knows, call⟩ := a
  have hquiet : T.Owes K ⟨task, knows, call⟩ [] w w := ⟨hw, h.refl _ w, hknows, by simp⟩
  cases call with
  | now => cases heffect; exact h.tick hw hx hknows
  | query q =>
    obtain ⟨b', hb, hbw⟩ := map_eq_ok.1 heffect
    cases hbw
    exact ⟨hw, h.refl _ w, hknows, fun f hf => h.read hw ((Query.answer_spec hb).2 f hf)⟩
  | commit statements =>
    obtain ⟨store, hstore, hbw⟩ := map_eq_ok.1 heffect
    cases hbw
    exact h.commit hS hlicit hw hx (hfault rfl) hknows hstore
  | changeIndex change =>
    obtain ⟨index, hindex, hbw⟩ := map_eq_ok.1 heffect
    cases hbw
    exact h.changeIndex hS hlicit hw hx (hfault rfl) hknows hindex
  | changeObjects change => cases heffect; exact h.changeObjects hS hlicit hw hx (hfault rfl) hknows
  | _ => cases heffect; exact hquiet

/-- The protocol supports the discipline of the services. -/
theorem supports (h : Obligations T S K) : Supports T.protocol (conduct S) K where
  stable _ f hf w w' hw hw' hrely hK := h.stable _ f hf w w' hw hw' hrely hK
  answers := answers_exec
  step := by
    intro β a x w hw hx hlicit hknows
    change T.inv (exec a x w).2 ∧ T.guar a w (exec a x w).2 ∧
      ∀ f ∈ a.knows ++ a.yields (exec a x w).1, K f (exec a x w).2
    obtain ⟨e, he⟩ | ⟨hfault, b, w', heffect, he | ⟨e, he⟩⟩ := exec_cases a x w
    · rw [he]
      exact ⟨hw, h.refl a w, List.forall_mem_append.2 ⟨hknows, by simp [Action.yields]⟩⟩
    · rw [he]
      have howes := h.owes hw hx hfault hlicit.1 hlicit.2 hknows heffect
      exact ⟨howes.inv, howes.guar, List.forall_mem_append.2 ⟨howes.knows, howes.facts⟩⟩
    · rw [he]
      have howes := h.owes hw hx hfault hlicit.1 hlicit.2 hknows heffect
      exact ⟨howes.inv, howes.guar, List.forall_mem_append.2 ⟨howes.knows, by simp [Action.yields]⟩⟩

variable {τ : Type} {settings : Settings} {commands : τ → Command}

/-- **Callers of any commands are sound** for a protocol that meets its obligations. -/
theorem sound (h : Obligations T S K) (hS : ∀ t task, (commands t).tasks task → S task)
    {w : World} (hw : T.inv w) : Protocol.Sound T.protocol (system settings commands w) :=
  h.supports.sound hw fun t => disciplined_service (hS t)

end Obligations

end Terms

/-! ## Conditions on the steps of a run -/

section Conditions

variable {τ : Type}

/-- Every step of the schedule that makes a call `a` with input `x` in the world `w` meets
`C a x w`. -/
def AtEachCall (C : ∀ ⦃β : Type⦄, Action β → Input → World → Prop)
    (cfg : Config Action Error Unit World τ) (t : τ) (x : Input) : Prop :=
  ∀ β (a : Action β) k, cfg.threads t = .call a k → C a x cfg.state

/-- For terms with one relation it is enough that the calls are allowed. -/
theorem coordinates_ofRelation {inv : World → Prop}
    {allow : ∀ ⦃β : Type⦄, Action β → Input → World → Prop} {R : World → World → Prop} :
    Protocol.Coordinates (Terms.ofRelation inv allow R).protocol
      (AtEachCall (τ := τ) allow) where
  allow hC ht := hC _ _ _ ht
  rely _ _ _ _ _ hguar := hguar

/-- The transaction that a service is about to run, with its label. -/
def transactionOf {α : Type} : Service α → Option (Task × List Fact × List Stmt)
  | .call ⟨task, knows, .commit statements⟩ _ => some (task, knows, statements)
  | _ => none

theorem exists_of_transactionOf {α : Type} {p : Service α} {task : Task} {knows : List Fact}
    {statements : List Stmt} (h : transactionOf p = some (task, knows, statements)) :
    ∃ rest, p = .call ⟨task, knows, .commit statements⟩ rest := by
  unfold transactionOf at h
  split at h
  · cases h
    exact ⟨_, rfl⟩
  · cases h

/-- The transaction of an obedient thread is in the catalogue. -/
theorem writes_of_transactionOf {cfg : Config Action Error Unit World τ} {t : τ}
    {S : Task → Prop} {task : Task} {knows : List Fact}
    {statements : List Stmt} (h : (conduct S).Obedient (cfg.threads t))
    (ht : transactionOf (cfg.threads t) = some (task, knows, statements)) :
    S task ∧ Writes task knows statements := by
  obtain ⟨rest, hrest⟩ := exists_of_transactionOf ht
  rw [hrest] at h
  exact h.licit

/-- A step leaves the store as it was, or it commits the transaction of its thread. -/
theorem store_step_cases [DecidableEq τ] (cfg : Config Action Error Unit World τ) (t : τ)
    (x : Input) :
    (cfg.step exec t x).state.store = cfg.state.store ∨
      ∃ task knows statements store,
        transactionOf (cfg.threads t) = some (task, knows, statements) ∧ x.fault = none ∧
          cfg.state.store.transact statements = .ok store ∧
          (cfg.step exec t x).state.store = store := by
  cases ht : cfg.threads t with
  | ret a => exact .inl (by rw [Config.step_finished (by rw [ht]; rfl)])
  | raise e => exact .inl (by rw [Config.step_finished (by rw [ht]; rfl)])
  | call a rest =>
    rw [Config.step_call ht]
    obtain ⟨task, knows, call⟩ := a
    cases call with
    | commit statements =>
      by_cases h : x.fault = none ∧ ∃ store, cfg.state.store.transact statements = .ok store
      · obtain ⟨hx, store, hst⟩ := h
        exact .inr ⟨task, knows, statements, store, rfl, hx, hst, by rw [exec_commit hx hst]⟩
      · obtain ⟨e, he⟩ : ∃ e, exec ⟨task, knows, .commit statements⟩ x cfg.state =
            (.error e, cfg.state) := exec_commit_of_not h
        exact .inl (by rw [he])
    | _ => exact .inl ((exec_frame _ x cfg.state).1 nofun)

variable [DecidableEq τ] {inv : World → Prop} {R : World → World → Prop}
  {allow : ∀ ⦃β : Type⦄, Action β → Input → World → Prop}
  {cfg : Config Action Error Unit World τ} {l : List (τ × Input)}

/-- The relation that every step keeps holds between the two ends of a run. -/
theorem relation_run (h : Protocol.Sound (Terms.ofRelation inv allow R).protocol cfg)
    (hrefl : ∀ w, R w w) (htrans : ∀ w₁ w₂ w₃, R w₁ w₂ → R w₂ w₃ → R w₁ w₃)
    (hl : cfg.Respects exec (AtEachCall allow) l) : R cfg.state (cfg.run exec l).state :=
  h.run_relation coordinates_ofRelation hrefl htrans (fun _ _ _ _ hR => hR) hl

/-- The invariant holds at the end of a run. -/
theorem invariant_run (h : Protocol.Sound (Terms.ofRelation inv allow R).protocol cfg)
    (hl : cfg.Respects exec (AtEachCall allow) l) : inv (cfg.run exec l).state :=
  (h.run coordinates_ofRelation hl).inv

end Conditions

end Knowledge
end RagflowAgent
