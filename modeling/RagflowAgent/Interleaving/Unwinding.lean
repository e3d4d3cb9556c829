import RagflowAgent.Interleaving.Discipline

/-!
# Domains that do not see each other

Every thread belongs to a domain, and every domain has a view of the shared state.  Suppose
that a call that is licit in one domain leaves the views of all others alone, and that its
answer and what it does to its own view depend on that view only.  Then a domain cannot tell
whether the others are there: what its threads do and what they see in a run is what they do
and see when the steps of all other threads are left out.

* `Unwinding` collects the conditions on single calls;
* `Alike` says that two configurations look the same to a domain;
* `alike_run_filter` is the theorem about runs.
-/

namespace RagflowAgent
namespace Interleaving

variable {Cmd : Type → Type 1} {ε α ι σ τ φ κ V : Type}

/-- The conditions on single calls: `L k` says which calls belong to the domain `k`, and `view k`
is what the domain sees of a state. -/
structure Unwinding (exec : ∀ ⦃β : Type⦄, Cmd β → ι → σ → Except ε β × σ)
    (L : κ → Discipline Cmd ε φ) (inv : σ → Prop) (view : κ → σ → V) : Prop where
  /-- Only possible answers are given. -/
  answers : ∀ {k β} {c : Cmd β} {s} x, inv s → (L k).licit c → (L k).answers c (exec c x s).1
  keeps : ∀ {k β} {c : Cmd β} {s} x, inv s → (L k).licit c → inv (exec c x s).2
  /-- A call does not change what the others see. -/
  respects : ∀ {j k β} {c : Cmd β} {s} x, inv s → (L k).licit c → j ≠ k →
    view j (exec c x s).2 = view j s
  /-- A call looks at its own view only. -/
  consistent : ∀ {k β} {c : Cmd β} {s s'} x, inv s → inv s' → (L k).licit c →
    view k s = view k s' →
      (exec c x s).1 = (exec c x s').1 ∧ view k (exec c x s).2 = view k (exec c x s').2

section Configurations

variable (L : κ → Discipline Cmd ε φ) (inv : σ → Prop) (view : κ → σ → V) (domain : τ → κ)

/-- Every thread keeps to its domain. -/
structure Separate (cfg : Config Cmd ε α σ τ) : Prop where
  inv : inv cfg.state
  obedient : ∀ t, (L (domain t)).Obedient (cfg.threads t)

/-- Two configurations that the domain `k` cannot tell apart. -/
structure Alike (k : κ) (cfg cfg' : Config Cmd ε α σ τ) : Prop where
  view : view k cfg.state = view k cfg'.state
  threads : ∀ t, domain t = k → cfg.threads t = cfg'.threads t

theorem Alike.refl (k : κ) (cfg : Config Cmd ε α σ τ) : Alike view domain k cfg cfg :=
  ⟨rfl, fun _ _ => rfl⟩

end Configurations

namespace Unwinding

variable [DecidableEq τ] {exec : ∀ ⦃β : Type⦄, Cmd β → ι → σ → Except ε β × σ}
  {L : κ → Discipline Cmd ε φ} {inv : σ → Prop} {view : κ → σ → V} {domain : τ → κ}
  {cfg cfg' : Config Cmd ε α σ τ} {k : κ} {t : τ}

/-- Threads stay in their domains. -/
theorem separate_step (hU : Unwinding exec L inv view) (h : Separate L inv domain cfg) (t : τ)
    (x : ι) : Separate L inv domain (cfg.step exec t x) := by
  cases ht : cfg.threads t with
  | ret a => rwa [Config.step_finished (by rw [ht]; rfl)]
  | raise e => rwa [Config.step_finished (by rw [ht]; rfl)]
  | call c k =>
    rw [Config.step_call ht]
    have hobedient : (L (domain t)).Obedient (.call c k) := ht ▸ h.obedient t
    refine ⟨hU.keeps x h.inv hobedient.licit, fun u => ?_⟩
    by_cases hu : u = t
    · subst hu
      simpa using hobedient.resume (hU.answers x h.inv hobedient.licit)
    · simpa [Function.update_of_ne hu] using h.obedient u

/-- The step of another domain is not seen. -/
theorem alike_step_left (hU : Unwinding exec L inv view) (h : Separate L inv domain cfg)
    (halike : Alike view domain k cfg cfg') (ht : domain t ≠ k) (x : ι) :
    Alike view domain k (cfg.step exec t x) cfg' := by
  cases hthread : cfg.threads t with
  | ret a => rwa [Config.step_finished (by rw [hthread]; rfl)]
  | raise e => rwa [Config.step_finished (by rw [hthread]; rfl)]
  | call c rest =>
    rw [Config.step_call hthread]
    have hobedient : (L (domain t)).Obedient (.call c rest) := hthread ▸ h.obedient t
    refine ⟨(hU.respects x h.inv hobedient.licit ht.symm).trans halike.view, fun u hu => ?_⟩
    have hne : u ≠ t := by
      rintro rfl
      exact ht hu
    simpa [Function.update_of_ne hne] using halike.threads u hu

/-- A step of the domain itself goes the same way in both. -/
theorem alike_step (hU : Unwinding exec L inv view) (h : Separate L inv domain cfg)
    (h' : Separate L inv domain cfg') (halike : Alike view domain k cfg cfg')
    (ht : domain t = k) (x : ι) :
    Alike view domain k (cfg.step exec t x) (cfg'.step exec t x) := by
  have hsame := halike.threads t ht
  cases hthread : cfg.threads t with
  | ret a =>
    rw [Config.step_finished (by rw [hthread]; rfl),
      Config.step_finished (by rw [← hsame, hthread]; rfl)]
    exact halike
  | raise e =>
    rw [Config.step_finished (by rw [hthread]; rfl),
      Config.step_finished (by rw [← hsame, hthread]; rfl)]
    exact halike
  | call c rest =>
    have hthread' : cfg'.threads t = .call c rest := hsame.symm.trans hthread
    have hlicit : (L k).licit c := by
      have hobedient : (L (domain t)).Obedient (.call c rest) := hthread ▸ h.obedient t
      exact ht ▸ hobedient.licit
    obtain ⟨hanswer, hview⟩ := hU.consistent x h.inv h'.inv hlicit halike.view
    rw [Config.step_call hthread, Config.step_call hthread']
    refine ⟨hview, fun u hu => ?_⟩
    by_cases hne : u = t
    · subst hne
      simp [hanswer]
    · simpa [Function.update_of_ne hne] using halike.threads u hu

/-- **The other domains might as well not be there.**  What a domain sees and does in a run is what
it sees and does when the steps of all other threads are left out. -/
theorem alike_run_filter [DecidableEq κ] (hU : Unwinding exec L inv view)
    (h : Separate L inv domain cfg) (h' : Separate L inv domain cfg')
    (halike : Alike view domain k cfg cfg') (l : List (τ × ι)) :
    Alike view domain k (cfg.run exec l)
      (cfg'.run exec (l.filter fun step => domain step.1 = k)) := by
  induction l generalizing cfg cfg' with
  | nil => exact halike
  | cons step l ih =>
    obtain ⟨t, x⟩ := step
    by_cases ht : domain t = k
    · rw [List.filter_cons_of_pos (by simpa using ht)]
      exact ih (hU.separate_step h t x) (hU.separate_step h' t x)
        (hU.alike_step h h' halike ht x)
    · rw [List.filter_cons_of_neg (by simpa using ht)]
      exact ih (hU.separate_step h t x) h' (hU.alike_step_left h halike ht x)

end Unwinding

end Interleaving
end RagflowAgent
