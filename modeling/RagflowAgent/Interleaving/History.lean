import RagflowAgent.Interleaving.Monitor

/-!
# Runs with a past

What a step means can depend on what has happened before: whether a permission was taken back
since it was read, whose write an answer was computed from.  The state does not say so.  A
*history* is a value that is carried along a schedule beside the configuration and never looked
at by the programs, so the run with a history is the run without it.

* `Config.recollect` is the history after a schedule;
* `Config.RespectsPast C` says that every step meets the condition `C`, which may look at the
  history and at the configuration the step starts from;
* `RespectsPast.of_invariant` proves a condition of every step from an invariant of histories
  and configurations, and `respectsPast_of_view` lets a proof remember more than the statement;
* `Monitor.WatchedPast.step` is the step lemma for invariants of conforming programs whose
  watchers are part of the history.
-/

namespace RagflowAgent
namespace Interleaving

variable {Cmd : Type → Type 1} {ε α ι σ τ η μ : Type}

namespace Config

variable [DecidableEq τ] (exec : ∀ ⦃β : Type⦄, Cmd β → ι → σ → Except ε β × σ)
  (record : η → Config Cmd ε α σ τ → τ → ι → η)

/-- The history after a schedule. -/
def recollect : η → Config Cmd ε α σ τ → List (τ × ι) → η
  | h, _, [] => h
  | h, cfg, (t, x) :: l => recollect (record h cfg t x) (cfg.step exec t x) l

/-- Every step of the schedule meets `C`, given what has happened before. -/
def RespectsPast (C : η → Config Cmd ε α σ τ → τ → ι → Prop) :
    η → Config Cmd ε α σ τ → List (τ × ι) → Prop
  | _, _, [] => True
  | h, cfg, (t, x) :: l => C h cfg t x ∧ RespectsPast C (record h cfg t x) (cfg.step exec t x) l

instance instDecidableRespectsPast {C : η → Config Cmd ε α σ τ → τ → ι → Prop}
    [∀ h cfg t x, Decidable (C h cfg t x)] :
    (h : η) → (cfg : Config Cmd ε α σ τ) → (l : List (τ × ι)) →
      Decidable (cfg.RespectsPast exec record C h l)
  | _, _, [] => isTrue trivial
  | h, cfg, (t, x) :: l =>
    have : Decidable ((cfg.step exec t x).RespectsPast exec record C (record h cfg t x) l) :=
      instDecidableRespectsPast _ _ l
    inferInstanceAs (Decidable (C h cfg t x ∧
      (cfg.step exec t x).RespectsPast exec record C (record h cfg t x) l))

variable {exec record} {C D : η → Config Cmd ε α σ τ → τ → ι → Prop}
  {P : η → Config Cmd ε α σ τ → Prop} {h : η} {cfg : Config Cmd ε α σ τ} {l : List (τ × ι)}

/-- **What an invariant implies at every step holds at every step.** -/
theorem RespectsPast.of_invariant (hl : cfg.RespectsPast exec record C h l)
    (hP : ∀ h cfg t x, P h cfg → C h cfg t x → P (record h cfg t x) (cfg.step exec t x))
    (hD : ∀ h cfg t x, P h cfg → C h cfg t x → D h cfg t x) (h0 : P h cfg) :
    cfg.RespectsPast exec record D h l := by
  induction l generalizing h cfg with
  | nil => trivial
  | cons tx l ih => exact ⟨hD _ _ _ _ h0 hl.1, ih hl.2 (hP _ _ _ _ h0 hl.1)⟩

/-- An invariant holds at the end. -/
theorem RespectsPast.invariant (hl : cfg.RespectsPast exec record C h l)
    (hP : ∀ h cfg t x, P h cfg → C h cfg t x → P (record h cfg t x) (cfg.step exec t x))
    (h0 : P h cfg) : P (cfg.recollect exec record h l) (cfg.run exec l) := by
  induction l generalizing h cfg with
  | nil => exact h0
  | cons tx l ih => exact ih hl.2 (hP _ _ _ _ h0 hl.1)

theorem respectsPast_append {l₁ l₂ : List (τ × ι)} :
    cfg.RespectsPast exec record C h (l₁ ++ l₂) ↔
      cfg.RespectsPast exec record C h l₁ ∧
        (cfg.run exec l₁).RespectsPast exec record C (cfg.recollect exec record h l₁) l₂ := by
  induction l₁ generalizing h cfg with
  | nil => simp [RespectsPast, recollect]
  | cons tx l₁ ih =>
    obtain ⟨t, x⟩ := tx
    simp only [List.cons_append, RespectsPast, recollect, run_cons, ih, and_assoc]

/-- A condition that does not look at the past is one that does. -/
theorem RespectsPast.and_respects {D : Config Cmd ε α σ τ → τ → ι → Prop}
    (hC : cfg.RespectsPast exec record C h l) (hD : cfg.Respects exec D l) :
    cfg.RespectsPast exec record (fun h cfg t x => C h cfg t x ∧ D cfg t x) h l := by
  induction l generalizing h cfg with
  | nil => trivial
  | cons tx l ih => exact ⟨⟨hC.1, hD.1⟩, ih hC.2 hD.2⟩

/-- What holds at every step whatever has happened before is respected. -/
theorem RespectsPast.respects {D : Config Cmd ε α σ τ → τ → ι → Prop}
    (hl : cfg.RespectsPast exec record (fun _ => D) h l) : cfg.Respects exec D l := by
  induction l generalizing h cfg with
  | nil => trivial
  | cons tx l ih => exact ⟨hl.1, ih hl.2⟩

/-- A condition of every step can be read as one that does not look at the past. -/
theorem Respects.respectsPast {D : Config Cmd ε α σ τ → τ → ι → Prop}
    (hl : cfg.Respects exec D l) : cfg.RespectsPast exec record (fun _ => D) h l := by
  induction l generalizing h cfg with
  | nil => trivial
  | cons tx l ih => exact ⟨hl.1, ih hl.2⟩

/-- A history may be told in more detail. -/
theorem respectsPast_of_view {η' : Type} {record' : η' → Config Cmd ε α σ τ → τ → ι → η'}
    {view : η' → η} (hview : ∀ h cfg t x, view (record' h cfg t x) = record (view h) cfg t x)
    {h : η'} : cfg.RespectsPast exec record C (view h) l ↔
      cfg.RespectsPast exec record' (fun h => C (view h)) h l := by
  induction l generalizing h cfg with
  | nil => exact Iff.rfl
  | cons tx l ih =>
    refine and_congr Iff.rfl ?_
    rw [← hview]
    exact ih

end Config

namespace Monitor

variable {M : Monitor Cmd ε μ} {exec : ∀ ⦃β : Type⦄, Cmd β → ι → σ → Except ε β × σ}
  {Q : τ → α → μ → Prop} {E : τ → ε → μ → Prop}

/-- The watchers are part of the history: every thread conforms in the state its watcher has
come to, and an invariant relates history and shared state. -/
structure WatchedPast (M : Monitor Cmd ε μ) (Q : τ → α → μ → Prop) (E : τ → ε → μ → Prop)
    (view : η → τ → μ) (I : η → σ → Prop) (h : η) (cfg : Config Cmd ε α σ τ) : Prop where
  inv : I h cfg.state
  conforms : ∀ t, M.Conforms (cfg.threads t) (Q t) (E t) (view h t)

variable [DecidableEq τ] {record : η → Config Cmd ε α σ τ → τ → ι → η} {view : η → τ → μ}
  {I : η → σ → Prop} {C : η → Config Cmd ε α σ τ → τ → ι → Prop} {h : η}
  {cfg : Config Cmd ε α σ τ} {t : τ} {x : ι}

/-- **A step of conforming programs.**  The record of a step moves the watchers on, and the
licit calls that meet the condition keep the invariant. -/
theorem WatchedPast.step (hw : M.WatchedPast Q E view I h cfg)
    (hfinished : (cfg.threads t).Finished → record h cfg t x = h)
    (hview : view (record h cfg t x) = M.watch exec cfg (view h) t x)
    (hI : ∀ {β : Type} (c : Cmd β) (k : Except ε β → Prog Cmd ε α), cfg.threads t = .call c k →
      M.licit (view h t) c → I (record h cfg t x) (exec c x cfg.state).2) :
    M.WatchedPast Q E view I (record h cfg t x) (cfg.step exec t x) := by
  have hconforms := hw.conforms t
  cases ht : cfg.threads t with
  | ret a =>
    have hend : (cfg.threads t).Finished := by rw [ht]; rfl
    rwa [Config.step_finished hend, hfinished hend]
  | raise e =>
    have hend : (cfg.threads t).Finished := by rw [ht]; rfl
    rwa [Config.step_finished hend, hfinished hend]
  | call c k =>
    rw [ht] at hconforms
    rw [watch_call ht] at hview
    rw [Config.step_call ht]
    refine ⟨hI c k ht hconforms.1, fun u => ?_⟩
    rw [hview]
    by_cases hu : u = t
    · subst hu
      simpa using hconforms.2 _
    · simpa [Function.update_of_ne hu] using hw.conforms u

end Monitor

end Interleaving
end RagflowAgent
