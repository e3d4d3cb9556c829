import Mathlib.Data.List.Induction
import Mathlib.Data.List.Infix
import Mathlib.Logic.Function.Basic
import RagflowAgent.Interleaving.Program

/-!
# Interleaved runs

Any number of programs share one state.  A scheduler picks a thread, the thread's
pending call is answered, and the thread runs on to its next call: one call is one
atomic step.  A thread that is never picked again has crashed or is slow; nobody can
tell, and nothing here distinguishes them.

* `Config` is the shared state with the residual program of every thread;
* `Config.step` and `Config.run` execute a schedule, a list of picked threads with
  the inputs that settle their calls, and they are functions, so a concrete run can
  be evaluated;
* `Config.Respects C` says that every step of a schedule meets the condition `C`,
  which may look at the whole configuration the step starts from;
* `Config.Happens E` and `Config.AtMostOnce E` speak of the steps at which `E` happens.
-/

namespace RagflowAgent
namespace Interleaving

variable {Cmd : Type → Type 1} {ε α ι σ τ : Type}

/-- The shared state and what is left of every thread. -/
structure Config (Cmd : Type → Type 1) (ε α σ τ : Type) where
  state : σ
  threads : τ → Prog Cmd ε α

namespace Config

variable [DecidableEq τ] (exec : ∀ ⦃β : Type⦄, Cmd β → ι → σ → Except ε β × σ)

/-- Thread `t` makes its pending call, answered with input `x`. -/
def step (cfg : Config Cmd ε α σ τ) (t : τ) (x : ι) : Config Cmd ε α σ τ :=
  let r := (cfg.threads t).resume exec x cfg.state
  ⟨r.2, Function.update cfg.threads t r.1⟩

/-- Execute a schedule. -/
def run (cfg : Config Cmd ε α σ τ) : List (τ × ι) → Config Cmd ε α σ τ
  | [] => cfg
  | (t, x) :: l => run (cfg.step exec t x) l

/-- Every step of the schedule meets `C` in the configuration it starts from. -/
def Respects (C : Config Cmd ε α σ τ → τ → ι → Prop) :
    Config Cmd ε α σ τ → List (τ × ι) → Prop
  | _, [] => True
  | cfg, (t, x) :: l => C cfg t x ∧ Respects C (cfg.step exec t x) l

instance instDecidableRespects {C : Config Cmd ε α σ τ → τ → ι → Prop}
    [∀ cfg t x, Decidable (C cfg t x)] :
    (cfg : Config Cmd ε α σ τ) → (l : List (τ × ι)) → Decidable (cfg.Respects exec C l)
  | _, [] => isTrue trivial
  | cfg, (t, x) :: l =>
    have : Decidable ((cfg.step exec t x).Respects exec C l) := instDecidableRespects _ l
    inferInstanceAs (Decidable (C cfg t x ∧ (cfg.step exec t x).Respects exec C l))

variable {exec}

@[simp] theorem run_nil (cfg : Config Cmd ε α σ τ) : cfg.run exec [] = cfg := rfl

@[simp] theorem run_cons (cfg : Config Cmd ε α σ τ) (t : τ) (x : ι) (l : List (τ × ι)) :
    cfg.run exec ((t, x) :: l) = (cfg.step exec t x).run exec l := rfl

theorem run_append (cfg : Config Cmd ε α σ τ) (l₁ l₂ : List (τ × ι)) :
    cfg.run exec (l₁ ++ l₂) = (cfg.run exec l₁).run exec l₂ := by
  induction l₁ generalizing cfg with
  | nil => rfl
  | cons tx l₁ ih => exact ih _

/-- A step of a thread that waits on a call. -/
theorem step_call {cfg : Config Cmd ε α σ τ} {t : τ} {x : ι} {β : Type} {c : Cmd β}
    {k : Except ε β → Prog Cmd ε α} (ht : cfg.threads t = .call c k) :
    cfg.step exec t x = ⟨(exec c x cfg.state).2,
      Function.update cfg.threads t (k (exec c x cfg.state).1)⟩ := by
  simp only [Config.step, ht, Prog.resume]

/-- A step of a finished thread changes nothing. -/
theorem step_finished {cfg : Config Cmd ε α σ τ} {t : τ} {x : ι}
    (ht : (cfg.threads t).Finished) : cfg.step exec t x = cfg := by
  obtain ⟨s, threads⟩ := cfg
  have hresume : (threads t).resume exec x s = (threads t, s) := by
    cases hp : threads t with
    | ret a => rfl
    | raise e => rfl
    | call c k => simp [Prog.Finished, hp, Prog.pending] at ht
  rw [step]
  simp only [hresume, Function.update_eq_self]

variable {C : Config Cmd ε α σ τ → τ → ι → Prop}

theorem respects_append {cfg : Config Cmd ε α σ τ} {l₁ l₂ : List (τ × ι)} :
    cfg.Respects exec C (l₁ ++ l₂) ↔
      cfg.Respects exec C l₁ ∧ (cfg.run exec l₁).Respects exec C l₂ := by
  induction l₁ generalizing cfg with
  | nil => simp [Respects]
  | cons tx l₁ ih =>
    obtain ⟨t, x⟩ := tx
    simp only [List.cons_append, Respects, ih, run_cons, and_assoc]

/-- A condition may be weakened at the steps that a schedule has. -/
theorem Respects.mono_of_mem {C' : Config Cmd ε α σ τ → τ → ι → Prop}
    {cfg : Config Cmd ε α σ τ} {l : List (τ × ι)}
    (hC : ∀ cfg t x, (t, x) ∈ l → C cfg t x → C' cfg t x) (h : cfg.Respects exec C l) :
    cfg.Respects exec C' l := by
  induction l generalizing cfg with
  | nil => trivial
  | cons tx l ih =>
    refine ⟨hC _ _ _ List.mem_cons_self h.1, ih (fun cfg t x hmem => ?_) h.2⟩
    exact hC cfg t x (List.mem_cons_of_mem tx hmem)

/-- A configuration that every step of a schedule keeps is kept by the schedule. -/
theorem Respects.invariant {P : Config Cmd ε α σ τ → Prop}
    (hP : ∀ cfg t x, P cfg → C cfg t x → P (cfg.step exec t x))
    {cfg : Config Cmd ε α σ τ} {l : List (τ × ι)} (h : cfg.Respects exec C l) (h0 : P cfg) :
    P (cfg.run exec l) := by
  induction l generalizing cfg with
  | nil => exact h0
  | cons tx l ih => exact ih h.2 (hP _ _ _ h0 h.1)

/-- What is respected by a schedule is respected by its beginnings. -/
theorem Respects.of_prefix {cfg : Config Cmd ε α σ τ} {l m : List (τ × ι)}
    (h : cfg.Respects exec C l) (hm : m <+: l) : cfg.Respects exec C m := by
  obtain ⟨rest, rfl⟩ := hm
  exact (respects_append.1 h).1

/-- A condition that every step must meet to end where `P` holds is respected by every
schedule that passes through `P` only. -/
theorem respects_of_forall_prefix {P I : Config Cmd ε α σ τ → Prop}
    (hI : ∀ cfg t x, I cfg → I (cfg.step exec t x))
    (hC : ∀ cfg t x, I cfg → P (cfg.step exec t x) → C cfg t x)
    {cfg : Config Cmd ε α σ τ} {l : List (τ × ι)} (h0 : I cfg)
    (h : ∀ m, m <+: l → P (cfg.run exec m)) : cfg.Respects exec C l := by
  induction l generalizing cfg with
  | nil => trivial
  | cons tx l ih =>
    obtain ⟨t, x⟩ := tx
    have hstep : P (cfg.step exec t x) := h [(t, x)] (by simp)
    refine ⟨hC cfg t x h0 hstep, ih (hI cfg t x h0) fun m hm => ?_⟩
    exact h ((t, x) :: m) (List.cons_prefix_cons.2 ⟨rfl, hm⟩)

/-- Conditions that agree wherever an invariant holds are respected by the same schedules. -/
theorem respects_congr {C' : Config Cmd ε α σ τ → τ → ι → Prop}
    {P : Config Cmd ε α σ τ → Prop} (hP : ∀ cfg t x, P cfg → P (cfg.step exec t x))
    (hC : ∀ cfg t x, P cfg → (C cfg t x ↔ C' cfg t x)) {cfg : Config Cmd ε α σ τ}
    {l : List (τ × ι)} (h0 : P cfg) : cfg.Respects exec C l ↔ cfg.Respects exec C' l := by
  induction l generalizing cfg with
  | nil => exact Iff.rfl
  | cons tx l ih => exact and_congr (hC _ _ _ h0) (ih (hP _ _ _ h0))

/-! ## Events of a run -/

variable (exec) in
/-- `E` happens in the schedule `l` at the step that follows `m`. -/
def Happens (E : Config Cmd ε α σ τ → τ → ι → Prop) (cfg : Config Cmd ε α σ τ)
    (l m : List (τ × ι)) : Prop :=
  ∃ t x, m ++ [(t, x)] <+: l ∧ E (cfg.run exec m) t x

variable (exec) in
/-- `E` happens at one step of the schedule `l` at most. -/
def AtMostOnce (E : Config Cmd ε α σ τ → τ → ι → Prop) (cfg : Config Cmd ε α σ τ)
    (l : List (τ × ι)) : Prop :=
  ∀ m m', cfg.Happens exec E l m → cfg.Happens exec E l m' → m = m'

/-- The configuration after one more step. -/
theorem run_concat (cfg : Config Cmd ε α σ τ) (m : List (τ × ι)) (t : τ) (x : ι) :
    cfg.run exec (m ++ [(t, x)]) = (cfg.run exec m).step exec t x := by
  rw [run_append]
  rfl

/-- **What becomes true in a run becomes true at a step.** -/
theorem exists_switch {P : Config Cmd ε α σ τ → Prop} {cfg : Config Cmd ε α σ τ}
    {l : List (τ × ι)} (h0 : ¬ P cfg) (h : P (cfg.run exec l)) :
    ∃ m t x, m ++ [(t, x)] <+: l ∧ ¬ P (cfg.run exec m) ∧
      P ((cfg.run exec m).step exec t x) := by
  induction l generalizing cfg with
  | nil => exact absurd h h0
  | cons tx l ih =>
    obtain ⟨t, x⟩ := tx
    by_cases hstep : P (cfg.step exec t x)
    · exact ⟨[], t, x, by simp, h0, hstep⟩
    · obtain ⟨m, u, y, hm, hbefore, hafter⟩ := ih hstep h
      exact ⟨(t, x) :: m, u, y, List.cons_prefix_cons.2 ⟨rfl, hm⟩, hbefore, hafter⟩

/-- An event that needs something undone, and does it for good, happens once at most. -/
theorem atMostOnce_of_done {E : Config Cmd ε α σ τ → τ → ι → Prop}
    {cfg : Config Cmd ε α σ τ} {l : List (τ × ι)} {D : List (τ × ι) → Prop}
    (hdone : ∀ m t x, m ++ [(t, x)] <+: l → D m → D (m ++ [(t, x)]))
    (hE : ∀ m t x, m ++ [(t, x)] <+: l → E (cfg.run exec m) t x →
      ¬ D m ∧ D (m ++ [(t, x)])) : cfg.AtMostOnce exec E l := by
  -- what is done after `m` is done after every longer beginning of the schedule
  have hlater : ∀ m r, m ++ r <+: l → D m → D (m ++ r) := by
    intro m r
    induction r using List.reverseRecOn with
    | nil => intro _ h; simpa using h
    | append_singleton r tx ih =>
      intro hr h
      obtain ⟨t, x⟩ := tx
      rw [← List.append_assoc] at hr ⊢
      exact hdone _ t x hr (ih ((List.prefix_append _ _).trans hr) h)
  -- so two events cannot stand one after the other
  have hle : ∀ m m', cfg.Happens exec E l m → cfg.Happens exec E l m' →
      m.length ≤ m'.length → m = m' := by
    rintro m m' ⟨t, x, hm, hE₁⟩ ⟨u, y, hm', hE₂⟩ hlen
    have hpre : m <+: m' := List.prefix_of_prefix_length_le ((List.prefix_append _ _).trans hm)
      ((List.prefix_append _ _).trans hm') hlen
    rcases Nat.lt_or_ge m.length m'.length with hlt | hge
    · have hstep : m ++ [(t, x)] <+: m' := List.prefix_of_prefix_length_le hm
        ((List.prefix_append _ _).trans hm') (by simpa using Nat.succ_le_of_lt hlt)
      obtain ⟨r, rfl⟩ := hstep
      have hdone' := hlater _ r ((List.prefix_append _ _).trans hm') (hE m t x hm hE₁).2
      exact absurd hdone' (hE _ u y hm' hE₂).1
    · exact hpre.eq_of_length (le_antisymm hlen hge)
  intro m m' h h'
  rcases Nat.le_total m.length m'.length with hlen | hlen
  · exact hle m m' h h' hlen
  · exact (hle m' m h' h hlen).symm

end Config

end Interleaving
end RagflowAgent
