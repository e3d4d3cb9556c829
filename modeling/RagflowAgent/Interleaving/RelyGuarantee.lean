import Mathlib.Logic.Relation
import RagflowAgent.Interleaving.Run

/-!
# Rely and guarantee

How to prove something about every interleaved run while looking at one program at a
time.  A `Protocol` fixes, for one shared state, an invariant, what a call may assume
of the state it is allowed in, what every call *guarantees* about its step, and what
a thread may *rely* on about the steps of the others.  The rely may depend on the call
the thread is waiting on: a thread in a critical section may rely on more.

`Protocol.Safe D p Q s` says that `p`, started in `s` and interrupted at every call by
any number of steps it may rely on, makes only calls that keep the guarantee, and that
`Q` holds when it finishes.  It is defined by recursion on the program, so it is proved
by walking down the program text with `Safe.call`, `safe_bind` and `safe_attempt`.
What a thread knows between two calls is a predicate on the shared state which has to
be `Stable`: kept by every step the thread relies on.

`Sound.run` is the rule the walks are for.  If every thread of a configuration is safe,
and every allowed step keeps its guarantee within what the other threads rely on, then
in every run the invariant holds and every step keeps its guarantee.
-/

namespace RagflowAgent
namespace Interleaving

variable {Cmd : Type → Type 1} {ε α γ ι σ τ : Type}

/-- The terms on which programs share a state. -/
structure Protocol (Cmd : Type → Type 1) (ε ι σ : Type) where
  /-- How calls are answered. -/
  exec : ∀ ⦃β : Type⦄, Cmd β → ι → σ → Except ε β × σ
  /-- The invariant of the shared state. -/
  inv : σ → Prop
  /-- Which calls are allowed, with which inputs, in which states. -/
  allow : ∀ ⦃β : Type⦄, Cmd β → ι → σ → Prop
  /-- What a call guarantees about the step it makes. -/
  guar : ∀ ⦃β : Type⦄, Cmd β → ι → σ → σ → Prop
  /-- What a thread waiting on a call relies on about a step of another thread. -/
  rely : ∀ ⦃β : Type⦄, Cmd β → σ → σ → Prop

namespace Protocol

variable (D : Protocol Cmd ε ι σ)

/-- A step of another thread, as seen by a thread waiting on `c`. -/
def Env {β : Type} (c : Cmd β) (s s' : σ) : Prop := D.rely c s s' ∧ D.inv s'

/-- `P` survives the others while this thread waits on `c`. -/
def Stable {β : Type} (c : Cmd β) (P : σ → Prop) : Prop :=
  ∀ s s', D.inv s → D.inv s' → D.rely c s s' → P s → P s'

/-- `p` keeps the guarantee whatever the others do within the rely; `Q` holds when it
returns and `E` when it raises. -/
def Safe : Prog Cmd ε α → (α → σ → Prop) → (ε → σ → Prop) → σ → Prop
  | .ret a, Q, _, s => Q a s
  | .raise e, _, E, s => E e s
  | .call c k, Q, E, s => ∀ s₁, Relation.ReflTransGen (D.Env c) s s₁ → ∀ x, D.allow c x s₁ →
      D.inv (D.exec c x s₁).2 ∧ D.guar c x s₁ (D.exec c x s₁).2 ∧
        Safe (k (D.exec c x s₁).1) Q E (D.exec c x s₁).2

variable {D} {Q : α → σ → Prop} {E : ε → σ → Prop} {s : σ}

/-- What is stable survives any number of steps of the others. -/
theorem Stable.env {β : Type} {c : Cmd β} {P : σ → Prop} (hP : D.Stable c P) {s₁ : σ}
    (h : Relation.ReflTransGen (D.Env c) s s₁) (hs : D.inv s) (hp : P s) :
    D.inv s₁ ∧ P s₁ := by
  induction h with
  | refl => exact ⟨hs, hp⟩
  | tail _ hstep ih => exact ⟨hstep.2, hP _ _ ih.1 hstep.2 hstep.1 ih.2⟩

theorem Stable.and {β : Type} {c : Cmd β} {P P' : σ → Prop} (hP : D.Stable c P)
    (hP' : D.Stable c P') : D.Stable c fun s => P s ∧ P' s :=
  fun s s' hs hs' hr h => ⟨hP s s' hs hs' hr h.1, hP' s s' hs hs' hr h.2⟩

theorem stable_true {β : Type} (c : Cmd β) : D.Stable c fun _ => True :=
  fun _ _ _ _ _ _ => trivial

/-! ## The rules -/

/-- **The call rule.**  What is stable while the thread waits is known when the call is
made; the call keeps invariant and guarantee, and the rest is safe. -/
theorem Safe.call {β : Type} {c : Cmd β} {k : Except ε β → Prog Cmd ε α} {P : σ → Prop}
    (hP : D.Stable c P) (hs : D.inv s) (hp : P s)
    (hstep : ∀ s₁ x, D.inv s₁ → P s₁ → D.allow c x s₁ →
      D.inv (D.exec c x s₁).2 ∧ D.guar c x s₁ (D.exec c x s₁).2 ∧
        D.Safe (k (D.exec c x s₁).1) Q E (D.exec c x s₁).2) :
    D.Safe (.call c k) Q E s := by
  intro s₁ h x hx
  obtain ⟨hs₁, hp₁⟩ := hP.env h hs hp
  exact hstep s₁ x hs₁ hp₁ hx

theorem Safe.mono {p : Prog Cmd ε α} {Q' : α → σ → Prop} {E' : ε → σ → Prop}
    (h : D.Safe p Q E s) (hQ : ∀ a s', Q a s' → Q' a s') (hE : ∀ e s', E e s' → E' e s') :
    D.Safe p Q' E' s := by
  induction p generalizing s with
  | ret a => exact hQ _ _ h
  | raise e => exact hE _ _ h
  | call c k ih =>
    intro s₁ hs₁ x hx
    obtain ⟨h1, h2, h3⟩ := h s₁ hs₁ x hx
    exact ⟨h1, h2, ih _ h3⟩

/-- Sequencing: what the first program establishes is where the second one starts. -/
theorem safe_bind {p : Prog Cmd ε α} {f : α → Prog Cmd ε γ} {Q : γ → σ → Prop}
    {R : α → σ → Prop} (hs : D.inv s) (hp : D.Safe p R E s)
    (hf : ∀ a s', D.inv s' → R a s' → D.Safe (f a) Q E s') : D.Safe (p.bind f) Q E s := by
  induction p generalizing s with
  | ret a => exact hf a s hs hp
  | raise e => exact hp
  | call c k ih =>
    intro s₁ hs₁ x hx
    obtain ⟨h1, h2, h3⟩ := hp s₁ hs₁ x hx
    exact ⟨h1, h2, ih _ h1 h3⟩

/-- A handler starts where the guarded program raised. -/
theorem safe_attempt {p : Prog Cmd ε α} {h : ε → Prog Cmd ε α} {R : ε → σ → Prop}
    (hs : D.inv s) (hp : D.Safe p Q R s)
    (hh : ∀ e s', D.inv s' → R e s' → D.Safe (h e) Q E s') : D.Safe (p.attempt h) Q E s := by
  induction p generalizing s with
  | ret a => exact hp
  | raise e => exact hh e s hs hp
  | call c k ih =>
    intro s₁ hs₁ x hx
    obtain ⟨h1, h2, h3⟩ := hp s₁ hs₁ x hx
    exact ⟨h1, h2, ih _ h1 h3⟩

/-- A pure computation makes no call. -/
theorem safe_ofExcept {r : Except ε α} (hok : ∀ a, r = .ok a → Q a s)
    (herr : ∀ e, r = .error e → E e s) : D.Safe (Prog.ofExcept r) Q E s := by
  cases r with
  | ok a => exact hok a rfl
  | error e => exact herr e rfl

theorem safe_raiseWhen {p : Prop} [Decidable p] {e : ε} {Q : Unit → σ → Prop}
    (herr : p → E e s) (hok : ¬ p → Q () s) : D.Safe (Prog.raiseWhen p e) Q E s := by
  unfold Prog.raiseWhen
  split
  · exact herr ‹_›
  · exact hok ‹_›

/-- A loop keeps what each round keeps; a round may raise out of it. -/
theorem safe_forEach {l : List γ} {f : γ → Prog Cmd ε Unit} {I : σ → Prop}
    (hf : ∀ a ∈ l, ∀ s, D.inv s → I s → D.Safe (f a) (fun _ => I) E s)
    (hs : D.inv s) (hI : I s) : D.Safe (Prog.forEach l f) (fun _ => I) E s := by
  induction l generalizing s with
  | nil => exact hI
  | cons a l ih =>
    refine safe_bind hs (hf a List.mem_cons_self s hs hI) fun _ s' hs' hI' => ?_
    exact ih (fun b hb => hf b (List.mem_cons_of_mem a hb)) hs' hI'

/-! ## Soundness for runs -/

/-- Every thread of the configuration is safe. -/
structure Sound (D : Protocol Cmd ε ι σ) (cfg : Config Cmd ε α σ τ) : Prop where
  inv : D.inv cfg.state
  safe : ∀ t, D.Safe (cfg.threads t) (fun _ _ => True) (fun _ _ => True) cfg.state

/-- The step condition `C` coordinates the threads: it allows the call that is made,
and the guarantee of that call is within what every other thread relies on. -/
structure Coordinates (D : Protocol Cmd ε ι σ) (C : Config Cmd ε α σ τ → τ → ι → Prop) :
    Prop where
  allow : ∀ {cfg t x β} {c : Cmd β} {k}, C cfg t x → cfg.threads t = .call c k →
    D.allow c x cfg.state
  rely : ∀ {cfg t x β} {c : Cmd β} {k} {u β'} {c' : Cmd β'} {k'}, C cfg t x →
    cfg.threads t = .call c k → u ≠ t → cfg.threads u = .call c' k' →
    D.inv cfg.state → D.guar c x cfg.state (D.exec c x cfg.state).2 →
    D.rely c' cfg.state (D.exec c x cfg.state).2

variable {C : Config Cmd ε α σ τ → τ → ι → Prop} {cfg : Config Cmd ε α σ τ} {t : τ} {x : ι}

/-- An allowed step keeps its guarantee. -/
theorem Sound.guar (h : Sound D cfg) (hC : Coordinates D C) (hx : C cfg t x) {β : Type}
    {c : Cmd β} {k : Except ε β → Prog Cmd ε α} (ht : cfg.threads t = .call c k) :
    D.guar c x cfg.state (D.exec c x cfg.state).2 := by
  have hsafe := h.safe t
  rw [ht] at hsafe
  exact (hsafe cfg.state .refl x (hC.allow hx ht)).2.1

variable [DecidableEq τ]

/-- An allowed step leaves every thread safe: the thread that moved by what it walked
through, the others because they rely on it. -/
theorem Sound.step (h : Sound D cfg) (hC : Coordinates D C) (hx : C cfg t x) :
    Sound D (cfg.step D.exec t x) := by
  have hsafe := h.safe t
  cases ht : cfg.threads t with
  | ret a => rwa [Config.step_finished (by rw [ht]; rfl)]
  | raise e => rwa [Config.step_finished (by rw [ht]; rfl)]
  | call c k =>
    rw [ht] at hsafe
    obtain ⟨hinv, hguar, hrest⟩ := hsafe cfg.state .refl x (hC.allow hx ht)
    rw [Config.step_call ht]
    refine ⟨hinv, fun u => ?_⟩
    by_cases hu : u = t
    · subst hu
      simpa using hrest
    · dsimp only
      rw [Function.update_of_ne hu]
      have hother := h.safe u
      cases hu' : cfg.threads u with
      | ret a => trivial
      | raise e => trivial
      | call c' k' =>
        rw [hu'] at hother
        have henv : D.Env c' cfg.state (D.exec c x cfg.state).2 :=
          ⟨hC.rely hx ht hu hu' h.inv hguar, hinv⟩
        exact fun s₁ hs₁ => hother s₁ (.head henv hs₁)

/-- **Rely and guarantee, for runs.**  From a configuration of safe threads every
schedule whose steps are allowed leads to a configuration of safe threads. -/
theorem Sound.run (h : Sound D cfg) (hC : Coordinates D C) {l : List (τ × ι)}
    (hl : cfg.Respects D.exec C l) : Sound D (cfg.run D.exec l) :=
  hl.invariant (fun _ _ _ hs hx => hs.step hC hx) h

/-- What every guarantee implies holds between the two ends of a run. -/
theorem Sound.run_relation {R : σ → σ → Prop} (h : Sound D cfg) (hC : Coordinates D C)
    (hrefl : ∀ s, R s s) (htrans : ∀ s₁ s₂ s₃, R s₁ s₂ → R s₂ s₃ → R s₁ s₃)
    (hguar : ∀ {β} (c : Cmd β) x s s', D.guar c x s s' → R s s') {l : List (τ × ι)}
    (hl : cfg.Respects D.exec C l) : R cfg.state (cfg.run D.exec l).state := by
  induction l generalizing cfg with
  | nil => exact hrefl _
  | cons tx l ih =>
    obtain ⟨t, x⟩ := tx
    refine htrans _ _ _ ?_ (ih (h.step hC hl.1) hl.2)
    cases ht : cfg.threads t with
    | ret a => rw [Config.step_finished (by rw [ht]; rfl)]; exact hrefl _
    | raise e => rw [Config.step_finished (by rw [ht]; rfl)]; exact hrefl _
    | call c k =>
      rw [Config.step_call ht]
      exact hguar c x _ _ (h.guar hC hl.1 ht)

end Protocol

end Interleaving
end RagflowAgent
