import RagflowAgent.Interleaving.Run

/-!
# Watching the threads

A `Monitor` follows one thread from call to call.  It has a state of its own, it says which
calls are licit in that state, and every answer moves it on.  What the threads do with the
shared state is then an invariant that relates the states of all watchers with the shared
state: `Monitor.Kept` says that a licit call keeps it, whoever makes the call.

* `Monitor.Conforms` checks a program against a monitor, by recursion on its text, and has
  a rule for every way to build a program;
* `Monitor.observe` gives the watchers' states after a schedule;
* `Monitor.Watched.run` carries a kept invariant through every run of conforming programs, and
  `Monitor.Watched.run_when` through the runs whose steps meet a condition.

The watchers see nothing but the calls and answers of their own thread, so a run with
watchers is the run without them.
-/

namespace RagflowAgent
namespace Interleaving

variable {Cmd : Type → Type 1} {ε α γ ι σ τ μ : Type}

/-- A watcher of one thread, with states in `μ`. -/
structure Monitor (Cmd : Type → Type 1) (ε μ : Type) where
  /-- The calls the thread may make. -/
  licit : μ → ∀ ⦃β : Type⦄, Cmd β → Prop
  /-- The state after a call was answered. -/
  next : μ → ∀ ⦃β : Type⦄, Cmd β → Except ε β → μ

namespace Monitor

variable (M : Monitor Cmd ε μ)

/-- Every call of the program is licit when it is made.  `Q` holds of what it returns and the
state of the watcher then, `E` of what it raises. -/
def Conforms : Prog Cmd ε α → (α → μ → Prop) → (ε → μ → Prop) → μ → Prop
  | .ret a, Q, _, m => Q a m
  | .raise e, _, E, m => E e m
  | .call c k, Q, E, m => M.licit m c ∧ ∀ r, Conforms (k r) Q E (M.next m c r)

variable {M} {Q : α → μ → Prop} {E : ε → μ → Prop} {m : μ}

theorem Conforms.mono {p : Prog Cmd ε α} {Q' : α → μ → Prop} {E' : ε → μ → Prop}
    (h : M.Conforms p Q E m) (hQ : ∀ a m', Q a m' → Q' a m') (hE : ∀ e m', E e m' → E' e m') :
    M.Conforms p Q' E' m := by
  induction p generalizing m with
  | ret a => exact hQ _ _ h
  | raise e => exact hE _ _ h
  | call c k ih => exact ⟨h.1, fun r => ih r (h.2 r)⟩

/-- One call whose error is raised. -/
theorem conforms_perform {c : Cmd α} (hc : M.licit m c)
    (hok : ∀ a, Q a (M.next m c (.ok a))) (herr : ∀ e, E e (M.next m c (.error e))) :
    M.Conforms (Prog.perform c) Q E m := by
  refine ⟨hc, fun r => ?_⟩
  cases r with
  | ok a => exact hok a
  | error e => exact herr e

theorem conforms_bind {p : Prog Cmd ε α} {f : α → Prog Cmd ε γ} {Q : γ → μ → Prop}
    {R : α → μ → Prop} (hp : M.Conforms p R E m)
    (hf : ∀ a m', R a m' → M.Conforms (f a) Q E m') : M.Conforms (p.bind f) Q E m := by
  induction p generalizing m with
  | ret a => exact hf a m hp
  | raise e => exact hp
  | call c k ih => exact ⟨hp.1, fun r => ih r (hp.2 r)⟩

theorem conforms_attempt {p : Prog Cmd ε α} {h : ε → Prog Cmd ε α} {R : ε → μ → Prop}
    (hp : M.Conforms p Q R m) (hh : ∀ e m', R e m' → M.Conforms (h e) Q E m') :
    M.Conforms (p.attempt h) Q E m := by
  induction p generalizing m with
  | ret a => exact hp
  | raise e => exact hh e m hp
  | call c k ih => exact ⟨hp.1, fun r => ih r (hp.2 r)⟩

theorem conforms_ofExcept {r : Except ε α} (hok : ∀ a, r = .ok a → Q a m)
    (herr : ∀ e, r = .error e → E e m) : M.Conforms (Prog.ofExcept r) Q E m := by
  cases r with
  | ok a => exact hok a rfl
  | error e => exact herr e rfl

theorem conforms_raiseWhen {p : Prop} [Decidable p] {e : ε} {Q : Unit → μ → Prop}
    (herr : p → E e m) (hok : ¬ p → Q () m) : M.Conforms (Prog.raiseWhen p e) Q E m := by
  unfold Prog.raiseWhen
  split
  · exact herr ‹_›
  · exact hok ‹_›

/-- A loop keeps what every round keeps. -/
theorem conforms_forEach {l : List γ} {f : γ → Prog Cmd ε Unit} {I : μ → Prop}
    (hf : ∀ a ∈ l, ∀ m, I m → M.Conforms (f a) (fun _ => I) E m) (hI : I m) :
    M.Conforms (Prog.forEach l f) (fun _ => I) E m := by
  induction l generalizing m with
  | nil => exact hI
  | cons a l ih =>
    refine conforms_bind (hf a List.mem_cons_self m hI) fun _ m' hm' => ?_
    exact ih (fun b hb => hf b (List.mem_cons_of_mem a hb)) hm'

/-- What a conforming program ends with is also something it can end with. -/
theorem Conforms.and_canEnd {p : Prog Cmd ε α} (h : M.Conforms p Q E m) :
    M.Conforms p (fun a m' => Q a m' ∧ p.CanEnd (.ok a)) (fun e m' => E e m' ∧ p.CanEnd (.error e))
      m := by
  induction p generalizing m with
  | ret a => exact ⟨h, rfl⟩
  | raise e => exact ⟨h, rfl⟩
  | call c k ih =>
    refine ⟨h.1, fun r => ?_⟩
    exact (ih r (h.2 r)).mono (fun a m' hQ => ⟨hQ.1, r, hQ.2⟩) fun e m' hE => ⟨hE.1, r, hE.2⟩

/-- A program over a smaller signature is watched by the part of the monitor that concerns
it. -/
theorem conforms_embed {Cmd' : Type → Type 1} {M' : Monitor Cmd' ε μ}
    {f : ∀ ⦃β : Type⦄, Cmd β → Cmd' β} {p : Prog Cmd ε α}
    (hlicit : ∀ m ⦃β : Type⦄ (c : Cmd β), M.licit m c → M'.licit m (f c))
    (hnext : ∀ m ⦃β : Type⦄ (c : Cmd β) (r : Except ε β), M'.next m (f c) r = M.next m c r)
    (h : M.Conforms p Q E m) : M'.Conforms (p.embed f) Q E m := by
  induction p generalizing m with
  | ret a => exact h
  | raise e => exact h
  | call c k ih =>
    refine ⟨hlicit m c h.1, fun r => ?_⟩
    rw [hnext]
    exact ih r (h.2 r)

/-! ## Runs -/

variable (M) in
/-- The invariant holds and every thread conforms from here on. -/
structure Watched (I : (τ → μ) → σ → Prop) (cfg : Config Cmd ε α σ τ) (ms : τ → μ) : Prop where
  inv : I ms cfg.state
  conforms : ∀ t, M.Conforms (cfg.threads t) (fun _ _ => True) (fun _ _ => True) (ms t)

/-- The call a thread waits on is licit. -/
theorem Watched.licit {I : (τ → μ) → σ → Prop} {cfg : Config Cmd ε α σ τ} {ms : τ → μ} {t : τ}
    (h : M.Watched I cfg ms) {β : Type} {c : Cmd β} {k : Except ε β → Prog Cmd ε α}
    (ht : cfg.threads t = .call c k) : M.licit (ms t) c := by
  have hconforms := h.conforms t
  rw [ht] at hconforms
  exact hconforms.1

section Runs

variable [DecidableEq τ] (exec : ∀ ⦃β : Type⦄, Cmd β → ι → σ → Except ε β × σ)

variable (M) in
/-- The watchers' states after one step. -/
def watch (cfg : Config Cmd ε α σ τ) (ms : τ → μ) (t : τ) (x : ι) : τ → μ :=
  match cfg.threads t with
  | .call c _ => Function.update ms t (M.next (ms t) c (exec c x cfg.state).1)
  | _ => ms

variable (M) in
/-- The watchers' states after a schedule. -/
def observe : Config Cmd ε α σ τ → (τ → μ) → List (τ × ι) → τ → μ
  | _, ms, [] => ms
  | cfg, ms, (t, x) :: l => observe (cfg.step exec t x) (M.watch exec cfg ms t x) l

variable {exec} {cfg : Config Cmd ε α σ τ} {ms : τ → μ} {t : τ} {x : ι}

theorem watch_call {β : Type} {c : Cmd β} {k : Except ε β → Prog Cmd ε α}
    (ht : cfg.threads t = .call c k) :
    M.watch exec cfg ms t x = Function.update ms t (M.next (ms t) c (exec c x cfg.state).1) := by
  simp only [watch, ht]

theorem watch_finished (ht : (cfg.threads t).Finished) : M.watch exec cfg ms t x = ms := by
  cases hp : cfg.threads t with
  | ret a => simp only [watch, hp]
  | raise e => simp only [watch, hp]
  | call c k => simp [Prog.Finished, hp, Prog.pending] at ht

theorem observe_concat (l : List (τ × ι)) :
    M.observe exec cfg ms (l ++ [(t, x)]) =
      M.watch exec (cfg.run exec l) (M.observe exec cfg ms l) t x := by
  induction l generalizing cfg ms with
  | nil => rfl
  | cons ux l ih => exact ih

theorem observe_append (l₁ l₂ : List (τ × ι)) :
    M.observe exec cfg ms (l₁ ++ l₂) =
      M.observe exec (cfg.run exec l₁) (M.observe exec cfg ms l₁) l₂ := by
  induction l₁ generalizing cfg ms with
  | nil => rfl
  | cons ux l₁ ih => exact ih

/-- A step leaves a watcher alone, or it answers a call of the watcher's thread. -/
theorem watch_cases (cfg : Config Cmd ε α σ τ) (ms : τ → μ) (u t : τ) (x : ι) :
    M.watch exec cfg ms u x t = ms t ∨
      u = t ∧ ∃ (β : Type) (c : Cmd β) (k : Except ε β → Prog Cmd ε α),
        cfg.threads t = .call c k ∧
          M.watch exec cfg ms u x t = M.next (ms t) c (exec c x cfg.state).1 := by
  cases hp : cfg.threads u with
  | ret a => exact .inl (by rw [watch_finished (by rw [hp]; rfl)])
  | raise e => exact .inl (by rw [watch_finished (by rw [hp]; rfl)])
  | call c k =>
    rw [watch_call hp]
    by_cases hu : t = u
    · subst hu
      exact .inr ⟨rfl, _, c, k, hp, Function.update_self _ _ _⟩
    · exact .inl (Function.update_of_ne hu _ _)

/-- **What is left of a conforming thread conforms**, whatever the other threads do. -/
theorem conforms_run (h : M.Conforms (cfg.threads t) Q E (ms t)) (l : List (τ × ι)) :
    M.Conforms ((cfg.run exec l).threads t) Q E (M.observe exec cfg ms l t) := by
  induction l generalizing cfg ms with
  | nil => exact h
  | cons ux l ih =>
    obtain ⟨u, x⟩ := ux
    refine ih ?_
    cases hp : cfg.threads u with
    | ret a => rwa [Config.step_finished (by rw [hp]; rfl), watch_finished (by rw [hp]; rfl)]
    | raise e => rwa [Config.step_finished (by rw [hp]; rfl), watch_finished (by rw [hp]; rfl)]
    | call c k =>
      rw [Config.step_call hp, watch_call hp]
      by_cases hu : t = u
      · subst hu
        rw [hp] at h
        simpa using h.2 _
      · simpa [Function.update_of_ne hu] using h

/-- What every answer leaves true stays true of a watcher. -/
theorem observe_of_next {P : μ → Prop}
    (hP : ∀ m ⦃β : Type⦄ (c : Cmd β) (r : Except ε β), P m → P (M.next m c r)) (h : P (ms t))
    (l : List (τ × ι)) : P (M.observe exec cfg ms l t) := by
  induction l generalizing cfg ms with
  | nil => exact h
  | cons ux l ih =>
    obtain ⟨u, x⟩ := ux
    refine ih ?_
    rcases watch_cases cfg ms u t x with hsame | ⟨-, β, c, k, -, hnext⟩
    · rw [hsame]
      exact h
    · rw [hnext]
      exact hP _ _ _ h

/-- **What becomes true of a watcher becomes true at a call of its thread.** -/
theorem exists_call_of_observe {P : μ → Prop} {l : List (τ × ι)} (h0 : ¬ P (ms t))
    (h : P (M.observe exec cfg ms l t)) :
    ∃ m x, m ++ [(t, x)] <+: l ∧ ∃ (β : Type) (c : Cmd β) (k : Except ε β → Prog Cmd ε α),
      (cfg.run exec m).threads t = .call c k ∧ ¬ P (M.observe exec cfg ms m t) ∧
        P (M.next (M.observe exec cfg ms m t) c (exec c x (cfg.run exec m).state).1) := by
  induction l using List.reverseRecOn with
  | nil => exact absurd h h0
  | append_singleton l ux ih =>
    obtain ⟨u, x⟩ := ux
    by_cases hl : P (M.observe exec cfg ms l t)
    · obtain ⟨m, y, hm, hcall⟩ := ih hl
      exact ⟨m, y, hm.trans (List.prefix_append _ _), hcall⟩
    · rw [observe_concat] at h
      rcases watch_cases (cfg.run exec l) (M.observe exec cfg ms l) u t x with
        hsame | ⟨hut, β, c, k, ht, hnext⟩
      · rw [hsame] at h
        exact absurd h hl
      · subst hut
        rw [hnext] at h
        exact ⟨l, x, List.prefix_refl _, β, c, k, ht, hl, h⟩

variable (M exec) in
/-- A licit call keeps the invariant, whoever makes it. -/
def Kept (I : (τ → μ) → σ → Prop) : Prop :=
  ∀ (ms : τ → μ) (s : σ) (t : τ) ⦃β : Type⦄ (c : Cmd β) (x : ι), I ms s → M.licit (ms t) c →
    I (Function.update ms t (M.next (ms t) c (exec c x s).1)) (exec c x s).2

variable (M exec) in
/-- A licit call that meets a condition keeps the invariant. -/
def KeptWhen (C : Config Cmd ε α σ τ → τ → ι → Prop) (I : (τ → μ) → σ → Prop) : Prop :=
  ∀ (cfg : Config Cmd ε α σ τ) (ms : τ → μ) (t : τ) ⦃β : Type⦄ (c : Cmd β)
    (k : Except ε β → Prog Cmd ε α) (x : ι), cfg.threads t = .call c k → C cfg t x →
    I ms cfg.state → M.licit (ms t) c →
    I (Function.update ms t (M.next (ms t) c (exec c x cfg.state).1)) (exec c x cfg.state).2

variable {I : (τ → μ) → σ → Prop} {C : Config Cmd ε α σ τ → τ → ι → Prop}

theorem Kept.keptWhen (hI : M.Kept exec I) : M.KeptWhen exec C I :=
  fun cfg ms t _ c _ x _ _ hinv hlicit => hI ms cfg.state t c x hinv hlicit

theorem Watched.step_when (h : M.Watched I cfg ms) (hI : M.KeptWhen exec C I) (hC : C cfg t x) :
    M.Watched I (cfg.step exec t x) (M.watch exec cfg ms t x) := by
  cases ht : cfg.threads t with
  | ret a =>
    have hfinished : (cfg.threads t).Finished := by rw [ht]; rfl
    rwa [Config.step_finished hfinished, watch_finished hfinished]
  | raise e =>
    have hfinished : (cfg.threads t).Finished := by rw [ht]; rfl
    rwa [Config.step_finished hfinished, watch_finished hfinished]
  | call c k =>
    rw [Config.step_call ht, watch_call ht]
    refine ⟨hI cfg ms t c k x ht hC h.inv (h.licit ht), fun u => ?_⟩
    by_cases hu : u = t
    · subst hu
      have hconforms := h.conforms u
      rw [ht] at hconforms
      simpa using hconforms.2 _
    · simpa [Function.update_of_ne hu] using h.conforms u

theorem Watched.step (h : M.Watched I cfg ms) (hI : M.Kept exec I) (t : τ) (x : ι) :
    M.Watched I (cfg.step exec t x) (M.watch exec cfg ms t x) :=
  h.step_when (C := fun _ _ _ => True) hI.keptWhen trivial

/-- **A kept invariant holds in every run of conforming threads** whose steps meet the
condition. -/
theorem Watched.run_when (h : M.Watched I cfg ms) (hI : M.KeptWhen exec C I)
    {l : List (τ × ι)} (hl : cfg.Respects exec C l) :
    M.Watched I (cfg.run exec l) (M.observe exec cfg ms l) := by
  induction l generalizing cfg ms with
  | nil => exact h
  | cons tx l ih =>
    obtain ⟨t, x⟩ := tx
    exact ih (h.step_when hI hl.1) hl.2

/-- Without a condition, it holds in every run. -/
theorem Watched.run (h : M.Watched I cfg ms) (hI : M.Kept exec I) (l : List (τ × ι)) :
    M.Watched I (cfg.run exec l) (M.observe exec cfg ms l) := by
  induction l generalizing cfg ms with
  | nil => exact h
  | cons tx l ih =>
    obtain ⟨t, x⟩ := tx
    exact ih (h.step hI t x)

end Runs

end Monitor

end Interleaving
end RagflowAgent
