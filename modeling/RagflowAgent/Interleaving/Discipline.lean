import RagflowAgent.Interleaving.RelyGuarantee

/-!
# Knowing what one has seen

Between two calls a program knows nothing about the shared state for certain, but it has
*seen* things: a row it read, a clock it looked at, a write of its own that went through.
A `Discipline` keeps track of that without any shared state at all.  A call is labelled
with the facts its caller still relies on, an answer adds the facts it tells, and the
discipline says which calls are licit with which facts.

`Discipline.Obeys` checks a program against a discipline by recursion on its text, so a
program is walked through once, whatever is going to be proved about it.  What a fact
*means* is only fixed afterwards, by an interpretation `K` of facts as predicates on the
shared state: `Supports D L K` says that the protocol `D` allows the calls of the
discipline `L`, provided that the facts hold, and keeps the facts its answers tell.  Then
`Supports.sound` makes every configuration of obedient programs sound for `D`.
-/

namespace RagflowAgent
namespace Interleaving

variable {Cmd : Type → Type 1} {ε α γ ι σ τ φ : Type}

/-- Which calls a program may make, knowing what. -/
structure Discipline (Cmd : Type → Type 1) (ε φ : Type) where
  /-- The calls that may be made, given the facts they are labelled with. -/
  licit : ∀ ⦃β : Type⦄, Cmd β → Prop
  /-- The facts a call is labelled with. -/
  knows : ∀ ⦃β : Type⦄, Cmd β → List φ
  /-- The answers a call can get, whatever the shared state is. -/
  answers : ∀ ⦃β : Type⦄, Cmd β → Except ε β → Prop
  /-- The facts an answer tells. -/
  yields : ∀ ⦃β : Type⦄, Cmd β → Except ε β → List φ
  /-- Whether a program may handle the errors it is answered. -/
  mayHandle : Prop

namespace Discipline

variable (L : Discipline Cmd ε φ)

/-- Every call of `p` is licit and is labelled with facts that are known when it is made,
starting from the facts `known`.  While a call is waited for only the facts on its label
survive.  An error that is answered is raised, unless it may be handled.  `Q` holds of what
`p` returns and what is known then, `E` of what it raises. -/
def Obeys : Prog Cmd ε α → (α → List φ → Prop) → (ε → List φ → Prop) → List φ → Prop
  | .ret a, Q, _, known => Q a known
  | .raise e, _, E, known => E e known
  | .call c k, Q, E, known =>
    L.licit c ∧ L.knows c ⊆ known ∧ (L.mayHandle ∨ ∀ e, k (.error e) = .raise e) ∧
      ∀ r, L.answers c r → Obeys (k r) Q E (L.knows c ++ L.yields c r)

variable {L} {Q : α → List φ → Prop} {E : ε → List φ → Prop} {known : List φ}

theorem Obeys.mono {p : Prog Cmd ε α} {Q' : α → List φ → Prop} {E' : ε → List φ → Prop}
    (h : L.Obeys p Q E known) (hQ : ∀ a l, Q a l → Q' a l) (hE : ∀ e l, E e l → E' e l) :
    L.Obeys p Q' E' known := by
  induction p generalizing known with
  | ret a => exact hQ _ _ h
  | raise e => exact hE _ _ h
  | call c k ih => exact ⟨h.1, h.2.1, h.2.2.1, fun r hr => ih r (h.2.2.2 r hr)⟩

/-- One call whose error is raised. -/
theorem obeys_perform {c : Cmd α} (hc : L.licit c) (hk : L.knows c ⊆ known)
    (hok : ∀ a, L.answers c (.ok a) → Q a (L.knows c ++ L.yields c (.ok a)))
    (herr : ∀ e, E e (L.knows c ++ L.yields c (.error e))) :
    L.Obeys (Prog.perform c) Q E known := by
  refine ⟨hc, hk, .inr fun _ => rfl, fun r hr => ?_⟩
  cases r with
  | ok a => exact hok a hr
  | error e => exact herr e

theorem obeys_bind {p : Prog Cmd ε α} {f : α → Prog Cmd ε γ} {Q : γ → List φ → Prop}
    {R : α → List φ → Prop} (hp : L.Obeys p R E known)
    (hf : ∀ a l, R a l → L.Obeys (f a) Q E l) : L.Obeys (p.bind f) Q E known := by
  induction p generalizing known with
  | ret a => exact hf a known hp
  | raise e => exact hp
  | call c k ih =>
    obtain ⟨hlicit, hknows, hraises, hrest⟩ := hp
    refine ⟨hlicit, hknows, hraises.imp_right fun h e => ?_, fun r hr => ih r (hrest r hr)⟩
    simp only [h e, Prog.raise_bind]

theorem obeys_attempt {p : Prog Cmd ε α} {h : ε → Prog Cmd ε α} {R : ε → List φ → Prop}
    (hmay : L.mayHandle) (hp : L.Obeys p Q R known) (hh : ∀ e l, R e l → L.Obeys (h e) Q E l) :
    L.Obeys (p.attempt h) Q E known := by
  induction p generalizing known with
  | ret a => exact hp
  | raise e => exact hh e known hp
  | call c k ih => exact ⟨hp.1, hp.2.1, .inl hmay, fun r hr => ih r (hp.2.2.2 r hr)⟩

theorem obeys_ofExcept {r : Except ε α} (hok : ∀ a, r = .ok a → Q a known)
    (herr : ∀ e, r = .error e → E e known) : L.Obeys (Prog.ofExcept r) Q E known := by
  cases r with
  | ok a => exact hok a rfl
  | error e => exact herr e rfl

theorem obeys_raiseWhen {p : Prop} [Decidable p] {e : ε} {Q : Unit → List φ → Prop}
    (herr : p → E e known) (hok : ¬ p → Q () known) :
    L.Obeys (Prog.raiseWhen p e) Q E known := by
  unfold Prog.raiseWhen
  split
  · exact herr ‹_›
  · exact hok ‹_›

/-- A loop whose rounds start from nothing. -/
theorem obeys_forEach {l : List γ} {f : γ → Prog Cmd ε Unit} {I : List φ → Prop}
    (hf : ∀ a ∈ l, ∀ known, I known → L.Obeys (f a) (fun _ => I) E known) (hI : I known) :
    L.Obeys (Prog.forEach l f) (fun _ => I) E known := by
  induction l generalizing known with
  | nil => exact hI
  | cons a l ih =>
    refine obeys_bind (hf a List.mem_cons_self known hI) fun _ known' hI' => ?_
    exact ih (fun b hb => hf b (List.mem_cons_of_mem a hb)) hI'

variable (L) in
/-- A program that obeys the discipline from the start, when nothing is known. -/
def Disciplined (p : Prog Cmd ε α) : Prop := L.Obeys p (fun _ _ => True) (fun _ _ => True) []

theorem Disciplined.void {p : Prog Cmd ε α} (h : L.Disciplined p) : L.Disciplined p.void :=
  obeys_bind h fun _ _ _ => trivial

/-! ## Runs of obedient programs -/

variable (L) in
/-- What is left of a disciplined program at some moment. -/
def Obedient (p : Prog Cmd ε α) : Prop :=
  ∃ known, L.Obeys p (fun _ _ => True) (fun _ _ => True) known

theorem Disciplined.obedient {p : Prog Cmd ε α} (h : L.Disciplined p) : L.Obedient p := ⟨[], h⟩

/-- The call that an obedient program waits on is licit. -/
theorem Obedient.licit {β : Type} {c : Cmd β} {k : Except ε β → Prog Cmd ε α}
    (h : L.Obedient (.call c k)) : L.licit c := by
  obtain ⟨known, hlicit, -⟩ := h
  exact hlicit

/-- Unless errors may be handled, the error that is answered is raised. -/
theorem Obedient.raises {β : Type} {c : Cmd β} {k : Except ε β → Prog Cmd ε α}
    (h : L.Obedient (.call c k)) (hL : ¬ L.mayHandle) (e : ε) : k (.error e) = .raise e := by
  obtain ⟨known, -, -, hraises, -⟩ := h
  exact hraises.resolve_left hL e

theorem Obedient.resume {β : Type} {c : Cmd β} {k : Except ε β → Prog Cmd ε α}
    (h : L.Obedient (.call c k)) {r : Except ε β} (hr : L.answers c r) : L.Obedient (k r) := by
  obtain ⟨known, -, -, -, hrest⟩ := h
  exact ⟨_, hrest r hr⟩

section Runs

variable [DecidableEq τ] {exec : ∀ ⦃β : Type⦄, Cmd β → ι → σ → Except ε β × σ}

/-- **In every run disciplined programs stay obedient.** -/
theorem obedient_run (hexec : ∀ {β} (c : Cmd β) x s, L.answers c (exec c x s).1)
    {cfg : Config Cmd ε α σ τ} (h : ∀ t, L.Obedient (cfg.threads t)) (l : List (τ × ι)) (t : τ) :
    L.Obedient ((cfg.run exec l).threads t) := by
  induction l generalizing cfg with
  | nil => exact h t
  | cons tx l ih =>
    obtain ⟨u, x⟩ := tx
    refine ih fun v => ?_
    cases hu : cfg.threads u with
    | ret a => rw [Config.step_finished (by rw [hu]; rfl)]; exact h v
    | raise e => rw [Config.step_finished (by rw [hu]; rfl)]; exact h v
    | call c k =>
      rw [Config.step_call hu]
      by_cases hv : v = u
      · subst hv
        simpa using (hu ▸ h v : L.Obedient (.call c k)).resume (hexec c x cfg.state)
      · simpa [Function.update_of_ne hv] using h v

end Runs

end Discipline

/-! ## Interpreting the facts -/

/-- The protocol `D` lets the calls of the discipline `L` through when the facts on their
labels hold, and what the answers tell is true. -/
structure Supports (D : Protocol Cmd ε ι σ) (L : Discipline Cmd ε φ) (K : φ → σ → Prop) :
    Prop where
  /-- The facts on a label survive the others while the call is waited for. -/
  stable : ∀ {β} {c : Cmd β}, L.licit c → ∀ f ∈ L.knows c, D.Stable c (K f)
  /-- Only possible answers are given. -/
  answers : ∀ {β} (c : Cmd β) x s, L.answers c (D.exec c x s).1
  step : ∀ {β} {c : Cmd β} {x s}, D.inv s → D.allow c x s → L.licit c →
    (∀ f ∈ L.knows c, K f s) →
    D.inv (D.exec c x s).2 ∧ D.guar c x s (D.exec c x s).2 ∧
      ∀ f ∈ L.knows c ++ L.yields c (D.exec c x s).1, K f (D.exec c x s).2

namespace Supports

variable {D : Protocol Cmd ε ι σ} {L : Discipline Cmd ε φ} {K : φ → σ → Prop}

/-- **An obedient program is safe**, and what it knows when it finishes is true. -/
theorem safe (h : Supports D L K) {p : Prog Cmd ε α} {Q : α → List φ → Prop}
    {E : ε → List φ → Prop} {known : List φ} (hp : L.Obeys p Q E known) {s : σ}
    (hs : D.inv s) (hk : ∀ f ∈ known, K f s) :
    D.Safe p (fun a s' => ∃ l, Q a l ∧ ∀ f ∈ l, K f s')
      (fun e s' => ∃ l, E e l ∧ ∀ f ∈ l, K f s') s := by
  induction p generalizing known s with
  | ret a => exact ⟨known, hp, hk⟩
  | raise e => exact ⟨known, hp, hk⟩
  | call c k ih =>
    obtain ⟨hlicit, hknows, -, hrest⟩ := hp
    have hstable : D.Stable c fun s => ∀ f ∈ L.knows c, K f s :=
      fun s s' hs hs' hr hf f hfc => h.stable hlicit f hfc s s' hs hs' hr (hf f hfc)
    refine Protocol.Safe.call hstable hs (fun f hf => hk f (hknows hf)) fun s₁ x hs₁ hf hx => ?_
    obtain ⟨hinv, hguar, hfacts⟩ := h.step hs₁ hx hlicit hf
    exact ⟨hinv, hguar, ih _ (hrest _ (h.answers c x s₁)) hinv hfacts⟩

/-- **Configurations of disciplined programs are sound.** -/
theorem sound (h : Supports D L K) {cfg : Config Cmd ε α σ τ} (hs : D.inv cfg.state)
    (hthreads : ∀ t, L.Disciplined (cfg.threads t)) : Protocol.Sound D cfg := by
  refine ⟨hs, fun t => ?_⟩
  have hsafe := h.safe (hthreads t) hs (by simp)
  exact hsafe.mono (fun _ _ _ => trivial) fun _ _ _ => trivial

end Supports

end Interleaving
end RagflowAgent
