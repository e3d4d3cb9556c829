import RagflowAgent.Interleaving.Alone

/-!
# Triples for programs that run alone

A triple says what a program does that nobody interferes with: started in a state with `P`, it
returns in a state with `Q`, or raises in a state with `E`.  Others can still be there, as a part
of the inputs.

The triples here also look at the calls.  `Prog.Along K` says that every call of a run, its input
and the state before it satisfy `K`; a triple assumes one such condition and guarantees another.

* `Ends` reads the result of a run, and `Triple` is the triple;
* `triple_bind`, `triple_attempt`, `triple_forEach` and their companions follow the text of a
  program, `Triple.mono` is the rule of consequence.
-/

namespace RagflowAgent
namespace Interleaving

variable {Cmd : Type → Type 1} {ε α γ ι σ : Type}

namespace Prog

/-- Every call of the run, its input and the state before it satisfy `K`. -/
def Along (exec : ∀ ⦃β : Type⦄, Cmd β → ι → σ → Except ε β × σ)
    (K : ∀ ⦃β : Type⦄, Cmd β → ι → σ → Prop) : Prog Cmd ε α → (ℕ → ι) → σ → Prop
  | call c k, x, s => K c (x 0) s ∧
      (k (exec c (x 0) s).1).Along exec K (fun n => x (n + 1)) (exec c (x 0) s).2
  | ret _, _, _ => True
  | raise _, _, _ => True

section Along

variable {exec : ∀ ⦃β : Type⦄, Cmd β → ι → σ → Except ε β × σ}
  {K : ∀ ⦃β : Type⦄, Cmd β → ι → σ → Prop} {p : Prog Cmd ε α} {x : ℕ → ι} {s s' : σ}

theorem along_ofExcept (r : Except ε α) : (ofExcept r : Prog Cmd ε α).Along exec K x s := by
  cases r <;> trivial

/-- A condition on the inputs holds along every run. -/
theorem along_of_forall (h : ∀ n ⦃β : Type⦄ (c : Cmd β) s, K c (x n) s) : p.Along exec K x s := by
  induction p generalizing x s with
  | ret a => trivial
  | raise e => trivial
  | call c k ih => exact ⟨h 0 c s, ih _ fun n => h (n + 1)⟩

theorem along_bind_ok {f : α → Prog Cmd ε γ} {a : α} (h : p.runAlone exec x s = (.ok a, s')) :
    (p.bind f).Along exec K x s ↔ p.Along exec K x s ∧
      (f a).Along exec K (fun n => x (n + p.callsAlone exec x s)) s' := by
  induction p generalizing x s with
  | ret b =>
    cases h
    exact (and_iff_right trivial).symm
  | raise e => cases h
  | call c k ih =>
    change K c (x 0) s ∧ ((k _).bind f).Along exec K _ _ ↔ _
    rw [ih _ h]
    exact and_assoc.symm

theorem along_bind_error {f : α → Prog Cmd ε γ} {e : ε}
    (h : p.runAlone exec x s = (.error e, s')) :
    (p.bind f).Along exec K x s ↔ p.Along exec K x s := by
  induction p generalizing x s with
  | ret b => cases h
  | raise e' => exact Iff.rfl
  | call c k ih => exact and_congr_right fun _ => ih _ h

theorem along_attempt_ok {h : ε → Prog Cmd ε α} {a : α}
    (hp : p.runAlone exec x s = (.ok a, s')) :
    (p.attempt h).Along exec K x s ↔ p.Along exec K x s := by
  induction p generalizing x s with
  | ret b => exact Iff.rfl
  | raise e => cases hp
  | call c k ih => exact and_congr_right fun _ => ih _ hp

theorem along_attempt_error {h : ε → Prog Cmd ε α} {e : ε}
    (hp : p.runAlone exec x s = (.error e, s')) :
    (p.attempt h).Along exec K x s ↔ p.Along exec K x s ∧
      (h e).Along exec K (fun n => x (n + p.callsAlone exec x s)) s' := by
  induction p generalizing x s with
  | ret b => cases hp
  | raise e' =>
    cases hp
    exact (and_iff_right trivial).symm
  | call c k ih =>
    change K c (x 0) s ∧ ((k _).attempt h).Along exec K _ _ ↔ _
    rw [ih _ hp]
    exact and_assoc.symm

end Along

end Prog

open Prog

/-- The run returns in `Q`, or raises in `E`. -/
def Ends (Q : α → σ → Prop) (E : ε → σ → Prop) (result : Except ε α × σ) : Prop :=
  (∀ a, result.1 = .ok a → Q a result.2) ∧ ∀ e, result.1 = .error e → E e result.2

/-- **The triple.**  Along runs whose calls meet the assumption `A`, every call satisfies `R`, and
the run leads from `P` to `Q`, or to `E` where it raises. -/
def Triple (exec : ∀ ⦃β : Type⦄, Cmd β → ι → σ → Except ε β × σ)
    (A R : ∀ ⦃β : Type⦄, Cmd β → ι → σ → Prop) (P : σ → Prop) (p : Prog Cmd ε α)
    (Q : α → σ → Prop) (E : ε → σ → Prop) : Prop :=
  ∀ x s, P s → p.Along exec A x s → p.Along exec R x s ∧ Ends Q E (p.runAlone exec x s)

section Rules

variable {exec : ∀ ⦃β : Type⦄, Cmd β → ι → σ → Except ε β × σ}
  {A R : ∀ ⦃β : Type⦄, Cmd β → ι → σ → Prop} {P : σ → Prop} {Q : α → σ → Prop}
  {E : ε → σ → Prop} {p : Prog Cmd ε α}

theorem ends_ok {a : α} {s : σ} : Ends Q E (.ok a, s) ↔ Q a s := by
  constructor
  · exact fun h => h.1 a rfl
  · intro h
    refine ⟨fun b hb => ?_, fun e he => ?_⟩
    · cases hb
      exact h
    · cases he

theorem ends_error {e : ε} {s : σ} : Ends Q E (.error e, s) ↔ E e s := by
  constructor
  · exact fun h => h.2 e rfl
  · intro h
    refine ⟨fun b hb => ?_, fun e' he => ?_⟩
    · cases hb
    · cases he
      exact h

/-- The rule of consequence. -/
theorem Triple.mono {P' : σ → Prop} {Q' : α → σ → Prop} {E' : ε → σ → Prop}
    (h : Triple exec A R P p Q E) (hP : ∀ s, P' s → P s) (hQ : ∀ a s, Q a s → Q' a s)
    (hE : ∀ e s, E e s → E' e s) : Triple exec A R P' p Q' E' := by
  intro x s hs hA
  obtain ⟨hR, hok, herror⟩ := h x s (hP s hs) hA
  exact ⟨hR, fun a ha => hQ a _ (hok a ha), fun e he => hE e _ (herror e he)⟩

theorem triple_ret {a : α} (h : ∀ s, P s → Q a s) : Triple exec A R P (ret a) Q E :=
  fun _ s hs _ => ⟨trivial, ends_ok.2 (h s hs)⟩

theorem triple_raise {e : ε} (h : ∀ s, P s → E e s) :
    Triple exec A R P (raise e : Prog Cmd ε α) Q E :=
  fun _ s hs _ => ⟨trivial, ends_error.2 (h s hs)⟩

theorem triple_ofExcept {r : Except ε α} (hok : ∀ a, r = .ok a → ∀ s, P s → Q a s)
    (herror : ∀ e, r = .error e → ∀ s, P s → E e s) : Triple exec A R P (ofExcept r) Q E := by
  cases r with
  | ok a => exact triple_ret (hok a rfl)
  | error e => exact triple_raise (herror e rfl)

theorem triple_raiseWhen {p : Prop} [Decidable p] {e : ε} {Q : Unit → σ → Prop}
    (hok : ¬ p → ∀ s, P s → Q () s) (herror : p → ∀ s, P s → E e s) :
    Triple exec A R P (raiseWhen p e : Prog Cmd ε Unit) Q E := by
  unfold raiseWhen
  split
  · exact triple_raise (herror ‹_›)
  · exact triple_ret (hok ‹_›)

/-- One call. -/
theorem triple_perform {c : Cmd α}
    (h : ∀ x s, P s → A c x s → R c x s ∧ Ends Q E (exec c x s)) :
    Triple exec A R P (perform c) Q E := by
  intro x s hs hA
  obtain ⟨hR, hends⟩ := h (x 0) s hs hA.1
  refine ⟨⟨hR, along_ofExcept _⟩, ?_⟩
  rw [runAlone_perform]
  exact hends

/-- A sequence: what the first part ends with is what the second part starts with. -/
theorem triple_bind {Q' : γ → σ → Prop} {f : α → Prog Cmd ε γ} (hp : Triple exec A R P p Q E)
    (hf : ∀ a, Triple exec A R (Q a) (f a) Q' E) : Triple exec A R P (p.bind f) Q' E := by
  intro x s hs hA
  rcases hrun : p.runAlone exec x s with ⟨r, s'⟩
  cases r with
  | ok a =>
    obtain ⟨hAp, hAf⟩ := (along_bind_ok hrun).1 hA
    obtain ⟨hR, hends⟩ := hp x s hs hAp
    rw [hrun] at hends
    obtain ⟨hRf, hends'⟩ := hf a _ s' (ends_ok.1 hends) hAf
    rw [runAlone_bind_ok hrun]
    exact ⟨(along_bind_ok hrun).2 ⟨hR, hRf⟩, hends'⟩
  | error e =>
    obtain ⟨hR, hends⟩ := hp x s hs ((along_bind_error hrun).1 hA)
    rw [hrun] at hends
    rw [runAlone_bind_error hrun]
    exact ⟨(along_bind_error hrun).2 hR, ends_error.2 (ends_error.1 hends)⟩

/-- A sequence that starts with a computation: the second part knows how it ended. -/
theorem triple_bind_ofExcept {Q' : γ → σ → Prop} {f : α → Prog Cmd ε γ} {r : Except ε α}
    (hok : ∀ a, r = .ok a → Triple exec A R P (f a) Q' E)
    (herror : ∀ e, r = .error e → ∀ s, P s → E e s) :
    Triple exec A R P ((ofExcept r : Prog Cmd ε α).bind f) Q' E := by
  cases r with
  | ok a => exact hok a rfl
  | error e => exact triple_raise (herror e rfl)

/-- A sequence that starts with a check. -/
theorem triple_bind_raiseWhen {Q' : γ → σ → Prop} {f : Unit → Prog Cmd ε γ} {p : Prop}
    [Decidable p] {e : ε} (hok : ¬ p → Triple exec A R P (f ()) Q' E)
    (herror : p → ∀ s, P s → E e s) :
    Triple exec A R P ((raiseWhen p e : Prog Cmd ε Unit).bind f) Q' E := by
  unfold raiseWhen
  split
  · exact triple_raise (herror ‹_›)
  · exact hok ‹_›

/-- A guarded program: its handler starts where it has raised. -/
theorem triple_attempt {E' : ε → σ → Prop} {h : ε → Prog Cmd ε α}
    (hp : Triple exec A R P p Q E) (hh : ∀ e, Triple exec A R (E e) (h e) Q E') :
    Triple exec A R P (p.attempt h) Q E' := by
  intro x s hs hA
  rcases hrun : p.runAlone exec x s with ⟨r, s'⟩
  cases r with
  | ok a =>
    obtain ⟨hR, hends⟩ := hp x s hs ((along_attempt_ok hrun).1 hA)
    rw [hrun] at hends
    rw [runAlone_attempt_ok hrun]
    exact ⟨(along_attempt_ok hrun).2 hR, ends_ok.2 (ends_ok.1 hends)⟩
  | error e =>
    obtain ⟨hAp, hAh⟩ := (along_attempt_error hrun).1 hA
    obtain ⟨hR, hends⟩ := hp x s hs hAp
    rw [hrun] at hends
    obtain ⟨hRh, hends'⟩ := hh e _ s' (ends_error.1 hends) hAh
    rw [runAlone_attempt_error hrun]
    exact ⟨(along_attempt_error hrun).2 ⟨hR, hRh⟩, hends'⟩

/-- A loop: `I` speaks of the elements that are done. -/
theorem triple_forEach {I : List γ → σ → Prop} {f : γ → Prog Cmd ε Unit} {l : List γ}
    (hf : ∀ done a rest, done ++ a :: rest = l →
      Triple exec A R (I done) (f a) (fun _ => I (done ++ [a])) E) :
    Triple exec A R (I []) (forEach l f) (fun _ => I l) E := by
  suffices h : ∀ rest done, done ++ rest = l →
      Triple exec A R (I done) (forEach rest f) (fun _ => I l) E from h l [] rfl
  intro rest
  induction rest with
  | nil =>
    intro done hdone
    rw [List.append_nil] at hdone
    subst hdone
    exact triple_ret fun _ hs => hs
  | cons a rest ih =>
    intro done hdone
    exact triple_bind (hf done a rest hdone) fun _ => ih (done ++ [a]) (by simpa using hdone)

end Rules

end Interleaving
end RagflowAgent
