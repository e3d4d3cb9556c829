import RagflowAgent.Interleaving.Alone

/-!
# Programs among others

Between two calls of a program the others may change the state.  For a property of one program it
does not matter who they are: what they do before a call is part of the input of the call.

* `execAmid` is a call that the others precede, so `Prog.runAlone` with it is the run of a program
  among others;
* `Prog.after` is what is left of a program after a number of calls, and `Prog.Throughout` relates
  the states before and after each of its calls;
* `Prog.Goes` says that a program makes its first call and goes on, `Prog.Passes` that it makes a
  number of calls that are related like this; so a run is taken apart call by call;
* `Monitor.Makes.runAlone_throughout` carries an invariant through the runs whose calls meet a
  condition.
-/

namespace RagflowAgent
namespace Interleaving

variable {Cmd : Type → Type 1} {ε α γ ι σ : Type}

/-- A call before which the others change the state. -/
def execAmid (exec : ∀ ⦃β : Type⦄, Cmd β → ι → σ → Except ε β × σ) ⦃β : Type⦄ (c : Cmd β)
    (x : ι × (σ → σ)) (s : σ) : Except ε β × σ :=
  exec c x.1 (x.2 s)

namespace Prog

variable (exec : ∀ ⦃β : Type⦄, Cmd β → ι → σ → Except ε β × σ)

/-- What is left of a program after a number of calls, and the state that they leave. -/
def after : Prog Cmd ε α → (ℕ → ι) → σ → ℕ → Prog Cmd ε α × σ
  | call c k, x, s, n + 1 =>
    (k (exec c (x 0) s).1).after (fun m => x (m + 1)) (exec c (x 0) s).2 n
  | p, _, s, _ => (p, s)

/-- Every call relates the state before it to the state after it. -/
def Throughout (R : ι → σ → σ → Prop) : Prog Cmd ε α → (ℕ → ι) → σ → Prop
  | call c k, x, s => R (x 0) s (exec c (x 0) s).2 ∧
      (k (exec c (x 0) s).1).Throughout R (fun m => x (m + 1)) (exec c (x 0) s).2
  | _, _, _ => True

/-- The program makes its first call and goes on with `p'`. -/
structure Goes (p : Prog Cmd ε α) (x : ι) (s : σ) (p' : Prog Cmd ε α) (s' : σ) : Prop where
  call : ∃ (β : Type) (c : Cmd β) (k : Except ε β → Prog Cmd ε α),
    p = .call c k ∧ p' = k (exec c x s).1 ∧ s' = (exec c x s).2

variable {exec} {p p' : Prog Cmd ε α} {x : ℕ → ι} {s s' : σ} {R : ι → σ → σ → Prop}

theorem Goes.runAlone (h : p.Goes exec (x 0) s p' s') :
    p.runAlone exec x s = p'.runAlone exec (fun m => x (m + 1)) s' := by
  obtain ⟨β, c, k, rfl, rfl, rfl⟩ := h
  rfl

theorem Goes.callsAlone (h : p.Goes exec (x 0) s p' s') :
    p.callsAlone exec x s = p'.callsAlone exec (fun m => x (m + 1)) s' + 1 := by
  obtain ⟨β, c, k, rfl, rfl, rfl⟩ := h
  rfl

theorem Goes.after (h : p.Goes exec (x 0) s p' s') (n : ℕ) :
    p.after exec x s (n + 1) = p'.after exec (fun m => x (m + 1)) s' n := by
  obtain ⟨β, c, k, rfl, rfl, rfl⟩ := h
  rfl

theorem Goes.throughout (h : p.Goes exec (x 0) s p' s') :
    p.Throughout exec R x s ↔
      R (x 0) s s' ∧ p'.Throughout exec R (fun m => x (m + 1)) s' := by
  obtain ⟨β, c, k, rfl, rfl, rfl⟩ := h
  exact Iff.rfl

/-- A run ends with something the program can end with. -/
theorem canEnd_of_runAlone {r : Except ε α} (h : p.runAlone exec x s = (r, s')) : p.CanEnd r := by
  have hcan := p.canEnd_runAlone exec x s
  rw [h] at hcan
  exact hcan

@[simp] theorem after_zero (p : Prog Cmd ε α) (x : ℕ → ι) (s : σ) :
    p.after exec x s 0 = (p, s) := by
  cases p <;> rfl

section Perform

variable {β : Type} {c : Cmd β} {f : β → Prog Cmd ε α} {y : ι}

/-- A call that is answered. -/
theorem goes_perform {b : β} (h : exec c y s = (.ok b, s')) :
    ((perform c).bind f).Goes exec y s (f b) s' := by
  refine ⟨β, c, fun r => (ofExcept r).bind f, rfl, ?_, ?_⟩
  · rw [h]
    rfl
  · rw [h]

/-- A call that fails ends the program. -/
theorem goes_perform_error {e : ε} (h : exec c y s = (.error e, s')) :
    ((perform c).bind f).Goes exec y s (raise e) s' := by
  refine ⟨β, c, fun r => (ofExcept r).bind f, rfl, ?_, ?_⟩
  · rw [h]
    rfl
  · rw [h]

/-- Who makes a second call was answered the first one. -/
theorem exists_goes_of_lt {n : ℕ} (h : n + 1 < ((perform c).bind f).callsAlone exec x s) :
    ∃ b s', exec c (x 0) s = (.ok b, s') ∧
      n < (f b).callsAlone exec (fun m => x (m + 1)) s' := by
  rcases hr : exec c (x 0) s with ⟨r, s'⟩
  cases r with
  | ok b =>
    refine ⟨b, s', rfl, ?_⟩
    rw [(goes_perform hr).callsAlone] at h
    exact Nat.lt_of_succ_lt_succ h
  | error e =>
    rw [(goes_perform_error hr).callsAlone] at h
    exact absurd h (Nat.not_lt.2 (Nat.le_add_left 1 n))

end Perform

variable (exec R) in
/-- The program makes `n` calls, each of which is related by `R`, and goes on with `p'`. -/
inductive Passes : (ℕ → ι) → ℕ → Prog Cmd ε α → σ → Prog Cmd ε α → σ → Prop where
  | refl {x : ℕ → ι} {p : Prog Cmd ε α} {s : σ} : Passes x 0 p s p s
  | step {x : ℕ → ι} {n : ℕ} {p p₁ p' : Prog Cmd ε α} {s s₁ s' : σ} :
      p.Goes exec (x 0) s p₁ s₁ → R (x 0) s s₁ →
      Passes (fun m => x (m + 1)) n p₁ s₁ p' s' → Passes x (n + 1) p s p' s'

variable {n : ℕ}

theorem Passes.runAlone (h : Passes exec R x n p s p' s') :
    p.runAlone exec x s = p'.runAlone exec (fun m => x (m + n)) s' := by
  induction h with
  | refl => rfl
  | step hgoes _ _ ih => exact hgoes.runAlone.trans ih

theorem Passes.after (h : Passes exec R x n p s p' s') : p.after exec x s n = (p', s') := by
  induction h with
  | refl => exact after_zero _ _ _
  | step hgoes _ _ ih => exact (hgoes.after _).trans ih

theorem Passes.throughout (h : Passes exec R x n p s p' s') :
    p.Throughout exec R x s ↔ p'.Throughout exec R (fun m => x (m + n)) s' := by
  induction h with
  | refl => exact Iff.rfl
  | step hgoes hR _ ih =>
    rw [hgoes.throughout, and_iff_right hR]
    exact ih

end Prog

/-- An invariant that the calls in `L` keep where they meet a condition is kept by a run that
meets it throughout. -/
theorem Monitor.Makes.runAlone_throughout {L : ∀ ⦃β : Type⦄, Cmd β → Prop}
    {exec : ∀ ⦃β : Type⦄, Cmd β → ι → σ → Except ε β × σ} {p : Prog Cmd ε α}
    {R : ι → σ → σ → Prop} {P : σ → Prop} {x : ℕ → ι} {s : σ} (h : Monitor.Makes L p)
    (hP : ∀ n s ⦃β : Type⦄ (c : Cmd β), P s → L c → R (x n) s (exec c (x n) s).2 →
      P (exec c (x n) s).2)
    (hR : p.Throughout exec R x s) (hs : P s) : P (p.runAlone exec x s).2 := by
  induction p generalizing x s with
  | ret a => exact hs
  | raise e => exact hs
  | call c k ih =>
    exact ih _ (h.2 _) (fun n => hP (n + 1)) hR.2 (hP 0 s c hs h.1 hR.1)

end Interleaving
end RagflowAgent
