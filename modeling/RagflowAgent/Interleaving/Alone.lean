import RagflowAgent.Interleaving.Local

/-!
# Programs that run alone

`Prog.runAlone` runs a program with nobody else present and says what it returns and which
state it leaves.  This file takes such a run apart along the text of the program.

* `Prog.callsAlone` counts the calls of a run, so that the second part of a sequence knows
  which inputs are its own;
* `runAlone_bind_ok` and `runAlone_bind_error` run a sequence, `exists_of_runAlone_bind` takes
  the run of a sequence apart, and `Local.runAlone_bind_ok` and its companions do the same for
  programs with an object of their own;
* `Conforms.runAlone` is the rule for programs that a monitor has checked: what the licit calls
  keep is kept by the whole run;
* `Monitor.Makes` says that a program makes calls of one kind only.
-/

namespace RagflowAgent
namespace Interleaving

variable {Cmd : Type → Type 1} {ε α γ ι σ ρ μ : Type}
  {exec : ∀ ⦃β : Type⦄, Cmd β → ι → σ → Except ε β × σ}

namespace Prog

/-- The number of calls of a program that runs alone. -/
def callsAlone (exec : ∀ ⦃β : Type⦄, Cmd β → ι → σ → Except ε β × σ) :
    Prog Cmd ε α → (ℕ → ι) → σ → ℕ
  | ret _, _, _ => 0
  | raise _, _, _ => 0
  | call c k, x, s =>
    (k (exec c (x 0) s).1).callsAlone exec (fun n => x (n + 1)) (exec c (x 0) s).2 + 1

@[simp] theorem runAlone_ret (a : α) (x : ℕ → ι) (s : σ) :
    (ret a : Prog Cmd ε α).runAlone exec x s = (.ok a, s) := rfl

@[simp] theorem runAlone_raise (e : ε) (x : ℕ → ι) (s : σ) :
    (raise e : Prog Cmd ε α).runAlone exec x s = (.error e, s) := rfl

@[simp] theorem runAlone_ofExcept (r : Except ε α) (x : ℕ → ι) (s : σ) :
    (ofExcept r : Prog Cmd ε α).runAlone exec x s = (r, s) := by
  cases r <;> rfl

@[simp] theorem runAlone_perform (c : Cmd α) (x : ℕ → ι) (s : σ) :
    (perform c).runAlone exec x s = exec c (x 0) s := by
  simp only [perform, runAlone, runAlone_ofExcept]

@[simp] theorem callsAlone_ofExcept (r : Except ε α) (x : ℕ → ι) (s : σ) :
    (ofExcept r : Prog Cmd ε α).callsAlone exec x s = 0 := by
  cases r <;> rfl

@[simp] theorem callsAlone_perform (c : Cmd α) (x : ℕ → ι) (s : σ) :
    (perform c).callsAlone exec x s = 1 := by
  simp only [perform, callsAlone, callsAlone_ofExcept]

section Bind

variable {p : Prog Cmd ε α} {f : α → Prog Cmd ε γ} {x : ℕ → ι} {s s' : σ}

/-- The first part of a sequence has returned. -/
theorem runAlone_bind_ok {a : α} (h : p.runAlone exec x s = (.ok a, s')) :
    (p.bind f).runAlone exec x s =
      (f a).runAlone exec (fun n => x (n + p.callsAlone exec x s)) s' := by
  induction p generalizing x s with
  | ret b =>
    cases h
    rfl
  | raise e => cases h
  | call c k ih => exact ih _ h

/-- The first part of a sequence has raised. -/
theorem runAlone_bind_error {e : ε} (h : p.runAlone exec x s = (.error e, s')) :
    (p.bind f).runAlone exec x s = (.error e, s') := by
  induction p generalizing x s with
  | ret b => cases h
  | raise e' =>
    cases h
    rfl
  | call c k ih => exact ih _ h

theorem callsAlone_bind_ok {a : α} (h : p.runAlone exec x s = (.ok a, s')) :
    (p.bind f).callsAlone exec x s = p.callsAlone exec x s +
      (f a).callsAlone exec (fun n => x (n + p.callsAlone exec x s)) s' := by
  induction p generalizing x s with
  | ret b =>
    cases h
    simp only [ret_bind, callsAlone, Nat.zero_add, Nat.add_zero]
  | raise e => cases h
  | call c k ih =>
    change ((k _).bind f).callsAlone exec _ _ + 1 = _
    rw [ih _ h, Nat.add_right_comm]
    rfl

/-- A sequence that has returned has returned from both its parts. -/
theorem exists_of_runAlone_bind {b : γ} (h : (p.bind f).runAlone exec x s = (.ok b, s')) :
    ∃ a s₁, p.runAlone exec x s = (.ok a, s₁) ∧
      (f a).runAlone exec (fun n => x (n + p.callsAlone exec x s)) s₁ = (.ok b, s') := by
  rcases hp : p.runAlone exec x s with ⟨r, s₁⟩
  cases r with
  | ok a => exact ⟨a, s₁, rfl, by rw [← h, runAlone_bind_ok hp]⟩
  | error e =>
    rw [runAlone_bind_error hp] at h
    cases h

/-- A guarded program that has returned runs as without its handler. -/
theorem runAlone_attempt_ok {h : ε → Prog Cmd ε α} {a : α}
    (hp : p.runAlone exec x s = (.ok a, s')) :
    (p.attempt h).runAlone exec x s = (.ok a, s') := by
  induction p generalizing x s with
  | ret b => exact hp
  | raise e => cases hp
  | call c k ih => exact ih _ hp

/-- The handler starts where the guarded program has raised. -/
theorem runAlone_attempt_error {h : ε → Prog Cmd ε α} {e : ε}
    (hp : p.runAlone exec x s = (.error e, s')) :
    (p.attempt h).runAlone exec x s =
      (h e).runAlone exec (fun n => x (n + p.callsAlone exec x s)) s' := by
  induction p generalizing x s with
  | ret b => cases hp
  | raise e' =>
    cases hp
    rfl
  | call c k ih => exact ih _ hp

theorem callsAlone_attempt_ok {h : ε → Prog Cmd ε α} {a : α}
    (hp : p.runAlone exec x s = (.ok a, s')) :
    (p.attempt h).callsAlone exec x s = p.callsAlone exec x s := by
  induction p generalizing x s with
  | ret b => rfl
  | raise e => cases hp
  | call c k ih => exact congrArg (· + 1) (ih _ hp)

theorem callsAlone_attempt_error {h : ε → Prog Cmd ε α} {e : ε}
    (hp : p.runAlone exec x s = (.error e, s')) :
    (p.attempt h).callsAlone exec x s = p.callsAlone exec x s +
      (h e).callsAlone exec (fun n => x (n + p.callsAlone exec x s)) s' := by
  induction p generalizing x s with
  | ret b => cases hp
  | raise e' =>
    cases hp
    simp only [attempt, callsAlone, Nat.zero_add, Nat.add_zero]
  | call c k ih =>
    change ((k _).attempt h).callsAlone exec _ _ + 1 = _
    rw [ih _ hp, Nat.add_right_comm]
    rfl

end Bind

end Prog

/-! ## Programs with an object of their own -/

namespace Local

section Bind

variable {p : Local Cmd ε ρ α} {f : α → Local Cmd ε ρ γ} {o o' : ρ} {x : ℕ → ι} {s s' : σ}

theorem runAlone_bind_ok {a : α} (h : (p o).runAlone exec x s = (.ok (.ok a, o'), s')) :
    (p.bind f o).runAlone exec x s =
      (f a o').runAlone exec (fun n => x (n + (p o).callsAlone exec x s)) s' := by
  unfold Local.bind
  rw [Prog.runAlone_bind_ok h]

theorem runAlone_bind_error {e : ε} (h : (p o).runAlone exec x s = (.ok (.error e, o'), s')) :
    (p.bind f o).runAlone exec x s = (.ok (.error e, o'), s') := by
  unfold Local.bind
  rw [Prog.runAlone_bind_ok h]
  rfl

/-- Such programs should not raise by themselves; one that does is not caught. -/
theorem runAlone_bind_raise {e : ε} (h : (p o).runAlone exec x s = (.error e, s')) :
    (p.bind f o).runAlone exec x s = (.error e, s') :=
  Prog.runAlone_bind_error h

theorem runAlone_attempt_raise {h : ε → Local Cmd ε ρ α} {e : ε}
    (hp : (p o).runAlone exec x s = (.error e, s')) :
    (p.attempt h o).runAlone exec x s = (.error e, s') :=
  Prog.runAlone_bind_error hp

theorem runAlone_attempt_ok {h : ε → Local Cmd ε ρ α} {a : α}
    (hp : (p o).runAlone exec x s = (.ok (.ok a, o'), s')) :
    (p.attempt h o).runAlone exec x s = (.ok (.ok a, o'), s') := by
  unfold Local.attempt
  rw [Prog.runAlone_bind_ok hp]
  rfl

theorem runAlone_attempt_error {h : ε → Local Cmd ε ρ α} {e : ε}
    (hp : (p o).runAlone exec x s = (.ok (.error e, o'), s')) :
    (p.attempt h o).runAlone exec x s =
      (h e o').runAlone exec (fun n => x (n + (p o).callsAlone exec x s)) s' := by
  unfold Local.attempt
  rw [Prog.runAlone_bind_ok hp]

theorem callsAlone_attempt_ok {h : ε → Local Cmd ε ρ α} {a : α}
    (hp : (p o).runAlone exec x s = (.ok (.ok a, o'), s')) :
    (p.attempt h o).callsAlone exec x s = (p o).callsAlone exec x s := by
  unfold Local.attempt
  rw [Prog.callsAlone_bind_ok hp]
  rfl

theorem runAlone_lift_ok {q : Prog Cmd ε α} {a : α} (h : q.runAlone exec x s = (.ok a, s')) :
    (lift q o).runAlone exec x s = (.ok (.ok a, o), s') := by
  refine Prog.runAlone_attempt_ok ?_
  rw [Prog.runAlone_bind_ok h]
  rfl

theorem runAlone_lift_error {q : Prog Cmd ε α} {e : ε}
    (h : q.runAlone exec x s = (.error e, s')) :
    (lift q o).runAlone exec x s = (.ok (.error e, o), s') := by
  unfold lift
  rw [Prog.runAlone_attempt_error (Prog.runAlone_bind_error h)]
  rfl

/-- A program that does not touch the object makes the calls it makes by itself. -/
theorem callsAlone_lift {q : Prog Cmd ε α} :
    (lift q o : Prog Cmd ε (Except ε α × ρ)).callsAlone exec x s = q.callsAlone exec x s := by
  induction q generalizing x s with
  | ret a => rfl
  | raise e => rfl
  | call c k ih => exact congrArg (· + 1) (ih _)

end Bind

end Local

/-! ## What a monitor has checked -/

namespace Monitor

variable {M : Monitor Cmd ε μ} {Q : α → μ → Prop} {E : ε → μ → Prop} {I : μ → σ → Prop}

/-- **What licit calls keep is kept by the run.** -/
theorem Conforms.runAlone {p : Prog Cmd ε α} {m : μ} (h : M.Conforms p Q E m)
    (hI : ∀ m s ⦃β : Type⦄ (c : Cmd β) x, I m s → M.licit m c →
      I (M.next m c (exec c x s).1) (exec c x s).2) {x : ℕ → ι} {s : σ} (hs : I m s) :
    ∃ m', I m' (p.runAlone exec x s).2 ∧
      match (p.runAlone exec x s).1 with
      | .ok a => Q a m'
      | .error e => E e m' := by
  induction p generalizing m x s with
  | ret a => exact ⟨m, hs, h⟩
  | raise e => exact ⟨m, hs, h⟩
  | call c k ih => exact ih _ (h.2 _) (hI m s c _ hs h.1)

/-- The monitor that allows the calls in `L` and remembers nothing. -/
def only (ε : Type) (L : ∀ ⦃β : Type⦄, Cmd β → Prop) : Monitor Cmd ε Unit where
  licit _ _ c := L c
  next _ _ _ _ := ()

/-- Every call that the program can make is in `L`. -/
abbrev Makes (L : ∀ ⦃β : Type⦄, Cmd β → Prop) (p : Prog Cmd ε α) : Prop :=
  (only ε L).Conforms p (fun _ _ => True) (fun _ _ => True) ()

section Makes

variable {L : ∀ ⦃β : Type⦄, Cmd β → Prop}

theorem makes_perform {c : Cmd α} (hc : L c) : Makes L (Prog.perform c : Prog Cmd ε α) :=
  conforms_perform hc (fun _ => trivial) fun _ => trivial

theorem makes_bind {p : Prog Cmd ε α} {f : α → Prog Cmd ε γ} (hp : Makes L p)
    (hf : ∀ a, Makes L (f a)) : Makes L (p.bind f) :=
  conforms_bind hp fun a _ _ => hf a

theorem makes_attempt {p : Prog Cmd ε α} {h : ε → Prog Cmd ε α} (hp : Makes L p)
    (hh : ∀ e, Makes L (h e)) : Makes L (p.attempt h) :=
  conforms_attempt hp fun e _ _ => hh e

theorem makes_localBind {p : Local Cmd ε ρ α} {f : α → Local Cmd ε ρ γ} {o : ρ}
    (hp : Makes L (p o)) (hf : ∀ a o', Makes L (f a o')) : Makes L (p.bind f o) :=
  Local.conforms_bind hp (fun a o' _ _ => hf a o') fun _ _ _ _ => trivial

theorem makes_lift {p : Prog Cmd ε α} (o : ρ) (hp : Makes L p) : Makes L (Local.lift p o) :=
  Local.conforms_lift hp

/-- What every call in `L` keeps is kept by the run. -/
theorem Makes.runAlone {p : Prog Cmd ε α} (h : Makes L p) {P : σ → Prop}
    (hP : ∀ s ⦃β : Type⦄ (c : Cmd β) x, P s → L c → P (exec c x s).2) (x : ℕ → ι) {s : σ}
    (hs : P s) : P (p.runAlone exec x s).2 := by
  have hI : ∀ (m : Unit) s ⦃β : Type⦄ (c : Cmd β) x, P s → (only ε L).licit m c →
      P (exec c x s).2 := fun _ s _ c x hs hc => hP s c x hs hc
  obtain ⟨-, hend, -⟩ := Conforms.runAlone (I := fun _ => P) h hI (x := x) hs
  exact hend

end Makes

end Monitor

end Interleaving
end RagflowAgent
