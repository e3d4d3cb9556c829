import RagflowAgent.Interleaving.Monitor

/-!
# Programs with an object of their own

A function may be handed a mutable object and change it as it goes.  When it raises, the
caller finds the object as the function left it.  A `Local` program takes the object and
gives back what it returned or raised together with the object, so it never raises by itself.

* `Local.bind`, `Local.attempt` and `Local.lift` put such programs together;
* `Local.update` is a method of the object;
* `Local.Preserves` says how a program can leave the object behind;
* the rules for `Monitor.Conforms` are those of plain programs.
-/

namespace RagflowAgent
namespace Interleaving

variable {Cmd : Type → Type 1} {ε α γ ρ μ : Type}

/-- A program that is handed an object in `ρ`. -/
def Local (Cmd : Type → Type 1) (ε ρ α : Type) : Type 1 := ρ → Prog Cmd ε (Except ε α × ρ)

namespace Local

def ret (a : α) : Local Cmd ε ρ α := fun o => .ret (.ok a, o)

def raise (e : ε) : Local Cmd ε ρ α := fun o => .ret (.error e, o)

def bind (p : Local Cmd ε ρ α) (f : α → Local Cmd ε ρ γ) : Local Cmd ε ρ γ := fun o =>
  (p o).bind fun
    | (.ok a, o') => f a o'
    | (.error e, o') => .ret (.error e, o')

/-- Run `p`; if it raises, run the handler on the object as it is then. -/
def attempt (p : Local Cmd ε ρ α) (h : ε → Local Cmd ε ρ α) : Local Cmd ε ρ α := fun o =>
  (p o).bind fun
    | (.ok a, o') => .ret (.ok a, o')
    | (.error e, o') => h e o'

/-- A program that does not touch the object. -/
def lift (p : Prog Cmd ε α) : Local Cmd ε ρ α := fun o =>
  (p.bind fun a => .ret (.ok a, o)).attempt fun e => .ret (.error e, o)

/-- A method of the object. -/
def update (f : ρ → Except ε α × ρ) : Local Cmd ε ρ α := fun o => .ret (f o)

/-- A pure computation that may raise. -/
def ofExcept (r : Except ε α) : Local Cmd ε ρ α := fun o => .ret (r, o)

instance : Monad (Local Cmd ε ρ) where
  pure := ret
  bind := bind

instance : MonadLift (Prog Cmd ε) (Local Cmd ε ρ) where
  monadLift := lift

instance : MonadLift (Except ε) (Local Cmd ε ρ) where
  monadLift := ofExcept

@[simp] theorem pure_eq (a : α) : (pure a : Local Cmd ε ρ α) = ret a := rfl

@[simp] theorem bind_eq (p : Local Cmd ε ρ α) (f : α → Local Cmd ε ρ γ) :
    (p >>= f) = p.bind f := rfl

@[simp] theorem liftM_prog_eq (p : Prog Cmd ε α) :
    (liftM p : Local Cmd ε ρ α) = lift p := rfl

@[simp] theorem liftM_except_eq (r : Except ε α) :
    (liftM r : Local Cmd ε ρ α) = ofExcept r := rfl

/-- A method of the object, and what follows it. -/
theorem update_bind_ok {f : ρ → Except ε α × ρ} {g : α → Local Cmd ε ρ γ} {o o' : ρ} {a : α}
    (h : f o = (.ok a, o')) : (update f).bind g o = g a o' := by
  simp only [bind, update, h, Prog.ret_bind]

theorem update_bind_error {f : ρ → Except ε α × ρ} {g : α → Local Cmd ε ρ γ} {o o' : ρ} {e : ε}
    (h : f o = (.error e, o')) : (update f).bind g o = .ret (.error e, o') := by
  simp only [bind, update, h, Prog.ret_bind]

/-! ## Rules for monitors -/

variable {M : Monitor Cmd ε μ} {Q : Except ε α × ρ → μ → Prop} {m : μ} {o : ρ}

/-- What a step of a sequence raises is raised with the object as it is then. -/
theorem conforms_bind {p : Local Cmd ε ρ α} {f : α → Local Cmd ε ρ γ}
    {Q : Except ε γ × ρ → μ → Prop} {E : ε → μ → Prop} {R : Except ε α × ρ → μ → Prop}
    (hp : M.Conforms (p o) R E m)
    (hf : ∀ a o' m', R (.ok a, o') m' → M.Conforms (f a o') Q E m')
    (herr : ∀ e o' m', R (.error e, o') m' → Q (.error e, o') m') :
    M.Conforms (p.bind f o) Q E m := by
  refine Monitor.conforms_bind hp fun r m' hr => ?_
  obtain ⟨r, o'⟩ := r
  cases r with
  | ok a => exact hf a o' m' hr
  | error e => exact herr e o' m' hr

theorem conforms_attempt {p : Local Cmd ε ρ α} {h : ε → Local Cmd ε ρ α} {E : ε → μ → Prop}
    {R : Except ε α × ρ → μ → Prop} (hp : M.Conforms (p o) R E m)
    (hok : ∀ a o' m', R (.ok a, o') m' → Q (.ok a, o') m')
    (hh : ∀ e o' m', R (.error e, o') m' → M.Conforms (h e o') Q E m') :
    M.Conforms (p.attempt h o) Q E m := by
  refine Monitor.conforms_bind hp fun r m' hr => ?_
  obtain ⟨r, o'⟩ := r
  cases r with
  | ok a => exact hok a o' m' hr
  | error e => exact hh e o' m' hr

theorem conforms_lift {p : Prog Cmd ε α} {E : ε → μ → Prop}
    (hp : M.Conforms p (fun a => Q (.ok a, o)) (fun e => Q (.error e, o)) m) :
    M.Conforms (lift p o) Q E m := by
  have hret : M.Conforms (p.bind fun a => .ret (.ok a, o)) Q (fun e => Q (.error e, o)) m :=
    Monitor.conforms_bind hp fun _ _ h => h
  exact Monitor.conforms_attempt hret fun _ _ h => h

/-- A program that does not touch the object, and what follows it. -/
theorem conforms_bind_lift {p : Prog Cmd ε α} {f : α → Local Cmd ε ρ γ}
    {Q : Except ε γ × ρ → μ → Prop} {E E' : ε → μ → Prop} {R : α → μ → Prop}
    (hp : M.Conforms p R E' m) (hf : ∀ a m', R a m' → M.Conforms (f a o) Q E m')
    (herr : ∀ e m', E' e m' → Q (.error e, o) m') : M.Conforms ((lift p).bind f o) Q E m := by
  have hlift : M.Conforms (lift p o) (fun r m' => r.2 = o ∧
      ((∃ a, r.1 = .ok a ∧ R a m') ∨ ∃ e, r.1 = .error e ∧ E' e m')) E m :=
    conforms_lift (hp.mono (fun a m' h => ⟨rfl, .inl ⟨a, rfl, h⟩⟩)
      fun e m' h => ⟨rfl, .inr ⟨e, rfl, h⟩⟩)
  refine conforms_bind hlift (fun a o' m' h => ?_) fun e o' m' h => ?_
  · obtain ⟨rfl, ⟨a', ha, hR⟩ | ⟨e, he, -⟩⟩ := h
    · cases ha
      exact hf a m' hR
    · cases he
  · obtain ⟨rfl, ⟨a, ha, -⟩ | ⟨e', he, hE⟩⟩ := h
    · cases ha
    · cases he
      exact herr e m' hE

/-- A pure computation, and what follows it. -/
theorem conforms_bind_ofExcept {r : Except ε α} {f : α → Local Cmd ε ρ γ}
    {Q : Except ε γ × ρ → μ → Prop} {E : ε → μ → Prop}
    (hf : ∀ a, r = .ok a → M.Conforms (f a o) Q E m)
    (herr : ∀ e, r = .error e → Q (.error e, o) m) :
    M.Conforms ((ofExcept r).bind f o) Q E m := by
  cases r with
  | ok a => exact hf a rfl
  | error e => exact herr e rfl

/-! ## What becomes of the object -/

/-- However the calls are answered, the object is left in relation `R` to what it was. -/
def Preserves (R : ρ → ρ → Prop) (p : Local Cmd ε ρ α) : Prop :=
  ∀ o r o', (p o).CanEnd (.ok (r, o')) → R o o'

variable {R : ρ → ρ → Prop}

theorem preserves_ret [Std.Refl R] (a : α) : Preserves R (ret a : Local Cmd ε ρ α) := by
  intro o r o' h
  cases h
  exact Std.Refl.refl o

theorem preserves_raise [Std.Refl R] (e : ε) : Preserves R (raise e : Local Cmd ε ρ α) := by
  intro o r o' h
  cases h
  exact Std.Refl.refl o

theorem preserves_ofExcept [Std.Refl R] (r : Except ε α) :
    Preserves R (ofExcept r : Local Cmd ε ρ α) := by
  intro o r' o' h
  cases h
  exact Std.Refl.refl o

theorem preserves_update {f : ρ → Except ε α × ρ} (hf : ∀ o, R o (f o).2) :
    Preserves R (update f : Local Cmd ε ρ α) := by
  intro o r o' h
  rw [update, Prog.canEnd_ret, Except.ok.injEq] at h
  have ho := hf o
  rw [← h] at ho
  exact ho

theorem preserves_lift [Std.Refl R] (p : Prog Cmd ε α) :
    Preserves R (lift p : Local Cmd ε ρ α) := by
  intro o r o' h
  have hsame : ∀ q : Prog Cmd ε α,
      ((q.bind fun a => .ret (.ok a, o)).attempt fun e => .ret (.error e, o)).CanEnd
        (.ok (r, o')) → o' = o := by
    intro q
    induction q with
    | ret a => intro h; cases h; rfl
    | raise e => intro h; cases h; rfl
    | call c k ih => exact fun ⟨answer, h⟩ => ih answer h
  rw [hsame p h]
  exact Std.Refl.refl o

theorem preserves_bind [IsTrans ρ R] {p : Local Cmd ε ρ α} {f : α → Local Cmd ε ρ γ}
    (hp : Preserves R p) (hf : ∀ a, Preserves R (f a)) : Preserves R (p.bind f) := by
  intro o r o' h
  obtain ⟨⟨a, o₁⟩, ha, h⟩ := Prog.canEnd_bind_ok.1 h
  have h₁ := hp o a o₁ ha
  cases a with
  | error e =>
    cases h
    exact h₁
  | ok a => exact IsTrans.trans _ _ _ h₁ (hf a o₁ r o' h)

theorem preserves_attempt [IsTrans ρ R] {p : Local Cmd ε ρ α} {h : ε → Local Cmd ε ρ α}
    (hp : Preserves R p) (hh : ∀ e, Preserves R (h e)) : Preserves R (p.attempt h) := by
  intro o r o' hend
  obtain ⟨⟨a, o₁⟩, ha, hend⟩ := Prog.canEnd_bind_ok.1 hend
  have h₁ := hp o a o₁ ha
  cases a with
  | ok a =>
    cases hend
    exact h₁
  | error e => exact IsTrans.trans _ _ _ h₁ (hh e o₁ r o' hend)

end Local

end Interleaving
end RagflowAgent
