import Mathlib.Data.Nat.Notation

/-!
# Programs that call a shared service

A service handler of an asynchronous application is a sequential program that now
and then *calls* something outside itself: a database, an index, a clock.  Between
two calls nothing it does can be seen by anybody else, and at a call everybody else
may have moved.  So such a program is a tree: it has returned, or it has raised, or
it waits on one call with a continuation for every answer.

* `Prog` is that tree, over a signature `Cmd` of calls, with `Prog.bind` and
  `Prog.attempt` (a `try … except` block) and the `Monad` they form;
* `Prog.pending` is what a program waits on;
* `Prog.runAlone` runs a program with nobody else present, on a stream of inputs
  that settles whatever the outside world decides (a clock reading, a failure);
* `Prog.embed` reads a program over a larger signature;
* `Prog.CanEnd` says what a program can return or raise when its calls are answered in any
  way at all.

Nothing here knows which calls there are.  A call is answered by a function
`exec : Cmd β → ι → σ → Except ε β × σ`: the answer and the next shared state.
-/

namespace RagflowAgent
namespace Interleaving

variable {Cmd : Type → Type 1} {ε α γ ι σ : Type}

/-- A sequential program over the calls `Cmd`, raising errors in `ε`. -/
inductive Prog (Cmd : Type → Type 1) (ε α : Type) : Type 1 where
  | ret (a : α) : Prog Cmd ε α
  | raise (e : ε) : Prog Cmd ε α
  | call {β : Type} (c : Cmd β) (k : Except ε β → Prog Cmd ε α) : Prog Cmd ε α

namespace Prog

/-- Run `p`, then `f` on what it returns. -/
def bind : Prog Cmd ε α → (α → Prog Cmd ε γ) → Prog Cmd ε γ
  | ret a, f => f a
  | raise e, _ => raise e
  | call c k, f => call c fun r => (k r).bind f

/-- Run `p`; if it raises, run the handler.  This is `try p except error: h error`. -/
def attempt : Prog Cmd ε α → (ε → Prog Cmd ε α) → Prog Cmd ε α
  | ret a, _ => ret a
  | raise e, h => h e
  | call c k, h => call c fun r => (k r).attempt h

/-- A pure computation that may raise. -/
def ofExcept : Except ε α → Prog Cmd ε α
  | .ok a => ret a
  | .error e => raise e

/-- One call, raising the error it answers with. -/
def perform (c : Cmd α) : Prog Cmd ε α := call c ofExcept

instance : Monad (Prog Cmd ε) where
  pure := ret
  bind := bind

instance : MonadLift (Except ε) (Prog Cmd ε) where
  monadLift := ofExcept

/-- `if p: raise e`. -/
def raiseWhen (p : Prop) [Decidable p] (e : ε) : Prog Cmd ε Unit :=
  if p then raise e else ret ()

/-- `for a in l: f a`. -/
def forEach : List γ → (γ → Prog Cmd ε Unit) → Prog Cmd ε Unit
  | [], _ => ret ()
  | a :: l, f => (f a).bind fun _ => forEach l f

@[simp] theorem pure_eq (a : α) : (pure a : Prog Cmd ε α) = ret a := rfl

@[simp] theorem bind_eq (p : Prog Cmd ε α) (f : α → Prog Cmd ε γ) :
    (p >>= f) = p.bind f := rfl

@[simp] theorem monadLift_eq (r : Except ε α) :
    (liftM r : Prog Cmd ε α) = ofExcept r := rfl

@[simp] theorem ret_bind (a : α) (f : α → Prog Cmd ε γ) : (ret a).bind f = f a := rfl

@[simp] theorem raise_bind (e : ε) (f : α → Prog Cmd ε γ) : (raise e).bind f = raise e := rfl

@[simp] theorem call_bind {β : Type} (c : Cmd β) (k : Except ε β → Prog Cmd ε α)
    (f : α → Prog Cmd ε γ) : (call c k).bind f = call c fun r => (k r).bind f := rfl

@[simp] theorem ofExcept_ok (a : α) : (ofExcept (.ok a) : Prog Cmd ε α) = ret a := rfl

@[simp] theorem ofExcept_error (e : ε) :
    (ofExcept (.error e) : Prog Cmd ε α) = raise e := rfl

/-- Forget what a program returns. -/
def void (p : Prog Cmd ε α) : Prog Cmd ε Unit := p.bind fun _ => ret ()

/-- The call a program waits on, if it waits on one. -/
def pending : Prog Cmd ε α → Option (Σ β : Type, Cmd β)
  | ret _ => none
  | raise _ => none
  | call c _ => some ⟨_, c⟩

/-- A program that waits on no call has finished. -/
def Finished (p : Prog Cmd ε α) : Prop := p.pending = none

/-- What a program has returned, if it has returned. -/
def returned : Prog Cmd ε α → Option α
  | ret a => some a
  | raise _ => none
  | call _ _ => none

theorem returned_eq_some {p : Prog Cmd ε α} {a : α} : p.returned = some a ↔ p = ret a := by
  cases p with
  | ret a' => exact ⟨fun h => by cases h; rfl, fun h => by cases h; rfl⟩
  | raise e => exact ⟨nofun, nofun⟩
  | call c k => exact ⟨nofun, nofun⟩

/-- The error that a program has raised, if it has raised one. -/
def raised : Prog Cmd ε α → Option ε
  | ret _ => none
  | raise e => some e
  | call _ _ => none

theorem raised_eq_some {p : Prog Cmd ε α} {e : ε} : p.raised = some e ↔ p = raise e := by
  cases p with
  | ret a => exact ⟨nofun, nofun⟩
  | raise e' => exact ⟨fun h => by cases h; rfl, fun h => by cases h; rfl⟩
  | call c k => exact ⟨nofun, nofun⟩

/-- Answer the pending call of a program and go on to the next one.  A finished
program stays as it is. -/
def resume (exec : ∀ ⦃β : Type⦄, Cmd β → ι → σ → Except ε β × σ) (x : ι) (s : σ) :
    Prog Cmd ε α → Prog Cmd ε α × σ
  | ret a => (ret a, s)
  | raise e => (raise e, s)
  | call c k => (k (exec c x s).1, (exec c x s).2)

/-- Run a program with nobody else present.  The `n`-th call it makes is answered
with the `n`-th input. -/
def runAlone (exec : ∀ ⦃β : Type⦄, Cmd β → ι → σ → Except ε β × σ) :
    Prog Cmd ε α → (ℕ → ι) → σ → Except ε α × σ
  | ret a, _, s => (.ok a, s)
  | raise e, _, s => (.error e, s)
  | call c k, x, s =>
    (k (exec c (x 0) s).1).runAlone exec (fun n => x (n + 1)) (exec c (x 0) s).2

/-- The same program over a larger signature. -/
def embed {Cmd' : Type → Type 1} (f : ∀ ⦃β : Type⦄, Cmd β → Cmd' β) :
    Prog Cmd ε α → Prog Cmd' ε α
  | ret a => ret a
  | raise e => raise e
  | call c k => call (f c) fun r => (k r).embed f

/-! ## What a program can end with -/

/-- Some answers to its calls make the program end with `r`. -/
def CanEnd : Prog Cmd ε α → Except ε α → Prop
  | ret a, r => r = .ok a
  | raise e, r => r = .error e
  | call _ k, r => ∃ answer, (k answer).CanEnd r

@[simp] theorem canEnd_ret {a : α} {r : Except ε α} :
    (ret a : Prog Cmd ε α).CanEnd r ↔ r = .ok a := Iff.rfl

@[simp] theorem canEnd_raise {e : ε} {r : Except ε α} :
    (raise e : Prog Cmd ε α).CanEnd r ↔ r = .error e := Iff.rfl

@[simp] theorem canEnd_ofExcept {r r' : Except ε α} :
    (ofExcept r : Prog Cmd ε α).CanEnd r' ↔ r' = r := by
  cases r <;> exact Iff.rfl

/-- What runs alone ends with something it can end with. -/
theorem canEnd_runAlone (exec : ∀ ⦃β : Type⦄, Cmd β → ι → σ → Except ε β × σ)
    (p : Prog Cmd ε α) (x : ℕ → ι) (s : σ) : p.CanEnd (p.runAlone exec x s).1 := by
  induction p generalizing x s with
  | ret a => rfl
  | raise e => rfl
  | call c k ih => exact ⟨(exec c (x 0) s).1, ih _ _ _⟩

theorem canEnd_bind {p : Prog Cmd ε α} {f : α → Prog Cmd ε γ} {r : Except ε γ} :
    (p.bind f).CanEnd r ↔
      (∃ a, p.CanEnd (.ok a) ∧ (f a).CanEnd r) ∨ ∃ e, p.CanEnd (.error e) ∧ r = .error e := by
  induction p with
  | ret a =>
    constructor
    · intro h
      exact .inl ⟨a, rfl, h⟩
    · rintro (⟨b, hb, h⟩ | ⟨e, he, -⟩)
      · cases hb
        exact h
      · cases he
  | raise e =>
    constructor
    · intro h
      exact .inr ⟨e, rfl, h⟩
    · rintro (⟨b, hb, -⟩ | ⟨e', he, h⟩)
      · cases hb
      · cases he
        exact h
  | call c k ih =>
    constructor
    · rintro ⟨answer, h⟩
      rcases (ih answer).1 h with ⟨a, ha, h⟩ | ⟨e, he, h⟩
      · exact .inl ⟨a, ⟨answer, ha⟩, h⟩
      · exact .inr ⟨e, ⟨answer, he⟩, h⟩
    · rintro (⟨a, ⟨answer, ha⟩, h⟩ | ⟨e, ⟨answer, he⟩, h⟩)
      · exact ⟨answer, (ih answer).2 (.inl ⟨a, ha, h⟩)⟩
      · exact ⟨answer, (ih answer).2 (.inr ⟨e, he, h⟩)⟩

/-- What a sequence returns was returned by its second part. -/
theorem canEnd_bind_ok {p : Prog Cmd ε α} {f : α → Prog Cmd ε γ} {b : γ} :
    (p.bind f).CanEnd (.ok b) ↔ ∃ a, p.CanEnd (.ok a) ∧ (f a).CanEnd (.ok b) := by
  rw [canEnd_bind]
  constructor
  · rintro (h | ⟨e, -, h⟩)
    · exact h
    · cases h
  · exact .inl

/-- Every program can end: there is an answer to every call. -/
theorem exists_canEnd [Nonempty ε] (p : Prog Cmd ε α) : ∃ r, p.CanEnd r := by
  induction p with
  | ret a => exact ⟨_, rfl⟩
  | raise e => exact ⟨_, rfl⟩
  | call c k ih =>
    obtain ⟨e⟩ := ‹Nonempty ε›
    obtain ⟨r, hr⟩ := ih (.error e)
    exact ⟨r, .error e, hr⟩

end Prog

end Interleaving
end RagflowAgent
