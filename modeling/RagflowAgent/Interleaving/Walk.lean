import Mathlib.Order.Nat

/-!
# Walks of a machine that may halt

A machine moves from position to position and stops where it halts.  A walk is one of its
runs: an infinite sequence that takes a step as long as the machine has not halted, and then
stays where it is.

* `Walk.invariant`: what the start has and every step keeps, every position has;
* `Walk.halts_of_descends`: a measure that every step lowers bounds the length of the walk;
* `Walk.not_halted_of_trapped`: a set of positions that no step leaves and where nothing halts is
  a trap, and the walk never halts, before or after it is caught.
-/

namespace RagflowAgent
namespace Interleaving

variable {P : Type*} {Step : P → P → Prop} {Halted : P → Prop} {start : P}

/-- A run of a machine. -/
structure Walk (Step : P → P → Prop) (Halted : P → Prop) (start : P) where
  pos : ℕ → P
  zero : pos 0 = start
  succ : ∀ n, Step (pos n) (pos (n + 1)) ∨ Halted (pos n) ∧ pos (n + 1) = pos n

namespace Walk

variable (w : Walk Step Halted start)

theorem invariant {I : P → Prop} (hstart : I start) (hstep : ∀ p q, I p → Step p q → I q)
    (n : ℕ) : I (w.pos n) := by
  induction n with
  | zero =>
    rw [w.zero]
    exact hstart
  | succ n ih =>
    rcases w.succ n with h | ⟨-, h⟩
    · exact hstep _ _ ih h
    · rw [h]
      exact ih

/-- A machine that has halted stays where it is. -/
theorem eq_of_halted {n : ℕ} (h : Halted (w.pos n)) (hstop : ∀ p q, Halted p → ¬ Step p q)
    (k : ℕ) : w.pos (n + k) = w.pos n := by
  induction k with
  | zero => rfl
  | succ k ih =>
    have hk : Halted (w.pos (n + k)) := by rwa [ih]
    rcases w.succ (n + k) with hs | ⟨-, hs⟩
    · exact absurd hs (hstop _ _ hk)
    · rw [← ih]
      exact hs

/-- The walk halts before the measure is used up. -/
theorem halts_of_descends (measure : P → ℕ)
    (h : ∀ n, Halted (w.pos n) ∨ measure (w.pos (n + 1)) < measure (w.pos n)) :
    ∃ n, n ≤ measure start ∧ Halted (w.pos n) := by
  by_contra hno
  rw [not_exists] at hno
  -- as long as nothing has halted, every step costs one
  have hcost : ∀ n, n ≤ measure start + 1 → measure (w.pos n) + n ≤ measure start := by
    intro n
    induction n with
    | zero =>
      intro _
      rw [w.zero]
      exact Nat.le_refl _
    | succ n ih =>
      intro hn
      have hle := ih (by omega)
      rcases h n with hhalt | hlt
      · exact absurd ⟨by omega, hhalt⟩ (hno n)
      · omega
  have := hcost (measure start + 1) (Nat.le_refl _)
  omega

theorem not_halted_of_trapped {Trap : P → Prop} (hkeep : ∀ p q, Trap p → Step p q → Trap q)
    (hlive : ∀ p, Trap p → ¬ Halted p) (hstop : ∀ p q, Halted p → ¬ Step p q) {n : ℕ}
    (hn : Trap (w.pos n)) (m : ℕ) : ¬ Halted (w.pos m) := by
  have hlater : ∀ k, Trap (w.pos (n + k)) := by
    intro k
    induction k with
    | zero => exact hn
    | succ k ih =>
      rcases w.succ (n + k) with hs | ⟨hhalt, -⟩
      · exact hkeep _ _ ih hs
      · exact absurd hhalt (hlive _ ih)
  intro hm
  rcases Nat.le_total n m with hnm | hmn
  · obtain ⟨k, rfl⟩ := Nat.exists_eq_add_of_le hnm
    exact hlive _ (hlater k) hm
  · obtain ⟨k, rfl⟩ := Nat.exists_eq_add_of_le hmn
    rw [← w.eq_of_halted hm hstop k] at hm
    exact hlive _ hn hm

end Walk

end Interleaving
end RagflowAgent
