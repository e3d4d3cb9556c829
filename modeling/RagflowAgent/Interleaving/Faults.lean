import Mathlib.Data.Option.Basic
import Mathlib.Data.Nat.Notation

/-!
# Calls that can fail

A call to another process can fail in two ways: before it takes effect, and after.  The caller
sees an error in both.  `execFaulty` makes such calls out of an effect, the effect of a call that
is answered: which failure there is, if any, is part of the input of the call.
-/

namespace RagflowAgent
namespace Interleaving

variable {Cmd : Type → Type 1} {ε ι σ β : Type}

/-- The failures in the input of a call. -/
structure Faults (ε : Type) where
  /-- The call fails and has no effect. -/
  fault : Option ε := none
  /-- The call takes effect and then fails. -/
  lateFault : Option ε := none
  deriving DecidableEq, Repr

/-- One call.  Calls that are not external do not fail, other than by their effect. -/
def execFaulty (external : ∀ ⦃β : Type⦄, Cmd β → Bool) (faults : ι → Faults ε)
    (effect : ∀ ⦃β : Type⦄, Cmd β → ι → σ → Except ε (β × σ)) ⦃β : Type⦄ (c : Cmd β) (x : ι)
    (s : σ) : Except ε β × σ :=
  match (faults x).fault.filter fun _ => external c with
  | some e => (.error e, s)
  | none =>
    match effect c x s with
    | .error e => (.error e, s)
    | .ok (b, s') =>
      match (faults x).lateFault.filter fun _ => external c with
      | some e => (.error e, s')
      | none => (.ok b, s')

variable {external : ∀ ⦃β : Type⦄, Cmd β → Bool} {faults : ι → Faults ε}
  {effect : ∀ ⦃β : Type⦄, Cmd β → ι → σ → Except ε (β × σ)} {c : Cmd β} {x : ι} {s s' : σ} {b : β}

/-- **What one call can do**: fail and leave everything as it is, or take effect, and then answer
or fail. -/
theorem execFaulty_cases (external : ∀ ⦃β : Type⦄, Cmd β → Bool) (faults : ι → Faults ε)
    (effect : ∀ ⦃β : Type⦄, Cmd β → ι → σ → Except ε (β × σ)) (c : Cmd β) (x : ι) (s : σ) :
    (∃ e, execFaulty external faults effect c x s = (.error e, s)) ∨
      ∃ b s', effect c x s = .ok (b, s') ∧
        (execFaulty external faults effect c x s = (.ok b, s') ∨
          ∃ e, execFaulty external faults effect c x s = (.error e, s')) := by
  unfold execFaulty
  split
  · exact .inl ⟨_, rfl⟩
  split
  · exact .inl ⟨_, rfl⟩
  · rename_i b s' heffect
    refine .inr ⟨b, s', heffect, ?_⟩
    split
    · exact .inr ⟨_, rfl⟩
    · exact .inl rfl

/-- A call whose fault does not come takes effect. -/
theorem execFaulty_snd (hfault : (faults x).fault = none) (h : effect c x s = .ok (b, s')) :
    (execFaulty external faults effect c x s).2 = s' := by
  unfold execFaulty
  rw [hfault, Option.filter_none, h]
  dsimp only
  split <;> rfl

/-- A call whose fault comes has no effect. -/
theorem execFaulty_of_fault {e : ε} (hexternal : external c = true)
    (hfault : (faults x).fault = some e) :
    execFaulty external faults effect c x s = (.error e, s) := by
  have hfilter : (faults x).fault.filter (fun _ => external c) = some e := by
    rw [hfault, Option.filter_some, hexternal]
    rfl
  unfold execFaulty
  rw [hfilter]

/-- A call that has no effect fails, or leaves everything as it is. -/
theorem execFaulty_snd_of_error {e : ε} (h : effect c x s = .error e) :
    (execFaulty external faults effect c x s).2 = s := by
  rcases execFaulty_cases external faults effect c x s with ⟨e', he⟩ | ⟨b, s', heffect, -⟩
  · rw [he]
  · rw [h] at heffect
    cases heffect

/-- A call that only reads leaves everything as it is. -/
theorem execFaulty_snd_of_read (h : effect c x s = .ok (b, s)) :
    (execFaulty external faults effect c x s).2 = s := by
  rcases execFaulty_cases external faults effect c x s with ⟨e, he⟩ | ⟨b', s', heffect, he⟩
  · rw [he]
  · rw [h] at heffect
    cases heffect
    rcases he with he | ⟨e, he⟩ <;> rw [he]

/-- A call has its effect or none. -/
theorem execFaulty_snd_cases (h : effect c x s = .ok (b, s')) :
    (execFaulty external faults effect c x s).2 = s ∨
      (execFaulty external faults effect c x s).2 = s' := by
  rcases execFaulty_cases external faults effect c x s with ⟨e, he⟩ | ⟨b', s'', heffect, he⟩
  · exact .inl (by rw [he])
  · rw [h] at heffect
    cases heffect
    exact .inr (by rcases he with he | ⟨e, he⟩ <;> rw [he])

/-- An answer is the answer of the effect. -/
theorem execFaulty_eq_ok (h : execFaulty external faults effect c x s = (.ok b, s')) :
    effect c x s = .ok (b, s') := by
  rcases execFaulty_cases external faults effect c x s with ⟨e, he⟩ | ⟨b', s'', heffect, he⟩
  · rw [he] at h
    cases h
  · rcases he with he | ⟨e, he⟩ <;> rw [he] at h <;> cases h
    exact heffect

/-- The effect of a call that is answered. -/
theorem execFaulty_of_ok (hr : (execFaulty external faults effect c x s).1 = .ok b) :
    effect c x s = .ok (b, (execFaulty external faults effect c x s).2) :=
  execFaulty_eq_ok (Prod.ext hr rfl)

end Interleaving
end RagflowAgent
