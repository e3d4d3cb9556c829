import Mathlib.Algebra.Order.Field.Basic
import Mathlib.Tactic.Linarith

/-!
# The gaps between intervals

A sweep over intervals that are sorted by their left ends finds the gaps that no interval covers,
each with its size and its middle.  The middle of a gap separates the intervals: each of them
lies on one side of it, `clear_of_mem_gaps`.
-/

namespace RagflowAgent
namespace Intervals

variable {K : Type} [Field K] [LinearOrder K] [IsStrictOrderedRing K]

/-- The gaps of the intervals, where everything up to `occupiedEnd` is covered already. -/
def gapsFrom (occupiedEnd : K) : List (K × K) → List (K × K)
  | [] => []
  | (left, right) :: intervals =>
    (if occupiedEnd < left then [(left - occupiedEnd, (left + occupiedEnd) / 2)] else []) ++
      gapsFrom (max occupiedEnd right) intervals

/-- The sizes and the middles of the gaps. -/
def gaps : List (K × K) → List (K × K)
  | [] => []
  | (_, right) :: intervals => gapsFrom right intervals

/-- The interval lies on one side of the place. -/
def Clear (place : K) (interval : K × K) : Prop := interval.2 < place ∨ place < interval.1

variable {occupiedEnd : K} {intervals : List (K × K)} {gap : K × K}

/-- A gap comes after what is covered, and is clear of the other intervals. -/
theorem clear_of_mem_gapsFrom (hsorted : intervals.Pairwise fun i j => i.1 ≤ j.1)
    (h : gap ∈ gapsFrom occupiedEnd intervals) :
    occupiedEnd < gap.2 ∧ ∀ interval ∈ intervals, Clear gap.2 interval := by
  induction intervals generalizing occupiedEnd with
  | nil => exact absurd h List.not_mem_nil
  | cons first intervals ih =>
    obtain ⟨left, right⟩ := first
    obtain ⟨hfirst, hrest⟩ := List.pairwise_cons.1 hsorted
    rw [gapsFrom, List.mem_append] at h
    rcases h with h | h
    · -- the gap before the first interval
      split at h
      · rename_i hlt
        rw [List.mem_singleton.1 h]
        have hlow : occupiedEnd < (left + occupiedEnd) / 2 := by linarith
        have hhigh : (left + occupiedEnd) / 2 < left := by linarith
        refine ⟨hlow, List.forall_mem_cons.2 ⟨Or.inr hhigh, fun interval hmem => Or.inr ?_⟩⟩
        exact hhigh.trans_le (hfirst interval hmem)
      · exact absurd h List.not_mem_nil
    · obtain ⟨hend, hclear⟩ := ih hrest h
      obtain ⟨hoccupied, hright⟩ := max_lt_iff.1 hend
      exact ⟨hoccupied, List.forall_mem_cons.2 ⟨Or.inl hright, hclear⟩⟩

/-- **The middle of a gap is clear of every interval.** -/
theorem clear_of_mem_gaps (hsorted : intervals.Pairwise fun i j => i.1 ≤ j.1)
    (h : gap ∈ gaps intervals) : ∀ interval ∈ intervals, Clear gap.2 interval := by
  cases intervals with
  | nil => exact absurd h List.not_mem_nil
  | cons first intervals =>
    obtain ⟨hend, hclear⟩ := clear_of_mem_gapsFrom (List.pairwise_cons.1 hsorted).2 h
    exact List.forall_mem_cons.2 ⟨Or.inl hend, hclear⟩

end Intervals
end RagflowAgent
