import Mathlib.Data.List.Basic
import Mathlib.Data.Nat.Notation

/-!
# Neighbours in pairs

A list is cut into pairs of neighbours, of which the last one may be single.

* `pairs`, with `flatten_pairs`, `length_pairs` and `map_pairs`: no entry is lost, and the number
  of pairs is half of the number of entries, rounded up;
* `merged` joins lists in pairs, and `mergedBy n` does so `n` times;
* `eraseDups_flatten_map_eraseDups`: repeated entries may be dropped before lists are joined.
-/

namespace RagflowAgent
namespace Pairing

variable {α β : Type}

/-! ## Pairs -/

/-- `[l[i : i + 2] for i in range(0, len(l), 2)]`. -/
def pairs : List α → List (List α)
  | [] => []
  | [a] => [[a]]
  | a :: b :: l => [a, b] :: pairs l

/-- The pairs read the list. -/
theorem flatten_pairs (l : List α) : (pairs l).flatten = l := by
  induction l using pairs.induct with
  | case1 => rfl
  | case2 a => rfl
  | case3 a b l ih => rw [pairs, List.flatten_cons, ih]; rfl

theorem length_pairs (l : List α) : (pairs l).length = (l.length + 1) / 2 := by
  induction l using pairs.induct with
  | case1 => simp [pairs]
  | case2 a => simp [pairs]
  | case3 a b l ih =>
    rw [pairs, List.length_cons, ih, List.length_cons, List.length_cons]
    omega

theorem map_pairs (f : α → β) (l : List α) : (pairs l).map (List.map f) = pairs (l.map f) := by
  induction l using pairs.induct with
  | case1 => rfl
  | case2 a => rfl
  | case3 a b l ih => rw [pairs, List.map_cons, ih]; rfl

/-- No pair is empty. -/
theorem ne_nil_of_mem_pairs {l pair : List α} (h : pair ∈ pairs l) : pair ≠ [] := by
  induction l using pairs.induct with
  | case1 => exact absurd h List.not_mem_nil
  | case2 a =>
    rw [pairs, List.mem_singleton] at h
    rw [h]
    exact List.cons_ne_nil _ _
  | case3 a b l ih =>
    rcases List.mem_cons.1 h with rfl | h
    · exact List.cons_ne_nil _ _
    · exact ih h

/-- The entries of a pair are entries of the list. -/
theorem mem_of_mem_pairs {l pair : List α} (h : pair ∈ pairs l) : ∀ a ∈ pair, a ∈ l := by
  intro a ha
  rw [← flatten_pairs l]
  exact List.mem_flatten.2 ⟨pair, h, ha⟩

/-- Lists joined in pairs. -/
def merged (l : List (List α)) : List (List α) := (pairs l).map List.flatten

def mergedBy : ℕ → List (List α) → List (List α)
  | 0, l => l
  | n + 1, l => mergedBy n (merged l)

theorem flatten_merged (l : List (List α)) : (merged l).flatten = l.flatten := by
  rw [merged, ← List.flatten_flatten, flatten_pairs]

/-- However often lists are joined, they have the same entries in the same order. -/
theorem flatten_mergedBy (n : ℕ) (l : List (List α)) : (mergedBy n l).flatten = l.flatten := by
  induction n generalizing l with
  | zero => rfl
  | succ n ih => rw [mergedBy, ih, flatten_merged]

/-! ## Repeated entries -/

variable [BEq α] [LawfulBEq α]

theorem filter_eraseDups (p : α → Bool) (l : List α) :
    l.eraseDups.filter p = (l.filter p).eraseDups := by
  induction hn : l.length using Nat.strongRecOn generalizing l with
  | _ n ih =>
    cases l with
    | nil => rfl
    | cons a l =>
      have hless : (l.filter fun b => !b == a).length < n := by
        have hle := List.length_filter_le (fun b => !b == a) l
        rw [List.length_cons] at hn
        omega
      have hrest := ih _ hless (l.filter fun b => !b == a) rfl
      rw [List.filter_filter] at hrest
      rw [List.eraseDups_cons]
      by_cases ha : p a = true
      · rw [List.filter_cons_of_pos ha, List.filter_cons_of_pos ha, List.eraseDups_cons, hrest,
          List.filter_filter]
        refine congrArg (fun m => a :: List.eraseDups m) (List.filter_congr fun b _ => ?_)
        exact Bool.and_comm _ _
      · rw [List.filter_cons_of_neg ha, List.filter_cons_of_neg ha, hrest]
        -- what `p` lets pass is not `a`
        refine congrArg List.eraseDups (List.filter_congr fun b _ => ?_)
        by_cases hb : p b = true
        · have hne : b ≠ a := by
            rintro rfl
            exact ha hb
          simp [hb, hne]
        · simp [hb]

theorem nodup_eraseDups (l : List α) : l.eraseDups.Nodup := by
  induction hn : l.length using Nat.strongRecOn generalizing l with
  | _ n ih =>
    cases l with
    | nil => exact List.nodup_nil
    | cons a l =>
      rw [List.eraseDups_cons, List.nodup_cons]
      have hless : (l.filter fun b => !b == a).length < n := by
        have hle := List.length_filter_le (fun b => !b == a) l
        rw [List.length_cons] at hn
        omega
      refine ⟨fun hmem => ?_, ih _ hless _ rfl⟩
      rw [List.mem_eraseDups, List.mem_filter] at hmem
      simp at hmem

theorem eraseDups_eraseDups (l : List α) : l.eraseDups.eraseDups = l.eraseDups := by
  induction hn : l.length using Nat.strongRecOn generalizing l with
  | _ n ih =>
    cases l with
    | nil => rfl
    | cons a l =>
      have hless : (l.filter fun b => !b == a).length < n := by
        have hle := List.length_filter_le (fun b => !b == a) l
        rw [List.length_cons] at hn
        omega
      rw [List.eraseDups_cons, List.eraseDups_cons, filter_eraseDups, List.filter_filter]
      simp only [Bool.and_self]
      rw [ih _ hless _ rfl]

/-- **Repeated entries may be dropped before lists are joined.** -/
theorem eraseDups_flatten_map_eraseDups (l : List (List α)) :
    (l.map List.eraseDups).flatten.eraseDups = l.flatten.eraseDups := by
  induction l with
  | nil => rfl
  | cons m l ih =>
    have hsame : (l.map List.eraseDups).flatten.removeAll m.eraseDups =
        (l.map List.eraseDups).flatten.removeAll m := by
      refine List.filter_congr fun a _ => ?_
      have hiff : m.eraseDups.elem a = m.elem a := by
        rw [Bool.eq_iff_iff, List.elem_iff, List.elem_iff, List.mem_eraseDups]
      exact congrArg not hiff
    rw [List.map_cons, List.flatten_cons, List.flatten_cons, List.eraseDups_append,
      List.eraseDups_append, eraseDups_eraseDups, hsame]
    have hdrop : ∀ l' : List α, (l'.removeAll m).eraseDups = l'.eraseDups.removeAll m :=
      fun l' => (filter_eraseDups _ l').symm
    rw [hdrop, hdrop, ih]

end Pairing
end RagflowAgent
