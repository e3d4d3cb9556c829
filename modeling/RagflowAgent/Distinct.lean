import RagflowAgent.Pairing

/-!
# The first of each kind

`firsts key l` keeps of the entries of `l` with one key the first.
-/

namespace RagflowAgent

variable {α κ : Type} [DecidableEq κ]

/-- The entries whose key no entry before them has. -/
def firsts (key : α → κ) (l : List α) : List α :=
  l.eraseDupsBy fun a b => key a == key b

@[simp] theorem firsts_nil (key : α → κ) : firsts key [] = [] := rfl

theorem firsts_cons (key : α → κ) (a : α) (l : List α) :
    firsts key (a :: l) = a :: firsts key (l.filter fun b => key b ≠ key a) := by
  rw [firsts, List.eraseDupsBy_cons]
  simp [firsts, beq_eq_decide]

/-- The entries are kept in their order. -/
theorem sublist_firsts (key : α → κ) : ∀ l : List α, (firsts key l).Sublist l
  | [] => .slnil
  | a :: l => by
    rw [firsts_cons]
    exact ((sublist_firsts key _).trans List.filter_sublist).cons_cons a
termination_by l => l.length
decreasing_by exact Nat.lt_succ_of_le (List.length_filter_le _ _)

/-- The keys that are left are the keys without repetitions. -/
theorem map_firsts (key : α → κ) : ∀ l : List α, (firsts key l).map key = (l.map key).eraseDups
  | [] => rfl
  | a :: l => by
    rw [firsts_cons, List.map_cons, List.map_cons, List.eraseDups_cons, map_firsts key _,
      List.filter_map]
    congr 3
    exact List.filter_congr fun b _ => by simp [beq_eq_decide]
termination_by l => l.length
decreasing_by exact Nat.lt_succ_of_le (List.length_filter_le _ _)

theorem head?_firsts (key : α → κ) (l : List α) : (firsts key l).head? = l.head? := by
  cases l with
  | nil => rfl
  | cons a l => rw [firsts_cons, List.head?_cons, List.head?_cons]

theorem nodup_map_firsts (key : α → κ) (l : List α) : ((firsts key l).map key).Nodup :=
  map_firsts key l ▸ Pairing.nodup_eraseDups _

/-- Every key is left. -/
theorem exists_mem_firsts {key : α → κ} {l : List α} {a : α} (h : a ∈ l) :
    ∃ b ∈ firsts key l, key b = key a := by
  have hmem : key a ∈ (firsts key l).map key := by
    rw [map_firsts, List.mem_eraseDups]
    exact List.mem_map_of_mem h
  exact List.mem_map.1 hmem

end RagflowAgent
