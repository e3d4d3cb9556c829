import RagflowAgent.Relational.Table

/-!
# Part of a table

`Table.restrict q` keeps the rows whose keys satisfy `q`.  Whatever is done to a table under such a
key is done to that part of it, and whatever is done under another key is not seen there.
-/

namespace RagflowAgent

open Keyed

namespace Table

variable {κ ρ : Type} [Keyed κ ρ] {q : κ → Bool} {T T' : Table ρ} {r : ρ} {k : κ}

theorem eq_of_rows (h : T.rows = T'.rows) : T = T' := by
  obtain ⟨rows, hnodup⟩ := T
  obtain ⟨rows', hnodup'⟩ := T'
  obtain rfl : rows = rows' := h
  rfl

/-- The rows with a key that satisfies `q`. -/
def restrict (T : Table ρ) (q : κ → Bool) : Table ρ where
  rows := T.rows.filter fun r => q (key r)
  nodup := T.nodup.sublist (List.filter_sublist.map key)

theorem mem_restrict : r ∈ (T.restrict q).rows ↔ r ∈ T.rows ∧ q (key r) = true :=
  List.mem_filter

theorem restrict_restrict : (T.restrict q).restrict q = T.restrict q := by
  refine eq_of_rows ?_
  simp only [restrict, List.filter_filter, Bool.and_self]

/-- A filter that only looks at the kept keys. -/
theorem filter_restrict {p : ρ → Bool} (hp : ∀ r, p r = true → q (key r) = true) :
    (T.restrict q).rows.filter p = T.rows.filter p := by
  simp only [restrict, List.filter_filter]
  refine List.filter_congr fun r _ => ?_
  cases hr : p r with
  | false => rfl
  | true => rw [hp r hr, Bool.and_self]

theorem find?_restrict {p : ρ → Bool} (hp : ∀ r, p r = true → q (key r) = true) :
    (T.restrict q).rows.find? p = T.rows.find? p := by
  simp only [restrict, List.find?_filter]
  congr 1
  funext r
  cases hr : p r with
  | false => simp
  | true => simp [hp r hr]

variable [DecidableEq κ]

theorem get_restrict (hk : q k = true) : (T.restrict q).get k = T.get k := by
  refine find?_restrict fun r hr => ?_
  rw [decide_eq_true_eq] at hr
  rwa [hr]

theorem add_restrict (hr : q (key r) = true) :
    (T.restrict q).add r = (T.add r).map fun T' => T'.restrict q := by
  by_cases hget : T.get (key r) = none
  · have hget' : (T.restrict q).get (key r) = none := (get_restrict hr).trans hget
    rw [add, add, dif_pos hget, dif_pos hget', Option.map_some]
    refine congrArg some (eq_of_rows ?_)
    simp [restrict, List.filter_append, hr]
  · have hget' : (T.restrict q).get (key r) ≠ none := fun h =>
      hget ((get_restrict hr).symm.trans h)
    rw [add, add, dif_neg hget, dif_neg hget', Option.map_none]

theorem add_restrict_of_not (hr : q (key r) = false) (h : T.add r = some T') :
    T'.restrict q = T.restrict q := by
  obtain ⟨-, hrows⟩ := add_eq_some h
  refine eq_of_rows ?_
  simp [restrict, hrows, List.filter_append, hr]

/-- Writing over a row keeps its key. -/
theorem key_ite (r r' : ρ) : key (if key r' = key r then r else r') = key r' := by
  split
  · rename_i h
    exact h.symm
  · rfl

theorem replace_restrict : (T.replace r).restrict q = (T.restrict q).replace r := by
  refine eq_of_rows ?_
  simp only [restrict, replace, List.filter_map, Function.comp_def, key_ite]

theorem replace_restrict_of_not (hr : q (key r) = false) :
    (T.replace r).restrict q = T.restrict q := by
  rw [replace_restrict]
  refine eq_of_rows ?_
  refine (List.map_congr_left fun r' hr' => ?_).trans (List.map_id _)
  have hne : key r' ≠ key r := by
    intro heq
    have hkept := (mem_restrict.1 hr').2
    rw [heq, hr] at hkept
    cases hkept
  exact if_neg hne

end Table

end RagflowAgent
