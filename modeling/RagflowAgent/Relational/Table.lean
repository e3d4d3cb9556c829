import Mathlib.Data.List.Nodup

/-!
# Tables with a primary key

A table is a list of rows no two of which have the same key.  The uniqueness is a field
of `Table`, so a table that breaks it cannot be built: `Table.add` is partial, and
`Table.replace` only ever writes over the row that has the key already.

The rows stay a list because queries return them in an order; the lemmas below speak of
`Table.get` alone, and `Table.mem_rows_iff` passes between the two.
-/

namespace RagflowAgent

/-- Rows of type `ρ` are identified by a key. -/
class Keyed (κ : outParam Type) (ρ : Type) where
  key : ρ → κ

open Keyed

/-- Rows with pairwise different keys. -/
structure Table {κ : Type} (ρ : Type) [Keyed κ ρ] where
  rows : List ρ
  nodup : (rows.map key).Nodup

namespace Table

variable {κ ρ : Type} [Keyed κ ρ]

/-- The table without rows. -/
def empty : Table ρ := ⟨[], List.nodup_nil⟩

variable [DecidableEq κ]

/-- The row with key `k`. -/
def get (T : Table ρ) (k : κ) : Option ρ := T.rows.find? fun r => key r = k

theorem key_of_get {T : Table ρ} {k : κ} {r : ρ} (h : T.get k = some r) : key r = k := by
  simpa using List.find?_some h

theorem mem_of_get {T : Table ρ} {k : κ} {r : ρ} (h : T.get k = some r) : r ∈ T.rows :=
  List.mem_of_find?_eq_some h

theorem get_eq_none_iff {T : Table ρ} {k : κ} : T.get k = none ↔ k ∉ T.rows.map key := by
  simp [get]

/-- **A row is in the table exactly when its key finds it.** -/
theorem mem_rows_iff {T : Table ρ} {r : ρ} : r ∈ T.rows ↔ T.get (key r) = some r := by
  refine ⟨fun hr => ?_, mem_of_get⟩
  cases hg : T.get (key r) with
  | none => exact absurd (List.mem_map_of_mem hr) (get_eq_none_iff.1 hg)
  | some r' =>
    exact congrArg some (List.inj_on_of_nodup_map T.nodup (mem_of_get hg) hr (key_of_get hg))

/-- Append a row with a fresh key. -/
def add (T : Table ρ) (r : ρ) : Option (Table ρ) :=
  if h : T.get (key r) = none then
    some ⟨T.rows ++ [r], by
      rw [List.map_append, List.nodup_append]
      refine ⟨T.nodup, by simp, fun a ha b hb => ?_⟩
      rintro rfl
      rw [List.map_singleton, List.mem_singleton] at hb
      exact get_eq_none_iff.1 h (hb ▸ ha)⟩
  else none

/-- Write a row over the row with its key; a table without such a row stays as it is. -/
def replace (T : Table ρ) (r : ρ) : Table ρ :=
  ⟨T.rows.map fun r' => if key r' = key r then r else r', by
    have hkeys : (T.rows.map fun r' => if key r' = key r then r else r').map key =
        T.rows.map key := by
      rw [List.map_map]
      refine List.map_congr_left fun r' _ => ?_
      by_cases h : key r' = key r <;> simp [h]
    rw [hkeys]
    exact T.nodup⟩

theorem add_eq_some {T T' : Table ρ} {r : ρ} (h : T.add r = some T') :
    T.get (key r) = none ∧ T'.rows = T.rows ++ [r] := by
  unfold add at h
  split at h
  · cases h
    exact ⟨‹_›, rfl⟩
  · cases h

/-- Reading after `add`. -/
theorem get_of_add {T T' : Table ρ} {r : ρ} (h : T.add r = some T') (k : κ) :
    T'.get k = if k = key r then some r else T.get k := by
  obtain ⟨hnone, hrows⟩ := add_eq_some h
  have hfind : T'.get k = (T.get k).or (if key r = k then some r else none) := by
    simp only [get, hrows, List.find?_append, List.find?_singleton]
    by_cases hk : key r = k <;> simp [hk]
  rw [hfind]
  by_cases hk : k = key r
  · subst hk
    simp [hnone]
  · simp [hk, Ne.symm hk]

/-- Reading after `replace`. -/
theorem get_replace {T : Table ρ} {r r₀ : ρ} (h : T.get (key r) = some r₀) (k : κ) :
    (T.replace r).get k = if k = key r then some r else T.get k := by
  have hrow : ∀ r', (key (if key r' = key r then r else r') = k) ↔ key r' = k := by
    intro r'
    by_cases hk : key r' = key r <;> simp [hk]
  have hmap : (T.replace r).get k =
      (T.get k).map fun r' => if key r' = key r then r else r' := by
    simp only [get, replace, List.find?_map]
    congr 2
    funext r'
    simp only [Function.comp_apply, hrow]
  rw [hmap]
  by_cases hk : k = key r
  · subst hk
    simp [h, key_of_get h]
  · cases hg : T.get k with
    | none => simp [hk]
    | some r' =>
      have hne : key r' ≠ key r := by rw [key_of_get hg]; exact hk
      simp [hk, hne]

/-- Write the row of a key, whether there is one or not. -/
def upsert (T : Table ρ) (r : ρ) : Table ρ :=
  match T.add r with
  | some T' => T'
  | none => T.replace r

/-- Reading after `upsert`. -/
theorem get_upsert (T : Table ρ) (r : ρ) (k : κ) :
    (T.upsert r).get k = if k = key r then some r else T.get k := by
  unfold upsert
  cases hadd : T.add r with
  | some T' => exact get_of_add hadd k
  | none =>
    cases hget : T.get (key r) with
    | none =>
      rw [add, dif_pos hget] at hadd
      cases hadd
    | some r₀ => exact get_replace hget k

/-- Delete the rows that satisfy `p`. -/
def erase (T : Table ρ) (p : ρ → Bool) : Table ρ where
  rows := T.rows.filter fun r => !p r
  nodup := T.nodup.sublist (List.filter_sublist.map key)

omit [DecidableEq κ] in
theorem mem_erase {T : Table ρ} {p : ρ → Bool} {r : ρ} :
    r ∈ (T.erase p).rows ↔ r ∈ T.rows ∧ p r = false := by
  simp [erase]

end Table

end RagflowAgent
