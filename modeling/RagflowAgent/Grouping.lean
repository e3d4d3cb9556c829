import Mathlib.Algebra.BigOperators.Group.List.Basic
import Mathlib.Algebra.GroupWithZero.Nat
import Mathlib.Data.List.Induction
import Mathlib.Data.List.Nodup
import RagflowAgent.Ranking

/-!
# Grouping by a key

`grouped key l` is the dictionary that a loop over `l` fills with
`groups.setdefault(key(a), []).append(a)`.

* `mem_grouped_iff`: a key stands with the elements that have it, in their order;
* `sortedBy_grouped_eq_map`: sorted by the keys, the groups are those of the sorted keys
  `keysOf`, which depend on the elements alone;
* `sum_length_keysOf`: every element is in one group.
-/

namespace RagflowAgent
namespace Grouping

open Ranking

variable {α κ : Type}

section Grouped

variable [DecidableEq κ]

/-- `groups.setdefault(key(a), []).append(a)`. -/
def groupInto (key : α → κ) (groups : List (κ × List α)) (a : α) : List (κ × List α) :=
  if key a ∈ groups.map Prod.fst then
    groups.map fun group => if group.1 = key a then (group.1, group.2 ++ [a]) else group
  else groups ++ [(key a, [a])]

def grouped (key : α → κ) (l : List α) : List (κ × List α) := l.foldl (groupInto key) []

variable (key : α → κ)

theorem grouped_append_singleton (l : List α) (a : α) :
    grouped key (l ++ [a]) = groupInto key (grouped key l) a := by
  rw [grouped, List.foldl_append]
  rfl

/-- One element more adds its key, if it is a new one. -/
theorem map_fst_groupInto (groups : List (κ × List α)) (a : α) :
    (groupInto key groups a).map Prod.fst =
      if key a ∈ groups.map Prod.fst then groups.map Prod.fst
      else groups.map Prod.fst ++ [key a] := by
  rw [groupInto]
  split
  · rw [List.map_map]
    refine List.map_congr_left fun group _ => ?_
    rw [Function.comp_apply]
    split <;> rfl
  · rw [List.map_append]
    rfl

theorem mem_map_fst_grouped (l : List α) (k : κ) :
    k ∈ (grouped key l).map Prod.fst ↔ ∃ a ∈ l, key a = k := by
  induction l using List.reverseRecOn with
  | nil => simp [grouped]
  | append_singleton l a ih =>
    rw [grouped_append_singleton, map_fst_groupInto]
    split
    · rename_i hmem
      rw [ih]
      constructor
      · rintro ⟨b, hb, hk⟩
        exact ⟨b, by simp [hb], hk⟩
      · rintro ⟨b, hb, hk⟩
        rcases List.mem_append.1 hb with hb | hb
        · exact ⟨b, hb, hk⟩
        · rw [List.mem_singleton.1 hb] at hk
          rwa [← ih, ← hk]
    · rw [List.mem_append, ih, List.mem_singleton]
      constructor
      · rintro (⟨b, hb, hk⟩ | hk)
        · exact ⟨b, by simp [hb], hk⟩
        · exact ⟨a, by simp, hk.symm⟩
      · rintro ⟨b, hb, hk⟩
        rcases List.mem_append.1 hb with hb | hb
        · exact .inl ⟨b, hb, hk⟩
        · rw [List.mem_singleton.1 hb] at hk
          exact .inr hk.symm

/-- Every key occurs once. -/
theorem nodup_map_fst_grouped (l : List α) : ((grouped key l).map Prod.fst).Nodup := by
  induction l using List.reverseRecOn with
  | nil => exact List.nodup_nil
  | append_singleton l a ih =>
    rw [grouped_append_singleton, map_fst_groupInto]
    split
    · exact ih
    · rename_i hnot
      rw [List.nodup_append]
      refine ⟨ih, List.nodup_singleton _, fun b hb c hc => ?_⟩
      rw [List.mem_singleton.1 hc]
      exact fun heq => hnot (heq ▸ hb)

/-- **A key stands with the elements that have it**, in their order. -/
theorem eq_filter_of_mem_grouped {l : List α} {k : κ} {group : List α}
    (h : (k, group) ∈ grouped key l) : group = l.filter fun a => key a = k := by
  induction l using List.reverseRecOn generalizing k group with
  | nil => exact absurd h List.not_mem_nil
  | append_singleton l a ih =>
    rw [grouped_append_singleton, groupInto] at h
    rw [List.filter_append]
    split at h
    · obtain ⟨⟨k', group'⟩, hmem, heq⟩ := List.mem_map.1 h
      dsimp only at heq
      have hgroup := ih hmem
      split at heq
      · rename_i hk
        obtain ⟨rfl, rfl⟩ := Prod.mk.inj heq
        rw [hgroup, List.filter_singleton]
        simp [hk]
      · rename_i hk
        obtain ⟨rfl, rfl⟩ := Prod.mk.inj heq
        have hne : ¬ key a = k' := fun heq => hk heq.symm
        rw [hgroup, List.filter_singleton]
        simp [hne]
    · rename_i hnew
      have hnone : ∀ b ∈ l, key b ≠ key a := fun b hb heq =>
        hnew ((mem_map_fst_grouped key l _).2 ⟨b, hb, heq⟩)
      rcases List.mem_append.1 h with h | h
      · have hk : ¬ key a = k := fun heq =>
          hnew (heq ▸ List.mem_map_of_mem (f := Prod.fst) h)
        rw [ih h, List.filter_singleton]
        simp [hk]
      · obtain ⟨rfl, rfl⟩ := Prod.mk.inj (List.mem_singleton.1 h)
        have hempty : l.filter (fun b => decide (key b = key a)) = [] := by
          rw [List.filter_eq_nil_iff]
          exact fun b hb => by simp [hnone b hb]
        rw [hempty, List.filter_singleton]
        simp

/-- One element more makes one group longer, or is a new group. -/
theorem sum_length_groupInto (a : α) {groups : List (κ × List α)}
    (h : (groups.map Prod.fst).Nodup) :
    ((groupInto key groups a).map fun group => group.2.length).sum =
      (groups.map fun group => group.2.length).sum + 1 := by
  rw [groupInto]
  split
  · rename_i hmem
    rw [List.map_map]
    induction groups with
    | nil => exact absurd hmem List.not_mem_nil
    | cons group groups ih =>
      rw [List.map_cons, List.nodup_cons] at h
      rw [List.map_cons, List.sum_cons, List.map_cons, List.sum_cons, Function.comp_apply]
      by_cases hkey : group.1 = key a
      · -- the other groups stay as they are
        have hrest : groups.map ((fun group => group.2.length) ∘
            fun group => if group.1 = key a then (group.1, group.2 ++ [a]) else group) =
            groups.map fun group => group.2.length := by
          refine List.map_congr_left fun other hother => ?_
          have hne : other.1 ≠ key a := fun heq =>
            h.1 (hkey ▸ heq ▸ List.mem_map_of_mem (f := Prod.fst) hother)
          rw [Function.comp_apply, if_neg hne]
        rw [hrest, if_pos hkey, List.length_append, List.length_singleton]
        omega
      · have hmem' : key a ∈ groups.map Prod.fst := by
          rcases List.mem_cons.1 hmem with heq | hmem
          · exact absurd heq.symm hkey
          · exact hmem
        rw [ih h.2 hmem', if_neg hkey]
        omega
  · rw [List.map_append, List.sum_append]
    rfl

/-- Every element is in one group. -/
theorem sum_length_grouped (l : List α) :
    ((grouped key l).map fun group => group.2.length).sum = l.length := by
  induction l using List.reverseRecOn with
  | nil => rfl
  | append_singleton l a ih =>
    rw [grouped_append_singleton, sum_length_groupInto key a (nodup_map_fst_grouped key l), ih,
      List.length_append]
    rfl

end Grouped

section Sorted

variable [LinearOrder κ] (key : α → κ)

/-- The keys in their order. -/
def keysOf (l : List α) : List κ := (sortedBy Prod.fst (grouped key l)).map Prod.fst

variable {l l' : List α}

theorem mem_keysOf {k : κ} : k ∈ keysOf key l ↔ ∃ a ∈ l, key a = k := by
  rw [keysOf, ((sortedBy_perm Prod.fst (grouped key l)).map Prod.fst).mem_iff,
    mem_map_fst_grouped]

theorem pairwise_keysOf (l : List α) : (keysOf key l).Pairwise (· < ·) :=
  List.pairwise_map.2 (sortedBy_pairwise_lt Prod.fst (nodup_map_fst_grouped key l))

/-- The keys depend on the elements alone. -/
theorem keysOf_congr (h : l.Perm l') : keysOf key l = keysOf key l' := by
  refine map_key_sortedBy_congr Prod.fst ?_
  rw [List.perm_ext_iff_of_nodup (nodup_map_fst_grouped key l) (nodup_map_fst_grouped key l')]
  intro k
  rw [mem_map_fst_grouped, mem_map_fst_grouped]
  exact exists_congr fun a => and_congr_left fun _ => h.mem_iff

/-- **Sorted by the keys**, the groups are those of the sorted keys. -/
theorem sortedBy_grouped_eq_map (l : List α) :
    sortedBy Prod.fst (grouped key l) =
      (keysOf key l).map fun k => (k, l.filter fun a => key a = k) := by
  rw [keysOf, List.map_map]
  conv_lhs => rw [← List.map_id (sortedBy Prod.fst (grouped key l))]
  refine List.map_congr_left fun group hgroup => ?_
  have hfilter := eq_filter_of_mem_grouped key ((mem_sortedBy _).1 hgroup)
  rw [Function.comp_apply, ← hfilter]
  rfl

/-- Every element is in one group, also when the groups are sorted. -/
theorem sum_length_keysOf (l : List α) :
    ((keysOf key l).map fun k => (l.filter fun a => key a = k).length).sum = l.length := by
  rw [← sum_length_grouped key l, ← ((sortedBy_perm Prod.fst (grouped key l)).map _).sum_eq,
    sortedBy_grouped_eq_map, List.map_map]
  rfl

end Sorted

end Grouping
end RagflowAgent
