import Mathlib.Data.List.Basic
import Mathlib.Data.Nat.Notation

/-!
# Aliases of indexes

A search cluster keeps, beside its indexes, the names that point to them.  A request changes them
by a list of actions, which take effect together.

* `AliasTable` are the pairs of an alias and an index, `AliasTable.pointed` the indexes an alias
  points to;
* `AliasAction.apply` is one action, `AliasTable.update` a list of them;
* `pointed_apply` and `pointed_dropIndex` say what an alias points to afterwards, and
  `pointed_update_move` that moving an alias from the only index it points to leaves it on one.
-/

namespace RagflowAgent
namespace Search

/-- The pairs of an alias and an index. -/
abbrev AliasTable : Type := List (String × String)

inductive AliasAction where
  | remove (index aliasName : String)
  | add (index aliasName : String)
  deriving DecidableEq, Repr

/-- The index that an action names. -/
def AliasAction.index : AliasAction → String
  | remove index _ => index
  | add index _ => index

namespace AliasTable

/-- The indexes that an alias points to. -/
def pointed (table : AliasTable) (aliasName : String) : List String :=
  (table.filter fun entry => entry.1 = aliasName).map Prod.snd

/-- What one action does.  An alias that an index does not have is not removed. -/
def apply (table : AliasTable) : AliasAction → AliasTable
  | .remove index aliasName => table.filter fun entry => entry ≠ (aliasName, index)
  | .add index aliasName =>
    if (aliasName, index) ∈ table then table else table ++ [(aliasName, index)]

def update (table : AliasTable) (actions : List AliasAction) : AliasTable :=
  actions.foldl apply table

/-- The aliases of a deleted index are gone. -/
def dropIndex (table : AliasTable) (index : String) : AliasTable :=
  table.filter fun entry => entry.2 ≠ index

section Pointed

variable {table : AliasTable} {index aliasName other : String}

theorem mem_pointed : index ∈ table.pointed aliasName ↔ (aliasName, index) ∈ table := by
  rw [pointed, List.mem_map]
  constructor
  · rintro ⟨⟨a, i⟩, hentry, rfl⟩
    obtain ⟨hmem, ha⟩ := List.mem_filter.1 hentry
    obtain rfl : a = aliasName := of_decide_eq_true ha
    exact hmem
  · intro h
    exact ⟨(aliasName, index), List.mem_filter.2 ⟨h, decide_eq_true rfl⟩, rfl⟩

theorem pointed_remove_self (table : AliasTable) (index aliasName : String) :
    (table.apply (.remove index aliasName)).pointed aliasName =
      (table.pointed aliasName).filter fun i => i ≠ index := by
  rw [apply, pointed, pointed, List.filter_filter, List.filter_map, List.filter_filter]
  congr 1
  refine List.filter_congr fun entry _ => ?_
  obtain ⟨a, i⟩ := entry
  by_cases ha : a = aliasName
  · subst ha
    simp
  · simp [ha]

theorem pointed_remove_of_ne (h : other ≠ aliasName) :
    (table.apply (.remove index aliasName)).pointed other = table.pointed other := by
  rw [apply, pointed, pointed, List.filter_filter]
  congr 1
  refine List.filter_congr fun entry _ => ?_
  obtain ⟨a, i⟩ := entry
  by_cases ha : a = other
  · subst ha
    simp [h]
  · simp [ha]

theorem pointed_add_self (table : AliasTable) (index aliasName : String) :
    (table.apply (.add index aliasName)).pointed aliasName =
      if index ∈ table.pointed aliasName then table.pointed aliasName
      else table.pointed aliasName ++ [index] := by
  rw [apply]
  by_cases h : (aliasName, index) ∈ table
  · rw [if_pos h, if_pos (mem_pointed.2 h)]
  · rw [if_neg h, if_neg fun hmem => h (mem_pointed.1 hmem)]
    simp [pointed, List.filter_append]

theorem pointed_add_of_ne (h : other ≠ aliasName) :
    (table.apply (.add index aliasName)).pointed other = table.pointed other := by
  rw [apply]
  by_cases hmem : (aliasName, index) ∈ table
  · rw [if_pos hmem]
  · rw [if_neg hmem]
    simp [pointed, List.filter_append, Ne.symm h]

/-- Deleting an index that the alias does not point to leaves the alias as it is. -/
theorem pointed_dropIndex (h : index ∉ table.pointed aliasName) :
    (table.dropIndex index).pointed aliasName = table.pointed aliasName := by
  rw [dropIndex, pointed, pointed, List.filter_filter]
  congr 1
  refine List.filter_congr fun entry hentry => ?_
  obtain ⟨a, i⟩ := entry
  by_cases ha : a = aliasName
  · subst ha
    have hne : i ≠ index := by
      rintro rfl
      exact h (mem_pointed.2 hentry)
    simp [hne]
  · simp [ha]

end Pointed

/-- The actions that move two aliases from the index they point to, if there is one. -/
def move (current : Option String) (target readAlias writeAlias : String) : List AliasAction :=
  (current.toList.flatMap fun index =>
    [.remove index readAlias, .remove index writeAlias]) ++
    [.add target readAlias, .add target writeAlias]

/-- **Moving an alias from the only index it points to leaves it on one index.** -/
theorem pointed_update_move {table : AliasTable} {current : Option String}
    {target readAlias writeAlias : String} (h : table.pointed readAlias = current.toList) :
    (table.update (move current target readAlias writeAlias)).pointed readAlias = [target] := by
  -- Behind the removals the alias points nowhere; an addition to the other alias does not matter.
  have hadded : ∀ table' : AliasTable, table'.pointed readAlias = [] →
      (table'.update [.add target readAlias, .add target writeAlias]).pointed readAlias =
        [target] := by
    intro table' hempty
    have hfirst : (table'.apply (.add target readAlias)).pointed readAlias = [target] := by
      rw [pointed_add_self, hempty, if_neg List.not_mem_nil, List.nil_append]
    by_cases heq : readAlias = writeAlias
    · subst heq
      show ((table'.apply (.add target readAlias)).apply (.add target readAlias)).pointed
        readAlias = [target]
      rw [pointed_add_self, hfirst, if_pos (List.mem_singleton.2 rfl)]
    · exact (pointed_add_of_ne heq).trans hfirst
  cases current with
  | none => exact hadded table h
  | some index =>
    refine hadded ((table.apply (.remove index readAlias)).apply (.remove index writeAlias)) ?_
    have hfirst : (table.apply (.remove index readAlias)).pointed readAlias = [] := by
      rw [pointed_remove_self, h]
      simp
    by_cases heq : readAlias = writeAlias
    · subst heq
      rw [pointed_remove_self, hfirst]
      rfl
    · exact (pointed_remove_of_ne heq).trans hfirst

end AliasTable

end Search
end RagflowAgent
