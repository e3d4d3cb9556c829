import Mathlib.Data.List.Basic

/-!
# Joined texts

`[sep].intercalate parts` is `sep.join(parts)`, and `List.splitOn sep` cuts it again.  A part that
has the separator is cut as well, so that what a joined text determines are the pieces of its
parts.
-/

namespace RagflowAgent
namespace Text

variable {α : Type} {sep : α} {parts parts' : List (List α)}

/-- A joined text has a character when a part or the separator has it. -/
theorem not_mem_intercalate {c : α} (hsep : c ≠ sep) (h : ∀ part ∈ parts, c ∉ part) :
    c ∉ [sep].intercalate parts := by
  induction parts with
  | nil => simp
  | cons part parts ih =>
    have hpart : c ∉ part := h part (by simp)
    by_cases hparts : parts = []
    · subst hparts
      rwa [List.intercalate_singleton]
    · rw [List.intercalate_cons_of_ne_nil hparts]
      have htail := ih fun part hpart => h part (by simp [hpart])
      simp [hpart, hsep, htail]

variable [DecidableEq α]

/-- The pieces of a joined text are the pieces of its parts. -/
theorem splitOn_intercalate_eq_flatMap (hne : parts ≠ []) :
    ([sep].intercalate parts).splitOn sep = parts.flatMap fun part => part.splitOn sep := by
  induction parts with
  | nil => exact absurd rfl hne
  | cons part parts ih =>
    by_cases hparts : parts = []
    · subst hparts
      rw [List.intercalate_singleton, List.flatMap_singleton]
    · rw [List.intercalate_cons_of_ne_nil hparts, List.append_assoc, List.singleton_append,
        List.splitOn_append_cons_self, ih hparts, List.flatMap_cons]

/-- Two lists of parts are joined to one text exactly when they have the same pieces. -/
theorem intercalate_eq_iff (hne : parts ≠ []) (hne' : parts' ≠ []) :
    [sep].intercalate parts = [sep].intercalate parts' ↔
      (parts.flatMap fun part => part.splitOn sep) =
        parts'.flatMap fun part => part.splitOn sep := by
  rw [← splitOn_intercalate_eq_flatMap hne, ← splitOn_intercalate_eq_flatMap hne']
  refine ⟨fun heq => by rw [heq], fun heq => ?_⟩
  have hjoined := congrArg ([sep].intercalate) heq
  rwa [List.intercalate_splitOn, List.intercalate_splitOn] at hjoined

/-- Parts without the separator are their own pieces. -/
theorem flatMap_splitOn_of_not_mem (h : ∀ part ∈ parts, sep ∉ part) :
    (parts.flatMap fun part => part.splitOn sep) = parts := by
  induction parts with
  | nil => rfl
  | cons part parts ih =>
    rw [List.flatMap_cons, List.splitOn_eq_singleton (h part (by simp)),
      ih fun part hpart => h part (by simp [hpart]), List.singleton_append]

end Text
end RagflowAgent
