import Mathlib.Data.List.Enum
import Mathlib.Data.List.Induction
import Mathlib.Data.List.Sort
import Mathlib.Data.Nat.Notation

/-!
# Sorting by a key, and places in a list

A ranking is a list in which the place of an element counts.

* `sortedBy key l` is the stable sort of `l` by a key of a linear order.  Which keys it has,
  and in which order, depends on the keys of `l` alone and not on their order:
  `map_key_sortedBy_congr`;
* `numbered f l` hands every element its place, counted from one;
* `placeFrom p n l` is the place of the first element with `p`, counted from `n`, and
  `hitFrom p n l` that element with its place.
-/

namespace RagflowAgent
namespace Ranking

variable {α β γ : Type}

/-! ## Sorting by a key -/

section SortedBy

variable [LinearOrder β]

/-- The elements in the order of their keys; equal keys keep their order. -/
def sortedBy (key : α → β) (l : List α) : List α :=
  l.insertionSort fun a b => key a ≤ key b

variable (key : α → β) {l l' : List α}

theorem sortedBy_perm (l : List α) : (sortedBy key l).Perm l :=
  List.perm_insertionSort _ l

@[simp] theorem mem_sortedBy {a : α} : a ∈ sortedBy key l ↔ a ∈ l :=
  (sortedBy_perm key l).mem_iff

@[simp] theorem length_sortedBy (l : List α) : (sortedBy key l).length = l.length :=
  (sortedBy_perm key l).length_eq

theorem sortedBy_pairwise (l : List α) :
    (sortedBy key l).Pairwise fun a b => key a ≤ key b := by
  have : Std.Total fun a b : α => key a ≤ key b := ⟨fun a b => le_total (key a) (key b)⟩
  have : IsTrans α fun a b => key a ≤ key b := ⟨fun _ _ _ => le_trans⟩
  exact List.pairwise_insertionSort _ l

/-- **The keys of a sorted list depend on the keys alone.** -/
theorem map_key_sortedBy_congr (h : (l.map key).Perm (l'.map key)) :
    (sortedBy key l).map key = (sortedBy key l').map key := by
  have hperm : ((sortedBy key l).map key).Perm ((sortedBy key l').map key) :=
    (((sortedBy_perm key l).map key).trans h).trans ((sortedBy_perm key l').map key).symm
  refine hperm.eq_of_pairwise (fun _ _ _ _ => le_antisymm) ?_ ?_
  · exact List.pairwise_map.2 (sortedBy_pairwise key l)
  · exact List.pairwise_map.2 (sortedBy_pairwise key l')

/-- If different elements have different keys, the same elements are sorted in the same way. -/
theorem sortedBy_congr (hkey : Function.Injective key) (hl : l.Nodup) (hl' : l'.Nodup)
    (h : ∀ a, a ∈ l ↔ a ∈ l') : sortedBy key l = sortedBy key l' := by
  have hperm : l.Perm l' := (List.perm_ext_iff_of_nodup hl hl').2 h
  exact List.map_injective_iff.2 hkey (map_key_sortedBy_congr key (hperm.map key))

/-- Without a repeated key the order is strict. -/
theorem sortedBy_pairwise_lt (h : (l.map key).Nodup) :
    (sortedBy key l).Pairwise fun a b => key a < key b := by
  have hne : (sortedBy key l).Pairwise fun a b => key a ≠ key b :=
    List.pairwise_map.1 (((sortedBy_perm key l).map key).nodup_iff.2 h)
  exact (sortedBy_pairwise key l).imp₂ (fun _ _ hle hne => lt_of_le_of_ne hle hne) hne

/-- The first of a sorted list has the least key. -/
theorem key_le_of_head?_sortedBy {a : α} (h : (sortedBy key l).head? = some a) :
    a ∈ l ∧ ∀ b ∈ l, key a ≤ key b := by
  obtain ⟨tail, htail⟩ := List.head?_eq_some_iff.1 h
  have hpairwise := sortedBy_pairwise key l
  rw [htail, List.pairwise_cons] at hpairwise
  refine ⟨(mem_sortedBy key).1 (List.mem_of_mem_head? h), fun b hb => ?_⟩
  have hmem := (mem_sortedBy key).2 hb
  rw [htail, List.mem_cons] at hmem
  rcases hmem with rfl | hmem
  · exact le_rfl
  · exact hpairwise.1 b hmem

/-- The last of a sorted list has the greatest key. -/
theorem le_key_of_getLast?_sortedBy {a : α} (h : (sortedBy key l).getLast? = some a) :
    a ∈ l ∧ ∀ b ∈ l, key b ≤ key a := by
  obtain ⟨front, hfront⟩ := List.getLast?_eq_some_iff.1 h
  have hpairwise := sortedBy_pairwise key l
  rw [hfront, List.pairwise_append] at hpairwise
  refine ⟨(mem_sortedBy key).1 (List.mem_of_getLast? h), fun b hb => ?_⟩
  have hmem := (mem_sortedBy key).2 hb
  rw [hfront, List.mem_append, List.mem_singleton] at hmem
  rcases hmem with hmem | rfl
  · exact hpairwise.2.2 b hmem a (List.mem_singleton_self a)
  · exact le_rfl

/-- Elements with lower keys are sorted apart. -/
theorem sortedBy_append (h : ∀ a ∈ l, ∀ b ∈ l', key a ≤ key b) :
    sortedBy key (l ++ l') = sortedBy key l ++ sortedBy key l' := by
  have hinsert : ∀ (a : α) (s s' : List α), (∀ b ∈ s', key a ≤ key b) →
      (s ++ s').orderedInsert (fun a b => key a ≤ key b) a =
        s.orderedInsert (fun a b => key a ≤ key b) a ++ s' := by
    intro a s s' hs'
    induction s with
    | nil =>
      cases s' with
      | nil => rfl
      | cons b s' => exact List.orderedInsert_cons_of_le _ s' (hs' b List.mem_cons_self)
    | cons b s ih =>
      rw [List.cons_append, List.orderedInsert_cons, List.orderedInsert_cons]
      split
      · rfl
      · rw [ih, List.cons_append]
  induction l with
  | nil => rfl
  | cons a l ih =>
    have htail := ih fun b hb => h b (List.mem_cons_of_mem a hb)
    have ha : ∀ b ∈ sortedBy key l', key a ≤ key b := fun b hb =>
      h a List.mem_cons_self b ((mem_sortedBy key).1 hb)
    calc sortedBy key (a :: l ++ l')
        = (sortedBy key (l ++ l')).orderedInsert (fun a b => key a ≤ key b) a := rfl
      _ = (sortedBy key l).orderedInsert (fun a b => key a ≤ key b) a ++ sortedBy key l' := by
        rw [htail, hinsert a _ _ ha]

/-- What is left of a sorted list is sorted in the same way. -/
theorem filter_sortedBy (p : α → Bool) (l : List α) :
    (sortedBy key l).filter p = sortedBy key (l.filter p) := by
  have hinsert : ∀ (a : α) (s : List α), s.Pairwise (fun a b => key a ≤ key b) →
      (s.orderedInsert (fun a b => key a ≤ key b) a).filter p =
        if p a then (s.filter p).orderedInsert (fun a b => key a ≤ key b) a else s.filter p := by
    intro a s hs
    induction s with
    | nil => cases hp : p a <;> simp [hp]
    | cons b s ih =>
      rw [List.pairwise_cons] at hs
      rw [List.orderedInsert_cons]
      split
      · -- it stands before all that are left
        rename_i hab
        have hfirst : (List.filter p (b :: s)).orderedInsert (fun a b => key a ≤ key b) a =
            a :: List.filter p (b :: s) := by
          cases hfilter : List.filter p (b :: s) with
          | nil => rfl
          | cons c rest =>
            refine List.orderedInsert_cons_of_le _ rest ?_
            have hc : c ∈ b :: s := List.mem_of_mem_filter (hfilter ▸ List.mem_cons_self)
            rcases List.mem_cons.1 hc with rfl | hc
            · exact hab
            · exact hab.trans (hs.1 c hc)
        rw [hfirst, List.filter_cons]
      · rename_i hab
        rw [List.filter_cons, ih hs.2, List.filter_cons]
        cases p a with
        | false => rfl
        | true =>
          cases p b with
          | false => rfl
          | true =>
            simp only [if_true]
            rw [List.orderedInsert_cons, if_neg hab]
  induction l with
  | nil => rfl
  | cons a l ih =>
    have hcons : sortedBy key (a :: l) =
        (sortedBy key l).orderedInsert (fun a b => key a ≤ key b) a := rfl
    rw [hcons, hinsert a _ (sortedBy_pairwise key l), ih, List.filter_cons]
    split <;> rfl

end SortedBy

/-! ## Numbering -/

/-- Every element with its place, counted from one. -/
def numbered (f : α → ℕ → γ) (l : List α) : List γ :=
  (l.zipIdx 1).map fun p => f p.1 p.2

variable {f : α → ℕ → γ} {l : List α}

@[simp] theorem length_numbered : (numbered f l).length = l.length := by
  rw [numbered, List.length_map, List.length_zipIdx]

theorem numbered_append_singleton (l : List α) (a : α) :
    numbered f (l ++ [a]) = numbered f l ++ [f a (l.length + 1)] := by
  rw [numbered, numbered, List.zipIdx_append, List.map_append, List.zipIdx_singleton,
    List.map_singleton, Nat.add_comm 1]

/-- What is numbered twice keeps its places. -/
theorem numbered_numbered {δ : Type} {g : γ → ℕ → δ} :
    numbered g (numbered f l) = numbered (fun a n => g (f a n) n) l := by
  induction l using List.reverseRecOn with
  | nil => rfl
  | append_singleton l a ih =>
    rw [numbered_append_singleton, numbered_append_singleton, ih, length_numbered,
      numbered_append_singleton]

/-- What does not depend on the place. -/
theorem map_numbered_of_forall {g : γ → β} {h : α → β} (hg : ∀ a n, g (f a n) = h a) :
    (numbered f l).map g = l.map h := by
  rw [numbered, List.map_map]
  calc
    (l.zipIdx 1).map (g ∘ fun p => f p.1 p.2) = (l.zipIdx 1).map (h ∘ Prod.fst) :=
      List.map_congr_left fun p _ => hg p.1 p.2
    _ = l.map h := by rw [← List.map_map, List.zipIdx_map_fst]

/-- What depends on the place alone. -/
theorem map_numbered_place {g : γ → β} {h : ℕ → β} (hg : ∀ a n, g (f a n) = h n) :
    (numbered f l).map g = (List.range' 1 l.length).map h := by
  rw [numbered, List.map_map]
  calc
    (l.zipIdx 1).map (g ∘ fun p => f p.1 p.2) = (l.zipIdx 1).map (h ∘ Prod.snd) :=
      List.map_congr_left fun p _ => hg p.1 p.2
    _ = (List.range' 1 l.length).map h := by rw [← List.map_map, List.zipIdx_map_snd]

/-- What depends on the place and on a part of the element. -/
theorem map_numbered_eq_numbered {δ : Type} {g : γ → δ} {h : β → ℕ → δ} {key : α → β}
    (hg : ∀ a n, g (f a n) = h (key a) n) : (numbered f l).map g = numbered h (l.map key) := by
  rw [numbered, numbered, List.map_map, List.zipIdx_map, List.map_map]
  exact List.map_congr_left fun p _ => hg p.1 p.2

theorem exists_of_mem_numbered {c : γ} (h : c ∈ numbered f l) : ∃ a ∈ l, ∃ n, f a n = c := by
  obtain ⟨⟨a, n⟩, hmem, hc⟩ := List.mem_map.1 h
  exact ⟨a, List.fst_mem_of_mem_zipIdx hmem, n, hc⟩

/-- A relation between elements that the numbering keeps. -/
theorem pairwise_numbered {R : α → α → Prop} {S : γ → γ → Prop} (hl : l.Pairwise R)
    (h : ∀ a n b m, R a b → S (f a n) (f b m)) : (numbered f l).Pairwise S := by
  have hzip : (l.zipIdx 1).Pairwise fun p q : α × ℕ => R p.1 q.1 := by
    rw [← List.pairwise_map (f := Prod.fst), List.zipIdx_map_fst]
    exact hl
  exact List.pairwise_map.2 (hzip.imp fun {p q} hpq => h p.1 p.2 q.1 q.2 hpq)

/-! ## Places -/

/-- The place of the first element with `p`, where the first of the list has place `n`. -/
def placeFrom (p : α → Bool) (n : ℕ) (l : List α) : Option ℕ :=
  (l.findIdx? p).map (· + n)

/-- The first element with `p`, and its place. -/
def hitFrom (p : α → Bool) (n : ℕ) (l : List α) : Option (α × ℕ) :=
  (l.zipIdx n).find? fun q => p q.1

variable {p : α → Bool} {n : ℕ}

theorem hitFrom_cons (a : α) (l : List α) :
    hitFrom p n (a :: l) = if p a then some (a, n) else hitFrom p (n + 1) l := by
  rw [hitFrom, List.zipIdx_cons, List.find?_cons, hitFrom]
  cases p a <;> rfl

theorem map_fst_hitFrom : (hitFrom p n l).map Prod.fst = l.find? p := by
  induction l generalizing n with
  | nil => rfl
  | cons a l ih =>
    rw [hitFrom_cons, List.find?_cons]
    cases p a with
    | true => rfl
    | false => exact ih

theorem map_snd_hitFrom : (hitFrom p n l).map Prod.snd = placeFrom p n l := by
  induction l generalizing n with
  | nil => rfl
  | cons a l ih =>
    rw [hitFrom_cons, placeFrom, List.findIdx?_cons]
    cases p a with
    | true => simp
    | false =>
      rw [if_neg Bool.false_ne_true, if_neg Bool.false_ne_true, ih, placeFrom, Option.map_map]
      refine congrArg (Option.map · _) (funext fun i => ?_)
      change i + (n + 1) = i + 1 + n
      omega

theorem hitFrom_eq_none : hitFrom p n l = none ↔ ∀ a ∈ l, p a = false := by
  rw [← Option.map_eq_none_iff (f := Prod.fst), map_fst_hitFrom, List.find?_eq_none]
  exact forall₂_congr fun a _ => by rw [Bool.not_eq_true]

end Ranking
end RagflowAgent
