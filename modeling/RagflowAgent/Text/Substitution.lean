import Mathlib.Data.List.Forall2
import RagflowAgent.Text.Pattern

/-!
# What a substitution does

A substitution copies characters and replaces matches.

* `segmentsFrom` are the steps of a substitution, and `subFrom_eq_flatMap` reads its result from
  them;
* `Segmented` relates a text to its segments, one constructor for each kind of step, and
  `segmented_segmentsFrom` says that the steps of a substitution are related so, provided that no
  match is empty;
* `exists_of_mem_ends` says where a match ends by the `Language` of the pattern, and
  `mem_ends_of_language` is the other direction for a pattern without boundaries;
* `head?_ends_many`: a repetition prefers the longest run.
-/

namespace RagflowAgent
namespace Text
namespace Pattern

/-! ## Places -/

theorem behind_append (before : Option Char) (u v : List Char) :
    behind before (u ++ v) = behind (behind before u) v := by
  induction u generalizing before with
  | nil => rfl
  | cons c u ih => exact ih (some c)

/-- What stands before a text does not matter behind it, unless it is empty. -/
theorem behind_of_ne_nil {text : List Char} (h : text ≠ []) (before before' : Option Char) :
    behind before text = behind before' text := by
  cases text with
  | nil => exact absurd rfl h
  | cons c text => rfl

/-! ## Languages -/

/-- The texts that a pattern matches, wherever they stand; boundaries are not looked at. -/
def Language : Pattern → List Char → Prop
  | empty, w => w = []
  | one p, w => ∃ c, w = [c] ∧ p c = true
  | boundary _, w => w = []
  | seq a b, w => ∃ u v, w = u ++ v ∧ a.Language u ∧ b.Language v
  | alt a b, w => a.Language w ∨ b.Language w
  | many p least most, w =>
    least ≤ w.length ∧ (∀ n ∈ most, w.length ≤ n) ∧ ∀ c ∈ w, p c = true

/-- No boundary is asked for. -/
def BoundaryFree : Pattern → Prop
  | empty => True
  | one _ => True
  | boundary _ => False
  | seq a b => a.BoundaryFree ∧ b.BoundaryFree
  | alt a b => a.BoundaryFree ∧ b.BoundaryFree
  | many _ _ _ => True

theorem boundaryFree_literal (like : Char → Char → Bool) (w : List Char) :
    (literal like w).BoundaryFree := by
  induction w with
  | nil => trivial
  | cons c w ih => exact ⟨trivial, ih⟩

theorem language_literal_iff {like : Char → Char → Bool} {name w : List Char} :
    (literal like name).Language w ↔ List.Forall₂ (fun c x => like c x = true) name w := by
  induction name generalizing w with
  | nil =>
    rw [List.forall₂_nil_left_iff]
    rfl
  | cons c name ih =>
    rw [List.forall₂_cons_left_iff]
    constructor
    · rintro ⟨u, v, rfl, ⟨x, rfl, hx⟩, hv⟩
      exact ⟨x, v, hx, ih.1 hv, rfl⟩
    · rintro ⟨x, v, hx, hv, rfl⟩
      exact ⟨[x], v, rfl, ⟨x, rfl, hx⟩, ih.2 hv⟩

theorem getElem?_reach {p : Char → Bool} {w : List Char} (h : ∀ c ∈ w, p c = true)
    (before : Option Char) (rest : List Char) :
    (reach p before (w ++ rest))[w.length]? = some ⟨behind before w, rest⟩ := by
  induction w generalizing before with
  | nil => cases rest <;> rfl
  | cons c w ih =>
    rw [List.cons_append, reach, if_pos (h c (by simp)), List.length_cons,
      List.getElem?_cons_succ]
    exact ih (fun d hd => h d (by simp [hd])) (some c)

/-- The places that a repetition reaches, by the number of characters. -/
theorem mem_ends_many_iff {p : Char → Bool} {least : ℕ} {most : Option ℕ} {place last : Place} :
    last ∈ (many p least most).ends place ↔
      ∃ i, least ≤ i ∧ (∀ n ∈ most, i ≤ n) ∧ (reach p place.before place.rest)[i]? = some last := by
  simp only [ends, List.mem_reverse]
  rw [List.mem_iff_getElem?]
  cases most with
  | none =>
    simp only [List.getElem?_drop]
    constructor
    · rintro ⟨i, hi⟩
      exact ⟨least + i, by omega, by simp, hi⟩
    · rintro ⟨i, hleast, -, hi⟩
      exact ⟨i - least, by rwa [Nat.add_sub_cancel' hleast]⟩
  | some n =>
    simp only [List.getElem?_drop, List.getElem?_take]
    constructor
    · rintro ⟨i, hi⟩
      split at hi
      · exact ⟨least + i, by omega, fun m hm => by cases hm; omega, hi⟩
      · cases hi
    · rintro ⟨i, hleast, hmost, hi⟩
      have hn : i ≤ n := hmost n rfl
      refine ⟨i - least, ?_⟩
      rwa [Nat.add_sub_cancel' hleast, if_pos (by omega)]

/-- **Where a match ends**: behind a text of the language. -/
theorem exists_of_mem_ends {a : Pattern} {place last : Place} (h : last ∈ a.ends place) :
    ∃ w, place.rest = w ++ last.rest ∧ last.before = behind place.before w ∧ a.Language w := by
  induction a generalizing place last with
  | empty =>
    rw [ends, List.mem_singleton] at h
    subst h
    exact ⟨[], rfl, rfl, rfl⟩
  | one p =>
    obtain ⟨before, rest⟩ := place
    cases rest with
    | nil => exact absurd h List.not_mem_nil
    | cons c rest =>
      rw [ends] at h
      split at h
      · rename_i hc
        rw [List.mem_singleton.1 h]
        exact ⟨[c], rfl, rfl, c, rfl, hc⟩
      · exact absurd h List.not_mem_nil
  | boundary isWord =>
    rw [ends] at h
    split at h
    · obtain rfl := List.mem_singleton.1 h
      exact ⟨[], rfl, rfl, rfl⟩
    · exact absurd h List.not_mem_nil
  | seq a b iha ihb =>
    rw [ends, List.mem_flatMap] at h
    obtain ⟨middle, hmiddle, hlast⟩ := h
    obtain ⟨u, hu, hbefore, hlanguage⟩ := iha hmiddle
    obtain ⟨v, hv, hbefore', hlanguage'⟩ := ihb hlast
    refine ⟨u ++ v, by rw [hu, hv, List.append_assoc], ?_, u, v, rfl, hlanguage, hlanguage'⟩
    rw [hbefore', hbefore, behind_append]
  | alt a b iha ihb =>
    rw [ends, List.mem_append] at h
    rcases h with h | h
    · obtain ⟨w, hw, hbefore, hlanguage⟩ := iha h
      exact ⟨w, hw, hbefore, .inl hlanguage⟩
    · obtain ⟨w, hw, hbefore, hlanguage⟩ := ihb h
      exact ⟨w, hw, hbefore, .inr hlanguage⟩
  | many p least most =>
    obtain ⟨i, hleast, hmost, hi⟩ := mem_ends_many_iff.1 h
    obtain ⟨w, hw, hbefore, rfl, hp⟩ := exists_of_getElem?_reach hi
    exact ⟨w, hw, hbefore, hleast, hmost, hp⟩

/-- Whatever `re.findall` finds is of the language. -/
theorem language_of_mem_findAll {a : Pattern} {text : String} {found : List Char}
    (h : found ∈ a.findAll text) : a.Language found := by
  obtain ⟨place, last, hlast, hrest⟩ := exists_of_mem_findAllFrom h
  obtain ⟨w, hw, -, hlanguage⟩ := exists_of_mem_ends hlast
  rwa [List.append_cancel_right (hrest.symm.trans hw)]

/-- **A pattern without boundaries** matches every text of its language, whatever follows. -/
theorem mem_ends_of_language {a : Pattern} (ha : a.BoundaryFree) {w : List Char}
    (h : a.Language w) (before : Option Char) (rest : List Char) :
    (⟨behind before w, rest⟩ : Place) ∈ a.ends ⟨before, w ++ rest⟩ := by
  induction a generalizing before w rest with
  | empty =>
    obtain rfl : w = [] := h
    exact List.mem_singleton_self _
  | one p =>
    obtain ⟨c, rfl, hc⟩ := h
    rw [List.singleton_append, ends, if_pos hc]
    exact List.mem_singleton_self _
  | boundary isWord => exact absurd ha id
  | seq a b iha ihb =>
    obtain ⟨u, v, rfl, hu, hv⟩ := h
    rw [List.append_assoc, ends, List.mem_flatMap, behind_append]
    exact ⟨_, iha ha.1 hu before (v ++ rest), ihb ha.2 hv (behind before u) rest⟩
  | alt a b iha ihb =>
    rw [ends, List.mem_append]
    exact h.imp (fun h => iha ha.1 h before rest) fun h => ihb ha.2 h before rest
  | many p least most =>
    obtain ⟨hleast, hmost, hp⟩ := h
    exact mem_ends_many_iff.2 ⟨w.length, hleast, hmost, getElem?_reach hp before rest⟩

/-! ## The preferred match -/

theorem length_reach {p : Char → Bool} {w rest : List Char} (h : ∀ c ∈ w, p c = true)
    (hrest : ∀ c ∈ rest.head?, p c = false) (before : Option Char) :
    (reach p before (w ++ rest)).length = w.length + 1 := by
  induction w generalizing before with
  | nil =>
    cases rest with
    | nil => rfl
    | cons c rest =>
      have hc : p c = false := hrest c rfl
      rw [List.nil_append, reach, hc]
      rfl
  | cons c w ih =>
    rw [List.cons_append, reach, if_pos (h c (by simp)), List.length_cons,
      ih (fun d hd => h d (by simp [hd])) (some c), List.length_cons]

/-- **A repetition prefers the longest run.** -/
theorem head?_ends_many {p : Char → Bool} {least : ℕ} {w rest : List Char}
    (h : ∀ c ∈ w, p c = true) (hleast : least ≤ w.length)
    (hrest : ∀ c ∈ rest.head?, p c = false) (before : Option Char) :
    ((many p least none).ends ⟨before, w ++ rest⟩).head? = some ⟨behind before w, rest⟩ := by
  have hlength := length_reach h hrest before
  have hindex : least + (w.length + 1 - least - 1) = w.length := by omega
  simp only [ends, List.head?_reverse, List.getLast?_eq_getElem?, List.length_drop, hlength,
    List.getElem?_drop, hindex]
  exact getElem?_reach h before rest

/-- The preferred way to match two patterns is the preferred way to go on behind the preferred
match of the first, if there is one. -/
theorem head?_ends_seq {a b : Pattern} {place middle last : Place}
    (ha : (a.ends place).head? = some middle) (hb : (b.ends middle).head? = some last) :
    ((seq a b).ends place).head? = some last := by
  obtain ⟨tail, htail⟩ := List.head?_eq_some_iff.1 ha
  rw [ends, htail, List.flatMap_cons, List.head?_append, hb, Option.some_or]

theorem head?_ends_one {p : Char → Bool} {c : Char} (hc : p c = true) (before : Option Char)
    (rest : List Char) : ((one p).ends ⟨before, c :: rest⟩).head? = some ⟨some c, rest⟩ := by
  rw [ends, if_pos hc, List.head?_cons]

theorem head?_firstMatch {a b : Pattern} {place middle last : Place}
    (ha : (a.ends place).head? = some middle) (hb : (b.ends middle).head? = some last) :
    firstMatch a b place = some (middle, last) := by
  obtain ⟨tail, htail⟩ := List.head?_eq_some_iff.1 ha
  rw [firstMatch, htail, List.flatMap_cons, List.head?_append, List.head?_map, hb,
    Option.map_some, Option.some_or]

theorem mem_of_firstMatch {a b : Pattern} {place middle last : Place}
    (h : firstMatch a b place = some (middle, last)) :
    middle ∈ a.ends place ∧ last ∈ b.ends middle := by
  have hmem := List.mem_of_mem_head? (Option.mem_def.2 h)
  rw [List.mem_flatMap] at hmem
  obtain ⟨middle', hmiddle, hlast⟩ := hmem
  obtain ⟨last', hlast', heq⟩ := List.mem_map.1 hlast
  obtain ⟨rfl, rfl⟩ := Prod.mk.inj heq
  exact ⟨hmiddle, hlast'⟩

/-- There is no match exactly when the second pattern never matches behind the first. -/
theorem firstMatch_eq_none_iff {a b : Pattern} {place : Place} :
    firstMatch a b place = none ↔ ∀ middle ∈ a.ends place, b.ends middle = [] := by
  rw [firstMatch, List.head?_eq_none_iff, List.flatMap_eq_nil_iff]
  simp only [List.map_eq_nil_iff]

/-- The two parts of a match. -/
theorem exists_of_firstMatch {a b : Pattern} {before : Option Char} {text : List Char}
    {middle last : Place} (h : firstMatch a b ⟨before, text⟩ = some (middle, last)) :
    ∃ name value, text = name ++ value ++ last.rest ∧ middle.rest = value ++ last.rest := by
  obtain ⟨hmiddle, hlast⟩ := mem_of_firstMatch h
  obtain ⟨name, hname, -, -⟩ := exists_of_mem_ends hmiddle
  obtain ⟨value, hvalue, -, -⟩ := exists_of_mem_ends hlast
  exact ⟨name, value, by rw [List.append_assoc, ← hvalue]; exact hname, hvalue⟩

/-! ## Segments -/

/-- What one step of a substitution deals with. -/
inductive Segment where
  | copied (c : Char)
  /-- A match of both patterns; only the first part is given to the function. -/
  | found (name value : List Char)
  deriving DecidableEq, Repr

namespace Segment

/-- The part of the text that the step reads. -/
def source : Segment → List Char
  | copied c => [c]
  | found name value => name ++ value

/-- What the step writes. -/
def replaced (f : List Char → List Char) : Segment → List Char
  | copied c => [c]
  | found name _ => f name

end Segment

/-- The steps of a substitution; `skip` characters still belong to a match that was found
already. -/
def segmentsFrom (a b : Pattern) : ℕ → Option Char → List Char → List Segment
  | _, _, [] => []
  | skip + 1, _, c :: rest => segmentsFrom a b skip (some c) rest
  | 0, before, c :: rest =>
    match firstMatch a b ⟨before, c :: rest⟩ with
    | none => .copied c :: segmentsFrom a b 0 (some c) rest
    | some (middle, last) =>
      .found ((c :: rest).take ((c :: rest).length - middle.rest.length))
          (middle.rest.take (middle.rest.length - last.rest.length)) ::
        segmentsFrom a b ((c :: rest).length - last.rest.length - 1) (some c) rest

variable {a b : Pattern}

/-- **The result of a substitution** is what its steps write. -/
theorem subFrom_eq_flatMap (a b : Pattern) (f : List Char → List Char) (skip : ℕ)
    (before : Option Char) (text : List Char) :
    subFrom a b f skip before text =
      (segmentsFrom a b skip before text).flatMap (Segment.replaced f) := by
  induction text generalizing skip before with
  | nil => cases skip <;> rfl
  | cons c rest ih =>
    cases skip with
    | succ skip => exact ih skip (some c)
    | zero =>
      rw [subFrom, segmentsFrom]
      cases firstMatch a b ⟨before, c :: rest⟩ with
      | none =>
        dsimp only
        rw [List.flatMap_cons, ← ih]
        rfl
      | some ends =>
        dsimp only
        rw [List.flatMap_cons, ← ih]
        rfl

theorem segmentsFrom_length_append (u v : List Char) (before : Option Char) :
    segmentsFrom a b u.length before (u ++ v) = segmentsFrom a b 0 (behind before u) v := by
  induction u generalizing before with
  | nil => rfl
  | cons c u ih => exact ih (some c)

/-- A match is one step. -/
theorem segmentsFrom_of_firstMatch {before : Option Char} {name value rest : List Char}
    {middle last : Place}
    (h : firstMatch a b ⟨before, name ++ value ++ rest⟩ = some (middle, last))
    (hmiddle : middle.rest = value ++ rest) (hlast : last.rest = rest)
    (hne : name ++ value ≠ []) :
    segmentsFrom a b 0 before (name ++ value ++ rest) =
      .found name value :: segmentsFrom a b 0 (behind before (name ++ value)) rest := by
  obtain ⟨c, tail, htail⟩ := List.exists_cons_of_ne_nil hne
  have htext : name ++ value ++ rest = c :: (tail ++ rest) := by rw [htail, List.cons_append]
  have hname : (name ++ value ++ rest).take
      ((name ++ value ++ rest).length - (value ++ rest).length) = name := by
    rw [List.append_assoc, List.length_append, Nat.add_sub_cancel, List.take_left]
  have hvalue : (value ++ rest).take ((value ++ rest).length - rest.length) = value := by
    rw [List.length_append, Nat.add_sub_cancel, List.take_left]
  have hskip : (name ++ value ++ rest).length - rest.length - 1 = tail.length := by
    rw [htail, List.length_append, List.length_cons]
    omega
  rw [htext] at h hname hskip
  rw [htext, segmentsFrom, h]
  simp only [hmiddle, hlast, hname, hvalue, hskip, segmentsFrom_length_append, htail]
  rfl

/-- A text and the steps of the substitution over it. -/
inductive Segmented (a b : Pattern) : Option Char → List Char → List Segment → Prop
  | nil {before} : Segmented a b before [] []
  | copied {before c rest segments} (hnone : firstMatch a b ⟨before, c :: rest⟩ = none)
      (tail : Segmented a b (some c) rest segments) :
      Segmented a b before (c :: rest) (.copied c :: segments)
  | found {before name value rest segments middle last}
      (hfirst : firstMatch a b ⟨before, name ++ value ++ rest⟩ = some (middle, last))
      (hmiddle : middle.rest = value ++ rest) (hlast : last.rest = rest)
      (tail : Segmented a b (behind before (name ++ value)) rest segments) :
      Segmented a b before (name ++ value ++ rest) (.found name value :: segments)

/-- **The steps of a substitution** deal with the text from its beginning to its end. -/
theorem segmented_segmentsFrom
    (hne : ∀ place middle last, firstMatch a b place = some (middle, last) →
      last.rest.length < place.rest.length) (before : Option Char) (text : List Char) :
    Segmented a b before text (segmentsFrom a b 0 before text) := by
  induction hn : text.length using Nat.strongRecOn generalizing before text with
  | ind n ih =>
    subst hn
    cases text with
    | nil => exact .nil
    | cons c rest =>
      cases hfirst : firstMatch a b ⟨before, c :: rest⟩ with
      | none =>
        rw [segmentsFrom, hfirst]
        exact .copied hfirst (ih rest.length (by simp) (some c) rest rfl)
      | some ends =>
        obtain ⟨middle, last⟩ := ends
        have hlt := hne _ _ _ hfirst
        obtain ⟨name, value, htext, hmiddle⟩ := exists_of_firstMatch hfirst
        dsimp only at hlt
        have hnonempty : name ++ value ≠ [] := by
          intro hnil
          rw [htext, hnil, List.nil_append] at hlt
          omega
        rw [htext] at hfirst hlt ⊢
        rw [segmentsFrom_of_firstMatch hfirst hmiddle rfl hnonempty]
        refine .found hfirst hmiddle rfl (ih _ ?_ _ _ rfl)
        rw [htext]
        exact hlt

/-- The steps read the text. -/
theorem Segmented.flatMap_source {before : Option Char} {text : List Char}
    {segments : List Segment}
    (h : Segmented a b before text segments) : segments.flatMap Segment.source = text := by
  induction h with
  | nil => rfl
  | copied hnone tail ih => rw [List.flatMap_cons, ih]; rfl
  | found hfirst hmiddle hlast tail ih => rw [List.flatMap_cons, ih]; rfl

end Pattern
end Text
end RagflowAgent
