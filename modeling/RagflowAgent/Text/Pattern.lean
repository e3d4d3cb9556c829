import Mathlib.Data.Nat.Notation

/-!
# Patterns

Regular expressions as a backtracking matcher reads them: a match is tried at every place
of a text from the left, and of the ways to match at one place the first in the order of
preference is taken.

* `Pattern` are the expressions; the only things repeated are classes of characters;
* `Pattern.ends` are the places where a match that begins at a given place can end, the
  preferred one first;
* `Pattern.occursIn` says that there is a match anywhere, `Pattern.findAll` collects the matches,
  and `Pattern.sub` replaces the matches of a pattern in two parts by what a function makes of the
  first part.
-/

namespace RagflowAgent
namespace Text

/-- A place in a text: the character before it, if there is one, and the text after it. -/
structure Place where
  before : Option Char
  rest : List Char
  deriving DecidableEq, Repr

/-- The character before the place that is reached over a text. -/
def behind : Option Char → List Char → Option Char
  | before, [] => before
  | _, c :: text => behind (some c) text

inductive Pattern where
  /-- Matches nothing at all, everywhere. -/
  | empty
  | one (p : Char → Bool)
  /-- The border between a word and what is no word. -/
  | boundary (isWord : Char → Bool)
  | seq (a b : Pattern)
  /-- The first alternative is preferred. -/
  | alt (a b : Pattern)
  /-- As many characters as there are, but no more than `most`, if that is given. -/
  | many (p : Char → Bool) (least : ℕ) (most : Option ℕ)

namespace Pattern

/-- The places that are reached over characters in `p`, the nearest first. -/
def reach (p : Char → Bool) : Option Char → List Char → List Place
  | before, [] => [⟨before, []⟩]
  | before, c :: rest => ⟨before, c :: rest⟩ :: if p c then reach p (some c) rest else []

/-- Where a match that begins at a place can end, in the order of preference. -/
def ends : Pattern → Place → List Place
  | empty, place => [place]
  | one _, ⟨_, []⟩ => []
  | one p, ⟨_, c :: rest⟩ => if p c then [⟨some c, rest⟩] else []
  | boundary isWord, place =>
    if place.before.any isWord ≠ place.rest.head?.any isWord then [place] else []
  | seq a b, place => (a.ends place).flatMap b.ends
  | alt a b, place => a.ends place ++ b.ends place
  | many p least most, place =>
    let places := reach p place.before place.rest
    let places := match most with
      | none => places
      | some most => places.take (most + 1)
    (places.drop least).reverse

/-- A match begins at one of the places from here on. -/
def occursFrom (a : Pattern) : Option Char → List Char → Bool
  | before, [] => !(a.ends ⟨before, []⟩).isEmpty
  | before, c :: rest =>
    !(a.ends ⟨before, c :: rest⟩).isEmpty || occursFrom a (some c) rest

/-- `a.search(text) is not None`. -/
def occursIn (a : Pattern) (text : String) : Bool := a.occursFrom none text.toList

/-- The preferred match of `a` and `b` one after the other: where `a` ends, where `b` does. -/
def firstMatch (a b : Pattern) (place : Place) : Option (Place × Place) :=
  ((a.ends place).flatMap fun middle => (b.ends middle).map fun last => (middle, last)).head?

/-- Copy a text and replace the matches; `skip` characters still belong to a match that was
replaced already. -/
def subFrom (a b : Pattern) (f : List Char → List Char) :
    ℕ → Option Char → List Char → List Char
  | _, _, [] => []
  | skip + 1, _, c :: rest => subFrom a b f skip (some c) rest
  | 0, before, c :: rest =>
    match firstMatch a b ⟨before, c :: rest⟩ with
    | none => c :: subFrom a b f 0 (some c) rest
    | some (middle, last) =>
      f ((c :: rest).take ((c :: rest).length - middle.rest.length)) ++
        subFrom a b f ((c :: rest).length - last.rest.length - 1) (some c) rest

/-- Replace every match of `a` and `b` by what `f` makes of the part that matches `a`.  The
two together must not match the empty text. -/
def sub (a b : Pattern) (f : List Char → List Char) (text : String) : String :=
  String.ofList (subFrom a b f 0 none text.toList)

/-- Collect the matches; `skip` characters still belong to a match that was collected already. -/
def findAllFrom (a : Pattern) : ℕ → Option Char → List Char → List (List Char)
  | _, _, [] => []
  | skip + 1, _, c :: rest => findAllFrom a skip (some c) rest
  | 0, before, c :: rest =>
    match (a.ends ⟨before, c :: rest⟩).head? with
    | none => findAllFrom a 0 (some c) rest
    | some last =>
      (c :: rest).take ((c :: rest).length - last.rest.length) ::
        findAllFrom a ((c :: rest).length - last.rest.length - 1) (some c) rest

/-- `re.findall(a, text)`.  The pattern must not match the empty text. -/
def findAll (a : Pattern) (text : String) : List (List Char) := a.findAllFrom 0 none text.toList

/-! ## Shorthands -/

/-- The characters of a text, one after the other, each matched by `like`. -/
def literal (like : Char → Char → Bool) : List Char → Pattern
  | [] => empty
  | c :: rest => seq (one (like c)) (literal like rest)

/-- One of several patterns, the first preferred. -/
def choice : List Pattern → Pattern
  | [] => one fun _ => false
  | [a] => a
  | a :: rest => alt a (choice rest)

/-- `a?`. -/
def optional (a : Pattern) : Pattern := alt a empty

/-- Several patterns one after the other. -/
def sequence : List Pattern → Pattern
  | [] => empty
  | [a] => a
  | a :: rest => seq a (sequence rest)

/-! ## Texts without a match -/

theorem rest_suffix_of_mem_reach {p : Char → Bool} {before : Option Char} {rest : List Char}
    {place : Place} (h : place ∈ reach p before rest) : place.rest <:+ rest := by
  induction rest generalizing before with
  | nil =>
    rw [reach, List.mem_singleton] at h
    subst h
    exact List.suffix_rfl
  | cons c rest ih =>
    rw [reach, List.mem_cons] at h
    rcases h with h | h
    · subst h
      exact List.suffix_rfl
    · split at h
      · exact (ih h).trans (List.suffix_cons c rest)
      · exact absurd h List.not_mem_nil

/-- **A match ends further on in the same text.** -/
theorem rest_suffix_of_mem_ends {a : Pattern} {place last : Place} (h : last ∈ a.ends place) :
    last.rest <:+ place.rest := by
  induction a generalizing place last with
  | empty =>
    rw [ends, List.mem_singleton] at h
    subst h
    exact List.suffix_rfl
  | one p =>
    obtain ⟨before, rest⟩ := place
    cases rest with
    | nil => exact absurd h List.not_mem_nil
    | cons c rest =>
      rw [ends] at h
      split at h
      · rw [List.mem_singleton.1 h]
        exact List.suffix_cons c rest
      · exact absurd h List.not_mem_nil
  | boundary isWord =>
    rw [ends] at h
    split at h
    · obtain rfl := List.mem_singleton.1 h
      exact List.suffix_rfl
    · exact absurd h List.not_mem_nil
  | seq a b iha ihb =>
    rw [ends, List.mem_flatMap] at h
    obtain ⟨middle, hmiddle, hlast⟩ := h
    exact (ihb hlast).trans (iha hmiddle)
  | alt a b iha ihb =>
    rw [ends, List.mem_append] at h
    rcases h with h | h
    · exact iha h
    · exact ihb h
  | many p least most =>
    simp only [ends, List.mem_reverse] at h
    have hplaces := List.mem_of_mem_drop h
    cases most with
    | none => exact rest_suffix_of_mem_reach hplaces
    | some most => exact rest_suffix_of_mem_reach (List.mem_of_mem_take hplaces)

/-- A match is what stands before the place where it ends. -/
theorem exists_of_mem_findAllFrom {a : Pattern} {skip : ℕ} {before : Option Char}
    {text found : List Char} (h : found ∈ a.findAllFrom skip before text) :
    ∃ place last, last ∈ a.ends place ∧ place.rest = found ++ last.rest := by
  induction text generalizing skip before with
  | nil => exact absurd h List.not_mem_nil
  | cons c rest ih =>
    cases skip with
    | succ skip => exact ih h
    | zero =>
      rw [findAllFrom] at h
      split at h
      · exact ih h
      rename_i last hlast
      rcases List.mem_cons.1 h with rfl | h
      · have hmem : last ∈ a.ends ⟨before, c :: rest⟩ := List.mem_of_mem_head? hlast
        obtain ⟨u, hu⟩ : ∃ u, u ++ last.rest = c :: rest := rest_suffix_of_mem_ends hmem
        refine ⟨_, last, hmem, ?_⟩
        have hlength : (c :: rest).length - last.rest.length = u.length := by
          rw [← hu, List.length_append]
          omega
        change c :: rest = _
        rw [hlength, ← hu, List.take_left]
      · exact ih h

/-- The places that are reached, by the characters that they are reached over. -/
theorem exists_of_getElem?_reach {p : Char → Bool} {before : Option Char} {rest : List Char}
    {i : ℕ} {place : Place} (h : (reach p before rest)[i]? = some place) :
    ∃ w, rest = w ++ place.rest ∧ place.before = behind before w ∧ w.length = i ∧
      ∀ c ∈ w, p c = true := by
  induction rest generalizing before i with
  | nil =>
    cases i with
    | zero =>
      cases h
      exact ⟨[], rfl, rfl, rfl, fun _ hc => absurd hc List.not_mem_nil⟩
    | succ i => cases h
  | cons c rest ih =>
    cases i with
    | zero =>
      cases h
      exact ⟨[], rfl, rfl, rfl, fun _ hc => absurd hc List.not_mem_nil⟩
    | succ i =>
      rw [reach, List.getElem?_cons_succ] at h
      split at h
      · rename_i hc
        obtain ⟨w, hw, hbefore, hlength, hall⟩ := ih h
        refine ⟨c :: w, ?_, hbefore, ?_, List.forall_mem_cons.2 ⟨hc, hall⟩⟩
        · rw [List.cons_append, ← hw]
        · rw [List.length_cons, hlength]
      · cases h

/-- A repetition of a class ends after enough characters of the class. -/
theorem exists_of_mem_ends_many {p : Char → Bool} {least : ℕ} {most : Option ℕ}
    {place last : Place} (h : last ∈ (many p least most).ends place) :
    ∃ w, place.rest = w ++ last.rest ∧ least ≤ w.length ∧ ∀ c ∈ w, p c = true := by
  have hplaces : ∃ i, (reach p place.before place.rest)[least + i]? = some last := by
    simp only [ends, List.mem_reverse] at h
    obtain ⟨i, hi⟩ := List.getElem?_of_mem h
    rw [List.getElem?_drop] at hi
    cases most with
    | none => exact ⟨i, hi⟩
    | some most =>
      rw [List.getElem?_take] at hi
      split at hi
      · exact ⟨i, hi⟩
      · cases hi
  obtain ⟨i, hi⟩ := hplaces
  obtain ⟨w, hw, -, hlength, hall⟩ := exists_of_getElem?_reach hi
  exact ⟨w, hw, by omega, hall⟩

/-- A class of characters that do not occur is not matched, whatever stands around it. -/
theorem ends_seq_one_eq_nil {a b : Pattern} {p : Char → Bool} {place : Place}
    (h : ∀ c ∈ place.rest, p c = false) : (seq a (seq (one p) b)).ends place = [] := by
  rw [ends, List.flatMap_eq_nil_iff]
  intro middle hmiddle
  have hsuffix := rest_suffix_of_mem_ends hmiddle
  have hone : (one p).ends middle = [] := by
    obtain ⟨before, rest⟩ := middle
    cases rest with
    | nil => rfl
    | cons c rest =>
      have hc : p c = false := h c (hsuffix.subset List.mem_cons_self)
      simp [ends, hc]
  rw [ends, hone, List.flatMap_nil]

/-- A text in which the second part of the pattern matches nowhere stays as it is. -/
theorem subFrom_eq_self {a b : Pattern} {f : List Char → List Char} {before : Option Char}
    {text : List Char} (h : ∀ place : Place, place.rest <:+ text → b.ends place = []) :
    subFrom a b f 0 before text = text := by
  induction text generalizing before with
  | nil => rfl
  | cons c rest ih =>
    have hnone : firstMatch a b ⟨before, c :: rest⟩ = none := by
      rw [firstMatch, List.head?_eq_none_iff, List.flatMap_eq_nil_iff]
      intro middle hmiddle
      rw [h middle (rest_suffix_of_mem_ends hmiddle), List.map_nil]
    rw [subFrom, hnone]
    simp only
    rw [ih fun place hplace => h place (hplace.trans (List.suffix_cons c rest))]

theorem sub_eq_self {a b : Pattern} {f : List Char → List Char} {text : String}
    (h : ∀ place : Place, place.rest <:+ text.toList → b.ends place = []) :
    sub a b f text = text := by
  rw [sub, subFrom_eq_self h, String.ofList_toList]

end Pattern

end Text
end RagflowAgent
