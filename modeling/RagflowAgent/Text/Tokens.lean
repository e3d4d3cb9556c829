import Mathlib.Data.List.Chain
import Mathlib.Data.List.TakeWhile
import Mathlib.Data.Nat.Notation

/-!
# Tokens

The tokens of a text are the longest runs of word characters, and the single characters that
are neither word characters nor spaces.

* `Alphabet` are the two classes of characters, which do not overlap;
* `Alphabet.spans` are the places where the tokens of a text begin and end, and
  `Alphabet.tokens` are the tokens;
* a text is read off its *pieces*, tokens with the spaces before them: `Alphabet.exists_pieces`
  cuts a text into pieces, and `Alphabet.spans_flat` says that every such cut shows the tokens;
* `Alphabet.tokens_append` and `Alphabet.tokens_slice` follow: a text may be cut where no word
  is cut, and the text from one token to another one has these tokens and those in between.
-/

namespace RagflowAgent
namespace Text

variable {α : Type}

/-- Word characters and spaces. -/
structure Alphabet (α : Type) where
  isWord : α → Bool
  isSpace : α → Bool
  disjoint : ∀ c, isWord c = true → isSpace c = false

/-- `text[start:stop]`. -/
def slice (text : List α) (start stop : ℕ) : List α :=
  (text.drop start).take (stop - start)

/-- The middle of three parts is a slice. -/
theorem slice_append (u m v : List α) :
    slice (u ++ m ++ v) u.length (u.length + m.length) = m := by
  rw [slice, List.append_assoc, List.drop_left, Nat.add_sub_cancel_left, List.take_left]

namespace Alphabet

variable (A : Alphabet α)

/-- The tokens from place `n` on; `start` is where a word has begun that is still open. -/
def spansFrom : ℕ → Option ℕ → List α → List (ℕ × ℕ)
  | n, start, [] => (start.map fun i => (i, n)).toList
  | n, start, c :: text =>
    if A.isWord c then spansFrom (n + 1) (some (start.getD n)) text
    else
      (start.map fun i => (i, n)).toList ++
        ((if A.isSpace c then [] else [(n, n + 1)]) ++ spansFrom (n + 1) none text)

/-- Where the tokens begin and end. -/
def spans (text : List α) : List (ℕ × ℕ) := A.spansFrom 0 none text

def tokens (text : List α) : List (List α) :=
  (A.spans text).map fun span => slice text span.1 span.2

/-- `text.strip()`. -/
def strip (text : List α) : List α :=
  ((text.dropWhile A.isSpace).reverse.dropWhile A.isSpace).reverse

/-! ## Pieces -/

/-- A longest run of word characters, or a character that stands for itself. -/
def IsToken (t : List α) : Prop :=
  (t ≠ [] ∧ ∀ c ∈ t, A.isWord c = true) ∨
    ∃ c, t = [c] ∧ A.isWord c = false ∧ A.isSpace c = false

/-- The two parts may stand side by side: they do not make one word of two. -/
def Separate (u v : List α) : Prop :=
  ∀ c ∈ u.getLast?, ∀ d ∈ v.head?, ¬ (A.isWord c = true ∧ A.isWord d = true)

/-- Spaces, and the token after them. -/
abbrev Piece (α : Type) := List α × List α

def flat (pieces : List (Piece α)) : List α :=
  pieces.flatMap fun piece => piece.1 ++ piece.2

/-- The pieces are what they should be, and neighbours without a space do not run together. -/
structure Spaced (pieces : List (Piece α)) : Prop where
  isSpace : ∀ piece ∈ pieces, ∀ c ∈ piece.1, A.isSpace c = true
  isToken : ∀ piece ∈ pieces, A.IsToken piece.2
  separate : pieces.IsChain fun piece piece' => piece'.1 = [] → A.Separate piece.2 piece'.2

/-- Where the tokens of the pieces are, counted from `n`. -/
def offsets : ℕ → List (Piece α) → List (ℕ × ℕ)
  | _, [] => []
  | n, piece :: pieces =>
    (n + piece.1.length, n + piece.1.length + piece.2.length) ::
      offsets (n + piece.1.length + piece.2.length) pieces

@[simp] theorem flat_nil : flat ([] : List (Piece α)) = [] := rfl

@[simp] theorem flat_cons (piece : Piece α) (pieces : List (Piece α)) :
    flat (piece :: pieces) = piece.1 ++ piece.2 ++ flat pieces :=
  List.flatMap_cons

theorem flat_append (pieces pieces' : List (Piece α)) :
    flat (pieces ++ pieces') = flat pieces ++ flat pieces' :=
  List.flatMap_append

@[simp] theorem length_offsets (n : ℕ) (pieces : List (Piece α)) :
    (offsets n pieces).length = pieces.length := by
  induction pieces generalizing n with
  | nil => rfl
  | cons piece pieces ih => rw [offsets, List.length_cons, ih, List.length_cons]

theorem offsets_append (n : ℕ) (pieces pieces' : List (Piece α)) :
    offsets n (pieces ++ pieces') =
      offsets n pieces ++ offsets (n + (flat pieces).length) pieces' := by
  induction pieces generalizing n with
  | nil => rfl
  | cons piece pieces ih =>
    have hlength : n + piece.1.length + piece.2.length + (flat pieces).length =
        n + (flat (piece :: pieces)).length := by
      rw [flat_cons, List.length_append, List.length_append]
      omega
    rw [List.cons_append, offsets, ih, hlength, offsets, List.cons_append]

variable {A}

theorem IsToken.ne_nil {t : List α} (h : A.IsToken t) : t ≠ [] := by
  rcases h with ⟨hne, -⟩ | ⟨c, rfl, -, -⟩
  · exact hne
  · exact List.cons_ne_nil _ _

/-- A token has no space. -/
theorem IsToken.isSpace_eq_false {t : List α} (h : A.IsToken t) :
    ∀ c ∈ t, A.isSpace c = false := by
  rcases h with ⟨-, hword⟩ | ⟨d, rfl, -, hspace⟩
  · exact fun c hc => A.disjoint c (hword c hc)
  · intro c hc
    rw [List.mem_singleton.1 hc]
    exact hspace

theorem Spaced.of_cons {piece : Piece α} {pieces : List (Piece α)}
    (h : A.Spaced (piece :: pieces)) : A.Spaced pieces where
  isSpace := fun other hother => h.isSpace other (List.mem_cons_of_mem _ hother)
  isToken := fun other hother => h.isToken other (List.mem_cons_of_mem _ hother)
  separate := h.separate.of_cons

/-! ## Reading the pieces off -/

theorem isWord_eq_false_of_isSpace {c : α} (h : A.isSpace c = true) : A.isWord c = false := by
  by_contra hword
  rw [Bool.not_eq_false] at hword
  rw [A.disjoint c hword] at h
  exact Bool.false_ne_true h

/-- A text that begins with a space, or is empty, is separate from what is before it. -/
theorem separate_of_head_isSpace {u v : List α} (h : ∀ d ∈ v.head?, A.isSpace d = true) :
    A.Separate u v := by
  rintro c - d hd ⟨-, hword⟩
  rw [isWord_eq_false_of_isSpace (h d hd)] at hword
  exact Bool.false_ne_true hword

theorem separate_of_getLast_not_isWord {u v : List α}
    (h : ∀ c ∈ u.getLast?, A.isWord c = false) : A.Separate u v := by
  rintro c hc d - ⟨hword, -⟩
  rw [h c hc] at hword
  exact Bool.false_ne_true hword

theorem spansFrom_spaces {sp : List α} (h : ∀ c ∈ sp, A.isSpace c = true) (n : ℕ)
    (text : List α) :
    A.spansFrom n none (sp ++ text) = A.spansFrom (n + sp.length) none text := by
  induction sp generalizing n with
  | nil => rfl
  | cons c sp ih =>
    obtain ⟨hc, hsp⟩ := List.forall_mem_cons.1 h
    have hlength : n + 1 + sp.length = n + (c :: sp).length := by
      rw [List.length_cons]
      omega
    rw [List.cons_append, spansFrom, isWord_eq_false_of_isSpace hc, hc,
      if_neg Bool.false_ne_true, if_pos rfl, ih hsp, hlength]
    rfl

/-- Inside a word. -/
theorem spansFrom_word {w : List α} (h : ∀ c ∈ w, A.isWord c = true) (n i : ℕ)
    (text : List α) :
    A.spansFrom n (some i) (w ++ text) = A.spansFrom (n + w.length) (some i) text := by
  induction w generalizing n with
  | nil => rfl
  | cons c w ih =>
    obtain ⟨hc, hw⟩ := List.forall_mem_cons.1 h
    have hlength : n + 1 + w.length = n + (c :: w).length := by
      rw [List.length_cons]
      omega
    rw [List.cons_append, spansFrom, if_pos hc, Option.getD_some, ih hw, hlength]

/-- At the end of a word. -/
theorem spansFrom_close {text : List α} (h : ∀ d ∈ text.head?, A.isWord d = false) (n i : ℕ) :
    A.spansFrom n (some i) text = (i, n) :: A.spansFrom n none text := by
  cases text with
  | nil => rfl
  | cons d text =>
    have hd : A.isWord d = false := h d rfl
    rw [spansFrom, spansFrom, hd, if_neg Bool.false_ne_true, if_neg Bool.false_ne_true]
    rfl

/-- A token that is separate from what follows it is one span. -/
theorem spansFrom_token {t : List α} (ht : A.IsToken t) {text : List α}
    (hseparate : A.Separate t text) (n : ℕ) :
    A.spansFrom n none (t ++ text) =
      (n, n + t.length) :: A.spansFrom (n + t.length) none text := by
  rcases ht with ⟨hne, hword⟩ | ⟨c, rfl, hword, hspace⟩
  · have hhead : ∀ d ∈ text.head?, A.isWord d = false := by
      intro d hd
      by_contra hdword
      rw [Bool.not_eq_false] at hdword
      have hlast := List.getLast?_eq_some_getLast hne
      exact hseparate _ hlast d hd ⟨hword _ (List.getLast_mem hne), hdword⟩
    obtain ⟨c, w, rfl⟩ := List.exists_cons_of_ne_nil hne
    obtain ⟨hc, hw⟩ := List.forall_mem_cons.1 hword
    have hlength : n + 1 + w.length = n + (c :: w).length := by
      rw [List.length_cons]
      omega
    rw [List.cons_append, spansFrom, if_pos hc, Option.getD_none, spansFrom_word hw,
      spansFrom_close hhead, hlength]
  · rw [List.singleton_append, spansFrom, hword, hspace, if_neg Bool.false_ne_true,
      if_neg Bool.false_ne_true]
    rfl

/-- What follows a token of well spaced pieces is separate from it. -/
theorem Spaced.separate_flat {piece : Piece α} {pieces : List (Piece α)} {tail : List α}
    (h : A.Spaced (piece :: pieces)) (htail : ∀ c ∈ tail, A.isSpace c = true) :
    A.Separate piece.2 (flat pieces ++ tail) := by
  cases pieces with
  | nil =>
    refine separate_of_head_isSpace fun d hd => htail d ?_
    exact List.mem_of_mem_head? hd
  | cons piece' pieces =>
    have hchain := (List.isChain_cons_cons.1 h.separate).1
    have hspace := h.isSpace piece' (List.mem_cons_of_mem _ List.mem_cons_self)
    have htoken := h.isToken piece' (List.mem_cons_of_mem _ List.mem_cons_self)
    obtain ⟨sp, t⟩ := piece'
    cases sp with
    | nil =>
      have hhead : (flat (([], t) :: pieces) ++ tail).head? = t.head? := by
        obtain ⟨c, t', ht⟩ := List.exists_cons_of_ne_nil htoken.ne_nil
        change t = c :: t' at ht
        rw [ht]
        rfl
      intro c hc d hd
      rw [hhead] at hd
      exact hchain rfl c hc d hd
    | cons c sp =>
      refine separate_of_head_isSpace fun d hd => ?_
      cases hd
      exact hspace c List.mem_cons_self

theorem spansFrom_tail {tail : List α} (htail : ∀ c ∈ tail, A.isSpace c = true) (n : ℕ) :
    A.spansFrom n none tail = [] := by
  have h := spansFrom_spaces htail n []
  rw [List.append_nil] at h
  rw [h]
  rfl

theorem spansFrom_flat {pieces : List (Piece α)} {tail : List α} (h : A.Spaced pieces)
    (htail : ∀ c ∈ tail, A.isSpace c = true) (n : ℕ) :
    A.spansFrom n none (flat pieces ++ tail) = offsets n pieces := by
  induction pieces generalizing n with
  | nil => exact spansFrom_tail htail n
  | cons piece pieces ih =>
    rw [flat_cons, List.append_assoc, List.append_assoc,
      spansFrom_spaces (h.isSpace piece List.mem_cons_self),
      spansFrom_token (h.isToken piece List.mem_cons_self) (h.separate_flat htail),
      ih h.of_cons, offsets]

/-- **Well spaced pieces show the tokens of their text.** -/
theorem spans_flat {pieces : List (Piece α)} {tail : List α} (h : A.Spaced pieces)
    (htail : ∀ c ∈ tail, A.isSpace c = true) :
    A.spans (flat pieces ++ tail) = offsets 0 pieces :=
  spansFrom_flat h htail 0

/-- The offsets of pieces after a text `u` cut out their tokens. -/
theorem map_slice_offsets (pieces : List (Piece α)) (u tail : List α) :
    (offsets u.length pieces).map (fun span => slice (u ++ flat pieces ++ tail) span.1 span.2) =
      pieces.map Prod.snd := by
  induction pieces generalizing u with
  | nil => rfl
  | cons piece pieces ih =>
    have htext : u ++ flat (piece :: pieces) ++ tail =
        (u ++ piece.1 ++ piece.2) ++ flat pieces ++ tail := by
      simp only [flat_cons, List.append_assoc]
    have hlength : u.length + piece.1.length + piece.2.length =
        (u ++ piece.1 ++ piece.2).length := by
      simp only [List.length_append]
    rw [offsets, List.map_cons, List.map_cons]
    congr 1
    · have hslice := slice_append (u ++ piece.1) piece.2 (flat pieces ++ tail)
      rw [List.length_append] at hslice
      rw [htext]
      simpa only [List.append_assoc] using hslice
    · rw [hlength, htext]
      exact ih (u ++ piece.1 ++ piece.2)

theorem tokens_flat {pieces : List (Piece α)} {tail : List α} (h : A.Spaced pieces)
    (htail : ∀ c ∈ tail, A.isSpace c = true) :
    A.tokens (flat pieces ++ tail) = pieces.map Prod.snd := by
  rw [tokens, spans_flat h htail]
  exact map_slice_offsets pieces [] tail

/-! ## Cutting a text into pieces -/

/-- The first piece may have more spaces before it. -/
theorem Spaced.cons_space {c : α} {sp t : List α} {pieces : List (Piece α)}
    (h : A.Spaced ((sp, t) :: pieces)) (hc : A.isSpace c = true) :
    A.Spaced ((c :: sp, t) :: pieces) where
  isSpace := List.forall_mem_cons.2
    ⟨List.forall_mem_cons.2 ⟨hc, h.isSpace (sp, t) List.mem_cons_self⟩, h.of_cons.isSpace⟩
  isToken := List.forall_mem_cons.2 ⟨h.isToken (sp, t) List.mem_cons_self, h.of_cons.isToken⟩
  separate := by
    obtain ⟨hhead, htail⟩ := List.isChain_cons.1 h.separate
    exact List.isChain_cons.2 ⟨hhead, htail⟩

/-- Another token in front. -/
theorem Spaced.cons_token {t : List α} {pieces : List (Piece α)} (h : A.Spaced pieces)
    (ht : A.IsToken t)
    (hseparate : ∀ piece ∈ pieces.head?, piece.1 = [] → A.Separate t piece.2) :
    A.Spaced (([], t) :: pieces) where
  isSpace := List.forall_mem_cons.2 ⟨fun _ hc => absurd hc List.not_mem_nil, h.isSpace⟩
  isToken := List.forall_mem_cons.2 ⟨ht, h.isToken⟩
  separate := List.isChain_cons.2 ⟨hseparate, h.separate⟩

/-- A word gets longer. -/
theorem Spaced.cons_word {c d : α} {t : List α} {pieces : List (Piece α)}
    (h : A.Spaced (([], d :: t) :: pieces)) (hc : A.isWord c = true) (hd : A.isWord d = true) :
    A.Spaced (([], c :: d :: t) :: pieces) := by
  have hword : ∀ e ∈ d :: t, A.isWord e = true := by
    rcases h.isToken _ List.mem_cons_self with ⟨-, hword⟩ | ⟨e, he, hnot, -⟩
    · exact hword
    · cases he
      rw [hd] at hnot
      cases hnot
  refine h.of_cons.cons_token (.inl ⟨List.cons_ne_nil _ _, ?_⟩) ?_
  · exact List.forall_mem_cons.2 ⟨hc, hword⟩
  · intro piece hpiece hspace e he
    rw [List.getLast?_cons_cons] at he
    exact (List.isChain_cons.1 h.separate).1 piece hpiece hspace e he

/-- **Every text is cut into pieces.** -/
theorem exists_pieces (A : Alphabet α) (text : List α) :
    ∃ pieces tail, A.Spaced pieces ∧ (∀ c ∈ tail, A.isSpace c = true) ∧
      text = flat pieces ++ tail := by
  induction text with
  | nil =>
    refine ⟨[], [], ⟨?_, ?_, List.isChain_nil⟩, ?_, rfl⟩
    all_goals exact fun _ h => absurd h List.not_mem_nil
  | cons c text ih =>
    obtain ⟨pieces, tail, h, htail, rfl⟩ := ih
    by_cases hspace : A.isSpace c = true
    · cases pieces with
      | nil => exact ⟨[], c :: tail, h, List.forall_mem_cons.2 ⟨hspace, htail⟩, rfl⟩
      | cons piece pieces =>
        exact ⟨(c :: piece.1, piece.2) :: pieces, tail, h.cons_space hspace, htail, rfl⟩
    have hspace : A.isSpace c = false := Bool.not_eq_true _ ▸ hspace
    by_cases hword : A.isWord c = true
    · -- The character begins a word, or comes before one.
      have hsingle : A.IsToken [c] :=
        .inl ⟨List.cons_ne_nil _ _, List.forall_mem_singleton.2 hword⟩
      cases pieces with
      | nil => exact ⟨[([], [c])], tail, h.cons_token hsingle nofun, htail, rfl⟩
      | cons piece pieces =>
        obtain ⟨sp, t⟩ := piece
        obtain ⟨d, t, rfl⟩ :=
          List.exists_cons_of_ne_nil (h.isToken (sp, t) List.mem_cons_self).ne_nil
        by_cases hmerge : sp = [] ∧ A.isWord d = true
        · obtain ⟨rfl, hd⟩ := hmerge
          exact ⟨([], c :: d :: t) :: pieces, tail, h.cons_word hword hd, htail, rfl⟩
        · refine ⟨([], [c]) :: (sp, d :: t) :: pieces, tail, h.cons_token hsingle ?_, htail, rfl⟩
          intro piece hpiece hnil e he f hf hboth
          cases hpiece
          cases hf
          exact hmerge ⟨hnil, hboth.2⟩
    · have hword : A.isWord c = false := Bool.not_eq_true _ ▸ hword
      refine ⟨([], [c]) :: pieces, tail, h.cons_token (.inr ⟨c, rfl, hword, hspace⟩) ?_, htail,
        rfl⟩
      intro piece _ _
      refine separate_of_getLast_not_isWord fun e he => ?_
      cases he
      exact hword

theorem getLast?_flat {pieces : List (Piece α)} {piece : Piece α} (h : A.Spaced pieces)
    (hlast : piece ∈ pieces.getLast?) : (flat pieces).getLast? = piece.2.getLast? := by
  obtain ⟨before, rfl⟩ := List.getLast?_eq_some_iff.1 hlast
  have hne := (h.isToken piece (List.mem_append_right _ List.mem_cons_self)).ne_nil
  rw [flat_append, flat_cons, flat_nil, List.append_nil, ← List.append_assoc,
    List.getLast?_append_of_ne_nil _ hne]

/-- **A text may be cut where no word is cut.** -/
theorem tokens_append {u v : List α} (h : A.Separate u v) :
    A.tokens (u ++ v) = A.tokens u ++ A.tokens v := by
  obtain ⟨pieces, tail, hu, htail, rfl⟩ := A.exists_pieces u
  obtain ⟨pieces', tail', hv, htail', rfl⟩ := A.exists_pieces v
  rw [tokens_flat hu htail, tokens_flat hv htail']
  cases pieces' with
  | nil =>
    rw [flat_nil, List.nil_append, List.append_assoc, List.map_nil, List.append_nil]
    exact tokens_flat hu fun c hc => (List.mem_append.1 hc).elim (htail c) (htail' c)
  | cons piece pieces' =>
    obtain ⟨sp, t⟩ := piece
    have hspaced : A.Spaced (pieces ++ (tail ++ sp, t) :: pieces') := by
      constructor
      case isSpace =>
        intro other hother
        rcases List.mem_append.1 hother with hother | hother
        · exact hu.isSpace other hother
        rcases List.mem_cons.1 hother with rfl | hother
        · intro c hc
          exact (List.mem_append.1 hc).elim (htail c) (hv.isSpace (sp, t) List.mem_cons_self c)
        · exact hv.of_cons.isSpace other hother
      case isToken =>
        intro other hother
        rcases List.mem_append.1 hother with hother | hother
        · exact hu.isToken other hother
        rcases List.mem_cons.1 hother with rfl | hother
        · exact hv.isToken (sp, t) List.mem_cons_self
        · exact hv.of_cons.isToken other hother
      case separate =>
        obtain ⟨hhead, hrest⟩ := List.isChain_cons.1 hv.separate
        refine List.isChain_append.2 ⟨hu.separate, List.isChain_cons.2 ⟨hhead, hrest⟩, ?_⟩
        intro last hlast first hfirst hnil c hc d hd
        cases hfirst
        obtain ⟨rfl, rfl⟩ := List.append_eq_nil_iff.1 hnil
        refine h c ?_ d ?_
        · rw [List.append_nil, getLast?_flat hu hlast]
          exact hc
        · rw [flat_cons, List.nil_append, List.append_assoc]
          exact List.mem_head?_append_of_mem_head? hd
    have htext : flat pieces ++ tail ++ (flat ((sp, t) :: pieces') ++ tail') =
        flat (pieces ++ (tail ++ sp, t) :: pieces') ++ tail' := by
      simp only [flat_append, flat_cons, List.append_assoc]
    rw [htext, tokens_flat hspaced htail', List.map_append, List.map_cons, List.map_cons]

/-! ## Spaces around a text -/

theorem tokens_of_isSpace {sp : List α} (h : ∀ c ∈ sp, A.isSpace c = true) : A.tokens sp = [] := by
  have hnil : A.Spaced [] := by
    refine ⟨?_, ?_, List.isChain_nil⟩
    all_goals exact fun _ h => absurd h List.not_mem_nil
  have htokens := tokens_flat hnil h
  rwa [flat_nil, List.nil_append, List.map_nil] at htokens

theorem tokens_spaces_append {sp : List α} (h : ∀ c ∈ sp, A.isSpace c = true) (text : List α) :
    A.tokens (sp ++ text) = A.tokens text := by
  have hseparate : A.Separate sp text := by
    refine separate_of_getLast_not_isWord fun c hc => ?_
    exact isWord_eq_false_of_isSpace (h c (List.mem_of_mem_getLast? hc))
  rw [tokens_append hseparate, tokens_of_isSpace h, List.nil_append]

theorem tokens_append_spaces {sp : List α} (h : ∀ c ∈ sp, A.isSpace c = true) (text : List α) :
    A.tokens (text ++ sp) = A.tokens text := by
  have hseparate : A.Separate text sp :=
    separate_of_head_isSpace fun c hc => h c (List.mem_of_mem_head? hc)
  rw [tokens_append hseparate, tokens_of_isSpace h, List.append_nil]

/-- Two texts with spaces between them. -/
theorem tokens_append_spaces_append {sp : List α} (h : ∀ c ∈ sp, A.isSpace c = true)
    (hne : sp ≠ []) (u v : List α) : A.tokens (u ++ sp ++ v) = A.tokens u ++ A.tokens v := by
  have hseparate : A.Separate (u ++ sp) v := by
    refine separate_of_getLast_not_isWord fun c hc => ?_
    rw [List.getLast?_append_of_ne_nil _ hne] at hc
    exact isWord_eq_false_of_isSpace (h c (List.mem_of_mem_getLast? hc))
  rw [tokens_append hseparate, tokens_append_spaces h]

/-- Only spaces are stripped. -/
theorem exists_strip (A : Alphabet α) (text : List α) :
    ∃ sp sp', (∀ c ∈ sp, A.isSpace c = true) ∧ (∀ c ∈ sp', A.isSpace c = true) ∧
      text = sp ++ A.strip text ++ sp' := by
  have htake : ∀ l : List α, ∀ c ∈ l.takeWhile A.isSpace, A.isSpace c = true :=
    fun l c hc => List.mem_takeWhile_imp hc
  refine ⟨text.takeWhile A.isSpace,
    ((text.dropWhile A.isSpace).reverse.takeWhile A.isSpace).reverse, htake text, ?_, ?_⟩
  · intro c hc
    exact htake _ c (List.mem_reverse.1 hc)
  · rw [strip, List.append_assoc, ← List.reverse_append, List.takeWhile_append_dropWhile,
      List.reverse_reverse, List.takeWhile_append_dropWhile]

/-- **Stripping keeps the tokens.** -/
theorem tokens_strip (A : Alphabet α) (text : List α) :
    A.tokens (A.strip text) = A.tokens text := by
  obtain ⟨sp, sp', hsp, hsp', htext⟩ := A.exists_strip text
  conv_rhs => rw [htext]
  rw [tokens_append_spaces hsp', tokens_spaces_append hsp]

theorem tokens_of_strip_eq_nil {text : List α} (h : A.strip text = []) : A.tokens text = [] := by
  rw [← A.tokens_strip, h]
  rfl

/-- **Texts joined by spaces have the tokens of the parts.** -/
theorem tokens_intercalate {sp : List α} (h : ∀ c ∈ sp, A.isSpace c = true) (hne : sp ≠ [])
    (texts : List (List α)) : A.tokens (sp.intercalate texts) = texts.flatMap A.tokens := by
  induction texts with
  | nil => rfl
  | cons text texts ih =>
    cases texts with
    | nil =>
      rw [List.intercalate_singleton, List.flatMap_singleton]
    | cons next texts =>
      rw [List.intercalate_cons_cons, tokens_append_spaces_append h hne, ih]
      rfl

/-! ## From one token to another -/

/-- Where the token with number `i` begins. -/
theorem getD_offsets_fst {pieces : List (Piece α)} {i : ℕ} {piece : Piece α}
    (h : pieces[i]? = some piece) (n : ℕ) :
    ((offsets n pieces).getD i (0, 0)).1 = n + (flat (pieces.take i)).length + piece.1.length := by
  induction pieces generalizing n i with
  | nil => cases h
  | cons first pieces ih =>
    cases i with
    | zero =>
      cases h
      rfl
    | succ i =>
      rw [offsets, List.getD_cons_succ, ih h, List.take_succ_cons, flat_cons]
      simp only [List.length_append]
      omega

/-- Where it ends. -/
theorem getD_offsets_snd {pieces : List (Piece α)} {i : ℕ} (h : i < pieces.length) (n : ℕ) :
    ((offsets n pieces).getD i (0, 0)).2 = n + (flat (pieces.take (i + 1))).length := by
  induction pieces generalizing n i with
  | nil => exact absurd h (Nat.not_lt_zero i)
  | cons first pieces ih =>
    cases i with
    | zero =>
      rw [offsets, List.getD_cons_zero, List.take_succ_cons, List.take_zero, flat_cons, flat_nil]
      simp only [List.length_append, List.length_nil]
      omega
    | succ i =>
      rw [offsets, List.getD_cons_succ, ih (Nat.lt_of_succ_lt_succ h), List.take_succ_cons,
        flat_cons]
      simp only [List.length_append]
      omega

theorem Spaced.drop {pieces : List (Piece α)} (h : A.Spaced pieces) (i : ℕ) :
    A.Spaced (pieces.drop i) where
  isSpace := fun piece hpiece => h.isSpace piece (List.mem_of_mem_drop hpiece)
  isToken := fun piece hpiece => h.isToken piece (List.mem_of_mem_drop hpiece)
  separate := h.separate.drop i

theorem Spaced.take {pieces : List (Piece α)} (h : A.Spaced pieces) (i : ℕ) :
    A.Spaced (pieces.take i) where
  isSpace := fun piece hpiece => h.isSpace piece (List.mem_of_mem_take hpiece)
  isToken := fun piece hpiece => h.isToken piece (List.mem_of_mem_take hpiece)
  separate := h.separate.take i

theorem length_spans (A : Alphabet α) (text : List α) :
    (A.spans text).length = (A.tokens text).length := by
  rw [tokens, List.length_map]

/-- Stripping keeps a text that neither begins nor ends with a space. -/
theorem strip_eq_self {text : List α} (hhead : ∀ c ∈ text.head?, A.isSpace c = false)
    (hlast : ∀ c ∈ text.getLast?, A.isSpace c = false) : A.strip text = text := by
  have hdrop : ∀ l : List α, (∀ c ∈ l.head?, A.isSpace c = false) →
      l.dropWhile A.isSpace = l := by
    intro l hl
    cases l with
    | nil => rfl
    | cons c l =>
      have hc : A.isSpace c = false := hl c rfl
      rw [List.dropWhile_cons_of_neg (by rw [hc]; exact Bool.false_ne_true)]
  have hreverse : ∀ c ∈ text.reverse.head?, A.isSpace c = false := by
    rw [List.head?_reverse]
    exact hlast
  rw [strip, hdrop text hhead, hdrop text.reverse hreverse, List.reverse_reverse]

theorem isSpace_head_dropWhile (A : Alphabet α) (text : List α) :
    ∀ c ∈ (text.dropWhile A.isSpace).head?, A.isSpace c = false := by
  intro c hc
  have hdrop := List.head?_dropWhile_not A.isSpace text
  rw [hc] at hdrop
  exact hdrop

/-- A stripped text begins with no space. -/
theorem isSpace_head_strip (A : Alphabet α) (text : List α) :
    ∀ c ∈ (A.strip text).head?, A.isSpace c = false := by
  intro c hc
  rw [strip, List.head?_reverse] at hc
  have hsuffix := List.dropWhile_suffix A.isSpace (l := (text.dropWhile A.isSpace).reverse)
  have hend := (List.singleton_suffix_iff_getLast?_eq_some.2 hc).trans hsuffix
  refine A.isSpace_head_dropWhile text c ?_
  rw [← List.getLast?_reverse]
  exact List.singleton_suffix_iff_getLast?_eq_some.1 hend

/-- And it ends with none. -/
theorem isSpace_getLast_strip (A : Alphabet α) (text : List α) :
    ∀ c ∈ (A.strip text).getLast?, A.isSpace c = false := by
  intro c hc
  rw [strip, List.getLast?_reverse] at hc
  exact A.isSpace_head_dropWhile _ c hc

/-- What is stripped once stays as it is. -/
theorem strip_strip (A : Alphabet α) (text : List α) : A.strip (A.strip text) = A.strip text :=
  strip_eq_self (A.isSpace_head_strip text) (A.isSpace_getLast_strip text)

/-- Only spaces leave nothing. -/
theorem isSpace_of_strip_eq_nil {text : List α} (h : A.strip text = []) :
    ∀ c ∈ text, A.isSpace c = true := by
  obtain ⟨sp, sp', hsp, hsp', htext⟩ := A.exists_strip text
  rw [h, List.append_nil] at htext
  intro c hc
  rw [htext] at hc
  exact (List.mem_append.1 hc).elim (hsp c) (hsp' c)

/-- What stands between the beginning of one token and the end of another one. -/
structure IsStretch (A : Alphabet α) (stretch : List (List α)) (content : List α) : Prop where
  tokens_eq : A.tokens content = stretch
  strip_eq : A.strip content = content
  ne_nil : content ≠ []

/-- **The text from one token to another has these tokens and those in between**, and nothing is
stripped from it. -/
theorem tokens_slice (A : Alphabet α) (text : List α) {i j : ℕ} (hij : i < j)
    (hj : j ≤ (A.tokens text).length) :
    let content := slice text ((A.spans text).getD i (0, 0)).1
      ((A.spans text).getD (j - 1) (0, 0)).2
    IsStretch A (((A.tokens text).drop i).take (j - i)) content := by
  obtain ⟨pieces, tail, h, htail, rfl⟩ := A.exists_pieces text
  rw [tokens_flat h htail, List.length_map] at hj
  rw [tokens_flat h htail, spans_flat h htail]
  have hi : i < pieces.length := by omega
  obtain ⟨piece, hpiece⟩ : ∃ piece, pieces[i]? = some piece := ⟨_, List.getElem?_eq_getElem hi⟩
  -- The pieces are cut at `i` and at `j`.
  obtain ⟨middle, hmiddle⟩ : ∃ middle, (pieces.drop i).take (j - i) = piece :: middle := by
    obtain ⟨d, hd⟩ : ∃ d, j - i = d + 1 := ⟨j - i - 1, by omega⟩
    refine ⟨(pieces.drop (i + 1)).take d, ?_⟩
    rw [hd, List.drop_eq_getElem_cons hi, List.take_succ_cons]
    rw [List.getElem?_eq_getElem hi, Option.some.injEq] at hpiece
    rw [hpiece]
  have htake : pieces.take j = pieces.take i ++ piece :: middle := by
    rw [← hmiddle, ← List.take_add]
    congr 1
    omega
  have hstart := getD_offsets_fst hpiece 0
  have hstop : ((offsets 0 pieces).getD (j - 1) (0, 0)).2 =
      0 + (flat (pieces.take j)).length := by
    have hj' : j - 1 + 1 = j := by omega
    rw [getD_offsets_snd (by omega), hj']
  have htext : flat pieces ++ tail = (flat (pieces.take i) ++ piece.1) ++
      (piece.2 ++ flat middle) ++ (flat (pieces.drop j) ++ tail) := by
    conv_lhs => rw [← List.take_append_drop j pieces, htake]
    simp only [flat_append, flat_cons, List.append_assoc]
  have hlength : (flat (pieces.take j)).length =
      (flat (pieces.take i) ++ piece.1).length + (piece.2 ++ flat middle).length := by
    rw [htake]
    simp only [flat_append, flat_cons, List.length_append]
    omega
  have hcontent : slice (flat pieces ++ tail) ((offsets 0 pieces).getD i (0, 0)).1
      ((offsets 0 pieces).getD (j - 1) (0, 0)).2 = piece.2 ++ flat middle := by
    rw [hstart, hstop, Nat.zero_add, Nat.zero_add, hlength, htext, ← List.length_append]
    exact slice_append _ _ _
  have hspaced : A.Spaced (piece :: middle) := hmiddle ▸ (h.drop i).take (j - i)
  have hstripped : A.Spaced (([], piece.2) :: middle) :=
    hspaced.of_cons.cons_token (hspaced.isToken piece List.mem_cons_self)
      (List.isChain_cons.1 hspaced.separate).1
  have hflat : piece.2 ++ flat middle = flat (([], piece.2) :: middle) ++ [] := by
    rw [flat_cons, List.nil_append, List.append_nil]
  have htoken := hspaced.isToken piece List.mem_cons_self
  intro content
  have hcontent : content = piece.2 ++ flat middle := hcontent
  rw [hcontent]
  constructor
  case tokens_eq =>
    rw [hflat, tokens_flat hstripped (fun _ hc => absurd hc List.not_mem_nil), ← List.map_drop,
      ← List.map_take, hmiddle]
    rfl
  case strip_eq =>
    refine strip_eq_self ?_ ?_
    · intro c hc
      rw [List.head?_append_of_ne_nil _ htoken.ne_nil] at hc
      exact htoken.isSpace_eq_false c (List.mem_of_mem_head? hc)
    · intro c hc
      have hlast : ∃ last ∈ ((([] : List α), piece.2) :: middle).getLast?,
          c ∈ last.2.getLast? := by
        have hne : ((([] : List α), piece.2) :: middle) ≠ [] := List.cons_ne_nil _ _
        refine ⟨_, List.getLast_mem_getLast? hne, ?_⟩
        rw [← getLast?_flat hstripped (List.getLast_mem_getLast? hne)]
        rwa [hflat, List.append_nil] at hc
      obtain ⟨last, hmem, hc⟩ := hlast
      exact (hstripped.isToken last (List.mem_of_mem_getLast? hmem)).isSpace_eq_false c
        (List.mem_of_mem_getLast? hc)
  case ne_nil =>
    exact List.append_ne_nil_of_left_ne_nil htoken.ne_nil _

end Alphabet
end Text
end RagflowAgent
