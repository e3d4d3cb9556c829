import RagflowAgent.Text.Substitution
import RagflowAgent.Text.Words

/-!
# Runs of spaces

To replace every run of spaces in a text by one space, and to strip the text, is to split it into
words and to join these.

* `subFrom_flat`: what becomes of a text that is given by its pieces;
* `strip_subFrom_spaces`: the words joined.
-/

namespace RagflowAgent
namespace Text

open Pattern

variable {isSpace : Char → Bool} {space : Char}

/-- `re.sub(r"\s+", space, text)`, from a place on. -/
abbrev collapseFrom (isSpace : Char → Bool) (space : Char) :
    ℕ → Option Char → List Char → List Char :=
  subFrom (many isSpace 1 none) empty fun _ => [space]

theorem collapseFrom_skip (sp rest : List Char) (before : Option Char) :
    collapseFrom isSpace space sp.length before (sp ++ rest) =
      collapseFrom isSpace space 0 (behind before sp) rest := by
  induction sp generalizing before with
  | nil => rfl
  | cons c sp ih => exact ih (some c)

/-- A run of spaces becomes one. -/
theorem collapseFrom_spaces (space : Char) {sp rest : List Char} (hne : sp ≠ [])
    (h : ∀ c ∈ sp, isSpace c = true) (hrest : ∀ c ∈ rest.head?, isSpace c = false)
    (before : Option Char) :
    collapseFrom isSpace space 0 before (sp ++ rest) =
      space :: collapseFrom isSpace space 0 (behind before sp) rest := by
  have hmany := head?_ends_many h (List.length_pos_of_ne_nil hne) hrest before
  have hmatch : firstMatch (many isSpace 1 none) empty ⟨before, sp ++ rest⟩ =
      some (⟨behind before sp, rest⟩, ⟨behind before sp, rest⟩) := head?_firstMatch hmany rfl
  obtain ⟨c, sp, rfl⟩ := List.exists_cons_of_ne_nil hne
  rw [List.cons_append] at hmatch
  have hskip : (c :: (sp ++ rest)).length - rest.length - 1 = sp.length := by
    rw [List.length_cons, List.length_append]
    omega
  rw [List.cons_append, collapseFrom, subFrom, hmatch]
  dsimp only
  rw [hskip]
  exact congrArg (space :: ·) (collapseFrom_skip sp rest (some c))

/-- Other characters stay. -/
theorem collapseFrom_word {word : List Char} (h : ∀ c ∈ word, isSpace c = false) (rest : List Char)
    (before : Option Char) :
    collapseFrom isSpace space 0 before (word ++ rest) =
      word ++ collapseFrom isSpace space 0 (behind before word) rest := by
  induction word generalizing before with
  | nil => rfl
  | cons c word ih =>
    obtain ⟨hc, hword⟩ := List.forall_mem_cons.1 h
    have hmatch : firstMatch (many isSpace 1 none) empty ⟨before, c :: (word ++ rest)⟩ = none := by
      refine firstMatch_eq_none_iff.2 fun middle hmiddle => ?_
      obtain ⟨w, hw, hlength, hspaces⟩ := exists_of_mem_ends_many hmiddle
      obtain ⟨d, w, rfl⟩ := List.exists_cons_of_length_pos hlength
      obtain rfl : c = d := (List.cons.inj hw).1
      rw [hspaces c List.mem_cons_self] at hc
      cases hc
    rw [List.cons_append, collapseFrom, subFrom, hmatch]
    exact congrArg (c :: ·) (ih hword (some c))

/-- A run of spaces, collapsed. -/
def collapsed (space : Char) (sp : List Char) : List Char := if sp = [] then [] else [space]

theorem isSpace_of_mem_collapsed (hspace : isSpace space = true) {sp : List Char} :
    ∀ c ∈ collapsed space sp, isSpace c = true := by
  intro c hc
  rw [collapsed] at hc
  split at hc
  · exact absurd hc List.not_mem_nil
  · rwa [List.mem_singleton.1 hc]

theorem collapseFrom_flat {pieces : List (Alphabet.Piece Char)} {tail : List Char}
    (h : (wordAlphabet isSpace).Spaced pieces) (htail : ∀ c ∈ tail, isSpace c = true)
    (before : Option Char) :
    collapseFrom isSpace space 0 before (Alphabet.flat pieces ++ tail) =
      (pieces.flatMap fun piece => collapsed space piece.1 ++ piece.2) ++ collapsed space tail := by
  induction pieces generalizing before with
  | nil =>
    by_cases hnil : tail = []
    · subst hnil
      rfl
    · have hend : ∀ c ∈ ([] : List Char).head?, isSpace c = false := nofun
      have hrun := collapseFrom_spaces space hnil htail hend before
      rw [List.append_nil] at hrun
      rw [collapsed, if_neg hnil]
      exact hrun
  | cons piece pieces ih =>
    obtain ⟨sp, word⟩ := piece
    have htoken := h.isToken (sp, word) List.mem_cons_self
    have hword : ∀ c ∈ word, isSpace c = false := htoken.isSpace_eq_false
    have hhead : ∀ c ∈ (word ++ (Alphabet.flat pieces ++ tail)).head?, isSpace c = false := by
      rw [List.head?_append_of_ne_nil _ htoken.ne_nil]
      exact fun c hc => hword c (List.mem_of_mem_head? hc)
    have hspaces : ∀ c ∈ sp, isSpace c = true := h.isSpace (sp, word) List.mem_cons_self
    rw [Alphabet.flat_cons, List.flatMap_cons, List.append_assoc, List.append_assoc]
    dsimp only
    by_cases hnil : sp = []
    · subst hnil
      rw [List.nil_append, collapseFrom_word hword, ih h.of_cons]
      simp [collapsed]
    · rw [collapseFrom_spaces space hnil hspaces hhead, collapseFrom_word hword, ih h.of_cons]
      simp [collapsed, hnil]

/-- Behind the first word there is a space before every word. -/
theorem flatMap_collapsed {piece : Alphabet.Piece Char} {pieces : List (Alphabet.Piece Char)}
    (h : (wordAlphabet isSpace).Spaced (piece :: pieces)) :
    piece.2 ++ (pieces.flatMap fun piece => collapsed space piece.1 ++ piece.2) =
      [space].intercalate ((piece :: pieces).map Prod.snd) := by
  induction pieces generalizing piece with
  | nil => simp
  | cons next pieces ih =>
    obtain ⟨hseparate, -⟩ := List.isChain_cons_cons.1 h.separate
    have hne : next.1 ≠ [] := by
      intro hnil
      -- two words do not run together
      have hword := h.isToken piece List.mem_cons_self
      have hnext := h.isToken next (by simp)
      have hlast := List.getLast?_eq_some_getLast hword.ne_nil
      have hfirst := List.head?_eq_some_head hnext.ne_nil
      refine hseparate hnil _ hlast _ hfirst ⟨?_, ?_⟩
      · exact congrArg (!·) (hword.isSpace_eq_false _ (List.getLast_mem _))
      · exact congrArg (!·) (hnext.isSpace_eq_false _ (List.head_mem _))
    rw [List.flatMap_cons, collapsed, if_neg hne, List.append_assoc, ih h.of_cons, List.map_cons,
      List.map_cons, List.map_cons, List.intercalate_cons_cons, List.append_assoc]

/-- Joined texts begin as the first of them and end as the last. -/
theorem isSpace_ends_intercalate (space : Char) {texts : List (List Char)} (hne : texts ≠ [])
    (h : ∀ text ∈ texts, text ≠ [] ∧ (∀ c ∈ text.head?, isSpace c = false) ∧
      ∀ c ∈ text.getLast?, isSpace c = false) :
    [space].intercalate texts ≠ [] ∧
      (∀ c ∈ ([space].intercalate texts).head?, isSpace c = false) ∧
      ∀ c ∈ ([space].intercalate texts).getLast?, isSpace c = false := by
  induction texts with
  | nil => exact absurd rfl hne
  | cons first texts ih =>
    obtain ⟨hfirst, hhead, hlast⟩ := h first List.mem_cons_self
    cases texts with
    | nil =>
      rw [List.intercalate_singleton]
      exact ⟨hfirst, hhead, hlast⟩
    | cons second texts =>
      obtain ⟨hrest, -, hend⟩ :=
        ih (List.cons_ne_nil _ _) fun text htext => h text (List.mem_cons_of_mem _ htext)
      rw [List.intercalate_cons_cons, List.append_assoc]
      refine ⟨List.append_ne_nil_of_left_ne_nil hfirst _, ?_, ?_⟩
      · rwa [List.head?_append_of_ne_nil _ hfirst]
      · rwa [List.getLast?_append_of_ne_nil _ (List.append_ne_nil_of_right_ne_nil _ hrest),
          List.getLast?_append_of_ne_nil _ hrest]

/-- The spaces around a text do not matter. -/
theorem strip_append_append {A : Alphabet Char} {sp text sp' : List Char}
    (hsp : ∀ c ∈ sp, A.isSpace c = true) (hsp' : ∀ c ∈ sp', A.isSpace c = true)
    (hhead : ∀ c ∈ text.head?, A.isSpace c = false)
    (hlast : ∀ c ∈ text.getLast?, A.isSpace c = false) (hne : text ≠ []) :
    A.strip (sp ++ text ++ sp') = text := by
  have hdrop : ∀ {sp text : List Char} (rest : List Char), (∀ c ∈ sp, A.isSpace c = true) →
      text ≠ [] → (∀ c ∈ text.head?, A.isSpace c = false) →
      (sp ++ text ++ rest).dropWhile A.isSpace = text ++ rest := by
    intro sp text rest hsp hne hhead
    obtain ⟨c, text, rfl⟩ := List.exists_cons_of_ne_nil hne
    rw [List.append_assoc, List.dropWhile_append_of_pos hsp, List.cons_append,
      List.dropWhile_cons_of_neg (by simp [hhead c rfl])]
  have hfirst := hdrop sp' hsp hne hhead
  have hback : ∀ c ∈ sp'.reverse, A.isSpace c = true := fun c hc => hsp' c (List.mem_reverse.1 hc)
  have hreverse : ∀ c ∈ text.reverse.head?, A.isSpace c = false := by
    rw [List.head?_reverse]
    exact hlast
  have hsecond := hdrop [] hback (List.reverse_ne_nil_iff.2 hne) hreverse
  rw [List.append_nil, List.append_nil] at hsecond
  rw [Alphabet.strip, hfirst, List.reverse_append, hsecond, List.reverse_reverse]

/-- **Collapsed and stripped**, a text is its words with single spaces between them. -/
theorem strip_collapseFrom (hspace : isSpace space = true) (text : List Char) :
    (wordAlphabet isSpace).strip (collapseFrom isSpace space 0 none text) =
      [space].intercalate (words isSpace text) := by
  obtain ⟨pieces, tail, h, htail, rfl⟩ := (wordAlphabet isSpace).exists_pieces text
  have hwords : words isSpace (Alphabet.flat pieces ++ tail) = pieces.map Prod.snd :=
    Alphabet.tokens_flat h htail
  rw [collapseFrom_flat h htail, hwords]
  cases pieces with
  | nil =>
    by_cases hnil : tail = []
    · subst hnil
      rfl
    · rw [collapsed, if_neg hnil]
      simp [Alphabet.strip, wordAlphabet, hspace]
  | cons piece pieces =>
    have hword : ∀ word ∈ (piece :: pieces).map Prod.snd, word ≠ [] ∧
        (∀ c ∈ word.head?, isSpace c = false) ∧ ∀ c ∈ word.getLast?, isSpace c = false := by
      rw [← hwords]
      intro word hmem
      obtain ⟨hne, hspace⟩ := of_mem_words hmem
      exact ⟨hne, fun c hc => hspace c (List.mem_of_mem_head? hc),
        fun c hc => hspace c (List.mem_of_mem_getLast? hc)⟩
    obtain ⟨hne, hhead, hlast⟩ :=
      isSpace_ends_intercalate space (List.cons_ne_nil _ _) hword
    rw [List.flatMap_cons, List.append_assoc (collapsed space piece.1), flatMap_collapsed h]
    exact strip_append_append (isSpace_of_mem_collapsed hspace) (isSpace_of_mem_collapsed hspace)
      hhead hlast hne

end Text
end RagflowAgent
