import RagflowAgent.Text.Tokens

/-!
# Words

`words isSpace text` is `text.split()`: the longest runs of characters that are not spaces.
-/

namespace RagflowAgent
namespace Text

variable {α : Type}

/-- Every character that is not a space belongs to a word. -/
def wordAlphabet (isSpace : α → Bool) : Alphabet α where
  isWord c := !isSpace c
  isSpace := isSpace
  disjoint c h := by rwa [Bool.not_eq_true'] at h

/-- `text.split()`. -/
def words (isSpace : α → Bool) (text : List α) : List (List α) :=
  (wordAlphabet isSpace).tokens text

variable {isSpace : α → Bool} {text word : List α}

/-- A word is not empty and has no space. -/
theorem of_mem_words (h : word ∈ words isSpace text) :
    word ≠ [] ∧ ∀ c ∈ word, isSpace c = false := by
  obtain ⟨pieces, tail, hspaced, htail, rfl⟩ := (wordAlphabet isSpace).exists_pieces text
  rw [words, Alphabet.tokens_flat hspaced htail] at h
  obtain ⟨piece, hpiece, rfl⟩ := List.mem_map.1 h
  have htoken := hspaced.isToken piece hpiece
  exact ⟨htoken.ne_nil, htoken.isSpace_eq_false⟩

/-- A text with something else than spaces has a word. -/
theorem words_ne_nil {c : α} (hc : c ∈ text) (h : isSpace c = false) : words isSpace text ≠ [] := by
  obtain ⟨pieces, tail, hspaced, htail, rfl⟩ := (wordAlphabet isSpace).exists_pieces text
  rw [words, Alphabet.tokens_flat hspaced htail]
  intro hnil
  rw [List.map_eq_nil_iff] at hnil
  subst hnil
  have hspace : isSpace c = true := htail c (by simpa using hc)
  rw [h] at hspace
  cases hspace

end Text
end RagflowAgent
