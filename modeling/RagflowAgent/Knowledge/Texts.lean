import RagflowAgent.Knowledge.Chunking.Document

/-!
# Texts that are not empty

A `NonEmptyStr` field strips the text that it is given and takes it if something is left.
`NonEmptyStr` are the texts that such a field has taken, and `NonEmptyStr.make` validates one.
`joinSpaced` joins texts with spaces.
-/

namespace RagflowAgent
namespace Knowledge

variable {s t : String}

theorem isWhiteSpace_eq_false {c : Char} (h : Agent.isSpace c = false) :
    isWhiteSpace c = false := by
  by_contra hwhite
  rw [Chunking.isSpace_of_isWhiteSpace (Bool.not_eq_false _ ▸ hwhite)] at h
  cases h

theorem toList_strip (s : String) :
    (strip s).toList = Chunking.whiteSpace.strip s.toList := by
  rw [strip, String.toList_ofList]
  rfl

/-- What passes a `NonEmptyStr` field passes it again as it is. -/
theorem nonEmptyText_of_eq_ok (h : nonEmptyText s = .ok t) : nonEmptyText t = .ok t := by
  rw [nonEmptyText] at h
  split at h
  · cases h
  rename_i hne
  cases h
  have hstrip : strip (strip s) = strip s := by
    refine String.toList_inj.1 ?_
    rw [toList_strip, toList_strip, Text.Alphabet.strip_strip]
  rw [nonEmptyText, hstrip, if_neg hne]

/-- A text passes as it is when it neither begins nor ends with white space. -/
theorem nonEmptyText_eq_self (hne : s.toList ≠ [])
    (hhead : ∀ c ∈ s.toList.head?, isWhiteSpace c = false)
    (hlast : ∀ c ∈ s.toList.getLast?, isWhiteSpace c = false) : nonEmptyText s = .ok s := by
  have hstrip : strip s = s := by
    refine String.toList_inj.1 ?_
    rw [toList_strip]
    exact Text.Alphabet.strip_eq_self hhead hlast
  have hnot : s ≠ "" := by
    rintro rfl
    exact hne rfl
  rw [nonEmptyText, hstrip, if_neg hnot]

/-- What has passed does not end with white space. -/
theorem isWhiteSpace_getLast (h : nonEmptyText s = .ok s) :
    s.toList ≠ [] ∧ ∀ c ∈ s.toList.getLast?, isWhiteSpace c = false := by
  rw [nonEmptyText] at h
  split at h
  · cases h
  rename_i hne
  have hstrip := Except.ok.inj h
  refine ⟨fun hnil => hne ?_, fun c hc => ?_⟩
  · rw [hstrip]
    exact String.toList_inj.1 hnil
  · rw [← hstrip, toList_strip] at hc
    exact Text.Alphabet.isSpace_getLast_strip Chunking.whiteSpace s.toList c hc

/-- A text with a number at its end passes when its beginning is not white space. -/
theorem nonEmptyText_append_number (hne : s.toList ≠ [])
    (hhead : ∀ c ∈ s.toList.head?, isWhiteSpace c = false) (n : ℕ) :
    nonEmptyText (s ++ toString n) = .ok (s ++ toString n) := by
  have hdigits : (toString n).toList ≠ [] := by
    rw [Nat.toString_eq_repr, Nat.toList_repr]
    exact Nat.toDigits_ne_nil
  refine nonEmptyText_eq_self ?_ (fun c hc => hhead c ?_) fun c hc => ?_
  · rw [String.toList_append]
    exact List.append_ne_nil_of_left_ne_nil hne _
  · rwa [String.toList_append, List.head?_append_of_ne_nil _ hne] at hc
  · -- it ends with a digit
    rw [String.toList_append, List.getLast?_append_of_ne_nil _ hdigits] at hc
    have hmem : c ∈ Nat.toDigits 10 n := by
      rw [← Nat.toList_repr, ← Nat.toString_eq_repr]
      exact List.mem_of_mem_getLast? hc
    have hdigit := Nat.isDigit_of_mem_toDigits (by decide) (by decide) hmem
    simp only [Char.isDigit, Bool.and_eq_true, decide_eq_true_eq, ge_iff_le] at hdigit
    have hlow : 48 ≤ c.toNat := hdigit.1
    have hhigh : c.toNat ≤ 57 := hdigit.2
    simp only [isWhiteSpace, Bool.or_eq_false_iff, Bool.and_eq_false_imp, decide_eq_true_eq,
      decide_eq_false_iff_not, beq_eq_false_iff_ne]
    omega

/-- `NonEmptyStr`. -/
structure NonEmptyStr where
  value : String
  valid : nonEmptyText value = .ok value

namespace NonEmptyStr

def make (s : String) : Except Error NonEmptyStr :=
  match h : nonEmptyText s with
  | .ok t => .ok ⟨t, nonEmptyText_of_eq_ok h⟩
  | .error e => .error e

theorem make_eq_ok (h : nonEmptyText s = .ok s) : make s = .ok ⟨s, h⟩ := by
  unfold make
  split
  · rename_i t ht
    have heq : t = s := Except.ok.inj (ht.symm.trans h)
    subst heq
    rfl
  · rename_i e he
    rw [h] at he
    cases he

theorem value_injective : Function.Injective value := by
  rintro ⟨s, hs⟩ ⟨t, ht⟩ rfl
  rfl

instance : DecidableEq NonEmptyStr := fun _ _ => decidable_of_iff _ value_injective.eq_iff

@[simp] theorem make_value (text : NonEmptyStr) : make text.value = .ok text :=
  make_eq_ok text.valid

theorem mapM_make_value (texts : List NonEmptyStr) :
    (texts.map value).mapM make = .ok texts := by
  induction texts with
  | nil => rfl
  | cons text texts ih =>
    rw [List.map_cons, List.mapM_cons, make_value, ih]
    rfl

end NonEmptyStr

/-! ## Joined texts -/

/-- `" ".join(texts)`. -/
def joinSpaced (texts : List (List Char)) : String := String.ofList ([' '].intercalate texts)

theorem mem_joinSpaced {texts : List (List Char)} {text : List Char} {c : Char}
    (htext : text ∈ texts) (hc : c ∈ text) : c ∈ (joinSpaced texts).toList := by
  rw [joinSpaced, String.toList_ofList]
  induction texts with
  | nil => exact absurd htext List.not_mem_nil
  | cons first texts ih =>
    cases texts with
    | nil =>
      rw [List.mem_singleton.1 htext] at hc
      simpa using hc
    | cons second texts =>
      rw [List.intercalate_cons_cons]
      rcases List.mem_cons.1 htext with rfl | htext
      · simp [hc]
      · exact List.mem_append_right _ (ih htext)

/-- Words joined make a text that neither begins nor ends with a space. -/
theorem joinSpaced_words {words : List (List Char)} (hne : words ≠ [])
    (h : ∀ word ∈ words, word ≠ [] ∧ ∀ c ∈ word, Agent.isSpace c = false) :
    (joinSpaced words).toList ≠ [] ∧
      (∀ c ∈ (joinSpaced words).toList.head?, Agent.isSpace c = false) ∧
      ∀ c ∈ (joinSpaced words).toList.getLast?, Agent.isSpace c = false := by
  rw [joinSpaced, String.toList_ofList]
  induction words with
  | nil => exact absurd rfl hne
  | cons first words ih =>
    obtain ⟨hfirst, hspaces⟩ := h first List.mem_cons_self
    obtain ⟨a, l, rfl⟩ := List.exists_cons_of_ne_nil hfirst
    cases words with
    | nil =>
      rw [List.intercalate_singleton]
      refine ⟨hfirst, fun c hc => hspaces c ?_, fun c hc => hspaces c ?_⟩
      · exact List.mem_of_mem_head? hc
      · exact List.mem_of_mem_getLast? hc
    | cons second words =>
      obtain ⟨hrest, -, hlast⟩ :=
        ih (List.cons_ne_nil _ _) fun word hword => h word (List.mem_cons_of_mem _ hword)
      rw [List.intercalate_cons_cons]
      refine ⟨by simp, fun c hc => hspaces c ?_, fun c hc => hlast c ?_⟩
      · have hca : a = c := by simpa using hc
        rw [← hca]
        exact List.mem_cons_self
      · rwa [List.getLast?_append_of_ne_nil _ hrest] at hc

end Knowledge
end RagflowAgent
