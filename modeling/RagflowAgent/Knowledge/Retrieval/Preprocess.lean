import RagflowAgent.Fallible
import RagflowAgent.Knowledge.Texts
import RagflowAgent.Text.Collapse

/-!
# Queries before they are searched

`QueryPreprocessor.process` brings a query into its canonical form and takes keywords from it.

* `strip_sub_spaces`: to replace runs of white space by a space, and to strip, is to split the text
  into words and to join these with single spaces;
* `process_spec`: what comes out, and when an error does.
-/

namespace RagflowAgent
namespace Knowledge

open Text Text.Pattern

/-! ## The query -/

/-- What the standard library knows of characters. -/
structure CharacterData where
  /-- `unicodedata.normalize("NFKC", text)`. -/
  nfkc : List Char → List Char
  /-- The general category is `Cc` or `Cf`. -/
  isControl : Char → Bool
  /-- `text.casefold()`. -/
  casefold : List Char → List Char
  /-- In ASCII it is the lower case, and ideographs have no case. -/
  casefold_plain : ∀ text, (∀ c ∈ text, c.toNat < 128 ∨ 0x3400 ≤ c.toNat ∧ c.toNat ≤ 0x9FFF) →
    casefold text = text.map Char.toLower

/-- `[\u3400-\u9fff]`. -/
def isIdeograph (c : Char) : Bool := 0x3400 ≤ c.toNat && c.toNat ≤ 0x9FFF

/-- What the pattern allows behind the first letter or digit of a keyword. -/
def isTokenChar (c : Char) : Bool := c.isAlphanum || c ∈ ['_', '.', ':', '/', '-']

/-- `_TOKENS`. -/
def tokenPattern : Pattern :=
  .alt (.seq (.one Char.isAlphanum) (.many isTokenChar 0 none)) (.many isIdeograph 2 none)

/-- Normalized query without authorization or backend state. -/
structure PreprocessedQuery where
  canonicalText : NonEmptyStr
  language : String
  lexicalKeywords : List NonEmptyStr
  lexicalKeywords_le : lexicalKeywords.length ≤ 16
  transformVersion : String := "query-normalize-v1"

structure QueryPreprocessor where
  characters : CharacterData
  maxCharacters : ℕ

theorem NonEmptyStr.exists_mapM_make {texts : List String}
    (h : ∀ text ∈ texts, nonEmptyText text = .ok text) :
    ∃ values, texts.mapM make = .ok values ∧ values.map value = texts := by
  induction texts with
  | nil => exact ⟨[], rfl, rfl⟩
  | cons text texts ih =>
    obtain ⟨htext, hrest⟩ := List.forall_mem_cons.1 h
    obtain ⟨values, hvalues, hmap⟩ := ih hrest
    refine ⟨⟨text, htext⟩ :: values, ?_, ?_⟩
    · rw [List.mapM_cons, make_eq_ok htext, hvalues]
      rfl
    · rw [List.map_cons, hmap]

namespace QueryPreprocessor

variable (preprocessor : QueryPreprocessor)

/-- The text without control characters, but for those that are white space. -/
def withoutControls (text : List Char) : List Char :=
  text.filter fun c => !preprocessor.characters.isControl c || c ∈ ['\t', '\n', '\r']

/-- `_WHITESPACE.sub(" ", text).strip()`. -/
def collapsed (text : List Char) : String :=
  Agent.strip (Pattern.sub Agent.spaces .empty (fun _ => [' ']) (String.ofList text))

def languageOf (text : List Char) : String :=
  let cjkCount := text.countP isIdeograph
  let latinCount := text.countP Char.isAlpha
  if cjkCount > latinCount then "zh" else if latinCount ≠ 0 then "en" else "und"

/-- The first different keywords of a text. -/
def keywordsOf (text : String) : List String :=
  ((tokenPattern.findAll text).map fun token =>
    String.ofList (preprocessor.characters.casefold token)).eraseDups.take 16

def process (text : String) : Except Error PreprocessedQuery := do
  let normalized := collapsed (preprocessor.withoutControls
    (preprocessor.characters.nfkc text.toList))
  if normalized = "" then throw (.other "ValueError" "query is empty after normalization")
  if preprocessor.maxCharacters < normalized.length then
    throw (.other "ValueError" "query exceeds configured character limit")
  let canonicalText ← NonEmptyStr.make normalized
  let keywords ← (preprocessor.keywordsOf normalized).mapM NonEmptyStr.make
  if h : keywords.length ≤ 16 then
    return ⟨canonicalText, languageOf normalized.toList, keywords, h, "query-normalize-v1"⟩
  else throw (.validation "Tuple should have at most 16 items after validation")



/-! ## What comes out -/

/-- The words of a query, without control characters. -/
def canonicalWords (text : String) : List (List Char) :=
  words Agent.isSpace (preprocessor.withoutControls (preprocessor.characters.nfkc text.toList))

/-- **The canonical form** of a text are its words, joined. -/
theorem collapsed_eq_joinSpaced (text : List Char) :
    collapsed text = joinSpaced (words Agent.isSpace text) := by
  have hspace : Agent.isSpace ' ' = true := by decide
  refine String.toList_inj.1 ?_
  rw [collapsed, Agent.strip, Pattern.sub, String.toList_ofList, String.toList_ofList,
    String.toList_ofList, joinSpaced, String.toList_ofList]
  exact strip_collapseFrom hspace text

theorem joinSpaced_eq_empty_iff {texts : List (List Char)} (h : ∀ word ∈ texts, word ≠ []) :
    joinSpaced texts = "" ↔ texts = [] := by
  constructor
  · intro hempty
    cases texts with
    | nil => rfl
    | cons word texts =>
      obtain ⟨c, l, rfl⟩ := List.exists_cons_of_ne_nil (h word List.mem_cons_self)
      have hmem : c ∈ (joinSpaced ((c :: l) :: texts)).toList :=
        mem_joinSpaced List.mem_cons_self List.mem_cons_self
      rw [hempty] at hmem
      exact absurd hmem List.not_mem_nil
  · rintro rfl
    rfl

theorem keywordChar_range {c : Char} (h : isTokenChar c = true ∨ isIdeograph c = true) :
    45 ≤ c.toNat ∧ c.toNat ≤ 122 ∨ 0x3400 ≤ c.toNat ∧ c.toNat ≤ 0x9FFF := by
  rcases h with h | h
  · left
    unfold isTokenChar Char.isAlphanum Char.isAlpha Char.isUpper Char.isLower Char.isDigit at h
    simp only [Bool.or_eq_true, Bool.and_eq_true, decide_eq_true_eq, ge_iff_le, List.mem_cons,
      List.not_mem_nil, or_false] at h
    rcases h with ((hupper | hlower) | hdigit) | rfl | rfl | rfl | rfl | rfl
    · exact ⟨le_trans (by decide) hupper.1, le_trans hupper.2 (by decide)⟩
    · exact ⟨le_trans (by decide) hlower.1, le_trans hlower.2 (by decide)⟩
    · exact ⟨le_trans (by decide) hdigit.1, le_trans hdigit.2 (by decide)⟩
    all_goals decide
  · right
    simpa only [isIdeograph, Bool.and_eq_true, decide_eq_true_eq] using h

theorem toNat_toLower (c : Char) :
    c.toLower.toNat = c.toNat ∨
      65 ≤ c.toNat ∧ c.toNat ≤ 90 ∧ c.toLower.toNat = c.toNat + 32 := by
  unfold Char.toLower
  split
  · rename_i h
    have hlow : 65 ≤ c.toNat := h.1
    have hhigh : c.val.toNat ≤ 90 := h.2
    refine .inr ⟨hlow, hhigh, ?_⟩
    change (c.val + 32).toNat = c.val.toNat + 32
    have hvalue : (32 : UInt32).toNat = 32 := rfl
    rw [UInt32.toNat_add]
    omega
  · exact .inl rfl

theorem isWhiteSpace_toLower {c : Char} (h : isTokenChar c = true ∨ isIdeograph c = true) :
    isWhiteSpace c.toLower = false := by
  have hrange := keywordChar_range h
  have hlower := toNat_toLower c
  simp only [isWhiteSpace, Bool.or_eq_false_iff, Bool.and_eq_false_imp, decide_eq_true_eq,
    decide_eq_false_iff_not, beq_eq_false_iff_ne]
  omega

/-- What the pattern matches is not empty. -/
theorem of_language_tokenPattern {found : List Char} (h : tokenPattern.Language found) :
    found ≠ [] ∧ ∀ c ∈ found, isTokenChar c = true ∨ isIdeograph c = true := by
  rcases h with ⟨_, v, rfl, ⟨c, rfl, hc⟩, -, -, hv⟩ | ⟨hlength, -, hall⟩
  · refine ⟨List.cons_ne_nil _ _, fun d hd => .inl ?_⟩
    rcases List.mem_cons.1 hd with rfl | hd
    · exact Bool.or_eq_true_iff.2 (.inl hc)
    · exact hv d hd
  · exact ⟨List.ne_nil_of_length_pos (by omega), fun c hc => .inr (hall c hc)⟩

/-- A keyword is no empty text. -/
theorem nonEmptyText_keywordsOf (text : String) :
    ∀ keyword ∈ preprocessor.keywordsOf text, nonEmptyText keyword = .ok keyword := by
  intro keyword h
  have hmem := List.mem_of_mem_take h
  rw [List.mem_eraseDups] at hmem
  obtain ⟨found, hfound, rfl⟩ := List.mem_map.1 hmem
  obtain ⟨hne, hall⟩ := of_language_tokenPattern (language_of_mem_findAll hfound)
  rw [preprocessor.characters.casefold_plain found ?_]
  · have hspace : ∀ c ∈ found.map Char.toLower, isWhiteSpace c = false := by
      intro c hc
      obtain ⟨d, hd, rfl⟩ := List.mem_map.1 hc
      exact isWhiteSpace_toLower (hall d hd)
    refine nonEmptyText_eq_self ?_ (fun c hc => hspace c ?_) fun c hc => hspace c ?_
    · rwa [String.toList_ofList, Ne, List.map_eq_nil_iff]
    · rw [String.toList_ofList] at hc
      exact List.mem_of_mem_head? hc
    · rw [String.toList_ofList] at hc
      exact List.mem_of_mem_getLast? hc
  · intro c hc
    have hrange := keywordChar_range (hall c hc)
    omega

/-- What `process` makes of a text. -/
structure IsPreprocessed (text : String) (processed : PreprocessedQuery) : Prop where
  canonicalText : processed.canonicalText.value = joinSpaced (preprocessor.canonicalWords text)
  length_le : processed.canonicalText.value.length ≤ preprocessor.maxCharacters
  language : processed.language = languageOf processed.canonicalText.value.toList
  lexicalKeywords : processed.lexicalKeywords.map NonEmptyStr.value =
    preprocessor.keywordsOf processed.canonicalText.value

/-- A text that is neither empty nor too long is preprocessed. -/
theorem exists_process {text normalized : String}
    (h : collapsed (preprocessor.withoutControls
      (preprocessor.characters.nfkc text.toList)) = normalized)
    (hvalid : nonEmptyText normalized = .ok normalized) (hne : normalized ≠ "")
    (hlong : ¬ preprocessor.maxCharacters < normalized.length) :
    ∃ processed, preprocessor.process text = .ok processed ∧
      processed.canonicalText.value = normalized ∧
      processed.language = languageOf normalized.toList ∧
      processed.lexicalKeywords.map NonEmptyStr.value =
        preprocessor.keywordsOf normalized := by
  obtain ⟨keywords, hkeywords, hmap⟩ :=
    NonEmptyStr.exists_mapM_make (preprocessor.nonEmptyText_keywordsOf normalized)
  have hlength : keywords.length ≤ 16 := by
    have heq := congrArg List.length hmap
    rw [List.length_map, keywordsOf, List.length_take] at heq
    omega
  refine ⟨⟨⟨normalized, hvalid⟩, languageOf normalized.toList, keywords, hlength,
    "query-normalize-v1"⟩, ?_, rfl, rfl, hmap⟩
  rw [process, h]
  refine check_eq_ok.2 ⟨hne, check_eq_ok.2 ⟨hlong, ?_⟩⟩
  refine bind_eq_ok.2 ⟨_, NonEmptyStr.make_eq_ok hvalid, ?_⟩
  exact bind_eq_ok.2 ⟨keywords, hkeywords, dif_pos hlength⟩

/-- **What comes out**: a text without words or with too many characters is refused, and every other
text is preprocessed. -/
theorem process_spec (text : String) :
    (∃ processed, preprocessor.process text = .ok processed ∧
        preprocessor.IsPreprocessed text processed) ∨
      (preprocessor.canonicalWords text = [] ∨
          preprocessor.maxCharacters < (joinSpaced (preprocessor.canonicalWords text)).length) ∧
        ∃ message, preprocessor.process text = .error (.other "ValueError" message) := by
  have hwords : ∀ word ∈ preprocessor.canonicalWords text,
      word ≠ [] ∧ ∀ c ∈ word, Agent.isSpace c = false := fun word hword => of_mem_words hword
  have hcollapsed : collapsed (preprocessor.withoutControls
      (preprocessor.characters.nfkc text.toList)) =
        joinSpaced (preprocessor.canonicalWords text) := collapsed_eq_joinSpaced _
  by_cases hnil : preprocessor.canonicalWords text = []
  · refine .inr ⟨.inl hnil, "query is empty after normalization", ?_⟩
    have hempty := hcollapsed.trans ((joinSpaced_eq_empty_iff fun word hword =>
      (hwords word hword).1).2 hnil)
    rw [process]
    dsimp only
    rw [if_pos hempty]
    rfl
  have hne : joinSpaced (preprocessor.canonicalWords text) ≠ "" := fun h =>
    hnil ((joinSpaced_eq_empty_iff fun word hword => (hwords word hword).1).1 h)
  obtain ⟨htext, hhead, hlast⟩ := joinSpaced_words hnil hwords
  have hvalid := nonEmptyText_eq_self htext (fun c hc => isWhiteSpace_eq_false (hhead c hc))
    fun c hc => isWhiteSpace_eq_false (hlast c hc)
  by_cases hlong : preprocessor.maxCharacters <
      (joinSpaced (preprocessor.canonicalWords text)).length
  · refine .inr ⟨.inr hlong, "query exceeds configured character limit", ?_⟩
    rw [process, hcollapsed]
    dsimp only
    rw [if_neg hne, if_pos hlong]
    rfl
  · obtain ⟨processed, hprocess, hcanonical, hlanguage, hkeywords⟩ :=
      preprocessor.exists_process hcollapsed hvalid hne hlong
    refine .inl ⟨processed, hprocess, hcanonical, ?_, ?_, ?_⟩
    · rw [hcanonical]
      exact not_lt.1 hlong
    · rw [hcanonical, hlanguage]
    · rw [hcanonical, hkeywords]

end QueryPreprocessor

end Knowledge
end RagflowAgent
