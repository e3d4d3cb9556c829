import Mathlib.Data.List.Infix
import RagflowAgent.Agent.Domain.Text
import RagflowAgent.Text.Substitution

/-!
# Credentials in texts

What `_SECRET_VALUE` matches, without the matcher.

* `Keyword`, `IsGap` and `isCredential` are the three parts of a match, and `Occurs` puts them
  together with the longest run of a credential;
* `Keyword.eq_of_append_eq`: at most one keyword begins at a place, and
  `false_of_suffix`: none begins inside another;
* `firstMatch_of_occurs` and `exists_occurs_of_firstMatch`: the matcher finds what occurs;
* `Redacts` relates a text to the steps of its redaction, and `redacts` says that
  `redactSecretLikeText` does these steps.
-/

namespace RagflowAgent
namespace Agent

open Text Text.Pattern

/-- `[:=]`. -/
def isSeparator (c : Char) : Bool := c == ':' || c == '='

/-- `[^\s,;]`. -/
def isCredential (c : Char) : Bool := !isSpace c && c != ',' && c != ';'

/-- The group of `_SECRET_VALUE`. -/
def keywords : Pattern :=
  let separator := optional (one fun c => c == '_' || c == ' ' || c == '-')
  choice [word "password", word "passwd", sequence [word "api", separator, word "key"],
    sequence [word "access", separator, word "token"], word "authorization",
    sequence [word "private", separator, word "key"]]

def isWordChar (host : Host) (c : Char) : Bool := host.isAlnum c || c == '_'

theorem secretName_eq (host : Host) :
    secretName host = seq (boundary (isWordChar host)) keywords := rfl

theorem secretValue_eq : secretValue = seq (many isSpace 0 none) (seq (one isSeparator)
    (seq (many isSpace 0 none) (many isCredential 1 none))) := rfl

/-! ## Keywords -/

/-- The keywords in lower case. -/
def keywordTexts : List (List Char) :=
  ["password", "passwd", "authorization", "apikey", "api_key", "api key", "api-key",
    "accesstoken", "access_token", "access token", "access-token", "privatekey", "private_key",
    "private key", "private-key"].map String.toList

def keywordChars : List Char := "abcdefghijklmnopqrstuvwxyz_- ".toList

/-- The character of a keyword that a character matches when case is ignored. -/
def foldCase (x : Char) : Char :=
  if x.toNat = 0x130 ∨ x.toNat = 0x131 then 'i'
  else if x.toNat = 0x17F then 's'
  else if x.toNat = 0x212A then 'k'
  else x.toLower

/-- How a character `x` that matches `c` resembles it. -/
def resembles (c x : Char) : Bool :=
  foldCase x == c && isSpace x == (c == ' ') && !isSeparator x && x != ',' && x != ';'

theorem resembles_of_caseless {c x : Char} (hc : c ∈ keywordChars) (h : caseless c x = true) :
    resembles c x = true := by
  have hself : keywordChars.all (fun c => resembles c c && resembles c c.toUpper) = true := by
    decide
  have hboth := List.all_eq_true.1 hself c hc
  rw [Bool.and_eq_true] at hboth
  simp only [caseless, Bool.or_eq_true, Bool.and_eq_true, beq_iff_eq] at h
  have hchar : ∀ n : ℕ, x.toNat = n → x = Char.ofNat n := by
    rintro n rfl
    exact (Char.ofNat_toNat x).symm
  rcases h with (((rfl | rfl) | ⟨rfl, h | h⟩) | ⟨rfl, h⟩) | ⟨rfl, h⟩
  · exact hboth.1
  · exact hboth.2
  all_goals
    rw [hchar _ h]
    decide

theorem exists_of_language_compound {first second : String} {w : List Char}
    (h : (sequence [word first, optional (one fun c => c == '_' || c == ' ' || c == '-'),
      word second]).Language w) :
    ∃ sep ∈ [[], ['_'], [' '], ['-']],
      List.Forall₂ (fun c x => caseless c x = true) (first.toList ++ sep ++ second.toList) w := by
  obtain ⟨u, v, rfl, hu, u', v', rfl, hsep, hv⟩ := h
  have hfirst := language_literal_iff.1 hu
  have hsecond := language_literal_iff.1 hv
  have hmiddle : ∃ sep ∈ [[], ['_'], [' '], ['-']],
      List.Forall₂ (fun c x => caseless c x = true) sep u' := by
    rcases hsep with ⟨c, rfl, hc⟩ | rfl
    · refine ⟨[c], ?_, .cons (by simp [caseless]) .nil⟩
      simp only [Bool.or_eq_true, beq_iff_eq] at hc
      rcases hc with (rfl | rfl) | rfl <;> decide
    · exact ⟨[], by simp, .nil⟩
  obtain ⟨sep, hmem, hsep⟩ := hmiddle
  refine ⟨sep, hmem, ?_⟩
  rw [List.append_assoc]
  exact List.rel_append hfirst (List.rel_append hsep hsecond)

/-- The texts that match a keyword. -/
theorem exists_of_language_keywords {w : List Char} (h : keywords.Language w) :
    ∃ name ∈ keywordTexts, List.Forall₂ (fun c x => caseless c x = true) name w := by
  have hplain : ∀ name : String, name.toList ∈ keywordTexts → (word name).Language w →
      ∃ name ∈ keywordTexts, List.Forall₂ (fun c x => caseless c x = true) name w :=
    fun name hname h => ⟨_, hname, language_literal_iff.1 h⟩
  have hcompound : ∀ first second : String,
      (∀ sep ∈ [[], ['_'], [' '], ['-']], first.toList ++ sep ++ second.toList ∈ keywordTexts) →
      (sequence [word first, optional (one fun c => c == '_' || c == ' ' || c == '-'),
        word second]).Language w →
      ∃ name ∈ keywordTexts, List.Forall₂ (fun c x => caseless c x = true) name w := by
    intro first second hmem h
    obtain ⟨sep, hsep, hmatch⟩ := exists_of_language_compound h
    exact ⟨_, hmem sep hsep, hmatch⟩
  rcases h with h | h | h | h | h | h
  · exact hplain "password" (by decide) h
  · exact hplain "passwd" (by decide) h
  · exact hcompound "api" "key" (by simp [keywordTexts]) h
  · exact hcompound "access" "token" (by simp [keywordTexts]) h
  · exact hplain "authorization" (by decide) h
  · exact hcompound "private" "key" (by simp [keywordTexts]) h

theorem boundaryFree_keywords : keywords.BoundaryFree := by
  have hword := fun name : String => boundaryFree_literal caseless name.toList
  exact ⟨hword _, hword _, ⟨hword _, ⟨trivial, trivial⟩, hword _⟩,
    ⟨hword _, ⟨trivial, trivial⟩, hword _⟩, hword _, hword _, ⟨trivial, trivial⟩, hword _⟩

/-- A match resembles a keyword, character by character. -/
theorem exists_resembles {w : List Char} (h : keywords.Language w) :
    ∃ name ∈ keywordTexts, List.Forall₂ (fun c x => resembles c x = true) name w := by
  obtain ⟨name, hname, hmatch⟩ := exists_of_language_keywords h
  have hchars : keywordTexts.all (fun name => name.all fun c => keywordChars.contains c) = true := by
    decide +kernel
  have hmem := List.all_eq_true.1 (List.all_eq_true.1 hchars name hname)
  refine ⟨name, hname, ?_⟩
  clear hname hchars h
  induction hmatch with
  | nil => exact .nil
  | @cons c x name w hc hmatch ih =>
    refine .cons (resembles_of_caseless ?_ hc) (ih fun c hc => hmem c (by simp [hc]))
    simpa using hmem c (by simp)

/-- **The keywords, their letters in lower case.** -/
theorem map_foldCase_mem {w : List Char} (h : keywords.Language w) :
    w.map foldCase ∈ keywordTexts := by
  obtain ⟨name, hname, hresembles⟩ := exists_resembles h
  have hfold : w.map foldCase = name := by
    clear hname h
    induction hresembles with
    | nil => rfl
    | cons hc h ih =>
      simp only [resembles, Bool.and_eq_true, beq_iff_eq] at hc
      rw [List.map_cons, ih, hc.1.1.1.1]
  rwa [hfold]

/-- No character of a keyword ends it or separates it from the credential. -/
theorem of_mem_keyword {w : List Char} (h : keywords.Language w) {c : Char} (hc : c ∈ w) :
    isSeparator c = false ∧ isCredential c = !isSpace c := by
  obtain ⟨name, hname, hresembles⟩ := exists_resembles h
  clear hname h
  induction hresembles with
  | nil => exact absurd hc List.not_mem_nil
  | cons hd h ih =>
    rcases List.mem_cons.1 hc with rfl | hc
    · simp only [resembles, Bool.and_eq_true, Bool.not_eq_true'] at hd
      obtain ⟨⟨⟨-, hseparator⟩, hcomma⟩, hsemicolon⟩ := hd
      refine ⟨hseparator, ?_⟩
      rw [isCredential, hcomma, hsemicolon, Bool.and_true, Bool.and_true]
    · exact ih hc

/-- A keyword begins and ends with a letter. -/
theorem isSpace_ends_keyword {w : List Char} (h : keywords.Language w) :
    (∃ c, w.head? = some c ∧ isSpace c = false) ∧
      ∃ c, w.getLast? = some c ∧ isSpace c = false := by
  obtain ⟨name, hname, hresembles⟩ := exists_resembles h
  have hends : keywordTexts.all (fun name => (name.map (· == ' ')).head? == some false &&
      (name.map (· == ' ')).getLast? == some false) = true := by decide
  have hspaces : w.map isSpace = name.map (· == ' ') := by
    clear hname h hends
    induction hresembles with
    | nil => rfl
    | cons hc h ih =>
      simp only [resembles, Bool.and_eq_true, beq_iff_eq] at hc
      rw [List.map_cons, List.map_cons, ih, hc.1.1.1.2]
  have hboth := List.all_eq_true.1 hends name hname
  rw [← hspaces, List.head?_map, List.getLast?_map, Bool.and_eq_true, beq_iff_eq, beq_iff_eq,
    Option.map_eq_some_iff, Option.map_eq_some_iff] at hboth
  exact hboth

theorem keyword_ne_nil {w : List Char} (h : keywords.Language w) : w ≠ [] := by
  obtain ⟨⟨c, hc, -⟩, -⟩ := isSpace_ends_keyword h
  rintro rfl
  cases hc

/-- **At most one keyword** begins at a place. -/
theorem keyword_unique {w w' rest rest' : List Char} (h : keywords.Language w)
    (h' : keywords.Language w') (heq : w ++ rest = w' ++ rest') : w = w' := by
  have hfree : keywordTexts.all (fun name => keywordTexts.all fun name' =>
      !name.isPrefixOf name' || name == name') = true := by decide
  have hself : ∀ {u v : List Char}, keywords.Language u → keywords.Language v → u <+: v →
      u = v := by
    intro u v hu hv hpart
    have hor := List.all_eq_true.1 (List.all_eq_true.1 hfree _ (map_foldCase_mem hu)) _
      (map_foldCase_mem hv)
    rw [List.isPrefixOf_iff_prefix.2 (hpart.map foldCase), Bool.not_true, Bool.false_or,
      beq_iff_eq] at hor
    have hlength := congrArg List.length hor
    rw [List.length_map, List.length_map] at hlength
    exact hpart.eq_of_length hlength
  rcases List.prefix_or_prefix_of_prefix (List.prefix_append w rest)
    (heq ▸ List.prefix_append w' rest') with hpart | hpart
  · exact hself h h' hpart
  · exact (hself h' h hpart).symm

/-- **No keyword begins inside another.** -/
theorem not_keyword_suffix {u v w rest rest' : List Char} (h : keywords.Language (u ++ v))
    (hu : u ≠ []) (hv : v ≠ []) (hw : keywords.Language w) : v ++ rest ≠ w ++ rest' := by
  have hfree : keywordTexts.all (fun name => name.tail.tails.all fun v => v == [] ||
      keywordTexts.all fun name' => !v.isPrefixOf name' && !name'.isPrefixOf v) = true := by
    decide +kernel
  intro heq
  have htails : v.map foldCase ∈ ((u ++ v).map foldCase).tail.tails := by
    obtain ⟨c, u, rfl⟩ := List.exists_cons_of_ne_nil hu
    rw [List.mem_tails, List.map_append, List.map_cons, List.cons_append, List.tail_cons]
    exact List.suffix_append _ _
  have hor := List.all_eq_true.1 (List.all_eq_true.1 hfree _ (map_foldCase_mem h)) _ htails
  rw [Bool.or_eq_true, beq_iff_eq, List.map_eq_nil_iff] at hor
  have hneither := List.all_eq_true.1 (hor.resolve_left hv) _ (map_foldCase_mem hw)
  rw [Bool.and_eq_true, Bool.not_eq_true', Bool.not_eq_true'] at hneither
  rcases List.prefix_or_prefix_of_prefix (List.prefix_append v rest)
    (heq ▸ List.prefix_append w rest') with hpart | hpart
  · rw [List.isPrefixOf_iff_prefix.2 (hpart.map foldCase)] at hneither
    cases hneither.1
  · rw [List.isPrefixOf_iff_prefix.2 (hpart.map foldCase)] at hneither
    cases hneither.2

/-! ## Occurrences -/

/-- A keyword that begins where a word does. -/
def Keyword (host : Host) (before : Option Char) (w : List Char) : Prop :=
  keywords.Language w ∧ before.any (isWordChar host) ≠ w.head?.any (isWordChar host)

/-- A separator with white space around it. -/
def IsGap (gap : List Char) : Prop :=
  ∃ ws sep ws', gap = ws ++ sep :: ws' ∧ (∀ c ∈ ws, isSpace c = true) ∧ isSeparator sep = true ∧
    ∀ c ∈ ws', isSpace c = true

/-- A keyword begins a text, and the longest run of the credential behind it is followed by
`rest`. -/
structure Occurs (host : Host) (before : Option Char) (text name gap run rest : List Char) :
    Prop where
  text_eq : text = name ++ (gap ++ run) ++ rest
  keyword : Keyword host before name
  isGap : IsGap gap
  run_ne_nil : run ≠ []
  run_credential : ∀ c ∈ run, isCredential c = true
  rest_head : ∀ c ∈ rest.head?, isCredential c = false

theorem isSpace_of_isSeparator {c : Char} (h : isSeparator c = true) : isSpace c = false := by
  rw [isSeparator, Bool.or_eq_true, beq_iff_eq, beq_iff_eq] at h
  rcases h with rfl | rfl <;> decide

theorem isCredential_of_isSeparator {c : Char} (h : isSeparator c = true) :
    isCredential c = true := by
  rw [isSeparator, Bool.or_eq_true, beq_iff_eq, beq_iff_eq] at h
  rcases h with rfl | rfl <;> decide

theorem isSpace_of_isCredential {c : Char} (h : isCredential c = true) : isSpace c = false := by
  rw [isCredential, Bool.and_eq_true, Bool.and_eq_true, Bool.not_eq_true'] at h
  exact h.1.1

theorem isCredential_of_isSpace {c : Char} (h : isSpace c = true) : isCredential c = false := by
  rw [isCredential, h]
  rfl

/-- The characters of a gap. -/
theorem IsGap.of_mem {gap : List Char} (h : IsGap gap) {c : Char} (hc : c ∈ gap) :
    isSpace c = true ∨ isSeparator c = true := by
  obtain ⟨ws, sep, ws', rfl, hws, hsep, hws'⟩ := h
  rw [List.mem_append, List.mem_cons] at hc
  rcases hc with hc | rfl | hc
  · exact .inl (hws c hc)
  · exact .inr hsep
  · exact .inl (hws' c hc)

theorem IsGap.ne_nil {gap : List Char} (h : IsGap gap) : gap ≠ [] := by
  obtain ⟨ws, sep, ws', rfl, -⟩ := h
  simp

/-- The spaces at the beginning of a text. -/
theorem spaces_unique {ws ws' rest rest' : List Char} (hws : ∀ c ∈ ws, isSpace c = true)
    (hws' : ∀ c ∈ ws', isSpace c = true) (hrest : ∃ c, rest.head? = some c ∧ isSpace c = false)
    (hrest' : ∃ c, rest'.head? = some c ∧ isSpace c = false) (heq : ws ++ rest = ws' ++ rest') :
    ws = ws' ∧ rest = rest' := by
  induction ws generalizing ws' with
  | nil =>
    cases ws' with
    | nil => exact ⟨rfl, heq⟩
    | cons d ws' =>
      obtain ⟨c, hc, hspace⟩ := hrest
      rw [List.nil_append] at heq
      rw [heq] at hc
      obtain rfl : d = c := Option.some.inj hc
      rw [hws' d List.mem_cons_self] at hspace
      cases hspace
  | cons d ws ih =>
    cases ws' with
    | nil =>
      obtain ⟨c, hc, hspace⟩ := hrest'
      rw [List.nil_append] at heq
      rw [← heq] at hc
      obtain rfl : d = c := Option.some.inj hc
      rw [hws d List.mem_cons_self] at hspace
      cases hspace
    | cons d' ws' =>
      rw [List.cons_append, List.cons_append] at heq
      obtain ⟨rfl, htail⟩ := List.cons.inj heq
      obtain ⟨rfl, hrests⟩ := ih (fun c hc => hws c (by simp [hc]))
        (fun c hc => hws' c (by simp [hc])) htail
      exact ⟨rfl, hrests⟩

/-- The gap at the beginning of a text. -/
theorem IsGap.unique {gap gap' rest rest' : List Char} (h : IsGap gap) (h' : IsGap gap')
    (hrest : ∃ c, rest.head? = some c ∧ isSpace c = false)
    (hrest' : ∃ c, rest'.head? = some c ∧ isSpace c = false)
    (heq : gap ++ rest = gap' ++ rest') : gap = gap' ∧ rest = rest' := by
  obtain ⟨u, sep, v, rfl, hu, hsep, hv⟩ := h
  obtain ⟨u', sep', v', rfl, hu', hsep', hv'⟩ := h'
  rw [List.append_assoc, List.append_assoc, List.cons_append, List.cons_append] at heq
  obtain ⟨rfl, hcons⟩ := spaces_unique hu hu' ⟨sep, rfl, isSpace_of_isSeparator hsep⟩
    ⟨sep', rfl, isSpace_of_isSeparator hsep'⟩ heq
  obtain ⟨rfl, htail⟩ := List.cons.inj hcons
  obtain ⟨rfl, hrests⟩ := spaces_unique hv hv' hrest hrest' htail
  exact ⟨rfl, hrests⟩

/-- The longest run of a credential reaches over a text, or stops in it. -/
theorem run_cases {run rest w post : List Char} (hrun : ∀ c ∈ run, isCredential c = true)
    (hrest : ∀ c ∈ rest.head?, isCredential c = false) (heq : run ++ rest = w ++ post) :
    (∃ run', run = w ++ run' ∧ post = run' ++ rest ∧ ∀ c ∈ w, isCredential c = true) ∨
      ∃ c w', w = run ++ c :: w' ∧ rest = c :: (w' ++ post) ∧ isCredential c = false := by
  rcases List.append_eq_append_iff.1 heq with ⟨w', rfl, hrests⟩ | ⟨run', rfl, hposts⟩
  · cases w' with
    | nil =>
      rw [List.append_nil]
      exact .inl ⟨[], (List.append_nil _).symm, hrests.symm, hrun⟩
    | cons c w' =>
      refine .inr ⟨c, w', rfl, hrests, hrest c ?_⟩
      rw [hrests]
      rfl
  · exact .inl ⟨run', rfl, hposts, fun c hc => hrun c (by simp [hc])⟩

namespace Occurs

variable {host : Host} {before : Option Char} {text name gap run rest : List Char}

/-- The run begins with a character of a credential. -/
theorem run_head (h : Occurs host before text name gap run rest) (tail : List Char) :
    ∃ c, (run ++ tail).head? = some c ∧ isSpace c = false := by
  obtain ⟨c, run, rfl⟩ := List.exists_cons_of_ne_nil h.run_ne_nil
  exact ⟨c, rfl, isSpace_of_isCredential (h.run_credential c (by simp))⟩

/-- What occurs begins with a letter. -/
theorem head_credential (h : Occurs host before text name gap run rest) :
    ∃ c, text.head? = some c ∧ isCredential c = true := by
  obtain ⟨⟨c, hc, hspace⟩, -⟩ := isSpace_ends_keyword h.keyword.1
  refine ⟨c, ?_, ?_⟩
  · rw [h.text_eq, List.append_assoc, List.head?_append_of_ne_nil _ (keyword_ne_nil h.keyword.1),
      hc]
  · rw [(of_mem_keyword h.keyword.1 (List.mem_of_mem_head? hc)).2, hspace]
    rfl

/-- What occurs at the beginning of a text is determined by the text. -/
theorem unique {name' gap' run' rest' : List Char} (h : Occurs host before text name gap run rest)
    (h' : Occurs host before text name' gap' run' rest') :
    name = name' ∧ gap = gap' ∧ run = run' ∧ rest = rest' := by
  have heq := h.text_eq.symm.trans h'.text_eq
  simp only [List.append_assoc] at heq
  obtain rfl := keyword_unique h.keyword.1 h'.keyword.1 heq
  have hgaps := List.append_cancel_left heq
  obtain ⟨rfl, hruns⟩ := h.isGap.unique h'.isGap (h.run_head rest) (h'.run_head rest') hgaps
  rcases run_cases h.run_credential h.rest_head hruns with ⟨tail, hrun, hpost, -⟩ |
    ⟨c, w', hrun, hrest, hc⟩
  · cases tail with
    | nil =>
      rw [List.append_nil] at hrun
      exact ⟨rfl, rfl, hrun, hpost.symm⟩
    | cons c tail =>
      have hcredential := h.run_credential c (by rw [hrun]; simp)
      rw [h'.rest_head c (by rw [hpost]; rfl)] at hcredential
      cases hcredential
  · have hcredential := h'.run_credential c (by rw [hrun]; simp)
    rw [hc] at hcredential
    cases hcredential

end Occurs

/-! ## The matcher -/

section Matcher

variable {host : Host} {before : Option Char}

/-- The boundary and the group match a keyword. -/
theorem mem_ends_secretName_iff {text : List Char} {last : Place} :
    last ∈ (secretName host).ends ⟨before, text⟩ ↔
      ∃ w, Keyword host before w ∧ text = w ++ last.rest ∧ last.before = behind before w := by
  rw [secretName_eq, ends, List.mem_flatMap]
  constructor
  · rintro ⟨middle, hmiddle, hlast⟩
    rw [ends] at hmiddle
    split at hmiddle
    · rename_i hborder
      obtain rfl := List.mem_singleton.1 hmiddle
      obtain ⟨w, hw, hbefore, hlanguage⟩ := exists_of_mem_ends hlast
      dsimp only at hw hborder
      refine ⟨w, ⟨hlanguage, ?_⟩, hw, hbefore⟩
      rwa [hw, List.head?_append_of_ne_nil _ (keyword_ne_nil hlanguage)] at hborder
    · exact absurd hmiddle List.not_mem_nil
  · rintro ⟨w, ⟨hlanguage, hborder⟩, rfl, hbefore⟩
    refine ⟨⟨before, w ++ last.rest⟩, ?_, ?_⟩
    · rw [ends, if_pos]
      · exact List.mem_singleton_self _
      · rwa [List.head?_append_of_ne_nil _ (keyword_ne_nil hlanguage)]
    · have hmem := mem_ends_of_language boundaryFree_keywords hlanguage before last.rest
      rwa [← hbefore] at hmem

/-- Only one keyword can match. -/
theorem head?_ends_secretName {w : List Char} (h : Keyword host before w) (rest : List Char) :
    ((secretName host).ends ⟨before, w ++ rest⟩).head? = some ⟨behind before w, rest⟩ := by
  have hmem : (⟨behind before w, rest⟩ : Place) ∈ (secretName host).ends ⟨before, w ++ rest⟩ :=
    mem_ends_secretName_iff.2 ⟨w, h, rfl, rfl⟩
  cases hhead : ((secretName host).ends ⟨before, w ++ rest⟩).head? with
  | none =>
    rw [List.head?_eq_none_iff.1 hhead] at hmem
    exact absurd hmem List.not_mem_nil
  | some last =>
    obtain ⟨w', hw', htext, hbefore⟩ := mem_ends_secretName_iff.1 (List.mem_of_mem_head? hhead)
    obtain rfl := keyword_unique h.1 hw'.1 htext
    obtain ⟨before', rest'⟩ := last
    dsimp only at htext hbefore
    rw [hbefore, List.append_cancel_left htext]

/-- A gap and a credential match, and the credential is taken to its end. -/
theorem head?_ends_secretValue {gap run rest : List Char} (hgap : IsGap gap) (hne : run ≠ [])
    (hrun : ∀ c ∈ run, isCredential c = true) (hrest : ∀ c ∈ rest.head?, isCredential c = false) :
    (secretValue.ends ⟨before, gap ++ run ++ rest⟩).head? =
      some ⟨behind before (gap ++ run), rest⟩ := by
  obtain ⟨ws, sep, ws', rfl, hws, hsep, hws'⟩ := hgap
  have hhead : ∀ c ∈ (run ++ rest).head?, isSpace c = false := by
    obtain ⟨d, run, rfl⟩ := List.exists_cons_of_ne_nil hne
    rintro c hc
    obtain rfl : d = c := Option.some.inj hc
    exact isSpace_of_isCredential (hrun d (by simp))
  have hsepHead : ∀ c ∈ (sep :: (ws' ++ (run ++ rest))).head?, isSpace c = false := by
    rintro c hc
    obtain rfl : sep = c := Option.some.inj hc
    exact isSpace_of_isSeparator hsep
  have htext : ws ++ sep :: ws' ++ run ++ rest = ws ++ sep :: (ws' ++ (run ++ rest)) := by simp
  have hbehind : behind before (ws ++ sep :: ws' ++ run) =
      behind (behind (some sep) ws') run := by
    rw [behind_append, behind_append]
    rfl
  rw [secretValue_eq, htext, hbehind]
  refine head?_ends_seq (head?_ends_many hws (Nat.zero_le _) hsepHead before) ?_
  refine head?_ends_seq (head?_ends_one hsep _ _) ?_
  refine head?_ends_seq (head?_ends_many hws' (Nat.zero_le _) hhead _) ?_
  exact head?_ends_many hrun (List.length_pos_iff.2 hne) hrest _

/-- Where the second part of the pattern matches there is a gap and a credential. -/
theorem exists_of_mem_ends_secretValue {place last : Place} (h : last ∈ secretValue.ends place) :
    ∃ gap run rest, place.rest = gap ++ run ++ rest ∧ IsGap gap ∧ run ≠ [] ∧
      (∀ c ∈ run, isCredential c = true) ∧ ∀ c ∈ rest.head?, isCredential c = false := by
  rw [secretValue_eq] at h
  obtain ⟨w, hw, -, ws, w, rfl, ⟨-, -, hws⟩, _, w', rfl, ⟨sep, rfl, hsep⟩, ws', run, rfl,
    ⟨-, -, hws'⟩, hleast, -, hrun⟩ := exists_of_mem_ends h
  refine ⟨ws ++ sep :: ws', run ++ last.rest.takeWhile isCredential,
    last.rest.dropWhile isCredential, ?_, ⟨ws, sep, ws', rfl, hws, hsep, hws'⟩, ?_, ?_, ?_⟩
  · rw [hw]
    simp
  · intro hnil
    rw [(List.append_eq_nil_iff.1 hnil).1] at hleast
    cases hleast
  · intro c hc
    rcases List.mem_append.1 hc with hc | hc
    · exact hrun c hc
    · exact List.all_eq_true.1 List.all_takeWhile c hc
  · intro c hc
    have hhead := List.head?_dropWhile_not isCredential last.rest
    rwa [Option.mem_def.1 hc] at hhead

/-- **The matcher finds what occurs.** -/
theorem firstMatch_of_occurs {text name gap run rest : List Char}
    (h : Occurs host before text name gap run rest) :
    firstMatch (secretName host) secretValue ⟨before, text⟩ =
      some (⟨behind before name, gap ++ run ++ rest⟩,
        ⟨behind before (name ++ (gap ++ run)), rest⟩) := by
  obtain ⟨rfl, hkeyword, hgap, hne, hrun, hrest⟩ := h
  rw [List.append_assoc, behind_append]
  exact head?_firstMatch (head?_ends_secretName hkeyword _)
    (head?_ends_secretValue hgap hne hrun hrest)

/-- **What the matcher finds occurs.** -/
theorem exists_occurs_of_firstMatch {text : List Char} {middle last : Place}
    (h : firstMatch (secretName host) secretValue ⟨before, text⟩ = some (middle, last)) :
    ∃ name gap run, Occurs host before text name gap run last.rest ∧
      middle.rest = gap ++ run ++ last.rest := by
  obtain ⟨hmiddle, hlast⟩ := mem_of_firstMatch h
  obtain ⟨name, hkeyword, htext, -⟩ := mem_ends_secretName_iff.1 hmiddle
  obtain ⟨gap, run, rest, hrest, hgap, hne, hrun, hhead⟩ := exists_of_mem_ends_secretValue hlast
  have hoccurs : Occurs host before text name gap run rest :=
    ⟨by rw [htext, hrest, List.append_assoc name], hkeyword, hgap, hne, hrun, hhead⟩
  rw [firstMatch_of_occurs hoccurs] at h
  obtain ⟨hmid, hend⟩ := Prod.mk.inj (Option.some.inj h)
  rw [← hend]
  exact ⟨name, gap, run, hoccurs, hrest⟩

theorem firstMatch_eq_none_iff_not_occurs {text : List Char} :
    firstMatch (secretName host) secretValue ⟨before, text⟩ = none ↔
      ∀ name gap run rest, ¬ Occurs host before text name gap run rest := by
  constructor
  · intro h name gap run rest hoccurs
    rw [firstMatch_of_occurs hoccurs] at h
    cases h
  · intro h
    cases hfirst : firstMatch (secretName host) secretValue ⟨before, text⟩ with
    | none => rfl
    | some ends =>
      obtain ⟨name, gap, run, hoccurs, -⟩ := exists_occurs_of_firstMatch hfirst
      exact absurd hoccurs (h _ _ _ _)

end Matcher

/-! ## Steps -/

/-- A text and the steps of its redaction. -/
inductive Redacts (host : Host) : Option Char → List Char → List Segment → Prop
  | nil {before : Option Char} : Redacts host before [] []
  | copied {before : Option Char} {c : Char} {rest : List Char} {segments : List Segment}
      (hnone : ∀ name gap run rest', ¬ Occurs host before (c :: rest) name gap run rest')
      (tail : Redacts host (some c) rest segments) :
      Redacts host before (c :: rest) (.copied c :: segments)
  | found {before : Option Char} {text name gap run rest : List Char} {segments : List Segment}
      (hoccurs : Occurs host before text name gap run rest)
      (tail : Redacts host (behind before (name ++ (gap ++ run))) rest segments) :
      Redacts host before text (.found name (gap ++ run) :: segments)

/-- The steps of `redactSecretLikeText`. -/
def redactionSteps (host : Host) (text : List Char) : List Segment :=
  segmentsFrom (secretName host) secretValue 0 none text

theorem Redacts.of_segmented {host : Host} {before : Option Char} {text : List Char}
    {segments : List Segment}
    (h : Segmented (secretName host) secretValue before text segments) :
    Redacts host before text segments := by
  induction h with
  | nil => exact .nil
  | copied hnone tail ih => exact .copied (firstMatch_eq_none_iff_not_occurs.1 hnone) ih
  | @found before name value rest segments middle last hfirst hmiddle hlast tail ih =>
    obtain ⟨name', gap, run, hoccurs, hrest⟩ := exists_occurs_of_firstMatch hfirst
    rw [hlast] at hoccurs hrest
    obtain rfl : value = gap ++ run := List.append_cancel_right (hmiddle.symm.trans hrest)
    have htext := hoccurs.text_eq
    obtain rfl : name = name' :=
      List.append_cancel_right (List.append_cancel_right htext)
    exact .found hoccurs ih

/-- **The steps of a redaction** deal with the text from its beginning to its end. -/
theorem redacts (host : Host) (text : List Char) :
    Redacts host none text (redactionSteps host text) := by
  refine .of_segmented (segmented_segmentsFrom ?_ none text)
  intro place middle last h
  obtain ⟨name, gap, run, hoccurs, -⟩ := exists_occurs_of_firstMatch h
  have hlength := congrArg List.length hoccurs.text_eq
  have hpos := List.length_pos_iff.2 hoccurs.run_ne_nil
  simp only [List.length_append] at hlength
  omega

/-- What is put in the place of a credential. -/
def blanked (name : List Char) : List Char := name ++ "=[REDACTED]".toList

/-- The result of a redaction is what its steps write. -/
theorem toList_redactSecretLikeText (host : Host) (value : String) :
    (redactSecretLikeText host value).toList =
      (redactionSteps host value.toList).flatMap (Segment.replaced blanked) := by
  rw [redactSecretLikeText, sub, String.toList_ofList, subFrom_eq_flatMap]
  rfl

end Agent
end RagflowAgent
