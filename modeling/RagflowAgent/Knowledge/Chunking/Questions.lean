import RagflowAgent.Agent.Domain.Text
import RagflowAgent.Text.Tokens

/-!
# Questions and answers

`_QA` finds a question with the answer after it.  Each begins with a marker, `Q:`, `问题：` and
the like at the beginning of a line, and both are matched lazily; the answer ends before a line
that begins with the letter of a question, or with the text.

* `pairsAt` are the matches that begin at a place, in the order of preference;
* `scan` goes over a text as `finditer` does: what it reads is either a match, or a character
  outside of every match;
* `outside` and `unmarked` are the text without the matches, and without their markers.
-/

namespace RagflowAgent
namespace Knowledge
namespace Chunking

open Text Text.Pattern Agent

/-- The text between two places. -/
def upTo (place last : Place) : List Char :=
  place.rest.take (place.rest.length - last.rest.length)

theorem upTo_append {place last : Place} (h : last.rest <:+ place.rest) :
    upTo place last ++ last.rest = place.rest := by
  obtain ⟨front, hfront⟩ := h
  have hlength : place.rest.length - last.rest.length = front.length := by
    rw [← hfront, List.length_append]
    omega
  rw [upTo, hlength, ← hfront, List.take_left]

/-! ## The pattern -/

/-- `[\uFF1A:]\s*`. -/
def colon : Pattern := seq (one fun c => c == '：' || c == ':') (many isSpace 0 none)

/-- `(?:Q(?:uestion)?|问(?:题)?)[\uFF1A:]\s*`. -/
def questionMarker : Pattern :=
  seq (choice [seq (word "q") (optional (word "uestion")), seq (word "问") (optional (word "题"))])
    colon

/-- `(?:\n+)(?:A(?:nswer)?|答(?:案)?)[\uFF1A:]\s*`. -/
def answerMarker : Pattern :=
  sequence [many (fun c => c == '\n') 1 none,
    choice [seq (word "a") (optional (word "nswer")), seq (word "答") (optional (word "案"))],
    colon]

/-- `(?:^|\n)`. -/
def lineStarts (place : Place) : List Place :=
  (if place.before = none then [place] else []) ++ (one fun c => c == '\n').ends place

/-- `.+?`, where the dot matches every character. -/
def lazily (place : Place) : List Place :=
  (reach (fun _ => true) place.before place.rest).drop 1

/-- `(?=\n(?:Q|问)|$)`. -/
def answerStops (place : Place) : Bool :=
  !((seq (one fun c => c == '\n') (alt (word "q") (word "问"))).ends place).isEmpty ||
    place.rest = [] || place.rest = ['\n']

/-- A match of `_QA`: its two groups, and what comes before each of them. -/
structure QaMatch where
  questionMark : List Char
  question : List Char
  answerMark : List Char
  answer : List Char
  deriving DecidableEq, Repr

def QaMatch.text (m : QaMatch) : List Char :=
  m.questionMark ++ m.question ++ (m.answerMark ++ m.answer)

/-- The matches that begin at a place, each with the place where it ends. -/
def pairsAt (place : Place) : List (QaMatch × Place) :=
  ((lineStarts place).flatMap questionMarker.ends).flatMap fun question =>
    (lazily question).flatMap fun questionEnd =>
      (answerMarker.ends questionEnd).flatMap fun answer =>
        ((lazily answer).filter answerStops).map fun answerEnd =>
          ({ questionMark := upTo place question
             question := upTo question questionEnd
             answerMark := upTo questionEnd answer
             answer := upTo answer answerEnd }, answerEnd)

/-! ## Searching a text -/

inductive Piece where
  | plain (c : Char)
  | pair (m : QaMatch)
  deriving DecidableEq, Repr

def Piece.text : Piece → List Char
  | plain c => [c]
  | pair m => m.text

/-- Go over a text from left to right; `skip` characters still belong to the last match. -/
def scanFrom : ℕ → Option Char → List Char → List Piece
  | _, _, [] => []
  | skip + 1, _, c :: rest => scanFrom skip (some c) rest
  | 0, before, c :: rest =>
    match (pairsAt ⟨before, c :: rest⟩).head? with
    | none => .plain c :: scanFrom 0 (some c) rest
    | some (m, last) =>
      .pair m :: scanFrom ((c :: rest).length - last.rest.length - 1) (some c) rest

def scan (text : List Char) : List Piece := scanFrom 0 none text

/-- The matches among the pieces. -/
def matchesIn (pieces : List Piece) : List QaMatch :=
  pieces.filterMap fun
    | .plain _ => none
    | .pair m => some m

/-- `_QA.finditer(text)`. -/
def finditer (text : List Char) : List QaMatch := matchesIn (scan text)

/-- The pieces, with every match blanked. -/
def outsideOf (pieces : List Piece) : List Char :=
  pieces.flatMap fun
    | .plain c => [c]
    | .pair _ => ['\n']

/-- The pieces, with every marker blanked. -/
def unmarkedOf (pieces : List Piece) : List Char :=
  pieces.flatMap fun
    | .plain c => [c]
    | .pair m => '\n' :: m.question ++ ('\n' :: m.answer)

/-- The text that is in no match. -/
def outside (text : List Char) : List Char := outsideOf (scan text)

/-- The text without the markers of its questions and answers. -/
def unmarked (text : List Char) : List Char := unmarkedOf (scan text)

/-! ## What a match is -/

theorem mem_lazily {place last : Place} (h : last ∈ lazily place) :
    last.rest <:+ place.rest ∧ last.rest.length < place.rest.length := by
  rw [lazily] at h
  obtain ⟨before, rest⟩ := place
  cases rest with
  | nil => exact absurd h List.not_mem_nil
  | cons c rest =>
    rw [reach, if_pos rfl, List.drop_succ_cons, List.drop_zero] at h
    have hsuffix := rest_suffix_of_mem_reach h
    exact ⟨hsuffix.trans (List.suffix_cons c rest), Nat.lt_succ_of_le hsuffix.length_le⟩

/-- The answer stops at the end of a line. -/
theorem head_of_answerStops {place : Place} (h : answerStops place = true) :
    ∀ c ∈ place.rest.head?, c = '\n' := by
  intro c hc
  rw [answerStops, Bool.or_eq_true, Bool.or_eq_true, decide_eq_true_eq, decide_eq_true_eq] at h
  rcases h with (h | h) | h
  · obtain ⟨before, rest⟩ := place
    cases rest with
    | nil => cases hc
    | cons d rest =>
      cases hc
      by_contra hc
      have hnone : (one fun c => c == '\n').ends ⟨before, c :: rest⟩ = [] := by
        rw [ends, if_neg]
        rw [beq_iff_eq]
        exact hc
      rw [ends, hnone] at h
      exact Bool.false_ne_true h
  · rw [h] at hc
    cases hc
  · rw [h] at hc
    cases hc
    rfl

/-- **A match is a part of the text, is not empty, and ends with a line.** -/
theorem pairsAt_spec {place last : Place} {m : QaMatch} (h : (m, last) ∈ pairsAt place) :
    place.rest = m.text ++ last.rest ∧ last.rest.length < place.rest.length ∧
      ∀ c ∈ last.rest.head?, c = '\n' := by
  simp only [pairsAt, List.mem_flatMap, List.mem_map, List.mem_filter] at h
  obtain ⟨question, ⟨start, hstart, hquestion⟩, questionEnd, hquestionEnd, answer, hanswer, answerEnd,
    ⟨hlast, hstops⟩, heq⟩ := h
  cases heq
  have hstart' : start.rest <:+ place.rest := by
    rw [lineStarts, List.mem_append] at hstart
    rcases hstart with hstart | hstart
    · split at hstart
      · obtain rfl := List.mem_singleton.1 hstart
        exact List.suffix_rfl
      · exact absurd hstart List.not_mem_nil
    · exact rest_suffix_of_mem_ends hstart
  have hquestion' := (rest_suffix_of_mem_ends hquestion).trans hstart'
  have hquestionEnd' := mem_lazily hquestionEnd
  have hanswer' := rest_suffix_of_mem_ends hanswer
  have hlast' := mem_lazily hlast
  refine ⟨?_, ?_, head_of_answerStops hstops⟩
  · change place.rest = (upTo place question ++ upTo question questionEnd ++
      (upTo questionEnd answer ++ upTo answer last)) ++ last.rest
    rw [List.append_assoc, List.append_assoc, List.append_assoc, upTo_append hlast'.1,
      upTo_append hanswer', upTo_append hquestionEnd'.1, upTo_append hquestion']
  · have hquestionLe := hquestion'.length_le
    have hanswerLe := hanswer'.length_le
    omega

/-! ## The pieces of a text -/

/-- The characters of a match after the first one are skipped. -/
theorem drop_after_match {c : Char} {rest text last : List Char} (htext : c :: rest = text ++ last)
    (hless : last.length < (c :: rest).length) :
    rest.drop ((c :: rest).length - last.length - 1) = last := by
  have hlength := congrArg List.length htext
  rw [List.length_append] at hlength
  have hskip : (c :: rest).length - last.length - 1 + 1 = text.length := by omega
  rw [← List.drop_succ_cons (a := c), hskip, htext, List.drop_left]

/-- **The pieces make up the text.** -/
theorem flatMap_scanFrom (skip : ℕ) (before : Option Char) (text : List Char) :
    (scanFrom skip before text).flatMap Piece.text = text.drop skip := by
  induction text generalizing skip before with
  | nil => rw [scanFrom, List.drop_nil, List.flatMap_nil]
  | cons c rest ih =>
    cases skip with
    | succ skip => rw [scanFrom, ih, List.drop_succ_cons]
    | zero =>
      rw [scanFrom]
      cases hfirst : (pairsAt ⟨before, c :: rest⟩).head? with
      | none =>
        dsimp only
        rw [List.flatMap_cons, ih]
        rfl
      | some found =>
        obtain ⟨m, last⟩ := found
        obtain ⟨htext, hless, -⟩ := pairsAt_spec (List.mem_of_mem_head? hfirst)
        dsimp only at htext hless ⊢
        rw [List.flatMap_cons, ih]
        rw [drop_after_match htext hless, List.drop_zero]
        exact htext.symm

theorem flatMap_scan (text : List Char) : (scan text).flatMap Piece.text = text :=
  flatMap_scanFrom 0 none text

/-- After every match the line ends. -/
def Closed : List Piece → Prop
  | [] => True
  | .plain _ :: pieces => Closed pieces
  | .pair _ :: pieces => (∀ c, .plain c ∈ pieces.head? → c = '\n') ∧ Closed pieces

theorem closed_scanFrom (skip : ℕ) (before : Option Char) (text : List Char) :
    Closed (scanFrom skip before text) := by
  induction text generalizing skip before with
  | nil => exact trivial
  | cons c rest ih =>
    cases skip with
    | succ skip => exact ih skip (some c)
    | zero =>
      rw [scanFrom]
      cases hfirst : (pairsAt ⟨before, c :: rest⟩).head? with
      | none => exact ih 0 (some c)
      | some found =>
        obtain ⟨m, last⟩ := found
        refine ⟨fun d hd => ?_, ih _ (some c)⟩
        obtain ⟨htext, hless, hline⟩ := pairsAt_spec (List.mem_of_mem_head? hfirst)
        -- What comes first after the match is the first character of the rest of the text.
        have hrest := flatMap_scanFrom ((c :: rest).length - last.rest.length - 1) (some c) rest
        rw [drop_after_match htext hless] at hrest
        obtain ⟨pieces, hpieces⟩ := List.head?_eq_some_iff.1 hd
        rw [hpieces, List.flatMap_cons] at hrest
        refine hline d ?_
        rw [← hrest]
        rfl

/-! ## Their tokens -/

section Tokens

variable {A : Alphabet Char}

theorem isSpace_head_unmarkedOf (hnewline : A.isSpace '\n' = true) {pieces : List Piece}
    (h : ∀ c, .plain c ∈ pieces.head? → c = '\n') :
    ∀ c ∈ (unmarkedOf pieces).head?, A.isSpace c = true := by
  intro c hc
  cases pieces with
  | nil => cases hc
  | cons piece pieces =>
    cases piece with
    | plain d =>
      cases hc
      rw [h c rfl]
      exact hnewline
    | pair m =>
      cases hc
      exact hnewline

/-- **The tokens without the markers** are those outside of the matches, and those of the
questions and answers. -/
theorem mem_tokens_unmarkedOf (hnewline : A.isSpace '\n' = true) {pieces : List Piece}
    (h : Closed pieces) (line t : List Char) :
    t ∈ A.tokens (line ++ unmarkedOf pieces) ↔
      t ∈ A.tokens (line ++ outsideOf pieces) ∨
        ∃ m ∈ matchesIn pieces, t ∈ A.tokens m.question ∨ t ∈ A.tokens m.answer := by
  have hspace : ∀ c ∈ ['\n'], A.isSpace c = true := List.forall_mem_singleton.2 hnewline
  have hcut := Alphabet.tokens_append_spaces_append hspace (List.cons_ne_nil _ _)
  induction pieces generalizing line with
  | nil =>
    constructor
    · exact .inl
    · rintro (ht | ⟨m, hm, -⟩)
      · exact ht
      · exact absurd hm List.not_mem_nil
  | cons piece pieces ih =>
    cases piece with
    | plain c =>
      have hline := ih h (line ++ [c])
      rw [List.append_assoc, List.append_assoc] at hline
      exact hline
    | pair m =>
      obtain ⟨hhead, hclosed⟩ := h
      have hseparate : A.Separate m.answer (unmarkedOf pieces) :=
        Alphabet.separate_of_head_isSpace (isSpace_head_unmarkedOf hnewline hhead)
      have hunmarked : A.tokens (line ++ unmarkedOf (.pair m :: pieces)) =
          A.tokens line ++ (A.tokens m.question ++
            (A.tokens m.answer ++ A.tokens ([] ++ unmarkedOf pieces))) := by
        have htext : line ++ unmarkedOf (.pair m :: pieces) = line ++ ['\n'] ++
            (m.question ++ ['\n'] ++ (m.answer ++ unmarkedOf pieces)) := by
          simp only [unmarkedOf, List.flatMap_cons, List.append_assoc, List.cons_append,
            List.nil_append]
        rw [htext, hcut, hcut, Alphabet.tokens_append hseparate, List.nil_append]
      have houtside : A.tokens (line ++ outsideOf (.pair m :: pieces)) =
          A.tokens line ++ A.tokens ([] ++ outsideOf pieces) := by
        rw [List.nil_append, ← hcut, List.append_assoc]
        rfl
      have hmatches : matchesIn (.pair m :: pieces) = m :: matchesIn pieces := rfl
      rw [hunmarked, houtside, hmatches]
      simp only [List.mem_append, ih hclosed [], List.exists_mem_cons_iff]
      grind

/-- What is to be kept of a text, apart from the markers. -/
theorem mem_tokens_unmarked (hnewline : A.isSpace '\n' = true) (text t : List Char) :
    t ∈ A.tokens (unmarked text) ↔ t ∈ A.tokens (outside text) ∨
      ∃ m ∈ finditer text, t ∈ A.tokens m.question ∨ t ∈ A.tokens m.answer :=
  mem_tokens_unmarkedOf hnewline (closed_scanFrom 0 none text) [] t

end Tokens

/-- Without a match there is no marker. -/
theorem unmarked_of_finditer_eq_nil {text : List Char} (h : finditer text = []) :
    unmarked text = text := by
  have hplain : ∀ pieces : List Piece, matchesIn pieces = [] →
      unmarkedOf pieces = pieces.flatMap Piece.text := by
    intro pieces hpieces
    induction pieces with
    | nil => rfl
    | cons piece pieces ih =>
      cases piece with
      | plain c => exact congrArg ([c] ++ ·) (ih hpieces)
      | pair m => cases hpieces
  rw [unmarked, hplain (scan text) h, flatMap_scan]

end Chunking
end Knowledge
end RagflowAgent
