import RagflowAgent.Text.Tokens

/-!
# Lines

`splitLines` is `str.splitlines()`: a carriage return with a line feed after it is one break, and
after the last break there is a line only if there is text.  Where the breaks are spaces, the
lines have the tokens of the text.  Lines that are written one below the other are read back, but
for an empty line at the end: `splitLines_intercalate`.
-/

namespace RagflowAgent
namespace Text

/-- The characters at which a line ends. -/
def lineBreaks : List Char :=
  ['\n', '\r', '\x0b', '\x0c', '\x1c', '\x1d', '\x1e', '\x85', '\u2028', '\u2029']

/-- The lines from here on; `line` is what the first one has already. -/
def splitLinesFrom (line : List Char) : List Char → List (List Char)
  | [] => if line = [] then [] else [line]
  | '\r' :: '\n' :: text => line :: splitLinesFrom [] text
  | c :: text =>
    if c ∈ lineBreaks then line :: splitLinesFrom [] text else splitLinesFrom (line ++ [c]) text

/-- `text.splitlines()`. -/
def splitLines (text : List Char) : List (List Char) := splitLinesFrom [] text

theorem tokens_splitLinesFrom {A : Alphabet Char} (h : ∀ c ∈ lineBreaks, A.isSpace c = true)
    (line text : List Char) :
    (splitLinesFrom line text).flatMap A.tokens = A.tokens (line ++ text) := by
  have hfeed : ∀ c ∈ ['\r', '\n'], A.isSpace c = true := by
    refine List.forall_mem_cons.2 ⟨h '\r' ?_, List.forall_mem_singleton.2 (h '\n' ?_)⟩
    all_goals decide
  fun_induction splitLinesFrom line text with
  | case1 => rfl
  | case2 line hline => rw [List.flatMap_singleton, List.append_nil]
  | case3 line text ih =>
    have hcut := Alphabet.tokens_append_spaces_append hfeed (List.cons_ne_nil _ _) line text
    rw [List.append_assoc] at hcut
    rw [List.flatMap_cons, ih, List.nil_append]
    exact hcut.symm
  | case4 line c text _ hbreak ih =>
    have hspace : ∀ d ∈ [c], A.isSpace d = true := List.forall_mem_singleton.2 (h c hbreak)
    have hcut := Alphabet.tokens_append_spaces_append hspace (List.cons_ne_nil _ _) line text
    rw [List.append_assoc] at hcut
    rw [List.flatMap_cons, ih, List.nil_append]
    exact hcut.symm
  | case5 line c text _ hbreak ih =>
    rw [ih, List.append_assoc]
    rfl

/-- **The lines of a text have its tokens.** -/
theorem tokens_splitLines {A : Alphabet Char} (h : ∀ c ∈ lineBreaks, A.isSpace c = true)
    (text : List Char) : (splitLines text).flatMap A.tokens = A.tokens text :=
  tokens_splitLinesFrom h [] text

/-! ## Texts that are written line by line -/

variable {line text rest : List Char} {c : Char}

theorem splitLinesFrom_cons (hc : c ∉ lineBreaks) (line text : List Char) :
    splitLinesFrom line (c :: text) = splitLinesFrom (line ++ [c]) text := by
  rw [splitLinesFrom, if_neg hc]
  rintro text' rfl
  exact absurd (by decide) hc

/-- A text without breaks is the rest of its line. -/
theorem splitLinesFrom_append (h : ∀ c ∈ text, c ∉ lineBreaks) (line rest : List Char) :
    splitLinesFrom line (text ++ rest) = splitLinesFrom (line ++ text) rest := by
  induction text generalizing line with
  | nil => rw [List.nil_append, List.append_nil]
  | cons c text ih =>
    obtain ⟨hc, htext⟩ := List.forall_mem_cons.1 h
    rw [List.cons_append, splitLinesFrom_cons hc, ih htext, List.append_assoc,
      List.singleton_append]

theorem splitLinesFrom_newline (line rest : List Char) :
    splitLinesFrom line ('\n' :: rest) = line :: splitLinesFrom [] rest := by
  rw [splitLinesFrom, if_pos (by decide)]
  rintro text' heq
  exact absurd heq (by decide)

/-- **Lines without breaks are read back**, but for an empty line at the end. -/
theorem splitLines_intercalate {lines : List (List Char)}
    (h : ∀ line ∈ lines, ∀ c ∈ line, c ∉ lineBreaks) :
    splitLines (['\n'].intercalate lines) =
      if lines.getLast? = some [] then lines.dropLast else lines := by
  rw [splitLines]
  induction lines with
  | nil => rfl
  | cons first lines ih =>
    obtain ⟨hfirst, hlines⟩ := List.forall_mem_cons.1 h
    cases lines with
    | nil =>
      have hread := splitLinesFrom_append hfirst [] []
      rw [List.append_nil, List.nil_append, splitLinesFrom] at hread
      rw [List.intercalate_singleton, hread]
      simp
    | cons second lines =>
      rw [List.intercalate_cons_cons, List.append_assoc, splitLinesFrom_append hfirst,
        List.singleton_append, splitLinesFrom_newline, List.nil_append, ih hlines,
        List.getLast?_cons_cons, List.dropLast_cons_cons]
      split <;> rfl

/-- A line has no break. -/
theorem not_mem_lineBreaks_of_mem_splitLinesFrom (hline : ∀ c ∈ line, c ∉ lineBreaks) :
    ∀ other ∈ splitLinesFrom line text, ∀ c ∈ other, c ∉ lineBreaks := by
  have hnil : ∀ c ∈ ([] : List Char), c ∉ lineBreaks := fun _ h => absurd h List.not_mem_nil
  fun_induction splitLinesFrom line text with
  | case1 => exact fun _ h => absurd h List.not_mem_nil
  | case2 line _ => exact List.forall_mem_singleton.2 hline
  | case3 line text ih => exact List.forall_mem_cons.2 ⟨hline, ih hnil⟩
  | case4 line c text _ _ ih => exact List.forall_mem_cons.2 ⟨hline, ih hnil⟩
  | case5 line c text _ hc ih =>
    refine ih fun d hd => ?_
    rcases List.mem_append.1 hd with hd | hd
    · exact hline d hd
    · rwa [List.mem_singleton.1 hd]

theorem not_mem_lineBreaks_of_mem_splitLines (h : line ∈ splitLines text) :
    ∀ c ∈ line, c ∉ lineBreaks :=
  not_mem_lineBreaks_of_mem_splitLinesFrom (fun _ h => absurd h List.not_mem_nil) line h

end Text
end RagflowAgent
