import Mathlib.Algebra.Order.Group.Unbundled.Abs
import Mathlib.Data.Prod.Lex
import Mathlib.Data.Rat.Floor
import RagflowAgent.Knowledge.Parsing.Blocks
import RagflowAgent.Ranking

/-!
# Lines of words

`ocrWordsToBlocks` groups words, which have a place on a page, into lines, and makes a text block
of every line.

* `textLines` are the lines; `textLines_perm` says that every word is in one line;
* `lineBlock_spec` says where the block of a line is: its rectangle begins where the leftmost
  and where the highest of the words begin.
-/

namespace RagflowAgent
namespace Knowledge
namespace Parsing

open Chunking (BlockKind BoundingBox CoordinateSpace)
open Ranking

structure OcrWord where
  text : NonEmptyStr
  boundingBox : BoundingBox
  order : ℕ
  deriving DecidableEq

namespace OcrWord

def center (word : OcrWord) : ℚ := (word.boundingBox.y0 + word.boundingBox.y1) / 2

def height (word : OcrWord) : ℚ := word.boundingBox.y1 - word.boundingBox.y0

end OcrWord

/-- `statistics.median`. -/
def median (values : List ℚ) : ℚ :=
  let sorted := sortedBy id values
  let half := values.length / 2
  if values.length % 2 = 1 then sorted.getD half 0
  else (sorted.getD (half - 1) 0 + sorted.getD half 0) / 2

/-- `round(value)`, which rounds a half to the even number. -/
def roundHalfEven (value : ℚ) : ℤ :=
  let rest := value - ⌊value⌋
  if rest < 1 / 2 then ⌊value⌋
  else if 1 / 2 < rest then ⌊value⌋ + 1
  else if ⌊value⌋ % 2 = 0 then ⌊value⌋ else ⌊value⌋ + 1

/-- How far the middles of the words of a line may be apart. -/
def tolerance (words : List OcrWord) : ℚ := max 4 (median (words.map OcrWord.height) * (13 / 20))

/-- The order in which the words are put into lines. -/
def bandKey (tolerance : ℚ) (word : OcrWord) : ℤ ×ₗ ℚ ×ₗ ℕ :=
  toLex (roundHalfEven (word.center / tolerance), toLex (word.boundingBox.x0, word.order))

/-- The order of the words of a line. -/
def lineKey (word : OcrWord) : ℚ ×ₗ ℕ := toLex (word.boundingBox.x0, word.order)

def meanCenter (line : List OcrWord) : ℚ := (line.map OcrWord.center).sum / line.length

/-- The lines from here on; `line` is the one that is open, and `center` its middle. -/
def linesFrom (tolerance : ℚ) (line : List OcrWord) (center : ℚ) :
    List OcrWord → List (List OcrWord)
  | [] => [line]
  | word :: words =>
    if tolerance < |word.center - center| then
      line :: linesFrom tolerance [word] word.center words
    else linesFrom tolerance (line ++ [word]) (meanCenter (line ++ [word])) words

/-- The lines of words that are in the order of their bands. -/
def lines (tolerance : ℚ) : List OcrWord → List (List OcrWord)
  | [] => []
  | word :: words => linesFrom tolerance [word] word.center words

/-- The lines of a group of words, each of them from left to right. -/
def textLines (words : List OcrWord) : List (List OcrWord) :=
  (lines (tolerance words) (sortedBy (bandKey (tolerance words)) words)).map (sortedBy lineKey)

/-- Where the leftmost word of a line begins. -/
def lineLeft (line : List OcrWord) : ℚ := ((line.map fun word => word.boundingBox.x0).min?).getD 0

/-- Where the highest word of a line begins. -/
def lineTop (line : List OcrWord) : ℚ := ((line.map fun word => word.boundingBox.y0).min?).getD 0

def lineRight (line : List OcrWord) : ℚ :=
  ((line.map fun word => word.boundingBox.x1).max?).getD 0

def lineBottom (line : List OcrWord) : ℚ :=
  ((line.map fun word => word.boundingBox.y1).max?).getD 0

/-- The block of a line. -/
def lineBlock (pageNumber : ℕ) (idPrefix : String) (startOrder : ℕ) (headingPath : List String)
    (line : List OcrWord) (index : ℕ) : Except Error ParsedBlock := do
  match line with
  | [] => .error (.other "IndexError" "list index out of range")
  | first :: _ =>
    let boundingBox ← BoundingBox.make (lineLeft line) (lineTop line) (lineRight line)
      (lineBottom line) first.boundingBox.coordinateSpace
    ParsedBlock.make
      { id := idPrefix ++ "_" ++ toString index
        kind := .text
        order := startOrder + index
        text := [' '].intercalate (line.map fun word => word.text.value.toList)
        pageNumber := some pageNumber
        boundingBox := some boundingBox
        headingPath }

def ocrWordsToBlocks (words : List OcrWord) (pageNumber : ℕ) (idPrefix : String)
    (startOrder : ℕ) (headingPath : List String := []) : Except Error (List ParsedBlock) :=
  (textLines words).zipIdx.mapM fun (line, index) =>
    lineBlock pageNumber idPrefix startOrder headingPath line index

/-! ## The lines of a group -/

variable {words line : List OcrWord}

theorem flatten_linesFrom (tolerance : ℚ) (line : List OcrWord) (center : ℚ)
    (words : List OcrWord) : (linesFrom tolerance line center words).flatten = line ++ words := by
  induction words generalizing line center with
  | nil => simp [linesFrom]
  | cons word words ih =>
    rw [linesFrom]
    split
    · rw [List.flatten_cons, ih, List.singleton_append]
    · rw [ih, List.append_assoc, List.singleton_append]

theorem flatten_lines (tolerance : ℚ) (words : List OcrWord) :
    (lines tolerance words).flatten = words := by
  cases words with
  | nil => rfl
  | cons word words => rw [lines, flatten_linesFrom, List.singleton_append]

theorem ne_nil_of_mem_linesFrom {tolerance center : ℚ} (hline : line ≠ []) :
    ∀ other ∈ linesFrom tolerance line center words, other ≠ [] := by
  induction words generalizing line center with
  | nil =>
    intro other hother
    rw [List.mem_singleton.1 hother]
    exact hline
  | cons word words ih =>
    rw [linesFrom]
    split
    · exact List.forall_mem_cons.2 ⟨hline, ih (List.cons_ne_nil _ _)⟩
    · exact ih (List.append_ne_nil_of_left_ne_nil hline _)

theorem ne_nil_of_mem_textLines (h : line ∈ textLines words) : line ≠ [] := by
  obtain ⟨unsorted, hmem, rfl⟩ := List.mem_map.1 h
  have hne : unsorted ≠ [] := by
    cases hsorted : sortedBy (bandKey (tolerance words)) words with
    | nil =>
      rw [hsorted] at hmem
      exact absurd hmem List.not_mem_nil
    | cons word rest =>
      rw [hsorted] at hmem
      exact ne_nil_of_mem_linesFrom (List.cons_ne_nil _ _) unsorted hmem
  intro hnil
  have hlength := congrArg List.length hnil
  rw [length_sortedBy, List.length_nil, List.length_eq_zero_iff] at hlength
  exact hne hlength

/-- **Every word is in one line.** -/
theorem textLines_perm (words : List OcrWord) : (textLines words).flatten.Perm words := by
  have hsorted : ∀ unsorted : List (List OcrWord),
      ((unsorted.map (sortedBy lineKey)).flatten).Perm unsorted.flatten := by
    intro unsorted
    induction unsorted with
    | nil => exact List.Perm.refl _
    | cons line unsorted ih =>
      rw [List.map_cons, List.flatten_cons, List.flatten_cons]
      exact (sortedBy_perm lineKey line).append ih
  refine (hsorted _).trans ?_
  rw [flatten_lines]
  exact sortedBy_perm _ words

theorem mem_of_mem_textLines {word : OcrWord} (hline : line ∈ textLines words)
    (hword : word ∈ line) : word ∈ words :=
  (textLines_perm words).mem_iff.1 (List.mem_flatten.2 ⟨line, hline, hword⟩)

/-- Some word of a line begins where the line begins. -/
theorem exists_lineLeft (h : line ≠ []) :
    ∃ word ∈ line, lineLeft line = word.boundingBox.x0 := by
  have hne : (line.map fun word => word.boundingBox.x0) ≠ [] := mt List.map_eq_nil_iff.1 h
  obtain ⟨low, hlow⟩ := Option.ne_none_iff_exists'.1 (mt List.min?_eq_none_iff.1 hne)
  obtain ⟨word, hword, hx0⟩ := List.mem_map.1 (List.min?_eq_some_iff.1 hlow).1
  refine ⟨word, hword, ?_⟩
  rw [lineLeft, hlow, Option.getD_some, hx0]

/-! ## The blocks of the lines -/

variable {pageNumber startOrder index : ℕ} {idPrefix : String} {headingPath : List String}
  {block : ParsedBlock} {blocks : List ParsedBlock}

/-- Where the block of a line is. -/
structure IsLineBlock (pageNumber : ℕ) (line : List OcrWord) (block : ParsedBlock) : Prop where
  kind : block.kind = .text
  pageNumber : block.pageNumber = some pageNumber
  boundingBox : ∃ box, block.boundingBox = some box ∧ box.x0 = lineLeft line ∧
    box.y0 = lineTop line

theorem lineBlock_spec
    (h : lineBlock pageNumber idPrefix startOrder headingPath line index = .ok block) :
    IsLineBlock pageNumber line block := by
  cases line with
  | nil => cases h
  | cons first rest =>
    rw [lineBlock] at h
    obtain ⟨box, hbox, h⟩ := bind_eq_ok.1 h
    have hhas := ParsedBlock.has_of_make h
    refine ⟨hhas.kind, hhas.pageNumber, box, hhas.boundingBox, ?_⟩
    rw [BoundingBox.make] at hbox
    split at hbox
    · split at hbox
      · cases hbox
        exact ⟨rfl, rfl⟩
      · cases hbox
    · cases hbox

/-- The blocks are those of the lines. -/
theorem exists_line_of_mem (h : ocrWordsToBlocks words pageNumber idPrefix startOrder headingPath =
    .ok blocks) (hblock : block ∈ blocks) :
    ∃ line ∈ textLines words, IsLineBlock pageNumber line block := by
  obtain ⟨⟨line, index⟩, hmem, hline⟩ := mem_of_mapM_eq_ok h block hblock
  exact ⟨line, List.fst_mem_of_mem_zipIdx hmem, lineBlock_spec hline⟩

theorem exists_block_of_mem (h : ocrWordsToBlocks words pageNumber idPrefix startOrder headingPath =
    .ok blocks) (hline : line ∈ textLines words) :
    ∃ block ∈ blocks, IsLineBlock pageNumber line block := by
  obtain ⟨index, hindex, rfl⟩ := List.getElem_of_mem hline
  have hmem : ((textLines words)[index], index) ∈ (textLines words).zipIdx := by
    rw [List.mem_iff_getElem]
    exact ⟨index, by simpa using hindex, by simp⟩
  obtain ⟨block, hblock, hmade⟩ := exists_of_mapM_eq_ok h _ hmem
  exact ⟨block, hblock, lineBlock_spec hmade⟩

end Parsing
end Knowledge
end RagflowAgent
