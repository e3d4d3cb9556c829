import RagflowAgent.Intervals
import RagflowAgent.Knowledge.Parsing.OcrLayout
import RagflowAgent.Knowledge.Parsing.Tables

/-!
# The parser of PDF documents

The words of a page are split into two columns where a gap between them is wide enough, and each
column becomes lines; then come the tables of the page, and the words that OCR has found on a
page with neither.  The items of a page are sorted by the place where they begin and numbered
through the document.

* `columnGroups_perm` and `column_sides`: every word is in one group, and of two columns one lies
  to the left of the other;
* `Laid` are the pages with the items behind the blocks of the document, `exists_laid` is the run
  over the pages, and `Laid.pairwise` says that the items are in order;
* `reading_order`: the blocks of the left column come before those of the right one if and only
  if no line of the right column begins higher than a line of the left one.
-/

namespace RagflowAgent
namespace Knowledge
namespace Parsing

open Chunking (BlockKind BoundingBox CoordinateSpace)
open Ranking Intervals

/-! ## The source -/

/-- A word of `page.extract_words`. -/
structure PdfWord where
  text : List Char
  x0 : ℚ
  top : ℚ
  x1 : ℚ
  bottom : ℚ

/-- A table of `page.find_tables()`, with the cells of `table.extract()`. -/
structure PdfTable where
  x0 : ℚ
  top : ℚ
  x1 : ℚ
  bottom : ℚ
  extract : List (List (Option (List Char)))

/-- A page, and what the OCR engine returns or raises for a picture of it. -/
structure PdfPage where
  width : ℚ
  words : List PdfWord
  tables : List PdfTable
  recognize : Except Error (List OcrWord)

namespace PdfBinaryParser

/-- The word has a text, a width and a height. -/
def isVisible (word : PdfWord) : Bool :=
  strip word.text ≠ [] ∧ word.x0 < word.x1 ∧ word.top < word.bottom

/-- The words of `_pdf_words_to_blocks`, which keep their places among all words. -/
def ocrWords (words : List PdfWord) : Except Error (List OcrWord) :=
  (words.zipIdx.filter fun entry => isVisible entry.1).mapM fun (word, index) => do
    let text ← NonEmptyStr.make (String.ofList (strip word.text))
    let boundingBox ← BoundingBox.make word.x0 word.top word.x1 word.bottom .pagePoints
    return { text, boundingBox, order := index }

/-- The left and the right ends of the words, sorted. -/
def wordIntervals (words : List OcrWord) : List (ℚ × ℚ) :=
  sortedBy toLex (words.map fun word => (word.boundingBox.x0, word.boundingBox.x1))

/-- The middle of the word lies left of the divider. -/
def isLeftOf (divider : ℚ) (word : OcrWord) : Bool :=
  (word.boundingBox.x0 + word.boundingBox.x1) / 2 < divider

def columnGroups (words : List OcrWord) (pageWidth : ℚ) : List (List OcrWord) :=
  if words.length < 2 ∨ pageWidth ≤ 0 then [words]
  else
    match ((gaps (wordIntervals words)).map toLex).max? with
    | none => [words]
    | some widest =>
      let (gap, divider) := ofLex widest
      if gap < max 48 (pageWidth * (8 / 100)) then [words]
      else
        let leftWords := words.filter (isLeftOf divider)
        let rightWords := words.filter fun word => word ∉ leftWords
        if leftWords = [] ∨ rightWords = [] then [words] else [leftWords, rightWords]

def columnPrefix (pageNumber columnIndex : ℕ) : String :=
  "pdf_text_" ++ toString pageNumber ++ "_" ++ toString columnIndex

/-- The blocks of the columns from here on. -/
def columnBlocks (pageNumber startOrder : ℕ) (blocks : List ParsedBlock) (columnIndex : ℕ) :
    List (List OcrWord) → Except Error (List ParsedBlock)
  | [] => .ok blocks
  | group :: groups => do
    let added ← ocrWordsToBlocks group pageNumber (columnPrefix pageNumber columnIndex)
      (startOrder + blocks.length)
    columnBlocks pageNumber startOrder (blocks ++ added) (columnIndex + 1) groups

def pdfWordsToBlocks (words : List PdfWord) (pageNumber startOrder : ℕ) (pageWidth : ℚ) :
    Except Error (List ParsedBlock) := do
  let words ← ocrWords words
  columnBlocks pageNumber startOrder [] 0 (columnGroups words pageWidth)

/-- The rows of a table that has a text. -/
def tableRows (table : PdfTable) : Rows :=
  keepRows (table.extract.map fun row => row.map fun cell => strip (cell.getD []))

/-- The blocks of the tables from here on. -/
def tableBlocks (pageNumber startOrder : ℕ) (blocks : List ParsedBlock) :
    List PdfTable → Except Error (List ParsedBlock)
  | [] => .ok blocks
  | table :: tables =>
    if tableRows table = [] ∨ table.x1 ≤ table.x0 ∨ table.bottom ≤ table.top then
      tableBlocks pageNumber startOrder blocks tables
    else do
      let boundingBox ← BoundingBox.make table.x0 table.top table.x1 table.bottom .pagePoints
      let block ← tableBlock
        ("pdf_table_" ++ toString pageNumber ++ "_" ++ toString blocks.length)
        (startOrder + blocks.length) (tableRows table) true [] (some pageNumber)
        (some boundingBox)
      tableBlocks pageNumber startOrder (blocks ++ [block]) tables

/-- The items of a page before they are sorted, and the warnings. -/
def pageItems (page : PdfPage) (pageNumber : ℕ) :
    Except Error (List ParsedBlock × List ParseWarning) := do
  let text ← pdfWordsToBlocks page.words pageNumber 0 page.width
  let tables ← tableBlocks pageNumber text.length [] page.tables
  if text ++ tables = [] then
    let words ← page.recognize
    let items ← ocrWordsToBlocks words pageNumber ("pdf_ocr_" ++ toString pageNumber) 0
    let warning ← ParseWarning.make "pdf_scanned_page_ocr" "page had no native text and used OCR"
      (some pageNumber)
    return (items, [warning])
  else return (text ++ tables, [])

/-- The order of the items of a page. -/
def itemKey (item : ParsedBlock) : ℚ ×ₗ ℚ ×ₗ ℕ :=
  toLex ((item.boundingBox.map BoundingBox.y0).getD 0,
    toLex ((item.boundingBox.map BoundingBox.x0).getD 0, item.order))

/-- `f"pdf_{len(blocks)}"`. -/
def blockId (n : ℕ) : NonEmptyStr :=
  ⟨"pdf_" ++ toString n, nonEmptyText_append_number (by decide) (by rintro _ ⟨⟩; decide) n⟩

/-- An item with its place in the document. -/
def numberItem (entry : ParsedBlock × ℕ) : ParsedBlock :=
  entry.1.renumber (blockId entry.2) entry.2

/-- The loop over the pages. -/
def parsePages : ℕ → ParsedPayload → List PdfPage → Except Error ParsedPayload
  | _, payload, [] => .ok payload
  | pageNumber, payload, page :: pages => do
    let (items, warnings) ← pageItems page pageNumber
    let blocks := ((sortedBy itemKey items).zipIdx payload.blocks.length).map numberItem
    parsePages (pageNumber + 1)
      { blocks := payload.blocks ++ blocks, warnings := payload.warnings ++ warnings } pages

/-- The document is `none` when the libraries cannot open it. -/
def parseBytes (maxPages : ℕ) (document : Option (List PdfPage)) : Except Error ParsedPayload :=
  match document with
  | none => .error (.conflict "PDF document is invalid or encrypted" "parser_pdf_invalid")
  | some pages =>
    if maxPages < pages.length then
      .error (.conflict "PDF exceeds the configured page limit" "parser_resource_limit")
    else
      match parsePages 1 { blocks := [] } pages with
      | .ok payload => .ok payload
      | .error (.conflict message errorCode) => .error (.conflict message errorCode)
      | .error _ => .error (.conflict "PDF extraction failed" "parser_pdf_extract_failed")

/-! ## The columns -/

variable {words left right : List OcrWord} {pageWidth : ℚ}

/-- **Every word is in one group.** -/
theorem columnGroups_perm (words : List OcrWord) (pageWidth : ℚ) :
    (columnGroups words pageWidth).flatten.Perm words := by
  have hone : ([words] : List (List OcrWord)).flatten.Perm words := by
    rw [List.flatten_singleton]
  rw [columnGroups]
  split
  · exact hone
  split
  · exact hone
  · rename_i widest hwidest
    dsimp only
    split
    · exact hone
    split
    · exact hone
    · -- what is not on the left side is on the right one
      have hright : (words.filter fun word =>
          word ∉ words.filter (isLeftOf (ofLex widest).2)) =
          words.filter fun word => !isLeftOf (ofLex widest).2 word := by
        refine List.filter_congr fun word hword => ?_
        simp [hword]
      rw [hright, List.flatten_cons, List.flatten_singleton]
      exact List.filter_append_perm _ words

/-- **Of two columns one lies to the left of the other.** -/
theorem column_sides (h : columnGroups words pageWidth = [left, right]) :
    ∃ divider, (∀ word ∈ left, word.boundingBox.x0 < divider) ∧
      ∀ word ∈ right, divider < word.boundingBox.x0 := by
  rw [columnGroups] at h
  split at h
  · cases h
  split at h
  · cases h
  · rename_i widest hwidest
    dsimp only at h
    split at h
    · cases h
    split at h
    · cases h
    · cases h
      obtain ⟨gap, hgap, hwide⟩ := List.mem_map.1 (List.max?_eq_some_iff.1 hwidest).1
      subst hwide
      have hsorted : (wordIntervals words).Pairwise fun i j => i.1 ≤ j.1 := by
        refine (sortedBy_pairwise toLex _).imp fun {i j} hij => ?_
        exact (Prod.Lex.toLex_le_toLex.1 hij).elim le_of_lt fun h => h.1.le
      have hclear := clear_of_mem_gaps hsorted hgap
      have hword : ∀ word ∈ words, word.boundingBox.x1 < gap.2 ∨ gap.2 < word.boundingBox.x0 :=
        fun word hmem => hclear _ ((mem_sortedBy _).2 (List.mem_map_of_mem hmem))
      refine ⟨gap.2, fun word hmem => ?_, fun word hmem => ?_⟩
      · obtain ⟨hmem, hleft⟩ := List.mem_filter.1 hmem
        have hcenter := of_decide_eq_true hleft
        have hsize := word.boundingBox.size.1
        rw [ofLex_toLex] at hcenter
        linarith
      · obtain ⟨hmem, hright⟩ := List.mem_filter.1 hmem
        have hnot : ¬ isLeftOf gap.2 word = true := fun hleft =>
          of_decide_eq_true hright (List.mem_filter.2 ⟨hmem, hleft⟩)
        refine (hword word hmem).resolve_left fun hend => hnot (decide_eq_true ?_)
        have hsize := word.boundingBox.size.1
        linarith

/-! ## The items of a page -/

variable {page : PdfPage} {pages : List PdfPage} {pageNumber startOrder columnIndex : ℕ}
  {blocks added items leftBlocks rightBlocks : List ParsedBlock} {warnings : List ParseWarning}
  {block item : ParsedBlock} {payload : ParsedPayload} {layouts : List (List ParsedBlock)}

theorem exists_of_columnBlocks {group : List OcrWord} {groups : List (List OcrWord)}
    (h : columnBlocks pageNumber startOrder blocks columnIndex (group :: groups) = .ok items) :
    ∃ added,
      ocrWordsToBlocks group pageNumber (columnPrefix pageNumber columnIndex)
        (startOrder + blocks.length) = .ok added ∧
      columnBlocks pageNumber startOrder (blocks ++ added) (columnIndex + 1) groups = .ok items :=
  bind_eq_ok.1 h

theorem pageNumber_of_columnBlocks {groups : List (List OcrWord)}
    (hblocks : ∀ block ∈ blocks, block.pageNumber = some pageNumber)
    (h : columnBlocks pageNumber startOrder blocks columnIndex groups = .ok items) :
    ∀ item ∈ items, item.pageNumber = some pageNumber := by
  induction groups generalizing blocks columnIndex with
  | nil =>
    cases h
    exact hblocks
  | cons group groups ih =>
    obtain ⟨added, hadded, h⟩ := exists_of_columnBlocks h
    refine ih (fun block hmem => ?_) h
    rcases List.mem_append.1 hmem with hmem | hmem
    · exact hblocks block hmem
    · obtain ⟨line, -, hline⟩ := exists_line_of_mem hadded hmem
      exact hline.pageNumber

theorem pageNumber_of_tableBlocks {tables : List PdfTable}
    (hblocks : ∀ block ∈ blocks, block.pageNumber = some pageNumber)
    (h : tableBlocks pageNumber startOrder blocks tables = .ok items) :
    ∀ item ∈ items, item.pageNumber = some pageNumber := by
  induction tables generalizing blocks with
  | nil =>
    cases h
    exact hblocks
  | cons table tables ih =>
    rw [tableBlocks] at h
    split at h
    · exact ih hblocks h
    · obtain ⟨box, -, h⟩ := bind_eq_ok.1 h
      obtain ⟨block, hblock, h⟩ := bind_eq_ok.1 h
      refine ih (fun other hmem => ?_) h
      rcases List.mem_append.1 hmem with hmem | hmem
      · exact hblocks other hmem
      · rw [List.mem_singleton.1 hmem]
        obtain ⟨metadata, -, hmake⟩ := bind_eq_ok.1 hblock
        exact (ParsedBlock.has_of_make hmake).pageNumber

/-- The items of a page are on this page. -/
theorem pageNumber_of_pageItems (h : pageItems page pageNumber = .ok (items, warnings)) :
    ∀ item ∈ items, item.pageNumber = some pageNumber := by
  obtain ⟨text, htext, h⟩ := bind_eq_ok.1 h
  obtain ⟨words, -, htext⟩ := bind_eq_ok.1 htext
  obtain ⟨tables, htables, h⟩ := bind_eq_ok.1 h
  split at h
  · obtain ⟨words, -, h⟩ := bind_eq_ok.1 h
    obtain ⟨scanned, hscanned, h⟩ := bind_eq_ok.1 h
    obtain ⟨warning, -, h⟩ := bind_eq_ok.1 h
    cases h
    intro item hitem
    obtain ⟨line, -, hline⟩ := exists_line_of_mem hscanned hitem
    exact hline.pageNumber
  · cases h
    intro item hitem
    rcases List.mem_append.1 hitem with hitem | hitem
    · exact pageNumber_of_columnBlocks (fun _ h => absurd h List.not_mem_nil) htext item hitem
    · exact pageNumber_of_tableBlocks (fun _ h => absurd h List.not_mem_nil) htables item hitem

/-- The words of the page are split into two columns, and these are the blocks of the columns. -/
structure InColumns (page : PdfPage) (pageNumber : ℕ) (left right : List OcrWord)
    (leftBlocks rightBlocks : List ParsedBlock) : Prop where
  words : ∃ words, ocrWords page.words = .ok words ∧
    columnGroups words page.width = [left, right]
  blocks_left : ocrWordsToBlocks left pageNumber (columnPrefix pageNumber 0) 0 = .ok leftBlocks
  blocks_right : ocrWordsToBlocks right pageNumber (columnPrefix pageNumber 1) leftBlocks.length =
    .ok rightBlocks

/-- The blocks of two columns are among the items of their page. -/
theorem exists_inColumns (hwords : ocrWords page.words = .ok words)
    (hgroups : columnGroups words page.width = [left, right])
    (h : pageItems page pageNumber = .ok (items, warnings)) :
    ∃ leftBlocks rightBlocks, InColumns page pageNumber left right leftBlocks rightBlocks ∧
      ∀ block ∈ leftBlocks ++ rightBlocks, block ∈ items := by
  obtain ⟨text, htext, h⟩ := bind_eq_ok.1 h
  obtain ⟨words', hwords', htext⟩ := bind_eq_ok.1 htext
  rw [hwords] at hwords'
  cases hwords'
  obtain ⟨tables, htables, h⟩ := bind_eq_ok.1 h
  rw [hgroups] at htext
  obtain ⟨leftBlocks, hleft, htext⟩ := exists_of_columnBlocks htext
  obtain ⟨rightBlocks, hright, htext⟩ := exists_of_columnBlocks htext
  cases htext
  simp only [List.nil_append, Nat.zero_add] at hright
  simp only [List.length_nil, Nat.zero_add] at hleft
  refine ⟨leftBlocks, rightBlocks, ⟨⟨words, hwords, hgroups⟩, hleft, hright⟩, ?_⟩
  intro block hblock
  rw [List.nil_append] at h
  have hne : (leftBlocks ++ rightBlocks) ++ tables ≠ [] :=
    List.ne_nil_of_mem (List.mem_append_left _ hblock)
  rw [if_neg hne] at h
  cases h
  exact List.mem_append_left _ hblock

/-! ## The items of a document -/

/-- The pages, the first of which has this number, with their items in order. -/
inductive Laid : ℕ → List PdfPage → List (List ParsedBlock) → Prop
  | nil (pageNumber : ℕ) : Laid pageNumber [] []
  | cons {pageNumber : ℕ} {page : PdfPage} {pages : List PdfPage} {items : List ParsedBlock}
      {warnings : List ParseWarning} {layouts : List (List ParsedBlock)} :
      pageItems page pageNumber = .ok (items, warnings) → Laid (pageNumber + 1) pages layouts →
      Laid pageNumber (page :: pages) (sortedBy itemKey items :: layouts)

/-- **The blocks are the items of the pages, numbered.** -/
theorem exists_laid {result : ParsedPayload}
    (h : parsePages pageNumber payload pages = .ok result) :
    ∃ layouts, Laid pageNumber pages layouts ∧ result.blocks =
      payload.blocks ++ (layouts.flatten.zipIdx payload.blocks.length).map numberItem := by
  induction pages generalizing pageNumber payload with
  | nil =>
    cases h
    exact ⟨[], Laid.nil _, by simp⟩
  | cons page pages ih =>
    obtain ⟨⟨items, warnings⟩, hitems, h⟩ := bind_eq_ok.1 h
    obtain ⟨layouts, hlaid, hblocks⟩ := ih h
    refine ⟨sortedBy itemKey items :: layouts, Laid.cons hitems hlaid, ?_⟩
    rw [hblocks, List.flatten_cons, List.zipIdx_append, List.map_append, List.append_assoc]
    simp [Nat.add_comm]

theorem parsePages_of_parseBytes {maxPages : ℕ}
    (h : parseBytes maxPages (some pages) = .ok payload) :
    parsePages 1 { blocks := [] } pages = .ok payload := by
  rw [parseBytes] at h
  split at h
  · cases h
  split at h
  · rename_i hparse
    cases h
    exact hparse
  · cases h
  · cases h

/-- The one item comes before the other: on an earlier page, or not below on the same page. -/
def Before (item other : ParsedBlock) : Prop :=
  ∀ p q, item.pageNumber = some p → other.pageNumber = some q →
    p < q ∨ p = q ∧ itemKey item ≤ itemKey other

theorem Laid.pageNumber_le (h : Laid pageNumber pages layouts) :
    ∀ item ∈ layouts.flatten, ∃ p, item.pageNumber = some p ∧ pageNumber ≤ p := by
  induction h with
  | nil => exact fun _ h => absurd h List.not_mem_nil
  | cons hitems _ ih =>
    intro item hitem
    rw [List.flatten_cons] at hitem
    rcases List.mem_append.1 hitem with hitem | hitem
    · exact ⟨_, pageNumber_of_pageItems hitems item ((mem_sortedBy _).1 hitem), le_rfl⟩
    · obtain ⟨p, hp, hle⟩ := ih item hitem
      exact ⟨p, hp, Nat.le_of_succ_le hle⟩

/-- **The items of a document are in order.** -/
theorem Laid.pairwise (h : Laid pageNumber pages layouts) : layouts.flatten.Pairwise Before := by
  induction h with
  | nil => exact List.Pairwise.nil
  | @cons pageNumber _ _ items _ layouts hitems hlaid ih =>
    rw [List.flatten_cons, List.pairwise_append]
    have hpage : ∀ item ∈ sortedBy itemKey items, item.pageNumber = some pageNumber :=
      fun item hitem => pageNumber_of_pageItems hitems item ((mem_sortedBy _).1 hitem)
    refine ⟨?_, ih, fun item hitem other hother p q hp hq => Or.inl ?_⟩
    · refine List.Pairwise.imp_of_mem (fun {item other} hitem hother hkey p q hp hq => ?_)
        (sortedBy_pairwise itemKey items)
      rw [hpage item hitem] at hp
      rw [hpage other hother] at hq
      exact Or.inr ⟨(Option.some.inj hp).symm.trans (Option.some.inj hq), hkey⟩
    · rw [hpage item hitem] at hp
      obtain ⟨p', hp', hle⟩ := hlaid.pageNumber_le other hother
      rw [hp'] at hq
      have hpn : pageNumber = p := Option.some.inj hp
      have hqn : p' = q := Option.some.inj hq
      omega

theorem Laid.exists_items (h : Laid pageNumber pages layouts) {k : ℕ}
    (hpage : pages[k]? = some page) :
    ∃ items warnings, pageItems page (pageNumber + k) = .ok (items, warnings) ∧
      ∀ item ∈ items, item ∈ layouts.flatten := by
  induction h generalizing k with
  | nil => cases hpage
  | @cons pageNumber first rest items warnings layouts hitems hlaid ih =>
    cases k with
    | zero =>
      cases hpage
      refine ⟨items, warnings, hitems, fun item hitem => ?_⟩
      exact List.mem_append_left _ ((mem_sortedBy _).2 hitem)
    | succ k =>
      obtain ⟨items', warnings', hitems', hmem⟩ := ih hpage
      refine ⟨items', warnings', ?_, fun item hitem => List.mem_append_right _ (hmem item hitem)⟩
      rw [← hitems']
      congr 1
      omega

/-! ## The order of the columns -/

/-- Blocks of the left column come before blocks of the right one. -/
def ColumnOrder (blocks leftBlocks rightBlocks : List ParsedBlock) : Prop :=
  ∀ (i j : ℕ) (block other : ParsedBlock), blocks[i]? = some block → blocks[j]? = some other →
    (∃ item ∈ leftBlocks, block.CopyOf item) → (∃ item ∈ rightBlocks, other.CopyOf item) → i < j

/-- No line of the right column begins higher than a line of the left one. -/
def LeftFirst (left right : List OcrWord) : Prop :=
  ∀ line ∈ textLines left, ∀ other ∈ textLines right, lineTop line ≤ lineTop other

/-- The blocks of the left column begin left of those of the right one. -/
theorem InColumns.x0_lt (h : InColumns page pageNumber left right leftBlocks rightBlocks)
    {other : ParsedBlock} (hblock : block ∈ leftBlocks) (hother : other ∈ rightBlocks) :
    ∃ line ∈ textLines left, ∃ line' ∈ textLines right, ∃ box box',
      block.boundingBox = some box ∧ other.boundingBox = some box' ∧ box.y0 = lineTop line ∧
        box'.y0 = lineTop line' ∧ box.x0 < box'.x0 := by
  obtain ⟨words, -, hgroups⟩ := h.words
  obtain ⟨divider, hleft, hright⟩ := column_sides hgroups
  obtain ⟨line, hline, hspec⟩ := exists_line_of_mem h.blocks_left hblock
  obtain ⟨line', hline', hspec'⟩ := exists_line_of_mem h.blocks_right hother
  obtain ⟨box, hbox, hx0, hy0⟩ := hspec.boundingBox
  obtain ⟨box', hbox', hx0', hy0'⟩ := hspec'.boundingBox
  obtain ⟨word, hword, hlow⟩ := exists_lineLeft (ne_nil_of_mem_textLines hline)
  obtain ⟨word', hword', hlow'⟩ := exists_lineLeft (ne_nil_of_mem_textLines hline')
  refine ⟨line, hline, line', hline', box, box', hbox, hbox', hy0, hy0', ?_⟩
  calc
    box.x0 = word.boundingBox.x0 := hx0.trans hlow
    _ < divider := hleft word (mem_of_mem_textLines hline hword)
    _ < word'.boundingBox.x0 := hright word' (mem_of_mem_textLines hline' hword')
    _ = box'.x0 := (hx0'.trans hlow').symm

theorem itemKey_lt {other : ParsedBlock} {box box' : BoundingBox}
    (hbox : item.boundingBox = some box) (hbox' : other.boundingBox = some box')
    (hy0 : box.y0 ≤ box'.y0) (hx0 : box.x0 < box'.x0) : itemKey item < itemKey other := by
  rw [itemKey, itemKey, hbox, hbox', Prod.Lex.toLex_lt_toLex]
  rcases hy0.lt_or_eq with hlt | heq
  · exact Or.inl hlt
  · exact Or.inr ⟨heq, Prod.Lex.toLex_lt_toLex.2 (Or.inl hx0)⟩

theorem y0_le_of_itemKey_le {other : ParsedBlock} {box box' : BoundingBox}
    (hbox : item.boundingBox = some box) (hbox' : other.boundingBox = some box')
    (h : itemKey item ≤ itemKey other) : box.y0 ≤ box'.y0 := by
  rw [itemKey, itemKey, hbox, hbox', Prod.Lex.toLex_le_toLex] at h
  exact h.elim le_of_lt fun h => h.1.le

/-- A block of the document is a copy of the item at its place. -/
theorem exists_item_of_getElem? {k : ℕ}
    (h : (items.zipIdx.map numberItem)[k]? = some block) :
    ∃ item, items[k]? = some item ∧ block.CopyOf item := by
  rw [List.getElem?_map, List.getElem?_zipIdx, Option.map_map] at h
  obtain ⟨item, hitem, rfl⟩ := Option.map_eq_some_iff.1 h
  exact ⟨item, hitem, ParsedBlock.copyOf_renumber item _ _⟩

theorem exists_getElem?_of_mem (h : item ∈ items) :
    ∃ (k : ℕ) (block : ParsedBlock), items[k]? = some item ∧
      (items.zipIdx.map numberItem)[k]? = some block ∧ block.CopyOf item := by
  obtain ⟨k, hk, rfl⟩ := List.getElem_of_mem h
  have hitem : items[k]? = some items[k] := List.getElem?_eq_getElem hk
  refine ⟨k, numberItem (items[k], k), hitem, ?_, ParsedBlock.copyOf_renumber _ _ _⟩
  rw [List.getElem?_map, List.getElem?_zipIdx, hitem, Option.map_some, Option.map_some,
    Nat.zero_add]

/-- Of two items of one page the earlier one does not begin lower. -/
theorem itemKey_le_of_pairwise {other : ParsedBlock} {i j : ℕ} (hitems : items.Pairwise Before)
    (hlt : i < j) (hitem : items[i]? = some item) (hother : items[j]? = some other)
    (hpage : item.pageNumber = some pageNumber) (hpage' : other.pageNumber = some pageNumber) :
    itemKey item ≤ itemKey other := by
  obtain ⟨hi, rfl⟩ := List.getElem?_eq_some_iff.1 hitem
  obtain ⟨hj, rfl⟩ := List.getElem?_eq_some_iff.1 hother
  have hbefore :=
    List.pairwise_iff_getElem.1 hitems i j hi hj hlt pageNumber pageNumber hpage hpage'
  rcases hbefore with hpages | ⟨-, hkey⟩
  · exact absurd hpages (lt_irrefl _)
  · exact hkey

/-- **The columns of a page are in order just when no line on the right begins higher.** -/
theorem InColumns.columnOrder_iff
    (h : InColumns page pageNumber left right leftBlocks rightBlocks)
    (hitems : items.Pairwise Before) (hmem : ∀ block ∈ leftBlocks ++ rightBlocks, block ∈ items) :
    ColumnOrder (items.zipIdx.map numberItem) leftBlocks rightBlocks ↔ LeftFirst left right := by
  constructor
  · intro horder line hline line' hline'
    obtain ⟨block, hblock, hspec⟩ := exists_block_of_mem h.blocks_left hline
    obtain ⟨other, hother, hspec'⟩ := exists_block_of_mem h.blocks_right hline'
    obtain ⟨box, hbox, -, hy0⟩ := hspec.boundingBox
    obtain ⟨box', hbox', -, hy0'⟩ := hspec'.boundingBox
    obtain ⟨i, placed, hi, hplaced, hcopy⟩ :=
      exists_getElem?_of_mem (hmem block (List.mem_append_left _ hblock))
    obtain ⟨j, placed', hj, hplaced', hcopy'⟩ :=
      exists_getElem?_of_mem (hmem other (List.mem_append_right _ hother))
    have hlt : i < j :=
      horder i j placed placed' hplaced hplaced' ⟨block, hblock, hcopy⟩ ⟨other, hother, hcopy'⟩
    have hkey := itemKey_le_of_pairwise hitems hlt hi hj hspec.pageNumber hspec'.pageNumber
    rw [← hy0, ← hy0']
    exact y0_le_of_itemKey_le hbox hbox' hkey
  · rintro hfirst i j placed placed' hplaced hplaced' ⟨block, hblock, hcopy⟩
      ⟨other, hother, hcopy'⟩
    obtain ⟨line, hline, line', hline', box, box', hbox, hbox', hy0, hy0', hx0⟩ :=
      h.x0_lt hblock hother
    obtain ⟨item, hitem, hplace⟩ := exists_item_of_getElem? hplaced
    obtain ⟨item', hitem', hplace'⟩ := exists_item_of_getElem? hplaced'
    have hitemBox : item.boundingBox = some box := by
      rw [← hplace.boundingBox, hcopy.boundingBox, hbox]
    have hitemBox' : item'.boundingBox = some box' := by
      rw [← hplace'.boundingBox, hcopy'.boundingBox, hbox']
    have hpage : item.pageNumber = some pageNumber := by
      obtain ⟨_, -, hspec⟩ := exists_line_of_mem h.blocks_left hblock
      rw [← hplace.pageNumber, hcopy.pageNumber, hspec.pageNumber]
    have hpage' : item'.pageNumber = some pageNumber := by
      obtain ⟨_, -, hspec⟩ := exists_line_of_mem h.blocks_right hother
      rw [← hplace'.pageNumber, hcopy'.pageNumber, hspec.pageNumber]
    have hkey : itemKey item < itemKey item' := by
      refine itemKey_lt hitemBox hitemBox' ?_ hx0
      rw [hy0, hy0']
      exact hfirst line hline line' hline'
    -- the other order would sort them the other way
    rcases lt_trichotomy i j with hlt | heq | hgt
    · exact hlt
    · subst heq
      rw [hitem] at hitem'
      cases hitem'
      exact absurd hkey (lt_irrefl _)
    · exact absurd (itemKey_le_of_pairwise hitems hgt hitem' hitem hpage' hpage) (not_le.2 hkey)

/-- **The columns of a document.**  A page that is split into two columns has the blocks of both
in the document, in order just when no line on the right begins higher. -/
theorem exists_columns {maxPages k : ℕ} (h : parseBytes maxPages (some pages) = .ok payload)
    (hpage : pages[k]? = some page) (hwords : ocrWords page.words = .ok words)
    (hgroups : columnGroups words page.width = [left, right]) :
    ∃ leftBlocks rightBlocks, InColumns page (k + 1) left right leftBlocks rightBlocks ∧
      (∀ item ∈ leftBlocks ++ rightBlocks, ∃ block ∈ payload.blocks, block.CopyOf item) ∧
      (ColumnOrder payload.blocks leftBlocks rightBlocks ↔ LeftFirst left right) := by
  obtain ⟨layouts, hlaid, hblocks⟩ := exists_laid (parsePages_of_parseBytes h)
  rw [List.nil_append] at hblocks
  obtain ⟨items, warnings, hitems, hmem⟩ := hlaid.exists_items hpage
  rw [Nat.add_comm] at hitems
  obtain ⟨leftBlocks, rightBlocks, hcolumns, hin⟩ := exists_inColumns hwords hgroups hitems
  have hlayout : ∀ block ∈ leftBlocks ++ rightBlocks, block ∈ layouts.flatten :=
    fun block hblock => hmem block (hin block hblock)
  refine ⟨leftBlocks, rightBlocks, hcolumns, fun item hitem => ?_, ?_⟩
  · obtain ⟨i, block, -, hplaced, hcopy⟩ := exists_getElem?_of_mem (hlayout item hitem)
    rw [hblocks]
    exact ⟨block, List.mem_of_getElem? hplaced, hcopy⟩
  · rw [hblocks]
    exact hcolumns.columnOrder_iff hlaid.pairwise hlayout

/-- **Reading order of a PDF document.**  Column grouping puts every word in one group.  Of a page
that is split into two columns, the blocks of the left column come before those of the right one
in the document just when no line on the right begins higher than a line on the left. -/
theorem reading_order (maxPages : ℕ) (pages : List PdfPage) (payload : ParsedPayload)
    (h : parseBytes maxPages (some pages) = .ok payload) :
    (∀ words pageWidth, (columnGroups words pageWidth).flatten.Perm words) ∧
    ∀ (k : ℕ) (page : PdfPage) (words left right : List OcrWord), pages[k]? = some page →
      ocrWords page.words = .ok words → columnGroups words page.width = [left, right] →
      ∃ leftBlocks rightBlocks, InColumns page (k + 1) left right leftBlocks rightBlocks ∧
        (∀ item ∈ leftBlocks ++ rightBlocks, ∃ block ∈ payload.blocks, block.CopyOf item) ∧
        (ColumnOrder payload.blocks leftBlocks rightBlocks ↔ LeftFirst left right) := by
  refine ⟨columnGroups_perm, ?_⟩
  intro k page words left right hpage hwords hgroups
  exact exists_columns h hpage hwords hgroups

/-! ## The tables of a document -/

/-- The table has a text, a width and a height. -/
def isKept (table : PdfTable) : Bool :=
  ¬ (tableRows table = [] ∨ table.x1 ≤ table.x0 ∨ table.bottom ≤ table.top)

/-- The rows of the tables that are kept. -/
def keptTables (tables : List PdfTable) : List Rows := (tables.filter isKept).map tableRows

def pageTables (page : PdfPage) : List Rows := keptTables page.tables

theorem haveTables_of_tableBlocks {tables : List PdfTable}
    (h : tableBlocks pageNumber startOrder blocks tables = .ok items) :
    ∃ added, items = blocks ++ added ∧ HaveTables (keptTables tables) added := by
  induction tables generalizing blocks with
  | nil =>
    cases h
    exact ⟨[], (List.append_nil _).symm, HaveTables.nil⟩
  | cons table tables ih =>
    rw [tableBlocks] at h
    split at h
    · rename_i hskip
      have hnot : ¬ isKept table = true := fun hkeep => of_decide_eq_true (p := ¬ _) hkeep hskip
      rw [keptTables, List.filter_cons_of_neg hnot]
      exact ih h
    · rename_i hkeep
      obtain ⟨box, -, h⟩ := bind_eq_ok.1 h
      obtain ⟨block, hblock, h⟩ := bind_eq_ok.1 h
      obtain ⟨added, rfl, htables⟩ := ih h
      refine ⟨block :: added, by rw [List.append_assoc, List.singleton_append], ?_⟩
      have hkept : isKept table = true := decide_eq_true hkeep
      rw [keptTables, List.filter_cons_of_pos hkept, List.map_cons]
      exact (HaveTables.singleton (isTableBlock_of_tableBlock hblock)).append htables

theorem kind_of_columnBlocks {groups : List (List OcrWord)}
    (hblocks : ∀ block ∈ blocks, block.kind ≠ .table)
    (h : columnBlocks pageNumber startOrder blocks columnIndex groups = .ok items) :
    ∀ item ∈ items, item.kind ≠ .table := by
  induction groups generalizing blocks columnIndex with
  | nil =>
    cases h
    exact hblocks
  | cons group groups ih =>
    obtain ⟨added, hadded, h⟩ := exists_of_columnBlocks h
    refine ih (fun block hmem => ?_) h
    rcases List.mem_append.1 hmem with hmem | hmem
    · exact hblocks block hmem
    · obtain ⟨line, -, hline⟩ := exists_line_of_mem hadded hmem
      rw [hline.kind]
      exact nofun

/-- The items of a page have its tables. -/
theorem haveTables_of_pageItems (h : pageItems page pageNumber = .ok (items, warnings)) :
    HaveTables (pageTables page) items := by
  obtain ⟨text, htext, h⟩ := bind_eq_ok.1 h
  obtain ⟨words, -, htext⟩ := bind_eq_ok.1 htext
  obtain ⟨tables, htables, h⟩ := bind_eq_ok.1 h
  obtain ⟨added, rfl, hadded⟩ := haveTables_of_tableBlocks htables
  split at h
  · rename_i hnone
    obtain ⟨words, -, h⟩ := bind_eq_ok.1 h
    obtain ⟨scanned, hscanned, h⟩ := bind_eq_ok.1 h
    obtain ⟨warning, -, h⟩ := bind_eq_ok.1 h
    cases h
    have hnil : pageTables page = [] := by
      refine List.eq_nil_iff_forall_not_mem.2 fun rows hrows => ?_
      obtain ⟨block, hblock, -⟩ := hadded.emitted rows hrows
      rw [(List.append_eq_nil_iff.1 hnone).2] at hblock
      exact List.not_mem_nil hblock
    rw [hnil]
    refine HaveTables.of_forall_kind fun block hblock => ?_
    obtain ⟨line, -, hline⟩ := exists_line_of_mem hscanned hblock
    rw [hline.kind]
    exact nofun
  · cases h
    refine (HaveTables.of_forall_kind ?_).append hadded
    exact kind_of_columnBlocks (fun _ h => absurd h List.not_mem_nil) htext

theorem Laid.haveTables (h : Laid pageNumber pages layouts) :
    HaveTables (pages.flatMap pageTables) layouts.flatten := by
  induction h with
  | nil => exact HaveTables.nil
  | cons hitems _ ih =>
    rw [List.flatMap_cons, List.flatten_cons]
    refine ((haveTables_of_pageItems hitems).copies (fun item hitem => ?_)
      fun item hitem => ?_).append ih
    · exact ⟨item, (mem_sortedBy _).2 hitem, item.copyOf_self⟩
    · exact ⟨item, (mem_sortedBy _).1 hitem, item.copyOf_self⟩

/-- **The blocks of a document have its tables.** -/
theorem haveTables_of_parseBytes {maxPages : ℕ}
    (h : parseBytes maxPages (some pages) = .ok payload) :
    HaveTables (pages.flatMap pageTables) payload.blocks := by
  obtain ⟨layouts, hlaid, hblocks⟩ := exists_laid (parsePages_of_parseBytes h)
  rw [List.nil_append] at hblocks
  rw [hblocks]
  refine hlaid.haveTables.copies (fun item hitem => ?_) fun copy hcopy => ?_
  · obtain ⟨k, block, -, hplaced, hcopy⟩ := exists_getElem?_of_mem hitem
    exact ⟨block, List.mem_of_getElem? hplaced, hcopy⟩
  · obtain ⟨k, hk⟩ := List.mem_iff_getElem?.1 hcopy
    obtain ⟨item, hitem, hsame⟩ := exists_item_of_getElem? hk
    exact ⟨item, List.mem_of_getElem? hitem, hsame⟩

/-- A word at this place. -/
def wordAt (text : String) (x0 top : ℚ) : PdfWord where
  text := text.toList
  x0 := x0
  top := top
  x1 := x0 + 50
  bottom := top + 10

/-- A page with these words and nothing else. -/
def pageOf (words : List PdfWord) : PdfPage where
  width := 600
  words := words
  tables := []
  recognize := .ok []

/-- Two columns of one line. -/
def oneLine : PdfPage := pageOf [wordAt "left" 50 100, wordAt "right" 300 100]

/-- Two columns of two lines. -/
def twoLines : PdfPage :=
  pageOf [wordAt "first" 50 100, wordAt "second" 50 120, wordAt "third" 300 100,
    wordAt "fourth" 300 120]

/-- The words of a page. -/
def wordsOf (page : PdfPage) : List OcrWord := (ocrWords page.words).toOption.getD []

/-- A column of a page. -/
def columnOf (page : PdfPage) (columnIndex : ℕ) : List OcrWord :=
  (columnGroups (wordsOf page) page.width).getD columnIndex []

theorem ocrWords_eq (h : (ocrWords page.words).isOk = true) :
    ocrWords page.words = .ok (wordsOf page) := by
  rw [wordsOf]
  cases hwords : ocrWords page.words with
  | ok words => rfl
  | error e =>
    rw [hwords] at h
    cases h

theorem exists_parseBytes {maxPages : ℕ} {document : Option (List PdfPage)}
    (h : (parseBytes maxPages document).isOk = true) :
    ∃ payload, parseBytes maxPages document = .ok payload := by
  cases hpayload : parseBytes maxPages document with
  | ok payload => exact ⟨payload, rfl⟩
  | error e =>
    rw [hpayload] at h
    cases h

theorem reading_order_oneLine :
    ∃ payload, parseBytes 1 (some [oneLine]) = .ok payload ∧ ∃ leftBlocks rightBlocks,
      InColumns oneLine 1 (columnOf oneLine 0) (columnOf oneLine 1) leftBlocks rightBlocks ∧
        ColumnOrder payload.blocks leftBlocks rightBlocks := by
  obtain ⟨payload, hpayload⟩ : ∃ payload, parseBytes 1 (some [oneLine]) = .ok payload :=
    exists_parseBytes (by decide +kernel)
  have hwords : ocrWords oneLine.words = .ok (wordsOf oneLine) := ocrWords_eq (by decide +kernel)
  have hgroups : columnGroups (wordsOf oneLine) oneLine.width =
      [columnOf oneLine 0, columnOf oneLine 1] := by decide +kernel
  have hfirst : LeftFirst (columnOf oneLine 0) (columnOf oneLine 1) := by
    unfold LeftFirst
    decide +kernel
  obtain ⟨leftBlocks, rightBlocks, hcolumns, -, hiff⟩ := (reading_order 1 [oneLine]
    payload hpayload).2 0 oneLine (wordsOf oneLine) (columnOf oneLine 0) (columnOf oneLine 1) rfl
    hwords hgroups
  exact ⟨payload, hpayload, leftBlocks, rightBlocks, hcolumns, hiff.2 hfirst⟩

/-- The second line on the left comes after the first line on the right. -/
theorem not_reading_order :
    ¬ ((∀ words pageWidth, (columnGroups words pageWidth).flatten.Perm words) ∧
      ∀ maxPages pages payload, parseBytes maxPages (some pages) = .ok payload →
        ∀ (k : ℕ) (page : PdfPage) (left right : List OcrWord)
          (leftBlocks rightBlocks : List ParsedBlock), pages[k]? = some page →
          InColumns page (k + 1) left right leftBlocks rightBlocks →
          ColumnOrder payload.blocks leftBlocks rightBlocks) := by
  rintro ⟨-, hall⟩
  obtain ⟨payload, hpayload⟩ : ∃ payload, parseBytes 1 (some [twoLines]) = .ok payload :=
    exists_parseBytes (by decide +kernel)
  have hwords : ocrWords twoLines.words = .ok (wordsOf twoLines) :=
    ocrWords_eq (by decide +kernel)
  have hgroups : columnGroups (wordsOf twoLines) twoLines.width =
      [columnOf twoLines 0, columnOf twoLines 1] := by decide +kernel
  have hnot : ¬ LeftFirst (columnOf twoLines 0) (columnOf twoLines 1) := by
    unfold LeftFirst
    decide +kernel
  obtain ⟨leftBlocks, rightBlocks, hcolumns, -, hiff⟩ :=
    exists_columns hpayload (k := 0) rfl hwords hgroups
  exact hnot (hiff.1 (hall 1 [twoLines] payload hpayload 0 twoLines _ _ _ _ rfl hcolumns))

end PdfBinaryParser

end Parsing
end Knowledge
end RagflowAgent
