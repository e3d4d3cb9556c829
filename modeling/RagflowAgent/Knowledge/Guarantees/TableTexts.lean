import RagflowAgent.Knowledge.Chunking.Strategies
import RagflowAgent.Knowledge.Parsing.Docx
import RagflowAgent.Knowledge.Parsing.Html
import RagflowAgent.Knowledge.Parsing.Markdown
import RagflowAgent.Knowledge.Parsing.Pdf
import RagflowAgent.Knowledge.Parsing.Xlsx

/-!
# The rows that the chunkers see

Five parsers write the rows of a table into the text of its block, and the chunkers for tables and
for questions read them off it again.

* `TableSource` are the documents with tables, `TableSource.parse` parses one, and
  `TableSource.tables` are the rows of its tables that the parser keeps;
* `qaRows_eq` and `tableGroups_eq`: the chunkers see the text only through the rows that they read;
* `table_texts`: these are the kept rows if and only if no cell has a tab or a line break and no
  row is blank.
-/

namespace RagflowAgent
namespace Knowledge
namespace Parsing

open Chunking (Group)
open Text (splitLines)

/-- A document that may have tables. -/
inductive TableSource where
  | xlsx (limits : XlsxLimits) (worksheets : List Worksheet)
  | html (objectKey : NonEmptyStr) (document : HtmlDocument)
  | docx (objectKey : NonEmptyStr) (items : List DocxItem)
  | pdf (maxPages : ℕ) (pages : List PdfPage)
  | markdown (forest : Forest Container Leaf)

namespace TableSource

def parse : TableSource → Except Error ParsedPayload
  | xlsx limits worksheets => XlsxBinaryParser.parseBytes limits (some worksheets)
  | html objectKey document => HtmlBinaryParser.parseBytes objectKey document
  | docx objectKey items => DocxBinaryParser.parseBytes objectKey (some items)
  | pdf maxPages pages => PdfBinaryParser.parseBytes maxPages (some pages)
  | markdown forest => MarkdownBinaryParser.parseBytes (some (MarkdownBinaryParser.stream forest))

/-- The kept rows of every table. -/
def tables : TableSource → List Rows
  | xlsx _ worksheets => XlsxBinaryParser.tables worksheets
  | html _ document => HtmlBinaryParser.tables document
  | docx _ items => items.flatMap DocxBinaryParser.tablesOf
  | pdf _ pages => pages.flatMap PdfBinaryParser.pageTables
  | markdown forest => forest.leaves.flatMap MarkdownBinaryParser.tablesOf

variable {source : TableSource} {payload : ParsedPayload}

/-- **The blocks of a document have its tables**, one case for every format. -/
theorem haveTables (h : source.parse = .ok payload) : HaveTables source.tables payload.blocks := by
  cases source with
  | xlsx limits worksheets => exact XlsxBinaryParser.haveTables_of_parseWorkbook h
  | html objectKey document =>
    obtain ⟨payload', hparse, -, htables⟩ :=
      HtmlBinaryParser.exists_parseBytes_html objectKey document
    obtain rfl : payload' = payload := Except.ok.inj (hparse.symm.trans h)
    exact htables
  | docx objectKey items =>
    obtain ⟨added, hadded, htables⟩ := DocxBinaryParser.haveTables_of_parseItems h
    rw [hadded]
    exact htables
  | pdf maxPages pages => exact PdfBinaryParser.haveTables_of_parseBytes h
  | markdown forest =>
    have hreadable := MarkdownBinaryParser.readable_of_parseBytes h
    obtain ⟨payload', hparse, -, htables⟩ :=
      MarkdownBinaryParser.exists_parseBytes_markdown forest hreadable
    obtain rfl : payload' = payload := Except.ok.inj (hparse.symm.trans h)
    exact htables

end TableSource

/-! ## What the chunkers see -/

/-- The groups that `_qa` makes of these rows. -/
def qaGroups (U : Chunking.Unicode) (block : Chunking.ParsedBlock) (rows : Rows) : List Group :=
  (if 1 < rows.length then rows.drop 1 else rows).filterMap fun
    | question :: answer :: _ =>
      if U.alphabet.strip question ≠ [] ∧ U.alphabet.strip answer ≠ [] then
        some { blocks := [block]
               content := Chunking.ScenarioChunker.questionAnswer U question answer }
      else none
    | _ => none

/-- The groups that `_table` makes of these rows. -/
def lineGroups (block : Chunking.ParsedBlock) (rows : Rows) : List Group :=
  match rows.map ['\t'].intercalate with
  | [] => []
  | [header] => [{ blocks := [block], content := header }]
  | header :: dataRows => dataRows.map fun row =>
    { blocks := [block], content := header ++ '\n' :: row }

theorem qaRows_eq (U : Chunking.Unicode) (block : Chunking.ParsedBlock) :
    Chunking.ScenarioChunker.qaRows U block = qaGroups U block (qaRows block.text) := rfl

theorem tableGroups_eq (U : Chunking.Unicode) {block : Chunking.ParsedBlock}
    (h : block.kind = .table) :
    Chunking.ScenarioChunker.tableGroups U block = lineGroups block (lineRows block.text) := by
  have hlines : (lineRows block.text).map ['\t'].intercalate =
      (splitLines block.text).filter fun row => U.alphabet.strip row ≠ [] := by
    rw [lineRows, List.map_map]
    conv_rhs => rw [← List.map_id ((splitLines block.text).filter _)]
    exact List.map_congr_left fun row _ => List.intercalate_splitOn '\t'
  rw [lineGroups, hlines, Chunking.ScenarioChunker.tableGroups]
  refine (if_neg (not_not.2 h)).trans ?_
  cases (splitLines block.text).filter fun row => U.alphabet.strip row ≠ [] with
  | nil => rfl
  | cons header dataRows => cases dataRows <;> rfl

/-- The chunkers make of the block what they make of these rows. -/
def ChunkedAs (block : Chunking.ParsedBlock) (rows : Rows) : Prop :=
  ∀ U, Chunking.ScenarioChunker.qaRows U block = qaGroups U block rows ∧
    Chunking.ScenarioChunker.tableGroups U block = lineGroups block rows

/-- **The text of a table decodes to its rows** just when no cell has a tab or a line break and no
row is blank.  The tables of a document are those with the kept rows, and where the text decodes
to them, the chunkers see them. -/
theorem table_texts (source : TableSource) (payload : ParsedPayload)
    (h : source.parse = .ok payload) :
    HaveTables source.tables payload.blocks ∧
      ∀ rows ∈ source.tables, ∀ block ∈ payload.blocks, IsTableBlock rows block →
        (ReadAs block.text rows ↔ Decodable rows) ∧
          (ReadAs block.text rows → ChunkedAs block.toParsedBlock rows) := by
  refine ⟨TableSource.haveTables h, fun rows _ block _ hblock => ⟨?_, fun hread U => ⟨?_, ?_⟩⟩⟩
  · rw [hblock.text]
    exact readAs_iff
  · rw [qaRows_eq, hread.qa]
  · rw [tableGroups_eq U hblock.kind, hread.table]

/-- A sheet with these texts in its cells. -/
def sheetOf (rows : List (List String)) : Worksheet where
  title := "Sheet"
  maxRow := rows.length
  rows := rows.map fun row => row.map fun text => { value := .other text.toList }

def workbookOf (rows : List (List String)) : TableSource :=
  .xlsx { maxSheets := 8, maxRowsPerSheet := 100, maxNonemptyCells := 100 } [sheetOf rows]

theorem table_texts_workbook :
    ∃ payload, (workbookOf [["Question", "Answer"], ["Why?", "Because."]]).parse = .ok payload ∧
      ∃ block ∈ payload.blocks, ReadAs block.text
        [["Question".toList, "Answer".toList], ["Why?".toList, "Because.".toList]] := by
  let rows : Rows := [["Question".toList, "Answer".toList], ["Why?".toList, "Because.".toList]]
  obtain ⟨payload, hparse⟩ : ∃ payload,
      (workbookOf [["Question", "Answer"], ["Why?", "Because."]]).parse = .ok payload :=
    exists_eq_ok_of_isOk (by decide +kernel)
  have hrows : rows ∈ (workbookOf [["Question", "Answer"], ["Why?", "Because."]]).tables := by
    decide +kernel
  have hdecodable : Decodable rows := by decide +kernel
  obtain ⟨htables, htexts⟩ := table_texts _ payload hparse
  obtain ⟨block, hblock, htable⟩ := htables.emitted rows hrows
  exact ⟨payload, hparse, block, hblock, (htexts rows hrows block hblock htable).1.2 hdecodable⟩

/-- A cell with two lines makes a row too many. -/
theorem not_table_texts :
    ¬ ∀ (source : TableSource) (payload : ParsedPayload), source.parse = .ok payload →
      ∀ rows ∈ source.tables, ∀ block ∈ payload.blocks, IsTableBlock rows block →
        ReadAs block.text rows := by
  intro hall
  let rows : Rows := [["Question".toList, "Answer".toList], ["Why?".toList, "One.\nTwo.".toList]]
  obtain ⟨payload, hparse⟩ : ∃ payload,
      (workbookOf [["Question", "Answer"], ["Why?", "One.\nTwo."]]).parse = .ok payload :=
    exists_eq_ok_of_isOk (by decide +kernel)
  have hrows : rows ∈ (workbookOf [["Question", "Answer"], ["Why?", "One.\nTwo."]]).tables := by
    decide +kernel
  have hnot : ¬ Decodable rows := by decide +kernel
  obtain ⟨block, hblock, htable⟩ := (TableSource.haveTables hparse).emitted rows hrows
  have hread := hall _ payload hparse rows hrows block hblock htable
  rw [htable.text] at hread
  exact hnot (readAs_iff.1 hread)

end Parsing
end Knowledge
end RagflowAgent
