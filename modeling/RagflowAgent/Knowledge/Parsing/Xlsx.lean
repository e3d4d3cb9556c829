import RagflowAgent.Knowledge.Parsing.Tables

/-!
# The parser of XLSX workbooks

Every worksheet with some text becomes one table.  The cells at the end of a row that are empty
are cut off, and a row without a text is left out.

* `readRows` is the loop over the rows of a sheet, which counts the cells of the whole workbook,
  and `readRows_rows` says which rows it keeps;
* `haveTables_of_parseWorkbook`: the blocks have the tables of the worksheets.
-/

namespace RagflowAgent
namespace Knowledge
namespace Parsing

/-! ## The source -/

/-- The value of a cell, with the text that `isoformat()` or `str()` makes of it. -/
inductive CellValue where
  | none
  | moment (isoformat : List Char)
  | bool (value : Bool)
  | other (text : List Char)
  deriving DecidableEq

/-- A cell, whose data type may be that of a formula. -/
structure Cell where
  value : CellValue
  isFormula : Bool := false

structure Worksheet where
  title : String
  maxRow : ℕ
  rows : List (List Cell)
  mergedRanges : ℕ := 0

structure XlsxLimits where
  maxSheets : ℕ
  maxRowsPerSheet : ℕ
  maxNonemptyCells : ℕ

namespace XlsxBinaryParser

/-- `_render`. -/
def render : CellValue → List Char
  | .none => []
  | .moment isoformat => isoformat
  | .bool value => if value then "true".toList else "false".toList
  | .other text => strip text

/-- What has been counted so far. -/
structure Counts where
  nonemptyCells : ℕ := 0
  formulaCount : ℕ := 0

/-- What has been counted after a cell. -/
def Counts.next (counts : Counts) (cell : Cell) : Counts where
  nonemptyCells := counts.nonemptyCells + if cell.value ≠ .none then 1 else 0
  formulaCount := counts.formulaCount + if cell.isFormula then 1 else 0

/-- The cells of a row from here on. -/
def readRow (maxNonemptyCells : ℕ) (counts : Counts) (row : List (List Char)) :
    List Cell → Except Error (Counts × List (List Char))
  | [] => .ok (counts, row)
  | cell :: cells =>
    if cell.value ≠ .none ∧ maxNonemptyCells < (counts.next cell).nonemptyCells then
      .error (.conflict "XLSX workbook exceeds the non-empty cell limit" "parser_resource_limit")
    else readRow maxNonemptyCells (counts.next cell) (row ++ [render cell.value]) cells

/-- `while row and not row[-1]: row.pop()`. -/
def trimRow (row : List (List Char)) : List (List Char) :=
  (row.reverse.dropWhile fun cell => cell = []).reverse

/-- The rows of a sheet from here on. -/
def readRows (maxNonemptyCells : ℕ) (counts : Counts) (rows : Rows) :
    List (List Cell) → Except Error (Counts × Rows)
  | [] => .ok (counts, rows)
  | cells :: rest => do
    let (counts, row) ← readRow maxNonemptyCells counts [] cells
    readRows maxNonemptyCells counts (rows ++ keepRows [trimRow row]) rest

/-- The warnings about a sheet with a table. -/
def sheetWarnings (sheet : Worksheet) (formulaCount : ℕ) : Except Error (List ParseWarning) := do
  let formulas ←
    if formulaCount = 0 then pure []
    else do
      let warning ← ParseWarning.make "xlsx_formula_preserved_not_evaluated"
        (toString formulaCount ++ " formula cells in " ++ sheet.title ++
          " were preserved as text")
      pure [warning]
  let merged ←
    if sheet.mergedRanges = 0 then pure []
    else do
      let warning ← ParseWarning.make "xlsx_merged_cells_present"
        (toString sheet.mergedRanges ++ " merged ranges are present in " ++ sheet.title)
      pure [warning]
  return formulas ++ merged

/-- The worksheets from here on. -/
def parseSheets (limits : XlsxLimits) (nonemptyCells : ℕ) (payload : ParsedPayload) :
    List Worksheet → Except Error ParsedPayload
  | [] => .ok payload
  | sheet :: sheets =>
    if limits.maxRowsPerSheet < sheet.maxRow then
      .error (.conflict "XLSX worksheet exceeds the row limit" "parser_resource_limit")
    else do
      let (counts, rows) ← readRows limits.maxNonemptyCells { nonemptyCells } [] sheet.rows
      if rows = [] then parseSheets limits counts.nonemptyCells payload sheets
      else do
        let block ← tableBlock (nextId "xlsx_" payload.blocks) payload.blocks.length rows true
          [sheet.title]
        let warnings ← sheetWarnings sheet counts.formulaCount
        parseSheets limits counts.nonemptyCells
          { blocks := payload.blocks ++ [block], warnings := payload.warnings ++ warnings } sheets

/-- `_parse_workbook`. -/
def parseWorkbook (limits : XlsxLimits) (worksheets : List Worksheet) :
    Except Error ParsedPayload :=
  if limits.maxSheets < worksheets.length then
    .error (.conflict "XLSX workbook has too many sheets" "parser_resource_limit")
  else parseSheets limits 0 { blocks := [] } worksheets

/-- The package is `none` when the library cannot open it. -/
def parseBytes (limits : XlsxLimits) (workbook : Option (List Worksheet)) :
    Except Error ParsedPayload :=
  match workbook with
  | none => .error (.conflict "XLSX workbook is invalid" "parser_xlsx_invalid")
  | some worksheets => parseWorkbook limits worksheets

/-! ## The tables of a workbook -/

/-- The rows of a sheet that have a text. -/
def sheetRows (sheet : Worksheet) : Rows :=
  keepRows (sheet.rows.map fun cells => trimRow (cells.map fun cell => render cell.value))

/-- The rows of the worksheets that have a text. -/
def tables (worksheets : List Worksheet) : List Rows :=
  (worksheets.map sheetRows).filter fun rows => rows ≠ []

variable {maxNonemptyCells nonemptyCells : ℕ} {counts counts' : Counts}
  {row row' : List (List Char)} {rows rows' : Rows} {limits : XlsxLimits}
  {payload result : ParsedPayload} {worksheets : List Worksheet}

theorem readRow_row {cells : List Cell}
    (h : readRow maxNonemptyCells counts row cells = .ok (counts', row')) :
    row' = row ++ cells.map fun cell => render cell.value := by
  induction cells generalizing counts row with
  | nil =>
    cases h
    rw [List.map_nil, List.append_nil]
  | cons cell cells ih =>
    rw [readRow] at h
    split at h
    · cases h
    · rw [ih h, List.append_assoc, List.map_cons, List.singleton_append]

/-- **Which rows of a sheet are kept.** -/
theorem readRows_rows {source : List (List Cell)}
    (h : readRows maxNonemptyCells counts rows source = .ok (counts', rows')) :
    rows' = rows ++ keepRows
      (source.map fun cells => trimRow (cells.map fun cell => render cell.value)) := by
  induction source generalizing counts rows with
  | nil =>
    cases h
    exact (List.append_nil _).symm
  | cons cells source ih =>
    obtain ⟨⟨counts'', row⟩, hrow, h⟩ := bind_eq_ok.1 h
    have hcells := readRow_row hrow
    rw [List.nil_append] at hcells
    rw [ih h, hcells, List.append_assoc, keepRows, keepRows, keepRows, ← List.filter_append,
      List.map_cons, List.singleton_append]

theorem haveTables_of_parseSheets
    (h : parseSheets limits nonemptyCells payload worksheets = .ok result) :
    ∃ added, result.blocks = payload.blocks ++ added ∧ HaveTables (tables worksheets) added := by
  induction worksheets generalizing nonemptyCells payload with
  | nil =>
    cases h
    exact ⟨[], (List.append_nil _).symm, HaveTables.nil⟩
  | cons sheet sheets ih =>
    rw [parseSheets] at h
    split at h
    · cases h
    obtain ⟨⟨counts, rows⟩, hread, h⟩ := bind_eq_ok.1 h
    have hrows : rows = sheetRows sheet := (readRows_rows hread).trans (List.nil_append _)
    dsimp only at h
    split at h
    · rename_i hnone
      rw [hrows] at hnone
      have htables : tables (sheet :: sheets) = tables sheets := by
        rw [tables, List.map_cons, List.filter_cons_of_neg (by simpa using hnone), tables]
      rw [htables]
      exact ih h
    · rename_i hsome
      rw [hrows] at hsome
      obtain ⟨block, hblock, h⟩ := bind_eq_ok.1 h
      obtain ⟨warnings, -, h⟩ := bind_eq_ok.1 h
      obtain ⟨added, hadded, htables⟩ := ih h
      have hcons : tables (sheet :: sheets) = [sheetRows sheet] ++ tables sheets := by
        rw [tables, List.map_cons, List.filter_cons_of_pos (by simpa using hsome), tables,
          List.singleton_append]
      refine ⟨block :: added, ?_, ?_⟩
      · rw [hadded, List.append_assoc, List.singleton_append]
      · rw [hcons, ← hrows]
        exact (HaveTables.singleton (isTableBlock_of_tableBlock hblock)).append htables

/-- **The blocks of a workbook have the tables of its worksheets.** -/
theorem haveTables_of_parseWorkbook (h : parseWorkbook limits worksheets = .ok payload) :
    HaveTables (tables worksheets) payload.blocks := by
  rw [parseWorkbook] at h
  split at h
  · cases h
  obtain ⟨added, hadded, htables⟩ := haveTables_of_parseSheets h
  rw [hadded]
  exact htables

end XlsxBinaryParser

end Parsing
end Knowledge
end RagflowAgent
