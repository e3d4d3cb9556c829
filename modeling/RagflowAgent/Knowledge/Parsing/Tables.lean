import RagflowAgent.Knowledge.Parsing.Blocks

/-!
# The text of a table

A table is emitted with one line for every row, and tabs between the cells of a row; the chunkers
read the rows off these lines again.
-/

namespace RagflowAgent
namespace Knowledge
namespace Parsing

open Chunking (BoundingBox)
open Text (splitLines lineBreaks splitLines_intercalate not_mem_lineBreaks_of_mem_splitLines)

/-- The cells of the rows. -/
abbrev Rows := List (List (List Char))

/-- `"\n".join("\t".join(row) for row in rows)`. -/
def tableText (rows : Rows) : List Char := ['\n'].intercalate (rows.map ['\t'].intercalate)

/-- `[row for row in rows if any(row)]`. -/
def keepRows (rows : Rows) : Rows := rows.filter fun row => row.any fun cell => cell ≠ []

/-- The block of a table with these rows, which every parser builds in the same way. -/
def tableBlock (id : String) (order : ℕ) (rows : Rows) (hasHeader : Bool)
    (headingPath : List String := []) (pageNumber : Option ℕ := none)
    (boundingBox : Option BoundingBox := none) : Except Error ParsedBlock := do
  let table ← TableMetadata.make rows.length ((rows.map List.length).max?.getD 0) hasHeader
  ParsedBlock.make
    { id
      kind := .table
      order
      text := tableText rows
      pageNumber
      boundingBox
      headingPath
      table := some table }

/-! ## What a table has -/

variable {rows : Rows} {row : List (List Char)} {cell : List Char}

/-- A joined text has its parts. -/
theorem infix_intercalate {α : Type} {separator part : List α} {parts : List (List α)}
    (h : part ∈ parts) : part <:+: separator.intercalate parts := by
  induction parts with
  | nil => exact absurd h List.not_mem_nil
  | cons first parts ih =>
    cases parts with
    | nil =>
      rw [List.mem_singleton.1 h]
      exact ⟨[], [], by simp⟩
    | cons second parts =>
      rw [List.intercalate_cons_cons]
      rcases List.mem_cons.1 h with rfl | h
      · exact ⟨[], separator ++ separator.intercalate (second :: parts), by simp⟩
      · exact (ih h).trans (List.suffix_append _ _).isInfix

theorem mem_intercalate {separator : List Char} {parts : List (List Char)} {c : Char}
    (h : c ∈ separator.intercalate parts) : c ∈ separator ∨ ∃ part ∈ parts, c ∈ part := by
  induction parts with
  | nil => exact absurd h List.not_mem_nil
  | cons first parts ih =>
    cases parts with
    | nil =>
      rw [List.intercalate_singleton] at h
      exact Or.inr ⟨first, List.mem_cons_self, h⟩
    | cons second parts =>
      rw [List.intercalate_cons_cons] at h
      rcases List.mem_append.1 h with h | h
      · rcases List.mem_append.1 h with h | h
        · exact Or.inr ⟨first, List.mem_cons_self, h⟩
        · exact Or.inl h
      · rcases ih h with h | ⟨part, hpart, h⟩
        · exact Or.inl h
        · exact Or.inr ⟨part, List.mem_cons_of_mem _ hpart, h⟩

/-- The text of a table has its cells. -/
theorem infix_tableText (hrow : row ∈ rows) (hcell : cell ∈ row) : cell <:+: tableText rows :=
  (infix_intercalate hcell).trans (infix_intercalate (List.mem_map_of_mem hrow))

/-- A table with a text has rows and columns. -/
theorem exists_metadata (hrow : row ∈ rows) (hcell : cell ∈ row) (hasHeader : Bool) :
    ∃ table, TableMetadata.make rows.length ((rows.map List.length).max?.getD 0) hasHeader =
      .ok table := by
  have hrows : 1 ≤ rows.length := List.length_pos_of_mem hrow
  have hcolumns : 1 ≤ (rows.map List.length).max?.getD 0 := by
    have hne : rows.map List.length ≠ [] := List.ne_nil_of_mem (List.mem_map_of_mem hrow)
    obtain ⟨columns, hmax⟩ := Option.ne_none_iff_exists'.1 (mt List.max?_eq_none_iff.1 hne)
    have hle : row.length ≤ columns :=
      (List.max?_eq_some_iff.1 hmax).2 _ (List.mem_map_of_mem hrow)
    rw [hmax, Option.getD_some]
    exact (List.length_pos_of_mem hcell).trans_le hle
  rw [TableMetadata.make, dif_pos hrows, dif_pos hcolumns]
  exact ⟨_, rfl⟩

/-- The block is that of a table with these rows. -/
structure IsTableBlock (rows : Rows) (block : ParsedBlock) : Prop where
  kind : block.kind = .table
  text : block.text = tableText rows
  table : ∃ table, block.table = some table ∧ table.rows = rows.length

variable {id : String} {order : ℕ} {hasHeader : Bool} {headingPath : List String}
  {pageNumber : Option ℕ} {boundingBox : Option BoundingBox} {block : ParsedBlock}

theorem isTableBlock_of_tableBlock
    (h : tableBlock id order rows hasHeader headingPath pageNumber boundingBox = .ok block) :
    IsTableBlock rows block := by
  obtain ⟨table, htable, h⟩ := bind_eq_ok.1 h
  have hhas := ParsedBlock.has_of_make h
  exact ⟨hhas.kind, hhas.text, table, hhas.table, (TableMetadata.eq_of_make htable).1⟩

/-- A table whose text is blank is rejected. -/
theorem tableBlock_blank (hblank : ∀ row ∈ rows, ∀ cell ∈ row, strip cell = []) :
    tableBlock id order rows hasHeader headingPath pageNumber boundingBox ≠ .ok block := by
  intro h
  obtain ⟨table, -, h⟩ := bind_eq_ok.1 h
  have hhas := ParsedBlock.has_of_make h
  have hnot : block.kind ≠ .image := by
    rw [hhas.kind]
    exact nofun
  obtain ⟨c, hc, hspace⟩ := block.has_text hnot
  rw [hhas.text] at hc
  have hall : Agent.isSpace c = true := by
    rcases mem_intercalate hc with hc | ⟨line, hline, hc⟩
    · rw [List.mem_singleton.1 hc]
      decide
    obtain ⟨row, hrow, rfl⟩ := List.mem_map.1 hline
    rcases mem_intercalate hc with hc | ⟨cell, hcell, hc⟩
    · rw [List.mem_singleton.1 hc]
      decide
    · exact strip_eq_nil_iff.1 (hblank row hrow cell hcell) c hc
  rw [hall] at hspace
  cases hspace

/-- A table with a text makes a block. -/
theorem exists_tableBlock (order : ℕ) (hrow : row ∈ rows) (hcell : cell ∈ row)
    (htext : strip cell ≠ []) (hid : nonEmptyText id = .ok id)
    (hheadings : ∀ heading ∈ headingPath, Agent.strip heading ≠ "") (hasHeader : Bool) :
    ∃ block, tableBlock id order rows hasHeader headingPath = .ok block := by
  obtain ⟨table, htable⟩ := exists_metadata hrow hcell hasHeader
  rw [tableBlock, htable]
  dsimp only [bind, Except.bind]
  refine ParsedBlock.exists_make _ hid ?_
  exact
    { page_pos := nofun
      headings := hheadings
      box_page := fun h => absurd rfl h
      table_iff := ⟨fun _ => rfl, fun _ => nofun⟩
      image_iff := ⟨fun h => absurd rfl h, nofun⟩
      has_text := fun _ => strip_ne_nil_of_infix (infix_tableText hrow hcell) htext }

theorem IsTableBlock.copy {copy : ParsedBlock} (h : IsTableBlock rows block)
    (hcopy : copy.CopyOf block) : IsTableBlock rows copy := by
  obtain ⟨id, order, rfl⟩ := hcopy
  exact ⟨h.kind, h.text, h.table⟩

/-- The blocks have the tables with these rows, and no other ones. -/
structure HaveTables (tables : List Rows) (blocks : List ParsedBlock) : Prop where
  emitted : ∀ rows ∈ tables, ∃ block ∈ blocks, IsTableBlock rows block
  source : ∀ block ∈ blocks, block.kind = .table → ∃ rows ∈ tables, IsTableBlock rows block

namespace HaveTables

variable {tables tables' : List Rows} {blocks blocks' : List ParsedBlock}

theorem nil : HaveTables [] [] where
  emitted := fun _ h => absurd h List.not_mem_nil
  source := fun _ h => absurd h List.not_mem_nil

theorem of_kind (h : block.kind ≠ .table) : HaveTables [] [block] where
  emitted := fun _ h => absurd h List.not_mem_nil
  source := fun _ hother htable => absurd (List.mem_singleton.1 hother ▸ htable) h

theorem of_forall_kind (h : ∀ block ∈ blocks, block.kind ≠ .table) : HaveTables [] blocks where
  emitted := fun _ h => absurd h List.not_mem_nil
  source := fun block hblock hkind => absurd hkind (h block hblock)

theorem singleton (h : IsTableBlock rows block) : HaveTables [rows] [block] where
  emitted := List.forall_mem_singleton.2 ⟨block, List.mem_singleton_self _, h⟩
  source := List.forall_mem_singleton.2 fun _ => ⟨rows, List.mem_singleton_self _, h⟩

theorem append (h : HaveTables tables blocks) (h' : HaveTables tables' blocks') :
    HaveTables (tables ++ tables') (blocks ++ blocks') where
  emitted := by
    intro rows hrows
    rcases List.mem_append.1 hrows with hrows | hrows
    · obtain ⟨block, hblock, htable⟩ := h.emitted rows hrows
      exact ⟨block, List.mem_append_left _ hblock, htable⟩
    · obtain ⟨block, hblock, htable⟩ := h'.emitted rows hrows
      exact ⟨block, List.mem_append_right _ hblock, htable⟩
  source := by
    intro block hblock hkind
    rcases List.mem_append.1 hblock with hblock | hblock
    · obtain ⟨rows, hrows, htable⟩ := h.source block hblock hkind
      exact ⟨rows, List.mem_append_left _ hrows, htable⟩
    · obtain ⟨rows, hrows, htable⟩ := h'.source block hblock hkind
      exact ⟨rows, List.mem_append_right _ hrows, htable⟩

/-- Copies of the blocks have the same tables. -/
theorem copies (h : HaveTables tables blocks)
    (hcopy : ∀ block ∈ blocks, ∃ copy ∈ blocks', copy.CopyOf block)
    (hcopies : ∀ copy ∈ blocks', ∃ block ∈ blocks, copy.CopyOf block) :
    HaveTables tables blocks' where
  emitted := by
    intro rows hrows
    obtain ⟨block, hblock, htable⟩ := h.emitted rows hrows
    obtain ⟨copy, hmem, hsame⟩ := hcopy block hblock
    exact ⟨copy, hmem, htable.copy hsame⟩
  source := by
    intro copy hmem hkind
    obtain ⟨block, hblock, hsame⟩ := hcopies copy hmem
    have hkind' : block.kind = .table := by
      obtain ⟨id, order, rfl⟩ := hsame
      exact hkind
    obtain ⟨rows, hrows, htable⟩ := h.source block hblock hkind'
    exact ⟨rows, hrows, htable.copy hsame⟩

end HaveTables

/-! ## Reading the rows again -/

/-- The rows as `_qa` reads them: `[row.split("\t") for row in text.splitlines()]`. -/
def qaRows (text : List Char) : Rows := (splitLines text).map fun row => row.splitOn '\t'

/-- The rows as `_table` reads them: the lines that are not blank. -/
def lineRows (text : List Char) : Rows :=
  ((splitLines text).filter fun row => strip row ≠ []).map fun row => row.splitOn '\t'

/-- The text of the table is read as these rows. -/
structure ReadAs (text : List Char) (rows : Rows) : Prop where
  qa : qaRows text = rows
  table : lineRows text = rows

/-- No cell has a tab or a line break, and no row is blank. -/
def Decodable (rows : Rows) : Prop :=
  ∀ row ∈ rows, (∃ cell ∈ row, strip cell ≠ []) ∧
    ∀ cell ∈ row, ∀ c ∈ cell, c ≠ '\t' ∧ c ∉ lineBreaks

instance (rows : Rows) : Decidable (Decodable rows) :=
  have (cell : List Char) : Decidable (∀ c ∈ cell, c ≠ '\t' ∧ c ∉ lineBreaks) :=
    List.decidableBAll _ _
  inferInstanceAs (Decidable (∀ row ∈ rows, (∃ cell ∈ row, strip cell ≠ []) ∧
    ∀ cell ∈ row, ∀ c ∈ cell, c ≠ '\t' ∧ c ∉ lineBreaks))

/-- What has been split has no separator. -/
theorem not_mem_of_mem_splitOn {separator : Char} {text : List Char} :
    ∀ part ∈ text.splitOn separator, separator ∉ part := by
  induction text with
  | nil =>
    rw [List.splitOn_nil]
    exact List.forall_mem_singleton.2 List.not_mem_nil
  | cons c text ih =>
    rw [List.splitOn_cons_eq_if_modifyHead]
    split
    · exact List.forall_mem_cons.2 ⟨List.not_mem_nil, ih⟩
    · rename_i hne
      obtain ⟨first, parts, hsplit⟩ :=
        List.exists_cons_of_ne_nil (List.splitOn_ne_nil separator text)
      rw [hsplit] at ih ⊢
      obtain ⟨hfirst, hparts⟩ := List.forall_mem_cons.1 ih
      refine List.forall_mem_cons.2 ⟨fun hmem => ?_, hparts⟩
      rcases List.mem_cons.1 hmem with rfl | hmem
      · simp at hne
      · exact hfirst hmem

/-- The lines of a decodable table. -/
theorem Decodable.splitLines_tableText (h : Decodable rows) :
    splitLines (tableText rows) = rows.map ['\t'].intercalate := by
  have hlines : ∀ line ∈ rows.map ['\t'].intercalate, ∀ c ∈ line, c ∉ lineBreaks := by
    intro line hline c hc
    obtain ⟨row, hrow, rfl⟩ := List.mem_map.1 hline
    rcases mem_intercalate hc with hc | ⟨cell, hcell, hc⟩
    · rw [List.mem_singleton.1 hc]
      decide
    · exact ((h row hrow).2 cell hcell c hc).2
  have hlast : (rows.map ['\t'].intercalate).getLast? ≠ some [] := by
    intro hlast
    obtain ⟨row, hrow, hnil⟩ := List.mem_map.1 (List.mem_of_getLast? hlast)
    obtain ⟨⟨cell, hcell, htext⟩, -⟩ := h row hrow
    have hpart : cell <:+: [] := hnil ▸ infix_intercalate hcell
    rw [List.infix_nil.1 hpart] at htext
    exact htext rfl
  rw [tableText, splitLines_intercalate hlines, if_neg hlast]

/-- The line of a row that is not blank is not blank, and only of such a row. -/
theorem strip_intercalate_ne_nil_iff :
    strip (['\t'].intercalate row) ≠ [] ↔ ∃ cell ∈ row, strip cell ≠ [] := by
  constructor
  · intro h
    obtain ⟨c, hc, hspace⟩ := exists_of_strip_ne_nil h
    rcases mem_intercalate hc with hc | ⟨cell, hcell, hc⟩
    · rw [List.mem_singleton.1 hc] at hspace
      exact absurd hspace (by decide)
    · refine ⟨cell, hcell, fun hblank => ?_⟩
      rw [strip_eq_nil_iff.1 hblank c hc] at hspace
      cases hspace
  · rintro ⟨cell, hcell, htext⟩
    exact strip_ne_nil_of_infix (infix_intercalate hcell) htext

/-- **The text of a table is read as its rows** if and only if no cell has a tab or a line break
and no row is blank. -/
theorem readAs_iff : ReadAs (tableText rows) rows ↔ Decodable rows := by
  constructor
  · rintro ⟨hqa, htable⟩ row hrow
    have hkept : ((splitLines (tableText rows)).filter fun row => strip row ≠ []).length =
        (splitLines (tableText rows)).length := by
      have hlength := congrArg List.length (htable.trans hqa.symm)
      rwa [lineRows, qaRows, List.length_map, List.length_map] at hlength
    have hall := List.length_filter_eq_length_iff.1 hkept
    rw [← hqa] at hrow
    obtain ⟨line, hline, rfl⟩ := List.mem_map.1 hrow
    have hsplit : ['\t'].intercalate (line.splitOn '\t') = line := List.intercalate_splitOn '\t'
    refine ⟨?_, fun cell hcell c hc => ⟨?_, ?_⟩⟩
    · rw [← strip_intercalate_ne_nil_iff, hsplit]
      exact of_decide_eq_true (hall line hline)
    · rintro rfl
      exact not_mem_of_mem_splitOn cell hcell hc
    · have hpart : cell <:+: line := hsplit ▸ infix_intercalate hcell
      exact not_mem_lineBreaks_of_mem_splitLines hline c (hpart.subset hc)
  · intro h
    have hread : (rows.map ['\t'].intercalate).map (fun row => row.splitOn '\t') = rows := by
      rw [List.map_map]
      conv_rhs => rw [← List.map_id rows]
      refine List.map_congr_left fun row hrow => ?_
      obtain ⟨⟨cell, hcell, -⟩, hclean⟩ := h row hrow
      exact List.splitOn_intercalate '\t' (fun cell hcell htab => (hclean cell hcell _ htab).1 rfl)
        (List.ne_nil_of_mem hcell)
    refine ⟨by rw [qaRows, h.splitLines_tableText, hread], ?_⟩
    have hall : (rows.map ['\t'].intercalate).filter (fun row => strip row ≠ []) =
        rows.map ['\t'].intercalate := by
      refine List.filter_eq_self.2 fun line hline => ?_
      obtain ⟨row, hrow, rfl⟩ := List.mem_map.1 hline
      exact decide_eq_true (strip_intercalate_ne_nil_iff.2 (h row hrow).1)
    rw [lineRows, h.splitLines_tableText, hall, hread]

end Parsing
end Knowledge
end RagflowAgent
