import RagflowAgent.Knowledge.Parsing.Tables

/-!
# The parser of DOCX documents

A paragraph with a text becomes a heading or a text, and every picture that it refers to an image;
a table with a text becomes a table.

* `parseItem` is what the parser does with a paragraph or a table, and `parseItems` the loop;
* `haveTables_of_parseItems`: the blocks have the tables of the document.
-/

namespace RagflowAgent
namespace Knowledge
namespace Parsing

/-! ## The source -/

/-- A picture in a paragraph: without a relation, with one that is missing, or with the part that
is related. -/
inductive Blip where
  | unlinked
  | missing (relationId : String)
  | embedded (partname contentType : String)

/-- What stands in the body.  The level of a paragraph is the one that `_heading_level` gives to
its style, less one. -/
inductive DocxItem where
  | paragraph (text : List Char) (headingLevel : Option (Fin 6)) (blips : List Blip)
  | table (rows : Rows)

namespace DocxBinaryParser

def blockId (blocks : List ParsedBlock) : String := nextId "docx_" blocks

/-- The pictures of a paragraph from here on. -/
def parseBlips (objectKey : NonEmptyStr) (headingPath : List String) (payload : ParsedPayload) :
    List Blip → Except Error ParsedPayload
  | [] => .ok payload
  | .unlinked :: blips => parseBlips objectKey headingPath payload blips
  | .missing relationId :: blips => do
    let warning ← ParseWarning.make "docx_image_relation_missing"
      ("image relation " ++ relationId ++ " is missing")
    parseBlips objectKey headingPath
      { payload with warnings := payload.warnings ++ [warning] } blips
  | .embedded partname contentType :: blips => do
    let image ← ImageReference.make objectKey.value contentType (some partname)
    let block ← ParsedBlock.make
      { id := blockId payload.blocks
        kind := .image
        order := payload.blocks.length
        text := "embedded DOCX image".toList
        headingPath
        image := some image }
    parseBlips objectKey headingPath { payload with blocks := payload.blocks ++ [block] } blips

/-- The headings after a paragraph. -/
def nextPath (headingPath : List String) (value : List Char) :
    Option (Fin 6) → List String
  | some level => headingPath.take level ++ [String.ofList value]
  | none => headingPath

/-- The rows of a table that have a text. -/
def tableRows (rows : Rows) : Rows := keepRows (rows.map (List.map strip))

def parseItem (objectKey : NonEmptyStr) (headingPath : List String) (payload : ParsedPayload) :
    DocxItem → Except Error (List String × ParsedPayload)
  | .paragraph text headingLevel blips =>
    let value := strip text
    if value = [] then do
      let payload ← parseBlips objectKey headingPath payload blips
      return (headingPath, payload)
    else do
      let headingPath := nextPath headingPath value headingLevel
      let kind := if headingLevel = none then .text else .heading
      let blocks ← emitText "docx_" headingPath payload.blocks kind value
      let payload ← parseBlips objectKey headingPath { payload with blocks } blips
      return (headingPath, payload)
  | .table rows =>
    if tableRows rows = [] then return (headingPath, payload)
    else do
      let block ← tableBlock (blockId payload.blocks) payload.blocks.length (tableRows rows) true
        headingPath
      return (headingPath, { payload with blocks := payload.blocks ++ [block] })

def parseItems (objectKey : NonEmptyStr) (headingPath : List String) (payload : ParsedPayload) :
    List DocxItem → Except Error ParsedPayload
  | [] => .ok payload
  | item :: items => do
    let (headingPath, payload) ← parseItem objectKey headingPath payload item
    parseItems objectKey headingPath payload items

/-- The document is `none` when the library cannot open it. -/
def parseBytes (objectKey : NonEmptyStr) (document : Option (List DocxItem)) :
    Except Error ParsedPayload :=
  match document with
  | none => .error (.conflict "DOCX document is invalid" "parser_docx_invalid")
  | some items => parseItems objectKey [] { blocks := [] } items

/-! ## The tables of a document -/

/-- The rows of an item that is a table, if any of them has a text. -/
def tablesOf : DocxItem → List Rows
  | .paragraph _ _ _ => []
  | .table rows => if tableRows rows = [] then [] else [tableRows rows]

variable {objectKey : NonEmptyStr} {headingPath headingPath' : List String}
  {payload result : ParsedPayload} {blocks blocks' : List ParsedBlock} {kind : Chunking.BlockKind}
  {text : List Char}

theorem haveTables_of_emitText {idPrefix : String} (hkind : kind ≠ .table)
    (h : emitText idPrefix headingPath blocks kind text = .ok blocks') :
    ∃ added, blocks' = blocks ++ added ∧ HaveTables [] added := by
  obtain ⟨block, hblock, h⟩ := bind_eq_ok.1 h
  cases h
  refine ⟨[block], rfl, HaveTables.of_kind ?_⟩
  rw [(ParsedBlock.has_of_make hblock).kind]
  exact hkind

theorem haveTables_of_parseBlips {blips : List Blip}
    (h : parseBlips objectKey headingPath payload blips = .ok result) :
    ∃ added, result.blocks = payload.blocks ++ added ∧ HaveTables [] added := by
  induction blips generalizing payload with
  | nil =>
    cases h
    exact ⟨[], (List.append_nil _).symm, HaveTables.nil⟩
  | cons blip blips ih =>
    cases blip with
    | unlinked => exact ih h
    | missing relationId =>
      obtain ⟨warning, -, h⟩ := bind_eq_ok.1 h
      obtain ⟨added, hadded, hnone⟩ := ih h
      exact ⟨added, hadded, hnone⟩
    | embedded partname contentType =>
      obtain ⟨image, -, h⟩ := bind_eq_ok.1 h
      obtain ⟨block, hblock, h⟩ := bind_eq_ok.1 h
      obtain ⟨added, hadded, hnone⟩ := ih h
      have hkind : block.kind ≠ .table := by
        rw [(ParsedBlock.has_of_make hblock).kind]
        exact nofun
      refine ⟨[block] ++ added, ?_, (HaveTables.of_kind hkind).append hnone⟩
      rw [hadded, List.append_assoc]

theorem haveTables_of_parseItem {item : DocxItem}
    (h : parseItem objectKey headingPath payload item = .ok (headingPath', result)) :
    ∃ added, result.blocks = payload.blocks ++ added ∧ HaveTables (tablesOf item) added := by
  cases item with
  | paragraph text headingLevel blips =>
    rw [parseItem] at h
    dsimp only at h
    split at h
    · obtain ⟨blipped, hblips, h⟩ := bind_eq_ok.1 h
      cases h
      exact haveTables_of_parseBlips hblips
    · obtain ⟨blocks, hemit, h⟩ := bind_eq_ok.1 h
      obtain ⟨blipped, hblips, h⟩ := bind_eq_ok.1 h
      cases h
      have hkind : (if headingLevel = none then Chunking.BlockKind.text else .heading) ≠
          .table := by
        split
        · exact nofun
        · exact nofun
      obtain ⟨added, rfl, hnone⟩ := haveTables_of_emitText hkind hemit
      obtain ⟨added', hadded', hnone'⟩ := haveTables_of_parseBlips hblips
      refine ⟨added ++ added', ?_, hnone.append hnone'⟩
      rw [hadded', List.append_assoc]
  | table rows =>
    rw [parseItem] at h
    rw [tablesOf]
    split at h
    · rename_i hnil
      cases h
      rw [if_pos hnil]
      exact ⟨[], (List.append_nil _).symm, HaveTables.nil⟩
    · rename_i hsome
      obtain ⟨block, hblock, h⟩ := bind_eq_ok.1 h
      cases h
      rw [if_neg hsome]
      exact ⟨[block], rfl, HaveTables.singleton (isTableBlock_of_tableBlock hblock)⟩

/-- **The blocks have the tables of the document.** -/
theorem haveTables_of_parseItems {items : List DocxItem}
    (h : parseItems objectKey headingPath payload items = .ok result) :
    ∃ added, result.blocks = payload.blocks ++ added ∧
      HaveTables (items.flatMap tablesOf) added := by
  induction items generalizing headingPath payload with
  | nil =>
    cases h
    exact ⟨[], (List.append_nil _).symm, HaveTables.nil⟩
  | cons item items ih =>
    obtain ⟨⟨path, parsed⟩, hitem, h⟩ := bind_eq_ok.1 h
    obtain ⟨added, hadded, htables⟩ := haveTables_of_parseItem hitem
    obtain ⟨added', hadded', htables'⟩ := ih h
    refine ⟨added ++ added', ?_, ?_⟩
    · rw [hadded', hadded, List.append_assoc]
    · rw [List.flatMap_cons]
      exact htables.append htables'

end DocxBinaryParser

end Parsing
end Knowledge
end RagflowAgent
