import RagflowAgent.Knowledge.Texts
import RagflowAgent.Text.Lines

/-!
# Parsed blocks

A parser hands over `ParsedBlock`s: the blocks of the chunkers, with the shape of a table and
with the reference of an image.

* `BlockFields` are what a parser gives, with its defaults, and `ParsedBlock.make` is the model
  that validates them;
* `ParsedBlock.eq_of_make` says that a block has the fields that were given, the headings
  stripped;
* `ParsedBlock.renumber` is `model_copy` with another identifier and another order.
-/

namespace RagflowAgent
namespace Knowledge
namespace Parsing

open Chunking (BlockKind BoundingBox)

/-- The spaces that `str.strip` takes away, without words. -/
def textSpace : Text.Alphabet Char where
  isWord := fun _ => false
  isSpace := Agent.isSpace
  disjoint := nofun

/-- `text.strip()`. -/
def strip (text : List Char) : List Char := textSpace.strip text

/-- `text.rstrip()`. -/
def rstrip (text : List Char) : List Char := (text.reverse.dropWhile Agent.isSpace).reverse

variable {text : List Char}

theorem toList_agentStrip (s : String) : (Agent.strip s).toList = strip s.toList := by
  rw [Agent.strip, String.toList_ofList]
  rfl

theorem strip_strip (text : List Char) : strip (strip text) = strip text :=
  textSpace.strip_strip text

/-- A text with something else than spaces has something left. -/
theorem strip_eq_nil_iff : strip text = [] ↔ ∀ c ∈ text, Agent.isSpace c = true := by
  constructor
  · exact Text.Alphabet.isSpace_of_strip_eq_nil
  · intro h
    have hdrop : text.dropWhile textSpace.isSpace = [] := List.dropWhile_eq_nil_iff.2 h
    rw [strip, Text.Alphabet.strip, hdrop]
    rfl

theorem exists_of_strip_ne_nil (h : strip text ≠ []) : ∃ c ∈ text, Agent.isSpace c = false := by
  by_contra hnone
  simp only [not_exists, not_and, Bool.not_eq_false] at hnone
  exact h (strip_eq_nil_iff.2 hnone)

/-- What is left when both ends are stripped is part of what is left when one is. -/
theorem strip_infix_rstrip (text : List Char) : strip text <:+: rstrip text := by
  have hsplit := List.takeWhile_append_dropWhile (p := Agent.isSpace) (l := text)
  set spaces := text.takeWhile Agent.isSpace
  set kept := text.dropWhile Agent.isSpace with hkept
  have hstrip : strip text = rstrip kept := rfl
  rw [hstrip, rstrip, rstrip, ← hsplit, List.reverse_append, List.dropWhile_append]
  split
  · rename_i hnil
    rw [List.isEmpty_iff.1 hnil]
    exact List.nil_infix
  · rw [List.reverse_append, List.reverse_reverse]
    exact (List.suffix_append _ _).isInfix

/-- A text with something that is not a space. -/
theorem strip_ne_nil_of_infix {part : List Char} (h : part <:+: text) (hpart : strip part ≠ []) :
    strip text ≠ [] := by
  obtain ⟨c, hc, hspace⟩ := exists_of_strip_ne_nil hpart
  intro hnil
  rw [strip_eq_nil_iff.1 hnil c (h.subset hc)] at hspace
  cases hspace

theorem strip_rstrip_ne_nil (h : strip text ≠ []) : strip (rstrip text) ≠ [] := by
  refine strip_ne_nil_of_infix (strip_infix_rstrip text) ?_
  rwa [strip_strip]

/-! ## Blocks -/

structure TableMetadata where
  rows : ℕ
  columns : ℕ
  hasHeader : Bool := false
  rows_pos : 1 ≤ rows
  columns_pos : 1 ≤ columns
  deriving DecidableEq

namespace TableMetadata

/-- `TableMetadata(...)`. -/
def make (rows columns : ℕ) (hasHeader : Bool) : Except Error TableMetadata :=
  if rows_pos : 1 ≤ rows then
    if columns_pos : 1 ≤ columns then .ok { rows, columns, hasHeader, rows_pos, columns_pos }
    else .error (.validation "columns: Input should be greater than or equal to 1")
  else .error (.validation "rows: Input should be greater than or equal to 1")

theorem eq_of_make {rows columns : ℕ} {hasHeader : Bool} {table : TableMetadata}
    (h : make rows columns hasHeader = .ok table) :
    table.rows = rows ∧ table.columns = columns ∧ table.hasHeader = hasHeader := by
  rw [make] at h
  split at h
  · split at h
    · cases h
      exact ⟨rfl, rfl, rfl⟩
    · cases h
  · cases h

end TableMetadata

structure ImageReference where
  objectKey : NonEmptyStr
  mediaType : NonEmptyStr
  embeddedPath : Option String := none
  deriving DecidableEq

/-- `ImageReference(...)`. -/
def ImageReference.make (objectKey mediaType : String) (embeddedPath : Option String) :
    Except Error ImageReference := do
  let objectKey ← NonEmptyStr.make objectKey
  let mediaType ← NonEmptyStr.make mediaType
  return { objectKey, mediaType, embeddedPath }

structure ParseWarning where
  code : NonEmptyStr
  message : NonEmptyStr
  pageNumber : Option ℕ := none
  deriving DecidableEq

/-- `ParseWarning(...)`. -/
def ParseWarning.make (code message : String) (pageNumber : Option ℕ := none) :
    Except Error ParseWarning := do
  let code ← NonEmptyStr.make code
  let message ← NonEmptyStr.make message
  return { code, message, pageNumber }

/-- The arguments of `ParsedBlock(...)`. -/
structure BlockFields where
  id : String
  kind : BlockKind
  order : ℕ
  text : List Char := []
  pageNumber : Option ℕ := none
  boundingBox : Option BoundingBox := none
  headingPath : List String := []
  table : Option TableMetadata := none
  image : Option ImageReference := none

namespace BlockFields

/-- The message of the validator that rejects these arguments. -/
def failure (fields : BlockFields) : Option String :=
  if ∃ page ∈ fields.pageNumber, page < 1 then
    some "page_number: Input should be greater than or equal to 1"
  else if ∃ heading ∈ fields.headingPath, Agent.strip heading = "" then
    some "heading_path cannot contain blank values"
  else if fields.boundingBox ≠ none ∧ fields.pageNumber = none then
    some "bounding_box requires page_number"
  else if fields.kind = .table ∧ fields.table = none then
    some "table blocks require table metadata"
  else if fields.kind ≠ .table ∧ fields.table ≠ none then
    some "table metadata is only valid for table blocks"
  else if fields.kind = .image ∧ fields.image = none then
    some "image blocks require an image reference"
  else if fields.kind ≠ .image ∧ fields.image ≠ none then
    some "image reference is only valid for image blocks"
  else if strip fields.text = [] ∧ fields.image = none then
    some "non-image blocks require text"
  else none

structure Valid (fields : BlockFields) : Prop where
  page_pos : ∀ page ∈ fields.pageNumber, 1 ≤ page
  headings : ∀ heading ∈ fields.headingPath, Agent.strip heading ≠ ""
  box_page : fields.boundingBox ≠ none → fields.pageNumber ≠ none
  table_iff : fields.table ≠ none ↔ fields.kind = .table
  image_iff : fields.image ≠ none ↔ fields.kind = .image
  has_text : fields.kind ≠ .image → strip fields.text ≠ []

/-- **What no validator rejects is valid.** -/
theorem valid_of_failure_eq_none {fields : BlockFields} (h : fields.failure = none) :
    fields.Valid := by
  rw [failure] at h
  split_ifs at h with hpage hheadings hbox htable htable' himage himage' htext
  have htableIff : fields.table ≠ none ↔ fields.kind = .table := by
    refine ⟨fun hsome => ?_, fun hkind hnone => htable ⟨hkind, hnone⟩⟩
    by_contra hkind
    exact htable' ⟨hkind, hsome⟩
  have himageIff : fields.image ≠ none ↔ fields.kind = .image := by
    refine ⟨fun hsome => ?_, fun hkind hnone => himage ⟨hkind, hnone⟩⟩
    by_contra hkind
    exact himage' ⟨hkind, hsome⟩
  exact
    { page_pos := fun page hmem => not_lt.1 fun hlt => hpage ⟨page, hmem, hlt⟩
      headings := fun heading hmem hblank => hheadings ⟨heading, hmem, hblank⟩
      box_page := fun hsome hnone => hbox ⟨hsome, hnone⟩
      table_iff := htableIff
      image_iff := himageIff
      has_text := fun hkind hblank => htext ⟨hblank, not_not.1 (mt himageIff.1 hkind)⟩ }

theorem Valid.failure_eq_none {fields : BlockFields} (h : fields.Valid) :
    fields.failure = none := by
  have hpage : ¬ ∃ page ∈ fields.pageNumber, page < 1 :=
    fun ⟨page, hmem, hlt⟩ => absurd (h.page_pos page hmem) (not_le.2 hlt)
  have hheadings : ¬ ∃ heading ∈ fields.headingPath, Agent.strip heading = "" :=
    fun ⟨heading, hmem, hblank⟩ => h.headings heading hmem hblank
  have htext : ¬ (strip fields.text = [] ∧ fields.image = none) :=
    fun ⟨hblank, hnone⟩ => h.has_text (fun hkind => h.image_iff.2 hkind hnone) hblank
  rw [failure, if_neg hpage, if_neg hheadings, if_neg fun hbox => h.box_page hbox.1 hbox.2,
    if_neg fun htable => h.table_iff.2 htable.1 htable.2,
    if_neg fun htable => htable.1 (h.table_iff.1 htable.2),
    if_neg fun himage => h.image_iff.2 himage.1 himage.2,
    if_neg fun himage => himage.1 (h.image_iff.1 himage.2), if_neg htext]

end BlockFields

/-- A block of parser output. -/
structure ParsedBlock extends Chunking.ParsedBlock where
  table : Option TableMetadata := none
  image : Option ImageReference := none
  table_iff : table ≠ none ↔ kind = .table
  image_iff : image ≠ none ↔ kind = .image
  deriving DecidableEq

namespace ParsedBlock

/-- `ParsedBlock(...)`. -/
def make (fields : BlockFields) : Except Error ParsedBlock := do
  let id ← NonEmptyStr.make fields.id
  match h : fields.failure with
  | some message => .error (.validation message)
  | none =>
    have valid := BlockFields.valid_of_failure_eq_none h
    return {
      id := id.value
      kind := fields.kind
      order := fields.order
      text := fields.text
      pageNumber := fields.pageNumber
      boundingBox := fields.boundingBox
      headingPath := fields.headingPath.map Agent.strip
      table := fields.table
      image := fields.image
      nonEmpty := id.valid
      page_pos := valid.page_pos
      headings := by
        intro heading hmem
        obtain ⟨given, hgiven, rfl⟩ := List.mem_map.1 hmem
        refine ⟨String.toList_inj.1 ?_, valid.headings given hgiven⟩
        rw [toList_agentStrip, toList_agentStrip, strip_strip]
      box_page := valid.box_page
      has_text := fun hkind => exists_of_strip_ne_nil (valid.has_text hkind)
      table_iff := valid.table_iff
      image_iff := valid.image_iff }

variable {fields : BlockFields} {block : ParsedBlock}

/-- The block has what the fields say. -/
structure Has (block : ParsedBlock) (fields : BlockFields) : Prop where
  kind : block.kind = fields.kind
  order : block.order = fields.order
  text : block.text = fields.text
  pageNumber : block.pageNumber = fields.pageNumber
  boundingBox : block.boundingBox = fields.boundingBox
  headingPath : block.headingPath = fields.headingPath.map Agent.strip
  table : block.table = fields.table
  image : block.image = fields.image

/-- **A block has the fields that were given.** -/
theorem has_of_make (h : make fields = .ok block) : block.Has fields := by
  rw [make] at h
  obtain ⟨id, -, h⟩ := bind_eq_ok.1 h
  dsimp only at h
  split at h
  · cases h
  · cases h
    exact ⟨rfl, rfl, rfl, rfl, rfl, rfl, rfl, rfl⟩

/-- Valid fields make a block. -/
theorem exists_make (fields : BlockFields) (hid : nonEmptyText fields.id = .ok fields.id)
    (h : fields.Valid) :
    ∃ block, make fields = .ok block := by
  have hfailure := h.failure_eq_none
  rw [make, NonEmptyStr.make_eq_ok hid]
  dsimp only [bind, Except.bind]
  split
  · rename_i message hmessage
    rw [hfailure] at hmessage
    cases hmessage
  · exact ⟨_, rfl⟩

/-- No heading is blank. -/
def Headed (headingPath : List String) : Prop :=
  ∀ heading ∈ headingPath, Agent.strip heading ≠ ""

theorem headed_nil : Headed [] := fun _ h => absurd h List.not_mem_nil

theorem headed_append {headingPath : List String} (hheadings : Headed headingPath) (n : ℕ)
    (htext : strip text ≠ []) : Headed (headingPath.take n ++ [String.ofList text]) := by
  intro heading hmem
  rcases List.mem_append.1 hmem with hmem | hmem
  · exact hheadings heading (List.mem_of_mem_take hmem)
  · rw [List.mem_singleton.1 hmem]
    intro hblank
    have hnil := congrArg String.toList hblank
    rw [toList_agentStrip, String.toList_ofList] at hnil
    exact htext hnil

/-- A text under headings makes a block. -/
theorem exists_textBlock {id : String} {kind : BlockKind} {headingPath : List String} (order : ℕ)
    (hid : nonEmptyText id = .ok id) (hheadings : Headed headingPath)
    (hkind : kind ≠ .table ∧ kind ≠ .image) (htext : strip text ≠ []) :
    ∃ block, make { id, kind, order, text, headingPath } = .ok block ∧ block.text = text ∧
      block.kind = kind := by
  obtain ⟨block, hblock⟩ := exists_make { id, kind, order, text, headingPath } hid
    { page_pos := nofun
      headings := hheadings
      box_page := fun h => absurd rfl h
      table_iff := ⟨fun h => absurd rfl h, fun h => absurd h hkind.1⟩
      image_iff := ⟨fun h => absurd rfl h, fun h => absurd h hkind.2⟩
      has_text := fun _ => htext }
  exact ⟨block, hblock, (has_of_make hblock).text, (has_of_make hblock).kind⟩

/-- `model_copy(update={"id": id, "order": order})`. -/
def renumber (block : ParsedBlock) (id : NonEmptyStr) (order : ℕ) : ParsedBlock :=
  { block with
    id := id.value
    order
    nonEmpty := id.valid
    page_pos := block.page_pos
    headings := block.headings
    box_page := block.box_page
    has_text := block.has_text
    table_iff := block.table_iff
    image_iff := block.image_iff }

/-- The block is a copy of the other one, with an identifier and an order of its own. -/
def CopyOf (block item : ParsedBlock) : Prop := ∃ id order, block = item.renumber id order

theorem copyOf_renumber (item : ParsedBlock) (id : NonEmptyStr) (order : ℕ) :
    (item.renumber id order).CopyOf item := ⟨id, order, rfl⟩

theorem copyOf_self (item : ParsedBlock) : item.CopyOf item :=
  ⟨⟨item.id, item.nonEmpty⟩, item.order, rfl⟩

theorem CopyOf.boundingBox {item : ParsedBlock} (h : block.CopyOf item) :
    block.boundingBox = item.boundingBox := by
  obtain ⟨id, order, rfl⟩ := h
  rfl

theorem CopyOf.pageNumber {item : ParsedBlock} (h : block.CopyOf item) :
    block.pageNumber = item.pageNumber := by
  obtain ⟨id, order, rfl⟩ := h
  rfl

end ParsedBlock

/-- `f"{id_prefix}{len(blocks)}"`, which is the identifier of the next block. -/
def nextId (idPrefix : String) (blocks : List ParsedBlock) : String :=
  idPrefix ++ toString blocks.length

/-- The next block is a text. -/
def emitText (idPrefix : String) (headingPath : List String) (blocks : List ParsedBlock)
    (kind : BlockKind) (text : List Char) : Except Error (List ParsedBlock) := do
  let block ← ParsedBlock.make
    { id := nextId idPrefix blocks, kind, order := blocks.length, text, headingPath }
  return blocks ++ [block]

theorem exists_emitText {idPrefix : String} {headingPath : List String} {kind : BlockKind}
    (blocks : List ParsedBlock) (hid : nonEmptyText (nextId idPrefix blocks) =
      .ok (nextId idPrefix blocks)) (hheadings : ParsedBlock.Headed headingPath)
    (hkind : kind ≠ .table ∧ kind ≠ .image) (htext : strip text ≠ []) :
    ∃ block, emitText idPrefix headingPath blocks kind text = .ok (blocks ++ [block]) ∧
      block.text = text ∧ block.kind = kind := by
  obtain ⟨block, hblock, hsame⟩ :=
    ParsedBlock.exists_textBlock blocks.length hid hheadings hkind htext
  refine ⟨block, ?_, hsame⟩
  rw [emitText, hblock]
  rfl

structure ParsedPayload where
  blocks : List ParsedBlock
  warnings : List ParseWarning := []

end Parsing
end Knowledge
end RagflowAgent
