import Mathlib.Algebra.Order.Ring.Rat
import RagflowAgent.Agent.Domain.Text
import RagflowAgent.Knowledge.Domain.Authorization
import RagflowAgent.Text.Tokens

/-!
# Parsed documents and chunks

The input of a chunker is a `ParsedDocument`, whose blocks have passed their validators: that
they have is part of the types here.  Its output are `ChunkRecord`s, which the chunkers build
from the blocks, so that their validators are functions that may raise.

* `Unicode` are the classes of characters that the regular expressions look up;
* `BoundingBox.make`, `ChunkMetadata.validate` and `ChunkRecord.validate` are the validators;
* `deriveChunkId` and `deriveChunkIdV2` derive the identifier of a chunk from what it is made of.

Pydantic strips the white space of Unicode from a `NonEmptyStr`; `str.strip` also strips the four
separators from U+001C to U+001F.
-/

namespace RagflowAgent
namespace Knowledge
namespace Chunking

open Text

/-! ## Characters -/

/-- The characters that `\w` and `\d` match. -/
structure Unicode where
  isWord : Char → Bool
  isDigit : Char → Bool
  isSpace_of_isWord : ∀ c, isWord c = true → Agent.isSpace c = false
  isWord_colon : ∀ c ∈ [':', '：'], isWord c = false

/-- The classes of `_TOKEN_PATTERN`. -/
def Unicode.alphabet (U : Unicode) : Alphabet Char where
  isWord := U.isWord
  isSpace := Agent.isSpace
  disjoint := U.isSpace_of_isWord

/-- The words and spaces of pydantic, which has no words. -/
def whiteSpace : Alphabet Char where
  isWord := fun _ => false
  isSpace := isWhiteSpace
  disjoint := nofun

/-- What pydantic strips, `str.strip` strips too. -/
theorem isSpace_of_isWhiteSpace {c : Char} (h : isWhiteSpace c = true) :
    Agent.isSpace c = true := by
  simp only [isWhiteSpace, Agent.isSpace, Bool.or_eq_true, Bool.and_eq_true, decide_eq_true_eq,
    beq_iff_eq] at h ⊢
  omega

/-- A text passes a `NonEmptyStr` field when it has something else than white space. -/
theorem exists_nonEmptyText {s : String} {c : Char} (hc : c ∈ s.toList)
    (h : isWhiteSpace c = false) : ∃ t, nonEmptyText s = .ok t := by
  have hne : strip s ≠ "" := by
    intro hnil
    have hlist : whiteSpace.strip s.toList = [] := by
      have htoList := congrArg String.toList hnil
      rwa [strip, String.toList_ofList] at htoList
    have hspace := Alphabet.isSpace_of_strip_eq_nil hlist c hc
    rw [show whiteSpace.isSpace c = isWhiteSpace c from rfl, h] at hspace
    cases hspace
  exact ⟨strip s, by rw [nonEmptyText, if_neg hne]⟩

/-- What `str.strip` has stripped, a `NonEmptyStr` field takes as it is. -/
theorem nonEmptyText_ofList (U : Unicode) {text : List Char}
    (hstrip : U.alphabet.strip text = text) (hne : text ≠ []) :
    nonEmptyText (String.ofList text) = .ok (String.ofList text) := by
  have hspace : ∀ c, Agent.isSpace c = false → isWhiteSpace c = false := by
    intro c hc
    by_contra hwhite
    rw [isSpace_of_isWhiteSpace (Bool.not_eq_false _ ▸ hwhite)] at hc
    cases hc
  have hself : whiteSpace.strip text = text := by
    refine Alphabet.strip_eq_self (fun c hc => hspace c ?_) (fun c hc => hspace c ?_)
    · exact U.alphabet.isSpace_head_strip text c (by rwa [hstrip])
    · exact U.alphabet.isSpace_getLast_strip text c (by rwa [hstrip])
  have hstripped : strip (String.ofList text) = String.ofList text := by
    rw [strip, String.toList_ofList]
    exact congrArg String.ofList hself
  have hnot : String.ofList text ≠ "" := by
    intro hnil
    have htoList := congrArg String.toList hnil
    rw [String.toList_ofList] at htoList
    exact hne htoList
  rw [nonEmptyText, hstripped, if_neg hnot]

/-! ## Parsed documents -/

inductive BlockKind where
  | heading
  | text
  | list
  | table
  | image
  | code
  deriving DecidableEq, Repr

inductive CoordinateSpace where
  | pagePoints
  | pixels
  | normalized
  deriving DecidableEq, Repr

/-- A rectangle that `validate_geometry` lets pass. -/
structure BoundingBox where
  x0 : ℚ
  y0 : ℚ
  x1 : ℚ
  y1 : ℚ
  coordinateSpace : CoordinateSpace
  size : x0 < x1 ∧ y0 < y1
  range : coordinateSpace = .normalized → ∀ value ∈ [x0, y0, x1, y1], 0 ≤ value ∧ value ≤ 1
  deriving DecidableEq

/-- `BoundingBox(...)`. -/
def BoundingBox.make (x0 y0 x1 y1 : ℚ) (coordinateSpace : CoordinateSpace) :
    Except Error BoundingBox :=
  if size : x0 < x1 ∧ y0 < y1 then
    if range : coordinateSpace = .normalized →
        ∀ value ∈ [x0, y0, x1, y1], 0 ≤ value ∧ value ≤ 1 then
      .ok ⟨x0, y0, x1, y1, coordinateSpace, size, range⟩
    else .error (.validation "normalized bounding-box coordinates must be in [0, 1]")
  else .error (.validation "bounding box must have positive width and height")

/-- A block of parser output.  A block without text has an image reference, and only an image
block has one. -/
structure ParsedBlock where
  id : String
  kind : BlockKind
  order : ℕ
  text : List Char := []
  pageNumber : Option ℕ := none
  boundingBox : Option BoundingBox := none
  headingPath : List String := []
  nonEmpty : nonEmptyText id = .ok id
  page_pos : ∀ page ∈ pageNumber, 1 ≤ page
  headings : ∀ heading ∈ headingPath, Agent.strip heading = heading ∧ heading ≠ ""
  box_page : boundingBox ≠ none → pageNumber ≠ none
  has_text : kind ≠ .image → ∃ c ∈ text, Agent.isSpace c = false
  deriving DecidableEq

structure ParsedDocument where
  id : String
  tenantId : String
  knowledgeBaseId : String
  documentId : String
  documentVersionId : String
  parserName : String
  parserVersion : String
  blocks : List ParsedBlock
  nonEmpty : ∀ text ∈ [id, tenantId, knowledgeBaseId, documentId, documentVersionId, parserName,
    parserVersion], nonEmptyText text = .ok text
  ids_nodup : (blocks.map ParsedBlock.id).Nodup
  orders_nodup : (blocks.map ParsedBlock.order).Nodup
  orders_sorted : (blocks.map ParsedBlock.order).Pairwise (· ≤ ·)

/-! ## Chunks -/

structure ChunkMetadata where
  headingPath : List String
  pageStart : Option ℕ
  pageEnd : Option ℕ
  sourceOrderStart : Option ℕ
  sourceOrderEnd : Option ℕ
  blockKinds : List BlockKind
  boundingBox : Option BoundingBox
  containsTable : Bool
  containsImage : Bool
  parserName : String
  parserVersion : String
  chunkStrategyId : String
  chunkStrategyVersion : String
  deriving DecidableEq

/-- The bounds of the two page fields, and `validate_page_range`. -/
def ChunkMetadata.validate (metadata : ChunkMetadata) : Except Error ChunkMetadata :=
  if ∃ page ∈ metadata.pageStart, page < 1 then
    .error (.validation "page_start: Input should be greater than or equal to 1")
  else if ∃ page ∈ metadata.pageEnd, page < 1 then
    .error (.validation "page_end: Input should be greater than or equal to 1")
  else if metadata.pageStart.isNone ≠ metadata.pageEnd.isNone then
    .error (.validation "page_start and page_end must be provided together")
  else if ∃ first ∈ metadata.pageStart, ∃ last ∈ metadata.pageEnd, last < first then
    .error (.validation "page_end cannot precede page_start")
  else if metadata.sourceOrderStart.isNone ≠ metadata.sourceOrderEnd.isNone then
    .error (.validation "source order bounds must be provided together")
  else if ∃ first ∈ metadata.sourceOrderStart, ∃ last ∈ metadata.sourceOrderEnd, last < first then
    .error (.validation "source_order_end cannot precede source_order_start")
  else if metadata.boundingBox ≠ none ∧ metadata.pageStart ≠ metadata.pageEnd then
    .error (.validation "one chunk bounding_box requires one source page")
  else .ok metadata

structure ChunkRecord where
  id : String
  idAlgorithm : String := "sha256-v1"
  tenantId : String
  knowledgeBaseId : String
  documentId : String
  documentVersionId : String
  parsedDocumentId : String
  sequence : ℕ
  content : List Char
  sourceBlockIds : List String
  tokenCount : ℕ
  metadata : ChunkMetadata
  deriving DecidableEq

/-- The constraints of the fields, and `source_blocks_are_unique`. -/
def ChunkRecord.validate (record : ChunkRecord) : Except Error ChunkRecord := do
  let id ← nonEmptyText record.id
  let idAlgorithm ← nonEmptyText record.idAlgorithm
  let tenantId ← nonEmptyText record.tenantId
  let knowledgeBaseId ← nonEmptyText record.knowledgeBaseId
  let documentId ← nonEmptyText record.documentId
  let documentVersionId ← nonEmptyText record.documentVersionId
  let parsedDocumentId ← nonEmptyText record.parsedDocumentId
  let content ← nonEmptyText (String.ofList record.content)
  let sourceBlockIds ← record.sourceBlockIds.mapM nonEmptyText
  if sourceBlockIds = [] then
    .error (.validation "source_block_ids: Tuple should have at least 1 item after validation")
  else if ¬ sourceBlockIds.Nodup then
    .error (.validation "source_block_ids must be unique")
  else
    .ok { record with id, idAlgorithm, tenantId, knowledgeBaseId, documentId, documentVersionId,
                      parsedDocumentId, content := content.toList, sourceBlockIds }

/-- `derive_chunk_id`; `digest` is the hexadecimal SHA-256 digest of a text. -/
def deriveChunkId (digest : String → String) (tenantId documentVersionId : String)
    (sequence : ℕ) (sourceBlockIds : List String) (content : List Char) : Except Error String :=
  let tenant := Agent.strip tenantId
  let version := Agent.strip documentVersionId
  if tenant = "" ∨ version = "" ∨ sourceBlockIds = [] ∨
      Agent.strip (String.ofList content) = "" then
    .error (.validation "chunk identity inputs must not be empty")
  else
    let parts := ["sha256-v1", tenant, version, toString sequence,
      ",".intercalate sourceBlockIds, digest (String.ofList content)]
    .ok ("chk_" ++ Agent.takeText 32 (digest ("\x1f".intercalate parts)))

/-- `derive_chunk_id_v2`. -/
def deriveChunkIdV2 (digest : String → String)
    (tenantId documentVersionId strategyId strategyVersion : String) (sequence : ℕ)
    (sourceBlockIds : List String) (content : List Char) : Except Error String :=
  let values := [tenantId, documentVersionId, strategyId, strategyVersion].map Agent.strip
  let content := Agent.strip (String.ofList content)
  if "" ∈ values ∨ content = "" ∨ sourceBlockIds = [] then
    .error (.validation "v2 chunk identity inputs must not be empty")
  else
    let parts := "sha256-v2" :: values ++
      [toString sequence, ",".intercalate sourceBlockIds, digest content]
    .ok ("chk_" ++ Agent.takeText 32 (digest ("\x1f".intercalate parts)))

structure ChunkingRequest where
  parsedDocument : ParsedDocument
  maxTokens : Option ℕ := none
  maxTokens_pos : ∀ limit ∈ maxTokens, 1 ≤ limit

end Chunking
end Knowledge
end RagflowAgent
