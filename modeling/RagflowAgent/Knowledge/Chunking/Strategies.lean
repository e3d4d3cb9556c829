import RagflowAgent.Knowledge.Chunking.Document
import RagflowAgent.Knowledge.Chunking.Questions
import RagflowAgent.Knowledge.Chunking.Split
import RagflowAgent.Text.Lines

/-!
# The chunkers

`GeneralChunker.chunk` splits the text of one block after the other.  `ScenarioChunker.chunk`
first makes groups of the blocks, in one of eight ways, and splits the content of the groups.

* `appendChunks` is the loop of both: a chunk is numbered by the chunks there are already;
* `ScenarioChunker.groups` are the groups of a strategy whose content is not blank;
* `Chunker.chunk` is `chunk` of the chunker that was configured.
-/

namespace RagflowAgent
namespace Knowledge
namespace Chunking

open Text Text.Pattern

/-- The bounds that `__init__` of both chunkers accepts. -/
structure TokenBounds where
  maxTokens : ℕ
  overlapTokens : ℕ
  maxTokens_pos : 1 ≤ maxTokens
  overlap_lt : overlapTokens < maxTokens

/-- `request.max_tokens or self._max_tokens`. -/
def TokenBounds.limit (bounds : TokenBounds) (request : ChunkingRequest) : ℕ :=
  request.maxTokens.getD bounds.maxTokens

def TokenBounds.overlap (bounds : TokenBounds) (request : ChunkingRequest) : ℕ :=
  min bounds.overlapTokens (bounds.limit request - 1)

/-- Make a record of every item, each with the number of records before it. -/
def appendChunks {α : Type} (record : ℕ → α → Except Error ChunkRecord) (items : List α) :
    Except Error (List ChunkRecord) :=
  items.foldlM (fun records item => do
    let next ← record records.length item
    return records ++ [next]) []

/-! ## The general chunker -/

namespace GeneralChunker

def metadata (document : ParsedDocument) (block : ParsedBlock) : Except Error ChunkMetadata :=
  ChunkMetadata.validate
    { headingPath := block.headingPath
      pageStart := block.pageNumber
      pageEnd := block.pageNumber
      sourceOrderStart := some block.order
      sourceOrderEnd := some block.order
      blockKinds := [block.kind]
      boundingBox := block.boundingBox
      containsTable := block.kind = .table
      containsImage := block.kind = .image
      parserName := document.parserName
      parserVersion := document.parserVersion
      chunkStrategyId := "general"
      chunkStrategyVersion := "1" }

/-- The record of a content and its number of tokens. -/
def record (digest : String → String) (document : ParsedDocument) (sequence : ℕ)
    (item : ParsedBlock × (List Char × ℕ)) : Except Error ChunkRecord := do
  let (block, content, tokenCount) := item
  let sourceIds := [block.id]
  let id ← deriveChunkId digest document.tenantId document.documentVersionId sequence sourceIds
    content
  let metadata ← metadata document block
  ChunkRecord.validate
    { id
      tenantId := document.tenantId
      knowledgeBaseId := document.knowledgeBaseId
      documentId := document.documentId
      documentVersionId := document.documentVersionId
      parsedDocumentId := document.id
      sequence
      content
      sourceBlockIds := sourceIds
      tokenCount
      metadata }

def chunk (U : Unicode) (digest : String → String) (bounds : TokenBounds)
    (context : AuthorizationContext) (request : ChunkingRequest) :
    Except Error (List ChunkRecord) :=
  let document := request.parsedDocument
  if context.tenantId ≠ document.tenantId then .error (.authorization "tenant_mismatch")
  else
    let limit := bounds.limit request
    let overlap := bounds.overlap request
    appendChunks (record digest document) <| document.blocks.flatMap fun block =>
      (split U.alphabet block.text limit overlap).map fun piece => (block, piece)

end GeneralChunker

/-! ## The scenario chunkers -/

inductive ScenarioStrategy where
  | paper
  | book
  | manual
  | laws
  | qa
  | table
  | resume
  | picture
  deriving DecidableEq, Repr

def ScenarioStrategy.id : ScenarioStrategy → String
  | paper => "paper"
  | book => "book"
  | manual => "manual"
  | laws => "laws"
  | qa => "qa"
  | table => "table"
  | resume => "resume"
  | picture => "picture"

/-- `_Group`. -/
structure Group where
  blocks : List ParsedBlock
  content : List Char

namespace ScenarioChunker

/-- `[一二三四五六七八九十百千万零〇\d]+`. -/
def numeral (U : Unicode) : Pattern :=
  many (fun c => c ∈ "一二三四五六七八九十百千万零〇".toList || U.isDigit c) 1 none

/-- `_LAW_ARTICLE.match(text)`. -/
def isLawArticle (U : Unicode) (text : List Char) : Bool :=
  !((choice [sequence [Agent.word "第", numeral U, Agent.word "条"],
    sequence [Agent.word "article", Agent.spaces, many U.isDigit 1 none]]).ends
      ⟨none, text⟩).isEmpty

/-- `_CHAPTER.match(text)`. -/
def isChapter (U : Unicode) (text : List Char) : Bool :=
  !((choice [sequence [Agent.word "第", numeral U, Agent.word "章"],
    sequence [Agent.word "chapter", Agent.spaces, many U.isDigit 1 none]]).ends
      ⟨none, text⟩).isEmpty

/-- `_group`. -/
def group (U : Unicode) (blocks : List ParsedBlock) : Group where
  blocks := blocks
  content := "\n\n".toList.intercalate <|
    (blocks.map fun block => U.alphabet.strip block.text).filter fun text => text ≠ []

/-- The groups of `_heading_sections` as lists of blocks; `current` is the one that is open. -/
def headingSectionsFrom (isolate : ParsedBlock → Bool) (current : List ParsedBlock) :
    List ParsedBlock → List (List ParsedBlock)
  | [] => if current = [] then [] else [current]
  | block :: blocks =>
    if isolate block then
      (if current = [] then [] else [current]) ++
        [block] :: headingSectionsFrom isolate [] blocks
    else if block.kind = .heading ∧ current ≠ [] then
      current :: headingSectionsFrom isolate [block] blocks
    else headingSectionsFrom isolate (current ++ [block]) blocks

def headingSections (U : Unicode) (isolate : ParsedBlock → Bool) (blocks : List ParsedBlock) :
    List Group :=
  (headingSectionsFrom isolate [] blocks).map (group U)

def paper (U : Unicode) (blocks : List ParsedBlock) : List Group :=
  headingSections U (fun block => block.kind ∈ [.table, .image]) blocks

def manual (U : Unicode) (blocks : List ParsedBlock) : List Group :=
  headingSections U (fun block => block.kind ∈ [.table, .image]) blocks

def resume (U : Unicode) (blocks : List ParsedBlock) : List Group :=
  headingSections U (fun _ => false) blocks

/-- The chapters of `_book`. -/
def chaptersFrom (U : Unicode) (current : List ParsedBlock) :
    List ParsedBlock → List (List ParsedBlock)
  | [] => if current = [] then [] else [current]
  | block :: blocks =>
    if block.kind = .heading ∧ (isChapter U block.text = true ∨ current ≠ []) then
      (if current = [] then [] else [current]) ++ chaptersFrom U [block] blocks
    else chaptersFrom U (current ++ [block]) blocks

def book (U : Unicode) (blocks : List ParsedBlock) : List Group :=
  (chaptersFrom U [] blocks).map (group U)

/-- The articles of one block in `_laws`, as lists of lines. -/
def articlesFrom (U : Unicode) (current : List (List Char)) :
    List (List Char) → List (List (List Char))
  | [] => if current = [] then [] else [current]
  | line :: lines =>
    if isLawArticle U line = true ∧ current ≠ [] then current :: articlesFrom U [line] lines
    else articlesFrom U (current ++ [line]) lines

def laws (U : Unicode) (blocks : List ParsedBlock) : List Group :=
  blocks.flatMap fun block =>
    let lines := ((splitLines block.text).map U.alphabet.strip).filter fun line => line ≠ []
    (articlesFrom U [] lines).map fun current =>
      { blocks := [block], content := "\n".toList.intercalate current }

/-- `f"Question: {question}\nAnswer: {answer}"`. -/
def questionAnswer (U : Unicode) (question answer : List Char) : List Char :=
  "Question: ".toList ++ U.alphabet.strip question ++
    ("\nAnswer: ".toList ++ U.alphabet.strip answer)

/-- The groups of a table in `_qa`. -/
def qaRows (U : Unicode) (block : ParsedBlock) : List Group :=
  let rows := (splitLines block.text).map fun row => row.splitOn '\t'
  (if 1 < rows.length then rows.drop 1 else rows).filterMap fun
    | question :: answer :: _ =>
      if U.alphabet.strip question ≠ [] ∧ U.alphabet.strip answer ≠ [] then
        some { blocks := [block], content := questionAnswer U question answer }
      else none
    | _ => none

/-- The groups of another block in `_qa`. -/
def qaText (U : Unicode) (block : ParsedBlock) : List Group :=
  let found := finditer block.text
  if found ≠ [] then
    found.map fun m => { blocks := [block], content := questionAnswer U m.question m.answer }
  else if U.alphabet.strip block.text ≠ [] then
    [{ blocks := [block], content := U.alphabet.strip block.text }]
  else []

def qa (U : Unicode) (blocks : List ParsedBlock) : List Group :=
  blocks.flatMap fun block =>
    if block.kind = .table then qaRows U block else qaText U block

/-- The groups of one block in `_table`. -/
def tableGroups (U : Unicode) (block : ParsedBlock) : List Group :=
  if block.kind ≠ .table then
    if U.alphabet.strip block.text ≠ [] then
      [{ blocks := [block], content := U.alphabet.strip block.text }]
    else []
  else
    match (splitLines block.text).filter fun row => U.alphabet.strip row ≠ [] with
    | [] => []
    | [header] => [{ blocks := [block], content := header }]
    | header :: dataRows => dataRows.map fun row =>
      { blocks := [block], content := header ++ '\n' :: row }

def table (U : Unicode) (blocks : List ParsedBlock) : List Group :=
  blocks.flatMap (tableGroups U)

/-- The groups of one page in `_picture`. -/
def pageGroups (U : Unicode) (pageBlocks : List ParsedBlock) : List Group :=
  let images := pageBlocks.filter fun block => block.kind = .image
  let text := pageBlocks.filter fun block => block.kind ≠ .image
  if images ≠ [] then
    [{ blocks := images ++ text
       content := "\n".toList.intercalate
        (((images ++ text).map ParsedBlock.text).filter fun text => text ≠ []) }]
  else text.map fun block => group U [block]

/-- The pages come in the order in which they are first seen. -/
def picture (U : Unicode) (blocks : List ParsedBlock) : List Group :=
  (blocks.map ParsedBlock.pageNumber).eraseDups.flatMap fun page =>
    pageGroups U (blocks.filter fun block => block.pageNumber = page)

def method (U : Unicode) : ScenarioStrategy → List ParsedBlock → List Group
  | .paper => paper U
  | .book => book U
  | .manual => manual U
  | .laws => laws U
  | .qa => qa U
  | .table => table U
  | .resume => resume U
  | .picture => picture U

def groups (U : Unicode) (strategy : ScenarioStrategy) (document : ParsedDocument) : List Group :=
  (method U strategy document.blocks).filter fun group => U.alphabet.strip group.content ≠ []

def combinedBox : List BoundingBox → Except Error (Option BoundingBox)
  | [] => .ok none
  | box :: boxes =>
    let all := box :: boxes
    if (all.map BoundingBox.coordinateSpace).eraseDups.length ≠ 1 then .ok none
    else
      (BoundingBox.make ((all.map BoundingBox.x0).min?.getD box.x0)
        ((all.map BoundingBox.y0).min?.getD box.y0) ((all.map BoundingBox.x1).max?.getD box.x1)
        ((all.map BoundingBox.y1).max?.getD box.y1) box.coordinateSpace).map some

/-- `self._combined_box(boxes) if len(set(pages)) == 1 else None`. -/
def pageBox (pages : List ℕ) (boxes : List BoundingBox) : Except Error (Option BoundingBox) :=
  if pages.eraseDups.length = 1 then combinedBox boxes else .ok none

def metadata (strategy : ScenarioStrategy) (document : ParsedDocument)
    (blocks : List ParsedBlock) : Except Error ChunkMetadata := do
  let pages := blocks.filterMap ParsedBlock.pageNumber
  let headingPath := ((blocks.map ParsedBlock.headingPath).find? fun path => path ≠ []).getD []
  let kinds := (blocks.map ParsedBlock.kind).eraseDups
  let boxes := blocks.filterMap ParsedBlock.boundingBox
  let boundingBox ← pageBox pages boxes
  let orders := blocks.map ParsedBlock.order
  if orders = [] then .error (.validation "min() iterable argument is empty")
  else
    ChunkMetadata.validate
      { headingPath
        pageStart := pages.min?
        pageEnd := pages.max?
        sourceOrderStart := orders.min?
        sourceOrderEnd := orders.max?
        blockKinds := kinds
        boundingBox
        containsTable := BlockKind.table ∈ kinds
        containsImage := BlockKind.image ∈ kinds
        parserName := document.parserName
        parserVersion := document.parserVersion
        chunkStrategyId := strategy.id
        chunkStrategyVersion := "1" }

def record (digest : String → String) (strategy : ScenarioStrategy) (document : ParsedDocument)
    (sequence : ℕ) (item : Group × (List Char × ℕ)) : Except Error ChunkRecord := do
  let (group, content, tokenCount) := item
  let sourceIds := (group.blocks.map ParsedBlock.id).eraseDups
  let id ← deriveChunkIdV2 digest document.tenantId document.documentVersionId strategy.id "1"
    sequence sourceIds content
  let metadata ← metadata strategy document group.blocks
  ChunkRecord.validate
    { id
      idAlgorithm := "sha256-v2"
      tenantId := document.tenantId
      knowledgeBaseId := document.knowledgeBaseId
      documentId := document.documentId
      documentVersionId := document.documentVersionId
      parsedDocumentId := document.id
      sequence
      content
      sourceBlockIds := sourceIds
      tokenCount
      metadata }

def chunk (U : Unicode) (digest : String → String) (strategy : ScenarioStrategy)
    (bounds : TokenBounds) (context : AuthorizationContext) (request : ChunkingRequest) :
    Except Error (List ChunkRecord) :=
  let document := request.parsedDocument
  if context.tenantId ≠ document.tenantId then .error (.authorization "tenant_mismatch")
  else
    let limit := bounds.limit request
    let overlap := bounds.overlap request
    appendChunks (record digest strategy document) <| (groups U strategy document).flatMap
      fun group => (split U.alphabet group.content limit overlap).map fun piece => (group, piece)

end ScenarioChunker

/-! ## All strategies -/

inductive Strategy where
  | general
  | scenario (strategy : ScenarioStrategy)
  deriving DecidableEq, Repr

/-- `chunk` of the chunker with this strategy. -/
def Strategy.chunk (U : Unicode) (digest : String → String) (bounds : TokenBounds)
    (context : AuthorizationContext) (request : ChunkingRequest) :
    Strategy → Except Error (List ChunkRecord)
  | general => GeneralChunker.chunk U digest bounds context request
  | scenario strategy => ScenarioChunker.chunk U digest strategy bounds context request

end Chunking
end Knowledge
end RagflowAgent
