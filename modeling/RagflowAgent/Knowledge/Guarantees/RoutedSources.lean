import RagflowAgent.Knowledge.Application.Upload
import RagflowAgent.Knowledge.Chunking.Strategies
import RagflowAgent.Knowledge.Parsing.Registry

/-!
# From a source to its chunks

The pipeline asks the registry of the parsers for a document, and the registry of the chunkers for
the chunks of that document, with the strategy `auto`.

* `ChunkerRegistry.chunk` is the second registry, and `chunk_of_mem` says which chunker answers;
* `Format.capability` are the parsers of the deployment.  No two of them share a media type
  (`eq_of_mem_mediaTypes`), together they have the media types of an upload
  (`mem_allowedUploadMediaTypes_iff`), and each of them recommends a strategy that there is
  (`defaultChunkStrategy_eq`);
* `chunksOf_spec`: the parser and the strategy of one format make the chunks of a source, or there
  is no format for it.
-/

namespace RagflowAgent
namespace Knowledge
namespace Parsing

/-- The document as a chunker reads it. -/
def ParsedDocument.forChunker (document : ParsedDocument) : Chunking.ParsedDocument where
  id := document.id
  tenantId := document.tenantId
  knowledgeBaseId := document.knowledgeBaseId
  documentId := document.documentId
  documentVersionId := document.documentVersionId
  parserName := document.parserName
  parserVersion := document.parserVersion
  blocks := document.blocks.map ParsedBlock.toParsedBlock
  nonEmpty := fun text htext => document.nonEmpty text <| by
    simp only [List.mem_cons, List.not_mem_nil, or_false] at htext ⊢
    tauto
  ids_nodup := by
    rw [List.map_map]
    exact document.ids_nodup
  orders_nodup := by
    rw [List.map_map]
    exact document.orders_nodup
  orders_sorted := by
    rw [List.map_map]
    exact document.orders_sorted

end Parsing

namespace Routing

open Chunking (Unicode TokenBounds Strategy)
open Parsing (BinaryParserPort ParsedPayload ParserCapability ParserFailure ParserRegistry
  ParserSettings noParser)

/-! ## The registry of the chunkers -/

/-- A document to be split with a strategy. -/
structure ChunkingRequest where
  parsedDocument : Parsing.ParsedDocument
  strategyId : String
  strategyVersion : String
  maxTokens : Option ℕ := none
  maxTokens_pos : ∀ limit ∈ maxTokens, 1 ≤ limit

namespace ChunkingRequest

variable (request : ChunkingRequest)

/-- What a chunker reads of it. -/
def forChunker : Chunking.ChunkingRequest where
  parsedDocument := request.parsedDocument.forChunker
  maxTokens := request.maxTokens
  maxTokens_pos := request.maxTokens_pos

/-- The strategy that is asked for, or the one that the parser recommends. -/
def selected : String :=
  if request.strategyId = "auto" then request.parsedDocument.recommendedChunkStrategy
  else request.strategyId

end ChunkingRequest

/-- A chunker; `_identity` refuses empty texts. -/
structure ChunkerPort where
  strategyId : String
  strategyVersion : String
  declared : strategyId ≠ "" ∧ strategyVersion ≠ ""
  chunk : AuthorizationContext → ChunkingRequest → Except Error (List Chunking.ChunkRecord)

/-- The constructor refuses other lists of chunkers. -/
structure ChunkerRegistry where
  chunkers : List ChunkerPort
  ne_nil : chunkers ≠ []
  ids_nodup : (chunkers.map fun chunker => chunker.strategyId).Nodup

namespace ChunkerRegistry

/-- `chunk`. -/
def chunk (registry : ChunkerRegistry) (context : AuthorizationContext)
    (request : ChunkingRequest) : Except Error (List Chunking.ChunkRecord) :=
  match registry.chunkers.find? fun chunker => chunker.strategyId = request.selected with
  | none => .error (.conflict "chunk strategy is not registered" "chunk_strategy_unknown")
  | some chunker =>
    if request.strategyId ≠ "auto" ∧
        request.strategyVersion ∉ ["auto", chunker.strategyVersion] then
      .error (.conflict "chunk strategy version is not available"
        "chunk_strategy_version_unknown")
    else
      chunker.chunk context
        { request with
          strategyId := chunker.strategyId
          strategyVersion := chunker.strategyVersion }

variable {registry : ChunkerRegistry} {context : AuthorizationContext} {request : ChunkingRequest}

/-- The chunker of the selected strategy answers, wherever it stands. -/
theorem chunk_of_mem {chunker : ChunkerPort} (hmem : chunker ∈ registry.chunkers)
    (hselected : chunker.strategyId = request.selected) (hauto : request.strategyId = "auto") :
    registry.chunk context request = chunker.chunk context
      { request with
        strategyId := chunker.strategyId
        strategyVersion := chunker.strategyVersion } := by
  have hfind : registry.chunkers.find? (fun chunker => chunker.strategyId = request.selected) =
      some chunker := by
    cases hfound : registry.chunkers.find? fun chunker =>
        chunker.strategyId = request.selected with
    | none => exact absurd (decide_eq_true hselected) (List.find?_eq_none.1 hfound chunker hmem)
    | some found =>
      have hid : found.strategyId = request.selected := by
        simpa only [decide_eq_true_eq] using List.find?_some hfound
      rw [List.inj_on_of_nodup_map registry.ids_nodup (List.mem_of_find?_eq_some hfound) hmem
        (hid.trans hselected.symm)]
  rw [chunk, hfind]
  exact if_neg fun h => h.1 hauto

end ChunkerRegistry

/-- The identifier that a strategy is registered with. -/
def strategyId : Strategy → String
  | .general => "general"
  | .scenario strategy => strategy.id

theorem strategyId_ne_empty (strategy : Strategy) : strategyId strategy ≠ "" := by
  cases strategy with
  | general => decide
  | scenario strategy => cases strategy <;> decide

/-- The strategies of the runtime. -/
def strategies : List Strategy :=
  .general :: [.paper, .book, .manual, .laws, .qa, .table, .resume, .picture].map .scenario

/-- `GeneralChunker(...)` and `ScenarioChunker(...)`. -/
def chunkerOf (U : Unicode) (digest : String → String) (bounds : TokenBounds)
    (strategy : Strategy) : ChunkerPort where
  strategyId := strategyId strategy
  strategyVersion := "1"
  declared := ⟨strategyId_ne_empty strategy, by decide⟩
  chunk := fun context request => strategy.chunk U digest bounds context request.forChunker

/-- `ChunkerRegistry(...)` of the runtime. -/
def runtimeChunkers (U : Unicode) (digest : String → String) (bounds : TokenBounds) :
    ChunkerRegistry where
  chunkers := strategies.map (chunkerOf U digest bounds)
  ne_nil := List.cons_ne_nil _ _
  ids_nodup := by
    rw [List.map_map]
    show (strategies.map strategyId).Nodup
    decide

theorem mem_strategies (strategy : Strategy) : strategy ∈ strategies := by
  cases strategy with
  | general => decide
  | scenario strategy => cases strategy <;> decide

/-! ## The parsers of the runtime -/

/-- What the parsers of the runtime read. -/
inductive Format where
  | text
  | markdown
  | html
  | docx
  | pptx
  | xlsx
  | pdf
  | image
  deriving DecidableEq, Repr

namespace Format

def all : List Format := [text, markdown, html, docx, pptx, xlsx, pdf, image]

theorem mem_all (format : Format) : format ∈ all := by
  cases format <;> decide

def parserId : Format → String
  | text => "independent-text"
  | markdown => "independent-markdown"
  | html => "independent-html"
  | docx => "independent-docx"
  | pptx => "independent-pptx"
  | xlsx => "independent-xlsx"
  | pdf => "independent-pdf-layout"
  | image => "independent-image-ocr"

def mediaTypes : Format → List String
  | text => ["text/plain"]
  | markdown => ["text/markdown"]
  | html => ["text/html"]
  | docx => ["application/vnd.openxmlformats-officedocument.wordprocessingml.document"]
  | pptx => ["application/vnd.openxmlformats-officedocument.presentationml.presentation"]
  | xlsx => ["application/vnd.openxmlformats-officedocument.spreadsheetml.sheet"]
  | pdf => ["application/pdf"]
  | image => ["image/png", "image/jpeg", "image/tiff", "image/webp", "image/bmp"]

def extensions : Format → List String
  | text => [".txt"]
  | markdown => [".md", ".markdown"]
  | html => [".html", ".htm"]
  | docx => [".docx"]
  | pptx => [".pptx"]
  | xlsx => [".xlsx"]
  | pdf => [".pdf"]
  | image => [".png", ".jpg", ".jpeg", ".tif", ".tiff", ".webp", ".bmp"]

def defaultChunkStrategy : Format → String
  | text => "general"
  | markdown => "manual"
  | html => "manual"
  | docx => "manual"
  | pptx => "manual"
  | xlsx => "table"
  | pdf => "paper"
  | image => "picture"

theorem nonEmptyText_capability (format : Format) :
    ∀ text ∈ format.parserId :: "2" :: format.defaultChunkStrategy ::
      (format.mediaTypes ++ format.extensions), nonEmptyText text = .ok text := by
  cases format <;> decide

/-- `capability`. -/
def capability (format : Format) : ParserCapability where
  parserId := format.parserId
  parserVersion := "2"
  mediaTypes := format.mediaTypes
  extensions := format.extensions
  defaultChunkStrategy := format.defaultChunkStrategy
  nonEmpty := format.nonEmptyText_capability

/-- No two parsers have a media type in common. -/
theorem eq_of_mem_mediaTypes {format format' : Format} {mediaType : String}
    (h : mediaType ∈ format.mediaTypes) (h' : mediaType ∈ format'.mediaTypes) :
    format = format' := by
  have hall : ∀ f ∈ all, ∀ f' ∈ all, f ≠ f' → ∀ m ∈ f.mediaTypes, m ∉ f'.mediaTypes := by decide
  by_contra hne
  exact hall format format.mem_all format' format'.mem_all hne mediaType h h'

/-- An upload takes the media types that there is a parser for. -/
theorem mem_allowedUploadMediaTypes_iff {mediaType : String} :
    mediaType ∈ UploadService.allowedUploadMediaTypes ↔
      ∃ format : Format, mediaType ∈ format.mediaTypes := by
  have hsame : UploadService.allowedUploadMediaTypes =
      [text, markdown, html, pdf, docx, pptx, xlsx, image].flatMap mediaTypes := rfl
  have hmem : ∀ format, format ∈ [text, markdown, html, pdf, docx, pptx, xlsx, image] := by
    intro format
    cases format <;> decide
  rw [hsame, List.mem_flatMap]
  exact exists_congr fun format => and_iff_right (hmem format)

/-- The strategy that is recommended. -/
def strategy : Format → Strategy
  | text => .general
  | xlsx => .scenario .table
  | pdf => .scenario .paper
  | image => .scenario .picture
  | _ => .scenario .manual

/-- What a parser recommends is a strategy that there is. -/
theorem defaultChunkStrategy_eq (format : Format) :
    format.defaultChunkStrategy = strategyId format.strategy := by
  cases format <;> rfl

end Format

/-! ## The two registries together -/

section Pipeline

variable (settings : ParserSettings)
  (parseBytes : Format → List UInt8 → Parsing.ParseRequest → String →
    Except ParserFailure ParsedPayload)
  (request : Parsing.ParseRequest)

def Format.parser (format : Format) : BinaryParserPort where
  capability := format.capability
  parseBytes := parseBytes format

/-- `ParserRegistry(...)` of the runtime, with `build_default_binary_parsers`. -/
def runtimeParsers : ParserRegistry where
  toParserSettings := settings
  parsers := Format.all.map (Format.parser parseBytes)
  ne_nil := List.cons_ne_nil _ _
  ids_nodup := by
    rw [List.map_map]
    show (Format.all.map Format.parserId).Nodup
    decide

/-- The source has the media type and an extension of this format. -/
def Format.Fits (format : Format) : Prop :=
  request.mediaType ∈ format.mediaTypes ∧ settings.extensionOf request ∈ format.extensions

/-- The request as the pipeline makes it: no parser is asked for. -/
def autoParsed : Parsing.ParseRequest := { request with parserId := none }

/-- The request as the pipeline makes it: the strategy is left open. -/
def autoChunked (document : Parsing.ParsedDocument) (limit : { n : ℕ // 1 ≤ n }) :
    ChunkingRequest where
  parsedDocument := document
  strategyId := "auto"
  strategyVersion := "auto"
  maxTokens := some limit
  maxTokens_pos := by
    rintro _ ⟨⟩
    exact limit.2

/-- What the pipeline asks of the two registries. -/
def chunksOf (parsers : ParserRegistry) (chunkers : ChunkerRegistry) (st : Store)
    (context : AuthorizationContext) (request : Parsing.ParseRequest)
    (limit : { n : ℕ // 1 ≤ n }) (now : ℕ) : Except Error (List Chunking.ChunkRecord) := do
  let document ← parsers.parse st (autoParsed request) now
  chunkers.chunk context (autoChunked document limit)

variable {settings parseBytes request}

theorem mem_runtimeParsers {parser : BinaryParserPort} :
    parser ∈ (runtimeParsers settings parseBytes).parsers ↔
      ∃ format : Format, format.parser parseBytes = parser := by
  rw [runtimeParsers, List.mem_map]
  exact exists_congr fun format => and_iff_right format.mem_all

/-- The parser of the format that fits is taken: no other one fits. -/
theorem resolve_of_fits {format : Format} (hfits : format.Fits settings request) :
    (runtimeParsers settings parseBytes).resolve (autoParsed request) =
      .ok (format.parser parseBytes) := by
  refine ParserRegistry.resolve_eq_iff.2 (.best rfl (mem_runtimeParsers.2 ⟨format, rfl⟩) hfits ?_)
  intro other hother hfits' hne
  obtain ⟨format', rfl⟩ := mem_runtimeParsers.1 hother
  rw [Format.eq_of_mem_mediaTypes hfits'.1 hfits.1] at hne
  exact absurd rfl hne

/-- Without one, an uploaded source has the wrong extension. -/
theorem resolve_of_not_fits (hnone : ¬ ∃ format : Format, format.Fits settings request) :
    (runtimeParsers settings parseBytes).resolve (autoParsed request) =
      .error (noParser (decide (request.mediaType ∈ UploadService.allowedUploadMediaTypes))) := by
  refine ParserRegistry.resolve_eq_iff.2 (.nothing rfl ?_ ?_)
  · intro parser hparser hfits
    obtain ⟨format, rfl⟩ := mem_runtimeParsers.1 hparser
    exact hnone ⟨format, hfits⟩
  · rw [decide_eq_true_iff, Format.mem_allowedUploadMediaTypes_iff]
    constructor
    · rintro ⟨format, hformat⟩
      exact ⟨format.parser parseBytes, mem_runtimeParsers.2 ⟨format, rfl⟩, hformat⟩
    · rintro ⟨parser, hparser, hmediaType⟩
      obtain ⟨format, rfl⟩ := mem_runtimeParsers.1 hparser
      exact ⟨format, hmediaType⟩

/-- The document of a parser is split with the strategy that the parser recommends. -/
theorem chunk_autoChunked (U : Unicode) (digest : String → String) (bounds : TokenBounds)
    (context : AuthorizationContext) (limit : { n : ℕ // 1 ≤ n }) {format : Format}
    {document : Parsing.ParsedDocument}
    (h : document.recommendedChunkStrategy = format.defaultChunkStrategy) :
    (runtimeChunkers U digest bounds).chunk context (autoChunked document limit) =
      format.strategy.chunk U digest bounds context (autoChunked document limit).forChunker := by
  have hmem : chunkerOf U digest bounds format.strategy ∈
      (runtimeChunkers U digest bounds).chunkers :=
    List.mem_map_of_mem (mem_strategies format.strategy)
  have hselected : strategyId format.strategy = (autoChunked document limit).selected :=
    (format.defaultChunkStrategy_eq.symm.trans h.symm).trans (if_pos rfl).symm
  exact ChunkerRegistry.chunk_of_mem hmem hselected rfl

/-- **A source becomes chunks through one format.**  There is a format for it, or the registry says
what is wrong; and there are chunks exactly if the parser of a format for it reads blocks in the
whole source, and the strategy of this format splits them. -/
theorem chunksOf_spec (settings : ParserSettings)
    (parseBytes : Format → List UInt8 → Parsing.ParseRequest → String →
      Except ParserFailure ParsedPayload)
    (U : Unicode) (digest : String → String) (bounds : TokenBounds) (st : Store)
    (context : AuthorizationContext) (request : Parsing.ParseRequest)
    (limit : { n : ℕ // 1 ≤ n }) (now : ℕ) :
    let parsers := runtimeParsers settings parseBytes
    let chunks := chunksOf parsers (runtimeChunkers U digest bounds) st context request limit now
    ((∃ format : Format, format.Fits settings request) ∨
      chunks = .error
        (noParser (decide (request.mediaType ∈ UploadService.allowedUploadMediaTypes)))) ∧
    ∀ records, chunks = .ok records ↔ ∃ (format : Format) (document : Parsing.ParsedDocument),
      ∃ payload parsed, format.Fits settings request ∧
        parsers.Loads st (autoParsed request) payload ∧ payload ≠ [] ∧
        parseBytes format payload (autoParsed request) settings.ocrLanguage = .ok parsed ∧
        parsed.blocks ≠ [] ∧
        document.IsFrom (format.parser parseBytes) (autoParsed request) parsed now ∧
        format.strategy.chunk U digest bounds context (autoChunked document limit).forChunker =
          .ok records := by
  intro parsers chunks
  by_cases hfits : ∃ format : Format, format.Fits settings request
  · obtain ⟨format, hfits⟩ := hfits
    have hresolve : parsers.resolve (autoParsed request) = .ok (format.parser parseBytes) :=
      resolve_of_fits hfits
    refine ⟨.inl ⟨format, hfits⟩, fun records => bind_eq_ok.trans ⟨?_, ?_⟩⟩
    · rintro ⟨document, hdocument, hrecords⟩
      obtain ⟨payload, parsed, hloads, hne, hparsed, hblocks, hfrom⟩ :=
        (ParserRegistry.parse_eq_ok_iff hresolve).1 hdocument
      rw [chunk_autoChunked U digest bounds context limit hfrom.parser.2.2] at hrecords
      exact ⟨format, document, payload, parsed, hfits, hloads, hne, hparsed, hblocks, hfrom,
        hrecords⟩
    · rintro ⟨format', document, payload, parsed, hfits', hloads, hne, hparsed, hblocks, hfrom,
        hrecords⟩
      obtain rfl := Format.eq_of_mem_mediaTypes hfits'.1 hfits.1
      refine ⟨document, (ParserRegistry.parse_eq_ok_iff hresolve).2
        ⟨payload, parsed, hloads, hne, hparsed, hblocks, hfrom⟩, ?_⟩
      rw [chunk_autoChunked U digest bounds context limit hfrom.parser.2.2]
      exact hrecords
  · have herror : chunks = .error
        (noParser (decide (request.mediaType ∈ UploadService.allowedUploadMediaTypes))) := by
      show (parsers.parse st (autoParsed request) now >>= _) = _
      rw [ParserRegistry.parse_of_resolve_error (resolve_of_not_fits hfits)]
      rfl
    refine ⟨.inr herror, fun records => ⟨fun h => ?_, ?_⟩⟩
    · rw [herror] at h
      cases h
    · rintro ⟨format, -, -, -, hformat, -⟩
      exact absurd ⟨format, hformat⟩ hfits

end Pipeline

end Routing
end Knowledge
end RagflowAgent
