import RagflowAgent.Fallible
import RagflowAgent.Knowledge.Parsing.Blocks
import RagflowAgent.Knowledge.World
import RagflowAgent.Ranking

/-!
# The parser registry

`ParserRegistry.parse` chooses a parser for a stored source, loads the source within a limit, and
makes a parsed document of what the parser returns.

* `ParserRegistry.resolve` is the choice.  It sorts the parsers by their priority and compares the
  first two that fit; `Routes` says what it means, without an order, and `resolve_eq_iff` that the
  two agree;
* `collect` is the loop that loads a stream, and `collect_eq` says where it stops;
* `parse_spec`: which document is returned, and that the order of registration does not matter.
-/

namespace RagflowAgent
namespace Knowledge
namespace Parsing

open Ranking

/-! ## Parsers -/

/-- The request of the pipeline, and the parser that is asked for, if one is. -/
structure ParseRequest extends Knowledge.ParseRequest where
  parserId : Option String := none
  nonEmpty : ∀ text ∈ [tenantId, knowledgeBaseId, documentId, documentVersionId, objectKey,
    mediaType, traceId], nonEmptyText text = .ok text

/-- Declarative parser registration. -/
structure ParserCapability where
  parserId : String
  parserVersion : String
  mediaTypes : List String
  extensions : List String
  defaultChunkStrategy : String
  priority : ℤ := 0
  nonEmpty : ∀ text ∈ parserId :: parserVersion :: defaultChunkStrategy ::
    (mediaTypes ++ extensions), nonEmptyText text = .ok text

/-- How parsing ends without a result: at the deadline, or with an error that is raised. -/
inductive ParserFailure where
  | timedOut
  | raised (error : Error)

/-- A parser; `parseBytes` is also given the language for character recognition. -/
structure BinaryParserPort where
  capability : ParserCapability
  parseBytes : List UInt8 → ParseRequest → String → Except ParserFailure ParsedPayload

/-- `PurePosixPath(key).name`: the last part that is not empty and not `.`. -/
def pathName (key : List Char) : List Char :=
  ((key.splitOn '/').filter fun part => part ≠ [] ∧ part ≠ ['.']).getLast?.getD []

/-- `PurePosixPath(key).suffix`: from the last dot of the name, unless the name begins or ends
there. -/
def pathSuffix (key : List Char) : List Char :=
  let (ending, rest) := (pathName key).reverse.span (· ≠ '.')
  match rest with
  | _ :: _ :: _ => if ending = [] then [] else '.' :: ending.reverse
  | _ => []

/-- `StoredObject`. -/
structure StoredObject where
  tenantId : String
  objectKey : String
  mediaType : String
  sizeBytes : ℕ
  checksumSha256 : String

/-- What a registry has besides its parsers.  `read` gives the parts of a stream, and the error it
breaks off with if it does. -/
structure ParserSettings where
  read : AuthorizationContext → StoredObject → List (List UInt8) × Option Error
  casefold : List Char → String
  maxBytes : ℕ
  ocrLanguage : String

/-- The constructor refuses other lists of parsers. -/
structure ParserRegistry extends ParserSettings where
  parsers : List BinaryParserPort
  ne_nil : parsers ≠ []
  ids_nodup : (parsers.map fun parser => parser.capability.parserId).Nodup

/-! ## The choice of a parser -/

namespace ParserSettings

variable (settings : ParserSettings) (request : ParseRequest)

/-- `PurePosixPath(request.object_key).suffix.casefold()`. -/
def extensionOf : String := settings.casefold (pathSuffix request.objectKey.toList)

/-- The parser declares the media type and the extension of the source. -/
def Fits (parser : BinaryParserPort) : Prop :=
  request.mediaType ∈ parser.capability.mediaTypes ∧
    settings.extensionOf request ∈ parser.capability.extensions

instance (parser : BinaryParserPort) : Decidable (settings.Fits request parser) :=
  inferInstanceAs (Decidable (_ ∧ _))

end ParserSettings

def overrideUnknown : Error :=
  .conflict "explicit parser is not registered" "parser_override_unknown"

def overrideIncompatible : Error :=
  .conflict "explicit parser is incompatible with the source" "parser_override_incompatible"

/-- No parser fits; `known` says whether one declares the media type. -/
def noParser (known : Bool) : Error :=
  .conflict "no parser matches the source MIME type and extension"
    (if known then "parser_extension_media_type_mismatch" else "parser_media_type_unsupported")

def routeAmbiguous : Error := .conflict "parser routing is ambiguous" "parser_route_ambiguous"

/-- The first of the candidates, unless the second one has its priority. -/
def pickFirst (known : Bool) : List BinaryParserPort → Except Error BinaryParserPort
  | [] => .error (noParser known)
  | [parser] => .ok parser
  | parser :: parser' :: _ =>
    if parser.capability.priority = parser'.capability.priority then .error routeAmbiguous
    else .ok parser

namespace ParserRegistry

variable (registry : ParserRegistry) (request : ParseRequest)

/-- The parsers as the registry keeps them: by priority, the greatest one first. -/
def ordered : List BinaryParserPort :=
  sortedBy (fun parser => -parser.capability.priority) registry.parsers

/-- `resolve`. -/
def resolve : Except Error BinaryParserPort :=
  match request.parserId with
  | some parserId =>
    match registry.ordered.find? fun parser => parser.capability.parserId = parserId with
    | none => .error overrideUnknown
    | some parser =>
      if registry.Fits request parser then .ok parser else .error overrideIncompatible
  | none =>
    pickFirst
      (registry.ordered.any fun parser => request.mediaType ∈ parser.capability.mediaTypes)
      (registry.ordered.filter fun parser => registry.Fits request parser)

end ParserRegistry

/-- **What a registry answers**, whatever the order of its parsers.  A parser that is asked for must
fit.  Otherwise the only one of the greatest priority among those that fit is taken. -/
inductive Routes (settings : ParserSettings) (parsers : List BinaryParserPort)
    (request : ParseRequest) : Except Error BinaryParserPort → Prop
  | explicit {parser : BinaryParserPort}
      (hasked : request.parserId = some parser.capability.parserId) (hmem : parser ∈ parsers)
      (hfits : settings.Fits request parser) :
      Routes settings parsers request (.ok parser)
  | unknown {parserId : String} (hasked : request.parserId = some parserId)
      (hnone : ∀ parser ∈ parsers, parser.capability.parserId ≠ parserId) :
      Routes settings parsers request (.error overrideUnknown)
  | incompatible {parser : BinaryParserPort}
      (hasked : request.parserId = some parser.capability.parserId) (hmem : parser ∈ parsers)
      (hnot : ¬ settings.Fits request parser) :
      Routes settings parsers request (.error overrideIncompatible)
  | best {parser : BinaryParserPort} (hauto : request.parserId = none) (hmem : parser ∈ parsers)
      (hfits : settings.Fits request parser)
      (hbest : ∀ other ∈ parsers, settings.Fits request other → other ≠ parser →
        other.capability.priority < parser.capability.priority) :
      Routes settings parsers request (.ok parser)
  | ambiguous {parser parser' : BinaryParserPort} (hauto : request.parserId = none)
      (hmem : parser ∈ parsers) (hmem' : parser' ∈ parsers) (hne : parser ≠ parser')
      (hfits : settings.Fits request parser) (hfits' : settings.Fits request parser')
      (hequal : parser.capability.priority = parser'.capability.priority)
      (hbest : ∀ other ∈ parsers, settings.Fits request other →
        other.capability.priority ≤ parser.capability.priority) :
      Routes settings parsers request (.error routeAmbiguous)
  | nothing {known : Bool} (hauto : request.parserId = none)
      (hnone : ∀ parser ∈ parsers, ¬ settings.Fits request parser)
      (hknown : known = true ↔ ∃ parser ∈ parsers,
        request.mediaType ∈ parser.capability.mediaTypes) :
      Routes settings parsers request (.error (noParser known))

section Routing

variable {settings : ParserSettings} {parsers parsers' : List BinaryParserPort}
  {request : ParseRequest} {result result' : Except Error BinaryParserPort}

theorem Routes.congr (h : Routes settings parsers request result)
    (hmem : ∀ parser, parser ∈ parsers ↔ parser ∈ parsers') :
    Routes settings parsers' request result := by
  cases h with
  | explicit hasked hparser hfits => exact .explicit hasked ((hmem _).1 hparser) hfits
  | unknown hasked hnone =>
    exact .unknown hasked fun parser hparser => hnone parser ((hmem _).2 hparser)
  | incompatible hasked hparser hnot => exact .incompatible hasked ((hmem _).1 hparser) hnot
  | best hauto hparser hfits hbest =>
    exact .best hauto ((hmem _).1 hparser) hfits fun other hother =>
      hbest other ((hmem _).2 hother)
  | ambiguous hauto hparser hparser' hne hfits hfits' hequal hbest =>
    exact .ambiguous hauto ((hmem _).1 hparser) ((hmem _).1 hparser') hne hfits hfits' hequal
      fun other hother => hbest other ((hmem _).2 hother)
  | nothing hauto hnone hknown =>
    refine .nothing hauto (fun parser hparser => hnone parser ((hmem _).2 hparser)) ?_
    rw [hknown]
    simp only [hmem]

theorem eq_of_parserId_eq (hnodup : (parsers.map fun parser => parser.capability.parserId).Nodup)
    {parser parser' : BinaryParserPort} (hmem : parser ∈ parsers) (hmem' : parser' ∈ parsers)
    (h : parser.capability.parserId = parser'.capability.parserId) : parser = parser' :=
  List.inj_on_of_nodup_map hnodup hmem hmem' h

/-- There is only one answer. -/
theorem Routes.unique (hnodup : (parsers.map fun parser => parser.capability.parserId).Nodup)
    (h : Routes settings parsers request result) (h' : Routes settings parsers request result') :
    result = result' := by
  have hinj := @eq_of_parserId_eq parsers hnodup
  have hbest : ∀ parser ∈ parsers, ∀ parser' ∈ parsers, settings.Fits request parser →
      settings.Fits request parser' →
      (∀ other ∈ parsers, settings.Fits request other → other ≠ parser →
        other.capability.priority < parser.capability.priority) →
      (∀ other ∈ parsers, settings.Fits request other → other ≠ parser' →
        other.capability.priority < parser'.capability.priority) → parser = parser' := by
    intro parser hparser parser' hparser' hfits hfits' hall hall'
    by_contra hne
    exact lt_asymm (hall parser' hparser' hfits' (Ne.symm hne)) (hall' parser hparser hfits hne)
  cases h <;> cases h' <;> grind

/-- The first of a sorted list of candidates is the right one to look at. -/
theorem routes_pickFirst {known : Bool} {candidates : List BinaryParserPort}
    (hauto : request.parserId = none)
    (hmem : ∀ parser, parser ∈ candidates ↔ parser ∈ parsers ∧ settings.Fits request parser)
    (hsorted : candidates.Pairwise fun parser parser' =>
      parser'.capability.priority ≤ parser.capability.priority) (hnodup : candidates.Nodup)
    (hknown : known = true ↔ ∃ parser ∈ parsers,
      request.mediaType ∈ parser.capability.mediaTypes) :
    Routes settings parsers request (pickFirst known candidates) := by
  match candidates with
  | [] =>
    refine .nothing hauto (fun parser hparser hfits => ?_) hknown
    exact List.not_mem_nil ((hmem parser).2 ⟨hparser, hfits⟩)
  | [parser] =>
    obtain ⟨hparser, hfits⟩ := (hmem parser).1 List.mem_cons_self
    refine .best hauto hparser hfits fun other hother hfits' hne => ?_
    exact absurd (List.mem_singleton.1 ((hmem other).2 ⟨hother, hfits'⟩)) hne
  | parser :: parser' :: rest =>
    obtain ⟨hparser, hfits⟩ := (hmem parser).1 List.mem_cons_self
    obtain ⟨hparser', hfits'⟩ := (hmem parser').1 (List.mem_cons_of_mem _ List.mem_cons_self)
    obtain ⟨hfirst, hrest⟩ := List.pairwise_cons.1 hsorted
    have hne : parser ≠ parser' := fun heq =>
      (List.nodup_cons.1 hnodup).1 (heq ▸ List.mem_cons_self)
    have hle := hfirst parser' List.mem_cons_self
    rw [pickFirst]
    split
    · rename_i hequal
      refine .ambiguous hauto hparser hparser' hne hfits hfits' hequal
        fun other hother hother' => ?_
      obtain rfl | hmem' := List.mem_cons.1 ((hmem other).2 ⟨hother, hother'⟩)
      · exact le_rfl
      · exact hfirst other hmem'
    · rename_i hnot
      have hlt : parser'.capability.priority < parser.capability.priority :=
        lt_of_le_of_ne hle (Ne.symm hnot)
      refine .best hauto hparser hfits fun other hother hother' hdiffers => ?_
      obtain rfl | hmem' := List.mem_cons.1 ((hmem other).2 ⟨hother, hother'⟩)
      · exact absurd rfl hdiffers
      obtain rfl | hmem'' := List.mem_cons.1 hmem'
      · exact hlt
      · exact lt_of_le_of_lt ((List.pairwise_cons.1 hrest).1 other hmem'') hlt

end Routing

namespace ParserRegistry

variable {registry : ParserRegistry} {request : ParseRequest}
  {result : Except Error BinaryParserPort}

theorem mem_ordered {parser : BinaryParserPort} :
    parser ∈ registry.ordered ↔ parser ∈ registry.parsers :=
  mem_sortedBy _

/-- The registry answers as it should. -/
theorem routes_resolve :
    Routes registry.toParserSettings registry.parsers request (registry.resolve request) := by
  unfold resolve
  split
  · rename_i parserId hasked
    split
    · rename_i hfind
      refine .unknown hasked fun parser hparser heq => ?_
      have hnot := List.find?_eq_none.1 hfind parser (mem_ordered.2 hparser)
      exact hnot (decide_eq_true heq)
    · rename_i parser hfind
      have hparser := mem_ordered.1 (List.mem_of_find?_eq_some hfind)
      have hid : parser.capability.parserId = parserId :=
        by simpa only [decide_eq_true_eq] using List.find?_some hfind
      rw [← hid] at hasked
      split
      · exact .explicit hasked hparser ‹_›
      · exact .incompatible hasked hparser ‹_›
  · rename_i hauto
    have hnodup : registry.ordered.Nodup :=
      (sortedBy_perm _ _).nodup_iff.2 (List.Nodup.of_map _ registry.ids_nodup)
    have hsorted : registry.ordered.Pairwise fun parser parser' =>
        parser'.capability.priority ≤ parser.capability.priority :=
      (sortedBy_pairwise _ _).imp fun h => neg_le_neg_iff.1 h
    refine routes_pickFirst hauto (fun parser => ?_) (hsorted.filter _) (hnodup.filter _) ?_
    · rw [List.mem_filter, mem_ordered, decide_eq_true_iff]
    · rw [List.any_eq_true]
      simp only [mem_ordered, decide_eq_true_eq]

/-- **Routing means what it says.** -/
theorem resolve_eq_iff : registry.resolve request = result ↔
    Routes registry.toParserSettings registry.parsers request result :=
  ⟨fun h => h ▸ routes_resolve, fun h => routes_resolve.unique registry.ids_nodup h⟩

/-- The order of registration does not matter. -/
theorem resolve_congr {registry' : ParserRegistry}
    (hsettings : registry'.toParserSettings = registry.toParserSettings)
    (hparsers : registry'.parsers.Perm registry.parsers) :
    registry'.resolve request = registry.resolve request := by
  refine resolve_eq_iff.2 (Routes.congr ?_ fun _ => hparsers.mem_iff.symm)
  rw [hsettings]
  exact routes_resolve

end ParserRegistry

/-! ## Loading a source -/

def resourceLimit : Error := .conflict "document exceeds parser byte limit" "parser_resource_limit"

/-- The loop over the parts of a stream, when `size` bytes have been read. -/
def collect (maxBytes : ℕ) (failure : Option Error) :
    ℕ → List (List UInt8) → Except Error (List UInt8)
  | _, [] =>
    match failure with
    | none => .ok []
    | some error => .error error
  | size, part :: parts =>
    if maxBytes < size + part.length then .error resourceLimit
    else (collect maxBytes failure (size + part.length) parts).map (part ++ ·)

/-- **A stream is loaded if it fits**, whatever its parts, and if it does not break off. -/
theorem collect_eq {maxBytes size : ℕ} {failure : Option Error} {parts : List (List UInt8)}
    (hsize : size ≤ maxBytes) :
    collect maxBytes failure size parts =
      if maxBytes < size + parts.flatten.length then .error resourceLimit
      else match failure with
        | none => .ok parts.flatten
        | some error => .error error := by
  induction parts generalizing size with
  | nil =>
    rw [List.flatten_nil, List.length_nil, Nat.add_zero, if_neg (Nat.not_lt.2 hsize)]
    cases failure <;> rfl
  | cons part parts ih =>
    rw [collect, List.flatten_cons, List.length_append, ← Nat.add_assoc]
    by_cases hpart : maxBytes < size + part.length
    · rw [if_pos hpart, if_pos (Nat.lt_add_right _ hpart)]
    · rw [if_neg hpart, ih (Nat.not_lt.1 hpart)]
      split
      · rfl
      · cases failure <;> rfl

/-- The stored object of a version. -/
def storedObject (version : DocumentVersion) : StoredObject where
  tenantId := version.tenantId
  objectKey := version.objectKey
  mediaType := version.mediaType
  sizeBytes := version.sizeBytes
  checksumSha256 := version.contentHash

/-- The request is about the source of this version. -/
def ParseRequest.IsOf (request : ParseRequest) (version : DocumentVersion) : Prop :=
  version.knowledgeBaseId = request.knowledgeBaseId ∧ version.documentId = request.documentId ∧
    version.objectKey = request.objectKey ∧ version.mediaType = request.mediaType

instance (request : ParseRequest) (version : DocumentVersion) :
    Decidable (request.IsOf version) :=
  inferInstanceAs (Decidable (_ ∧ _))

def ParseRequest.context (request : ParseRequest) : AuthorizationContext where
  tenantId := request.tenantId
  actorId := "ingestion-worker"
  requestId := request.traceId

/-- `_load`. -/
def ParserRegistry.load (registry : ParserRegistry) (st : Store) (request : ParseRequest) :
    Except Error (List UInt8) := do
  match ← Repository.get (st.table .documentVersions) request.tenantId
      request.documentVersionId with
  | none => throw (.notFound "document_version" request.documentVersionId)
  | some version =>
    if ¬ request.IsOf version then
      throw (.conflict "parse request does not match the persisted document version"
        "parser_source_scope_mismatch")
    let (parts, failure) := registry.read request.context (storedObject version)
    collect registry.maxBytes failure 0 parts

/-- The source of the request is this: what is read for its stored version, within the limit. -/
def ParserRegistry.Loads (registry : ParserRegistry) (st : Store) (request : ParseRequest)
    (payload : List UInt8) : Prop :=
  ∃ version parts,
    st.row .documentVersions (request.tenantId, request.documentVersionId) = some version ∧
      version.Valid ∧ request.IsOf version ∧
      registry.read request.context (storedObject version) = (parts, none) ∧
      payload = parts.flatten ∧ payload.length ≤ registry.maxBytes

section Loading

variable {st : Store} {request : ParseRequest} {payload : List UInt8}

theorem get_version {tenantId resourceId : String} {version : DocumentVersion} :
    Repository.get (st.table .documentVersions) tenantId resourceId = .ok (some version) ↔
      st.row .documentVersions (tenantId, resourceId) = some version ∧ version.Valid := by
  constructor
  · intro h
    obtain ⟨row, hrow, hvalidate⟩ := Repository.get_eq_some h
    obtain ⟨rfl, hvalid⟩ := DocumentVersion.validate_eq_ok.1 hvalidate
    exact ⟨hrow, hvalid⟩
  · rintro ⟨hrow, hvalid⟩
    have hget : (st.table .documentVersions).get (tenantId, resourceId) = some version := hrow
    rw [Repository.get, hget]
    show (DocumentVersion.validate version).map some = _
    rw [DocumentVersion.validate_eq_ok.2 ⟨rfl, hvalid⟩]
    rfl

/-- **The whole source of the stored version is loaded.** -/
theorem ParserRegistry.load_eq_ok_iff {registry : ParserRegistry} :
    registry.load st request = .ok payload ↔ registry.Loads st request payload := by
  rw [load, bind_eq_ok]
  constructor
  · rintro ⟨_ | version, hget, h⟩
    · cases h
    obtain ⟨hrow, hvalid⟩ := get_version.1 hget
    obtain ⟨hof, h⟩ := check_eq_ok.1 h
    rcases hread : registry.read request.context (storedObject version) with ⟨parts, failure⟩
    simp only [hread] at h
    rw [collect_eq (Nat.zero_le _), Nat.zero_add] at h
    split at h
    · cases h
    · cases failure with
      | some error => cases h
      | none =>
        cases h
        exact ⟨version, parts, hrow, hvalid, not_not.1 hof, hread, rfl, Nat.not_lt.1 ‹_›⟩
  · rintro ⟨version, parts, hrow, hvalid, hof, hread, rfl, hlength⟩
    refine ⟨some version, get_version.2 ⟨hrow, hvalid⟩, check_eq_ok.2 ⟨not_not.2 hof, ?_⟩⟩
    simp only [hread]
    rw [collect_eq (Nat.zero_le _), Nat.zero_add, if_neg (Nat.not_lt.2 hlength)]

end Loading

/-! ## Parsing -/

/-- A parser-neutral document, with its blocks in order. -/
structure ParsedDocument where
  id : String
  tenantId : String
  knowledgeBaseId : String
  documentId : String
  documentVersionId : String
  parserName : String
  parserVersion : String
  parsedAt : ℕ
  blocks : List ParsedBlock
  sourceMediaType : String
  sourceName : String
  recommendedChunkStrategy : String
  warnings : List ParseWarning
  nonEmpty : ∀ text ∈ [id, tenantId, knowledgeBaseId, documentId, documentVersionId, parserName,
    parserVersion, recommendedChunkStrategy], nonEmptyText text = .ok text
  ids_nodup : (blocks.map fun block => block.id).Nodup
  orders_nodup : (blocks.map fun block => block.order).Nodup
  orders_sorted : (blocks.map fun block => block.order).Pairwise (· ≤ ·)

/-- A text that has passed passes with a beginning, too. -/
theorem nonEmptyText_append {s t : String} (hne : s.toList ≠ [])
    (hhead : ∀ c ∈ s.toList.head?, isWhiteSpace c = false) (ht : nonEmptyText t = .ok t) :
    nonEmptyText (s ++ t) = .ok (s ++ t) := by
  obtain ⟨htne, hlast⟩ := isWhiteSpace_getLast ht
  refine nonEmptyText_eq_self ?_ (fun c hc => hhead c ?_) fun c hc => hlast c ?_
  · rw [String.toList_append]
    exact List.append_ne_nil_of_left_ne_nil hne _
  · rwa [String.toList_append, List.head?_append_of_ne_nil _ hne] at hc
  · rwa [String.toList_append, List.getLast?_append_of_ne_nil _ htne] at hc

def parsedId (request : ParseRequest) : String := "parsed_" ++ request.documentVersionId

/-- The identities of a parsed document are not empty, since those of the request and those of the
parser are not. -/
theorem nonEmptyText_identities (capability : ParserCapability) (request : ParseRequest) :
    ∀ text ∈ [parsedId request, request.tenantId, request.knowledgeBaseId, request.documentId,
      request.documentVersionId, capability.parserId, capability.parserVersion,
      capability.defaultChunkStrategy], nonEmptyText text = .ok text := by
  have hrequest := request.nonEmpty
  have hcapability := capability.nonEmpty
  simp only [List.forall_mem_cons] at hrequest hcapability ⊢
  obtain ⟨htenant, hkb, hdocument, hversion, -⟩ := hrequest
  obtain ⟨hid, hparser, hstrategy, -⟩ := hcapability
  have hparsed : nonEmptyText (parsedId request) = .ok (parsedId request) :=
    nonEmptyText_append (by decide) (by rintro _ ⟨⟩; decide) hversion
  exact ⟨hparsed, htenant, hkb, hdocument, hversion, hid, hparser, hstrategy, nofun⟩

/-- `ParsedDocument(...)`, of what a parser returned. -/
def ParsedDocument.make (parser : BinaryParserPort) (request : ParseRequest)
    (parsed : ParsedPayload) (now : ℕ) : Except Error ParsedDocument :=
  if hids : (parsed.blocks.map fun block => block.id).Nodup then
    if hunique : (parsed.blocks.map fun block => block.order).Nodup then
      if hsorted : (parsed.blocks.map fun block => block.order).Pairwise (· ≤ ·) then .ok {
        id := parsedId request
        tenantId := request.tenantId
        knowledgeBaseId := request.knowledgeBaseId
        documentId := request.documentId
        documentVersionId := request.documentVersionId
        parserName := parser.capability.parserId
        parserVersion := parser.capability.parserVersion
        parsedAt := now
        blocks := parsed.blocks
        sourceMediaType := request.mediaType
        sourceName := String.ofList (pathName request.objectKey.toList)
        recommendedChunkStrategy := parser.capability.defaultChunkStrategy
        warnings := parsed.warnings
        nonEmpty := nonEmptyText_identities parser.capability request
        ids_nodup := hids
        orders_nodup := hunique
        orders_sorted := hsorted }
      else .error (.validation "parsed blocks must be sorted by order")
    else .error (.validation "parsed block order values must be unique")
  else .error (.validation "parsed block identifiers must be unique")

/-- The document is what the parser made of the source. -/
structure ParsedDocument.IsFrom (document : ParsedDocument) (parser : BinaryParserPort)
    (request : ParseRequest) (parsed : ParsedPayload) (now : ℕ) : Prop where
  id : document.id = parsedId request
  scope : document.tenantId = request.tenantId ∧
    document.knowledgeBaseId = request.knowledgeBaseId ∧
    document.documentId = request.documentId ∧
    document.documentVersionId = request.documentVersionId
  parser : document.parserName = parser.capability.parserId ∧
    document.parserVersion = parser.capability.parserVersion ∧
    document.recommendedChunkStrategy = parser.capability.defaultChunkStrategy
  parsedAt : document.parsedAt = now
  source : document.sourceMediaType = request.mediaType ∧
    document.sourceName = String.ofList (pathName request.objectKey.toList)
  blocks : document.blocks = parsed.blocks
  warnings : document.warnings = parsed.warnings

/-- Blocks in order are made into one document. -/
theorem ParsedDocument.make_eq_ok_iff {parser : BinaryParserPort} {request : ParseRequest}
    {parsed : ParsedPayload} {now : ℕ} {document : ParsedDocument} :
    make parser request parsed now = .ok document ↔ document.IsFrom parser request parsed now := by
  constructor
  · intro h
    unfold make at h
    split at h
    · split at h
      · split at h
        · cases h
          exact ⟨rfl, ⟨rfl, rfl, rfl, rfl⟩, ⟨rfl, rfl, rfl⟩, rfl, ⟨rfl, rfl⟩, rfl, rfl⟩
        · cases h
      · cases h
    · cases h
  · intro h
    have hids : (parsed.blocks.map fun block => block.id).Nodup := h.blocks ▸ document.ids_nodup
    have hunique : (parsed.blocks.map fun block => block.order).Nodup :=
      h.blocks ▸ document.orders_nodup
    have hsorted : (parsed.blocks.map fun block => block.order).Pairwise (· ≤ ·) :=
      h.blocks ▸ document.orders_sorted
    rw [make, dif_pos hids, dif_pos hunique, dif_pos hsorted]
    cases document
    obtain ⟨rfl, ⟨rfl, rfl, rfl, rfl⟩, ⟨rfl, rfl, rfl⟩, rfl, ⟨rfl, rfl⟩, rfl, rfl⟩ := h
    rfl

namespace ParserRegistry

/-- `parse`. -/
def parse (registry : ParserRegistry) (st : Store) (request : ParseRequest) (now : ℕ) :
    Except Error ParsedDocument := do
  let parser ← registry.resolve request
  let payload ← registry.load st request
  if payload = [] then throw (.conflict "document is empty" "parser_empty_document")
  match parser.parseBytes payload request registry.ocrLanguage with
  | .error .timedOut =>
    throw (.conflict "document parsing exceeded the configured timeout" "parser_timeout")
  | .error (.raised error) => throw error
  | .ok parsed =>
    if parsed.blocks = [] then
      throw (.conflict "document contains no extractable content" "parser_no_content")
    ParsedDocument.make parser request parsed now

section Results

variable {registry : ParserRegistry} {st : Store} {request : ParseRequest} {now : ℕ}

theorem parse_of_resolve_error {error : Error}
    (hresolve : registry.resolve request = .error error) :
    registry.parse st request now = .error error := by
  rw [parse, hresolve]
  rfl

/-- The document of a parser: its blocks of the whole source. -/
theorem parse_eq_ok_iff {parser : BinaryParserPort}
    (hresolve : registry.resolve request = .ok parser) {document : ParsedDocument} :
    registry.parse st request now = .ok document ↔
      ∃ payload parsed, registry.Loads st request payload ∧ payload ≠ [] ∧
        parser.parseBytes payload request registry.ocrLanguage = .ok parsed ∧
        parsed.blocks ≠ [] ∧ document.IsFrom parser request parsed now := by
  rw [parse, hresolve]
  show (registry.load st request >>= _) = _ ↔ _
  rw [bind_eq_ok]
  constructor
  · rintro ⟨payload, hload, h⟩
    obtain ⟨hne, h⟩ := check_eq_ok.1 h
    cases hparsed : parser.parseBytes payload request registry.ocrLanguage with
    | error failure =>
      simp only [hparsed] at h
      cases failure <;> cases h
    | ok parsed =>
      simp only [hparsed] at h
      obtain ⟨hblocks, h⟩ := check_eq_ok.1 h
      exact ⟨payload, parsed, load_eq_ok_iff.1 hload, hne, hparsed, hblocks,
        ParsedDocument.make_eq_ok_iff.1 h⟩
  · rintro ⟨payload, parsed, hloads, hne, hparsed, hblocks, hfrom⟩
    refine ⟨payload, load_eq_ok_iff.2 hloads, check_eq_ok.2 ⟨hne, ?_⟩⟩
    simp only [hparsed]
    exact check_eq_ok.2 ⟨hblocks, ParsedDocument.make_eq_ok_iff.2 hfrom⟩

end Results

/-- **What is parsed, and by whom.**  The order of the parsers does not matter: one answer is right
for them.  If it is a parser, a document is returned exactly if that parser reads blocks in the
whole source, and it has these blocks. -/
theorem parse_spec (registry : ParserRegistry) (st : Store) (request : ParseRequest) (now : ℕ) :
    ∃ answer,
      (∀ result, Routes registry.toParserSettings registry.parsers request result ↔
        result = answer) ∧
      match answer with
      | .error error => registry.parse st request now = .error error
      | .ok parser => ∀ document, registry.parse st request now = .ok document ↔
          ∃ payload parsed, registry.Loads st request payload ∧ payload ≠ [] ∧
            parser.parseBytes payload request registry.ocrLanguage = .ok parsed ∧
            parsed.blocks ≠ [] ∧ document.IsFrom parser request parsed now := by
  refine ⟨registry.resolve request, fun result => resolve_eq_iff.symm.trans eq_comm, ?_⟩
  cases hresolve : registry.resolve request with
  | error error => exact parse_of_resolve_error hresolve
  | ok parser => exact fun document => parse_eq_ok_iff hresolve

end ParserRegistry

end Parsing
end Knowledge
end RagflowAgent
