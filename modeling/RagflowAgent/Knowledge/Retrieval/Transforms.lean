import RagflowAgent.Agent.Domain.Json
import RagflowAgent.Distinct
import RagflowAgent.Knowledge.Application.FixedRag
import RagflowAgent.Knowledge.Retrieval.Online
import RagflowAgent.Knowledge.Retrieval.Preprocess

/-!
# Variants of a query

`QueryVariantBuilder.build` asks a model to rewrite a query, to translate it and to give keywords,
and collects what is then searched for.

* `transform_eq_ok_iff`: which answers of the model are taken, and what is taken from them;
* `Proposed` are the variants that are there to be chosen from;
* `build_spec`: whatever the model answers, variants come out, the canonical one first, of each text
  only one and not too many.  A request that fails is noted and costs only its own variants.

The parser of JSON is a parameter, and texts are compared by their case folding.
-/

namespace RagflowAgent
namespace Knowledge

open Agent (Json)

/-! ## Requests to the model -/

/-- Supported structured query transformations. -/
inductive QueryTransformKind where
  | rewrite
  | translate
  | keywords
  deriving DecidableEq, Repr

namespace QueryTransformKind

def value : QueryTransformKind → String
  | rewrite => "rewrite"
  | translate => "translate"
  | keywords => "keywords"

def instructions : QueryTransformKind → String
  | rewrite => "Rewrite the last question as one standalone question. Preserve meaning and " ++
      "proper nouns. Return JSON only: \x7b\"items\":[\"question\"]\x7d."
  | translate => "Translate the query into each requested language while preserving " ++
      "identifiers. Return JSON only: \x7b\"items\":[\"translation\"]\x7d."
  | keywords => "Extract concise retrieval keywords and identifiers. Return JSON only: " ++
      "\x7b\"items\":[\"keyword\"]\x7d."

end QueryTransformKind

/-- Provider-neutral, bounded query transformation request. -/
structure QueryTransformRequest where
  modelId : String
  kind : QueryTransformKind
  query : String
  history : List String := []
  targetLanguages : List String := []
  maxItems : ℕ := 4
  traceId : String
  deriving DecidableEq

/-- Validated structured strings returned by a query model. -/
structure QueryTransformResult where
  modelId : String
  items : List NonEmptyStr

/-- The fields of a request, as they are written into the prompt. -/
def QueryTransformRequest.payload (request : QueryTransformRequest) : Json :=
  .dict [("query", .str request.query), ("history", .list (request.history.map .str)),
    ("target_languages", .list (request.targetLanguages.map .str)),
    ("max_items", .int request.maxItems)]

/-- Use one supplier-isolated chat provider and require strict JSON output. -/
structure ChatQueryTransformProvider where
  generate : AuthorizationContext → ChatGenerationRequest → Except Error ChatGenerationResult
  modelId : String
  /-- `json.dumps(payload, ensure_ascii=False)`. -/
  dumps : Json → String
  /-- `json.loads(content)`, if it does not raise. -/
  loads : String → Option Json

namespace ChatQueryTransformProvider

variable (provider : ChatQueryTransformProvider)

def invalidResult : Error :=
  .conflict "query transform provider returned invalid structured output"
    "query_transform_invalid_result"

/-- `item.strip()`, if the item is a text and something is left. -/
def itemText : Json → Option String
  | .str item => if Agent.strip item = "" then none else some (Agent.strip item)
  | _ => none

/-- The items that are taken from a list. -/
def itemTexts (maxItems : ℕ) (rawItems : List Json) : List String :=
  (rawItems.filterMap itemText).eraseDups.take maxItems

/-- What is sent to the model. -/
def chatRequest (request : QueryTransformRequest) : ChatGenerationRequest where
  modelId := request.modelId
  systemPrompt := request.kind.instructions
  userPrompt := provider.dumps request.payload
  traceId := request.traceId

def transform (context : AuthorizationContext) (request : QueryTransformRequest) :
    Except Error QueryTransformResult := do
  if request.modelId ≠ provider.modelId then
    throw (.conflict "query transform model does not match configured provider"
      "query_transform_model_mismatch")
  let result ← provider.generate context (provider.chatRequest request)
  match (provider.loads result.content).bind fun payload => payload.get? "items" with
  | some (.list rawItems) =>
    let items ← (itemTexts request.maxItems rawItems).mapM NonEmptyStr.make
    return ⟨result.modelId, items⟩
  | _ => throw invalidResult

/-! ### What is taken from an answer -/

variable {provider} {context : AuthorizationContext} {request : QueryTransformRequest}

theorem mem_itemTexts {maxItems : ℕ} {rawItems : List Json} {text : String}
    (h : text ∈ itemTexts maxItems rawItems) :
    ∃ item, .str item ∈ rawItems ∧ Agent.strip item = text ∧ text ≠ "" := by
  have hmem := List.mem_of_mem_take h
  rw [List.mem_eraseDups] at hmem
  obtain ⟨value, hvalue, htext⟩ := List.mem_filterMap.1 hmem
  cases value with
  | str item =>
    rw [itemText] at htext
    split at htext
    · cases htext
    · rename_i hne
      cases htext
      exact ⟨item, hvalue, rfl, hne⟩
  | _ => cases htext

/-- The texts are different, and no more than were asked for. -/
theorem itemTexts_bounds (maxItems : ℕ) (rawItems : List Json) :
    (itemTexts maxItems rawItems).Nodup ∧ (itemTexts maxItems rawItems).length ≤ maxItems :=
  ⟨(Pairing.nodup_eraseDups _).sublist (List.take_sublist _ _), List.length_take_le _ _⟩

/-- An item is stripped, and so passes as it is. -/
theorem nonEmptyText_itemTexts (maxItems : ℕ) (rawItems : List Json) :
    ∀ text ∈ itemTexts maxItems rawItems, nonEmptyText text = .ok text := by
  intro text h
  obtain ⟨item, -, rfl, hne⟩ := mem_itemTexts h
  have hstrip : (Agent.strip item).toList =
      (Text.wordAlphabet Agent.isSpace).strip item.toList := by
    rw [Agent.strip, String.toList_ofList]
    rfl
  refine nonEmptyText_eq_self (fun hnil => hne (String.toList_inj.1 hnil)) ?_ ?_
  · rw [hstrip]
    exact fun c hc => isWhiteSpace_eq_false (Text.Alphabet.isSpace_head_strip _ _ c hc)
  · rw [hstrip]
    exact fun c hc => isWhiteSpace_eq_false (Text.Alphabet.isSpace_getLast_strip _ _ c hc)

/-- The model is asked, and answers a request with a list. -/
structure Answers (provider : ChatQueryTransformProvider) (context : AuthorizationContext)
    (request : QueryTransformRequest) (modelId : String) (rawItems : List Json) : Prop where
  isOurs : request.modelId = provider.modelId
  generated : ∃ generated payload,
    provider.generate context (provider.chatRequest request) = .ok generated ∧
      generated.modelId = modelId ∧ provider.loads generated.content = some payload ∧
      payload.get? "items" = some (.list rawItems)

/-- **The answers that are taken.** -/
theorem transform_eq_ok_iff {result : QueryTransformResult} :
    provider.transform context request = .ok result ↔ ∃ rawItems,
      provider.Answers context request result.modelId rawItems ∧
        result.items.map NonEmptyStr.value = itemTexts request.maxItems rawItems := by
  unfold transform
  constructor
  · intro h
    obtain ⟨hmodel, h⟩ := check_eq_ok.1 h
    obtain ⟨generated, hgenerate, h⟩ := bind_eq_ok.1 h
    cases hitems : (provider.loads generated.content).bind fun payload => payload.get? "items" with
    | none =>
      rw [hitems] at h
      cases h
    | some value =>
      rw [hitems] at h
      cases value with
      | list rawItems =>
        obtain ⟨items, hmake, h⟩ := bind_eq_ok.1 h
        cases h
        obtain ⟨payload, hloads, hget⟩ := Option.bind_eq_some_iff.1 hitems
        obtain ⟨values, hvalues, hmap⟩ :=
          NonEmptyStr.exists_mapM_make (nonEmptyText_itemTexts request.maxItems rawItems)
        rw [hvalues] at hmake
        cases hmake
        exact ⟨rawItems, ⟨not_not.1 hmodel, generated, payload, hgenerate, rfl, hloads, hget⟩, hmap⟩
      | _ => cases h
  · rintro ⟨rawItems, ⟨hmodel, generated, payload, hgenerate, hmodelId, hloads, hget⟩, hmap⟩
    obtain ⟨values, hvalues, hvaluesMap⟩ :=
      NonEmptyStr.exists_mapM_make (nonEmptyText_itemTexts request.maxItems rawItems)
    have hsame : values = result.items :=
      NonEmptyStr.value_injective.list_map (hvaluesMap.trans hmap.symm)
    refine check_eq_ok.2 ⟨not_not.2 hmodel, bind_eq_ok.2 ⟨generated, hgenerate, ?_⟩⟩
    rw [hloads, Option.bind_some, hget]
    exact bind_eq_ok.2 ⟨values, hvalues, by rw [hmodelId, hsame]; rfl⟩

end ChatQueryTransformProvider

/-! ## The variants -/

/-- Auditable source of one retrieval query variant. -/
inductive QueryVariantKind where
  | canonical
  | rewrite
  | translation
  | keyword
  deriving DecidableEq, Repr

/-- A variant with what is recorded of its source. -/
structure SourcedVariant where
  text : NonEmptyStr
  kind : QueryVariantKind
  language : Option String := none
  provider : Option String := none
  deriving DecidableEq

/-- What the retrieval looks at. -/
def SourcedVariant.queryVariant (variant : SourcedVariant) : QueryVariant := ⟨variant.text.value⟩

structure QueryTransformOutcome where
  variants : List SourcedVariant
  failures : List String
  deriving DecidableEq

/-- Produce variants without ever carrying or mutating filters. -/
structure QueryVariantBuilder where
  provider : ChatQueryTransformProvider
  characters : CharacterData
  modelId : String
  rewriteEnabled : Bool
  translationEnabled : Bool
  keywordExpansionEnabled : Bool
  maxVariants : ℕ
  /-- The bounds of the settings. -/
  maxVariants_bounds : 1 ≤ maxVariants ∧ maxVariants ≤ 32

namespace QueryVariantBuilder

variable (builder : QueryVariantBuilder)

/-- `_append_provider_variants`, on the variants and the failures that are there. -/
def appendProviderVariants (context : AuthorizationContext) (request : QueryTransformRequest)
    (kind : QueryVariantKind) (state : List SourcedVariant × List String) :
    List SourcedVariant × List String :=
  match builder.provider.transform context request with
  | .error error => (state.1, state.2 ++ [request.kind.value ++ ":" ++ error.typeName])
  | .ok result =>
    (state.1 ++ result.items.map fun item => ⟨item, kind, none, some result.modelId⟩, state.2)

def rewriteRequest (processed : PreprocessedQuery) (history : List String) (traceId : String) :
    QueryTransformRequest where
  modelId := builder.modelId
  kind := .rewrite
  query := processed.canonicalText.value
  history := history.drop (history.length - 8)
  maxItems := 1
  traceId := traceId

def translateRequest (processed : PreprocessedQuery) (targetLanguages : List String)
    (traceId : String) : QueryTransformRequest where
  modelId := builder.modelId
  kind := .translate
  query := processed.canonicalText.value
  targetLanguages := targetLanguages
  maxItems := min targetLanguages.length 4
  traceId := traceId

def keywordsRequest (processed : PreprocessedQuery) (traceId : String) :
    QueryTransformRequest where
  modelId := builder.modelId
  kind := .keywords
  query := processed.canonicalText.value
  maxItems := 4
  traceId := traceId

def canonicalVariant (processed : PreprocessedQuery) : SourcedVariant :=
  ⟨processed.canonicalText, .canonical, some processed.language, none⟩

/-- `" ".join(processed.lexical_keywords)`. -/
def lexical (processed : PreprocessedQuery) : String :=
  joinSpaced (processed.lexicalKeywords.map fun keyword => keyword.value.toList)

/-- What tells variants apart. -/
def foldedText (variant : SourcedVariant) : List Char :=
  builder.characters.casefold variant.text.value.toList

def build (context : AuthorizationContext) (processed : PreprocessedQuery) (history : List String)
    (targetLanguages : List String) (traceId : String) : Except Error QueryTransformOutcome := do
  let state := ([canonicalVariant processed], [])
  let state :=
    if builder.rewriteEnabled ∧ history ≠ [] then
      builder.appendProviderVariants context (builder.rewriteRequest processed history traceId)
        .rewrite state
    else state
  let state :=
    if builder.translationEnabled ∧ targetLanguages ≠ [] then
      builder.appendProviderVariants context
        (builder.translateRequest processed targetLanguages traceId) .translation state
    else state
  let state ←
    if builder.keywordExpansionEnabled ∧ processed.lexicalKeywords ≠ [] then do
      let variants ←
        if (lexical processed).toList ≠
            builder.characters.casefold processed.canonicalText.value.toList then do
          let text ← NonEmptyStr.make (lexical processed)
          pure (state.1 ++ [⟨text, .keyword, none, none⟩])
        else pure state.1
      pure (builder.appendProviderVariants context (builder.keywordsRequest processed traceId)
        .keyword (variants, state.2))
    else pure state
  return ⟨(firsts builder.foldedText state.1).take builder.maxVariants, state.2⟩

/-! ### The requests -/

/-- The requests that are made, in their order, and what their variants are called. -/
def requests (processed : PreprocessedQuery) (history targetLanguages : List String)
    (traceId : String) : List (QueryTransformRequest × QueryVariantKind) :=
  (if builder.rewriteEnabled ∧ history ≠ [] then
      [(builder.rewriteRequest processed history traceId, .rewrite)] else []) ++
    (if builder.translationEnabled ∧ targetLanguages ≠ [] then
      [(builder.translateRequest processed targetLanguages traceId, .translation)] else []) ++
    if builder.keywordExpansionEnabled ∧ processed.lexicalKeywords ≠ [] then
      [(builder.keywordsRequest processed traceId, .keyword)] else []

/-- The variants that a request gives. -/
def provided (context : AuthorizationContext)
    (request : QueryTransformRequest × QueryVariantKind) : List SourcedVariant :=
  match builder.provider.transform context request.1 with
  | .error _ => []
  | .ok result => result.items.map fun item => ⟨item, request.2, none, some result.modelId⟩

/-- What is noted of a request that fails. -/
def failureOf (context : AuthorizationContext)
    (request : QueryTransformRequest × QueryVariantKind) : Option String :=
  match builder.provider.transform context request.1 with
  | .error error => some (request.1.kind.value ++ ":" ++ error.typeName)
  | .ok _ => none

/-- The variants that are there to be chosen from. -/
inductive Proposed (context : AuthorizationContext) (processed : PreprocessedQuery)
    (requests : List (QueryTransformRequest × QueryVariantKind)) : SourcedVariant → Prop where
  | canonical : Proposed context processed requests (canonicalVariant processed)
  | lexical {text : NonEmptyStr} (henabled : builder.keywordExpansionEnabled = true)
      (hkeywords : processed.lexicalKeywords ≠ []) (htext : text.value = lexical processed)
      (hother : text.value.toList ≠
        builder.characters.casefold processed.canonicalText.value.toList) :
      Proposed context processed requests ⟨text, .keyword, none, none⟩
  | provided {request : QueryTransformRequest} {kind : QueryVariantKind} {modelId : String}
      {rawItems : List Json} {text : NonEmptyStr} (hrequest : (request, kind) ∈ requests)
      (hanswers : builder.provider.Answers context request modelId rawItems)
      (htext : text.value ∈ ChatQueryTransformProvider.itemTexts request.maxItems rawItems) :
      Proposed context processed requests ⟨text, kind, none, some modelId⟩

variable {builder} {context : AuthorizationContext} {processed : PreprocessedQuery}
  {history targetLanguages : List String} {traceId : String}

theorem appendProviderVariants_eq (request : QueryTransformRequest) (kind : QueryVariantKind)
    (state : List SourcedVariant × List String) :
    builder.appendProviderVariants context request kind state =
      (state.1 ++ builder.provided context (request, kind),
        state.2 ++ [(request, kind)].filterMap (builder.failureOf context)) := by
  unfold appendProviderVariants
  cases h : builder.provider.transform context request with
  | error error => simp [provided, failureOf, h]
  | ok result => simp [provided, failureOf, h]

theorem isWhiteSpace_head {s : String} (h : nonEmptyText s = .ok s) :
    ∀ c ∈ s.toList.head?, isWhiteSpace c = false := by
  rw [nonEmptyText] at h
  split at h
  · cases h
  · have hstrip := Except.ok.inj h
    rw [← hstrip, toList_strip]
    exact Text.Alphabet.isSpace_head_strip _ _

/-- The same, for a request that is made under a condition. -/
theorem appendIf_eq {c : Prop} [Decidable c] (request : QueryTransformRequest)
    (kind : QueryVariantKind) (state : List SourcedVariant × List String) :
    (if c then builder.appendProviderVariants context request kind state else state) =
      (state.1 ++ (if c then builder.provided context (request, kind) else []),
        state.2 ++ (if c then [(request, kind)] else []).filterMap
          (builder.failureOf context)) := by
  split
  · exact appendProviderVariants_eq request kind state
  · simp

/-- Keywords joined are a text. -/
theorem nonEmptyText_lexical (h : processed.lexicalKeywords ≠ []) :
    nonEmptyText (lexical processed) = .ok (lexical processed) := by
  have hkeywords : ∀ text ∈ processed.lexicalKeywords.map fun keyword => keyword.value.toList,
      text ≠ [] ∧ (∀ c ∈ text.head?, isWhiteSpace c = false) ∧
        ∀ c ∈ text.getLast?, isWhiteSpace c = false := by
    intro text htext
    obtain ⟨keyword, -, rfl⟩ := List.mem_map.1 htext
    obtain ⟨hne, hlast⟩ := isWhiteSpace_getLast keyword.valid
    exact ⟨hne, isWhiteSpace_head keyword.valid, hlast⟩
  obtain ⟨hne, hhead, hlast⟩ := Text.isSpace_ends_intercalate ' '
    (fun hnil => h (List.map_eq_nil_iff.1 hnil)) hkeywords
  exact nonEmptyText_eq_self (by rwa [lexical, joinSpaced, String.toList_ofList])
    (by rwa [lexical, joinSpaced, String.toList_ofList])
    (by rwa [lexical, joinSpaced, String.toList_ofList])

/-- What a request gives was proposed by the model. -/
theorem proposed_of_mem_provided {requests : List (QueryTransformRequest × QueryVariantKind)}
    {request : QueryTransformRequest × QueryVariantKind} (hrequest : request ∈ requests)
    {variant : SourcedVariant} (h : variant ∈ builder.provided context request) :
    builder.Proposed context processed requests variant := by
  unfold provided at h
  split at h
  · exact absurd h List.not_mem_nil
  · rename_i result hresult
    obtain ⟨item, hitem, rfl⟩ := List.mem_map.1 h
    obtain ⟨rawItems, hanswers, hitems⟩ := ChatQueryTransformProvider.transform_eq_ok_iff.1 hresult
    exact .provided hrequest hanswers (hitems ▸ List.mem_map_of_mem hitem)

/-- And everything that the model proposed is given. -/
theorem mem_provided_of_answers {request : QueryTransformRequest} {kind : QueryVariantKind}
    {modelId : String} {rawItems : List Json} {text : NonEmptyStr}
    (hanswers : builder.provider.Answers context request modelId rawItems)
    (htext : text.value ∈ ChatQueryTransformProvider.itemTexts request.maxItems rawItems) :
    ⟨text, kind, none, some modelId⟩ ∈ builder.provided context (request, kind) := by
  obtain ⟨items, -, hitems⟩ := NonEmptyStr.exists_mapM_make
    (ChatQueryTransformProvider.nonEmptyText_itemTexts request.maxItems rawItems)
  have htransform : builder.provider.transform context request = .ok ⟨modelId, items⟩ :=
    ChatQueryTransformProvider.transform_eq_ok_iff.2 ⟨rawItems, hanswers, hitems⟩
  rw [← hitems] at htext
  obtain ⟨item, hitem, hvalue⟩ := List.mem_map.1 htext
  rw [provided, htransform, ← NonEmptyStr.value_injective hvalue]
  exact List.mem_map_of_mem hitem

/-- The keywords of the query itself, unless they are all of it. -/
def lexicalVariants (builder : QueryVariantBuilder) (processed : PreprocessedQuery) :
    List SourcedVariant :=
  if h : builder.keywordExpansionEnabled ∧ processed.lexicalKeywords ≠ [] then
    if (lexical processed).toList ≠
        builder.characters.casefold processed.canonicalText.value.toList then
      [⟨⟨lexical processed, nonEmptyText_lexical h.2⟩, .keyword, none, none⟩]
    else []
  else []

/-- The variants that are collected, in their order. -/
def proposals (builder : QueryVariantBuilder) (context : AuthorizationContext)
    (processed : PreprocessedQuery) (history targetLanguages : List String) (traceId : String) :
    List SourcedVariant :=
  [canonicalVariant processed] ++
    (if builder.rewriteEnabled ∧ history ≠ [] then
      builder.provided context (builder.rewriteRequest processed history traceId, .rewrite)
      else []) ++
    (if builder.translationEnabled ∧ targetLanguages ≠ [] then
      builder.provided context
        (builder.translateRequest processed targetLanguages traceId, .translation) else []) ++
    lexicalVariants builder processed ++
    if builder.keywordExpansionEnabled ∧ processed.lexicalKeywords ≠ [] then
      builder.provided context (builder.keywordsRequest processed traceId, .keyword) else []

/-- **The builder never raises.** -/
theorem build_eq (builder : QueryVariantBuilder) (context : AuthorizationContext)
    (processed : PreprocessedQuery) (history targetLanguages : List String) (traceId : String) :
    builder.build context processed history targetLanguages traceId = .ok
      ⟨(firsts builder.foldedText
          (builder.proposals context processed history targetLanguages traceId)).take
            builder.maxVariants,
        (builder.requests processed history targetLanguages traceId).filterMap
          (builder.failureOf context)⟩ := by
  unfold build
  simp only [appendIf_eq, proposals, requests, List.filterMap_append, List.nil_append]
  by_cases hkeywords : builder.keywordExpansionEnabled ∧ processed.lexicalKeywords ≠ []
  · have hmake := NonEmptyStr.make_eq_ok (nonEmptyText_lexical hkeywords.2)
    rw [lexicalVariants, dif_pos hkeywords]
    simp only [if_pos hkeywords, hmake, appendProviderVariants_eq]
    split
    · rfl
    · rw [List.append_nil]
      rfl
  · rw [lexicalVariants, dif_neg hkeywords]
    simp only [if_neg hkeywords, List.append_nil, List.filterMap_nil]
    rfl

theorem mem_requests_iff {request : QueryTransformRequest × QueryVariantKind} :
    request ∈ builder.requests processed history targetLanguages traceId ↔
      ((builder.rewriteEnabled ∧ history ≠ []) ∧
          request = (builder.rewriteRequest processed history traceId, .rewrite) ∨
        (builder.translationEnabled ∧ targetLanguages ≠ []) ∧
          request = (builder.translateRequest processed targetLanguages traceId, .translation)) ∨
      (builder.keywordExpansionEnabled ∧ processed.lexicalKeywords ≠ []) ∧
        request = (builder.keywordsRequest processed traceId, .keyword) := by
  simp only [requests, List.mem_append, List.mem_ite_nil_right, List.mem_singleton]

theorem mem_lexicalVariants_iff {variant : SourcedVariant} :
    variant ∈ lexicalVariants builder processed ↔
      (builder.keywordExpansionEnabled ∧ processed.lexicalKeywords ≠ []) ∧
        variant.text.value = lexical processed ∧
        (lexical processed).toList ≠
          builder.characters.casefold processed.canonicalText.value.toList ∧
        variant = ⟨variant.text, .keyword, none, none⟩ := by
  unfold lexicalVariants
  split
  · rename_i hkeywords
    rw [List.mem_ite_nil_right, List.mem_singleton]
    constructor
    · rintro ⟨hother, rfl⟩
      exact ⟨hkeywords, rfl, hother, rfl⟩
    · rintro ⟨-, htext, hother, heq⟩
      refine ⟨hother, heq.trans ?_⟩
      congr 1
      exact NonEmptyStr.value_injective htext
  · rename_i hkeywords
    exact ⟨fun h => absurd h List.not_mem_nil, fun h => absurd h.1 hkeywords⟩

/-- A variant is collected exactly when it is proposed. -/
theorem mem_proposals_iff {variant : SourcedVariant} :
    variant ∈ builder.proposals context processed history targetLanguages traceId ↔
      builder.Proposed context processed
        (builder.requests processed history targetLanguages traceId) variant := by
  simp only [proposals, List.mem_append, List.mem_ite_nil_right, List.mem_singleton,
    mem_lexicalVariants_iff]
  constructor
  · rintro ((((rfl | ⟨hcond, hmem⟩) | ⟨hcond, hmem⟩) |
      ⟨⟨henabled, hkeywords⟩, htext, hother, heq⟩) | ⟨hcond, hmem⟩)
    · exact .canonical
    · exact proposed_of_mem_provided (mem_requests_iff.2 (.inl (.inl ⟨hcond, rfl⟩))) hmem
    · exact proposed_of_mem_provided (mem_requests_iff.2 (.inl (.inr ⟨hcond, rfl⟩))) hmem
    · rw [heq]
      exact .lexical henabled hkeywords htext (htext ▸ hother)
    · exact proposed_of_mem_provided (mem_requests_iff.2 (.inr ⟨hcond, rfl⟩)) hmem
  · rintro (_ | ⟨henabled, hkeywords, htext, hother⟩ | ⟨hrequest, hanswers, htext⟩)
    · exact .inl (.inl (.inl (.inl rfl)))
    · exact .inl (.inr ⟨⟨henabled, hkeywords⟩, htext, htext ▸ hother, rfl⟩)
    · rcases mem_requests_iff.1 hrequest with (⟨hcond, heq⟩ | ⟨hcond, heq⟩) | ⟨hcond, heq⟩
      · cases heq
        exact .inl (.inl (.inl (.inr ⟨hcond, mem_provided_of_answers hanswers htext⟩)))
      · cases heq
        exact .inl (.inl (.inr ⟨hcond, mem_provided_of_answers hanswers htext⟩))
      · cases heq
        exact .inr ⟨hcond, mem_provided_of_answers hanswers htext⟩

/-- What is searched for in place of a query. -/
structure IsExpansion (builder : QueryVariantBuilder) (context : AuthorizationContext)
    (processed : PreprocessedQuery) (requests : List (QueryTransformRequest × QueryVariantKind))
    (outcome : QueryTransformOutcome) : Prop where
  canonical : outcome.variants.head? = some (canonicalVariant processed)
  length_le : outcome.variants.length ≤ builder.maxVariants
  distinct : (outcome.variants.map builder.foldedText).Nodup
  proposed : ∀ variant ∈ outcome.variants, builder.Proposed context processed requests variant
  /-- What was proposed is missing only when there are variants enough. -/
  complete : outcome.variants.length = builder.maxVariants ∨
    ∀ variant, builder.Proposed context processed requests variant →
      ∃ chosen ∈ outcome.variants, builder.foldedText chosen = builder.foldedText variant
  failures : outcome.failures = requests.filterMap (builder.failureOf context)

/-- **Variants come out** whatever the model answers. -/
theorem build_spec (builder : QueryVariantBuilder) (context : AuthorizationContext)
    (processed : PreprocessedQuery) (history targetLanguages : List String) (traceId : String) :
    ∃ outcome, builder.build context processed history targetLanguages traceId = .ok outcome ∧
      builder.IsExpansion context processed
        (builder.requests processed history targetLanguages traceId) outcome := by
  refine ⟨_, build_eq builder context processed history targetLanguages traceId, ?_⟩
  have hsublist := sublist_firsts builder.foldedText
    (builder.proposals context processed history targetLanguages traceId)
  exact {
    canonical := by
      have hmax : builder.maxVariants ≠ 0 := Nat.one_le_iff_ne_zero.1 builder.maxVariants_bounds.1
      rw [List.head?_take, if_neg hmax, head?_firsts]
      simp [proposals]
    length_le := List.length_take_le _ _
    distinct := (nodup_map_firsts builder.foldedText _).sublist
      ((List.take_sublist _ _).map builder.foldedText)
    proposed := fun variant hvariant =>
      mem_proposals_iff.1 (hsublist.subset (List.mem_of_mem_take hvariant))
    complete := by
      rcases le_or_gt builder.maxVariants (firsts builder.foldedText (builder.proposals context
        processed history targetLanguages traceId)).length with hle | hlt
      · exact .inl (List.length_take_of_le hle)
      · refine .inr fun variant hvariant => ?_
        rw [List.take_of_length_le hlt.le]
        exact exists_mem_firsts (mem_proposals_iff.2 hvariant)
    failures := rfl }

end QueryVariantBuilder

end Knowledge
end RagflowAgent
