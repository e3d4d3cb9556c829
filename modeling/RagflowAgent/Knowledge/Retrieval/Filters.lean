import RagflowAgent.Knowledge.Application.Ingestion
import RagflowAgent.Knowledge.Retrieval.Query
import RagflowAgent.Search.Clause

/-!
# Search filters

`filters` compiles an actor and a query to the clauses that every search carries.  What the
clauses mean is fixed by `Search.Clause`, what they are meant to mean by
`MetadataFilterItem.Holds`, which follows the tree of a filter expression.

* `IndexedChunk.values` is an indexed chunk as the engine sees it, field by field;
* `matches_metadataFilter` and `matches_metadataFilterGroup` say that filters and groups
  compile to their meaning, and `matches_accessClauses` does the same for the clauses that
  every search has;
* `matches_filters_iff` is the result for the records of the pipeline.
-/

namespace RagflowAgent
namespace Knowledge

open Search Search.Clause

/-! ## Chunks as the engine sees them -/

/-- The values of a stored field. -/
inductive StoredValue where
  | str (value : String)
  | bool (value : Bool)
  | date (value : ℕ)
  deriving DecidableEq, Repr

def Visibility.value : Visibility → String
  | ownerOnly => "private"
  | tenant => "tenant"

/-- The JSON document of a chunk: a null or an empty array is a field without values. -/
def IndexedChunk.values (chunk : IndexedChunk) (field : String) : List StoredValue :=
  match field with
  | "index_version_id" => [.str chunk.indexVersionId]
  | "tenant_id" => [.str chunk.tenantId]
  | "knowledge_base_id" => [.str chunk.knowledgeBaseId]
  | "owner_id" => [.str chunk.ownerId]
  | "visibility" => [.str chunk.visibility.value]
  | "document_id" => [.str chunk.documentId]
  | "document_version_id" => [.str chunk.documentVersionId]
  | "media_type" => [.str chunk.mediaType]
  | "created_at" => [.date chunk.createdAt]
  | "active" => [.bool chunk.active]
  | "allowed_actor_ids" => chunk.allowedActorIds.map .str
  | "allowed_roles" => chunk.allowedRoles.map .str
  | "document_enabled" => [.bool chunk.documentEnabled]
  | "document_deleted" => [.bool chunk.documentDeleted]
  | "heading_path" => chunk.metadata.headingPath.map .str
  | "language" => (chunk.metadata.language.map .str).toList
  | "contains_table" => [.bool chunk.metadata.containsTable]
  | "contains_image" => [.bool chunk.metadata.containsImage]
  | "chunk_strategy_id" => (chunk.metadata.chunkStrategyId.map .str).toList
  | _ => []

/-- How the engine compares.  On a keyword field a text equals itself only, on a boolean
field a truth value equals itself only; nothing else is asked. -/
structure FieldComparison extends Comparison FilterScalar StoredValue where
  term_str : ∀ field a b, term field (.str a) (.str b) = true ↔ a = b
  term_bool : ∀ field a b, term field (.bool a) (.bool b) = true ↔ a = b

/-! ## The compiler -/

/-- `_metadata_filter`. -/
def metadataFilter : MetadataFilter → Clause FilterScalar
  | ⟨field, .equals, .one value, _⟩ => .term field.value value
  | ⟨field, .isIn, .many values, _⟩ => .terms field.value values
  | ⟨field, .greaterThanOrEqual, .one value, _⟩ => .range field.value .gte value
  | ⟨field, .lessThanOrEqual, .one value, _⟩ => .range field.value .lte value

mutual

/-- `_metadata_filter_group`, with the choice between filter and group that it makes for
every item. -/
def metadataFilterItem : MetadataFilterItem → Clause FilterScalar
  | .filter item => metadataFilter item
  | .group .and items => .bool (metadataFilterItems items) [] [] 0
  | .group .or items => .bool [] [] (metadataFilterItems items) 1
  | .group .not items => .bool [] (metadataFilterItems items) [] 0

def metadataFilterItems : List MetadataFilterItem → List (Clause FilterScalar)
  | [] => []
  | item :: items => metadataFilterItem item :: metadataFilterItems items

end

def metadataFilterGroup (group : MetadataFilterGroup) : Clause FilterScalar :=
  metadataFilterItem (.group group.operator group.items)

/-- A chunk is enabled, or was written before there was a switch. -/
def enabledClause : Clause FilterScalar :=
  .bool [] []
    [.term "document_enabled" (.bool true), .bool [] [.hasField "document_enabled"] [] 0] 1

/-- The actor is the owner, the chunk is visible in the tenant, or it names the actor or one
of his roles. -/
def readableClause (context : AuthorizationContext) : Clause FilterScalar :=
  .bool [] []
    ([.term "owner_id" (.str context.actorId),
      .term "visibility" (.str Visibility.tenant.value),
      .term "allowed_actor_ids" (.str context.actorId)] ++
      if context.roles = [] then [] else [.terms "allowed_roles" (context.roles.map .str)]) 1

/-- The clauses that every search carries. -/
def accessClauses (context : AuthorizationContext) (query : RetrievalQuery) :
    List (Clause FilterScalar) :=
  [.term "tenant_id" (.str context.tenantId),
    .terms "knowledge_base_id" (query.knowledgeBaseIds.map .str),
    .term "active" (.bool true),
    enabledClause,
    .bool [] [.term "document_deleted" (.bool true)] [] 0,
    readableClause context]

/-- `_filters`. -/
def filters (context : AuthorizationContext) (query : RetrievalQuery) :
    List (Clause FilterScalar) :=
  accessClauses context query ++
    (if query.indexVersionIds = [] then []
      else [.terms "index_version_id" (query.indexVersionIds.map .str)]) ++
    query.filters.map metadataFilter ++
    query.filterExpression.toList.map metadataFilterGroup ++
    query.inferredFilterExpression.toList.map metadataFilterGroup

/-! ## The meaning -/

section Meaning

variable (cmp : FieldComparison) (chunk : IndexedChunk)

/-- A filter holds of a chunk when some value of its field satisfies the comparison. -/
def MetadataFilter.Holds (item : MetadataFilter) : Prop :=
  ∃ stored ∈ chunk.values item.field.value,
    match item.operator, item.value with
    | .equals, .one value => cmp.term item.field.value stored value = true
    | .isIn, .many values => ∃ value ∈ values, cmp.term item.field.value stored value = true
    | .greaterThanOrEqual, .one value => cmp.range item.field.value .gte stored value = true
    | .lessThanOrEqual, .one value => cmp.range item.field.value .lte stored value = true
    | _, _ => False

mutual

/-- An expression holds as its tree says.  The child of a NOT does not hold. -/
def MetadataFilterItem.Holds : MetadataFilterItem → Prop
  | .filter item => item.Holds cmp chunk
  | .group .and items => MetadataFilterItem.AllHold items
  | .group .or items => MetadataFilterItem.SomeHolds items
  | .group .not items => ¬ MetadataFilterItem.AllHold items

def MetadataFilterItem.AllHold : List MetadataFilterItem → Prop
  | [] => True
  | item :: items => item.Holds ∧ MetadataFilterItem.AllHold items

def MetadataFilterItem.SomeHolds : List MetadataFilterItem → Prop
  | [] => False
  | item :: items => item.Holds ∨ MetadataFilterItem.SomeHolds items

end

def MetadataFilterGroup.Holds (group : MetadataFilterGroup) : Prop :=
  (MetadataFilterItem.group group.operator group.items).Holds cmp chunk

end Meaning

/-- What the policy looks at in an indexed chunk. -/
def IndexedChunk.authorization (chunk : IndexedChunk) : ResourceAuthorization where
  tenantId := chunk.tenantId
  ownerId := chunk.ownerId
  visibility := chunk.visibility

/-! ## The compiler is correct -/

section Correctness

variable {cmp : FieldComparison} {chunk : IndexedChunk}

/-- A filter compiles to its meaning. -/
theorem matches_metadataFilter (item : MetadataFilter) :
    (metadataFilter item).Matches cmp.toComparison chunk.values ↔ item.Holds cmp chunk := by
  obtain ⟨field, operator, value, haccepts⟩ := item
  cases operator with
  | equals =>
    cases value with
    | one value => rw [metadataFilter, matches_term, MetadataFilter.Holds]
    | many values => exact haccepts.elim
  | isIn =>
    cases value with
    | one value => exact haccepts.elim
    | many values => rw [metadataFilter, matches_terms, MetadataFilter.Holds]
  | greaterThanOrEqual =>
    cases value with
    | one value => rw [metadataFilter, matches_range, MetadataFilter.Holds]
    | many values => exact haccepts.elim
  | lessThanOrEqual =>
    cases value with
    | one value => rw [metadataFilter, matches_range, MetadataFilter.Holds]
    | many values => exact haccepts.elim

mutual

/-- Filters and groups compile to their meaning, by induction on the expression. -/
theorem matches_metadataFilterItem : ∀ item : MetadataFilterItem, item.Valid →
    ((metadataFilterItem item).Matches cmp.toComparison chunk.values ↔ item.Holds cmp chunk)
  | .filter item, _ => by
    rw [metadataFilterItem, MetadataFilterItem.Holds]
    exact matches_metadataFilter item
  | .group .and items, hvalid => by
    rw [metadataFilterItem, matches_filter, MetadataFilterItem.Holds]
    exact (matches_metadataFilterItems items hvalid.2.2).1
  | .group .or items, hvalid => by
    rw [metadataFilterItem, matches_should, MetadataFilterItem.Holds]
    exact (matches_metadataFilterItems items hvalid.2.2).2
  | .group .not [item], hvalid => by
    have hchild := matches_metadataFilterItem item hvalid.2.2.1
    rw [metadataFilterItem, matches_mustNot, MetadataFilterItem.Holds]
    simp [metadataFilterItems, MetadataFilterItem.AllHold, hchild]
  | .group .not [], hvalid => absurd (hvalid.2.1 rfl) (by simp)
  | .group .not (_ :: _ :: _), hvalid => absurd (hvalid.2.1 rfl) (by simp)

theorem matches_metadataFilterItems : ∀ items : List MetadataFilterItem,
    MetadataFilterItem.AllValid items →
    ((∀ clause ∈ metadataFilterItems items, clause.Matches cmp.toComparison chunk.values) ↔
        MetadataFilterItem.AllHold cmp chunk items) ∧
      ((∃ clause ∈ metadataFilterItems items, clause.Matches cmp.toComparison chunk.values) ↔
        MetadataFilterItem.SomeHolds cmp chunk items)
  | [], _ => by
    simp [metadataFilterItems, MetadataFilterItem.AllHold, MetadataFilterItem.SomeHolds]
  | item :: items, hvalid => by
    have hitem := matches_metadataFilterItem item hvalid.1
    obtain ⟨hall, hsome⟩ := matches_metadataFilterItems items hvalid.2
    rw [metadataFilterItems, List.forall_mem_cons, MetadataFilterItem.AllHold,
      MetadataFilterItem.SomeHolds, hitem, hall]
    refine ⟨Iff.rfl, ?_⟩
    rw [← hsome]
    simp [hitem]

end

theorem matches_metadataFilterGroup (group : MetadataFilterGroup) :
    (metadataFilterGroup group).Matches cmp.toComparison chunk.values ↔ group.Holds cmp chunk :=
  matches_metadataFilterItem _ group.valid

/-- A term on a field with one text. -/
theorem matches_term_str {field a b : String} (h : chunk.values field = [.str a]) :
    (Clause.term field (.str b)).Matches cmp.toComparison chunk.values ↔ a = b := by
  simp [h, cmp.term_str]

/-- A term on a field with one truth value. -/
theorem matches_term_bool {field : String} {a b : Bool} (h : chunk.values field = [.bool a]) :
    (Clause.term field (.bool b)).Matches cmp.toComparison chunk.values ↔ a = b := by
  simp [h, cmp.term_bool]

/-- Terms on a field with one text. -/
theorem matches_terms_str {field a : String} {l : List String} (h : chunk.values field = [.str a]) :
    (Clause.terms field (l.map .str)).Matches cmp.toComparison chunk.values ↔ a ∈ l := by
  simp [h, cmp.term_str]

theorem matches_enabledClause :
    enabledClause.Matches cmp.toComparison chunk.values ↔ chunk.documentEnabled = true := by
  have hterm : (Clause.term "document_enabled" (FilterScalar.bool true)).Matches cmp.toComparison
      chunk.values ↔ chunk.documentEnabled = true := matches_term_bool rfl
  have hfield : chunk.values "document_enabled" ≠ [] := List.cons_ne_nil _ _
  rw [enabledClause, matches_should]
  simp [hterm, hfield]

/-- If a chunk names no actors and roles of its own, then the actor is its owner or it is
visible in the tenant. -/
theorem matches_readableClause {context : AuthorizationContext}
    (hactors : chunk.allowedActorIds = []) (hroles : chunk.allowedRoles = []) :
    (readableClause context).Matches cmp.toComparison chunk.values ↔
      context.actorId = chunk.ownerId ∨ chunk.visibility = .tenant := by
  have howner : (Clause.term "owner_id" (FilterScalar.str context.actorId)).Matches
      cmp.toComparison chunk.values ↔ context.actorId = chunk.ownerId :=
    (matches_term_str rfl).trans eq_comm
  have hvalue : chunk.visibility.value = Visibility.tenant.value ↔ chunk.visibility = .tenant := by
    cases chunk.visibility <;> decide
  have hvisible : (Clause.term "visibility" (FilterScalar.str Visibility.tenant.value)).Matches
      cmp.toComparison chunk.values ↔ chunk.visibility = .tenant :=
    (matches_term_str rfl).trans hvalue
  have hactor : ¬ (Clause.term "allowed_actor_ids" (FilterScalar.str context.actorId)).Matches
      cmp.toComparison chunk.values := by
    simp [IndexedChunk.values, hactors]
  have hrole : ¬ ∃ clause ∈ (if context.roles = [] then []
      else [Clause.terms "allowed_roles" (context.roles.map FilterScalar.str)]),
      clause.Matches cmp.toComparison chunk.values := by
    rintro ⟨clause, hclause, hmatches⟩
    split at hclause
    · cases hclause
    · rw [List.mem_singleton] at hclause
      simp [hclause, IndexedChunk.values, hroles] at hmatches
  rw [readableClause, matches_should, List.cons_append, List.cons_append, List.cons_append,
    List.nil_append, List.exists_mem_cons_iff, List.exists_mem_cons_iff, List.exists_mem_cons_iff,
    howner, hvisible]
  simp only [hactor, hrole, or_false]

/-- **The clauses of every search** admit the chunks that the actor may read, of the
requested knowledge bases, switched on, and no others. -/
theorem matches_accessClauses {context : AuthorizationContext} {query : RetrievalQuery}
    (hactors : chunk.allowedActorIds = []) (hroles : chunk.allowedRoles = []) :
    (∀ clause ∈ accessClauses context query,
        clause.Matches cmp.toComparison chunk.values) ↔
      chunk.tenantId = context.tenantId ∧ chunk.knowledgeBaseId ∈ query.knowledgeBaseIds ∧
        chunk.active = true ∧ chunk.documentEnabled = true ∧ chunk.documentDeleted = false ∧
        (PermissionChecker.check context chunk.authorization .read).allowed = true := by
  have htenant : (Clause.term "tenant_id" (FilterScalar.str context.tenantId)).Matches
      cmp.toComparison chunk.values ↔ chunk.tenantId = context.tenantId := matches_term_str rfl
  have hkb : (Clause.terms "knowledge_base_id"
      (query.knowledgeBaseIds.map FilterScalar.str)).Matches cmp.toComparison chunk.values ↔
        chunk.knowledgeBaseId ∈ query.knowledgeBaseIds := matches_terms_str rfl
  have hactive : (Clause.term "active" (FilterScalar.bool true)).Matches cmp.toComparison
      chunk.values ↔ chunk.active = true := matches_term_bool rfl
  have hdeleted : (Clause.term "document_deleted" (FilterScalar.bool true)).Matches
      cmp.toComparison chunk.values ↔ chunk.documentDeleted = true := matches_term_bool rfl
  rw [accessClauses, PermissionChecker.allowed_read_iff]
  simp only [List.forall_mem_cons, matches_mustNot, htenant, hkb, hactive, hdeleted,
    matches_enabledClause, matches_readableClause hactors hroles, IndexedChunk.authorization]
  constructor
  · rintro ⟨h1, h2, h3, h4, h5, h6, -⟩
    exact ⟨h1, h2, h3, h4, Bool.eq_false_iff.2 h5.1, h1.symm, h6⟩
  · rintro ⟨h1, h2, h3, h4, h5, -, h6⟩
    exact ⟨h1, h2, h3, h4, ⟨Bool.eq_false_iff.1 h5, by simp⟩, h6, by simp⟩

/-- The clause on index versions. -/
theorem matches_indexVersions {l : List String} :
    (∀ clause ∈ (if l = [] then []
        else [Clause.terms "index_version_id" (l.map FilterScalar.str)]),
        clause.Matches cmp.toComparison chunk.values) ↔ (l ≠ [] → chunk.indexVersionId ∈ l) := by
  have hterms : (Clause.terms "index_version_id" (l.map FilterScalar.str)).Matches
      cmp.toComparison chunk.values ↔ chunk.indexVersionId ∈ l := matches_terms_str rfl
  by_cases hl : l = []
  · simp [hl]
  · rw [if_neg hl, List.forall_mem_singleton, hterms]
    exact ⟨fun h _ => h, fun h => h hl⟩

/-- All clauses of a search, for a chunk that names no actors and roles of its own. -/
theorem matches_filters {context : AuthorizationContext} {query : RetrievalQuery}
    (hactors : chunk.allowedActorIds = []) (hroles : chunk.allowedRoles = []) :
    (∀ clause ∈ filters context query, clause.Matches cmp.toComparison chunk.values) ↔
      (chunk.tenantId = context.tenantId ∧ chunk.knowledgeBaseId ∈ query.knowledgeBaseIds ∧
        chunk.active = true ∧ chunk.documentEnabled = true ∧ chunk.documentDeleted = false ∧
        (PermissionChecker.check context chunk.authorization .read).allowed = true) ∧
      (query.indexVersionIds ≠ [] → chunk.indexVersionId ∈ query.indexVersionIds) ∧
      (∀ item ∈ query.filters, item.Holds cmp chunk) ∧
      (∀ group ∈ query.filterExpression, group.Holds cmp chunk) ∧
      ∀ group ∈ query.inferredFilterExpression, group.Holds cmp chunk := by
  have hgroup : ∀ o : Option MetadataFilterGroup,
      (∀ clause ∈ o.toList.map metadataFilterGroup,
        clause.Matches cmp.toComparison chunk.values) ↔ ∀ group ∈ o, group.Holds cmp chunk := by
    intro o
    rw [List.forall_mem_map]
    simp [matches_metadataFilterGroup]
  rw [filters, List.forall_mem_append, List.forall_mem_append, List.forall_mem_append,
    List.forall_mem_append, matches_accessClauses hactors hroles, matches_indexVersions,
    List.forall_mem_map, hgroup, hgroup]
  simp only [matches_metadataFilter, and_assoc]

end Correctness

/-- **Search filters mean what they say.**  A record of the pipeline satisfies all clauses of
a search if and only if its tenant is the caller's, its knowledge base is requested, it is
active, enabled and not deleted, the caller may read it, its index version is requested if
any is, and the filters and both expressions hold of it.  And another filter only removes
records. -/
theorem matches_filters_iff (cmp : FieldComparison) (context : AuthorizationContext)
    (query : RetrievalQuery) (indexVersionId : String) (document : Document)
    (version : DocumentVersion) (embedded : EmbeddingResult) (chunk : ChunkRecord) (now : ℕ)
    (active : Bool) (indexed : IndexedChunk)
    (hindexed : indexed = (IngestionPipeline.indexRecord indexVersionId document version embedded
      chunk now).source active) :
    ((∀ clause ∈ filters context query, clause.Matches cmp.toComparison indexed.values) ↔
      (indexed.tenantId = context.tenantId ∧ indexed.knowledgeBaseId ∈ query.knowledgeBaseIds ∧
        indexed.active = true ∧ indexed.documentEnabled = true ∧
        indexed.documentDeleted = false ∧
        (PermissionChecker.check context indexed.authorization .read).allowed = true) ∧
      (query.indexVersionIds ≠ [] → indexed.indexVersionId ∈ query.indexVersionIds) ∧
      (∀ item ∈ query.filters, item.Holds cmp indexed) ∧
      (∀ group ∈ query.filterExpression, group.Holds cmp indexed) ∧
      ∀ group ∈ query.inferredFilterExpression, group.Holds cmp indexed) ∧
    ∀ item, (∀ clause ∈ filters context { query with filters := item :: query.filters },
        clause.Matches cmp.toComparison indexed.values) →
      ∀ clause ∈ filters context query, clause.Matches cmp.toComparison indexed.values := by
  have hactors : indexed.allowedActorIds = [] := by rw [hindexed]; rfl
  have hroles : indexed.allowedRoles = [] := by rw [hindexed]; rfl
  refine ⟨matches_filters hactors hroles, fun item hmore => ?_⟩
  rw [matches_filters hactors hroles] at hmore ⊢
  obtain ⟨haccess, hversions, hfilters, hgroups⟩ := hmore
  exact ⟨haccess, hversions, (List.forall_mem_cons.1 hfilters).2, hgroups⟩

namespace Sample

/-- Values compared by equality, and texts by their order. -/
def comparison : FieldComparison where
  term
    | _, .str a, .str b => a == b
    | _, .bool a, .bool b => a == b
    | _, .date a, .int b => (a : ℤ) == b
    | _, _, _ => false
  range
    | _, .gte, .str a, .str b => decide (b ≤ a)
    | _, .lte, .str a, .str b => decide (a ≤ b)
    | _, .gte, .date a, .int b => decide (b ≤ (a : ℤ))
    | _, .lte, .date a, .int b => decide ((a : ℤ) ≤ b)
    | _, _, _, _ => false
  term_str _ a b := by simp
  term_bool _ a b := by simp

/-- Everything that is not in English. -/
def notEnglish : MetadataFilterGroup where
  operator := .not
  items := [.filter ⟨.language, .equals, .one (.str "en"), trivial⟩]
  valid := ⟨by simp, fun _ => rfl, trivial, trivial⟩

def query : RetrievalQuery where
  tenantId := "t"
  text := "question"
  knowledgeBaseIds := ["notes"]
  filterExpression := some notEnglish
  traceId := "trace"
  knowledgeBaseIds_ne_nil := by simp
  knowledgeBaseIds_nodup := by simp

/-- The record of a chunk without a language. -/
def indexed : IndexedChunk :=
  (IngestionPipeline.indexRecord "idx_v"
    { id := "d", tenantId := "t", knowledgeBaseId := "notes", ownerId := "owner", name := "name",
      createdAt := 0, updatedAt := 0 }
    { id := "v", tenantId := "t", knowledgeBaseId := "notes", documentId := "d",
      createdBy := "owner", objectKey := "key", mediaType := "text/plain", contentHash := "hash",
      sizeBytes := 1, createdAt := 0, updatedAt := 0 }
    { vectors := [⟨"c", [1]⟩] } ⟨"c", "t", "notes", "d", "v", "text", {}⟩ 0).source true

end Sample

/-- A chunk without a language is not in English. -/
theorem matches_filters_iff_notEnglish :
    filters ⟨"t", "owner", "request", []⟩ Sample.query ≠ [] ∧
      ∀ clause ∈ filters ⟨"t", "owner", "request", []⟩ Sample.query,
        clause.Matches Sample.comparison.toComparison Sample.indexed.values := by
  refine ⟨nofun, ?_⟩
  refine (matches_filters_iff Sample.comparison ⟨"t", "owner", "request", []⟩ Sample.query _ _ _ _ _
    _ _ Sample.indexed rfl).1.2 ⟨?_, ?_, ?_, ?_, ?_⟩
  · decide
  · exact fun h => absurd rfl h
  · simp [Sample.query]
  · intro group hgroup
    cases hgroup
    rintro ⟨⟨stored, hstored, -⟩, -⟩
    cases hstored
  · nofun

end Knowledge
end RagflowAgent
