import Mathlib.Data.List.Sort
import RagflowAgent.Interleaving.Faults
import RagflowAgent.Interleaving.Run
import RagflowAgent.Knowledge.Domain.Authorization
import RagflowAgent.Knowledge.SearchIndex
import RagflowAgent.Relational.Table
import RagflowAgent.Search.Alias

/-!
# Rebuilding an index

A generation of the index is built beside the one in use, validated, and published by moving the
read alias to it.  Every request to the search cluster is one call.

* `Cluster` are the physical indexes and the aliases, `ClusterCall` the requests, and
  `ClusterCall.effect` what each of them does;
* `ElasticsearchSearchAdapter` has the steps of a rebuild: `switchAlias` and `deleteGeneration`
  look up the alias in one request and act in another;
* `IndexRebuildService` has `buildAndPublish` and `rollbackAlias`, and `RebuildCommand` is a call
  of one of them.

A generation also carries a number and a fencing token, at which no function of the rebuild looks.
-/

namespace RagflowAgent
namespace Knowledge

open Interleaving Keyed Search

/-! ## Generations -/

structure IndexGeneration where
  tenantId : String
  knowledgeBaseId : String
  physicalIndex : String
  readAlias : String
  writeAlias : String
  expectedChunks : ℕ
  mappingVersion : String
  deriving DecidableEq, Repr

structure IndexGenerationValidation where
  physicalIndex : String
  mappingValid : Bool
  chunkCount : ℕ
  tenantScopeValid : Bool
  knowledgeBaseScopeValid : Bool
  lifecycleFieldsValid : Bool
  sampleQueryValid : Bool
  checksum : String
  deriving DecidableEq, Repr

def IndexGenerationValidation.healthy (validation : IndexGenerationValidation) : Bool :=
  validation.mappingValid && validation.tenantScopeValid && validation.knowledgeBaseScopeValid &&
    validation.lifecycleFieldsValid && validation.sampleQueryValid

/-! ## The cluster -/

/-- An index, with the fields of its mapping. -/
structure PhysicalIndex where
  name : String
  properties : List String
  documents : List IndexedChunk := []
  deriving DecidableEq

instance : Keyed String PhysicalIndex := ⟨PhysicalIndex.name⟩

structure Cluster where
  indexes : Table PhysicalIndex := Table.empty
  aliases : AliasTable := []

/-- What settles a request. -/
structure ClusterInput extends Faults Error where
  /-- The documents that a bulk request rejects. -/
  rejected : List String := []
  /-- The fields of an index that the cluster creates for a bulk request, if it does. -/
  autoCreated : Option (List String) := none
  /-- The place of the hit that a search returns. -/
  sample : ℕ := 0
  deriving DecidableEq

/-- The requests, with the type of their answers.  A bulk request answers whether a document was
rejected, and an alias that nothing has is no error. -/
inductive ClusterCall : Type → Type 1 where
  | indexExists (index : String) : ClusterCall Bool
  | createIndex (index : String) (properties : List String) : ClusterCall Unit
  | bulk (index : String) (documents : List IndexedChunk) : ClusterCall Bool
  | getMapping (index : String) : ClusterCall (List String)
  | search (index : String) : ClusterCall (ℕ × List IndexedChunk)
  | getAlias (aliasName : String) : ClusterCall (Option (List String))
  | updateAliases (actions : List AliasAction) : ClusterCall Unit
  | deleteIndex (index : String) : ClusterCall Unit

def indexNotFound (index : String) : Error :=
  .http "NotFoundError" ("index_not_found_exception: " ++ index) 404

def resourceAlreadyExists (index : String) : Error :=
  .http "BadRequestError" ("resource_already_exists_exception: " ++ index) 400

/-- A document is written over the one with its key. -/
def PhysicalIndex.write (index : PhysicalIndex) (chunk : IndexedChunk) : PhysicalIndex :=
  { index with
    documents :=
      index.documents.filter (fun document => document.documentKey ≠ chunk.documentKey) ++
        [chunk] }

namespace ClusterCall

/-- What a request does when it takes effect: its answer and the next state. -/
def effect ⦃β : Type⦄ (c : ClusterCall β) (x : ClusterInput) (s : Cluster) :
    Except Error (β × Cluster) :=
  match c with
  | indexExists index => .ok ((s.indexes.get index).isSome, s)
  | createIndex index properties =>
    match s.indexes.add { name := index, properties := properties } with
    | none => .error (resourceAlreadyExists index)
    | some indexes => .ok ((), { s with indexes := indexes })
  | bulk index documents =>
    let accepted := documents.filter fun document => document.documentKey ∉ x.rejected
    match (s.indexes.get index).or (x.autoCreated.map fun properties =>
        { name := index, properties := properties }) with
    | none => .ok (true, s)
    | some target =>
      .ok (accepted.length != documents.length,
        { s with indexes := s.indexes.upsert (accepted.foldl PhysicalIndex.write target) })
  | getMapping index =>
    match s.indexes.get index with
    | none => .error (indexNotFound index)
    | some found => .ok (found.properties, s)
  | search index =>
    match s.indexes.get index with
    | none => .error (indexNotFound index)
    | some found =>
      .ok ((found.documents.length, (found.documents.drop x.sample).take 1), s)
  | getAlias aliasName =>
    match s.aliases.pointed aliasName with
    | [] => .ok (none, s)
    | indexes => .ok (some indexes, s)
  | updateAliases actions =>
    match actions.find? fun action => (s.indexes.get action.index).isNone with
    | some action => .error (indexNotFound action.index)
    | none => .ok ((), { s with aliases := s.aliases.update actions })
  | deleteIndex index =>
    .ok ((), { indexes := s.indexes.erase (fun found => found.name = index),
               aliases := s.aliases.dropIndex index })

end ClusterCall

abbrev Rebuild (α : Type) : Type 1 := Prog ClusterCall Error α

/-- **One step of a rebuild.** -/
def execCluster ⦃β : Type⦄ (c : ClusterCall β) (x : ClusterInput) (s : Cluster) :
    Except Error β × Cluster :=
  execFaulty (fun _ _ => true) ClusterInput.toFaults ClusterCall.effect c x s

/-! ## The adapter -/

/-- The fields of the mapping of a new index. -/
def mappingProperties : List String :=
  ["index_version_id", "tenant_id", "knowledge_base_id", "owner_id", "visibility", "document_id",
    "document_version_id", "chunk_id", "content", "media_type", "created_at", "active",
    "allowed_actor_ids", "allowed_roles", "document_enabled", "document_deleted",
    "lifecycle_fencing_token", "heading_path", "page_start", "page_end", "language",
    "source_order_start", "source_order_end", "block_kinds", "bbox_x0", "bbox_y0", "bbox_x1",
    "bbox_y1", "bbox_coordinate_space", "contains_table", "contains_image", "parser_name",
    "parser_version", "chunk_strategy_id", "chunk_strategy_version", "embedding"]

structure ElasticsearchSearchAdapter where
  indexName : String

namespace ElasticsearchSearchAdapter

variable (adapter : ElasticsearchSearchAdapter) (context : AuthorizationContext)
  (generation : IndexGeneration)

/-- `value.startswith(f"{self._index_name}-")`. -/
def Scoped (value : String) : Prop :=
  (adapter.indexName ++ "-").toList.isPrefixOf value.toList = true

instance (value : String) : Decidable (adapter.Scoped value) :=
  inferInstanceAs (Decidable (_ = true))

/-- `_require_generation_scope`. -/
def requireGenerationScope : Rebuild Unit := do
  Prog.raiseWhen (context.tenantId ≠ generation.tenantId) (.authorization "tenant_mismatch")
  Prog.raiseWhen (¬ (adapter.Scoped generation.physicalIndex ∧ adapter.Scoped generation.readAlias ∧
    adapter.Scoped generation.writeAlias)) (.authorization "tenant_mismatch")

def createStagingGeneration : Rebuild Unit := do
  adapter.requireGenerationScope context generation
  let present ← Prog.perform (.indexExists generation.physicalIndex)
  if present then pure ()
  else Prog.perform (.createIndex generation.physicalIndex mappingProperties)

def writeGeneration (records : List IndexRecord) : Rebuild Unit := do
  adapter.requireGenerationScope context generation
  Prog.raiseWhen (∃ record ∈ records, record.tenantId ≠ context.tenantId ∨
    record.knowledgeBaseId ≠ generation.knowledgeBaseId) (.authorization "tenant_mismatch")
  if records = [] then pure ()
  else do
    let errors ← Prog.perform (.bulk generation.physicalIndex (records.map fun record =>
      record.source (record.documentEnabled && !record.documentDeleted)))
    Prog.raiseWhen (errors = true) (.conflict
      "staging generation bulk upsert was partially rejected" "search_bulk_partial_failure")

def validateGeneration : Rebuild IndexGenerationValidation := do
  adapter.requireGenerationScope context generation
  let properties ← Prog.perform (.getMapping generation.physicalIndex)
  let (total, sample) ← Prog.perform (.search generation.physicalIndex)
  let tenantValid := sample.all fun hit => hit.tenantId = context.tenantId
  let kbValid := sample.all fun hit => hit.knowledgeBaseId = generation.knowledgeBaseId
  return {
    physicalIndex := generation.physicalIndex
    mappingValid := "embedding" ∈ properties
    chunkCount := total
    tenantScopeValid := tenantValid
    knowledgeBaseScopeValid := kbValid
    lifecycleFieldsValid :=
      ["active", "document_deleted", "document_version_id"].all (· ∈ properties)
    sampleQueryValid := sample.isEmpty || (tenantValid && kbValid)
    checksum := generation.mappingVersion ++ ":" ++ toString total ++ ":" ++
      toString properties.length }

def resolveAlias (aliasName : String) : Rebuild (Option String) := do
  Prog.raiseWhen (¬ adapter.Scoped aliasName) (.authorization "tenant_mismatch")
  match ← Prog.perform (.getAlias aliasName) with
  | none => pure none
  | some response => do
    let indexes := response.insertionSort (· ≤ ·)
    Prog.raiseWhen (1 < indexes.length)
      (.conflict "read alias points to multiple physical indexes" "index_alias_ambiguous")
    pure indexes.head?

def switchAlias (expectedCurrent : Option String) : Rebuild (Option String) := do
  adapter.requireGenerationScope context generation
  let current ← adapter.resolveAlias generation.readAlias
  Prog.raiseWhen (current ≠ expectedCurrent)
    (.conflict "index alias changed before publication" "index_alias_conflict")
  Prog.perform (.updateAliases
    (AliasTable.move current generation.physicalIndex generation.readAlias generation.writeAlias))
  let actual ← adapter.resolveAlias generation.readAlias
  Prog.raiseWhen (actual ≠ some generation.physicalIndex)
    (.conflict "index alias publication result is unknown" "index_alias_result_unknown")
  pure current

def deleteGeneration : Rebuild Unit := do
  adapter.requireGenerationScope context generation
  let current ← adapter.resolveAlias generation.readAlias
  Prog.raiseWhen (current = some generation.physicalIndex)
    (.conflict "active index generation cannot be deleted" "index_generation_active")
  Prog.perform (.deleteIndex generation.physicalIndex)

end ElasticsearchSearchAdapter

/-! ## The service -/

namespace IndexRebuildService

variable (search : ElasticsearchSearchAdapter) (context : AuthorizationContext)

/-- The publication of a generation.  A switch that has failed may have taken effect; the alias
tells. -/
def publish (generation : IndexGeneration) (expectedCurrent : Option String) :
    Rebuild (Option String) :=
  (search.switchAlias context generation expectedCurrent).attempt fun error => do
    let actual ← search.resolveAlias generation.readAlias
    Prog.raiseWhen (actual ≠ some generation.physicalIndex) error
    pure expectedCurrent

/-- The `try` block of `build_and_publish`. -/
def build (generation : IndexGeneration) (records : List IndexRecord)
    (expectedCurrent : Option String) : Rebuild IndexGenerationValidation := do
  search.writeGeneration context generation records
  let validation ← search.validateGeneration context generation
  Prog.raiseWhen
    (validation.healthy = false ∨ validation.chunkCount ≠ generation.expectedChunks)
    (.conflict "staging index validation failed" "index_generation_invalid")
  let previous ← publish search context generation expectedCurrent
  Prog.raiseWhen (previous ≠ expectedCurrent)
    (.conflict "read alias changed concurrently" "index_alias_conflict")
  pure validation

/-- The handler of `build_and_publish`: the generation is deleted unless it is in use. -/
def discard (generation : IndexGeneration) (error : Error) :
    Rebuild IndexGenerationValidation := do
  let actual ← search.resolveAlias generation.readAlias
  if actual ≠ some generation.physicalIndex then search.deleteGeneration context generation
  else pure ()
  Prog.raise error

def buildAndPublish (generation : IndexGeneration) (records : List IndexRecord)
    (expectedCurrent : Option String) : Rebuild IndexGenerationValidation := do
  Prog.raiseWhen (context.tenantId ≠ generation.tenantId)
    (.conflict "tenant mismatch" "tenant_mismatch")
  search.createStagingGeneration context generation
  (build search context generation records expectedCurrent).attempt
    (discard search context generation)

def rollbackAlias (target : IndexGeneration) (expectedCurrent : String) : Rebuild Unit := do
  let validation ← search.validateGeneration context target
  Prog.raiseWhen (validation.healthy = false)
    (.conflict "rollback index is unhealthy" "index_generation_invalid")
  let _ ← search.switchAlias context target (some expectedCurrent)
  pure ()

end IndexRebuildService

/-! ## Commands -/

/-- A call of the service. -/
inductive RebuildCommand where
  | buildAndPublish (context : AuthorizationContext) (generation : IndexGeneration)
      (records : List IndexRecord) (expectedCurrent : Option String)
  | rollbackAlias (context : AuthorizationContext) (target : IndexGeneration)
      (expectedCurrent : String)

namespace RebuildCommand

/-- The generation that is published. -/
def generation : RebuildCommand → IndexGeneration
  | buildAndPublish _ generation _ _ => generation
  | rollbackAlias _ target _ => target

def expectedCurrent : RebuildCommand → Option String
  | buildAndPublish _ _ _ expectedCurrent => expectedCurrent
  | rollbackAlias _ _ expectedCurrent => some expectedCurrent

def program (search : ElasticsearchSearchAdapter) : RebuildCommand → Rebuild Unit
  | buildAndPublish context generation records expectedCurrent =>
    (IndexRebuildService.buildAndPublish search context generation records expectedCurrent).void
  | rollbackAlias context target expectedCurrent =>
    IndexRebuildService.rollbackAlias search context target expectedCurrent

end RebuildCommand

/-- Any number of rebuilds over one cluster. -/
def rebuildSystem {τ : Type} (search : ElasticsearchSearchAdapter) (commands : τ → RebuildCommand)
    (s : Cluster) : Config ClusterCall Error Unit Cluster τ :=
  ⟨s, fun t => (commands t).program search⟩

end Knowledge
end RagflowAgent
