import Mathlib.Algebra.Order.Field.Rat
import RagflowAgent.Knowledge.Domain.Document

/-!
# The search index

The index holds one document for each chunk, under a key of its own, and every change is
a bulk write or an update or delete *by query*: a filter on exact terms and a script that
is run on every chunk the filter selects.

* `IndexedChunk` is the source of one indexed chunk, `SearchIndex` the index;
* `IndexChange` are the changes, and `IndexChange.apply` is what one of them does;
* `SearchIndex.validateDocumentVersion` and `SearchIndex.listProjectionVersions` read.

Of the changes only the promotion of a version looks at the fencing token of a chunk
(`IndexedChunk.promote`); `retireDocumentVersion` switches a version off without looking.
-/

namespace RagflowAgent
namespace Knowledge

/-- Metadata retained by each chunk, as far as the retrieval filters read it. -/
structure ChunkMetadata where
  headingPath : List String := []
  language : Option String := none
  containsTable : Bool := false
  containsImage : Bool := false
  chunkStrategyId : Option String := none
  deriving DecidableEq, Repr

/-- The source of an indexed chunk, as far as the lifecycle and the retrieval filters
read it. -/
structure IndexedChunk where
  indexVersionId : String
  tenantId : String
  knowledgeBaseId : String
  ownerId : String
  visibility : Visibility
  documentId : String
  documentVersionId : String
  chunkId : String
  content : String
  mediaType : String
  createdAt : ℕ
  active : Bool
  allowedActorIds : List String := []
  allowedRoles : List String := []
  documentEnabled : Bool := true
  documentDeleted : Bool := false
  lifecycleFencingToken : Option ℕ
  metadata : ChunkMetadata := {}
  embedding : List ℚ
  deriving DecidableEq

/-- `_document_key`. -/
def IndexedChunk.documentKey (chunk : IndexedChunk) : String :=
  chunk.tenantId ++ ":" ++ chunk.indexVersionId ++ ":" ++ chunk.chunkId

/-- The four terms that select the chunks of one document version. -/
structure VersionScope where
  tenantId : String
  knowledgeBaseId : String
  documentId : String
  documentVersionId : String
  deriving DecidableEq, Repr

/-- The filter on the four terms of a scope. -/
def IndexedChunk.InScope (chunk : IndexedChunk) (scope : VersionScope) : Prop :=
  chunk.tenantId = scope.tenantId ∧ chunk.knowledgeBaseId = scope.knowledgeBaseId ∧
    chunk.documentId = scope.documentId ∧ chunk.documentVersionId = scope.documentVersionId

instance (chunk : IndexedChunk) (scope : VersionScope) : Decidable (chunk.InScope scope) :=
  inferInstanceAs (Decidable (_ ∧ _))

/-- A chunk is in one scope only. -/
theorem IndexedChunk.InScope.eq {chunk : IndexedChunk} {scope scope' : VersionScope}
    (h : chunk.InScope scope) (h' : chunk.InScope scope') : scope = scope' := by
  obtain ⟨h1, h2, h3, h4⟩ := h
  obtain ⟨h1', h2', h3', h4'⟩ := h'
  cases scope
  cases scope'
  simp_all

/-- The chunk as the promotion script leaves it: a chunk with a greater token is a noop. -/
def IndexedChunk.promote (chunk : IndexedChunk) (token : ℕ) : IndexedChunk :=
  if chunk.lifecycleFencingToken.all (· ≤ token) then
    { chunk with
      active := true
      documentDeleted := false
      documentEnabled := true
      lifecycleFencingToken := some token }
  else chunk

/-- `version` of `upsert` and `activate`: an index version and its embedding size. -/
structure IndexVersion where
  id : String
  tenantId : String
  knowledgeBaseId : String
  documentId : Option String := none
  dimensions : ℕ
  createdAt : ℕ
  deriving DecidableEq, Repr

/-- Portable search write model for one version-bound chunk. -/
structure IndexRecord where
  indexVersionId : String
  tenantId : String
  knowledgeBaseId : String
  ownerId : String
  visibility : Visibility
  allowedActorIds : List String := []
  allowedRoles : List String := []
  documentEnabled : Bool := true
  documentDeleted : Bool := false
  documentId : String
  documentVersionId : String
  chunkId : String
  content : String
  mediaType : String
  createdAt : ℕ
  embedding : List ℚ
  metadata : ChunkMetadata := {}
  deriving DecidableEq

/-- `_source`: a written chunk is not active unless told so, and its token is zero. -/
def IndexRecord.source (record : IndexRecord) (active : Bool) : IndexedChunk where
  indexVersionId := record.indexVersionId
  tenantId := record.tenantId
  knowledgeBaseId := record.knowledgeBaseId
  ownerId := record.ownerId
  visibility := record.visibility
  documentId := record.documentId
  documentVersionId := record.documentVersionId
  chunkId := record.chunkId
  content := record.content
  mediaType := record.mediaType
  createdAt := record.createdAt
  active := active
  allowedActorIds := record.allowedActorIds
  allowedRoles := record.allowedRoles
  documentEnabled := record.documentEnabled
  documentDeleted := record.documentDeleted
  lifecycleFencingToken := some 0
  metadata := record.metadata
  embedding := record.embedding

/-- The physical index, with the dimensions of its embedding field. -/
structure SearchIndex where
  dimensions : ℕ := 0
  chunks : List IndexedChunk := []
  deriving DecidableEq

namespace SearchIndex

/-- Run a script on the chunks that a filter selects. -/
def updateByQuery (index : SearchIndex) (p : IndexedChunk → Prop) [DecidablePred p]
    (script : IndexedChunk → IndexedChunk) : SearchIndex :=
  { index with chunks := index.chunks.map fun chunk => if p chunk then script chunk else chunk }

/-- Delete the chunks that a filter selects. -/
def deleteByQuery (index : SearchIndex) (p : IndexedChunk → Prop) [DecidablePred p] :
    SearchIndex :=
  { index with chunks := index.chunks.filter fun chunk => ¬ p chunk }

/-- Index one chunk: over the one with its key, or as a new one. -/
def write (index : SearchIndex) (chunk : IndexedChunk) : SearchIndex :=
  if index.chunks.any fun chunk' => chunk'.documentKey = chunk.documentKey then
    index.updateByQuery (fun chunk' => chunk'.documentKey = chunk.documentKey) fun _ => chunk
  else { index with chunks := index.chunks ++ [chunk] }

/-- `validate_document_version`: how many chunks of a version can be searched. -/
def validateDocumentVersion (index : SearchIndex) (scope : VersionScope) : ℕ :=
  (index.chunks.filter fun chunk => chunk.InScope scope ∧ chunk.documentDeleted = false).length

/-- `list_projection_versions`: the versions behind the first `limit` chunks of a tenant,
each once. -/
def listProjectionVersions (index : SearchIndex) (tenantId : String) (limit : ℕ) :
    List (String × String × String) :=
  let hits := (index.chunks.filter fun chunk => chunk.tenantId = tenantId).take limit
  (hits.map fun chunk => (chunk.knowledgeBaseId, chunk.documentId, chunk.documentVersionId)).foldl
    (fun seen version => if version ∈ seen then seen else seen ++ [version]) []

@[simp] theorem mem_updateByQuery {index : SearchIndex} {p : IndexedChunk → Prop}
    [DecidablePred p] {script : IndexedChunk → IndexedChunk} {chunk : IndexedChunk} :
    chunk ∈ (index.updateByQuery p script).chunks ↔
      ∃ chunk' ∈ index.chunks, (if p chunk' then script chunk' else chunk') = chunk := by
  simp [updateByQuery]

@[simp] theorem mem_deleteByQuery {index : SearchIndex} {p : IndexedChunk → Prop}
    [DecidablePred p] {chunk : IndexedChunk} :
    chunk ∈ (index.deleteByQuery p).chunks ↔ chunk ∈ index.chunks ∧ ¬ p chunk := by
  simp [deleteByQuery]

end SearchIndex

/-! ## Changes -/

/-- The changes the services make.  The two updates of `activate` are separate requests:
`deactivate` is the first one, `activate` the second. -/
inductive IndexChange where
  | upsert (tenantId : String) (version : IndexVersion) (records : List IndexRecord)
  | deactivate (tenantId : String) (version : IndexVersion)
  | activate (version : IndexVersion)
  | promoteDocumentVersion (scope : VersionScope) (fencingToken : ℕ)
  | retireDocumentVersion (scope : VersionScope)
  | deleteDocumentVersion (scope : VersionScope)
  deriving DecidableEq

/-- The filter of `activate`: the chunks of a document, or of a knowledge base. -/
def IndexedChunk.InIndexVersion (chunk : IndexedChunk) (version : IndexVersion) : Prop :=
  chunk.tenantId = version.tenantId ∧ chunk.knowledgeBaseId = version.knowledgeBaseId ∧
    ∀ documentId ∈ version.documentId, chunk.documentId = documentId

instance (chunk : IndexedChunk) (version : IndexVersion) :
    Decidable (chunk.InIndexVersion version) :=
  inferInstanceAs (Decidable (_ ∧ _))

namespace IndexChange

/-- `upsert`: nothing is written unless every record fits the index version. -/
def checkRecords (dimensions : ℕ) (version : IndexVersion) (records : List IndexRecord) :
    Except Error Unit :=
  if version.dimensions ≠ dimensions then
    .error (.conflict "index version dimensions do not match Elasticsearch mapping"
      "index_dimension_mismatch")
  else if records.any fun record =>
      (record.tenantId, record.knowledgeBaseId, record.indexVersionId) ≠
          (version.tenantId, version.knowledgeBaseId, version.id) ∨
        record.embedding.length ≠ dimensions then
    .error (.conflict "index record is incompatible with index version"
      "index_record_incompatible")
  else .ok ()

def apply (index : SearchIndex) : IndexChange → Except Error SearchIndex
  | upsert tenantId version records =>
    if tenantId ≠ version.tenantId then .error (.authorization "tenant_mismatch")
    else
      match checkRecords index.dimensions version records with
      | .error e => .error e
      | .ok () => .ok (records.foldl (fun index record => index.write (record.source false)) index)
  | deactivate tenantId version =>
    if tenantId ≠ version.tenantId then .error (.authorization "tenant_mismatch")
    else .ok (index.updateByQuery (·.InIndexVersion version) ({ · with active := false }))
  | activate version =>
    if index.chunks.any fun chunk =>
        chunk.InIndexVersion version ∧ chunk.indexVersionId = version.id then
      .ok (index.updateByQuery
        (fun chunk => chunk.InIndexVersion version ∧ chunk.indexVersionId = version.id)
        ({ · with active := true }))
    else
      .error (.conflict "index version contains no records to activate"
        "index_activation_empty")
  | promoteDocumentVersion scope fencingToken =>
    if index.chunks.any fun chunk => chunk.InScope scope then
      .ok (index.updateByQuery (·.InScope scope) (·.promote fencingToken))
    else
      .error (.conflict "document version has no projection to promote"
        "index_activation_empty")
  | retireDocumentVersion scope =>
    .ok (index.updateByQuery (·.InScope scope) ({ · with active := false }))
  | deleteDocumentVersion scope => .ok (index.deleteByQuery (·.InScope scope))

end IndexChange

end Knowledge
end RagflowAgent
