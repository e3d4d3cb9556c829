import RagflowAgent.Knowledge.Texts
import RagflowAgent.Text.Words

/-!
# Chunks, as the advanced capabilities read them

The chunks that the advanced capabilities start from have passed their validators, so their texts
are stripped and not empty.  A capability has an index of its own, which a manifest describes.
`split` is `str.split()`; its spaces are those of `str.strip`, of which pydantic takes four for
text.
-/

namespace RagflowAgent
namespace Knowledge
namespace Advanced

/-- `ADVANCED_SCHEMA_VERSION`. -/
def schemaVersion : ℕ := 1

structure ChunkRecord where
  id : String
  tenantId : String
  knowledgeBaseId : String
  documentId : String
  documentVersionId : String
  sequence : ℕ
  content : String
  parentChunkId : Option String := none
  tokenCount : Option ℕ := none
  nonEmpty : ∀ text ∈ [id, tenantId, knowledgeBaseId, documentId, documentVersionId, content],
    nonEmptyText text = .ok text
  deriving DecidableEq

/-- The id of a chunk. -/
def ChunkRecord.key (item : ChunkRecord) : NonEmptyStr :=
  ⟨item.id, item.nonEmpty item.id List.mem_cons_self⟩

/-- `text.split()`. -/
def split (text : String) : List (List Char) := Text.words Agent.isSpace text.toList

/-! ## Capabilities and their indexes -/

inductive AdvancedCapability where
  | keywords
  | questions
  | summaries
  | toc
  | parentChild
  | multimodal
  | graphrag
  | raptor
  | temporal
  deriving DecidableEq, Repr

/-- The capabilities in the order in which they are declared. -/
def AdvancedCapability.all : List AdvancedCapability :=
  [keywords, questions, summaries, toc, parentChild, multimodal, graphrag, raptor, temporal]

/-- What the compatibility check reads of the manifest of a derived index. -/
structure AdvancedIndexManifest where
  schemaVersion : ℤ := schemaVersion
  capability : AdvancedCapability
  tenantId : String
  knowledgeBaseId : String
  documentVersionIds : List String
  complete : Bool := true
  documentVersionIds_ne_nil : documentVersionIds ≠ []

end Advanced
end Knowledge
end RagflowAgent
