import Mathlib
import RagflowAgent.Interleaving.Faults
import RagflowAgent.Interleaving.Program
import RagflowAgent.Knowledge.Advanced.Domain
import RagflowAgent.Ranking
import RagflowAgent.Relational.Table

/-!
# Graph builds

`GraphRagService.build` extracts a graph of entities from the chunks of a document version and
keeps a record of the build: `RUNNING` while it works, and then what has become of it.
`GraphRagService.cancel` marks a record as cancelled.

* `AdvancedBuild` is the record, `BuildCall` are the calls of its repository, and `execBuild`
  answers a call, which may also fail;
* `graphSnapshot` is the graph, with `exists_graphSnapshot`: it is always
  built;
* `GraphRagService.build` and `GraphRagService.cancel` are the programs.
-/

namespace RagflowAgent
namespace Knowledge
namespace Advanced

open Interleaving Ranking

/-! ## Records of builds -/

inductive AdvancedBuildStatus where
  | pending
  | running
  | cancelled
  | failed
  | succeeded
  deriving DecidableEq, Repr

structure AdvancedResourceBudget where
  maxSourceChunks : ℕ := 5000
  maxGraphEntities : ℕ := 20000
  maxGraphEdges : ℕ := 50000
  deriving DecidableEq, Repr

structure AdvancedBuild where
  id : NonEmptyStr
  idempotencyKey : NonEmptyStr
  tenantId : NonEmptyStr
  knowledgeBaseId : NonEmptyStr
  capability : AdvancedCapability
  buildVersion : NonEmptyStr
  documentVersionIds : List NonEmptyStr
  status : AdvancedBuildStatus := .pending
  processedChunks : ℕ := 0
  cancellationRequested : Bool := false
  errorCode : Option String := none
  updatedAt : ℕ
  documentVersionIds_ne_nil : documentVersionIds ≠ []
  /-- `terminal_error_is_consistent`. -/
  errorCode_of_failed : status = .failed → errorCode ≠ none
  deriving DecidableEq

namespace AdvancedBuild

/-- The primary key. -/
def key (build : AdvancedBuild) : String × String := (build.tenantId.value, build.id.value)

/-- A copy with another status, which is not `FAILED`. -/
def withStatus (build : AdvancedBuild) (status : AdvancedBuildStatus) (h : status ≠ .failed)
    (now : ℕ) : AdvancedBuild :=
  { build with
    status := status
    updatedAt := now
    errorCode_of_failed := fun hfailed => absurd hfailed h }

def asFailed (build : AdvancedBuild) (errorCode : String) (now : ℕ) : AdvancedBuild :=
  { build with
    status := .failed
    errorCode := some errorCode
    updatedAt := now
    errorCode_of_failed := fun _ => Option.some_ne_none _ }

variable (build : AdvancedBuild) (status : AdvancedBuildStatus) (h : status ≠ .failed) (now : ℕ)

@[simp] theorem key_withStatus : (build.withStatus status h now).key = build.key := rfl

@[simp] theorem status_withStatus : (build.withStatus status h now).status = status := rfl

@[simp] theorem key_asFailed (errorCode : String) :
    (build.asFailed errorCode now).key = build.key := rfl

@[simp] theorem status_asFailed (errorCode : String) :
    (build.asFailed errorCode now).status = .failed := rfl

end AdvancedBuild

/-- A row of the table of builds.  The column of the idempotency key is written with the row and
never again. -/
structure AdvancedBuildRow where
  idempotencyKey : String
  payload : AdvancedBuild
  deriving DecidableEq

instance : Keyed (String × String) AdvancedBuildRow := ⟨fun row => row.payload.key⟩

@[simp] theorem key_advancedBuildRow (row : AdvancedBuildRow) :
    Keyed.key row = row.payload.key := rfl

/-- The calls of `SqlAlchemyAdvancedBuildRepository`. -/
inductive BuildCall : Type → Type 1 where
  | get (tenantId buildId : String) : BuildCall (Option AdvancedBuild)
  | getByIdempotencyKey (tenantId idempotencyKey : String) : BuildCall (Option AdvancedBuild)
  | save (build : AdvancedBuild) : BuildCall Unit

/-- The unique index on tenant and idempotency key. -/
def integrityError : Error :=
  .other "IntegrityError" "uq_advanced_builds_tenant_idempotency"

/-- The effect of a call. -/
def BuildCall.effect ⦃β : Type⦄ (c : BuildCall β) (_ : Faults Error)
    (T : Table AdvancedBuildRow) : Except Error (β × Table AdvancedBuildRow) :=
  match c with
  | .get tenantId buildId => .ok ((T.get (tenantId, buildId)).map AdvancedBuildRow.payload, T)
  | .getByIdempotencyKey tenantId idempotencyKey =>
    let row := T.rows.find? fun row =>
      row.payload.tenantId.value = tenantId ∧ row.idempotencyKey = idempotencyKey
    .ok (row.map AdvancedBuildRow.payload, T)
  | .save build =>
    match T.get build.key with
    | some row => .ok ((), T.replace { row with payload := build })
    | none =>
      if ∃ row ∈ T.rows, row.payload.tenantId = build.tenantId ∧
          row.idempotencyKey = build.idempotencyKey.value then
        .error integrityError
      else .ok ((), T.upsert ⟨build.idempotencyKey.value, build⟩)

/-- A call is answered, or it fails, before or after it has taken effect. -/
abbrev execBuild : ∀ ⦃β : Type⦄, BuildCall β → Faults Error → Table AdvancedBuildRow →
    Except Error β × Table AdvancedBuildRow :=
  execFaulty (fun _ _ => true) id BuildCall.effect

/-! ## The graph -/

/-- `[A-Za-z0-9_-]`. -/
def isEntityChar (c : Char) : Bool := c.isAlphanum || c == '_' || c == '-'

/-- `[\u4e00-\u9fff]`. -/
def isHan (c : Char) : Bool := 0x4E00 ≤ c.toNat && c.toNat ≤ 0x9FFF

/-- `_ENTITY`. -/
def entityPattern : Text.Pattern :=
  .alt (.seq (.one Char.isUpper) (.many isEntityChar 2 none)) (.many isHan 2 (some 12))

/-- The entities of a chunk. -/
def entitiesOf (chunk : ChunkRecord) : List String :=
  ((entityPattern.findAll chunk.content).map String.ofList).eraseDups.take 32

structure GraphEntity where
  name : NonEmptyStr
  sourceChunkIds : List NonEmptyStr
  sourced : sourceChunkIds ≠ []
  deriving DecidableEq

structure GraphEdge where
  source : NonEmptyStr
  target : NonEmptyStr
  sourceChunkIds : List NonEmptyStr
  sourced : sourceChunkIds ≠ []
  deriving DecidableEq

structure GraphSnapshot where
  tenantId : NonEmptyStr
  knowledgeBaseId : NonEmptyStr
  buildVersion : NonEmptyStr
  documentVersionIds : List NonEmptyStr
  entities : List GraphEntity
  edges : List GraphEdge
  communities : List (List NonEmptyStr)
  documentVersionIds_ne_nil : documentVersionIds ≠ []
  deriving DecidableEq

def tooShort (field : String) : Error :=
  .validation (field ++ ": Tuple should have at least 1 item after validation")

/-- `GraphEntity(...)`. -/
def GraphEntity.make (name : String) (sourceChunkIds : List NonEmptyStr) :
    Except Error GraphEntity := do
  let name ← NonEmptyStr.make name
  if h : sourceChunkIds = [] then throw (tooShort "source_chunk_ids")
  else return ⟨name, sourceChunkIds, h⟩

/-- `GraphEdge(...)`. -/
def GraphEdge.make (source target : String) (sourceChunkIds : List NonEmptyStr) :
    Except Error GraphEdge := do
  let source ← NonEmptyStr.make source
  let target ← NonEmptyStr.make target
  if h : sourceChunkIds = [] then throw (tooShort "source_chunk_ids")
  else return ⟨source, target, sourceChunkIds, h⟩

section Mentions

variable {α : Type} [DecidableEq α]

/-- The keys of a dictionary of sets. -/
def mentioned (mentions : List (α × NonEmptyStr)) : List α := (mentions.map Prod.fst).eraseDups

/-- `tuple(sorted(ids))`. -/
def sourcesOf (mentions : List (α × NonEmptyStr)) (a : α) : List NonEmptyStr :=
  sortedBy NonEmptyStr.value
    (((mentions.filter fun mention => mention.1 = a).map Prod.snd).eraseDups)

end Mentions

/-- `sources`: which entities the chunks mention. -/
def mentions (chunks : List ChunkRecord) : List (String × NonEmptyStr) :=
  chunks.flatMap fun chunk => (entitiesOf chunk).map fun entity => (entity, chunk.key)

/-- `tuple(sorted((source, target)))`. -/
def sortedPair (source target : String) : String × String :=
  if target < source then (target, source) else (source, target)

/-- `edge_sources`: which neighbours they mention. -/
def edgeMentions (chunks : List ChunkRecord) : List ((String × String) × NonEmptyStr) :=
  chunks.flatMap fun chunk =>
    let entities := entitiesOf chunk
    ((entities.zip entities.tail).filter fun pair => pair.1 ≠ pair.2).map fun pair =>
      (sortedPair pair.1 pair.2, chunk.key)

/-- The neighbours of an entity, with itself. -/
def community (edges : List GraphEdge) (name : NonEmptyStr) : List NonEmptyStr :=
  let neighbors := edges.flatMap fun edge =>
    (if edge.source = name then [edge.target] else []) ++
      if edge.target = name then [edge.source] else []
  sortedBy NonEmptyStr.value (name :: neighbors).eraseDups

def communities (edges : List GraphEdge) : List (List NonEmptyStr) :=
  let names := (edges.flatMap fun edge => [edge.source, edge.target]).eraseDups
  (sortedBy NonEmptyStr.value names).map (community edges)

/-- The graph of the chunks. -/
def graphSnapshot (build : AdvancedBuild) (chunks : List ChunkRecord) :
    Except Error GraphSnapshot := do
  let names := sortedBy id (mentioned (mentions chunks))
  let entities ← names.mapM fun name => GraphEntity.make name (sourcesOf (mentions chunks) name)
  let pairs := sortedBy toLex (mentioned (edgeMentions chunks))
  let edges ← pairs.mapM fun pair =>
    GraphEdge.make pair.1 pair.2 (sourcesOf (edgeMentions chunks) pair)
  return {
    tenantId := build.tenantId
    knowledgeBaseId := build.knowledgeBaseId
    buildVersion := build.buildVersion
    documentVersionIds := build.documentVersionIds
    entities := entities
    edges := edges
    communities := communities edges
    documentVersionIds_ne_nil := build.documentVersionIds_ne_nil }

/-! ## The graph is always built -/

variable {chunks : List ChunkRecord} {chunk : ChunkRecord}

theorem isWhiteSpace_of_isUpper {c : Char} (h : c.isUpper = true) : isWhiteSpace c = false := by
  simp only [Char.isUpper, decide_eq_true_eq, ge_iff_le] at h
  have hlow : 65 ≤ c.toNat := h.1
  have hhigh : c.toNat ≤ 90 := h.2
  simp only [isWhiteSpace, Bool.or_eq_false_iff, Bool.and_eq_false_imp, decide_eq_true_eq,
    decide_eq_false_iff_not, beq_eq_false_iff_ne]
  omega

theorem isWhiteSpace_of_isHan {c : Char} (h : isHan c = true) : isWhiteSpace c = false := by
  simp only [isHan, Bool.and_eq_true, decide_eq_true_eq] at h
  simp only [isWhiteSpace, Bool.or_eq_false_iff, Bool.and_eq_false_imp, decide_eq_true_eq,
    decide_eq_false_iff_not, beq_eq_false_iff_ne]
  omega

theorem isWhiteSpace_of_isEntityChar {c : Char} (h : isEntityChar c = true) :
    isWhiteSpace c = false := by
  simp only [isEntityChar, Char.isAlphanum, Char.isAlpha, Char.isUpper, Char.isLower,
    Char.isDigit, Bool.or_eq_true, Bool.and_eq_true, decide_eq_true_eq, ge_iff_le,
    beq_iff_eq] at h
  have hrange : (65 ≤ c.toNat ∧ c.toNat ≤ 90 ∨ 97 ≤ c.toNat ∧ c.toNat ≤ 122) ∨
      48 ≤ c.toNat ∧ c.toNat ≤ 57 ∨ c.toNat = 95 ∨ c.toNat = 45 := by
    rcases h with ((hletter | hdigit) | rfl) | rfl
    · exact .inl hletter
    · exact .inr (.inl hdigit)
    · exact .inr (.inr (.inl rfl))
    · exact .inr (.inr (.inr rfl))
  simp only [isWhiteSpace, Bool.or_eq_false_iff, Bool.and_eq_false_imp, decide_eq_true_eq,
    decide_eq_false_iff_not, beq_eq_false_iff_ne]
  omega

/-- A match of the pattern is not empty and has no white space. -/
theorem of_mem_findAll_entityPattern {text : String} {found : List Char}
    (h : found ∈ entityPattern.findAll text) :
    found ≠ [] ∧ ∀ c ∈ found, isWhiteSpace c = false := by
  obtain ⟨place, last, hlast, hrest⟩ := Text.Pattern.exists_of_mem_findAllFrom h
  have hmatch : ∃ w, place.rest = w ++ last.rest ∧ w ≠ [] ∧ ∀ c ∈ w, isWhiteSpace c = false := by
    rcases List.mem_append.1 hlast with hlast | hlast
    · obtain ⟨middle, hmiddle, hlast⟩ := List.mem_flatMap.1 hlast
      obtain ⟨w, hw, -, hall⟩ := Text.Pattern.exists_of_mem_ends_many hlast
      obtain ⟨before, rest⟩ := place
      cases rest with
      | nil => exact absurd hmiddle List.not_mem_nil
      | cons c rest =>
        rw [Text.Pattern.ends] at hmiddle
        split at hmiddle
        · rename_i hupper
          rw [List.mem_singleton.1 hmiddle] at hw
          change rest = _ at hw
          refine ⟨c :: w, congrArg (c :: ·) hw, List.cons_ne_nil _ _, ?_⟩
          refine List.forall_mem_cons.2 ⟨isWhiteSpace_of_isUpper hupper, fun d hd => ?_⟩
          exact isWhiteSpace_of_isEntityChar (hall d hd)
        · exact absurd hmiddle List.not_mem_nil
    · obtain ⟨w, hw, hlength, hall⟩ := Text.Pattern.exists_of_mem_ends_many hlast
      refine ⟨w, hw, ?_, fun c hc => isWhiteSpace_of_isHan (hall c hc)⟩
      rintro rfl
      simp at hlength
  obtain ⟨w, hw, hne, hall⟩ := hmatch
  have hfound : found = w := List.append_cancel_right (hrest.symm.trans hw)
  rw [hfound]
  exact ⟨hne, hall⟩

/-- A match of the pattern is a name. -/
theorem nonEmptyText_of_mem_findAll {text : String} {found : List Char}
    (h : found ∈ entityPattern.findAll text) :
    nonEmptyText (String.ofList found) = .ok (String.ofList found) := by
  obtain ⟨hne, hall⟩ := of_mem_findAll_entityPattern h
  refine nonEmptyText_eq_self ?_ (fun c hc => hall c ?_) fun c hc => hall c ?_
  · rwa [String.toList_ofList]
  · rw [String.toList_ofList] at hc
    exact List.mem_of_mem_head? hc
  · rw [String.toList_ofList] at hc
    exact List.mem_of_mem_getLast? hc

theorem nonEmptyText_of_mem_entitiesOf {name : String} (h : name ∈ entitiesOf chunk) :
    nonEmptyText name = .ok name := by
  have hmem := List.mem_of_mem_take h
  rw [List.mem_eraseDups] at hmem
  obtain ⟨found, hfound, rfl⟩ := List.mem_map.1 hmem
  exact nonEmptyText_of_mem_findAll hfound

section Mentions

variable {α : Type} [DecidableEq α] {mentions : List (α × NonEmptyStr)} {a : α}

theorem exists_of_mem_mentioned (h : a ∈ mentioned mentions) : ∃ id, (a, id) ∈ mentions := by
  rw [mentioned, List.mem_eraseDups] at h
  obtain ⟨⟨b, id⟩, hmem, rfl⟩ := List.mem_map.1 h
  exact ⟨id, hmem⟩

/-- What is mentioned has a source. -/
theorem sourcesOf_ne_nil (h : a ∈ mentioned mentions) : sourcesOf mentions a ≠ [] := by
  obtain ⟨id, hmem⟩ := exists_of_mem_mentioned h
  have hid : id ∈ sourcesOf mentions a := by
    rw [sourcesOf, mem_sortedBy, List.mem_eraseDups]
    exact List.mem_map.2 ⟨(a, id), List.mem_filter.2 ⟨hmem, decide_eq_true rfl⟩, rfl⟩
  exact List.ne_nil_of_mem hid

end Mentions

theorem nonEmptyText_of_mem_mentioned {name : String} (h : name ∈ mentioned (mentions chunks)) :
    nonEmptyText name = .ok name := by
  obtain ⟨id, hmem⟩ := exists_of_mem_mentioned h
  obtain ⟨chunk, -, hmem⟩ := List.mem_flatMap.1 hmem
  obtain ⟨entity, hentity, heq⟩ := List.mem_map.1 hmem
  cases heq
  exact nonEmptyText_of_mem_entitiesOf hentity

theorem nonEmptyText_of_mem_edges {pair : String × String}
    (h : pair ∈ mentioned (edgeMentions chunks)) :
    nonEmptyText pair.1 = .ok pair.1 ∧ nonEmptyText pair.2 = .ok pair.2 := by
  obtain ⟨id, hmem⟩ := exists_of_mem_mentioned h
  obtain ⟨chunk, -, hmem⟩ := List.mem_flatMap.1 hmem
  obtain ⟨⟨source, target⟩, hzip, heq⟩ := List.mem_map.1 hmem
  cases heq
  have hsource := nonEmptyText_of_mem_entitiesOf
    (List.of_mem_zip (List.mem_of_mem_filter hzip)).1
  have htarget := nonEmptyText_of_mem_entitiesOf
    (List.mem_of_mem_tail (List.of_mem_zip (List.mem_of_mem_filter hzip)).2)
  unfold sortedPair
  split
  · exact ⟨htarget, hsource⟩
  · exact ⟨hsource, htarget⟩

/-- **The graph is built**: its entities and edges pass their validators. -/
theorem exists_graphSnapshot (build : AdvancedBuild) (chunks : List ChunkRecord) :
    ∃ snapshot, graphSnapshot build chunks = .ok snapshot := by
  have hentities : ∃ entities, ((sortedBy id (mentioned (mentions chunks))).mapM fun name =>
      GraphEntity.make name (sourcesOf (mentions chunks) name)) = .ok entities := by
    refine exists_mapM_eq_ok fun name hname => ?_
    rw [mem_sortedBy] at hname
    have hvalid := nonEmptyText_of_mem_mentioned hname
    refine ⟨⟨⟨name, hvalid⟩, _, sourcesOf_ne_nil hname⟩, ?_⟩
    rw [GraphEntity.make, NonEmptyStr.make_eq_ok hvalid]
    exact dif_neg (sourcesOf_ne_nil hname)
  have hedges : ∃ edges, ((sortedBy toLex (mentioned (edgeMentions chunks))).mapM fun pair =>
      GraphEdge.make pair.1 pair.2 (sourcesOf (edgeMentions chunks) pair)) = .ok edges := by
    refine exists_mapM_eq_ok fun pair hpair => ?_
    rw [mem_sortedBy] at hpair
    obtain ⟨hsource, htarget⟩ := nonEmptyText_of_mem_edges hpair
    refine ⟨⟨⟨pair.1, hsource⟩, ⟨pair.2, htarget⟩, _, sourcesOf_ne_nil hpair⟩, ?_⟩
    rw [GraphEdge.make, NonEmptyStr.make_eq_ok hsource, NonEmptyStr.make_eq_ok htarget]
    exact dif_neg (sourcesOf_ne_nil hpair)
  obtain ⟨entities, hentities⟩ := hentities
  obtain ⟨edges, hedges⟩ := hedges
  exact ⟨_, bind_eq_ok.2 ⟨entities, hentities, bind_eq_ok.2 ⟨edges, hedges, rfl⟩⟩⟩

/-! ## The service -/

namespace GraphRagService

/-- A chunk of another tenant or another knowledge base. -/
def Foreign (build : AdvancedBuild) (chunk : ChunkRecord) : Prop :=
  chunk.tenantId ≠ build.tenantId.value ∨ chunk.knowledgeBaseId ≠ build.knowledgeBaseId.value

instance (build : AdvancedBuild) (chunk : ChunkRecord) : Decidable (Foreign build chunk) :=
  inferInstanceAs (Decidable (_ ∨ _))

/-- What is done while the stored record says `RUNNING`. -/
def work (budget : AdvancedResourceBudget) (running : AdvancedBuild) (chunks : List ChunkRecord)
    (now : ℕ) : Prog BuildCall Error (AdvancedBuild × Option GraphSnapshot) :=
  if running.cancellationRequested then do
    let cancelled := running.withStatus .cancelled (by decide) now
    Prog.perform (.save cancelled)
    return (cancelled, none)
  else do
    -- the loop over the chunks raises at the first one that is foreign
    Prog.raiseWhen (∃ chunk ∈ chunks, Foreign running chunk)
      (.validation "GraphRAG source scope mismatch")
    if budget.maxGraphEntities < (mentioned (mentions chunks)).length ∨
        budget.maxGraphEdges < (mentioned (edgeMentions chunks)).length then do
      let failed := running.asFailed "graph_budget_exceeded" now
      Prog.perform (.save failed)
      return (failed, none)
    else do
      let snapshot ← Prog.ofExcept (graphSnapshot running chunks)
      let succeeded :=
        { running.withStatus .succeeded (by decide) now with processedChunks := chunks.length }
      Prog.perform (.save succeeded)
      return (succeeded, some snapshot)

/-- The build after its record was looked up. -/
def buildNew (budget : AdvancedResourceBudget) (build : AdvancedBuild)
    (chunks : List ChunkRecord) (now : ℕ) :
    Prog BuildCall Error (AdvancedBuild × Option GraphSnapshot) :=
  if budget.maxSourceChunks < chunks.length then do
    let failed := build.asFailed "source_budget_exceeded" now
    Prog.perform (.save failed)
    return (failed, none)
  else do
    let running := build.withStatus .running (by decide) now
    Prog.perform (.save running)
    work budget running chunks now

def build (budget : AdvancedResourceBudget) (build : AdvancedBuild) (chunks : List ChunkRecord)
    (now : ℕ) : Prog BuildCall Error (AdvancedBuild × Option GraphSnapshot) := do
  let prior ← Prog.perform
    (.getByIdempotencyKey build.tenantId.value build.idempotencyKey.value)
  match prior with
  | none => buildNew budget build chunks now
  | some prior =>
    if prior.status = .succeeded then return (prior, none)
    else buildNew budget build chunks now

def cancel (tenantId buildId : String) (now : ℕ) : Prog BuildCall Error AdvancedBuild := do
  let build ← Prog.perform (.get tenantId buildId)
  match build with
  | none => .raise (.other "LookupError" "advanced build not found")
  | some build =>
    let cancelled :=
      { build.withStatus .cancelled (by decide) now with cancellationRequested := true }
    Prog.perform (.save cancelled)
    return cancelled

end GraphRagService

end Advanced
end Knowledge
end RagflowAgent
