import Mathlib.Data.Sym.Sym2
import RagflowAgent.Knowledge.Advanced.GraphRag
import RagflowAgent.Pairing

/-!
# Where a graph comes from

The extraction reads the names in every chunk and collects, for a name and for two names that
stand next to each other, the chunks in which it finds them.

* `extract` is the extraction, for any function that finds the names in a text;
  `work_eq_extract` says that `GraphRagService.build` extracts with `entityNames`;
* `extract_congr`: the chunks matter only as a set;
* `Provenance` says what is in a snapshot and which are its sources, and `provenance_of_extract`
  that this is so;
* `extract_provenance` joins the two.
-/

namespace RagflowAgent
namespace Knowledge
namespace Advanced

open Interleaving Ranking

/-! ## The extraction -/

/-- The first 32 distinct names of a chunk. -/
def namesOf (find : String → List NonEmptyStr) (chunk : ChunkRecord) : List String :=
  ((find chunk.content).map NonEmptyStr.value).eraseDups.take 32

/-- `_ENTITY.findall(text)`. -/
def entityNames (text : String) : List NonEmptyStr :=
  (entityPattern.findAll text).attach.map fun found =>
    ⟨String.ofList found.1, nonEmptyText_of_mem_findAll found.2⟩

/-- `sources`. -/
def mentionsOf (names : ChunkRecord → List String) (chunks : List ChunkRecord) :
    List (String × NonEmptyStr) :=
  chunks.flatMap fun chunk => (names chunk).map fun entity => (entity, chunk.key)

/-- `edge_sources`. -/
def edgeMentionsOf (names : ChunkRecord → List String) (chunks : List ChunkRecord) :
    List ((String × String) × NonEmptyStr) :=
  chunks.flatMap fun chunk =>
    let entities := names chunk
    ((entities.zip entities.tail).filter fun pair => pair.1 ≠ pair.2).map fun pair =>
      (sortedPair pair.1 pair.2, chunk.key)

/-- The snapshot of what is mentioned. -/
def snapshotOf (build : AdvancedBuild) (mentions : List (String × NonEmptyStr))
    (edgeMentions : List ((String × String) × NonEmptyStr)) : Except Error GraphSnapshot := do
  let names := sortedBy id (mentioned mentions)
  let entities ← names.mapM fun name => GraphEntity.make name (sourcesOf mentions name)
  let pairs := sortedBy toLex (mentioned edgeMentions)
  let edges ← pairs.mapM fun pair => GraphEdge.make pair.1 pair.2 (sourcesOf edgeMentions pair)
  return {
    tenantId := build.tenantId
    knowledgeBaseId := build.knowledgeBaseId
    buildVersion := build.buildVersion
    documentVersionIds := build.documentVersionIds
    entities := entities
    edges := edges
    communities := communities edges
    documentVersionIds_ne_nil := build.documentVersionIds_ne_nil }

/-- The graph of the chunks, or nothing if it is larger than the budget. -/
def extract (names : ChunkRecord → List String) (budget : AdvancedResourceBudget)
    (build : AdvancedBuild) (chunks : List ChunkRecord) : Except Error (Option GraphSnapshot) :=
  if ∃ chunk ∈ chunks, GraphRagService.Foreign build chunk then
    .error (.validation "GraphRAG source scope mismatch")
  else if budget.maxGraphEntities < (mentioned (mentionsOf names chunks)).length ∨
      budget.maxGraphEdges < (mentioned (edgeMentionsOf names chunks)).length then .ok none
  else
    (snapshotOf build (mentionsOf names chunks) (edgeMentionsOf names chunks)).map some

/-! ## The service extracts with the pattern -/

theorem namesOf_entityNames (chunk : ChunkRecord) : namesOf entityNames chunk = entitiesOf chunk := by
  have hmap : (entityNames chunk.content).map NonEmptyStr.value =
      (entityPattern.findAll chunk.content).map String.ofList := by
    rw [entityNames, List.map_map]
    exact List.attach_map_val (f := String.ofList)
  rw [namesOf, entitiesOf, hmap]

theorem mentionsOf_entityNames (chunks : List ChunkRecord) :
    mentionsOf (namesOf entityNames) chunks = mentions chunks := by
  rw [mentionsOf, mentions, funext namesOf_entityNames]

theorem edgeMentionsOf_entityNames (chunks : List ChunkRecord) :
    edgeMentionsOf (namesOf entityNames) chunks = edgeMentions chunks := by
  rw [edgeMentionsOf, edgeMentions, funext namesOf_entityNames]

theorem succeeded_ne_failed : AdvancedBuildStatus.succeeded ≠ .failed := by decide

/-- What the service does with what was extracted. -/
def settle (running : AdvancedBuild) (chunks : List ChunkRecord) (now : ℕ) :
    Option GraphSnapshot → Prog BuildCall Error (AdvancedBuild × Option GraphSnapshot)
  | none => do
    let failed := running.asFailed "graph_budget_exceeded" now
    Prog.perform (.save failed)
    return (failed, none)
  | some snapshot => do
    let succeeded :=
      { running.withStatus .succeeded succeeded_ne_failed now with
          processedChunks := chunks.length }
    Prog.perform (.save succeeded)
    return (succeeded, some snapshot)

/-- **The service extracts the names that the pattern finds.** -/
theorem work_eq_extract (budget : AdvancedResourceBudget) (running : AdvancedBuild)
    (chunks : List ChunkRecord) (now : ℕ) (h : running.cancellationRequested = false) :
    GraphRagService.work budget running chunks now =
      (Prog.ofExcept (extract (namesOf entityNames) budget running chunks)).bind
        (settle running chunks now) := by
  rw [GraphRagService.work, h, if_neg Bool.false_ne_true, extract, mentionsOf_entityNames,
    edgeMentionsOf_entityNames]
  by_cases hforeign : ∃ chunk ∈ chunks, GraphRagService.Foreign running chunk
  · rw [if_pos hforeign, Prog.raiseWhen, if_pos hforeign]
    rfl
  · rw [if_neg hforeign, Prog.raiseWhen, if_neg hforeign]
    by_cases hbudget : budget.maxGraphEntities < (mentioned (mentions chunks)).length ∨
        budget.maxGraphEdges < (mentioned (edgeMentions chunks)).length
    · rw [if_pos hbudget]
      simp only [Prog.bind_eq, Prog.ret_bind, if_pos hbudget]
      rfl
    · rw [if_neg hbudget]
      simp only [Prog.bind_eq, Prog.ret_bind, if_neg hbudget]
      have hsnapshot : snapshotOf running (mentions chunks) (edgeMentions chunks) =
          graphSnapshot running chunks := rfl
      rw [hsnapshot]
      cases graphSnapshot running chunks <;> rfl

/-! ## The order of the chunks -/

section Mentions

variable {α : Type} [DecidableEq α] {mentions mentions' : List (α × NonEmptyStr)} {a : α}
  {id : NonEmptyStr}

theorem mem_mentioned : a ∈ mentioned mentions ↔ ∃ id, (a, id) ∈ mentions := by
  refine ⟨exists_of_mem_mentioned, fun ⟨id, h⟩ => ?_⟩
  rw [mentioned, List.mem_eraseDups]
  exact List.mem_map_of_mem h

theorem nodup_mentioned (mentions : List (α × NonEmptyStr)) : (mentioned mentions).Nodup :=
  Pairing.nodup_eraseDups _

theorem mem_sourcesOf : id ∈ sourcesOf mentions a ↔ (a, id) ∈ mentions := by
  rw [sourcesOf, mem_sortedBy, List.mem_eraseDups, List.mem_map]
  constructor
  · rintro ⟨mention, hmention, rfl⟩
    obtain ⟨hmem, ha⟩ := List.mem_filter.1 hmention
    rw [← of_decide_eq_true ha]
    exact hmem
  · exact fun h => ⟨(a, id), List.mem_filter.2 ⟨h, decide_eq_true rfl⟩, rfl⟩

variable (h : ∀ mention, mention ∈ mentions ↔ mention ∈ mentions')

include h

theorem mem_mentioned_congr (a : α) : a ∈ mentioned mentions ↔ a ∈ mentioned mentions' := by
  rw [mem_mentioned, mem_mentioned]
  exact exists_congr fun id => h (a, id)

theorem length_mentioned_congr : (mentioned mentions).length = (mentioned mentions').length :=
  ((List.perm_ext_iff_of_nodup (nodup_mentioned _) (nodup_mentioned _)).2
    (mem_mentioned_congr h)).length_eq

theorem sourcesOf_congr (a : α) : sourcesOf mentions a = sourcesOf mentions' a := by
  refine sortedBy_congr _ NonEmptyStr.value_injective (Pairing.nodup_eraseDups _) (Pairing.nodup_eraseDups _)
    fun id => ?_
  have hmem := @mem_sourcesOf _ _ mentions a id
  have hmem' := @mem_sourcesOf _ _ mentions' a id
  rw [sourcesOf, mem_sortedBy] at hmem hmem'
  rw [hmem, hmem', h]

end Mentions

section Order

variable {build : AdvancedBuild} {names : ChunkRecord → List String}
  {chunks chunks' : List ChunkRecord}

theorem snapshotOf_congr {mentions mentions' : List (String × NonEmptyStr)}
    {edgeMentions edgeMentions' : List ((String × String) × NonEmptyStr)}
    (h : ∀ mention, mention ∈ mentions ↔ mention ∈ mentions')
    (hedge : ∀ mention, mention ∈ edgeMentions ↔ mention ∈ edgeMentions') :
    snapshotOf build mentions edgeMentions = snapshotOf build mentions' edgeMentions' := by
  have hnames : sortedBy id (mentioned mentions) = sortedBy id (mentioned mentions') :=
    sortedBy_congr _ Function.injective_id (nodup_mentioned _) (nodup_mentioned _)
      (mem_mentioned_congr h)
  have hpairs : sortedBy toLex (mentioned edgeMentions) = sortedBy toLex (mentioned edgeMentions') :=
    sortedBy_congr _ toLex.injective (nodup_mentioned _) (nodup_mentioned _)
      (mem_mentioned_congr hedge)
  have hsources : sourcesOf mentions = sourcesOf mentions' := funext (sourcesOf_congr h)
  have hedgeSources : sourcesOf edgeMentions = sourcesOf edgeMentions' :=
    funext (sourcesOf_congr hedge)
  rw [snapshotOf, snapshotOf, hnames, hpairs, hsources, hedgeSources]

/-- **The chunks matter only as a set.** -/
theorem extract_congr (budget : AdvancedResourceBudget)
    (h : ∀ chunk, chunk ∈ chunks ↔ chunk ∈ chunks') :
    extract names budget build chunks = extract names budget build chunks' := by
  have hmentions : ∀ mention, mention ∈ mentionsOf names chunks ↔
      mention ∈ mentionsOf names chunks' := by
    intro mention
    rw [mentionsOf, mentionsOf, List.mem_flatMap, List.mem_flatMap]
    exact exists_congr fun chunk => and_congr_left fun _ => h chunk
  have hedgeMentions : ∀ mention, mention ∈ edgeMentionsOf names chunks ↔
      mention ∈ edgeMentionsOf names chunks' := by
    intro mention
    rw [edgeMentionsOf, edgeMentionsOf, List.mem_flatMap, List.mem_flatMap]
    exact exists_congr fun chunk => and_congr_left fun _ => h chunk
  have hforeign : (∃ chunk ∈ chunks, GraphRagService.Foreign build chunk) ↔
      ∃ chunk ∈ chunks', GraphRagService.Foreign build chunk :=
    exists_congr fun chunk => and_congr_left fun _ => h chunk
  rw [extract, extract, length_mentioned_congr hmentions, length_mentioned_congr hedgeMentions,
    snapshotOf_congr hmentions hedgeMentions]
  exact if_congr hforeign rfl rfl

end Order

/-! ## Neighbours -/

/-- Two names stand next to each other. -/
def Adjacent (names : List String) (a b : String) : Prop := [a, b] <:+: names ∨ [b, a] <:+: names

theorem Adjacent.symm {names : List String} {a b : String} (h : Adjacent names a b) :
    Adjacent names b a := Or.symm h

theorem Adjacent.mem {names : List String} {a b : String} (h : Adjacent names a b) :
    a ∈ names ∧ b ∈ names := by
  rcases h with h | h
  · exact ⟨h.subset (by simp), h.subset (by simp)⟩
  · exact ⟨h.subset (by simp), h.subset (by simp)⟩

theorem Adjacent.ne {names : List String} {a b : String} (h : Adjacent names a b)
    (hnodup : names.Nodup) : a ≠ b := by
  have hne : ∀ x y : String, [x, y] <:+: names → x ≠ y := by
    intro x y hxy
    have hpair := hnodup.sublist hxy.sublist
    rw [List.nodup_cons, List.mem_singleton] at hpair
    exact hpair.1
  rcases h with h | h
  · exact hne a b h
  · exact (hne b a h).symm

/-- `pairwise(names)`. -/
theorem mem_zip_tail {names : List String} {a b : String} :
    (a, b) ∈ names.zip names.tail ↔ [a, b] <:+: names := by
  induction names with
  | nil => simp
  | cons x names ih =>
    cases names with
    | nil => simp [List.infix_cons_iff]
    | cons y names =>
      rw [List.infix_cons_iff, ← ih, List.tail_cons, List.zip_cons_cons, List.mem_cons,
        List.tail_cons, List.cons_prefix_cons, List.cons_prefix_cons, Prod.mk.injEq]
      simp

theorem sortedPair_cases (a b : String) : sortedPair a b = (a, b) ∨ sortedPair a b = (b, a) := by
  unfold sortedPair
  split
  · exact Or.inr rfl
  · exact Or.inl rfl

theorem sortedPair_lt {a b : String} (h : a ≠ b) : (sortedPair a b).1 < (sortedPair a b).2 := by
  unfold sortedPair
  split
  · assumption
  · rename_i hnot
    exact lt_of_le_of_ne (not_lt.1 hnot) h

/-- Which pairs are collected from the names of a chunk. -/
theorem exists_sortedPair_iff {names : List String} {pair : String × String}
    (hpair : pair.1 < pair.2) :
    (∃ a b, [a, b] <:+: names ∧ sortedPair a b = pair) ↔ Adjacent names pair.1 pair.2 := by
  constructor
  · rintro ⟨a, b, hab, rfl⟩
    rcases sortedPair_cases a b with h | h
    · rw [h]
      exact Or.inl hab
    · rw [h]
      exact Or.inr hab
  · rintro (h | h)
    · exact ⟨pair.1, pair.2, h, if_neg (not_lt.2 hpair.le)⟩
    · exact ⟨pair.2, pair.1, h, if_pos hpair⟩

section Mentions

variable {names : ChunkRecord → List String} {chunks : List ChunkRecord} {id : NonEmptyStr}

theorem mem_mentionsOf {name : String} : (name, id) ∈ mentionsOf names chunks ↔
    ∃ chunk ∈ chunks, chunk.key = id ∧ name ∈ names chunk := by
  rw [mentionsOf, List.mem_flatMap]
  refine exists_congr fun chunk => and_congr_right fun _ => ?_
  rw [List.mem_map]
  constructor
  · rintro ⟨entity, hentity, heq⟩
    cases heq
    exact ⟨rfl, hentity⟩
  · rintro ⟨rfl, hentity⟩
    exact ⟨name, hentity, rfl⟩

variable (hnodup : ∀ chunk, (names chunk).Nodup)

include hnodup

theorem mem_edgeMentionsOf {pair : String × String} :
    (pair, id) ∈ edgeMentionsOf names chunks ↔
      pair.1 < pair.2 ∧
        ∃ chunk ∈ chunks, chunk.key = id ∧ Adjacent (names chunk) pair.1 pair.2 := by
  have hchunk : ∀ chunk, (pair, id) ∈ (((names chunk).zip (names chunk).tail).filter
      fun pair => pair.1 ≠ pair.2).map (fun pair => (sortedPair pair.1 pair.2, chunk.key)) ↔
        chunk.key = id ∧ ∃ a b, [a, b] <:+: names chunk ∧ sortedPair a b = pair := by
    intro chunk
    rw [List.mem_map]
    constructor
    · rintro ⟨⟨a, b⟩, hmem, heq⟩
      cases heq
      exact ⟨rfl, a, b, mem_zip_tail.1 (List.mem_filter.1 hmem).1, rfl⟩
    · rintro ⟨rfl, a, b, hab, rfl⟩
      have hne : a ≠ b := Adjacent.ne (Or.inl hab) (hnodup chunk)
      exact ⟨(a, b), List.mem_filter.2 ⟨mem_zip_tail.2 hab, decide_eq_true hne⟩, rfl⟩
  rw [edgeMentionsOf, List.mem_flatMap]
  constructor
  · rintro ⟨chunk, hmem, h⟩
    obtain ⟨hid, a, b, hab, rfl⟩ := (hchunk chunk).1 h
    have hlt := sortedPair_lt (Adjacent.ne (Or.inl hab) (hnodup chunk))
    exact ⟨hlt, chunk, hmem, hid, (exists_sortedPair_iff hlt).1 ⟨a, b, hab, rfl⟩⟩
  · rintro ⟨hlt, chunk, hmem, hid, hadjacent⟩
    exact ⟨chunk, hmem, (hchunk chunk).2 ⟨hid, (exists_sortedPair_iff hlt).2 hadjacent⟩⟩

end Mentions

/-! ## What is in a snapshot -/

/-- An edge joins the two names. -/
def Neighbour (edges : List GraphEdge) (name other : NonEmptyStr) : Prop :=
  ∃ edge ∈ edges, edge.source = name ∧ edge.target = other ∨
    edge.target = name ∧ edge.source = other

/-- The name with all its neighbours, each once. -/
structure IsCommunity (edges : List GraphEdge) (name : NonEmptyStr) (members : List NonEmptyStr) :
    Prop where
  nodup : members.Nodup
  mem_iff : ∀ member, member ∈ members ↔ member = name ∨ Neighbour edges name member

/-- The snapshot has what the chunks name, with the chunks that name it. -/
structure Provenance (names : ChunkRecord → List String) (chunks : List ChunkRecord)
    (snapshot : GraphSnapshot) : Prop where
  entity_iff : ∀ name, (∃ entity ∈ snapshot.entities, entity.name.value = name) ↔
    ∃ chunk ∈ chunks, name ∈ names chunk
  entities_nodup : (snapshot.entities.map GraphEntity.name).Nodup
  entity_sources : ∀ entity ∈ snapshot.entities, ∀ id, id ∈ entity.sourceChunkIds ↔
    ∃ chunk ∈ chunks, chunk.key = id ∧ entity.name.value ∈ names chunk
  edge_iff : ∀ a b, (∃ edge ∈ snapshot.edges, s(edge.source.value, edge.target.value) = s(a, b)) ↔
    ∃ chunk ∈ chunks, Adjacent (names chunk) a b
  edge_ends : ∀ edge ∈ snapshot.edges, edge.source ≠ edge.target ∧
    (∃ entity ∈ snapshot.entities, entity.name = edge.source) ∧
      ∃ entity ∈ snapshot.entities, entity.name = edge.target
  edges_nodup : (snapshot.edges.map fun edge => s(edge.source, edge.target)).Nodup
  edge_sources : ∀ edge ∈ snapshot.edges, ∀ id, id ∈ edge.sourceChunkIds ↔
    ∃ chunk ∈ chunks, chunk.key = id ∧
      Adjacent (names chunk) edge.source.value edge.target.value
  community_of : ∀ members ∈ snapshot.communities, ∃ entity ∈ snapshot.entities,
    IsCommunity snapshot.edges entity.name members
  exists_community : ∀ entity ∈ snapshot.entities,
    (∃ other, Neighbour snapshot.edges entity.name other) →
      ∃ members ∈ snapshot.communities, IsCommunity snapshot.edges entity.name members

section Snapshot

variable {name source target : String} {sourceChunkIds : List NonEmptyStr}

theorem of_graphEntity_make {entity : GraphEntity} (hname : nonEmptyText name = .ok name)
    (h : GraphEntity.make name sourceChunkIds = .ok entity) :
    entity.name.value = name ∧ entity.sourceChunkIds = sourceChunkIds := by
  rw [GraphEntity.make, NonEmptyStr.make_eq_ok hname] at h
  obtain ⟨name', hname', h⟩ := bind_eq_ok.1 h
  cases hname'
  split at h
  · cases h
  · cases h
    exact ⟨rfl, rfl⟩

theorem of_graphEdge_make {edge : GraphEdge} (hsource : nonEmptyText source = .ok source)
    (htarget : nonEmptyText target = .ok target)
    (h : GraphEdge.make source target sourceChunkIds = .ok edge) :
    (edge.source.value, edge.target.value) = (source, target) ∧
      edge.sourceChunkIds = sourceChunkIds := by
  rw [GraphEdge.make, NonEmptyStr.make_eq_ok hsource, NonEmptyStr.make_eq_ok htarget] at h
  obtain ⟨source', hsource', h⟩ := bind_eq_ok.1 h
  obtain ⟨target', htarget', h⟩ := bind_eq_ok.1 h
  cases hsource'
  cases htarget'
  split at h
  · cases h
  · cases h
    exact ⟨rfl, rfl⟩

theorem mem_community {edges : List GraphEdge} (name : NonEmptyStr) :
    IsCommunity edges name (community edges name) := by
  refine ⟨(sortedBy_perm _ _).nodup_iff.2 (Pairing.nodup_eraseDups _), fun member => ?_⟩
  rw [community, mem_sortedBy, List.mem_eraseDups, List.mem_cons, List.mem_flatMap]
  refine or_congr_right (exists_congr fun edge => and_congr_right fun _ => ?_)
  rw [List.mem_append]
  refine or_congr ?_ ?_
  · split
    · rename_i h
      rw [List.mem_singleton]
      exact ⟨fun hmember => ⟨h, hmember.symm⟩, fun hmember => hmember.2.symm⟩
    · rename_i h
      exact ⟨fun hmember => absurd hmember List.not_mem_nil, fun hmember => absurd hmember.1 h⟩
  · split
    · rename_i h
      rw [List.mem_singleton]
      exact ⟨fun hmember => ⟨h, hmember.symm⟩, fun hmember => hmember.2.symm⟩
    · rename_i h
      exact ⟨fun hmember => absurd hmember List.not_mem_nil, fun hmember => absurd hmember.1 h⟩

end Snapshot

/-! ## The snapshot of the chunks -/

section Extraction

variable {names : ChunkRecord → List String} {chunks : List ChunkRecord} {build : AdvancedBuild}
  {budget : AdvancedResourceBudget} {snapshot : GraphSnapshot}

theorem snapshotOf_of_extract (h : extract names budget build chunks = .ok (some snapshot)) :
    snapshotOf build (mentionsOf names chunks) (edgeMentionsOf names chunks) = .ok snapshot := by
  unfold extract at h
  split at h
  · cases h
  · split at h
    · cases h
    · obtain ⟨found, hfound, hsome⟩ := map_eq_ok.1 h
      cases hsome
      exact hfound

/-- The names are valid, and a chunk has each of them once. -/
structure ValidNames (names : ChunkRecord → List String) : Prop where
  valid : ∀ chunk, ∀ name ∈ names chunk, nonEmptyText name = .ok name
  nodup : ∀ chunk, (names chunk).Nodup

theorem validNames_namesOf (find : String → List NonEmptyStr) : ValidNames (namesOf find) where
  valid := by
    intro chunk name hname
    have hmem := List.mem_of_mem_take hname
    rw [List.mem_eraseDups] at hmem
    obtain ⟨found, -, rfl⟩ := List.mem_map.1 hmem
    exact found.valid
  nodup := fun _ => (Pairing.nodup_eraseDups _).sublist (List.take_sublist _ _)

variable (hnames : ValidNames names)

include hnames

theorem nonEmptyText_of_mem_mentionsOf {name : String}
    (h : name ∈ mentioned (mentionsOf names chunks)) : nonEmptyText name = .ok name := by
  obtain ⟨id, hmem⟩ := mem_mentioned.1 h
  obtain ⟨chunk, -, -, hname⟩ := mem_mentionsOf.1 hmem
  exact hnames.valid chunk name hname

theorem of_mem_edgeMentionsOf {pair : String × String}
    (h : pair ∈ mentioned (edgeMentionsOf names chunks)) :
    pair.1 < pair.2 ∧ nonEmptyText pair.1 = .ok pair.1 ∧ nonEmptyText pair.2 = .ok pair.2 := by
  obtain ⟨id, hmem⟩ := mem_mentioned.1 h
  obtain ⟨hlt, chunk, -, -, hadjacent⟩ := (mem_edgeMentionsOf hnames.nodup).1 hmem
  exact ⟨hlt, hnames.valid chunk _ hadjacent.mem.1, hnames.valid chunk _ hadjacent.mem.2⟩

/-- What a snapshot is made of. -/
theorem parts_of_snapshotOf
    (h : snapshotOf build (mentionsOf names chunks) (edgeMentionsOf names chunks) = .ok snapshot) :
    (snapshot.entities.map fun entity => entity.name.value) =
        sortedBy id (mentioned (mentionsOf names chunks)) ∧
      (∀ entity ∈ snapshot.entities,
        entity.sourceChunkIds = sourcesOf (mentionsOf names chunks) entity.name.value) ∧
      (snapshot.edges.map fun edge => (edge.source.value, edge.target.value)) =
        sortedBy toLex (mentioned (edgeMentionsOf names chunks)) ∧
      (∀ edge ∈ snapshot.edges, edge.sourceChunkIds =
        sourcesOf (edgeMentionsOf names chunks) (edge.source.value, edge.target.value)) ∧
      snapshot.communities = communities snapshot.edges := by
  unfold snapshotOf at h
  obtain ⟨entities, hentities, h⟩ := bind_eq_ok.1 h
  obtain ⟨edges, hedges, h⟩ := bind_eq_ok.1 h
  cases h
  have hentity : ∀ name ∈ sortedBy id (mentioned (mentionsOf names chunks)), ∀ entity,
      GraphEntity.make name (sourcesOf (mentionsOf names chunks) name) = .ok entity →
        entity.name.value = name ∧
          entity.sourceChunkIds = sourcesOf (mentionsOf names chunks) name := by
    intro name hname entity hmake
    rw [mem_sortedBy] at hname
    exact of_graphEntity_make (nonEmptyText_of_mem_mentionsOf hnames hname) hmake
  have hedge : ∀ pair ∈ sortedBy toLex (mentioned (edgeMentionsOf names chunks)), ∀ edge,
      GraphEdge.make pair.1 pair.2 (sourcesOf (edgeMentionsOf names chunks) pair) = .ok edge →
        (edge.source.value, edge.target.value) = pair ∧
          edge.sourceChunkIds = sourcesOf (edgeMentionsOf names chunks) pair := by
    intro pair hpair edge hmake
    rw [mem_sortedBy] at hpair
    obtain ⟨-, hsource, htarget⟩ := of_mem_edgeMentionsOf hnames hpair
    exact of_graphEdge_make hsource htarget hmake
  refine ⟨?_, fun entity hmem => ?_, ?_, fun edge hmem => ?_, rfl⟩
  · have hmap := map_of_mapM_eq_ok (fun name hname entity hmake =>
      (hentity name hname entity hmake).1) hentities
    rwa [List.map_id'] at hmap
  · obtain ⟨name, hname, hmake⟩ := mem_of_mapM_eq_ok hentities entity hmem
    obtain ⟨rfl, hsources⟩ := hentity name hname entity hmake
    exact hsources
  · have hmap := map_of_mapM_eq_ok (fun pair hpair edge hmake =>
      (hedge pair hpair edge hmake).1) hedges
    rwa [List.map_id'] at hmap
  · obtain ⟨pair, hpair, hmake⟩ := mem_of_mapM_eq_ok hedges edge hmem
    obtain ⟨rfl, hsources⟩ := hedge pair hpair edge hmake
    exact hsources

/-- **A snapshot has what the chunks name.** -/
theorem provenance_of_extract (h : extract names budget build chunks = .ok (some snapshot)) :
    Provenance names chunks snapshot := by
  obtain ⟨hentities, hsources, hedges, hedgeSources, hcommunities⟩ :=
    parts_of_snapshotOf hnames (snapshotOf_of_extract h)
  have hentity : ∀ name, (∃ entity ∈ snapshot.entities, entity.name.value = name) ↔
      ∃ chunk ∈ chunks, name ∈ names chunk := by
    intro name
    rw [← List.mem_map (f := fun entity : GraphEntity => entity.name.value), hentities,
      mem_sortedBy, mem_mentioned]
    constructor
    · rintro ⟨id, hmem⟩
      obtain ⟨chunk, hchunk, -, hname⟩ := mem_mentionsOf.1 hmem
      exact ⟨chunk, hchunk, hname⟩
    · rintro ⟨chunk, hchunk, hname⟩
      exact ⟨chunk.key, mem_mentionsOf.2 ⟨chunk, hchunk, rfl, hname⟩⟩
  have hpair : ∀ pair, (∃ edge ∈ snapshot.edges, (edge.source.value, edge.target.value) = pair) ↔
      pair.1 < pair.2 ∧ ∃ chunk ∈ chunks, Adjacent (names chunk) pair.1 pair.2 := by
    intro pair
    rw [← List.mem_map (f := fun edge : GraphEdge => (edge.source.value, edge.target.value)),
      hedges, mem_sortedBy, mem_mentioned]
    constructor
    · rintro ⟨id, hmem⟩
      obtain ⟨hlt, chunk, hchunk, -, hadjacent⟩ := (mem_edgeMentionsOf hnames.nodup).1 hmem
      exact ⟨hlt, chunk, hchunk, hadjacent⟩
    · rintro ⟨hlt, chunk, hchunk, hadjacent⟩
      exact ⟨chunk.key, (mem_edgeMentionsOf hnames.nodup).2 ⟨hlt, chunk, hchunk, rfl, hadjacent⟩⟩
  have hlt : ∀ edge ∈ snapshot.edges, edge.source.value < edge.target.value :=
    fun edge hmem => ((hpair _).1 ⟨edge, hmem, rfl⟩).1
  have hends : ∀ edge ∈ snapshot.edges, edge.source ≠ edge.target ∧
      (∃ entity ∈ snapshot.entities, entity.name = edge.source) ∧
        ∃ entity ∈ snapshot.entities, entity.name = edge.target := by
    intro edge hmem
    obtain ⟨-, chunk, hchunk, hadjacent⟩ := (hpair _).1 ⟨edge, hmem, rfl⟩
    obtain ⟨source, hsource, hsourceName⟩ := (hentity _).2 ⟨chunk, hchunk, hadjacent.mem.1⟩
    obtain ⟨target, htarget, htargetName⟩ := (hentity _).2 ⟨chunk, hchunk, hadjacent.mem.2⟩
    refine ⟨fun heq => ?_, ⟨source, hsource, NonEmptyStr.value_injective hsourceName⟩,
      target, htarget, NonEmptyStr.value_injective htargetName⟩
    exact (hlt edge hmem).ne (congrArg NonEmptyStr.value heq)
  refine
    { entity_iff := hentity
      entities_nodup := ?_
      entity_sources := fun entity hmem id => ?_
      edge_iff := fun a b => ?_
      edge_ends := hends
      edges_nodup := ?_
      edge_sources := fun edge hmem id => ?_
      community_of := fun members hmem => ?_
      exists_community := fun entity hmem ⟨other, hother⟩ => ?_ }
  · refine List.Nodup.of_map NonEmptyStr.value ?_
    rw [List.map_map]
    exact hentities ▸ (sortedBy_perm _ _).nodup_iff.2 (nodup_mentioned _)
  · rw [hsources entity hmem, mem_sourcesOf, mem_mentionsOf]
  · constructor
    · rintro ⟨edge, hmem, heq⟩
      obtain ⟨-, chunk, hchunk, hadjacent⟩ := (hpair _).1 ⟨edge, hmem, rfl⟩
      rcases Sym2.eq_iff.1 heq with ⟨rfl, rfl⟩ | ⟨rfl, rfl⟩
      · exact ⟨chunk, hchunk, hadjacent⟩
      · exact ⟨chunk, hchunk, hadjacent.symm⟩
    · rintro ⟨chunk, hchunk, hadjacent⟩
      rcases lt_or_gt_of_ne (hadjacent.ne (hnames.nodup chunk)) with hab | hab
      · obtain ⟨edge, hmem, heq⟩ := (hpair (a, b)).2 ⟨hab, chunk, hchunk, hadjacent⟩
        cases heq
        exact ⟨edge, hmem, rfl⟩
      · obtain ⟨edge, hmem, heq⟩ := (hpair (b, a)).2 ⟨hab, chunk, hchunk, hadjacent.symm⟩
        cases heq
        exact ⟨edge, hmem, Sym2.eq_swap⟩
  · have hpairs : (snapshot.edges.map fun edge => (edge.source.value, edge.target.value)).Nodup :=
      hedges ▸ (sortedBy_perm _ _).nodup_iff.2 (nodup_mentioned _)
    refine List.pairwise_map.2 ((List.pairwise_map.1 hpairs).imp_of_mem ?_)
    intro edge other hmem hother hne heq
    rcases Sym2.eq_iff.1 heq with ⟨hsource, htarget⟩ | ⟨hsource, htarget⟩
    · exact hne (by rw [hsource, htarget])
    · have hother' := hlt other hother
      rw [← hsource, ← htarget] at hother'
      exact absurd hother' (hlt edge hmem).not_gt
  · rw [hedgeSources edge hmem, mem_sourcesOf, mem_edgeMentionsOf hnames.nodup]
    exact and_iff_right (hlt edge hmem)
  · rw [hcommunities, communities] at hmem
    obtain ⟨name, hname, rfl⟩ := List.mem_map.1 hmem
    rw [mem_sortedBy, List.mem_eraseDups] at hname
    obtain ⟨edge, hedge, hname⟩ := List.mem_flatMap.1 hname
    obtain ⟨-, ⟨source, hsource, hsourceName⟩, target, htarget, htargetName⟩ := hends edge hedge
    simp only [List.mem_cons, List.not_mem_nil, or_false] at hname
    rcases hname with rfl | rfl
    · exact ⟨source, hsource, hsourceName ▸ mem_community _⟩
    · exact ⟨target, htarget, htargetName ▸ mem_community _⟩
  · refine ⟨community snapshot.edges entity.name, ?_, mem_community _⟩
    rw [hcommunities, communities]
    refine List.mem_map_of_mem ?_
    rw [mem_sortedBy, List.mem_eraseDups]
    obtain ⟨edge, hedge, hends⟩ := hother
    refine List.mem_flatMap.2 ⟨edge, hedge, ?_⟩
    rcases hends with ⟨hsource, -⟩ | ⟨htarget, -⟩
    · rw [hsource]
      exact List.mem_cons_self
    · rw [htarget]
      exact List.mem_cons_of_mem _ (List.mem_singleton_self _)

end Extraction

end Advanced
end Knowledge
end RagflowAgent
