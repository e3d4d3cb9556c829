import RagflowAgent.Knowledge.Advanced.Domain
import RagflowAgent.Pairing

/-!
# Summary trees

`RaptorBuilder.build` puts a tree over the chunks of a document version: a leaf for every chunk,
and from level to level a parent for every two neighbours, with the first words of both.

* `climb` is the loop over the levels, `parentsOf` builds one level over another;
* `exists_parentsOf` says what one level gets from the one below, `exists_climb` what all get;
* `build_complete` says that the tree is built and that it is `Complete`.
-/

namespace RagflowAgent
namespace Knowledge
namespace Advanced

open Pairing

structure RaptorNode where
  id : NonEmptyStr
  level : ℕ
  text : NonEmptyStr
  sourceChunkIds : List NonEmptyStr
  childIds : List NonEmptyStr
  sourced : sourceChunkIds ≠ []

/-- `RaptorNode(...)`. -/
def RaptorNode.make (id : String) (level : ℕ) (text : String)
    (sourceChunkIds childIds : List String) : Except Error RaptorNode := do
  let id ← NonEmptyStr.make id
  let text ← NonEmptyStr.make text
  let sourceChunkIds ← sourceChunkIds.mapM NonEmptyStr.make
  let childIds ← childIds.mapM NonEmptyStr.make
  if h : sourceChunkIds = [] then
    throw (.validation "source_chunk_ids: Tuple should have at least 1 item after validation")
  else return ⟨id, level, text, sourceChunkIds, childIds, h⟩

structure RaptorTree where
  tenantId : NonEmptyStr
  knowledgeBaseId : NonEmptyStr
  documentVersionId : NonEmptyStr
  buildVersion : NonEmptyStr
  levels : List (List RaptorNode)
  levels_ne_nil : levels ≠ []

/-- `RaptorTree(...)`. -/
def RaptorTree.make (tenantId knowledgeBaseId documentVersionId buildVersion : String)
    (levels : List (List RaptorNode)) : Except Error RaptorTree := do
  let tenantId ← NonEmptyStr.make tenantId
  let knowledgeBaseId ← NonEmptyStr.make knowledgeBaseId
  let documentVersionId ← NonEmptyStr.make documentVersionId
  let buildVersion ← NonEmptyStr.make buildVersion
  if h : levels = [] then
    throw (.validation "levels: Tuple should have at least 1 item after validation")
  else return ⟨tenantId, knowledgeBaseId, documentVersionId, buildVersion, levels, h⟩

namespace RaptorBuilder

/-- The leaf of a chunk. -/
def leaf (item : ChunkRecord) : Except Error RaptorNode :=
  RaptorNode.make ("raptor_leaf_" ++ item.id) 0 item.content [item.id] []

def nodeId (buildVersion : String) (level index : ℕ) : String :=
  "raptor_" ++ buildVersion ++ "_" ++ toString level ++ "_" ++ toString index

/-- The first words of the children. -/
def summary (summaryWords : ℕ) (children : List RaptorNode) : String :=
  let words := split (joinSpaced (children.map fun child => child.text.value.toList))
  joinSpaced (words.take summaryWords)

/-- The chunks of the children, in order and once each. -/
def sources (children : List RaptorNode) : List NonEmptyStr :=
  (children.flatMap RaptorNode.sourceChunkIds).eraseDups

def parent (buildVersion : String) (summaryWords level : ℕ) (children : List RaptorNode)
    (index : ℕ) : Except Error RaptorNode :=
  RaptorNode.make (nodeId buildVersion level index) level (summary summaryWords children)
    ((sources children).map NonEmptyStr.value) (children.map fun child => child.id.value)

/-- The level over another one. -/
def parentsOf (buildVersion : String) (summaryWords level : ℕ) (current : List RaptorNode) :
    Except Error (List RaptorNode) :=
  (pairs current).zipIdx.mapM fun (children, index) =>
    parent buildVersion summaryWords level children index

/-- The loop over the levels; `remaining` levels are still allowed. -/
def climb (buildVersion : String) (summaryWords : ℕ) :
    (remaining level : ℕ) → List RaptorNode → Except Error (List (List RaptorNode))
  | 0, _, current => return [current]
  | remaining + 1, level, current =>
    if 1 < current.length then do
      let parents ← parentsOf buildVersion summaryWords level current
      if current.length ≤ parents.length then
        throw (.other "RuntimeError" "RAPTOR tree failed to converge")
      let levels ← climb buildVersion summaryWords remaining (level + 1) parents
      return current :: levels
    else return [current]

def build (chunks : List ChunkRecord) (buildVersion : String) (maxLevels : ℕ := 4)
    (summaryWords : ℕ := 96) : Except Error RaptorTree :=
  match chunks with
  | [] => throw (.validation "RAPTOR requires chunks and one to four levels")
  | first :: rest => do
    if ¬ (1 ≤ maxLevels ∧ maxLevels ≤ 4) then
      throw (.validation "RAPTOR requires chunks and one to four levels")
    if (first :: rest).any fun item =>
        (item.tenantId, item.knowledgeBaseId, item.documentVersionId) ≠
          (first.tenantId, first.knowledgeBaseId, first.documentVersionId) then
      throw (.validation
        "RAPTOR chunks must share tenant, knowledge base, and document version")
    let current ← (first :: rest).mapM leaf
    let levels ← climb buildVersion summaryWords (maxLevels - 1) 1 current
    RaptorTree.make first.tenantId first.knowledgeBaseId first.documentVersionId buildVersion
      levels

/-! ## One level -/

variable {buildVersion : String} {summaryWords level : ℕ} {children current : List RaptorNode}
  {node : RaptorNode} {item : ChunkRecord}

/-- A node has words to summarise. -/
def Readable (node : RaptorNode) : Prop := ∃ c ∈ node.text.value.toList, Agent.isSpace c = false

theorem nonEmptyText_nodeId (buildVersion : String) (level index : ℕ) :
    nonEmptyText (nodeId buildVersion level index) = .ok (nodeId buildVersion level index) := by
  have hhead : ("raptor_" ++ buildVersion ++ "_" ++ toString level ++ "_").toList =
      'r' :: ("aptor_".toList ++ buildVersion.toList ++ "_".toList ++ (toString level).toList ++
        "_".toList) := by
    simp
  refine nonEmptyText_append_number ?_ (fun c hc => ?_) index
  · rw [hhead]
    exact List.cons_ne_nil _ _
  · rw [hhead, List.head?_cons] at hc
    cases hc
    decide

theorem nonEmptyText_leafId (item : ChunkRecord) :
    nonEmptyText ("raptor_leaf_" ++ item.id) = .ok ("raptor_leaf_" ++ item.id) := by
  obtain ⟨hne, hlast⟩ := isWhiteSpace_getLast (item.nonEmpty item.id List.mem_cons_self)
  refine nonEmptyText_eq_self ?_ (fun c hc => ?_) fun c hc => ?_
  · rw [String.toList_append]
    exact List.append_ne_nil_of_right_ne_nil _ hne
  · have hhead : ("raptor_leaf_" ++ item.id).toList.head? = some 'r' := by
      simp
    rw [hhead] at hc
    cases hc
    decide
  · rw [String.toList_append, List.getLast?_append_of_ne_nil _ hne] at hc
    exact hlast c hc

/-- **A summary of readable nodes is readable** and passes its field as it is. -/
theorem summary_spec (hwords : 1 ≤ summaryWords) (hne : children ≠ [])
    (h : ∀ child ∈ children, Readable child) :
    nonEmptyText (summary summaryWords children) = .ok (summary summaryWords children) ∧
      ∃ c ∈ (summary summaryWords children).toList, Agent.isSpace c = false := by
  obtain ⟨child, rest, rfl⟩ := List.exists_cons_of_ne_nil hne
  obtain ⟨c, hc, hspace⟩ := h child List.mem_cons_self
  have hjoined : c ∈ (joinSpaced ((child :: rest).map fun node =>
      node.text.value.toList)).toList :=
    mem_joinSpaced (List.mem_map_of_mem List.mem_cons_self) hc
  have hsplit := Text.words_ne_nil hjoined hspace
  have htaken : (Text.words Agent.isSpace (joinSpaced ((child :: rest).map fun node =>
      node.text.value.toList)).toList).take summaryWords ≠ [] := by
    intro hnil
    rcases List.take_eq_nil_iff.1 hnil with hzero | hnone
    · omega
    · exact hsplit hnone
  obtain ⟨htext, hhead, hlast⟩ := joinSpaced_words htaken fun word hword =>
    Text.of_mem_words (List.mem_of_mem_take hword)
  refine ⟨nonEmptyText_eq_self htext (fun d hd => isWhiteSpace_eq_false (hhead d hd))
    fun d hd => isWhiteSpace_eq_false (hlast d hd), ?_⟩
  obtain ⟨d, l, hl⟩ := List.exists_cons_of_ne_nil htext
  refine ⟨d, ?_, hhead d ?_⟩
  · rw [summary, split, hl]
    exact List.mem_cons_self
  · rw [hl]
    rfl

/-- The leaf of a chunk has its text and comes from it alone. -/
theorem exists_leaf (item : ChunkRecord) :
    ∃ node, leaf item = .ok node ∧ node.text.value = item.content ∧
      node.sourceChunkIds = [item.key] ∧ node.id.value = "raptor_leaf_" ++ item.id := by
  have hcontent : nonEmptyText item.content = .ok item.content :=
    item.nonEmpty item.content (by simp)
  refine ⟨⟨⟨_, nonEmptyText_leafId item⟩, 0, ⟨_, hcontent⟩, [item.key], [],
    List.cons_ne_nil _ _⟩, ?_, rfl, rfl, rfl⟩
  have hsources : [item.id].mapM NonEmptyStr.make = .ok [item.key] :=
    NonEmptyStr.mapM_make_value [item.key]
  rw [leaf, RaptorNode.make, NonEmptyStr.make_eq_ok (nonEmptyText_leafId item),
    NonEmptyStr.make_eq_ok hcontent, hsources]
  rfl

/-- The parent of some nodes comes from what they come from. -/
theorem exists_parent (hwords : 1 ≤ summaryWords) (hne : children ≠ [])
    (h : ∀ child ∈ children, Readable child) (buildVersion : String) (level index : ℕ) :
    ∃ node, parent buildVersion summaryWords level children index = .ok node ∧ Readable node ∧
      node.sourceChunkIds = sources children ∧ node.childIds = children.map RaptorNode.id := by
  obtain ⟨htext, hreadable⟩ := summary_spec hwords hne h
  have hsourced : sources children ≠ [] := by
    obtain ⟨child, rest, rfl⟩ := List.exists_cons_of_ne_nil hne
    obtain ⟨source, hsource⟩ := List.exists_mem_of_ne_nil _ child.sourced
    have hmem : source ∈ (child :: rest).flatMap RaptorNode.sourceChunkIds :=
      List.mem_flatMap.2 ⟨child, List.mem_cons_self, hsource⟩
    exact List.ne_nil_of_mem (List.mem_eraseDups.2 hmem)
  refine ⟨⟨⟨_, nonEmptyText_nodeId buildVersion level index⟩, level, ⟨_, htext⟩,
    sources children, children.map RaptorNode.id, hsourced⟩, ?_, hreadable, rfl, rfl⟩
  have hchildren : (children.map fun child => child.id.value).mapM NonEmptyStr.make =
      .ok (children.map RaptorNode.id) := by
    have hmap : (children.map fun child => child.id.value) =
        (children.map RaptorNode.id).map NonEmptyStr.value := by
      rw [List.map_map]
      rfl
    rw [hmap, NonEmptyStr.mapM_make_value]
  rw [parent, RaptorNode.make, NonEmptyStr.make_eq_ok (nonEmptyText_nodeId _ _ _),
    NonEmptyStr.make_eq_ok htext, NonEmptyStr.mapM_make_value, hchildren]
  exact dif_neg hsourced

/-- The parents of groups of nodes that are numbered from `n`. -/
theorem exists_parents (hwords : 1 ≤ summaryWords) (buildVersion : String) (level : ℕ)
    {groups : List (List RaptorNode)} (hne : ∀ children ∈ groups, children ≠ [])
    (h : ∀ children ∈ groups, ∀ child ∈ children, Readable child) (n : ℕ) :
    ∃ parents, ((groups.zipIdx n).mapM fun (children, index) =>
        parent buildVersion summaryWords level children index) = .ok parents ∧
      (∀ node ∈ parents, Readable node) ∧
      parents.map RaptorNode.sourceChunkIds = groups.map sources ∧
      parents.map RaptorNode.childIds = groups.map (List.map RaptorNode.id) := by
  induction groups generalizing n with
  | nil => exact ⟨[], rfl, fun _ hnode => absurd hnode List.not_mem_nil, rfl, rfl⟩
  | cons children groups ih =>
    obtain ⟨node, hnode, hreadable, hsources, hchildren⟩ :=
      exists_parent hwords (hne children List.mem_cons_self) (h children List.mem_cons_self)
        buildVersion level n
    obtain ⟨parents, hparents, hrest, hsources', hchildren'⟩ :=
      ih (fun other hother => hne other (List.mem_cons_of_mem _ hother))
        (fun other hother => h other (List.mem_cons_of_mem _ hother)) (n + 1)
    refine ⟨node :: parents, ?_, List.forall_mem_cons.2 ⟨hreadable, hrest⟩, ?_, ?_⟩
    · rw [List.zipIdx_cons, List.mapM_cons, hparents]
      change (parent buildVersion summaryWords level children n >>= _) = _
      rw [hnode]
      rfl
    · rw [List.map_cons, List.map_cons, hsources, hsources']
    · rw [List.map_cons, List.map_cons, hchildren, hchildren']

/-- **What a level gets from the one below**: a parent for each pair of nodes, which names them and
comes from the chunks that they come from. -/
theorem exists_parentsOf (hwords : 1 ≤ summaryWords) (buildVersion : String) (level : ℕ)
    {groups : List (List NonEmptyStr)} (h : ∀ node ∈ current, Readable node)
    (hsources : current.map RaptorNode.sourceChunkIds = groups.map List.eraseDups) :
    ∃ parents, parentsOf buildVersion summaryWords level current = .ok parents ∧
      (∀ node ∈ parents, Readable node) ∧ parents.length = (current.length + 1) / 2 ∧
      parents.map RaptorNode.childIds = pairs (current.map RaptorNode.id) ∧
      parents.map RaptorNode.sourceChunkIds = (merged groups).map List.eraseDups := by
  obtain ⟨parents, hparents, hreadable, hfrom, hchildren⟩ :=
    exists_parents hwords buildVersion level (fun children hpair => ne_nil_of_mem_pairs hpair)
      (fun children hpair child hchild => h child (mem_of_mem_pairs hpair child hchild)) 0
  refine ⟨parents, hparents, hreadable, ?_, ?_, ?_⟩
  · have hlength := congrArg List.length hchildren
    rw [List.length_map, List.length_map, length_pairs] at hlength
    exact hlength
  · rw [hchildren, map_pairs]
  · have hgroups : (pairs current).map (List.map RaptorNode.sourceChunkIds) =
        (pairs groups).map (List.map List.eraseDups) := by
      rw [map_pairs, map_pairs, hsources]
    calc parents.map RaptorNode.sourceChunkIds
        = ((pairs current).map (List.map RaptorNode.sourceChunkIds)).map
            fun chunks => chunks.flatten.eraseDups := by
          rw [hfrom, List.map_map]
          exact List.map_congr_left fun children _ => by rw [sources, List.flatMap_def]; rfl
      _ = (pairs groups).map fun chunks => (chunks.map List.eraseDups).flatten.eraseDups := by
          rw [hgroups, List.map_map]
          rfl
      _ = (merged groups).map List.eraseDups := by
          rw [merged, List.map_map]
          exact List.map_congr_left fun chunks _ => eraseDups_flatten_map_eraseDups chunks

/-! ## All levels -/

/-- A level over another one. -/
structure Above (below above : List RaptorNode) : Prop where
  length_eq : above.length = (below.length + 1) / 2
  childIds_eq : above.map RaptorNode.childIds = pairs (below.map RaptorNode.id)

/-- **The loop ends, and relates each level to the one below.** -/
theorem exists_climb (hwords : 1 ≤ summaryWords) (buildVersion : String) (remaining level : ℕ)
    {groups : List (List NonEmptyStr)} (hne : current ≠ [])
    (h : ∀ node ∈ current, Readable node)
    (hsources : current.map RaptorNode.sourceChunkIds = groups.map List.eraseDups) :
    ∃ levels, climb buildVersion summaryWords remaining level current = .ok (current :: levels) ∧
      (current :: levels).IsChain Above ∧
      (levels.length = remaining ∨ ∃ root, (current :: levels).getLast? = some [root]) ∧
      ∀ i nodes, (current :: levels)[i]? = some nodes →
        nodes.map RaptorNode.sourceChunkIds = (mergedBy i groups).map List.eraseDups := by
  induction remaining generalizing level current groups with
  | zero =>
    refine ⟨[], rfl, List.isChain_singleton _, .inl rfl, fun i nodes hnodes => ?_⟩
    obtain ⟨rfl, rfl⟩ : i = 0 ∧ current = nodes := by
      cases i with
      | zero => exact ⟨rfl, Option.some.inj hnodes⟩
      | succ i => cases hnodes
    exact hsources
  | succ remaining ih =>
    by_cases hone : 1 < current.length
    · obtain ⟨parents, hparents, hreadable, hlength, hchildren, hfrom⟩ :=
        exists_parentsOf hwords buildVersion level h hsources
      have hless : ¬ current.length ≤ parents.length := by omega
      have hparentsNe : parents ≠ [] := by
        rintro rfl
        rw [List.length_nil] at hlength
        omega
      obtain ⟨levels, hlevels, hchain, hend, hbelow⟩ :=
        ih (level + 1) hparentsNe hreadable hfrom
      refine ⟨parents :: levels, ?_, ?_, ?_, fun i nodes hnodes => ?_⟩
      · rw [climb, if_pos hone, hparents]
        change (if current.length ≤ parents.length then _ else _) = _
        rw [if_neg hless, hlevels]
        rfl
      · exact List.isChain_cons_cons.2 ⟨⟨hlength, hchildren⟩, hchain⟩
      · rcases hend with hend | ⟨root, hroot⟩
        · exact .inl (by rw [List.length_cons, hend])
        · exact .inr ⟨root, by rwa [List.getLast?_cons_cons]⟩
      · cases i with
        | zero =>
          obtain rfl : current = nodes := Option.some.inj hnodes
          exact hsources
        | succ i => exact hbelow i nodes hnodes
    · refine ⟨[], ?_, List.isChain_singleton _, ?_, fun i nodes hnodes => ?_⟩
      · rw [climb, if_neg hone]
        rfl
      · have hpos := List.length_pos_iff.2 hne
        obtain ⟨root, hroot⟩ := List.length_eq_one_iff.1 (show current.length = 1 by omega)
        exact .inr ⟨root, by rw [hroot]; rfl⟩
      · obtain ⟨rfl, rfl⟩ : i = 0 ∧ current = nodes := by
          cases i with
          | zero => exact ⟨rfl, Option.some.inj hnodes⟩
          | succ i => cases hnodes
        exact hsources

/-- The chunks beneath each node of a level: those beneath its children. -/
def beneath (chunks : List ChunkRecord) (level : ℕ) : List (List NonEmptyStr) :=
  mergedBy level (chunks.map fun item => [item.key])

/-- A tree over the chunks. -/
structure Complete (chunks : List ChunkRecord) (maxLevels : ℕ)
    (levels : List (List RaptorNode)) : Prop where
  leaves : ∃ leaves, levels.head? = some leaves ∧
    leaves.map (fun node => node.id.value) = chunks.map fun item => "raptor_leaf_" ++ item.id
  halved : levels.IsChain fun below above => above.length = (below.length + 1) / 2
  top : levels.length = maxLevels ∨ ∃ root, levels.getLast? = some [root]
  paired : levels.IsChain fun below above =>
    above.map RaptorNode.childIds = pairs (below.map RaptorNode.id)
  children : levels.IsChain fun below above =>
    above.flatMap RaptorNode.childIds = below.map RaptorNode.id
  sources : ∀ i level, levels[i]? = some level →
    level.map RaptorNode.sourceChunkIds = (beneath chunks i).map List.eraseDups
  covers : ∀ level ∈ levels, ∀ item ∈ chunks, ∃ node ∈ level, item.key ∈ node.sourceChunkIds

/-- Every level covers every chunk, since what is beneath its nodes is beneath the leaves. -/
theorem exists_covering {chunks : List ChunkRecord} {i : ℕ} {nodes : List RaptorNode}
    (h : nodes.map RaptorNode.sourceChunkIds = (beneath chunks i).map List.eraseDups)
    (hitem : item ∈ chunks) : ∃ node ∈ nodes, item.key ∈ node.sourceChunkIds := by
  have hall : item.key ∈ (beneath chunks i).flatten := by
    rw [beneath, flatten_mergedBy]
    exact List.mem_flatten.2 ⟨[item.key], List.mem_map_of_mem hitem, List.mem_singleton_self _⟩
  obtain ⟨group, hgroup, hkey⟩ := List.mem_flatten.1 hall
  have hsources : group.eraseDups ∈ nodes.map RaptorNode.sourceChunkIds := by
    rw [h]
    exact List.mem_map_of_mem hgroup
  obtain ⟨node, hnode, heq⟩ := List.mem_map.1 hsources
  exact ⟨node, hnode, by rw [heq, List.mem_eraseDups]; exact hkey⟩

/-- The leaves of the chunks. -/
theorem exists_leaves (chunks : List ChunkRecord)
    (h : ∀ item ∈ chunks, ∃ c ∈ item.content.toList, Agent.isSpace c = false) :
    ∃ leaves, chunks.mapM leaf = .ok leaves ∧ (∀ node ∈ leaves, Readable node) ∧
      leaves.map RaptorNode.sourceChunkIds = chunks.map (fun item => [item.key]) ∧
      leaves.map (fun node => node.id.value) = chunks.map fun item => "raptor_leaf_" ++ item.id := by
  induction chunks with
  | nil => exact ⟨[], rfl, fun _ hnode => absurd hnode List.not_mem_nil, rfl, rfl⟩
  | cons item chunks ih =>
    obtain ⟨node, hnode, htext, hsources, hid⟩ := exists_leaf item
    obtain ⟨leaves, hleaves, hreadable, hsources', hids⟩ :=
      ih fun other hother => h other (List.mem_cons_of_mem _ hother)
    refine ⟨node :: leaves, ?_, List.forall_mem_cons.2 ⟨?_, hreadable⟩, ?_, ?_⟩
    · rw [List.mapM_cons, hnode, hleaves]
      rfl
    · rw [Readable, htext]
      exact h item List.mem_cons_self
    · rw [List.map_cons, List.map_cons, hsources, hsources']
    · rw [List.map_cons, List.map_cons, hid, hids]

/-- The document version of a chunk. -/
def scope (item : ChunkRecord) : String × String × String :=
  (item.tenantId, item.knowledgeBaseId, item.documentVersionId)

/-- **The tree is built, and is complete.** -/
theorem build_complete {chunks : List ChunkRecord} {buildVersion : String}
    {maxLevels summaryWords : ℕ} {version : NonEmptyStr} (hne : chunks ≠ [])
    (hscope : ∀ item ∈ chunks, ∀ other ∈ chunks, scope item = scope other)
    (hcontent : ∀ item ∈ chunks, ∃ c ∈ item.content.toList, Agent.isSpace c = false)
    (hlevels : 1 ≤ maxLevels ∧ maxLevels ≤ 4) (hwords : 1 ≤ summaryWords)
    (hversion : NonEmptyStr.make buildVersion = .ok version) :
    ∃ tree, build chunks buildVersion maxLevels summaryWords = .ok tree ∧
      tree.buildVersion = version ∧ Complete chunks maxLevels tree.levels := by
  obtain ⟨first, rest, rfl⟩ := List.exists_cons_of_ne_nil hne
  obtain ⟨leaves, hleaves, hreadable, hsources, hids⟩ := exists_leaves (first :: rest) hcontent
  have hleavesNe : leaves ≠ [] := by
    rintro rfl
    cases hids
  have hground : leaves.map RaptorNode.sourceChunkIds =
      ((first :: rest).map fun item => [item.key]).map List.eraseDups := by
    rw [hsources, List.map_map]
    rfl
  obtain ⟨levels, hclimb, hchain, hend, hbelow⟩ :=
    exists_climb hwords buildVersion (maxLevels - 1) 1 hleavesNe hreadable hground
  -- what the tree takes from the first chunk has been validated before
  have hvalid : ∀ text ∈ [first.id, first.tenantId, first.knowledgeBaseId, first.documentId,
      first.documentVersionId, first.content], ∃ h, NonEmptyStr.make text = .ok ⟨text, h⟩ :=
    fun text htext => ⟨first.nonEmpty text htext, NonEmptyStr.make_eq_ok _⟩
  obtain ⟨htenant, hmakeTenant⟩ := hvalid first.tenantId (by simp)
  obtain ⟨hbase, hmakeBase⟩ := hvalid first.knowledgeBaseId (by simp)
  obtain ⟨hdocument, hmakeDocument⟩ := hvalid first.documentVersionId (by simp)
  have hsame : ((first :: rest).any fun item =>
      (item.tenantId, item.knowledgeBaseId, item.documentVersionId) ≠
        (first.tenantId, first.knowledgeBaseId, first.documentVersionId)) = false := by
    refine List.any_eq_false.2 fun item hitem hother => of_decide_eq_true hother ?_
    exact hscope item hitem first List.mem_cons_self
  refine ⟨⟨⟨_, htenant⟩, ⟨_, hbase⟩, ⟨_, hdocument⟩, version, leaves :: levels,
    List.cons_ne_nil _ _⟩, ?_, rfl, ?_⟩
  · rw [build, if_neg (not_not_intro hlevels), hsame]
    refine bind_eq_ok.2 ⟨leaves, hleaves, bind_eq_ok.2 ⟨leaves :: levels, hclimb, ?_⟩⟩
    rw [RaptorTree.make, hmakeTenant, hmakeBase, hmakeDocument, hversion]
    rfl
  · refine ⟨⟨leaves, rfl, hids⟩, hchain.imp fun _ _ habove => habove.length_eq, ?_,
      hchain.imp fun _ _ habove => habove.childIds_eq, hchain.imp fun below above habove => ?_,
      hbelow, fun level hlevel item hitem => ?_⟩
    · rcases hend with hend | hroot
      · exact .inl (by rw [List.length_cons, hend]; omega)
      · exact .inr hroot
    · rw [List.flatMap_def, habove.childIds_eq, flatten_pairs]
    · obtain ⟨i, hi⟩ := List.getElem?_of_mem hlevel
      exact exists_covering (hbelow i level hi) hitem

/-! ## Three chunks -/

namespace Sample

def page (id content : String) (sequence : ℕ) (nonEmpty : nonEmptyText id = .ok id)
    (nonEmptyContent : nonEmptyText content = .ok content) : ChunkRecord where
  id := id
  tenantId := "t"
  knowledgeBaseId := "kb"
  documentId := "d"
  documentVersionId := "v"
  sequence := sequence
  content := content
  nonEmpty := by
    have hscope : ∀ text ∈ ["t", "kb", "d", "v"], nonEmptyText text = .ok text := by
      decide
    intro text htext
    simp only [List.mem_cons, List.not_mem_nil, or_false] at htext
    rcases htext with rfl | rfl | rfl | rfl | rfl | rfl
    exacts [nonEmpty, hscope _ (by simp), hscope _ (by simp), hscope _ (by simp),
      hscope _ (by simp), nonEmptyContent]

/-- Three pages, of which two have one id. -/
def pages : List ChunkRecord :=
  [page "a" "one two" 0 (by decide) (by decide), page "b" "three" 1 (by decide) (by decide),
    page "a" "four" 2 (by decide) (by decide)]

def version : NonEmptyStr := ⟨"v1", by decide⟩

theorem exists_word : ∀ item ∈ pages, ∃ c ∈ item.content.toList, Agent.isSpace c = false := by
  have hall : pages.all (fun item => item.content.toList.any fun c => !Agent.isSpace c) = true := by
    decide +kernel
  intro item hitem
  obtain ⟨c, hc, hspace⟩ := List.any_eq_true.1 (List.all_eq_true.1 hall item hitem)
  exact ⟨c, hc, by simpa using hspace⟩

end Sample

/-- Three chunks have two parents and one root. -/
theorem build_complete_pages :
    ∃ tree, build Sample.pages "v1" 4 2 = .ok tree ∧
      tree.buildVersion = Sample.version ∧ Complete Sample.pages 4 tree.levels :=
  build_complete (List.cons_ne_nil _ _) (by decide) Sample.exists_word (by decide) (by decide)
    (NonEmptyStr.make_value Sample.version)

example : (build Sample.pages "v1" 4 2).toOption.map (fun tree => tree.levels.map
    (List.map fun node => (node.text.value, node.sourceChunkIds.map NonEmptyStr.value))) =
    some [[("one two", ["a"]), ("three", ["b"]), ("four", ["a"])],
      [("one two", ["a", "b"]), ("four", ["a"])], [("one two", ["a", "b"])]] := by
  decide +kernel

end RaptorBuilder
end Advanced
end Knowledge
end RagflowAgent
