import RagflowAgent.Forest
import RagflowAgent.Knowledge.Parsing.Tables

/-!
# The parser of HTML documents

The parser takes scripts, styles, `noscript` and `template` out of the tree, and emits a block
for every heading, paragraph, list item, preformatted text, table and image that it then finds.  A
paragraph, a list item or a preformatted text is left out when a list item or a table is above it.

* `parseNode` is what the parser does with one element, and `parseNodes` the loop;
* `sources` are the text nodes that the block of an element is made from; `exists_parsed` says
  that the block has their texts;
* `carriers` counts the elements above a text node that carry it into a block, and
  `countP_sources` says that this is the number of blocks with the node;
* `parseBytes_keeps_iff_carriers`: every text is kept exactly once if and only if every text node
  of the body has one carrier.
-/

namespace RagflowAgent
namespace Knowledge
namespace Parsing

open Chunking (BlockKind)
open ParsedBlock (Headed headed_nil headed_append)

/-! ## The tree -/

/-- The names of the elements that matter.  The level of a heading is its digit, less one. -/
inductive TagName where
  | heading (level : Fin 6)
  | p
  | li
  | pre
  | table
  | tr
  | th
  | td
  | img
  | script
  | style
  | noscript
  | template
  | head
  | other (name : String)
  deriving DecidableEq

/-- An element, with the attributes of an image. -/
structure Tag where
  name : TagName
  alt : Option (List Char) := none
  src : Option (List Char) := none

/-- A text node; the number tells it from other nodes with the same text. -/
structure TextNode where
  id : ℕ
  content : List Char
  deriving DecidableEq

abbrev Dom := Forest Tag TextNode

/-- The tree that the library returns. -/
structure HtmlDocument where
  dom : Dom
  nodup : dom.leaves.Nodup

namespace HtmlBinaryParser

def isRemoved (tag : Tag) : Bool := tag.name ∈ [.script, .style, .noscript, .template]

/-- The element is one of those that the parser looks for. -/
def isBlock (tag : Tag) : Bool :=
  match tag.name with
  | .heading _ | .p | .li | .pre | .table | .img => true
  | _ => false

def isRow (tag : Tag) : Bool := tag.name = .tr

def isCell (tag : Tag) : Bool := tag.name ∈ [.th, .td]

def isHeaderCell (tag : Tag) : Bool := tag.name = .th

/-- What is inside the element is part of its block. -/
def holds (tag : Tag) : Bool := tag.name ∈ [.li, .table]

/-- The text nodes that are not blank. -/
def visible (dom : Dom) : List TextNode := dom.leaves.filter fun node => strip node.content ≠ []

/-- `get_text(" ", strip=True)`. -/
def getText (dom : Dom) : List Char :=
  [' '].intercalate ((visible dom).map fun node => strip node.content)

/-! ## The loop -/

/-- The text of every cell of every row. -/
def tableRows (table : Dom) : Rows :=
  (table.findAll isRow []).map fun row =>
    (row.children.findAll isCell []).map fun cell => getText cell.children

/-- `str(value or default)`. -/
def orElse (value : Option (List Char)) (default : List Char) : List Char :=
  if value.getD [] = [] then default else value.getD []

/-- `f"html_{len(blocks)}"`. -/
def blockId (blocks : List ParsedBlock) : String := nextId "html_" blocks

def imageBlock (objectKey : NonEmptyStr) (headingPath : List String) (blocks : List ParsedBlock)
    (tag : Tag) : Except Error ParsedBlock := do
  let alt := strip (orElse tag.alt "embedded image".toList)
  let source := orElse tag.src ("image-" ++ toString blocks.length).toList
  let image ← ImageReference.make objectKey.value "image/unknown" (some (String.ofList source))
  ParsedBlock.make
    { id := blockId blocks
      kind := .image
      order := blocks.length
      text := alt
      headingPath
      image := some image }

/-- The kinds of the other blocks. -/
def textKind : TagName → BlockKind
  | .li => .list
  | .pre => .code
  | _ => .text

/-- A paragraph, a list item or a preformatted text. -/
def parseText (headingPath : List String) (blocks : List ParsedBlock)
    (node : Forest.Found Tag TextNode) : Except Error (List String × List ParsedBlock) :=
  let value := getText node.children
  if value = [] ∨ node.above.any holds = true then return (headingPath, blocks)
  else do
    let blocks ← emitText "html_" headingPath blocks (textKind node.kind.name) value
    return (headingPath, blocks)

/-- What the parser does with an element: the headings and the blocks after it. -/
def parseNode (objectKey : NonEmptyStr) (headingPath : List String) (blocks : List ParsedBlock)
    (node : Forest.Found Tag TextNode) : Except Error (List String × List ParsedBlock) :=
  match node.kind.name with
  | .heading level =>
    let value := getText node.children
    if value = [] then return (headingPath, blocks)
    else do
      let headingPath := headingPath.take level ++ [String.ofList value]
      let blocks ← emitText "html_" headingPath blocks .heading value
      return (headingPath, blocks)
  | .table =>
    let rows := keepRows (tableRows node.children)
    if rows = [] then return (headingPath, blocks)
    else do
      let block ← tableBlock (blockId blocks) blocks.length rows
        (!(node.children.findAll isHeaderCell []).isEmpty) headingPath
      return (headingPath, blocks ++ [block])
  | .img => do
    let block ← imageBlock objectKey headingPath blocks node.kind
    return (headingPath, blocks ++ [block])
  | _ => parseText headingPath blocks node

def parseNodes (objectKey : NonEmptyStr) (headingPath : List String) (blocks : List ParsedBlock) :
    List (Forest.Found Tag TextNode) → Except Error (List ParsedBlock)
  | [] => .ok blocks
  | node :: nodes => do
    let (headingPath, blocks) ← parseNode objectKey headingPath blocks node
    parseNodes objectKey headingPath blocks nodes

def parseBytes (objectKey : NonEmptyStr) (document : HtmlDocument) :
    Except Error ParsedPayload := do
  let blocks ← parseNodes objectKey [] [] ((document.dom.prune isRemoved).findAll isBlock [])
  return { blocks }

/-! ## What is kept -/

/-- The text nodes that the block of an element is made from. -/
def sources (node : Forest.Found Tag TextNode) : List TextNode :=
  match node.kind.name with
  | .heading _ => visible node.children
  | .table => (node.children.findAll isRow []).flatMap fun row =>
      (row.children.findAll isCell []).flatMap fun cell => visible cell.children
  | .p | .li | .pre => if node.above.any holds = true then [] else visible node.children
  | _ => []

/-- The element makes a block. -/
def emits (node : Forest.Found Tag TextNode) : Bool :=
  node.kind.name = .img || sources node ≠ []

/-- The text nodes of the blocks, in the order of the blocks. -/
def origins (dom : Dom) : List (List TextNode) :=
  (((dom.prune isRemoved).findAll isBlock []).filter emits).map sources

/-- The block has the texts of these nodes. -/
def HasTexts (nodes : List TextNode) (block : ParsedBlock) : Prop :=
  ∀ node ∈ nodes, strip node.content <:+: block.text

/-- A node under these elements is in the body, and not taken out of the tree. -/
def inBody (path : List Tag) : Bool :=
  path.all fun tag => !isRemoved tag && tag.name ≠ .head

/-- The text of every node of the body is in one block. -/
structure Keeps (dom : Dom) (blocks : List ParsedBlock) : Prop where
  texts : List.Forall₂ HasTexts (origins dom) blocks
  once : ∀ path node, (path, node) ∈ dom.paths → inBody path = true → strip node.content ≠ [] →
    (origins dom).countP (fun nodes => node ∈ nodes) = 1

/-- Under these elements of a table there is a row, and a cell in the row. -/
def inCell : List Tag → Bool
  | [] => false
  | tag :: path => (isRow tag && path.any isCell) || inCell path

/-- The element carries a text node into its block: `path` leads from the element to the node, and
`held` says that a list item or a table is above the element. -/
def carries (held : Bool) (tag : Tag) (path : List Tag) : Bool :=
  match tag.name with
  | .heading _ => true
  | .p | .li | .pre => !held
  | .table => inCell path
  | _ => false

/-- How many elements on the path to a text node carry it into a block. -/
def carriers (held : Bool) : List Tag → ℕ
  | [] => 0
  | tag :: path =>
    (if carries held tag path = true then 1 else 0) + carriers (held || holds tag) path

/-! ## The texts of the blocks -/

variable {dom : Dom} {node : TextNode} {found : Forest.Found Tag TextNode} {path : List Tag}
  {headingPath : List String}

theorem mem_visible : node ∈ visible dom ↔ node ∈ dom.leaves ∧ strip node.content ≠ [] := by
  rw [visible, List.mem_filter, decide_eq_true_eq]

theorem infix_getText (h : node ∈ visible dom) : strip node.content <:+: getText dom :=
  infix_intercalate (List.mem_map_of_mem (f := fun node : TextNode => strip node.content) h)

theorem getText_eq_nil_iff : getText dom = [] ↔ visible dom = [] := by
  constructor
  · intro h
    refine List.eq_nil_iff_forall_not_mem.2 fun node hnode => (mem_visible.1 hnode).2 ?_
    have hpart := infix_getText hnode
    rw [h] at hpart
    exact List.infix_nil.1 hpart
  · intro h
    rw [getText, h]
    rfl

theorem strip_getText_ne_nil (h : node ∈ visible dom) : strip (getText dom) ≠ [] := by
  refine strip_ne_nil_of_infix (infix_getText h) ?_
  rw [strip_strip]
  exact (mem_visible.1 h).2

theorem nonEmptyText_blockId (blocks : List ParsedBlock) :
    nonEmptyText (blockId blocks) = .ok (blockId blocks) :=
  nonEmptyText_append_number (by decide) (by rintro _ ⟨⟩; decide) _

/-- The text of a table has those of the nodes in its cells. -/
theorem exists_cell_of_mem_sources (htable : found.kind.name = .table)
    (h : node ∈ sources found) :
    ∃ row ∈ keepRows (tableRows found.children), ∃ cell ∈ row,
      strip node.content <:+: cell ∧ strip cell ≠ [] := by
  rw [sources, htable] at h
  obtain ⟨row, hrow, h⟩ := List.mem_flatMap.1 h
  obtain ⟨cell, hcell, h⟩ := List.mem_flatMap.1 h
  have htext : strip (getText cell.children) ≠ [] := strip_getText_ne_nil h
  have hne : getText cell.children ≠ [] := by
    intro hnil
    rw [hnil] at htext
    exact htext rfl
  refine ⟨_, List.mem_filter.2 ⟨List.mem_map_of_mem hrow, ?_⟩, _, List.mem_map_of_mem hcell,
    infix_getText h, htext⟩
  exact List.any_eq_true.2 ⟨_, List.mem_map_of_mem hcell, decide_eq_true hne⟩

theorem sources_eq_nil_of_keepRows (htable : found.kind.name = .table)
    (h : keepRows (tableRows found.children) = []) : sources found = [] := by
  refine List.eq_nil_iff_forall_not_mem.2 fun node hnode => ?_
  obtain ⟨row, hrow, -⟩ := exists_cell_of_mem_sources htable hnode
  rw [h] at hrow
  exact List.not_mem_nil hrow

theorem sources_ne_nil_of_keepRows (htable : found.kind.name = .table)
    (h : keepRows (tableRows found.children) ≠ []) : sources found ≠ [] := by
  obtain ⟨row, hrow⟩ := List.exists_mem_of_ne_nil _ h
  obtain ⟨hmem, hany⟩ := List.mem_filter.1 hrow
  obtain ⟨source, hsource, rfl⟩ := List.mem_map.1 hmem
  obtain ⟨cell, hcell, htext⟩ := List.any_eq_true.1 hany
  obtain ⟨element, helement, rfl⟩ := List.mem_map.1 hcell
  have hvisible : visible element.children ≠ [] :=
    mt getText_eq_nil_iff.2 (of_decide_eq_true htext)
  obtain ⟨node, hnode⟩ := List.exists_mem_of_ne_nil _ hvisible
  rw [sources, htable]
  refine List.ne_nil_of_mem (a := node) (List.mem_flatMap.2 ⟨source, hsource, ?_⟩)
  exact List.mem_flatMap.2 ⟨element, helement, hnode⟩

/-- The origins that an element adds. -/
def originsOf (node : Forest.Found Tag TextNode) : List (List TextNode) :=
  if emits node = true then [sources node] else []

theorem originsOf_none (hkind : found.kind.name ≠ .img) (h : sources found = []) :
    originsOf found = [] := by
  rw [originsOf, if_neg]
  simp [emits, hkind, h]

theorem originsOf_some (h : sources found ≠ []) : originsOf found = [sources found] := by
  rw [originsOf, if_pos]
  simp [emits, h]

/-- The rows of an element that is a table, if any of them has a text. -/
def tablesOf (node : Forest.Found Tag TextNode) : List Rows :=
  if node.kind.name = .table ∧ keepRows (tableRows node.children) ≠ [] then
    [keepRows (tableRows node.children)]
  else []

theorem tablesOf_eq_nil (hkind : found.kind.name ≠ .table) : tablesOf found = [] :=
  if_neg fun h => hkind h.1

/-- What an element does to the headings and the blocks. -/
structure Parsed (objectKey : NonEmptyStr) (headingPath : List String)
    (blocks : List ParsedBlock) (node : Forest.Found Tag TextNode) (headingPath' : List String)
    (added : List ParsedBlock) : Prop where
  headed : Headed headingPath'
  texts : List.Forall₂ HasTexts (originsOf node) added
  tables : HaveTables (tablesOf node) added
  parse : parseNode objectKey headingPath blocks node = .ok (headingPath', blocks ++ added)

variable {objectKey : NonEmptyStr} {blocks : List ParsedBlock}

theorem parsed_nothing (hheadings : Headed headingPath) (hkind : found.kind.name ≠ .img)
    (hsources : sources found = []) (htables : tablesOf found = [])
    (h : parseNode objectKey headingPath blocks found = .ok (headingPath, blocks)) :
    Parsed objectKey headingPath blocks found headingPath [] where
  headed := hheadings
  texts := by
    rw [originsOf_none hkind hsources]
    exact List.Forall₂.nil
  tables := by
    rw [htables]
    exact HaveTables.nil
  parse := by rw [h, List.append_nil]

/-- The block of a heading, a paragraph, a list item or a preformatted text. -/
theorem exists_emitVisible (blocks : List ParsedBlock) (kind : BlockKind)
    (hheadings : Headed headingPath) (hkind : kind ≠ .table ∧ kind ≠ .image)
    (hvisible : visible found.children ≠ []) (hsources : sources found = visible found.children) :
    ∃ block, List.Forall₂ HasTexts (originsOf found) [block] ∧ HaveTables [] [block] ∧
      emitText "html_" headingPath blocks kind (getText found.children) =
        .ok (blocks ++ [block]) := by
  obtain ⟨node, hnode⟩ := List.exists_mem_of_ne_nil _ hvisible
  obtain ⟨block, hemit, htext, hkindEq⟩ :=
    exists_emitText blocks (nonEmptyText_blockId blocks) hheadings
    hkind (strip_getText_ne_nil hnode)
  refine ⟨block, ?_, HaveTables.of_kind (by rw [hkindEq]; exact hkind.1), hemit⟩
  rw [originsOf_some (by rwa [hsources]), hsources]
  refine List.Forall₂.cons (fun node hnode => ?_) List.Forall₂.nil
  rw [htext]
  exact infix_getText hnode

theorem exists_parsed_heading {level : Fin 6} (hname : found.kind.name = .heading level)
    (hheadings : Headed headingPath) :
    ∃ headingPath' added, Parsed objectKey headingPath blocks found headingPath' added := by
  have hsources : sources found = visible found.children := by rw [sources, hname]
  have htables : tablesOf found = [] := tablesOf_eq_nil (by rw [hname]; exact nofun)
  have hkind : found.kind.name ≠ .img := by rw [hname]; exact nofun
  by_cases hvisible : visible found.children = []
  · refine ⟨headingPath, [], parsed_nothing hheadings hkind (hsources.trans hvisible) htables ?_⟩
    rw [parseNode, hname]
    exact if_pos (getText_eq_nil_iff.2 hvisible)
  · obtain ⟨node, hnode⟩ := List.exists_mem_of_ne_nil _ hvisible
    have hheaded := headed_append hheadings level (strip_getText_ne_nil hnode)
    obtain ⟨block, htexts, hnone, hemit⟩ :=
      exists_emitVisible blocks .heading hheaded ⟨nofun, nofun⟩ hvisible hsources
    refine ⟨_, [block], hheaded, htexts, htables ▸ hnone, ?_⟩
    rw [parseNode, hname]
    refine (if_neg (mt getText_eq_nil_iff.1 hvisible)).trans ?_
    exact bind_eq_ok.2 ⟨_, hemit, rfl⟩

theorem exists_parsed_table (hname : found.kind.name = .table) (hheadings : Headed headingPath) :
    ∃ headingPath' added, Parsed objectKey headingPath blocks found headingPath' added := by
  have hkind : found.kind.name ≠ .img := by rw [hname]; exact nofun
  by_cases hrows : keepRows (tableRows found.children) = []
  · refine ⟨headingPath, [], parsed_nothing hheadings hkind
      (sources_eq_nil_of_keepRows hname hrows) (if_neg fun h => h.2 hrows) ?_⟩
    rw [parseNode, hname]
    exact if_pos hrows
  · have hsources := sources_ne_nil_of_keepRows hname hrows
    obtain ⟨node, hnode⟩ := List.exists_mem_of_ne_nil _ hsources
    obtain ⟨row, hrow, cell, hcell, -, htext⟩ := exists_cell_of_mem_sources hname hnode
    obtain ⟨block, hmade⟩ := exists_tableBlock blocks.length hrow hcell htext
      (nonEmptyText_blockId blocks) hheadings
      (!(found.children.findAll isHeaderCell []).isEmpty)
    refine ⟨headingPath, [block], hheadings, ?_, ?_, ?_⟩
    · rw [originsOf_some hsources]
      refine List.Forall₂.cons (fun node hnode => ?_) List.Forall₂.nil
      obtain ⟨row, hrow, cell, hcell, hpart, -⟩ := exists_cell_of_mem_sources hname hnode
      rw [(isTableBlock_of_tableBlock hmade).text]
      exact hpart.trans (infix_tableText hrow hcell)
    · rw [tablesOf, if_pos ⟨hname, hrows⟩]
      exact HaveTables.singleton (isTableBlock_of_tableBlock hmade)
    · rw [parseNode, hname]
      refine (if_neg hrows).trans ?_
      exact bind_eq_ok.2 ⟨_, hmade, rfl⟩

theorem exists_imageBlock (blocks : List ParsedBlock) (hheadings : Headed headingPath)
    (tag : Tag) :
    ∃ block, imageBlock objectKey headingPath blocks tag = .ok block ∧ block.kind = .image := by
  have hmedia : nonEmptyText "image/unknown" = .ok "image/unknown" := by decide +kernel
  have himage : ∀ path, ∃ image,
      ImageReference.make objectKey.value "image/unknown" path = .ok image := by
    intro path
    rw [ImageReference.make, NonEmptyStr.make_value, NonEmptyStr.make_eq_ok hmedia]
    exact ⟨_, rfl⟩
  obtain ⟨image, himage⟩ := himage
    (some (String.ofList (orElse tag.src ("image-" ++ toString blocks.length).toList)))
  obtain ⟨block, hblock⟩ := ParsedBlock.exists_make
    { id := blockId blocks
      kind := .image
      order := blocks.length
      text := strip (orElse tag.alt "embedded image".toList)
      headingPath
      image := some image } (nonEmptyText_blockId blocks)
    { page_pos := nofun
      headings := hheadings
      box_page := fun h => absurd rfl h
      table_iff := ⟨fun h => absurd rfl h, nofun⟩
      image_iff := ⟨fun _ => rfl, fun _ => nofun⟩
      has_text := fun h => absurd rfl h }
  exact ⟨block, bind_eq_ok.2 ⟨image, himage, hblock⟩, (ParsedBlock.has_of_make hblock).kind⟩

theorem exists_parsed_image (hname : found.kind.name = .img) (hheadings : Headed headingPath) :
    ∃ headingPath' added, Parsed objectKey headingPath blocks found headingPath' added := by
  obtain ⟨block, hmade, hkind⟩ := exists_imageBlock blocks hheadings found.kind
  have horigins : originsOf found = [[]] := by
    rw [originsOf, if_pos (by simp [emits, hname]), sources, hname]
  refine ⟨headingPath, [block], hheadings, ?_, ?_, ?_⟩
  · rw [horigins]
    exact List.Forall₂.cons (fun node hnode => absurd hnode List.not_mem_nil) List.Forall₂.nil
  · rw [tablesOf_eq_nil (by rw [hname]; exact nofun)]
    exact HaveTables.of_kind (by rw [hkind]; exact nofun)
  · rw [parseNode, hname]
    exact bind_eq_ok.2 ⟨_, hmade, rfl⟩

theorem exists_parsed_text (hname : found.kind.name = .p ∨ found.kind.name = .li ∨
    found.kind.name = .pre) (hheadings : Headed headingPath) :
    ∃ headingPath' added, Parsed objectKey headingPath blocks found headingPath' added := by
  have hsources : sources found =
      if found.above.any holds = true then [] else visible found.children := by
    rw [sources]
    rcases hname with hname | hname | hname
    all_goals rw [hname]
  have hparse : parseNode objectKey headingPath blocks found =
      parseText headingPath blocks found := by
    rw [parseNode]
    rcases hname with hname | hname | hname
    all_goals rw [hname]
  have hkind : found.kind.name ≠ .img := by
    rcases hname with hname | hname | hname
    all_goals rw [hname]; exact nofun
  have htables : tablesOf found = [] := by
    refine tablesOf_eq_nil ?_
    rcases hname with hname | hname | hname
    all_goals rw [hname]; exact nofun
  have htextKind : textKind found.kind.name ≠ .table ∧ textKind found.kind.name ≠ .image := by
    rcases hname with hname | hname | hname
    all_goals rw [hname]; exact ⟨nofun, nofun⟩
  by_cases hskip : getText found.children = [] ∨ found.above.any holds = true
  · refine ⟨headingPath, [], parsed_nothing hheadings hkind ?_ htables
      (hparse.trans (if_pos hskip))⟩
    rw [hsources]
    rcases hskip with hblank | hheld
    · exact ite_eq_left_iff.2 fun _ => getText_eq_nil_iff.1 hblank
    · exact if_pos hheld
  · obtain ⟨hblank, hheld⟩ := not_or.1 hskip
    obtain ⟨block, htexts, hnone, hemit⟩ := exists_emitVisible blocks
      (textKind found.kind.name) hheadings htextKind (mt getText_eq_nil_iff.2 hblank)
      (hsources.trans (if_neg hheld))
    refine ⟨headingPath, [block], hheadings, htexts, htables ▸ hnone, ?_⟩
    refine hparse.trans ((if_neg hskip).trans ?_)
    exact bind_eq_ok.2 ⟨_, hemit, rfl⟩

/-- **What the parser does with one element.** -/
theorem exists_parsed (objectKey : NonEmptyStr) (blocks : List ParsedBlock)
    (hheadings : Headed headingPath) (hblock : isBlock found.kind = true) :
    ∃ headingPath' added, Parsed objectKey headingPath blocks found headingPath' added := by
  cases hname : found.kind.name with
  | heading level => exact exists_parsed_heading hname hheadings
  | table => exact exists_parsed_table hname hheadings
  | img => exact exists_parsed_image hname hheadings
  | p => exact exists_parsed_text (Or.inl hname) hheadings
  | li => exact exists_parsed_text (Or.inr (Or.inl hname)) hheadings
  | pre => exact exists_parsed_text (Or.inr (Or.inr hname)) hheadings
  | _ =>
    rw [isBlock, hname] at hblock
    cases hblock

/-- **The blocks of a document have the texts of their origins.** -/
theorem exists_parseNodes (objectKey : NonEmptyStr) (blocks : List ParsedBlock)
    {nodes : List (Forest.Found Tag TextNode)} (hblocks : ∀ node ∈ nodes, isBlock node.kind = true)
    (hheadings : Headed headingPath) :
    ∃ added, parseNodes objectKey headingPath blocks nodes = .ok (blocks ++ added) ∧
      List.Forall₂ HasTexts ((nodes.filter emits).map sources) added ∧
      HaveTables (nodes.flatMap tablesOf) added := by
  induction nodes generalizing headingPath blocks with
  | nil =>
    refine ⟨[], ?_, List.Forall₂.nil, HaveTables.nil⟩
    rw [List.append_nil]
    rfl
  | cons node nodes ih =>
    obtain ⟨hnode, hnodes⟩ := List.forall_mem_cons.1 hblocks
    obtain ⟨path, added, hparsed⟩ := exists_parsed objectKey blocks hheadings hnode
    obtain ⟨added', hparse, htexts, htables⟩ := ih (blocks ++ added) hnodes hparsed.headed
    refine ⟨added ++ added', ?_, ?_, hparsed.tables.append htables⟩
    · rw [← List.append_assoc]
      exact bind_eq_ok.2 ⟨_, hparsed.parse, hparse⟩
    · have hsplit : ((node :: nodes).filter emits).map sources =
          originsOf node ++ (nodes.filter emits).map sources := by
        rw [originsOf, List.filter_cons]
        split
        · rw [List.map_cons, List.singleton_append]
        · rfl
      rw [hsplit]
      exact List.rel_append hparsed.texts htexts

/-! ## The carriers of a text node -/

theorem inCell_iff : inCell path = true ↔ ∃ upper row middle cell lower,
    path = upper ++ row :: (middle ++ cell :: lower) ∧ isRow row = true ∧ isCell cell = true := by
  induction path with
  | nil => exact ⟨nofun, fun ⟨_, _, _, _, _, h, _⟩ => by simp at h⟩
  | cons tag path ih =>
    rw [inCell, Bool.or_eq_true, Bool.and_eq_true, ih]
    constructor
    · rintro (⟨hrow, hany⟩ | ⟨upper, row, middle, cell, lower, rfl, hrow, hcell⟩)
      · obtain ⟨cell, hmem, hcell⟩ := List.any_eq_true.1 hany
        obtain ⟨middle, lower, rfl⟩ := List.append_of_mem hmem
        exact ⟨[], tag, middle, cell, lower, rfl, hrow, hcell⟩
      · exact ⟨tag :: upper, row, middle, cell, lower, rfl, hrow, hcell⟩
    · rintro ⟨upper, row, middle, cell, lower, hpath, hrow, hcell⟩
      cases upper with
      | nil =>
        obtain ⟨rfl, rfl⟩ := List.cons.inj hpath
        refine Or.inl ⟨hrow, List.any_eq_true.2 ⟨cell, ?_, hcell⟩⟩
        exact List.mem_append_right _ List.mem_cons_self
      | cons first upper =>
        obtain ⟨rfl, rfl⟩ := List.cons.inj hpath
        exact Or.inr ⟨upper, row, middle, cell, lower, rfl, hrow, hcell⟩

theorem mem_leaves_of_mem_sources (h : node ∈ sources found) : node ∈ found.children.leaves := by
  have hvisible : ∀ {dom : Dom}, node ∈ visible dom → node ∈ dom.leaves :=
    fun hnode => (mem_visible.1 hnode).1
  rw [sources] at h
  split at h
  · exact hvisible h
  · obtain ⟨row, hrow, h⟩ := List.mem_flatMap.1 h
    obtain ⟨cell, hcell, h⟩ := List.mem_flatMap.1 h
    exact Forest.mem_leaves_of_findAll hrow (Forest.mem_leaves_of_findAll hcell (hvisible h))
  · split at h
    · exact absurd h List.not_mem_nil
    · exact hvisible h
  · split at h
    · exact absurd h List.not_mem_nil
    · exact hvisible h
  · split at h
    · exact absurd h List.not_mem_nil
    · exact hvisible h
  · exact absurd h List.not_mem_nil

/-- A table carries what is in a cell of a row. -/
theorem mem_cells_iff {table : Dom} (hnodup : table.leaves.Nodup)
    (hpath : (path, node) ∈ table.paths) (hvisible : strip node.content ≠ []) :
    (node ∈ (table.findAll isRow []).flatMap fun row =>
      (row.children.findAll isCell []).flatMap fun cell => visible cell.children) ↔
      inCell path = true := by
  rw [inCell_iff]
  constructor
  · intro h
    obtain ⟨row, hrow, h⟩ := List.mem_flatMap.1 h
    obtain ⟨cell, hcell, h⟩ := List.mem_flatMap.1 h
    obtain ⟨lower, hlower⟩ := Forest.exists_mem_paths (mem_visible.1 h).1
    obtain ⟨hisCell, middle, -, hmiddle⟩ := Forest.mem_paths_of_findAll hcell hlower
    obtain ⟨hisRow, upper, -, hupper⟩ := Forest.mem_paths_of_findAll hrow hmiddle
    exact ⟨upper, row.kind, middle, cell.kind, lower, Forest.path_unique hnodup hpath hupper,
      hisRow, hisCell⟩
  · rintro ⟨upper, row, middle, cell, lower, rfl, hrow, hcell⟩
    obtain ⟨found, hfound, -, hbelow⟩ := Forest.exists_findAll_of_mem_paths [] hrow hpath
    obtain ⟨found', hfound', -, hbelow'⟩ := Forest.exists_findAll_of_mem_paths [] hcell hbelow
    refine List.mem_flatMap.2 ⟨found, hfound, List.mem_flatMap.2 ⟨found', hfound', ?_⟩⟩
    exact mem_visible.2 ⟨Forest.mem_leaves_of_mem_paths hbelow', hvisible⟩

/-- **Which text nodes a block is made from.** -/
theorem mem_sources_iff (hnodup : found.children.leaves.Nodup)
    (hpath : (path, node) ∈ found.children.paths) (hvisible : strip node.content ≠ []) :
    node ∈ sources found ↔ carries (found.above.any holds) found.kind path = true := by
  have hmem : node ∈ visible found.children :=
    mem_visible.2 ⟨Forest.mem_leaves_of_mem_paths hpath, hvisible⟩
  rw [sources, carries]
  cases found.kind.name with
  | heading level => exact ⟨fun _ => rfl, fun _ => hmem⟩
  | table => exact mem_cells_iff hnodup hpath hvisible
  | p | li | pre =>
    cases found.above.any holds with
    | true => exact ⟨fun h => absurd h List.not_mem_nil, nofun⟩
    | false => exact ⟨fun _ => rfl, fun _ => hmem⟩
  | _ => exact ⟨fun h => absurd h List.not_mem_nil, nofun⟩

theorem carries_eq_false {tag : Tag} {held : Bool} (h : isBlock tag = false) :
    carries held tag path = false := by
  rw [isBlock] at h
  rw [carries]
  cases hname : tag.name with
  | heading | p | li | pre | table =>
    rw [hname] at h
    cases h
  | _ => rfl

theorem countP_sources_of_not_mem {above : List Tag} (h : node ∉ dom.leaves) :
    (dom.findAll isBlock above).countP (fun found => node ∈ sources found) = 0 := by
  refine List.countP_eq_zero.2 fun found hfound hmem => h ?_
  exact Forest.mem_leaves_of_findAll hfound (mem_leaves_of_mem_sources (of_decide_eq_true hmem))

/-- **A text node is in as many blocks as it has carriers.** -/
theorem countP_sources (above : List Tag) (hnodup : dom.leaves.Nodup)
    (hpath : (path, node) ∈ dom.paths) (hvisible : strip node.content ≠ []) :
    (dom.findAll isBlock above).countP (fun found => node ∈ sources found) =
      carriers (above.any holds) path := by
  induction dom generalizing above path with
  | nil => exact absurd hpath List.not_mem_nil
  | leaf other rest ih =>
    obtain ⟨hother, hrest⟩ := List.nodup_cons.1 hnodup
    rcases List.mem_cons.1 hpath with heq | hpath
    · obtain ⟨rfl, rfl⟩ := Prod.mk.inj heq
      rw [Forest.findAll, countP_sources_of_not_mem hother]
      rfl
    · exact ih above hrest hpath
  | node tag children rest ihChildren ihRest =>
    obtain ⟨hchildren, hrest, hdisjoint⟩ := List.nodup_append'.1 hnodup
    rw [Forest.findAll, List.countP_append, List.countP_append]
    rcases List.mem_append.1 hpath with hpath | hpath
    · obtain ⟨⟨lower, other⟩, hmem, heq⟩ := List.mem_map.1 hpath
      obtain ⟨hlower, hother⟩ : tag :: lower = path ∧ other = node := Prod.mk.inj heq
      rw [← hlower]
      rw [hother] at hmem
      have hnot : node ∉ rest.leaves := fun hin =>
        hdisjoint (Forest.mem_leaves_of_mem_paths hmem) hin
      have hown : (if isBlock tag = true then [(⟨above, tag, children⟩ :
          Forest.Found Tag TextNode)] else []).countP (fun found => node ∈ sources found) =
            if carries (above.any holds) tag lower = true then 1 else 0 := by
        cases hblock : isBlock tag with
        | false =>
          rw [carries_eq_false hblock]
          rfl
        | true =>
          rw [if_pos rfl, List.countP_singleton]
          refine if_congr ?_ rfl rfl
          rw [decide_eq_true_eq]
          exact mem_sources_iff hchildren hmem hvisible
      rw [hown, ihChildren (above ++ [tag]) hchildren hmem, countP_sources_of_not_mem hnot,
        carriers, List.any_append, Nat.add_zero]
      simp
    · have hnot : node ∉ children.leaves := fun hin =>
        hdisjoint hin (Forest.mem_leaves_of_mem_paths hpath)
      have hown : (if isBlock tag = true then [(⟨above, tag, children⟩ :
          Forest.Found Tag TextNode)] else []).countP (fun found => node ∈ sources found) = 0 := by
        refine List.countP_eq_zero.2 fun found hfound hmem => hnot ?_
        split at hfound
        · rw [List.mem_singleton.1 hfound] at hmem
          exact mem_leaves_of_mem_sources (of_decide_eq_true hmem)
        · exact absurd hfound List.not_mem_nil
      rw [hown, countP_sources_of_not_mem hnot, ihRest above hrest hpath, Nat.zero_add,
        Nat.zero_add]

theorem isBlock_of_mem_findAll {above : List Tag} (h : found ∈ dom.findAll isBlock above) :
    isBlock found.kind = true := by
  induction dom generalizing above with
  | nil => exact absurd h List.not_mem_nil
  | leaf other rest ih => exact ih h
  | node tag children rest ihChildren ihRest =>
    rw [Forest.findAll] at h
    rcases List.mem_append.1 h with h | h
    · split at h
      · rename_i hblock
        rw [List.mem_singleton.1 h]
        exact hblock
      · exact absurd h List.not_mem_nil
    · exact (List.mem_append.1 h).elim ihChildren ihRest

theorem nodup_leaves_prune (hnodup : dom.leaves.Nodup) :
    (dom.prune isRemoved).leaves.Nodup := by
  rw [← Forest.map_snd_paths] at hnodup ⊢
  rw [Forest.paths_prune]
  exact hnodup.sublist (List.filter_sublist.map _)

/-- How often a node of the body is in an origin. -/
theorem countP_origins (hnodup : dom.leaves.Nodup) (hpath : (path, node) ∈ dom.paths)
    (hbody : inBody path = true) (hvisible : strip node.content ≠ []) :
    (origins dom).countP (fun nodes => node ∈ nodes) = carriers false path := by
  have hkept : (path, node) ∈ (dom.prune isRemoved).paths := by
    rw [Forest.paths_prune]
    refine List.mem_filter.2 ⟨hpath, List.all_eq_true.2 fun tag htag => ?_⟩
    exact (Bool.and_eq_true_iff.1 (List.all_eq_true.1 hbody tag htag)).1
  have hcount : ((dom.prune isRemoved).findAll isBlock []).countP
      (fun found => node ∈ sources found) = carriers false path :=
    countP_sources [] (nodup_leaves_prune hnodup) hkept hvisible
  rw [← hcount, origins, List.countP_map, List.countP_filter]
  refine List.countP_congr fun found _ => ?_
  simp only [Function.comp, Bool.and_eq_true, decide_eq_true_eq]
  refine ⟨fun h => h.1, fun h => ⟨h, ?_⟩⟩
  simp [emits, List.ne_nil_of_mem h]

/-- The rows of the tables of a document that have a text. -/
def tables (document : HtmlDocument) : List Rows :=
  ((document.dom.prune isRemoved).findAll isBlock []).flatMap tablesOf

theorem exists_parseBytes_html (objectKey : NonEmptyStr) (document : HtmlDocument) :
    ∃ payload, parseBytes objectKey document = .ok payload ∧
      List.Forall₂ HasTexts (origins document.dom) payload.blocks ∧
      HaveTables (tables document) payload.blocks := by
  obtain ⟨added, hparse, htexts, htables⟩ := exists_parseNodes objectKey []
    (fun found hfound => isBlock_of_mem_findAll hfound) headed_nil
  exact ⟨{ blocks := added }, bind_eq_ok.2 ⟨added, hparse, rfl⟩, htexts, htables⟩

end HtmlBinaryParser

end Parsing
end Knowledge
end RagflowAgent
