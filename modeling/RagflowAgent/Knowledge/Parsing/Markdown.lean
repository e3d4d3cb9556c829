import RagflowAgent.Forest
import RagflowAgent.Knowledge.Parsing.Tables

/-!
# The parser of Markdown documents

The parser goes over the tokens of a document once.  A heading, a paragraph, a piece of code and
a table are emitted where they begin, and what a heading or a table has read is skipped.  At a
list item the parser emits the text that it finds among the next three tokens, and goes on with
the token after the list item, so that the text is met again.

* `parseFrom` is the loop, and `step` what it does at one token;
* a well-nested stream of tokens is written out from a `Forest`; `parse_forest` says what the loop
  emits for it, by induction on the forest, whatever the tokens after it are;
* `leads` counts the list items with a text among the next three tokens, and
  `parseBytes_keeps_iff` says that the contents are kept exactly once and in order if and only if
  there is none, and if no table is blank.
-/

namespace RagflowAgent
namespace Knowledge
namespace Parsing

open Chunking (BlockKind)
open ParsedBlock (Headed headed_nil headed_append)

/-- The types of the tokens of the tokenizer. -/
inductive TokenType where
  | headingOpen
  | headingClose
  | paragraphOpen
  | paragraphClose
  | bulletListOpen
  | bulletListClose
  | orderedListOpen
  | orderedListClose
  | listItemOpen
  | listItemClose
  | blockquoteOpen
  | blockquoteClose
  | tableOpen
  | tableClose
  | theadOpen
  | theadClose
  | tbodyOpen
  | tbodyClose
  | trOpen
  | trClose
  | thOpen
  | thClose
  | tdOpen
  | tdClose
  | inline
  | fence
  | codeBlock
  | htmlBlock
  | hr
  deriving DecidableEq, Repr

/-- A token.  The tag of a heading is `h1` to `h6`, and `level` is its digit, less one. -/
structure Token where
  type : TokenType
  level : Fin 6 := 0
  content : List Char := []

namespace MarkdownBinaryParser

/-! ## The loop -/

/-- The text of the first inline token among the next three, or the empty text. -/
def inlineText (tokens : List Token) : List Char :=
  match (tokens.take 3).find? fun candidate => candidate.type = .inline with
  | some candidate => strip candidate.content
  | none => []

/-- The rows that have been read, and the cells of the one that is open. -/
abbrev TableState := Rows × Option (List (List Char))

/-- One round of the loop in `_table`. -/
def tableStep (state : TableState) (current : Token) : TableState :=
  match current.type, state.2 with
  | .trOpen, _ => (state.1, some [])
  | .inline, some cells => (state.1, some (cells ++ [strip current.content]))
  | .trClose, some cells => (state.1 ++ [cells], none)
  | _, _ => state

/-- `_table`: the rows, and how many tokens have been read. -/
def tableRows (state : TableState) (consumed : ℕ) : List Token → Rows × ℕ
  | [] => (state.1, consumed)
  | current :: tokens =>
    if current.type = .tableClose then (state.1, consumed + 1)
    else tableRows (tableStep state current) (consumed + 1) tokens

/-- `f"md_{len(blocks)}"`. -/
def blockId (blocks : List ParsedBlock) : String := nextId "md_" blocks

def emit (headingPath : List String) (blocks : List ParsedBlock) (kind : BlockKind)
    (text : List Char) : Except Error (List ParsedBlock) :=
  emitText "md_" headingPath blocks kind text

/-- What is emitted at the beginning of a paragraph or of a list item. -/
def emitInline (headingPath : List String) (blocks : List ParsedBlock) (kind : BlockKind)
    (tokens : List Token) : Except Error (List ParsedBlock) :=
  if inlineText tokens = [] then .ok blocks
  else emit headingPath blocks kind (inlineText tokens)

/-- One round of the loop: how many of the next tokens are skipped, the headings and the blocks. -/
def step (headingPath : List String) (blocks : List ParsedBlock) (current : Token)
    (tokens : List Token) : Except Error (ℕ × List String × List ParsedBlock) :=
  match current.type with
  | .headingOpen =>
    match tokens with
    | [] => return (0, headingPath, blocks)
    | headingToken :: _ =>
      let value := strip headingToken.content
      if value = [] then return (2, headingPath, blocks)
      else do
        let headingPath := headingPath.take current.level ++ [String.ofList value]
        let blocks ← emit headingPath blocks .heading value
        return (2, headingPath, blocks)
  | .paragraphOpen => do
    let blocks ← emitInline headingPath blocks .text tokens
    return (0, headingPath, blocks)
  | .listItemOpen => do
    let blocks ← emitInline headingPath blocks .list tokens
    return (0, headingPath, blocks)
  | .fence | .codeBlock =>
    if strip current.content = [] then return (0, headingPath, blocks)
    else do
      let blocks ← emit headingPath blocks .code (rstrip current.content)
      return (0, headingPath, blocks)
  | .tableOpen =>
    let (rows, consumed) := tableRows ([], none) 0 tokens
    if rows = [] then return (consumed, headingPath, blocks)
    else do
      let block ← tableBlock (blockId blocks) blocks.length rows true headingPath
      return (consumed, headingPath, blocks ++ [block])
  | _ => return (0, headingPath, blocks)

/-- The loop; the first `skip` tokens have been read already. -/
def parseFrom : ℕ → List String → List ParsedBlock → List Token → Except Error (List ParsedBlock)
  | _, _, blocks, [] => .ok blocks
  | skip + 1, headingPath, blocks, _ :: tokens => parseFrom skip headingPath blocks tokens
  | 0, headingPath, blocks, current :: tokens => do
    let (skip, headingPath, blocks) ← step headingPath blocks current tokens
    parseFrom skip headingPath blocks tokens

/-- The tokens of the source, which is `none` when it is not UTF-8. -/
def parseBytes (source : Option (List Token)) : Except Error ParsedPayload :=
  match source with
  | none => .error (.conflict "Markdown source must be valid UTF-8" "parser_encoding_invalid")
  | some tokens => do
    let blocks ← parseFrom 0 [] [] tokens
    return { blocks }

end MarkdownBinaryParser

/-! ## Well-nested streams -/

/-- What has blocks in it. -/
inductive Container where
  | bulletList
  | orderedList
  | listItem
  | blockquote
  deriving DecidableEq, Repr

namespace Container

def opening : Container → Token
  | bulletList => { type := .bulletListOpen }
  | orderedList => { type := .orderedListOpen }
  | listItem => { type := .listItemOpen }
  | blockquote => { type := .blockquoteOpen }

def closing : Container → Token
  | bulletList => { type := .bulletListClose }
  | orderedList => { type := .orderedListClose }
  | listItem => { type := .listItemClose }
  | blockquote => { type := .blockquoteClose }

end Container

/-- A block that has no blocks in it. -/
inductive Leaf where
  | heading (level : Fin 6) (content : List Char)
  | paragraph (content : List Char)
  | fence (content : List Char)
  | codeBlock (content : List Char)
  | htmlBlock (content : List Char)
  | hr
  | table (header : List (List Char)) (body : Rows)

namespace Leaf

/-- A cell of the header or of the body. -/
def cellTokens (opening closing : TokenType) (content : List Char) : List Token :=
  [{ type := opening }, { type := .inline, content }, { type := closing }]

def rowTokens (opening closing : TokenType) (row : List (List Char)) : List Token :=
  { type := .trOpen } :: row.flatMap (cellTokens opening closing) ++ [{ type := .trClose }]

/-- The rows under the header, if there are any. -/
def bodyTokens (body : Rows) : List Token :=
  if body = [] then []
  else { type := .tbodyOpen } :: body.flatMap (rowTokens .tdOpen .tdClose) ++
    [{ type := .tbodyClose }]

/-- What a table has between its first and its last token. -/
def innerTokens (header : List (List Char)) (body : Rows) : List Token :=
  { type := .theadOpen } ::
    (rowTokens .thOpen .thClose header ++ { type := .theadClose } :: bodyTokens body)

/-- What a table has after its first token. -/
def tableTokens (header : List (List Char)) (body : Rows) : List Token :=
  innerTokens header body ++ [{ type := .tableClose }]

def tokens : Leaf → List Token
  | heading level content =>
    [{ type := .headingOpen, level }, { type := .inline, content },
      { type := .headingClose, level }]
  | paragraph content =>
    [{ type := .paragraphOpen }, { type := .inline, content }, { type := .paragraphClose }]
  | fence content => [{ type := .fence, content }]
  | codeBlock content => [{ type := .codeBlock, content }]
  | htmlBlock content => [{ type := .htmlBlock, content }]
  | hr => [{ type := .hr }]
  | table header body => { type := .tableOpen } :: tableTokens header body

/-- The inline, code and table-cell contents. -/
def contents : Leaf → List (List Char)
  | heading _ content => [content]
  | paragraph content => [content]
  | fence content => [content]
  | codeBlock content => [content]
  | htmlBlock _ => []
  | hr => []
  | table header body => (header :: body).flatten

/-- The contents that are not blank. -/
def texts (leaf : Leaf) : List (List Char) :=
  leaf.contents.filter fun content => strip content ≠ []

/-- A table has some content that is not blank. -/
def Readable : Leaf → Prop
  | table header body => ∃ row ∈ header :: body, ∃ cell ∈ row, strip cell ≠ []
  | _ => True

end Leaf

namespace MarkdownBinaryParser

/-- The stream of the tokens. -/
def stream : Forest Container Leaf → List Token
  | .nil => []
  | .leaf item rest => item.tokens ++ stream rest
  | .node kind children rest =>
    kind.opening :: (stream children ++ kind.closing :: stream rest)

/-- The contents that are not blank, those of one leaf together. -/
def groups (forest : Forest Container Leaf) : List (List (List Char)) :=
  (forest.leaves.map Leaf.texts).filter fun contents => contents ≠ []

/-- The blocks hold the contents: one block for every leaf that has any, in the same order. -/
def Keeps (forest : Forest Container Leaf) (blocks : List ParsedBlock) : Prop :=
  List.Forall₂ (fun contents block => ∀ content ∈ contents, strip content <:+: block.text)
    (groups forest) blocks

/-- How many list items have a text among the next three tokens. -/
def leads : List Token → ℕ
  | [] => 0
  | current :: tokens =>
    (if current.type = .listItemOpen ∧ inlineText tokens ≠ [] then 1 else 0) + leads tokens

/-! ## What the loop emits -/

variable {headingPath headingPath' : List String} {blocks added : List ParsedBlock}
  {tokens rest : List Token} {kind : BlockKind} {text content : List Char}

theorem nonEmptyText_blockId (blocks : List ParsedBlock) :
    nonEmptyText (blockId blocks) = .ok (blockId blocks) :=
  nonEmptyText_append_number (by decide) (by rintro _ ⟨⟩; decide) _

theorem exists_emit (blocks : List ParsedBlock) (kind : BlockKind)
    (hheadings : Headed headingPath) (hkind : kind ≠ .table ∧ kind ≠ .image)
    (htext : strip text ≠ []) :
    ∃ block, emit headingPath blocks kind text = .ok (blocks ++ [block]) ∧ block.text = text ∧
      block.kind = kind :=
  exists_emitText blocks (nonEmptyText_blockId blocks) hheadings hkind htext

/-- What is skipped changes nothing. -/
theorem parseFrom_skip (read : List Token) :
    parseFrom read.length headingPath blocks (read ++ rest) =
      parseFrom 0 headingPath blocks rest := by
  induction read with
  | nil => rfl
  | cons current read ih => exact ih

theorem parseFrom_of_step {current : Token} (skip : ℕ)
    (h : step headingPath blocks current tokens = .ok (skip, headingPath', added)) :
    parseFrom 0 headingPath blocks (current :: tokens) =
      parseFrom skip headingPath' added tokens := by
  rw [parseFrom, h]
  rfl

/-- The tokens at which nothing happens. -/
def isQuiet : TokenType → Bool
  | .headingOpen | .paragraphOpen | .listItemOpen | .fence | .codeBlock | .tableOpen => false
  | _ => true

theorem parseFrom_quiet {current : Token} (h : isQuiet current.type = true) :
    parseFrom 0 headingPath blocks (current :: rest) =
      parseFrom 0 headingPath blocks rest := by
  refine parseFrom_of_step 0 ?_
  unfold step
  cases htype : current.type with
  | headingOpen | paragraphOpen | listItemOpen | fence | codeBlock | tableOpen =>
    rw [htype] at h
    cases h
  | _ => rfl

/-! ### Tables -/

variable {rows body : Rows} {cells row header : List (List Char)} {consumed : ℕ}
  {state : TableState}

/-- The tokens at which the loop over a table does nothing. -/
def isTableQuiet : TokenType → Bool
  | .trOpen | .inline | .trClose => false
  | _ => true

theorem tableStep_quiet {current : Token} (h : isTableQuiet current.type = true) :
    tableStep state current = state := by
  unfold tableStep
  cases htype : current.type with
  | trOpen | inline | trClose =>
    rw [htype] at h
    cases h
  | _ => rfl

/-- The loop goes on to the end of the table. -/
theorem tableRows_append {read : List Token} (h : ∀ token ∈ read, token.type ≠ .tableClose) :
    tableRows state consumed (read ++ rest) =
      tableRows (read.foldl tableStep state) (consumed + read.length) rest := by
  induction read generalizing state consumed with
  | nil => rfl
  | cons current read ih =>
    obtain ⟨hcurrent, hread⟩ := List.forall_mem_cons.1 h
    have hlength : consumed + 1 + read.length = consumed + (current :: read).length := by
      rw [List.length_cons]
      omega
    rw [List.cons_append, tableRows, if_neg hcurrent, ih hread, List.foldl_cons, hlength]

theorem foldl_cellTokens {opening closing : TokenType} (hopening : isTableQuiet opening = true)
    (hclosing : isTableQuiet closing = true) (row : List (List Char)) :
    (row.flatMap (Leaf.cellTokens opening closing)).foldl tableStep (rows, some cells) =
      (rows, some (cells ++ row.map strip)) := by
  induction row generalizing cells with
  | nil => simp
  | cons content row ih =>
    have hcell : (Leaf.cellTokens opening closing content).foldl tableStep (rows, some cells) =
        (rows, some (cells ++ [strip content])) := by
      rw [Leaf.cellTokens, List.foldl_cons, tableStep_quiet hopening, List.foldl_cons,
        List.foldl_cons, tableStep_quiet hclosing]
      rfl
    rw [List.flatMap_cons, List.foldl_append, hcell, ih]
    simp

theorem foldl_rowTokens {opening closing : TokenType} {unclosed : Option (List (List Char))}
    (hopening : isTableQuiet opening = true) (hclosing : isTableQuiet closing = true)
    (row : List (List Char)) :
    (Leaf.rowTokens opening closing row).foldl tableStep (rows, unclosed) =
      (rows ++ [row.map strip], none) := by
  have hopen : tableStep (rows, unclosed) { type := .trOpen } = (rows, some []) := rfl
  rw [Leaf.rowTokens, List.cons_append, List.foldl_cons, hopen, List.foldl_append,
    foldl_cellTokens hopening hclosing]
  rfl

theorem foldl_bodyTokens (body : Rows) :
    (Leaf.bodyTokens body).foldl tableStep (rows, none) =
      (rows ++ body.map (List.map strip), none) := by
  have hrows : ∀ rows, (body.flatMap (Leaf.rowTokens .tdOpen .tdClose)).foldl tableStep
      (rows, none) = (rows ++ body.map (List.map strip), none) := by
    induction body with
    | nil => simp
    | cons row body ih =>
      intro rows
      rw [List.flatMap_cons, List.foldl_append, foldl_rowTokens rfl rfl, ih]
      simp
  rw [Leaf.bodyTokens]
  split
  · rename_i hnil
    rw [hnil]
    simp
  · rw [List.cons_append, List.foldl_cons, tableStep_quiet rfl, List.foldl_append, hrows]
    rfl

/-- The types of the tokens inside a table. -/
def innerTypes : List TokenType :=
  [.theadOpen, .theadClose, .tbodyOpen, .tbodyClose, .trOpen, .trClose, .thOpen, .thClose,
    .tdOpen, .tdClose, .inline]

theorem ne_of_mem_innerTypes :
    ∀ type ∈ innerTypes, type ≠ .tableClose ∧ type ≠ .listItemOpen := by decide

theorem type_of_mem_rowTokens {opening closing : TokenType} (hopening : opening ∈ innerTypes)
    (hclosing : closing ∈ innerTypes) :
    ∀ token ∈ Leaf.rowTokens opening closing row, token.type ∈ innerTypes := by
  intro token htoken
  rw [Leaf.rowTokens, List.cons_append] at htoken
  rcases List.mem_cons.1 htoken with rfl | htoken
  · decide
  rcases List.mem_append.1 htoken with htoken | htoken
  · obtain ⟨content, -, htoken⟩ := List.mem_flatMap.1 htoken
    simp only [Leaf.cellTokens, List.mem_cons, List.not_mem_nil, or_false] at htoken
    rcases htoken with rfl | rfl | rfl
    · exact hopening
    · exact (by decide : TokenType.inline ∈ innerTypes)
    · exact hclosing
  · rw [List.mem_singleton.1 htoken]
    decide

theorem type_of_mem_bodyTokens : ∀ token ∈ Leaf.bodyTokens body, token.type ∈ innerTypes := by
  intro token htoken
  rw [Leaf.bodyTokens] at htoken
  split at htoken
  · exact absurd htoken List.not_mem_nil
  rw [List.cons_append] at htoken
  rcases List.mem_cons.1 htoken with rfl | htoken
  · decide
  rcases List.mem_append.1 htoken with htoken | htoken
  · obtain ⟨row, -, htoken⟩ := List.mem_flatMap.1 htoken
    exact type_of_mem_rowTokens (by decide) (by decide) token htoken
  · rw [List.mem_singleton.1 htoken]
    decide

theorem type_of_mem_innerTokens :
    ∀ token ∈ Leaf.innerTokens header body, token.type ∈ innerTypes := by
  intro token htoken
  rcases List.mem_cons.1 htoken with rfl | htoken
  · decide
  rcases List.mem_append.1 htoken with htoken | htoken
  · exact type_of_mem_rowTokens (by decide) (by decide) token htoken
  rcases List.mem_cons.1 htoken with rfl | htoken
  · decide
  · exact type_of_mem_bodyTokens token htoken

/-- **The rows of a table, and all its tokens, are read.** -/
theorem tableRows_tableTokens (header : List (List Char)) (body : Rows) (rest : List Token) :
    tableRows ([], none) 0 (Leaf.tableTokens header body ++ rest) =
      ((header :: body).map (List.map strip), (Leaf.tableTokens header body).length) := by
  have hread : ∀ token ∈ Leaf.innerTokens header body, token.type ≠ .tableClose :=
    fun token htoken => (ne_of_mem_innerTypes _ (type_of_mem_innerTokens token htoken)).1
  have hfold : (Leaf.innerTokens header body).foldl tableStep ([], none) =
      ((header :: body).map (List.map strip), none) := by
    rw [Leaf.innerTokens, List.foldl_cons, tableStep_quiet rfl, List.foldl_append,
      foldl_rowTokens rfl rfl, List.foldl_cons, tableStep_quiet rfl, foldl_bodyTokens]
    rfl
  rw [Leaf.tableTokens, List.append_assoc, tableRows_append hread, hfold, List.singleton_append,
    tableRows, if_pos rfl, List.length_append, List.length_singleton, Nat.zero_add]

/-! ### Leaves -/

/-- The rows of a leaf that is a table. -/
def tablesOf : Leaf → List Rows
  | .table header body => [(header :: body).map (List.map strip)]
  | _ => []

/-- The text that the loop emits for a leaf. -/
def emitted : Leaf → List (List Char)
  | .heading _ content | .paragraph content => if strip content = [] then [] else [strip content]
  | .fence content | .codeBlock content => if strip content = [] then [] else [rstrip content]
  | .htmlBlock _ | .hr => []
  | .table header body => [tableText ((header :: body).map (List.map strip))]

theorem strip_inlineText (tokens : List Token) :
    strip (inlineText tokens) = inlineText tokens := by
  rw [inlineText]
  split
  · exact strip_strip _
  · rfl

theorem exists_emitInline (blocks : List ParsedBlock) (kind : BlockKind) (tokens : List Token)
    (hheadings : Headed headingPath) (hkind : kind ≠ .table ∧ kind ≠ .image) :
    ∃ added, emitInline headingPath blocks kind tokens = .ok (blocks ++ added) ∧
      added.map (fun block => block.text) =
        (if inlineText tokens = [] then [] else [inlineText tokens]) ∧
      HaveTables [] added := by
  by_cases hblank : inlineText tokens = []
  · refine ⟨[], ?_, by rw [if_pos hblank]; rfl, HaveTables.nil⟩
    rw [emitInline, if_pos hblank, List.append_nil]
  · have htext : strip (inlineText tokens) ≠ [] := by rwa [strip_inlineText]
    obtain ⟨block, hemit, hblock, hsame⟩ := exists_emit blocks kind hheadings hkind htext
    refine ⟨[block], ?_, by rw [if_neg hblank, List.map_singleton, hblock],
      HaveTables.of_kind (by rw [hsame]; exact hkind.1)⟩
    rw [emitInline, if_neg hblank, hemit]

theorem step_code {current : Token} (htype : current.type = .fence ∨ current.type = .codeBlock) :
    step headingPath blocks current tokens =
      if strip current.content = [] then return (0, headingPath, blocks)
      else do
        let blocks ← emit headingPath blocks .code (rstrip current.content)
        return (0, headingPath, blocks) := by
  unfold step
  rcases htype with htype | htype
  all_goals simp only [htype]

theorem step_table (header : List (List Char)) (body : Rows) (rest : List Token) :
    step headingPath blocks { type := .tableOpen } (Leaf.tableTokens header body ++ rest) = do
      let block ← tableBlock (blockId blocks) blocks.length
        ((header :: body).map (List.map strip)) true headingPath
      return ((Leaf.tableTokens header body).length, headingPath, blocks ++ [block]) := by
  have hne : (header :: body).map (List.map strip) ≠ [] := List.cons_ne_nil _ _
  unfold step
  simp only [tableRows_tableTokens]
  rw [if_neg hne]

theorem parse_code (blocks : List ParsedBlock) (current : Token)
    (htype : current.type = .fence ∨ current.type = .codeBlock) (hheadings : Headed headingPath) :
    ∃ added,
      added.map (fun block => block.text) =
        (if strip current.content = [] then [] else [rstrip current.content]) ∧
      HaveTables [] added ∧
      ∀ rest, parseFrom 0 headingPath blocks (current :: rest) =
        parseFrom 0 headingPath (blocks ++ added) rest := by
  by_cases hblank : strip current.content = []
  · refine ⟨[], by rw [if_pos hblank]; rfl, HaveTables.nil, fun rest => parseFrom_of_step 0 ?_⟩
    rw [step_code htype, if_pos hblank, List.append_nil]
    rfl
  · obtain ⟨block, hemit, hblock, hsame⟩ := exists_emit blocks .code hheadings
      ⟨nofun, nofun⟩ (strip_rstrip_ne_nil hblank)
    refine ⟨[block], by rw [if_neg hblank, List.map_singleton, hblock],
      HaveTables.of_kind (by rw [hsame]; exact nofun), fun rest => ?_⟩
    refine parseFrom_of_step 0 ?_
    rw [step_code htype, if_neg hblank, hemit]
    rfl

/-- **What the loop does with a leaf**, whatever comes after it. -/
theorem parse_leaf (blocks : List ParsedBlock) (item : Leaf) (hitem : item.Readable)
    (hheadings : Headed headingPath) :
    ∃ headingPath' added, Headed headingPath' ∧
      added.map (fun block => block.text) = emitted item ∧ HaveTables (tablesOf item) added ∧
      ∀ rest, parseFrom 0 headingPath blocks (item.tokens ++ rest) =
        parseFrom 0 headingPath' (blocks ++ added) rest := by
  cases item with
  | heading level content =>
    by_cases hblank : strip content = []
    · refine ⟨headingPath, [], hheadings, by rw [emitted, if_pos hblank]; rfl, HaveTables.nil,
        fun rest => ?_⟩
      rw [List.append_nil]
      refine (parseFrom_of_step 2 ?_).trans (parseFrom_skip [_, _])
      exact if_pos hblank
    · have htext : strip (strip content) ≠ [] := by rwa [strip_strip]
      have hheaded := headed_append hheadings level htext
      obtain ⟨block, hemit, hblock, hsame⟩ := exists_emit blocks .heading hheaded
        ⟨nofun, nofun⟩ htext
      refine ⟨_, [block], hheaded, ?_, HaveTables.of_kind (by rw [hsame]; exact nofun),
        fun rest => ?_⟩
      · rw [emitted, if_neg hblank, List.map_singleton, hblock]
      · refine (parseFrom_of_step 2 ?_).trans (parseFrom_skip [_, _])
        refine (if_neg hblank).trans ?_
        exact bind_eq_ok.2 ⟨_, hemit, rfl⟩
  | paragraph content =>
    obtain ⟨added, hemit, hadded, hnone⟩ := exists_emitInline blocks .text
      [{ type := .inline, content }] hheadings ⟨nofun, nofun⟩
    refine ⟨headingPath, added, hheadings, hadded, hnone, fun rest => ?_⟩
    have hinline : parseFrom 0 headingPath (blocks ++ added)
        (({ type := .inline, content } : Token) :: { type := .paragraphClose } :: rest) =
          parseFrom 0 headingPath (blocks ++ added) rest := by
      rw [parseFrom_quiet rfl, parseFrom_quiet rfl]
    refine (parseFrom_of_step 0 ?_).trans hinline
    exact bind_eq_ok.2 ⟨_, hemit, rfl⟩
  | fence content =>
    obtain ⟨added, hadded, hnone, hparse⟩ :=
      parse_code blocks { type := .fence, content } (Or.inl rfl)
      hheadings
    exact ⟨headingPath, added, hheadings, hadded, hnone, hparse⟩
  | codeBlock content =>
    obtain ⟨added, hadded, hnone, hparse⟩ := parse_code blocks { type := .codeBlock, content }
      (Or.inr rfl) hheadings
    exact ⟨headingPath, added, hheadings, hadded, hnone, hparse⟩
  | htmlBlock content =>
    refine ⟨headingPath, [], hheadings, rfl, HaveTables.nil, fun rest => ?_⟩
    rw [List.append_nil]
    exact parseFrom_quiet rfl
  | hr =>
    refine ⟨headingPath, [], hheadings, rfl, HaveTables.nil, fun rest => ?_⟩
    rw [List.append_nil]
    exact parseFrom_quiet rfl
  | table header body =>
    obtain ⟨row, hrow, cell, hcell, htext⟩ := hitem
    have hstripped : strip (strip cell) ≠ [] := by rwa [strip_strip]
    obtain ⟨block, hblock⟩ := exists_tableBlock blocks.length
      (List.mem_map_of_mem hrow : row.map strip ∈ (header :: body).map (List.map strip))
      (List.mem_map_of_mem hcell) hstripped (nonEmptyText_blockId blocks) hheadings true
    refine ⟨headingPath, [block], hheadings, ?_,
      HaveTables.singleton (isTableBlock_of_tableBlock hblock), fun rest => ?_⟩
    · rw [emitted, List.map_singleton, (isTableBlock_of_tableBlock hblock).text]
    · refine (parseFrom_of_step (Leaf.tableTokens header body).length ?_).trans
        (parseFrom_skip _)
      exact (step_table header body rest).trans (bind_eq_ok.2 ⟨_, hblock, rfl⟩)

/-- A blank table is rejected. -/
theorem parse_leaf_error (item : Leaf) (hitem : ¬ item.Readable) (rest : List Token) :
    ∀ result, parseFrom 0 headingPath blocks (item.tokens ++ rest) ≠ .ok result := by
  cases item with
  | table header body =>
    intro result h
    obtain ⟨_, hstep, -⟩ := bind_eq_ok.1 h
    have hblank : ∀ row ∈ (header :: body).map (List.map strip), ∀ cell ∈ row, strip cell = [] := by
      intro row hrow cell hcell
      obtain ⟨source, hsource, rfl⟩ := List.mem_map.1 hrow
      obtain ⟨content, hcontent, rfl⟩ := List.mem_map.1 hcell
      rw [strip_strip]
      by_contra htext
      exact hitem ⟨source, hsource, content, hcontent, htext⟩
    obtain ⟨block, hblock, -⟩ :=
      bind_eq_ok.1 ((step_table header body rest).symm.trans hstep)
    exact tableBlock_blank hblank hblock
  | _ => exact absurd trivial hitem

/-! ### Forests -/

/-- The text that a list item emits when these tokens come after it. -/
def leadTexts (tokens : List Token) : List (List Char) :=
  if inlineText tokens = [] then [] else [inlineText tokens]

/-- The texts that the loop emits for a forest when these tokens come after it. -/
def emittedFrom : Forest Container Leaf → List Token → List (List Char)
  | .nil, _ => []
  | .leaf item rest, after => emitted item ++ emittedFrom rest after
  | .node kind children rest, after =>
    (if kind = .listItem then
      leadTexts (stream children ++ kind.closing :: (stream rest ++ after)) else []) ++
      (emittedFrom children (kind.closing :: (stream rest ++ after)) ++ emittedFrom rest after)

theorem parse_opening (blocks : List ParsedBlock) (container : Container)
    (hheadings : Headed headingPath) (tokens : List Token) :
    ∃ added,
      added.map (fun block => block.text) =
        (if container = .listItem then leadTexts tokens else []) ∧
      HaveTables [] added ∧
      parseFrom 0 headingPath blocks (container.opening :: tokens) =
        parseFrom 0 headingPath (blocks ++ added) tokens := by
  cases container with
  | listItem =>
    obtain ⟨added, hemit, hadded, hnone⟩ := exists_emitInline blocks .list tokens hheadings
      ⟨nofun, nofun⟩
    refine ⟨added, hadded, hnone, parseFrom_of_step 0 ?_⟩
    exact bind_eq_ok.2 ⟨_, hemit, rfl⟩
  | bulletList | orderedList | blockquote =>
    refine ⟨[], rfl, HaveTables.nil, ?_⟩
    rw [List.append_nil]
    exact parseFrom_quiet rfl

theorem parse_closing (container : Container) :
    parseFrom 0 headingPath blocks (container.closing :: rest) =
      parseFrom 0 headingPath blocks rest := by
  refine parseFrom_quiet ?_
  cases container <;> rfl

/-- **What the loop emits for a forest**, by induction on the forest. -/
theorem parse_forest (blocks : List ParsedBlock) (forest : Forest Container Leaf)
    (hforest : ∀ item ∈ forest.leaves, item.Readable) (hheadings : Headed headingPath)
    (after : List Token) :
    ∃ headingPath' added, Headed headingPath' ∧
      added.map (fun block => block.text) = emittedFrom forest after ∧
      HaveTables (forest.leaves.flatMap tablesOf) added ∧
      parseFrom 0 headingPath blocks (stream forest ++ after) =
        parseFrom 0 headingPath' (blocks ++ added) after := by
  induction forest generalizing headingPath blocks after with
  | nil =>
    refine ⟨headingPath, [], hheadings, rfl, HaveTables.nil, ?_⟩
    rw [List.append_nil]
    rfl
  | leaf item rest ih =>
    obtain ⟨hitem, hrest⟩ := List.forall_mem_cons.1 hforest
    obtain ⟨path, added, hpath, hadded, htables, hparse⟩ :=
      parse_leaf blocks item hitem hheadings
    obtain ⟨path', added', hpath', hadded', htables', hparse'⟩ :=
      ih (blocks ++ added) hrest hpath after
    refine ⟨path', added ++ added', hpath', ?_, htables.append htables', ?_⟩
    · rw [List.map_append, hadded, hadded', emittedFrom]
    · rw [stream, List.append_assoc, hparse, hparse', List.append_assoc]
  | node kind children rest ihChildren ihRest =>
    have hchildren : ∀ item ∈ children.leaves, item.Readable :=
      fun item hitem => hforest item (List.mem_append_left _ hitem)
    have hrest : ∀ item ∈ rest.leaves, item.Readable :=
      fun item hitem => hforest item (List.mem_append_right _ hitem)
    obtain ⟨lead, hlead, hnone, hopening⟩ := parse_opening blocks kind hheadings
      (stream children ++ kind.closing :: (stream rest ++ after))
    obtain ⟨path, added, hpath, hadded, htables, hparse⟩ := ihChildren (blocks ++ lead)
      hchildren hheadings (kind.closing :: (stream rest ++ after))
    obtain ⟨path', added', hpath', hadded', htables', hparse'⟩ :=
      ihRest (blocks ++ lead ++ added) hrest hpath after
    refine ⟨path', lead ++ (added ++ added'), hpath', ?_, ?_, ?_⟩
    · rw [List.map_append, List.map_append, hlead, hadded, hadded', emittedFrom]
    · rw [Forest.leaves, List.flatMap_append]
      exact hnone.append (htables.append htables')
    · rw [stream, List.cons_append, List.append_assoc, List.cons_append, hopening, hparse,
        parse_closing, hparse', List.append_assoc, List.append_assoc]

/-- With a blank table the document is rejected. -/
theorem parse_forest_error (blocks : List ParsedBlock) (forest : Forest Container Leaf)
    (hforest : ∃ item ∈ forest.leaves, ¬ item.Readable) (hheadings : Headed headingPath)
    (after : List Token) :
    ∀ result, parseFrom 0 headingPath blocks (stream forest ++ after) ≠ .ok result := by
  induction forest generalizing headingPath blocks after with
  | nil =>
    obtain ⟨item, hitem, -⟩ := hforest
    exact absurd hitem List.not_mem_nil
  | leaf item rest ih =>
    rw [stream, List.append_assoc]
    by_cases hitem : item.Readable
    · obtain ⟨path, added, hpath, -, -, hparse⟩ :=
        parse_leaf blocks item hitem hheadings
      rw [hparse]
      refine ih _ ?_ hpath after
      obtain ⟨other, hother, hnot⟩ := hforest
      rcases List.mem_cons.1 hother with rfl | hother
      · exact absurd hitem hnot
      · exact ⟨other, hother, hnot⟩
    · exact parse_leaf_error item hitem _
  | node kind children rest ihChildren ihRest =>
    obtain ⟨lead, -, -, hopening⟩ := parse_opening blocks kind hheadings
      (stream children ++ kind.closing :: (stream rest ++ after))
    rw [stream, List.cons_append, List.append_assoc, List.cons_append, hopening]
    by_cases hchildren : ∀ item ∈ children.leaves, item.Readable
    · obtain ⟨path, added, hpath, -, -, hparse⟩ := parse_forest (blocks ++ lead) children
        hchildren hheadings (kind.closing :: (stream rest ++ after))
      rw [hparse, parse_closing]
      refine ihRest _ ?_ hpath after
      obtain ⟨other, hother, hnot⟩ := hforest
      rcases List.mem_append.1 hother with hother | hother
      · exact absurd (hchildren other hother) hnot
      · exact ⟨other, hother, hnot⟩
    · obtain ⟨item, hitem⟩ := not_forall.1 hchildren
      exact ihChildren _ ⟨item, Classical.not_imp.1 hitem⟩ hheadings _

/-! ## What is kept -/

theorem leads_append (read : List Token) (h : ∀ token ∈ read, token.type ≠ .listItemOpen) :
    leads (read ++ rest) = leads rest := by
  induction read with
  | nil => rfl
  | cons current read ih =>
    obtain ⟨hcurrent, hread⟩ := List.forall_mem_cons.1 h
    rw [List.cons_append, leads, if_neg fun hlead => hcurrent hlead.1, ih hread, Nat.zero_add]

theorem leads_leaf (item : Leaf) : leads (item.tokens ++ rest) = leads rest := by
  refine leads_append _ ?_
  cases item with
  | table header body =>
    intro token htoken
    rcases List.mem_cons.1 htoken with rfl | htoken
    · exact nofun
    rcases List.mem_append.1 htoken with htoken | htoken
    · exact (ne_of_mem_innerTypes _ (type_of_mem_innerTokens token htoken)).2
    · rw [List.mem_singleton.1 htoken]
      exact nofun
  | _ => simp [Leaf.tokens]

theorem leads_opening (container : Container) (tokens : List Token) :
    leads (container.opening :: tokens) =
      (if container = .listItem then leadTexts tokens else []).length + leads tokens := by
  rw [leads, leadTexts]
  cases container with
  | listItem => by_cases h : inlineText tokens = [] <;> simp [h, Container.opening]
  | _ => simp [Container.opening]

/-- What is emitted too often is what the list items emit. -/
theorem length_emittedFrom (forest : Forest Container Leaf) (after : List Token) :
    (emittedFrom forest after).length + leads after =
      (forest.leaves.flatMap emitted).length + leads (stream forest ++ after) := by
  induction forest generalizing after with
  | nil => simp [emittedFrom, Forest.leaves, stream]
  | leaf item rest ih =>
    have hrest := ih after
    rw [emittedFrom, Forest.leaves, stream, List.append_assoc, leads_leaf,
      List.flatMap_cons, List.length_append, List.length_append]
    omega
  | node kind children rest ihChildren ihRest =>
    have hclosing : leads (kind.closing :: (stream rest ++ after)) = leads (stream rest ++ after) :=
      leads_append [kind.closing] (by cases kind <;> simp [Container.closing])
    have hchildren := ihChildren (kind.closing :: (stream rest ++ after))
    have hrest := ihRest after
    rw [emittedFrom, Forest.leaves, stream, List.cons_append, List.append_assoc,
      List.cons_append, leads_opening, List.flatMap_append, List.length_append,
      List.length_append, List.length_append]
    omega

/-- What the leaves emit is emitted. -/
theorem sublist_emittedFrom (forest : Forest Container Leaf) (after : List Token) :
    (forest.leaves.flatMap emitted).Sublist (emittedFrom forest after) := by
  induction forest generalizing after with
  | nil => exact List.Sublist.refl _
  | leaf item rest ih =>
    rw [Forest.leaves, List.flatMap_cons, emittedFrom]
    exact (List.Sublist.refl _).append (ih after)
  | node kind children rest ihChildren ihRest =>
    rw [Forest.leaves, List.flatMap_append, emittedFrom]
    exact ((ihChildren _).append (ihRest after)).trans (List.sublist_append_right _ _)

/-- A leaf emits its contents in one text, if it has any. -/
theorem emitted_cases (item : Leaf) (hitem : item.Readable) :
    (item.texts = [] ∧ emitted item = []) ∨
      ∃ text, emitted item = [text] ∧ item.texts ≠ [] ∧
        ∀ content ∈ item.texts, strip content <:+: text := by
  have hone : ∀ content text : List Char, strip content <:+: text →
      ([content].filter (fun content => strip content ≠ []) = [] ∧
        (if strip content = [] then [] else [text]) = []) ∨
      ∃ text', (if strip content = [] then [] else [text]) = [text'] ∧
        [content].filter (fun content => strip content ≠ []) ≠ [] ∧
        ∀ other ∈ [content].filter (fun content => strip content ≠ []),
          strip other <:+: text' := by
    intro content text hpart
    by_cases hblank : strip content = []
    · exact Or.inl ⟨by simp [hblank], if_pos hblank⟩
    · refine Or.inr ⟨text, if_neg hblank, by simp [hblank], fun other hother => ?_⟩
      rw [List.mem_singleton.1 (List.mem_filter.1 hother).1]
      exact hpart
  cases item with
  | heading level content => exact hone content _ List.infix_rfl
  | paragraph content => exact hone content _ List.infix_rfl
  | fence content => exact hone content _ (strip_infix_rstrip content)
  | codeBlock content => exact hone content _ (strip_infix_rstrip content)
  | htmlBlock content => exact Or.inl ⟨rfl, rfl⟩
  | hr => exact Or.inl ⟨rfl, rfl⟩
  | table header body =>
    obtain ⟨row, hrow, cell, hcell, htext⟩ := hitem
    have hmem : cell ∈ (Leaf.table header body).texts := by
      refine List.mem_filter.2 ⟨List.mem_flatten.2 ⟨row, hrow, hcell⟩, ?_⟩
      exact decide_eq_true htext
    refine Or.inr ⟨_, rfl, List.ne_nil_of_mem hmem, fun content hcontent => ?_⟩
    obtain ⟨source, hsource, hin⟩ := List.mem_flatten.1 (List.mem_filter.1 hcontent).1
    exact infix_tableText (List.mem_map_of_mem hsource) (List.mem_map_of_mem hin)

theorem forall₂_emitted {leaves : List Leaf} (h : ∀ item ∈ leaves, item.Readable) :
    List.Forall₂ (fun contents text => ∀ content ∈ contents, strip content <:+: text)
      ((leaves.map Leaf.texts).filter fun contents => contents ≠ [])
      (leaves.flatMap emitted) := by
  induction leaves with
  | nil => exact List.Forall₂.nil
  | cons item leaves ih =>
    obtain ⟨hitem, hleaves⟩ := List.forall_mem_cons.1 h
    rw [List.map_cons, List.flatMap_cons]
    rcases emitted_cases item hitem with ⟨hnone, hemitted⟩ | ⟨text, hemitted, hsome, hpart⟩
    · rw [hemitted, List.nil_append, List.filter_cons_of_neg (by simp [hnone])]
      exact ih hleaves
    · rw [hemitted, List.singleton_append, List.filter_cons_of_pos (by simp [hsome])]
      exact List.Forall₂.cons hpart (ih hleaves)

/-- A document that is parsed has no blank table. -/
theorem readable_of_parseBytes {forest : Forest Container Leaf} {payload : ParsedPayload}
    (h : parseBytes (some (stream forest)) = .ok payload) :
    ∀ item ∈ forest.leaves, item.Readable := by
  by_contra hblank
  obtain ⟨item, hitem⟩ := not_forall.1 hblank
  obtain ⟨result, hresult, -⟩ := bind_eq_ok.1 h
  refine parse_forest_error [] forest ⟨item, Classical.not_imp.1 hitem⟩ headed_nil [] result ?_
  rwa [List.append_nil]

/-- **What the blocks of a document are.** -/
theorem exists_parseBytes_markdown (forest : Forest Container Leaf)
    (hforest : ∀ item ∈ forest.leaves, item.Readable) :
    ∃ payload, parseBytes (some (stream forest)) = .ok payload ∧
      payload.blocks.map (fun block => block.text) = emittedFrom forest [] ∧
      HaveTables (forest.leaves.flatMap tablesOf) payload.blocks := by
  obtain ⟨path, added, -, hadded, htables, hparse⟩ := parse_forest [] forest hforest headed_nil []
  rw [List.append_nil, List.nil_append, parseFrom] at hparse
  exact ⟨{ blocks := added }, bind_eq_ok.2 ⟨added, hparse, rfl⟩, hadded, htables⟩

/-- **Markdown contents are kept exactly once and in order** if and only if no list item has a
text among the three tokens after it, and no table is blank. -/
theorem parseBytes_keeps_iff (forest : Forest Container Leaf) :
    (∃ payload, parseBytes (some (stream forest)) = .ok payload ∧ Keeps forest payload.blocks) ↔
      leads (stream forest) = 0 ∧ ∀ item ∈ forest.leaves, item.Readable := by
  have hlength := length_emittedFrom forest []
  have hnone : leads ([] : List Token) = 0 := rfl
  rw [List.append_nil, hnone] at hlength
  constructor
  · rintro ⟨payload, hparse, hkeeps⟩
    have hforest := readable_of_parseBytes hparse
    refine ⟨?_, hforest⟩
    obtain ⟨payload', hparse', htexts, -⟩ := exists_parseBytes_markdown forest hforest
    rw [hparse] at hparse'
    cases hparse'
    have hblocks : payload.blocks.length = (emittedFrom forest []).length := by
      rw [← htexts, List.length_map]
    have hgroups := (forall₂_emitted hforest).length_eq
    have hkept : (groups forest).length = payload.blocks.length := List.Forall₂.length_eq hkeeps
    rw [groups] at hkept
    omega
  · rintro ⟨hleads, hforest⟩
    obtain ⟨payload, hparse, htexts, -⟩ := exists_parseBytes_markdown forest hforest
    refine ⟨payload, hparse, ?_⟩
    have hemitted : forest.leaves.flatMap emitted = emittedFrom forest [] :=
      (sublist_emittedFrom forest []).eq_of_length (by omega)
    have hall := forall₂_emitted hforest
    rw [hemitted, ← htexts, List.forall₂_map_right_iff] at hall
    exact hall

/-- A list of one item, which is emitted for the item and again for its paragraph. -/
theorem not_parseBytes_keeps :
    ¬ ∀ forest : Forest Container Leaf,
      ∃ payload, parseBytes (some (stream forest)) = .ok payload ∧ Keeps forest payload.blocks := by
  intro hall
  let forest : Forest Container Leaf := .node .bulletList
    (.node .listItem (.leaf (.paragraph "text".toList) .nil) .nil) .nil
  obtain ⟨payload, hparse, hkeeps⟩ := hall forest
  have htwice : (parseBytes (some (stream forest))).toOption.map
      (fun payload => payload.blocks.length) = some 2 := by decide +kernel
  rw [hparse] at htwice
  have hlength : (groups forest).length = payload.blocks.length := List.Forall₂.length_eq hkeeps
  have hone : (groups forest).length = 1 := by decide +kernel
  rw [hone] at hlength
  have hsome : payload.blocks.length = 2 := Option.some.inj htwice
  omega

end MarkdownBinaryParser

end Parsing
end Knowledge
end RagflowAgent
