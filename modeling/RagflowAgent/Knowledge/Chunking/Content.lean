import RagflowAgent.Knowledge.Chunking.Records

/-!
# What the chunks keep of a document

Every strategy but one keeps every token of every block.  The strategy for questions and answers
keeps a block without a match; of a block with matches it keeps the questions and the answers, and
loses the text around them.

* `Covers` says that some groups have the tokens of the blocks they come from, and is shown of the
  eight ways to make groups;
* `Strategy.Keeps` is what is asked of a strategy, `Strategy.keeps_iff` when it is so.
-/

namespace RagflowAgent
namespace Knowledge
namespace Chunking

open Text

/-- The groups have blocks, of the given ones, and have all of their tokens. -/
structure Covers (U : Unicode) (groups : List Group) (blocks : List ParsedBlock) : Prop where
  ne_nil : ∀ group ∈ groups, group.blocks ≠ []
  subset : ∀ group ∈ groups, group.blocks ⊆ blocks
  tokens : ∀ block ∈ blocks, ∀ t ∈ U.alphabet.tokens block.text,
    ∃ group ∈ groups, block ∈ group.blocks ∧ t ∈ U.alphabet.tokens group.content

namespace ScenarioChunker

variable {U : Unicode}

theorem isSpace_newline (U : Unicode) : U.alphabet.isSpace '\n' = true := by
  change Agent.isSpace '\n' = true
  decide

/-! ## Groups of whole blocks -/

theorem strip_ne_nil_of_mem_tokens {t text : List Char} (ht : t ∈ U.alphabet.tokens text) :
    U.alphabet.strip text ≠ [] := by
  intro hnil
  rw [Alphabet.tokens_of_strip_eq_nil hnil] at ht
  exact absurd ht List.not_mem_nil

theorem mem_tokens_group {blocks : List ParsedBlock} {block : ParsedBlock} (h : block ∈ blocks)
    {t : List Char} (ht : t ∈ U.alphabet.tokens block.text) :
    t ∈ U.alphabet.tokens (group U blocks).content := by
  have hspaces : ∀ c ∈ "\n\n".toList, U.alphabet.isSpace c = true := by
    exact List.forall_mem_cons.2
      ⟨isSpace_newline U, List.forall_mem_singleton.2 (isSpace_newline U)⟩
  rw [group, Alphabet.tokens_intercalate hspaces (by decide), List.mem_flatMap]
  refine ⟨U.alphabet.strip block.text, ?_, by rwa [Alphabet.tokens_strip]⟩
  rw [List.mem_filter, decide_eq_true_eq]
  exact ⟨List.mem_map_of_mem h, strip_ne_nil_of_mem_tokens ht⟩

/-- A list that is divided into lists that are not empty. -/
structure Divides {α : Type} (sections : List (List α)) (l : List α) : Prop where
  flatten_eq : sections.flatten = l
  nil_notMem : [] ∉ sections

section Divides

variable {α : Type} {current : List α} {sections : List (List α)} {l : List α}

/-- The list that is still open. -/
theorem divides_open [DecidableEq α] (current : List α) :
    Divides (if current = [] then [] else [current]) current := by
  by_cases hnil : current = []
  · rw [if_pos hnil, hnil]
    exact ⟨rfl, List.not_mem_nil⟩
  · rw [if_neg hnil]
    exact ⟨List.append_nil current, fun hmem => hnil (List.mem_singleton.1 hmem).symm⟩

theorem Divides.cons (h : Divides sections l) (hne : current ≠ []) :
    Divides (current :: sections) (current ++ l) where
  flatten_eq := by rw [List.flatten_cons, h.flatten_eq]
  nil_notMem := by
    intro hmem
    rcases List.mem_cons.1 hmem with hmem | hmem
    · exact hne hmem.symm
    · exact h.nil_notMem hmem

theorem Divides.append {first : List (List α)} (hfirst : Divides first current)
    (h : Divides sections l) : Divides (first ++ sections) (current ++ l) where
  flatten_eq := by rw [List.flatten_append, hfirst.flatten_eq, h.flatten_eq]
  nil_notMem := by
    intro hmem
    rcases List.mem_append.1 hmem with hmem | hmem
    · exact hfirst.nil_notMem hmem
    · exact h.nil_notMem hmem

end Divides

/-- Blocks that are divided among groups. -/
theorem covers_map_group {sections : List (List ParsedBlock)} {blocks : List ParsedBlock}
    (h : Divides sections blocks) : Covers U (sections.map (group U)) blocks where
  ne_nil := by
    intro part hpart
    obtain ⟨blocks, hblocks, rfl⟩ := List.mem_map.1 hpart
    intro hnil
    have hnil : blocks = [] := hnil
    exact h.nil_notMem (hnil ▸ hblocks)
  subset := by
    intro part hpart block hblock
    obtain ⟨blocks, hblocks, rfl⟩ := List.mem_map.1 hpart
    rw [← h.flatten_eq]
    exact List.mem_flatten.2 ⟨blocks, hblocks, hblock⟩
  tokens := by
    intro block hblock t ht
    rw [← h.flatten_eq] at hblock
    obtain ⟨blocks, hblocks, hblock⟩ := List.mem_flatten.1 hblock
    exact ⟨group U blocks, List.mem_map_of_mem hblocks, hblock, mem_tokens_group hblock ht⟩

theorem divides_headingSectionsFrom (isolate : ParsedBlock → Bool)
    (current blocks : List ParsedBlock) :
    Divides (headingSectionsFrom isolate current blocks) (current ++ blocks) := by
  induction blocks generalizing current with
  | nil =>
    rw [headingSectionsFrom, List.append_nil]
    exact divides_open current
  | cons block blocks ih =>
    rw [headingSectionsFrom]
    by_cases hisolate : isolate block = true
    · rw [if_pos hisolate]
      exact (divides_open current).append ((ih []).cons (List.cons_ne_nil _ _))
    rw [if_neg hisolate]
    by_cases hheading : block.kind = .heading ∧ current ≠ []
    · rw [if_pos hheading]
      exact (ih [block]).cons hheading.2
    · have h := ih (current ++ [block])
      rw [List.append_assoc] at h
      rw [if_neg hheading]
      exact h

theorem divides_chaptersFrom (current blocks : List ParsedBlock) :
    Divides (chaptersFrom U current blocks) (current ++ blocks) := by
  induction blocks generalizing current with
  | nil =>
    rw [chaptersFrom, List.append_nil]
    exact divides_open current
  | cons block blocks ih =>
    rw [chaptersFrom]
    by_cases hheading : block.kind = .heading ∧ (isChapter U block.text = true ∨ current ≠ [])
    · rw [if_pos hheading]
      exact (divides_open current).append (ih [block])
    · have h := ih (current ++ [block])
      rw [List.append_assoc] at h
      rw [if_neg hheading]
      exact h

theorem covers_headingSections (isolate : ParsedBlock → Bool) (blocks : List ParsedBlock) :
    Covers U (headingSections U isolate blocks) blocks :=
  covers_map_group (divides_headingSectionsFrom isolate [] blocks)

theorem covers_book (blocks : List ParsedBlock) : Covers U (book U blocks) blocks :=
  covers_map_group (divides_chaptersFrom [] blocks)

/-! ## Groups of one block -/

/-- Every block is treated by itself. -/
theorem covers_flatMap {blocks : List ParsedBlock} {f : ParsedBlock → List Group}
    (hblocks : ∀ block, ∀ group ∈ f block, group.blocks = [block])
    (htokens : ∀ block, ∀ t ∈ U.alphabet.tokens block.text,
      ∃ group ∈ f block, t ∈ U.alphabet.tokens group.content) :
    Covers U (blocks.flatMap f) blocks where
  ne_nil := by
    intro part hpart
    obtain ⟨block, -, hpart⟩ := List.mem_flatMap.1 hpart
    rw [hblocks block part hpart]
    exact List.cons_ne_nil _ _
  subset := by
    intro part hpart other hother
    obtain ⟨block, hblock, hpart⟩ := List.mem_flatMap.1 hpart
    rw [hblocks block part hpart, List.mem_singleton] at hother
    rwa [hother]
  tokens := by
    intro block hblock t ht
    obtain ⟨part, hpart, ht⟩ := htokens block t ht
    refine ⟨part, List.mem_flatMap.2 ⟨block, hblock, hpart⟩, ?_, ht⟩
    rw [hblocks block part hpart]
    exact List.mem_cons_self

theorem isSpace_lineBreaks (U : Unicode) : ∀ c ∈ lineBreaks, U.alphabet.isSpace c = true := by
  have hall : lineBreaks.all Agent.isSpace = true := by decide +kernel
  exact List.all_eq_true.1 hall

theorem divides_articlesFrom (current lines : List (List Char)) :
    Divides (articlesFrom U current lines) (current ++ lines) := by
  induction lines generalizing current with
  | nil =>
    rw [articlesFrom, List.append_nil]
    exact divides_open current
  | cons line lines ih =>
    rw [articlesFrom]
    by_cases harticle : isLawArticle U line = true ∧ current ≠ []
    · rw [if_pos harticle]
      exact (ih [line]).cons harticle.2
    · have h := ih (current ++ [line])
      rw [List.append_assoc] at h
      rw [if_neg harticle]
      exact h

theorem covers_laws (blocks : List ParsedBlock) : Covers U (laws U blocks) blocks := by
  refine covers_flatMap (fun block part hpart => ?_) fun block t ht => ?_
  · obtain ⟨current, -, rfl⟩ := List.mem_map.1 hpart
    rfl
  · rw [← tokens_splitLines (isSpace_lineBreaks U), List.mem_flatMap] at ht
    obtain ⟨line, hline, ht⟩ := ht
    have hmem : U.alphabet.strip line ∈
        ((splitLines block.text).map U.alphabet.strip).filter fun line => line ≠ [] := by
      rw [List.mem_filter, decide_eq_true_eq]
      exact ⟨List.mem_map_of_mem hline, strip_ne_nil_of_mem_tokens ht⟩
    have hdivides := divides_articlesFrom (U := U) []
      (((splitLines block.text).map U.alphabet.strip).filter fun line => line ≠ [])
    rw [List.nil_append] at hdivides
    rw [← hdivides.flatten_eq] at hmem
    obtain ⟨current, hcurrent, hmem⟩ := List.mem_flatten.1 hmem
    refine ⟨_, List.mem_map_of_mem hcurrent, ?_⟩
    have hspaces : ∀ c ∈ "\n".toList, U.alphabet.isSpace c = true :=
      List.forall_mem_singleton.2 (isSpace_newline U)
    dsimp only
    rw [Alphabet.tokens_intercalate hspaces (by decide), List.mem_flatMap]
    exact ⟨_, hmem, by rwa [Alphabet.tokens_strip]⟩

/-- A line on a line of its own. -/
theorem tokens_append_line (u v : List Char) :
    U.alphabet.tokens (u ++ '\n' :: v) = U.alphabet.tokens u ++ U.alphabet.tokens v := by
  have hcut := Alphabet.tokens_append_spaces_append (A := U.alphabet)
    (List.forall_mem_singleton.2 (isSpace_newline U)) (List.cons_ne_nil _ _) u v
  rw [List.append_assoc] at hcut
  exact hcut

theorem covers_table (blocks : List ParsedBlock) : Covers U (table U blocks) blocks := by
  refine covers_flatMap (fun block part hpart => ?_) fun block t ht => ?_
  · rw [tableGroups] at hpart
    split at hpart
    · split at hpart
      · rw [List.mem_singleton.1 hpart]
      · exact absurd hpart List.not_mem_nil
    · split at hpart
      · exact absurd hpart List.not_mem_nil
      · rw [List.mem_singleton.1 hpart]
      · obtain ⟨row, -, rfl⟩ := List.mem_map.1 hpart
        rfl
  · rw [tableGroups]
    by_cases hkind : block.kind ≠ .table
    · rw [if_pos hkind, if_pos (strip_ne_nil_of_mem_tokens ht)]
      exact ⟨_, List.mem_cons_self, by rwa [Alphabet.tokens_strip]⟩
    rw [if_neg hkind]
    rw [← tokens_splitLines (isSpace_lineBreaks U), List.mem_flatMap] at ht
    obtain ⟨row, hrow, ht⟩ := ht
    have hmem : row ∈ (splitLines block.text).filter fun row => U.alphabet.strip row ≠ [] := by
      rw [List.mem_filter, decide_eq_true_eq]
      exact ⟨hrow, strip_ne_nil_of_mem_tokens ht⟩
    split
    · rename_i hrows
      rw [hrows] at hmem
      exact absurd hmem List.not_mem_nil
    · rename_i header hrows
      rw [hrows] at hmem
      obtain rfl := List.mem_singleton.1 hmem
      exact ⟨_, List.mem_cons_self, ht⟩
    · rename_i header dataRows hne hrows
      rw [hrows] at hmem
      rcases List.mem_cons.1 hmem with rfl | hmem
      · -- The header is repeated with every row.
        obtain ⟨data, hdata⟩ := List.exists_mem_of_ne_nil dataRows fun hnil => hne hnil
        refine ⟨_, List.mem_map_of_mem hdata, ?_⟩
        rw [tokens_append_line]
        exact List.mem_append_left _ ht
      · refine ⟨_, List.mem_map_of_mem hmem, ?_⟩
        rw [tokens_append_line]
        exact List.mem_append_right _ ht

/-! ## Pages -/

theorem divides_singletons {α : Type} (l : List α) : Divides (l.map fun a => [a]) l where
  flatten_eq := by rw [← List.flatMap_def, List.flatMap_singleton']
  nil_notMem := by
    intro hmem
    obtain ⟨a, -, ha⟩ := List.mem_map.1 hmem
    cases ha

/-- The images of a page have its other blocks with them. -/
theorem covers_pageGroups (blocks : List ParsedBlock) : Covers U (pageGroups U blocks) blocks := by
  rw [pageGroups]
  by_cases himages : (blocks.filter fun block => block.kind = .image) ≠ []
  · rw [if_pos himages]
    constructor
    case ne_nil =>
      intro part hpart
      rw [List.mem_singleton.1 hpart]
      exact List.append_ne_nil_of_left_ne_nil himages _
    case subset =>
      intro part hpart block hblock
      rw [List.mem_singleton.1 hpart] at hblock
      rcases List.mem_append.1 hblock with hblock | hblock
      · exact List.mem_of_mem_filter hblock
      · exact List.mem_of_mem_filter hblock
    case tokens =>
      intro block hblock t ht
      have hmem : block ∈ (blocks.filter fun block => block.kind = .image) ++
          blocks.filter fun block => block.kind ≠ .image := by
        rw [List.mem_append, List.mem_filter, List.mem_filter, decide_eq_true_eq,
          decide_eq_true_eq]
        by_cases hkind : block.kind = .image
        · exact .inl ⟨hblock, hkind⟩
        · exact .inr ⟨hblock, hkind⟩
      have hspaces : ∀ c ∈ "\n".toList, U.alphabet.isSpace c = true :=
        List.forall_mem_singleton.2 (isSpace_newline U)
      refine ⟨_, List.mem_singleton_self _, hmem, ?_⟩
      dsimp only
      rw [Alphabet.tokens_intercalate hspaces (by decide), List.mem_flatMap]
      refine ⟨block.text, ?_, ht⟩
      rw [List.mem_filter, decide_eq_true_eq]
      refine ⟨List.mem_map_of_mem hmem, ?_⟩
      intro hnil
      rw [hnil] at ht
      exact absurd ht List.not_mem_nil
  · rw [if_neg himages]
    rw [not_not] at himages
    have htext : (blocks.filter fun block => block.kind ≠ .image) = blocks := by
      rw [List.filter_eq_self]
      intro block hblock
      have hnot := List.filter_eq_nil_iff.1 himages block hblock
      rw [decide_eq_true_eq] at hnot ⊢
      exact hnot
    have hmap : (blocks.map fun block => group U [block]) =
        (blocks.map fun block => [block]).map (group U) := by
      rw [List.map_map]
      rfl
    rw [htext, hmap]
    exact covers_map_group (divides_singletons blocks)

theorem covers_picture (blocks : List ParsedBlock) : Covers U (picture U blocks) blocks := by
  have hpage : ∀ page, Covers U
      (pageGroups U (blocks.filter fun block => block.pageNumber = page))
      (blocks.filter fun block => block.pageNumber = page) := fun page => covers_pageGroups _
  constructor
  case ne_nil =>
    intro part hpart
    obtain ⟨page, -, hpart⟩ := List.mem_flatMap.1 hpart
    exact (hpage page).ne_nil part hpart
  case subset =>
    intro part hpart block hblock
    obtain ⟨page, -, hpart⟩ := List.mem_flatMap.1 hpart
    exact List.mem_of_mem_filter ((hpage page).subset part hpart hblock)
  case tokens =>
    intro block hblock t ht
    have hmem : block ∈ blocks.filter fun other => other.pageNumber = block.pageNumber := by
      rw [List.mem_filter, decide_eq_true_eq]
      exact ⟨hblock, rfl⟩
    obtain ⟨part, hpart, hin, ht⟩ := (hpage block.pageNumber).tokens block hmem t ht
    refine ⟨part, List.mem_flatMap.2 ⟨block.pageNumber, ?_, hpart⟩, hin, ht⟩
    exact List.mem_eraseDups.2 (List.mem_map_of_mem hblock)

/-- **All strategies but one have the tokens of all blocks.** -/
theorem covers_method {strategy : ScenarioStrategy} (h : strategy ≠ .qa)
    (blocks : List ParsedBlock) : Covers U (method U strategy blocks) blocks := by
  cases strategy with
  | qa => exact absurd rfl h
  | book => exact covers_book blocks
  | laws => exact covers_laws blocks
  | table => exact covers_table blocks
  | picture => exact covers_picture blocks
  | paper => exact covers_headingSections _ blocks
  | manual => exact covers_headingSections _ blocks
  | resume => exact covers_headingSections _ blocks

/-- Groups that are left out have no tokens. -/
theorem covers_filter {groups : List Group} {blocks : List ParsedBlock}
    (h : Covers U groups blocks) :
    Covers U (groups.filter fun group => U.alphabet.strip group.content ≠ []) blocks where
  ne_nil := fun part hpart => h.ne_nil part (List.mem_of_mem_filter hpart)
  subset := fun part hpart => h.subset part (List.mem_of_mem_filter hpart)
  tokens := by
    intro block hblock t ht
    obtain ⟨part, hpart, hin, ht⟩ := h.tokens block hblock t ht
    refine ⟨part, ?_, hin, ht⟩
    rw [List.mem_filter, decide_eq_true_eq]
    exact ⟨hpart, strip_ne_nil_of_mem_tokens ht⟩

/-! ## Questions and answers -/

/-- A label ends with a blank. -/
theorem tokens_label_append {label : List Char} (h : label.getLast? = some ' ')
    (text : List Char) :
    U.alphabet.tokens (label ++ text) = U.alphabet.tokens label ++ U.alphabet.tokens text := by
  refine Alphabet.tokens_append (Alphabet.separate_of_getLast_not_isWord fun c hc => ?_)
  rw [h] at hc
  cases hc
  have hspace : U.alphabet.isSpace ' ' = true := by
    change Agent.isSpace ' ' = true
    decide
  exact Alphabet.isWord_eq_false_of_isSpace hspace

/-- Two texts with a label each, the second on a line of its own. -/
theorem tokens_labelled {first second : List Char} (hfirst : first.getLast? = some ' ')
    (hsecond : second.getLast? = some ' ') (hhead : second.head? = some '\n')
    (question answer : List Char) :
    U.alphabet.tokens (first ++ U.alphabet.strip question ++
        (second ++ U.alphabet.strip answer)) =
      U.alphabet.tokens first ++ U.alphabet.tokens question ++
        (U.alphabet.tokens second ++ U.alphabet.tokens answer) := by
  have hne : second ≠ [] := by
    rintro rfl
    cases hhead
  have hline : U.alphabet.Separate (first ++ U.alphabet.strip question)
      (second ++ U.alphabet.strip answer) := by
    refine Alphabet.separate_of_head_isSpace fun c hc => ?_
    rw [List.head?_append_of_ne_nil _ hne, hhead] at hc
    cases hc
    exact isSpace_newline U
  rw [Alphabet.tokens_append hline, tokens_label_append hfirst, tokens_label_append hsecond,
    Alphabet.tokens_strip, Alphabet.tokens_strip]

theorem tokens_questionAnswer (U : Unicode) (question answer : List Char) :
    U.alphabet.tokens (questionAnswer U question answer) =
      U.alphabet.tokens "Question: ".toList ++ U.alphabet.tokens question ++
        (U.alphabet.tokens "\nAnswer: ".toList ++ U.alphabet.tokens answer) :=
  tokens_labelled (by decide) (by decide) (by decide) question answer

/-- The groups of a block that is no table. -/
theorem blocks_of_mem_qaText {block : ParsedBlock} {part : Group} (h : part ∈ qaText U block) :
    part.blocks = [block] := by
  rw [qaText] at h
  split at h
  · obtain ⟨m, -, rfl⟩ := List.mem_map.1 h
    rfl
  · split at h
    · rw [List.mem_singleton.1 h]
    · exact absurd h List.not_mem_nil

theorem blocks_of_mem_qaRows {block : ParsedBlock} {part : Group} (h : part ∈ qaRows U block) :
    part.blocks = [block] := by
  rw [qaRows] at h
  obtain ⟨row, -, hrow⟩ := List.mem_filterMap.1 h
  split at hrow
  · split at hrow
    · cases hrow
      rfl
    · cases hrow
  · cases hrow

/-- The tokens that the groups of a block have. -/
theorem mem_tokens_qaText (block : ParsedBlock) (t : List Char) :
    (∃ part ∈ qaText U block, t ∈ U.alphabet.tokens part.content) ↔
      if finditer block.text = [] then t ∈ U.alphabet.tokens block.text
      else t ∈ U.alphabet.tokens (questionAnswer U [] []) ∨ ∃ m ∈ finditer block.text,
        t ∈ U.alphabet.tokens m.question ∨ t ∈ U.alphabet.tokens m.answer := by
  rw [qaText]
  by_cases hnil : finditer block.text = []
  · rw [if_neg (not_not.2 hnil), if_pos hnil]
    constructor
    · rintro ⟨part, hpart, ht⟩
      split at hpart
      · rw [List.mem_singleton.1 hpart, Alphabet.tokens_strip] at ht
        exact ht
      · exact absurd hpart List.not_mem_nil
    · intro ht
      rw [if_pos (strip_ne_nil_of_mem_tokens ht)]
      exact ⟨_, List.mem_cons_self, by rwa [Alphabet.tokens_strip]⟩
  · rw [if_pos hnil, if_neg hnil]
    have hlabels : U.alphabet.tokens (questionAnswer U [] []) =
        U.alphabet.tokens "Question: ".toList ++ U.alphabet.tokens "\nAnswer: ".toList := by
      have hempty : U.alphabet.tokens [] = [] := rfl
      rw [tokens_questionAnswer, hempty, List.append_nil, List.append_nil]
    constructor
    · rintro ⟨part, hpart, ht⟩
      obtain ⟨m, hm, rfl⟩ := List.mem_map.1 hpart
      dsimp only at ht
      rw [tokens_questionAnswer, List.mem_append, List.mem_append, List.mem_append] at ht
      rw [hlabels, List.mem_append]
      rcases ht with (ht | ht) | (ht | ht)
      · exact .inl (.inl ht)
      · exact .inr ⟨m, hm, .inl ht⟩
      · exact .inl (.inr ht)
      · exact .inr ⟨m, hm, .inr ht⟩
    · intro ht
      -- The labels are in the group of every match, and there is one.
      obtain ⟨m, hm, ht⟩ : ∃ m ∈ finditer block.text,
          t ∈ U.alphabet.tokens (questionAnswer U m.question m.answer) := by
        rcases ht with ht | ⟨m, hm, ht⟩
        · obtain ⟨m, hm⟩ := List.exists_mem_of_ne_nil _ hnil
          rw [hlabels, List.mem_append] at ht
          refine ⟨m, hm, ?_⟩
          rw [tokens_questionAnswer, List.mem_append, List.mem_append, List.mem_append]
          tauto
        · refine ⟨m, hm, ?_⟩
          rw [tokens_questionAnswer, List.mem_append, List.mem_append, List.mem_append]
          tauto
      exact ⟨_, List.mem_map_of_mem hm, ht⟩

theorem exists_of_mem_qa {blocks : List ParsedBlock} {part : Group} (h : part ∈ qa U blocks) :
    ∃ block ∈ blocks, part.blocks = [block] ∧ (block.kind ≠ .table → part ∈ qaText U block) := by
  obtain ⟨block, hblock, hpart⟩ := List.mem_flatMap.1 h
  split at hpart
  · rename_i hkind
    exact ⟨block, hblock, blocks_of_mem_qaRows hpart, fun hnot => absurd hkind hnot⟩
  · exact ⟨block, hblock, blocks_of_mem_qaText hpart, fun _ => hpart⟩

/-- The groups of any strategy have blocks, of the document. -/
theorem blocks_of_mem_groups {strategy : ScenarioStrategy} {document : ParsedDocument}
    {part : Group} (h : part ∈ groups U strategy document) :
    part.blocks ≠ [] ∧ part.blocks ⊆ document.blocks := by
  by_cases hqa : strategy = .qa
  · subst hqa
    obtain ⟨block, hblock, hblocks, -⟩ := exists_of_mem_qa (List.mem_of_mem_filter h)
    rw [hblocks]
    exact ⟨List.cons_ne_nil _ _, List.cons_subset.2 ⟨hblock, List.nil_subset _⟩⟩
  · have hcovers := covers_filter (covers_method (U := U) hqa document.blocks)
    exact ⟨hcovers.ne_nil part h, hcovers.subset part h⟩

end ScenarioChunker

/-! ## The result -/

namespace Strategy

variable {U : Unicode} {document : ParsedDocument} {strategy : Strategy}

/-- The parts of a document that a strategy splits. -/
def parts (U : Unicode) (document : ParsedDocument) : Strategy → List Group
  | general => document.blocks.map fun block => { blocks := [block], content := block.text }
  | scenario strategy => ScenarioChunker.groups U strategy document

/-- The tokens of a block that a strategy is to keep: with questions and answers, those of a table
are left out, and so are the markers. -/
def required (U : Unicode) (block : ParsedBlock) : Strategy → List (List Char)
  | scenario .qa => if block.kind = .table then [] else U.alphabet.tokens (unmarked block.text)
  | _ => U.alphabet.tokens block.text

/-- **Chunking succeeds and loses nothing**: every token is in the content of a chunk that names
the block. -/
def Keeps (U : Unicode) (digest : String → String) (bounds : TokenBounds)
    (context : AuthorizationContext) (request : ChunkingRequest) (strategy : Strategy) : Prop :=
  ∃ records, strategy.chunk U digest bounds context request = .ok records ∧
    ∀ block ∈ request.parsedDocument.blocks, ∀ t ∈ strategy.required U block,
      ∃ record ∈ records, block.id ∈ record.sourceBlockIds ∧ t ∈ U.alphabet.tokens record.content

/-- The text around the questions and answers of a block has no token of its own: every one is
also in a question, in an answer or in the labels that the chunks get. -/
def PairsCover (U : Unicode) (text : List Char) : Prop :=
  ∀ t ∈ U.alphabet.tokens (outside text),
    t ∈ U.alphabet.tokens (ScenarioChunker.questionAnswer U [] []) ∨
      ∃ m ∈ finditer text, t ∈ U.alphabet.tokens m.question ∨ t ∈ U.alphabet.tokens m.answer

/-- When a strategy keeps all: the identifiers are not blank to `str.strip`, or there is nothing to
be split; and the strategy for questions and answers finds none, or nothing around them. -/
structure Lossless (U : Unicode) (document : ParsedDocument) (strategy : Strategy) : Prop where
  identified : document.Identified ∨
    ∀ part ∈ strategy.parts U document, U.alphabet.tokens part.content = []
  pairs : strategy = .scenario .qa → ∀ block ∈ document.blocks, block.kind ≠ .table →
    finditer block.text ≠ [] → PairsCover U block.text

/-- The parts have blocks of the document. -/
theorem blocks_of_mem_parts {part : Group} (h : part ∈ strategy.parts U document) :
    part.blocks ≠ [] ∧ part.blocks ⊆ document.blocks := by
  cases strategy with
  | scenario strategy => exact ScenarioChunker.blocks_of_mem_groups h
  | general =>
    obtain ⟨block, hblock, rfl⟩ := List.mem_map.1 h
    exact ⟨List.cons_ne_nil _ _, List.cons_subset.2 ⟨hblock, List.nil_subset _⟩⟩

/-- A part names a block of the document when it has it. -/
theorem id_mem_blocks_iff {part : Group} (hpart : part ∈ strategy.parts U document)
    {block : ParsedBlock} (hblock : block ∈ document.blocks) :
    block.id ∈ part.blocks.map ParsedBlock.id ↔ block ∈ part.blocks := by
  constructor
  · intro hid
    obtain ⟨other, hother, heq⟩ := List.mem_map.1 hid
    have hmem := (blocks_of_mem_parts hpart).2 hother
    rwa [← List.inj_on_of_nodup_map document.ids_nodup hmem hblock heq]
  · exact List.mem_map_of_mem

/-- What chunking makes of a document, and when. -/
theorem chunk_spec (U : Unicode) (digest : String → String) (bounds : TokenBounds)
    {context : AuthorizationContext} {request : ChunkingRequest} (strategy : Strategy)
    (htenant : context.tenantId = request.parsedDocument.tenantId) :
    let document := request.parsedDocument
    ((document.Identified ∨
        ∀ part ∈ strategy.parts U document, U.alphabet.tokens part.content = []) →
      ∃ records, strategy.chunk U digest bounds context request = .ok records ∧
        ∀ id t, (∃ r ∈ records, id ∈ r.sourceBlockIds ∧ t ∈ U.alphabet.tokens r.content) ↔
          ∃ part ∈ strategy.parts U document,
            id ∈ part.blocks.map ParsedBlock.id ∧ t ∈ U.alphabet.tokens part.content) ∧
    (¬ document.Identified →
      ∀ part ∈ strategy.parts U document, U.alphabet.tokens part.content ≠ [] →
        ∀ records, strategy.chunk U digest bounds context request ≠ .ok records) := by
  have hlimit : 1 ≤ bounds.limit request := by
    rw [TokenBounds.limit]
    cases hmax : request.maxTokens with
    | none => exact bounds.maxTokens_pos
    | some limit => exact request.maxTokens_pos limit hmax
  have hoverlap : bounds.overlap request < bounds.limit request := by
    rw [TokenBounds.overlap]
    omega
  cases strategy with
  | general =>
    have hchunk : chunk U digest bounds context request general =
        appendChunks (GeneralChunker.record digest request.parsedDocument)
          (windowsOf U request.parsedDocument.blocks ParsedBlock.text (bounds.limit request)
            (bounds.overlap request)) := by
      rw [chunk, GeneralChunker.chunk]
      dsimp only
      rw [if_neg (not_not.2 htenant)]
      rfl
    have hrecorded : ∀ block ∈ request.parsedDocument.blocks,
        Recorded U request.parsedDocument (GeneralChunker.record digest request.parsedDocument)
          block [block.id] :=
      fun block _ => GeneralChunker.recorded U digest request.parsedDocument block
    intro document
    refine ⟨fun h => ?_, fun hidentified part hpart hne => ?_⟩
    · rw [parts, List.forall_mem_map] at h
      obtain ⟨records, hrecords, hspec⟩ := exists_chunks hoverlap hrecorded h
      refine ⟨records, hchunk.trans hrecords, fun id t => (hspec id t).trans ?_⟩
      constructor
      · rintro ⟨block, hblock, hblocks⟩
        exact ⟨_, List.mem_map_of_mem hblock, hblocks⟩
      · rintro ⟨part, hpart, hblocks⟩
        obtain ⟨block, hblock, rfl⟩ := List.mem_map.1 hpart
        exact ⟨block, hblock, hblocks⟩
    · obtain ⟨block, hblock, rfl⟩ := List.mem_map.1 hpart
      intro records
      rw [hchunk]
      exact chunks_ne_ok hoverlap hrecorded hidentified hblock hne records
  | scenario strategy =>
    have hchunk : chunk U digest bounds context request (scenario strategy) =
        appendChunks (ScenarioChunker.record digest strategy request.parsedDocument)
          (windowsOf U (ScenarioChunker.groups U strategy request.parsedDocument) Group.content
            (bounds.limit request) (bounds.overlap request)) := by
      rw [chunk, ScenarioChunker.chunk]
      dsimp only
      rw [if_neg (not_not.2 htenant)]
      simp only [ScenarioChunker.split_eq]
      rfl
    have hrecorded : ∀ part ∈ ScenarioChunker.groups U strategy request.parsedDocument,
        Recorded U request.parsedDocument
          (ScenarioChunker.record digest strategy request.parsedDocument) part
          (part.blocks.map ParsedBlock.id) :=
      fun part hpart => ScenarioChunker.recorded U digest strategy request.parsedDocument
        (ScenarioChunker.blocks_of_mem_groups hpart).1
    intro document
    refine ⟨fun h => ?_, fun hidentified part hpart hne => ?_⟩
    · obtain ⟨records, hrecords, hspec⟩ := exists_chunks hoverlap hrecorded h
      exact ⟨records, hchunk.trans hrecords, hspec⟩
    · intro records
      rw [hchunk]
      exact chunks_ne_ok hoverlap hrecorded hidentified hpart hne records

/-- The tokens that the parts of a block have, with questions and answers. -/
theorem exists_part_qa_iff {block : ParsedBlock} (hblock : block ∈ document.blocks)
    (hkind : block.kind ≠ .table) (t : List Char) :
    (∃ part ∈ (scenario .qa).parts U document,
        block.id ∈ part.blocks.map ParsedBlock.id ∧ t ∈ U.alphabet.tokens part.content) ↔
      ∃ part ∈ ScenarioChunker.qaText U block, t ∈ U.alphabet.tokens part.content := by
  constructor
  · rintro ⟨part, hpart, hid, ht⟩
    rw [id_mem_blocks_iff hpart hblock] at hid
    obtain ⟨other, -, hblocks, htext⟩ :=
      ScenarioChunker.exists_of_mem_qa (List.mem_of_mem_filter hpart)
    rw [hblocks, List.mem_singleton] at hid
    subst hid
    exact ⟨part, htext hkind, ht⟩
  · rintro ⟨part, hpart, ht⟩
    refine ⟨part, ?_, ?_, ht⟩
    · rw [parts, ScenarioChunker.groups, List.mem_filter, decide_eq_true_eq]
      refine ⟨List.mem_flatMap.2 ⟨block, hblock, ?_⟩, ScenarioChunker.strip_ne_nil_of_mem_tokens ht⟩
      rwa [if_neg hkind]
    · rw [ScenarioChunker.blocks_of_mem_qaText hpart]
      exact List.mem_cons_self

/-- **The parts have the tokens that are to be kept**, but for the text around questions and
answers. -/
theorem pairsCover_iff :
    (∀ block ∈ document.blocks, ∀ t ∈ strategy.required U block,
      ∃ part ∈ strategy.parts U document,
        block.id ∈ part.blocks.map ParsedBlock.id ∧ t ∈ U.alphabet.tokens part.content) ↔
      (strategy = .scenario .qa → ∀ block ∈ document.blocks, block.kind ≠ .table →
        finditer block.text ≠ [] → PairsCover U block.text) := by
  by_cases hqa : strategy = .scenario .qa
  · subst hqa
    have hnewline := ScenarioChunker.isSpace_newline U
    constructor
    · intro h _ block hblock hkind hfound t ht
      have hrequired : t ∈ (scenario .qa).required U block := by
        rw [required, if_neg hkind, mem_tokens_unmarked hnewline]
        exact .inl ht
      have hpart := (exists_part_qa_iff hblock hkind t).1 (h block hblock t hrequired)
      rwa [ScenarioChunker.mem_tokens_qaText, if_neg hfound] at hpart
    · intro h block hblock t ht
      rw [required] at ht
      split at ht
      · exact absurd ht List.not_mem_nil
      rename_i hkind
      rw [exists_part_qa_iff hblock hkind, ScenarioChunker.mem_tokens_qaText]
      by_cases hfound : finditer block.text = []
      · rw [if_pos hfound]
        rwa [unmarked_of_finditer_eq_nil hfound] at ht
      · rw [if_neg hfound]
        rcases (mem_tokens_unmarked hnewline _ _).1 ht with ht | ht
        · exact h rfl block hblock hkind hfound t ht
        · exact .inr ht
  · refine ⟨fun _ h => absurd h hqa, fun _ block hblock t ht => ?_⟩
    cases strategy with
    | general =>
      refine ⟨_, List.mem_map_of_mem hblock, ?_, ht⟩
      exact List.mem_map_of_mem (List.mem_singleton_self block)
    | scenario strategy =>
      have hother : strategy ≠ .qa := fun heq => hqa (congrArg scenario heq)
      have ht : t ∈ U.alphabet.tokens block.text := by
        cases strategy with
        | qa => exact absurd rfl hother
        | _ => exact ht
      have hcovers := ScenarioChunker.covers_filter
        (ScenarioChunker.covers_method (U := U) hother document.blocks)
      obtain ⟨part, hpart, hmem, ht⟩ := hcovers.tokens block hblock t ht
      exact ⟨part, hpart, List.mem_map_of_mem hmem, ht⟩

/-- **Chunking keeps every token exactly when it is lossless.**  All strategies build valid
records of all the tokens of every block, unless an identifier of the document is blank to
`str.strip`; only the strategy for questions and answers loses text, around its matches. -/
theorem keeps_iff (U : Unicode) (digest : String → String) (bounds : TokenBounds)
    (context : AuthorizationContext) (request : ChunkingRequest) (strategy : Strategy)
    (htenant : context.tenantId = request.parsedDocument.tenantId) :
    strategy.Keeps U digest bounds context request ↔
      strategy.Lossless U request.parsedDocument := by
  obtain ⟨hruns, hfails⟩ := chunk_spec U digest bounds strategy htenant
  constructor
  · rintro ⟨records, hrecords, hkeeps⟩
    have hidentified : request.parsedDocument.Identified ∨
        ∀ part ∈ strategy.parts U request.parsedDocument,
          U.alphabet.tokens part.content = [] := by
      by_contra hnot
      rw [not_or, not_forall] at hnot
      obtain ⟨hidentified, part, hpart⟩ := hnot
      rw [Classical.not_imp] at hpart
      exact hfails hidentified part hpart.1 hpart.2 records hrecords
    obtain ⟨records', hrecords', hspec⟩ := hruns hidentified
    rw [hrecords] at hrecords'
    cases hrecords'
    refine ⟨hidentified, pairsCover_iff.1 fun block hblock t ht => ?_⟩
    exact (hspec block.id t).1 (hkeeps block hblock t ht)
  · rintro ⟨hidentified, hpairs⟩
    obtain ⟨records, hrecords, hspec⟩ := hruns hidentified
    refine ⟨records, hrecords, fun block hblock t ht => ?_⟩
    exact (hspec block.id t).2 (pairsCover_iff.2 hpairs block hblock t ht)

end Strategy

namespace Sample

def ascii : Unicode where
  isWord c := !Agent.isSpace c && (c.isAlphanum || c == '_')
  isDigit c := c.isDigit
  isSpace_of_isWord := fun c h => by
    rw [Bool.and_eq_true, Bool.not_eq_true'] at h
    exact h.1
  isWord_colon := List.forall_mem_cons.2 ⟨rfl, List.forall_mem_singleton.2 rfl⟩

/-- The last line begins with the letter of a question, but is none. -/
def faq : ParsedBlock where
  id := "block"
  kind := .text
  order := 0
  text := "Q: Reset?\nA: Press\nQuickly".toList
  nonEmpty := by decide +kernel
  page_pos := fun _ h => absurd h (Option.not_mem_none _)
  headings := fun _ h => absurd h List.not_mem_nil
  box_page := fun h => absurd rfl h
  has_text := fun _ => ⟨'Q', by decide, by decide⟩

def manual : ParsedDocument where
  id := "parsed"
  tenantId := "tenant"
  knowledgeBaseId := "kb"
  documentId := "document"
  documentVersionId := "version"
  parserName := "text"
  parserVersion := "1"
  blocks := [faq]
  nonEmpty := by decide +kernel
  ids_nodup := List.nodup_singleton _
  orders_nodup := List.nodup_singleton _
  orders_sorted := List.pairwise_singleton _ _

def request : ChunkingRequest where
  parsedDocument := manual
  maxTokens_pos := fun _ h => absurd h (Option.not_mem_none _)

def bounds : TokenBounds where
  maxTokens := 64
  overlapTokens := 8
  maxTokens_pos := by decide
  overlap_lt := by decide

def worker : AuthorizationContext where
  tenantId := "tenant"
  actorId := "worker"
  requestId := "trace"

/-- The SHA-256 digests of the texts behind the chunk ids of the two runs. -/
def digest (s : String) : String :=
  ([("Question: Reset?\nAnswer: Press",
      "0c79940581a18d39c46f732b7c13dc33711334b348603c336605116a1a6a535f"),
    ("sha256-v2\x1ftenant\x1fversion\x1fqa\x1f1\x1f0\x1fblock\x1f" ++
        "0c79940581a18d39c46f732b7c13dc33711334b348603c336605116a1a6a535f",
      "58817d0e6da62084e8444af29c77fd8bb3030d508c47870768528d6d450fcafd"),
    ("Q: Reset?\nA: Press\nQuickly",
      "1e5a20da6d7f1a43f1a5d30ed82ed1cd6be06d6aa94d339da236f985f7a93102"),
    ("sha256-v1\x1ftenant\x1fversion\x1f0\x1fblock\x1f" ++
        "1e5a20da6d7f1a43f1a5d30ed82ed1cd6be06d6aa94d339da236f985f7a93102",
      "07372996dea200af0c962d931a1287d95e3d3fa43fb2eb1282bbd9cea0952075")].lookup s).getD ""

end Sample

namespace Strategy

/-- The answer stops before the line, and the line is lost. -/
theorem not_keeps_afterAnswer :
    ¬ (scenario .qa).Keeps Sample.ascii Sample.digest Sample.bounds Sample.worker
      Sample.request := by
  rintro ⟨records, hrecords, hkeeps⟩
  have htenant : Sample.worker.tenantId = Sample.request.parsedDocument.tenantId := rfl
  obtain ⟨hruns, -⟩ := chunk_spec Sample.ascii Sample.digest Sample.bounds (scenario .qa) htenant
  obtain ⟨records', hrecords', hspec⟩ := hruns (.inl (by decide +kernel))
  rw [hrecords] at hrecords'
  cases hrecords'
  have hrequired : "Quickly".toList ∈ (scenario .qa).required Sample.ascii Sample.faq := by
    decide +kernel
  have hlost : ∀ part ∈ (scenario .qa).parts Sample.ascii Sample.manual,
      "Quickly".toList ∉ Sample.ascii.alphabet.tokens part.content := by
    decide +kernel
  obtain ⟨part, hpart, -, ht⟩ :=
    (hspec _ _).1 (hkeeps Sample.faq List.mem_cons_self _ hrequired)
  exact hlost part hpart ht

/-- The general strategy keeps it. -/
theorem keeps_general_afterAnswer :
    general.Keeps Sample.ascii Sample.digest Sample.bounds Sample.worker Sample.request :=
  (keeps_iff Sample.ascii Sample.digest Sample.bounds Sample.worker Sample.request general rfl).2
    ⟨.inl (by decide +kernel), nofun⟩

end Strategy

end Chunking
end Knowledge
end RagflowAgent
