import RagflowAgent.Knowledge.Chunking.Strategies
import RagflowAgent.Pairing

/-!
# The records of a chunker

The records that the chunkers build pass their validators, unless `str.strip` leaves nothing of
an identifier of the document.

* `GeneralChunker.exists_metadata` and `ScenarioChunker.exists_metadata`: the metadata are valid,
  the combined rectangle of several blocks included;
* `Recorded` says what one record is, with `GeneralChunker.recorded` and
  `ScenarioChunker.recorded`;
* `exists_chunks`: the records have the tokens of the texts that are split;
* `chunks_ne_ok`: without an identifier there are none.
-/

namespace RagflowAgent
namespace Knowledge
namespace Chunking

open Text

/-! ## The loop -/

section Loop

variable {α : Type} {record : ℕ → α → Except Error ChunkRecord} {items : List α}

/-- **The loop ends when no record fails**, with a record of every item. -/
theorem exists_appendChunks (h : ∀ item ∈ items, ∀ n, ∃ r, record n item = .ok r) :
    ∃ records, appendChunks record items = .ok records ∧
      (∀ item ∈ items, ∃ r ∈ records, ∃ n, record n item = .ok r) ∧
      ∀ r ∈ records, ∃ item ∈ items, ∃ n, record n item = .ok r := by
  have hloop : ∀ before : List ChunkRecord, ∃ records,
      items.foldlM (fun records item => do
        let next ← record records.length item
        return records ++ [next]) before = .ok (before ++ records) ∧
      (∀ item ∈ items, ∃ r ∈ records, ∃ n, record n item = .ok r) ∧
      ∀ r ∈ records, ∃ item ∈ items, ∃ n, record n item = .ok r := by
    induction items with
    | nil =>
      intro before
      refine ⟨[], by rw [List.append_nil]; rfl, ?_, ?_⟩
      all_goals exact fun _ h => absurd h List.not_mem_nil
    | cons item items ih =>
      intro before
      obtain ⟨r, hr⟩ := h item List.mem_cons_self before.length
      obtain ⟨records, hrecords, hmade, hmakes⟩ :=
        ih (fun item hitem => h item (List.mem_cons_of_mem _ hitem)) (before ++ [r])
      refine ⟨r :: records, ?_, List.forall_mem_cons.2 ⟨?_, ?_⟩, List.forall_mem_cons.2 ⟨?_, ?_⟩⟩
      · rw [List.foldlM_cons, hr]
        rw [List.append_assoc] at hrecords
        exact hrecords
      · exact ⟨r, List.mem_cons_self, _, hr⟩
      · intro other hother
        obtain ⟨r', hr', hrecord⟩ := hmade other hother
        exact ⟨r', List.mem_cons_of_mem _ hr', hrecord⟩
      · exact ⟨item, List.mem_cons_self, _, hr⟩
      · intro r' hr'
        obtain ⟨other, hother, hrecord⟩ := hmakes r' hr'
        exact ⟨other, List.mem_cons_of_mem _ hother, hrecord⟩
  exact hloop []

/-- It fails when a record does. -/
theorem appendChunks_ne_ok {item : α} (hitem : item ∈ items)
    (h : ∀ n r, record n item ≠ .ok r) (records : List ChunkRecord) :
    appendChunks record items ≠ .ok records := by
  have hloop : ∀ before after : List ChunkRecord,
      items.foldlM (fun records item => do
        let next ← record records.length item
        return records ++ [next]) before ≠ .ok after := by
    induction items with
    | nil => exact absurd hitem List.not_mem_nil
    | cons first items ih =>
      intro before after hrun
      rw [List.foldlM_cons] at hrun
      obtain ⟨next, hnext, hrun⟩ := bind_eq_ok.1 hrun
      obtain ⟨r, hr, -⟩ := bind_eq_ok.1 hnext
      rcases List.mem_cons.1 hitem with rfl | hitem
      · exact h _ r hr
      · exact ih hitem next after hrun
  exact hloop [] records

end Loop

/-! ## Metadata -/

/-- The values of a list with one value are equal. -/
theorem eq_of_length_eraseDups {α : Type} [BEq α] [LawfulBEq α] {l : List α}
    (h : l.eraseDups.length = 1) {a b : α} (ha : a ∈ l) (hb : b ∈ l) : a = b := by
  obtain ⟨c, hc⟩ := List.length_eq_one_iff.1 h
  rw [← List.mem_eraseDups, hc, List.mem_singleton] at ha hb
  rw [ha, hb]

theorem ChunkMetadata.validate_eq_ok {metadata : ChunkMetadata}
    (hpages : ∀ page ∈ metadata.pageStart, 1 ≤ page)
    (htogether : ∀ last ∈ metadata.pageEnd, ∃ first ∈ metadata.pageStart, first ≤ last)
    (hstart : metadata.pageEnd = none → metadata.pageStart = none)
    (horder : ∃ first last, metadata.sourceOrderStart = some first ∧
      metadata.sourceOrderEnd = some last ∧ first ≤ last)
    (hbox : metadata.boundingBox ≠ none → metadata.pageStart = metadata.pageEnd) :
    metadata.validate = .ok metadata := by
  obtain ⟨first, last, hfirst, hlast, hle⟩ := horder
  have hstart' : ¬ ∃ page ∈ metadata.pageStart, page < 1 := by
    rintro ⟨page, hpage, hless⟩
    exact absurd (hpages page hpage) (not_le.2 hless)
  have hend : ¬ ∃ page ∈ metadata.pageEnd, page < 1 := by
    rintro ⟨page, hpage, hless⟩
    obtain ⟨first, hfirst, hle⟩ := htogether page hpage
    exact absurd ((hpages first hfirst).trans hle) (not_le.2 hless)
  have hboth : ¬ metadata.pageStart.isNone ≠ metadata.pageEnd.isNone := by
    rw [not_not]
    cases hcase : metadata.pageEnd with
    | none => rw [hstart hcase]
    | some page =>
      obtain ⟨first, hfirst, -⟩ := htogether page hcase
      rw [Option.mem_def.1 hfirst]
      rfl
  have hrange : ¬ ∃ first ∈ metadata.pageStart, ∃ last ∈ metadata.pageEnd, last < first := by
    rintro ⟨first, hfirst, last, hlast, hless⟩
    obtain ⟨first', hfirst', hle⟩ := htogether last hlast
    cases Option.mem_unique hfirst hfirst'
    exact absurd hle (not_le.2 hless)
  have hsource : ¬ ∃ first ∈ metadata.sourceOrderStart, ∃ last ∈ metadata.sourceOrderEnd,
      last < first := by
    rintro ⟨first', hfirst', last', hlast', hless⟩
    rw [hfirst] at hfirst'
    rw [hlast] at hlast'
    cases hfirst'
    cases hlast'
    exact absurd hle (not_le.2 hless)
  have hpage : ¬ (metadata.boundingBox ≠ none ∧ metadata.pageStart ≠ metadata.pageEnd) :=
    fun ⟨hsome, hne⟩ => hne (hbox hsome)
  rw [validate, if_neg hstart', if_neg hend, if_neg hboth, if_neg hrange, if_neg (by simp [*]),
    if_neg hsource, if_neg hpage]

theorem GeneralChunker.exists_metadata (document : ParsedDocument) (block : ParsedBlock) :
    ∃ metadata, GeneralChunker.metadata document block = .ok metadata :=
  ⟨_, ChunkMetadata.validate_eq_ok block.page_pos (fun page hpage => ⟨page, hpage, le_rfl⟩) id
    ⟨block.order, block.order, rfl, rfl, le_rfl⟩ fun _ => rfl⟩

namespace ScenarioChunker

/-- The least of a list is at most the greatest. -/
theorem exists_min_max {l : List ℕ} (h : l ≠ []) :
    ∃ first last, l.min? = some first ∧ l.max? = some last ∧ first ∈ l ∧ last ∈ l ∧
      first ≤ last := by
  obtain ⟨first, hfirst⟩ := Option.ne_none_iff_exists'.1 (mt List.min?_eq_none_iff.1 h)
  obtain ⟨last, hlast⟩ := Option.ne_none_iff_exists'.1 (mt List.max?_eq_none_iff.1 h)
  obtain ⟨hmemFirst, hle⟩ := List.min?_eq_some_iff.1 hfirst
  obtain ⟨hmemLast, -⟩ := List.max?_eq_some_iff.1 hlast
  exact ⟨first, last, hfirst, hlast, hmemFirst, hmemLast, hle last hmemLast⟩

/-- The least and the greatest values of some rectangles are not changed by more of them. -/
theorem exists_extremes {box : BoundingBox} (boxes : List BoundingBox) (f g : BoundingBox → ℚ)
    (h : f box < g box) :
    ∃ low ∈ box :: boxes, ∃ high ∈ box :: boxes,
      ((box :: boxes).map f).min?.getD (f box) = f low ∧
      ((box :: boxes).map g).max?.getD (g box) = g high ∧ f low < g high := by
  have hne : ∀ k : BoundingBox → ℚ, (box :: boxes).map k ≠ [] := fun k => List.cons_ne_nil _ _
  obtain ⟨a, ha⟩ := Option.ne_none_iff_exists'.1 (mt List.min?_eq_none_iff.1 (hne f))
  obtain ⟨b, hb⟩ := Option.ne_none_iff_exists'.1 (mt List.max?_eq_none_iff.1 (hne g))
  obtain ⟨hmemLow, hlow⟩ := List.min?_eq_some_iff.1 ha
  obtain ⟨hmemHigh, hhigh⟩ := List.max?_eq_some_iff.1 hb
  have hleft : a ≤ f box := hlow _ (List.mem_map_of_mem List.mem_cons_self)
  have hright : g box ≤ b := hhigh _ (List.mem_map_of_mem List.mem_cons_self)
  obtain ⟨low, hlowMem, rfl⟩ := List.mem_map.1 hmemLow
  obtain ⟨high, hhighMem, rfl⟩ := List.mem_map.1 hmemHigh
  refine ⟨low, hlowMem, high, hhighMem, ?_, ?_, hleft.trans_lt (h.trans_le hright)⟩
  · rw [ha, Option.getD_some]
  · rw [hb, Option.getD_some]

/-- **Rectangles in one coordinate space have a common rectangle.** -/
theorem exists_combinedBox (boxes : List BoundingBox) :
    ∃ box, combinedBox boxes = .ok box := by
  cases boxes with
  | nil => exact ⟨none, rfl⟩
  | cons box boxes =>
    rw [combinedBox]
    by_cases hspaces :
        ((box :: boxes).map BoundingBox.coordinateSpace).eraseDups.length ≠ 1
    · rw [if_pos hspaces]
      exact ⟨none, rfl⟩
    rw [if_neg hspaces]
    rw [ne_eq, not_not] at hspaces
    obtain ⟨left, hleft, right, hright, hx0, hx1, hwidth⟩ :=
      exists_extremes boxes BoundingBox.x0 BoundingBox.x1 box.size.1
    obtain ⟨low, hlow, high, hhigh, hy0, hy1, hheight⟩ :=
      exists_extremes boxes BoundingBox.y0 BoundingBox.y1 box.size.2
    have hspace : ∀ other ∈ box :: boxes, other.coordinateSpace = box.coordinateSpace := by
      intro other hother
      exact eq_of_length_eraseDups hspaces (List.mem_map_of_mem hother)
        (List.mem_map_of_mem List.mem_cons_self)
    have hrange : box.coordinateSpace = .normalized →
        ∀ value ∈ [left.x0, low.y0, right.x1, high.y1], 0 ≤ value ∧ value ≤ 1 := by
      intro hnormalized
      have hvalues : ∀ other ∈ box :: boxes,
          ∀ value ∈ [other.x0, other.y0, other.x1, other.y1], 0 ≤ value ∧ value ≤ 1 :=
        fun other hother => other.range ((hspace other hother).trans hnormalized)
      refine List.forall_mem_cons.2 ⟨hvalues left hleft _ (by simp), ?_⟩
      refine List.forall_mem_cons.2 ⟨hvalues low hlow _ (by simp), ?_⟩
      refine List.forall_mem_cons.2 ⟨hvalues right hright _ (by simp), ?_⟩
      exact List.forall_mem_singleton.2 (hvalues high hhigh _ (by simp))
    rw [hx0, hx1, hy0, hy1, BoundingBox.make, dif_pos ⟨hwidth, hheight⟩, dif_pos hrange]
    exact ⟨_, rfl⟩

/-- A rectangle is only combined when there is one page. -/
theorem exists_pageBox (pages : List ℕ) (boxes : List BoundingBox) :
    ∃ box, pageBox pages boxes = .ok box ∧ (box ≠ none → pages.eraseDups.length = 1) := by
  by_cases hone : pages.eraseDups.length = 1
  · obtain ⟨box, hbox⟩ := exists_combinedBox boxes
    exact ⟨box, by rw [pageBox, if_pos hone, hbox], fun _ => hone⟩
  · exact ⟨none, by rw [pageBox, if_neg hone], fun hsome => absurd rfl hsome⟩

/-- **The metadata of some blocks are valid.** -/
theorem exists_metadata (strategy : ScenarioStrategy) (document : ParsedDocument)
    {blocks : List ParsedBlock} (h : blocks ≠ []) :
    ∃ metadata, ScenarioChunker.metadata strategy document blocks = .ok metadata := by
  have horders : blocks.map ParsedBlock.order ≠ [] := mt List.map_eq_nil_iff.1 h
  obtain ⟨first, last, hfirst, hlast, -, -, hle⟩ := exists_min_max horders
  have hpages : ∀ page ∈ blocks.filterMap ParsedBlock.pageNumber, 1 ≤ page := by
    intro page hpage
    obtain ⟨block, -, hblock⟩ := List.mem_filterMap.1 hpage
    exact block.page_pos page hblock
  obtain ⟨box, hbox, hone⟩ := exists_pageBox (blocks.filterMap ParsedBlock.pageNumber)
    (blocks.filterMap ParsedBlock.boundingBox)
  rw [metadata, hbox]
  dsimp only [bind, Except.bind]
  rw [if_neg horders]
  refine ⟨_, ChunkMetadata.validate_eq_ok ?_ ?_ ?_ ⟨first, last, hfirst, hlast, hle⟩ ?_⟩
  · intro page hpage
    exact hpages page (List.min?_eq_some_iff.1 hpage).1
  · intro page hpage
    have hne := List.ne_nil_of_mem (List.max?_eq_some_iff.1 hpage).1
    obtain ⟨first, last, hfirst, hlast, -, -, hle⟩ := exists_min_max hne
    cases Option.mem_unique hpage hlast
    exact ⟨first, hfirst, hle⟩
  · intro hnone
    dsimp only at hnone ⊢
    rw [List.max?_eq_none_iff] at hnone
    rw [hnone]
    rfl
  · intro hsome
    have hlength := hone hsome
    have hne : blocks.filterMap ParsedBlock.pageNumber ≠ [] := by
      intro hnil
      rw [hnil] at hlength
      cases hlength
    obtain ⟨first, last, hfirst, hlast, hmemFirst, hmemLast, -⟩ := exists_min_max hne
    change List.min? _ = List.max? _
    rw [hfirst, hlast, eq_of_length_eraseDups hlength hmemFirst hmemLast]

end ScenarioChunker

/-! ## One record -/

/-- `str.strip` leaves something of the identifiers that the identifier of a chunk is made of. -/
def ParsedDocument.Identified (document : ParsedDocument) : Prop :=
  Agent.strip document.tenantId ≠ "" ∧ Agent.strip document.documentVersionId ≠ ""

instance (document : ParsedDocument) : Decidable document.Identified :=
  inferInstanceAs (Decidable (_ ∧ _))

/-- A content that the loop of `split` makes. -/
structure Stripped (U : Unicode) (content : List Char) : Prop where
  strip_eq : U.alphabet.strip content = content
  ne_nil : content ≠ []

theorem Stripped.strip_ne {U : Unicode} {content : List Char} (h : Stripped U content) :
    Agent.strip (String.ofList content) ≠ "" := by
  intro hnil
  have htoList := congrArg String.toList hnil
  rw [Agent.strip, String.toList_ofList, String.toList_ofList] at htoList
  exact h.ne_nil (h.strip_eq.symm.trans htoList)

/-- The identifier of a chunk is not blank. -/
theorem exists_nonEmptyText_chunkId (digest : String) :
    ∃ id, nonEmptyText ("chk_" ++ digest) = .ok id := by
  refine exists_nonEmptyText (c := 'c') ?_ (by decide)
  rw [String.toList_append]
  exact List.mem_append_left _ (by decide)

/-- **A record of stripped content and of blocks of the document is valid.** -/
theorem ChunkRecord.exists_validate (U : Unicode) (record : ChunkRecord)
    (hid : ∃ id, nonEmptyText record.id = .ok id)
    (halgorithm : ∃ id, nonEmptyText record.idAlgorithm = .ok id)
    (htexts : ∀ text ∈ [record.tenantId, record.knowledgeBaseId, record.documentId,
      record.documentVersionId, record.parsedDocumentId], nonEmptyText text = .ok text)
    (hcontent : Stripped U record.content)
    (hids : ∀ id ∈ record.sourceBlockIds, nonEmptyText id = .ok id)
    (hsome : record.sourceBlockIds ≠ []) (hnodup : record.sourceBlockIds.Nodup) :
    ∃ r, record.validate = .ok r ∧ r.content = record.content ∧
      r.sourceBlockIds = record.sourceBlockIds := by
  obtain ⟨id, hid⟩ := hid
  obtain ⟨idAlgorithm, halgorithm⟩ := halgorithm
  simp only [List.forall_mem_cons, List.not_mem_nil, false_implies, implies_true, and_true] at htexts
  obtain ⟨htenant, hknowledgeBase, hdocument, hversion, hparsed⟩ := htexts
  have htext := nonEmptyText_ofList U hcontent.strip_eq hcontent.ne_nil
  rw [validate, hid, halgorithm, htenant, hknowledgeBase, hdocument, hversion, hparsed, htext,
    mapM_eq_self hids]
  dsimp only [bind, Except.bind]
  rw [if_neg hsome, if_neg (not_not.2 hnodup)]
  exact ⟨_, rfl, String.toList_ofList, rfl⟩

/-- What the records of a source are. -/
structure Recorded {α : Type} (U : Unicode) (document : ParsedDocument)
    (record : ℕ → α × (List Char × ℕ) → Except Error ChunkRecord) (source : α)
    (sourceIds : List String) : Prop where
  makes : document.Identified → ∀ n content tokenCount, Stripped U content →
    ∃ r, record n (source, content, tokenCount) = .ok r ∧ r.content = content ∧
      ∀ id, id ∈ r.sourceBlockIds ↔ id ∈ sourceIds
  fails : ¬ document.Identified → ∀ n piece r, record n (source, piece) ≠ .ok r

theorem exists_deriveChunkId {U : Unicode} (digest : String → String) {document : ParsedDocument}
    (hidentified : document.Identified) (n : ℕ) {ids : List String} (hids : ids ≠ [])
    {content : List Char} (hcontent : Stripped U content) :
    ∃ id, deriveChunkId digest document.tenantId document.documentVersionId n ids content = .ok id ∧
      ∃ t, nonEmptyText id = .ok t := by
  have hderive : ¬ (Agent.strip document.tenantId = "" ∨
      Agent.strip document.documentVersionId = "" ∨ ids = [] ∨
      Agent.strip (String.ofList content) = "") := by
    rintro (htenant | hversion | hnil | hblank)
    · exact hidentified.1 htenant
    · exact hidentified.2 hversion
    · exact hids hnil
    · exact hcontent.strip_ne hblank
  rw [deriveChunkId, if_neg hderive]
  exact ⟨_, rfl, exists_nonEmptyText_chunkId _⟩

theorem ScenarioStrategy.strip_id (strategy : ScenarioStrategy) :
    Agent.strip strategy.id ≠ "" := by
  cases strategy
  all_goals decide +kernel

theorem exists_deriveChunkIdV2 {U : Unicode} (digest : String → String) {document : ParsedDocument}
    (hidentified : document.Identified) (strategy : ScenarioStrategy) (n : ℕ) {ids : List String}
    (hids : ids ≠ []) {content : List Char} (hcontent : Stripped U content) :
    ∃ id, deriveChunkIdV2 digest document.tenantId document.documentVersionId strategy.id "1" n ids
        content = .ok id ∧
      ∃ t, nonEmptyText id = .ok t := by
  have hvalues : "" ∉ [document.tenantId, document.documentVersionId, strategy.id, "1"].map
      Agent.strip := by
    intro hmem
    simp only [List.map_cons, List.map_nil, List.mem_cons, List.not_mem_nil, or_false] at hmem
    rcases hmem with htenant | hversion | hstrategy | hone
    · exact hidentified.1 htenant.symm
    · exact hidentified.2 hversion.symm
    · exact strategy.strip_id hstrategy.symm
    · exact absurd hone (by decide +kernel)
  have hderive : ¬ ("" ∈ [document.tenantId, document.documentVersionId, strategy.id, "1"].map
      Agent.strip ∨ Agent.strip (String.ofList content) = "" ∨ ids = []) := by
    rintro (hmem | hblank | hnil)
    · exact hvalues hmem
    · exact hcontent.strip_ne hblank
    · exact hids hnil
  rw [deriveChunkIdV2]
  dsimp only
  rw [if_neg hderive]
  exact ⟨_, rfl, exists_nonEmptyText_chunkId _⟩

theorem exists_nonEmptyText_algorithm :
    ∀ algorithm ∈ ["sha256-v1", "sha256-v2"], ∃ id, nonEmptyText algorithm = .ok id := by
  refine List.forall_mem_cons.2 ⟨⟨"sha256-v1", by decide +kernel⟩, ?_⟩
  exact List.forall_mem_singleton.2 ⟨"sha256-v2", by decide +kernel⟩

/-- The identifiers that a record takes from the document. -/
theorem ParsedDocument.nonEmpty_scope (document : ParsedDocument) :
    ∀ text ∈ [document.tenantId, document.knowledgeBaseId, document.documentId,
      document.documentVersionId, document.id], nonEmptyText text = .ok text := by
  intro text htext
  refine document.nonEmpty text ?_
  simp only [List.mem_cons, List.not_mem_nil, or_false] at htext ⊢
  tauto

theorem GeneralChunker.recorded (U : Unicode) (digest : String → String)
    (document : ParsedDocument) (block : ParsedBlock) :
    Recorded U document (GeneralChunker.record digest document) block [block.id] where
  makes := by
    intro hidentified n content tokenCount hcontent
    have hids : [block.id] ≠ [] := List.cons_ne_nil _ _
    obtain ⟨id, hid, hnonEmpty⟩ :=
      exists_deriveChunkId digest hidentified n hids hcontent
    obtain ⟨metadata, hmetadata⟩ := GeneralChunker.exists_metadata document block
    rw [GeneralChunker.record]
    rw [hid, hmetadata]
    obtain ⟨r, hr, hcontentEq, hidsEq⟩ := ChunkRecord.exists_validate U
      (ChunkRecord.mk id "sha256-v1" document.tenantId document.knowledgeBaseId
        document.documentId document.documentVersionId document.id n content [block.id] tokenCount
        metadata)
      hnonEmpty (exists_nonEmptyText_algorithm _ List.mem_cons_self) document.nonEmpty_scope hcontent
      (List.forall_mem_singleton.2 block.nonEmpty) hids (List.nodup_singleton _)
    refine ⟨r, hr, hcontentEq, fun other => ?_⟩
    rw [hidsEq]
  fails := by
    intro hidentified n piece r hr
    obtain ⟨id, hid, -⟩ := bind_eq_ok.1 hr
    rw [deriveChunkId] at hid
    split at hid
    · cases hid
    · rename_i hderive
      rw [not_or, not_or] at hderive
      exact hidentified ⟨hderive.1, hderive.2.1⟩

theorem ScenarioChunker.recorded (U : Unicode) (digest : String → String)
    (strategy : ScenarioStrategy) (document : ParsedDocument) {group : Group}
    (h : group.blocks ≠ []) :
    Recorded U document (ScenarioChunker.record digest strategy document) group
      (group.blocks.map ParsedBlock.id) where
  makes := by
    intro hidentified n content tokenCount hcontent
    have hids : (group.blocks.map ParsedBlock.id).eraseDups ≠ [] := by
      obtain ⟨block, hblock⟩ := List.exists_mem_of_ne_nil _ h
      exact List.ne_nil_of_mem (List.mem_eraseDups.2 (List.mem_map_of_mem hblock))
    have hvalid : ∀ id ∈ (group.blocks.map ParsedBlock.id).eraseDups, nonEmptyText id = .ok id := by
      intro id hid
      obtain ⟨block, -, rfl⟩ := List.mem_map.1 (List.mem_eraseDups.1 hid)
      exact block.nonEmpty
    obtain ⟨id, hid, hnonEmpty⟩ :=
      exists_deriveChunkIdV2 digest hidentified strategy n hids hcontent
    obtain ⟨metadata, hmetadata⟩ := ScenarioChunker.exists_metadata strategy document h
    rw [ScenarioChunker.record]
    rw [hid, hmetadata]
    obtain ⟨r, hr, hcontentEq, hidsEq⟩ := ChunkRecord.exists_validate U
      (ChunkRecord.mk id "sha256-v2" document.tenantId document.knowledgeBaseId
        document.documentId document.documentVersionId document.id n content
        (group.blocks.map ParsedBlock.id).eraseDups tokenCount metadata)
      hnonEmpty (exists_nonEmptyText_algorithm _ (List.mem_cons_of_mem _ List.mem_cons_self))
      document.nonEmpty_scope hcontent hvalid hids (Pairing.nodup_eraseDups _)
    refine ⟨r, hr, hcontentEq, fun other => ?_⟩
    rw [hidsEq, List.mem_eraseDups]
  fails := by
    intro hidentified n piece r hr
    obtain ⟨id, hid, -⟩ := bind_eq_ok.1 hr
    rw [deriveChunkIdV2] at hid
    split at hid
    · cases hid
    · rename_i hderive
      rw [not_or] at hderive
      refine hidentified ⟨fun htenant => hderive.1 ?_, fun hversion => hderive.1 ?_⟩
      · rw [List.map_cons, htenant]
        exact List.mem_cons_self
      · rw [List.map_cons, List.map_cons, hversion]
        exact List.mem_cons_of_mem _ List.mem_cons_self

/-! ## All records -/

section Chunks

variable {α : Type} {U : Unicode} {document : ParsedDocument}
  {record : ℕ → α × (List Char × ℕ) → Except Error ChunkRecord} {sources : List α}
  {ids : α → List String} {content : α → List Char} {limit overlap : ℕ}

/-- The windows of some sources. -/
def windowsOf (U : Unicode) (sources : List α) (content : α → List Char) (limit overlap : ℕ) :
    List (α × (List Char × ℕ)) :=
  sources.flatMap fun source =>
    (GeneralChunker.split U.alphabet (content source) limit overlap).map fun piece =>
      (source, piece)

theorem mem_windowsOf {source : α} {piece : List Char × ℕ} :
    (source, piece) ∈ windowsOf U sources content limit overlap ↔
      source ∈ sources ∧
        piece ∈ GeneralChunker.split U.alphabet (content source) limit overlap := by
  rw [windowsOf, List.mem_flatMap]
  constructor
  · rintro ⟨source', hsource, hpiece⟩
    obtain ⟨piece', hpiece, heq⟩ := List.mem_map.1 hpiece
    cases heq
    exact ⟨hsource, hpiece⟩
  · rintro ⟨hsource, hpiece⟩
    exact ⟨source, hsource, List.mem_map_of_mem hpiece⟩

/-- **The records have the tokens of their sources.** -/
theorem exists_chunks (hoverlap : overlap < limit)
    (hrecorded : ∀ source ∈ sources, Recorded U document record source (ids source))
    (h : document.Identified ∨ ∀ source ∈ sources, U.alphabet.tokens (content source) = []) :
    ∃ records, appendChunks record (windowsOf U sources content limit overlap) = .ok records ∧
      ∀ id t, (∃ r ∈ records, id ∈ r.sourceBlockIds ∧ t ∈ U.alphabet.tokens r.content) ↔
        ∃ source ∈ sources, id ∈ ids source ∧ t ∈ U.alphabet.tokens (content source) := by
  have hmakes : ∀ item ∈ windowsOf U sources content limit overlap, ∀ n,
      ∃ r, record n item = .ok r ∧ r.content = item.2.1 ∧
        ∀ id, id ∈ r.sourceBlockIds ↔ id ∈ ids item.1 := by
    rintro ⟨source, piece, tokenCount⟩ hitem n
    obtain ⟨hsource, hpiece⟩ := mem_windowsOf.1 hitem
    rcases h with hidentified | hnil
    · obtain ⟨-, hstrip, hne⟩ := stretch_of_mem_split hoverlap hpiece
      exact (hrecorded source hsource).makes hidentified n piece tokenCount ⟨hstrip, hne⟩
    · rw [split_of_tokens_eq_nil (hnil source hsource)] at hpiece
      exact absurd hpiece List.not_mem_nil
  obtain ⟨records, hrecords, hmade, hfrom⟩ := exists_appendChunks fun item hitem n =>
    (hmakes item hitem n).imp fun r hr => hr.1
  refine ⟨records, hrecords, fun id t => ⟨?_, ?_⟩⟩
  · rintro ⟨r, hr, hid, ht⟩
    obtain ⟨item, hitem, n, hrecord⟩ := hfrom r hr
    obtain ⟨r', hr', hcontent, hids⟩ := hmakes item hitem n
    rw [hrecord] at hr'
    cases hr'
    obtain ⟨hsource, hpiece⟩ := mem_windowsOf.1 hitem
    rw [hcontent] at ht
    exact ⟨item.1, hsource, (hids id).1 hid, (stretch_of_mem_split hoverlap hpiece).1 t ht⟩
  · rintro ⟨source, hsource, hid, ht⟩
    obtain ⟨piece, hpiece, ht⟩ := exists_mem_split hoverlap ht
    have hitem : (source, piece) ∈ windowsOf U sources content limit overlap :=
      mem_windowsOf.2 ⟨hsource, hpiece⟩
    obtain ⟨r, hr, n, hrecord⟩ := hmade _ hitem
    obtain ⟨r', hr', hcontent, hids⟩ := hmakes _ hitem n
    rw [hrecord] at hr'
    cases hr'
    exact ⟨r, hr, (hids id).2 hid, by rw [hcontent]; exact ht⟩

/-- Without an identifier there is no chunk. -/
theorem chunks_ne_ok (hoverlap : overlap < limit)
    (hrecorded : ∀ source ∈ sources, Recorded U document record source (ids source))
    (hidentified : ¬ document.Identified) {source : α} (hsource : source ∈ sources)
    (hne : U.alphabet.tokens (content source) ≠ []) (records : List ChunkRecord) :
    appendChunks record (windowsOf U sources content limit overlap) ≠ .ok records := by
  obtain ⟨t, ht⟩ := List.exists_mem_of_ne_nil _ hne
  obtain ⟨piece, hpiece, -⟩ := exists_mem_split hoverlap ht
  exact appendChunks_ne_ok (mem_windowsOf.2 ⟨hsource, hpiece⟩)
    (fun n r => (hrecorded source hsource).fails hidentified n piece r) records

end Chunks

end Chunking
end Knowledge
end RagflowAgent
