import RagflowAgent.Operations.Backup

/-!
# Copies of a tree

The files below a directory are copied, one after another, to a directory that was empty.

* `copyTo_spec`: a copy to a new place makes the directories on the way and the file;
* `Mirror` says that some files of a tree have been copied, and that there is nothing else but
  directories on the way to files; `Mirror.copy` copies the next one;
* `filePaths_filesBelow`, `mem_filesBelow`: the files below a directory are such a tree.
-/

namespace RagflowAgent
namespace Operations

open Files Disk Ranking

variable {host : Host} {d d' : Disk} {l : Location} {limit : ℕ}

/-! ## One copy -/

/-- Whatever there is stays as it is, and what is new lies below `B`. -/
structure Extends (B : Location) (d d' : Disk) : Prop where
  some_of_some : ∀ l item, d.node l = some item → d'.node l = some item
  outside : ∀ l, ¬ B <+: l → d'.node l = d.node l

namespace Extends

variable {B : Location} {d₁ : Disk}

theorem refl (B : Location) (d : Disk) : Extends B d d := ⟨fun _ _ h => h, fun _ _ => rfl⟩

theorem trans (h : Extends B d d') (h' : Extends B d' d₁) : Extends B d d₁ :=
  ⟨fun l item hl => h'.1 l item (h.1 l item hl), fun l hl => (h'.2 l hl).trans (h.2 l hl)⟩

theorem keeps (h : Extends B d d') : d.Keeps d' where
  dir l hl := h.some_of_some l _ hl
  link l _ hl := h.some_of_some l _ hl
  file l := fun ⟨_, hl⟩ => ⟨_, h.some_of_some l _ hl⟩

/-- New directories. -/
theorem of_madeDirs {P : Location → Prop} (h : MadeDirs P d d') (hP : ∀ l, P l → B <+: l) :
    Extends B d d' := by
  refine ⟨fun _ _ hl => h.some_of_some hl, fun l hl => ?_⟩
  rcases h.node l with hsame | ⟨-, -, hlP⟩
  · exact hsame
  · exact absurd (hP l hlP) hl

/-- A new file. -/
theorem of_write (h : d.IsPlace l) (hnone : d.node l = none) (hl : B <+: l)
    (content : List UInt8) : Extends B d (d.write l content) := by
  constructor
  · intro k item hk
    rw [h.node_write, if_neg]
    · exact hk
    · rintro rfl
      rw [hnone] at hk
      cases hk
  · intro k hk
    rw [h.node_write, if_neg]
    rintro rfl
    exact hk hl

end Extends

theorem read_of_walks {path : List Part} {content : List UInt8}
    (h : d.Walks limit [] path l) (hl : d.node l = some (.file content)) :
    read limit d path = some content := by
  unfold read contentAt
  rw [walk_eq_some.2 h, Option.bind_some, hl]

/-- What a path leads to when it can be read. -/
theorem exists_of_read {path : List Part} {content : List UInt8}
    (h : read limit d path = some content) :
    ∃ l, d.Walks limit [] path l ∧ d.node l = some (.file content) := by
  obtain ⟨l, hwalk, hcontent⟩ := Option.bind_eq_some_iff.1 h
  refine ⟨l, walk_eq_some.1 hwalk, ?_⟩
  unfold contentAt at hcontent
  split at hcontent
  · rename_i hnode
    cases hcontent
    exact hnode
  · cases hcontent

/-- What could be read still can. -/
theorem read_mono (h : ∀ l item, d.node l = some item → d'.node l = some item) {path : List Part}
    {content : List UInt8} (hread : read limit d path = some content) :
    read limit d' path = some content := by
  obtain ⟨l, hwalk, hl⟩ := exists_of_read hread
  have hkeeps : d.Keeps d' :=
    ⟨fun l hl => h l _ hl, fun l _ hl => h l _ hl, fun l ⟨_, hl⟩ => ⟨_, h l _ hl⟩⟩
  exact read_of_walks (hwalk.mono hkeeps) (h l _ hl)

/-- **A copy to a new place** below a directory makes the directories on the way and the file. -/
theorem copyTo_spec {item base : List Part} {B relative : Location} {content : List UInt8}
    (hbase : d.Walks limit [] base B) (hB : d.IsDir B) (hread : read limit d item = some content)
    (hne : relative ≠ []) (hnone : d.node (B ++ relative) = none)
    (hfree : ∀ k, k <+: relative.dropLast → d.node (B ++ k) = none ∨ d.IsDir (B ++ k)) :
    ∃ d₁, MadeDirs (fun l => ∃ k, k <+: relative.dropLast ∧ l = B ++ k) d d₁ ∧
      d₁.IsPlace (B ++ relative) ∧ d₁.node (B ++ relative) = none ∧
      copyTo limit d item (base ++ partsOf relative) =
        (.ok (), d₁.write (B ++ relative) content) := by
  obtain ⟨above, name, rfl⟩ := (List.eq_nil_or_concat' relative).resolve_left hne
  rw [List.dropLast_concat] at hfree ⊢
  rw [← List.append_assoc] at hnone ⊢
  -- the directories
  have hdrop : (base ++ partsOf (above ++ [name])).dropLast = base ++ partsOf above := by
    rw [partsOf_append, ← List.append_assoc, partsOf_singleton, List.dropLast_concat]
  obtain ⟨hok, hdir, hmade⟩ := makeDirs_names hbase hB hfree
  have hskip : makeDirs limit d [] (base ++ partsOf above) =
      makeDirs limit d base (partsOf above) :=
    makeDirs_of_walks hbase hB
  rw [← hskip] at hok hdir hmade
  generalize hrun : makeDirs limit d [] (base ++ partsOf above) = run at hok hdir hmade
  obtain ⟨d₁, ok⟩ := run
  change ok = true at hok
  subst hok
  change d₁.IsDir _ at hdir
  change MadeDirs _ d d₁ at hmade
  have hwalk : d₁.Walks limit [] (base ++ partsOf above) (B ++ above) :=
    (hbase.mono hmade.keeps).names (.inl hdir)
  -- the name is still missing
  have hnone₁ : d₁.node (B ++ above ++ [name]) = none := by
    rcases hmade.node (B ++ above ++ [name]) with hsame | ⟨-, -, k, hk, heq⟩
    · rw [hsame, hnone]
    · rw [List.append_assoc] at heq
      have hlength := hk.length_le
      rw [← List.append_cancel_left heq, List.length_append, List.length_singleton] at hlength
      omega
  have hmissing := hwalk.concat_none hdir hnone₁
  have hplace : d₁.IsPlace (B ++ above ++ [name]) :=
    ⟨by rwa [List.dropLast_concat], .inl hnone₁⟩
  refine ⟨d₁, hmade, hplace, hnone₁, ?_⟩
  -- so the copy goes there
  have hread₁ := read_mono (fun _ _ hl => hmade.some_of_some hl) hread
  obtain ⟨l, hl, -⟩ := exists_of_read hread₁
  have hdest : base ++ partsOf (above ++ [name]) = base ++ partsOf above ++ [.down name] := by
    rw [partsOf_append, partsOf_singleton, List.append_assoc]
  have hcopy : copyPlace limit d₁ item (base ++ partsOf (above ++ [name])) =
      some (B ++ above ++ [name]) := by
    rw [hdest]
    unfold copyPlace isDirectory
    rw [hmissing]
    simp only [Option.any_none, Bool.false_eq_true, if_false, hmissing, walk_eq_some.2 hl,
      reduceCtorEq]
    exact hwalk.locate_concat hdir hnone₁
  unfold copyTo copy2
  rw [hdrop, hrun]
  dsimp only
  rw [hread₁, hcopy]

/-- Paths of files: none lies below another. -/
structure FilePaths (all : List Location) : Prop where
  nodup : all.Nodup
  nil_not_mem : [] ∉ all
  antichain : ∀ r ∈ all, ∀ r' ∈ all, r <+: r' → r = r'

/-- Below `B` there are copies of the files in `done`, and directories on the way to files in
`all`. -/
structure Mirror (content : Location → List UInt8) (all done : List Location) (d : Disk)
    (B : Location) : Prop where
  dir : d.IsDir B
  file : ∀ k ∈ done, d.node (B ++ k) = some (.file (content k))
  rest : ∀ k, k ∉ done → d.node (B ++ k) = none ∨
    d.IsDir (B ++ k) ∧ (k = [] ∨ ∃ r ∈ all, k <+: r ∧ k ≠ r)

section Mirror

variable {content : Location → List UInt8} {all done : List Location} {B relative : Location}
  {base item : List Part}

/-- An empty directory is a mirror of nothing. -/
theorem mirror_of_empty (hB : d.IsDir B) (hempty : ∀ k, k ≠ [] → d.node (B ++ k) = none) :
    Mirror content all [] d B where
  dir := hB
  file k hk := by cases hk
  rest k _ := by
    by_cases hk : k = []
    · subst hk
      exact .inr ⟨by rwa [List.append_nil], .inl rfl⟩
    · exact .inl (hempty k hk)

/-- **The next file is copied.** -/
theorem Mirror.copy (h : Mirror content all done d B) (hall : FilePaths all) (hdone : done ⊆ all)
    (hmem : relative ∈ all) (hnew : relative ∉ done) (hbase : d.Walks limit [] base B)
    (hread : read limit d item = some (content relative)) :
    ∃ d₁, copyTo limit d item (base ++ partsOf relative) = (.ok (), d₁) ∧ Extends B d d₁ ∧
      Mirror content all (relative :: done) d₁ B := by
  have hne : relative ≠ [] := fun hnil => hall.nil_not_mem (hnil ▸ hmem)
  have hnone : d.node (B ++ relative) = none := by
    rcases h.rest relative hnew with hnone | ⟨-, hnil | ⟨r, hr, hbegin, hneq⟩⟩
    · exact hnone
    · exact absurd hnil hne
    · exact absurd (hall.antichain relative hmem r hr hbegin) hneq
  -- what lies above the file is on the way to it
  have habove : ∀ k, k <+: relative.dropLast → k <+: relative ∧ k ≠ relative := by
    intro k hk
    refine ⟨hk.trans (List.dropLast_prefix relative), ?_⟩
    rintro rfl
    have hlength := hk.length_le
    rw [List.length_dropLast] at hlength
    have hpos := List.length_pos_iff.2 hne
    omega
  have hfree : ∀ k, k <+: relative.dropLast → d.node (B ++ k) = none ∨ d.IsDir (B ++ k) := by
    intro k hk
    obtain ⟨hbegin, hneq⟩ := habove k hk
    refine (h.rest k fun hkdone => ?_).imp_right And.left
    exact hneq (hall.antichain k (hdone hkdone) relative hmem hbegin)
  obtain ⟨d₁, hmade, hplace, hnone₁, hrun⟩ := copyTo_spec hbase h.dir hread hne hnone hfree
  have hbelow : ∀ l, (∃ k, k <+: relative.dropLast ∧ l = B ++ k) → B <+: l := by
    rintro l ⟨k, -, rfl⟩
    exact List.prefix_append B k
  have hextends : Extends B d (d₁.write (B ++ relative) (content relative)) :=
    (Extends.of_madeDirs hmade hbelow).trans
      (.of_write hplace hnone₁ (List.prefix_append B relative) _)
  refine ⟨_, hrun, hextends, hextends.1 _ _ h.dir, fun k hk => ?_, fun k hk => ?_⟩
  · rcases List.mem_cons.1 hk with rfl | hk
    · rw [hplace.node_write, if_pos rfl]
    · exact hextends.1 _ _ (h.file k hk)
  · rw [List.mem_cons, not_or] at hk
    have hneq : B ++ k ≠ B ++ relative := fun heq => hk.1 (List.append_cancel_left heq)
    rw [IsDir, hplace.node_write, if_neg hneq]
    rcases hmade.node (B ++ k) with hsame | ⟨-, hdir, k', hk', heq⟩
    · rw [hsame]
      exact h.rest k hk.2
    · obtain rfl := List.append_cancel_left heq
      exact .inr ⟨hdir, .inr ⟨relative, hmem, habove k hk'⟩⟩

end Mirror

/-! ## The files of a tree -/

section Files

variable {source : List Part} {root : Location}

theorem exists_entry_of_node {item : Node} (h : d.node l = some item) (hl : l ≠ []) :
    ∃ entry ∈ d.entries.rows, entry.location = l := by
  rw [node, nodeAt, if_neg hl] at h
  obtain ⟨entry, hentry, -⟩ := Option.map_eq_some_iff.1 h
  exact ⟨entry, Table.mem_of_get hentry, Table.key_of_get hentry⟩

theorem exists_node_of_entry {entry : Entry} (h : entry ∈ d.entries.rows) :
    ∃ item, d.node entry.location = some item := by
  by_cases hl : entry.location = []
  · exact ⟨.dir, by rw [hl, node_nil]⟩
  · have hget : d.entries.get entry.location = some entry := Table.mem_rows_iff.1 h
    exact ⟨entry.node, by rw [node, nodeAt, if_neg hl, hget, Option.map_some]⟩

/-- **The files below a directory**, when no links lie there. -/
theorem mem_filesBelow (hroot : d.Walks limit [] source root) (hdir : d.IsDir root)
    (hlinks : ∀ k dest, d.node (root ++ k) ≠ some (.link dest)) {k : Location} :
    k ∈ filesBelow limit d source ↔ d.IsFile (root ++ k) := by
  rw [filesBelow, walk_eq_some.2 hroot]
  simp only [mem_sortedBy, List.mem_filter, List.mem_map, Bool.and_eq_true, decide_eq_true_eq]
  constructor
  · rintro ⟨⟨_, ⟨⟨entry, hentry, rfl⟩, hbegin⟩, rfl⟩, -, hread⟩
    obtain ⟨item, hitem⟩ := exists_node_of_entry hentry
    obtain ⟨k, hk⟩ := hbegin
    rw [← hk] at hitem hread ⊢
    rw [List.drop_left] at hread ⊢
    cases item with
    | file content => exact ⟨content, hitem⟩
    | link dest => exact absurd hitem (hlinks k dest)
    | dir =>
      -- a directory cannot be read
      obtain ⟨content, hcontent⟩ := Option.isSome_iff_exists.1 hread
      obtain ⟨l, hl, hfile⟩ := exists_of_read hcontent
      obtain rfl := hl.unique (hroot.names (.inl hitem))
      rw [hitem] at hfile
      cases hfile
  · rintro ⟨content, hfile⟩
    have hk : k ≠ [] := by
      rintro rfl
      rw [List.append_nil, hdir] at hfile
      cases hfile
    have hne : root ++ k ≠ [] := fun hnil => hk (List.append_eq_nil_iff.1 hnil).2
    refine ⟨⟨root ++ k, ⟨exists_entry_of_node hfile hne, List.prefix_append root k⟩,
      List.drop_left⟩, hk, ?_⟩
    rw [read_of_walks (hroot.names (.inr ⟨content, hfile⟩)) hfile, Option.isSome_some]

theorem nodup_filesBelow (source : List Part) : (filesBelow limit d source).Nodup := by
  unfold filesBelow
  split
  · exact List.nodup_nil
  rename_i root _
  refine (sortedBy_perm _ _).nodup_iff.2 (List.Nodup.filter _ ?_)
  have hrows : (d.entries.rows.map Entry.location).Nodup := d.entries.nodup
  refine List.Nodup.map_on (fun l hl l' hl' heq => ?_) (hrows.filter _)
  obtain ⟨k, rfl⟩ := of_decide_eq_true (List.mem_filter.1 hl).2
  obtain ⟨k', rfl⟩ := of_decide_eq_true (List.mem_filter.1 hl').2
  rw [List.drop_left, List.drop_left] at heq
  rw [heq]

/-- They are paths of files. -/
theorem filePaths_filesBelow (hroot : d.Walks limit [] source root) (hdir : d.IsDir root)
    (hlinks : ∀ k dest, d.node (root ++ k) ≠ some (.link dest)) :
    FilePaths (filesBelow limit d source) where
  nodup := nodup_filesBelow source
  nil_not_mem hmem := by
    rw [mem_filesBelow hroot hdir hlinks, List.append_nil] at hmem
    exact hdir.not_isFile hmem
  antichain r hr r' hr' hbegin := by
    rw [mem_filesBelow hroot hdir hlinks] at hr hr'
    obtain ⟨k, rfl⟩ := hbegin
    obtain ⟨content, hfile⟩ := hr'
    by_contra hne
    have hk : k ≠ [] := by
      rintro rfl
      rw [List.append_nil] at hne
      exact hne rfl
    rw [← List.append_assoc] at hfile
    exact (isDir_of_append hfile hk).not_isFile hr

end Files

end Operations
end RagflowAgent
