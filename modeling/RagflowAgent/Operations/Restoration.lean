import RagflowAgent.Operations.Containment
import RagflowAgent.Operations.Copies

/-!
# What a restoration leaves

A backup that was just created is restored exactly: `restore_createBackup`.

* `copyFiles_spec` and `restoreEntries_spec` are the loops: both copy all files of a tree;
* `createBackup_spec` says what a backup holds, `openRestore_of_empty` how it is opened;
* `backup_restoration` puts this together with `contained_iff`.
-/

namespace RagflowAgent
namespace Operations

open Files Disk

variable {host : Host} {d : Disk} {payload target : List Part} {T : Location} {limit : ℕ}

/-! ## The loops -/

/-- The entry of a file. -/
def entryOf (host : Host) (content : Location → List UInt8) (relative : Location) : BackupEntry :=
  { path := renderNames relative
    size := (content relative).length
    sha256 := host.sha256 (content relative) }

section Loops

variable {content : Location → List UInt8} {all done rest : List Location}
  {P : Location} {source : List Part}

/-- Creating a backup copies all files. -/
theorem copyFiles_spec (h : Mirror content all done d P) (hall : FilePaths all)
    (hdone : done ⊆ all) (hrest : rest ⊆ all) (hnodup : rest.Nodup) (hdisjoint : done.Disjoint rest)
    (hpayload : d.Walks host.linkLimit [] payload P)
    (hread : ∀ r ∈ rest, read host.linkLimit d (source ++ partsOf r) = some (content r)) :
    ∃ d₁, copyFiles host source payload rest d = (.ok (rest.map (entryOf host content)), d₁) ∧
      Extends P d d₁ ∧ Mirror content all (rest.reverse ++ done) d₁ P := by
  induction rest generalizing d done with
  | nil => exact ⟨d, rfl, .refl P d, h⟩
  | cons relative rest ih =>
    obtain ⟨hhead, hnodup⟩ := List.nodup_cons.1 hnodup
    obtain ⟨hmem, hrest⟩ := List.cons_subset.1 hrest
    have hnew : relative ∉ done := fun hmem => hdisjoint hmem List.mem_cons_self
    obtain ⟨d₁, hrun, hextends, hmirror⟩ :=
      h.copy hall hdone hmem hnew hpayload (hread relative List.mem_cons_self)
    have hdisjoint' : (relative :: done).Disjoint rest := by
      rw [List.disjoint_cons_left]
      exact ⟨hhead, fun a ha ha' => hdisjoint ha (List.mem_cons_of_mem relative ha')⟩
    obtain ⟨d₂, hrun₂, hextends₂, hmirror₂⟩ := ih hmirror
      (List.cons_subset.2 ⟨hmem, hdone⟩) hrest hnodup hdisjoint' (hpayload.mono hextends.keeps)
      fun r hr => read_mono hextends.1 (hread r (List.mem_cons_of_mem relative hr))
    refine ⟨d₂, ?_, hextends.trans hextends₂, by simpa using hmirror₂⟩
    unfold copyFiles
    simp only [hrun, read_mono hextends.1 (hread relative List.mem_cons_self), hrun₂]
    rfl

/-- An entry that was just created passes its check. -/
theorem validateEntry_entryOf (hpayload : d.Walks host.linkLimit [] payload P) {r : Location}
    (hne : r ≠ []) (hfile : d.node (P ++ r) = some (.file (content r))) :
    validateEntry host d payload (entryOf host content r) = .ok (⟨false, partsOf r⟩, P ++ r) := by
  have hsource : d.resolve host.linkLimit [] (payload ++ partsOf r) = P ++ r :=
    resolve_of_walks (hpayload.names (.inr ⟨_, hfile⟩))
  have hread : read host.linkLimit d (partsOf (P ++ r)) = some (content r) := by
    have hwalk : d.Walks host.linkLimit [] ([] ++ partsOf (P ++ r)) ([] ++ (P ++ r)) :=
      Walks.nil.names (.inr ⟨_, hfile⟩)
    exact read_of_walks hwalk hfile
  have hinside : P <+: P ++ r ∧ P ≠ P ++ r :=
    ⟨List.prefix_append P r, fun heq => hne (List.append_right_eq_self.1 heq.symm)⟩
  unfold validateEntry entryOf
  rw [parsePath_renderNames hne]
  simp only [Path.joinTo, Bool.false_eq_true, if_false, hsource, resolve_of_walks hpayload,
    if_pos hinside, hread, if_true]

/-- Restoring it copies all files. -/
theorem restoreEntries_spec {T : Location} (h : Mirror content all done d T)
    (hall : FilePaths all) (hdone : done ⊆ all) (hrest : rest ⊆ all) (hnodup : rest.Nodup)
    (hdisjoint : done.Disjoint rest) (hpayload : d.Walks host.linkLimit [] payload P)
    (htarget : d.Walks host.linkLimit [] target T)
    (hfiles : ∀ r ∈ rest, d.node (P ++ r) = some (.file (content r))) :
    ∃ d₁, restoreEntries host payload target (rest.map (entryOf host content)) d = (.ok (), d₁) ∧
      Mirror content all (rest.reverse ++ done) d₁ T := by
  induction rest generalizing d done with
  | nil => exact ⟨d, rfl, h⟩
  | cons relative rest ih =>
    obtain ⟨hhead, hnodup⟩ := List.nodup_cons.1 hnodup
    obtain ⟨hmem, hrest⟩ := List.cons_subset.1 hrest
    have hnew : relative ∉ done := fun hmem => hdisjoint hmem List.mem_cons_self
    have hne : relative ≠ [] := fun hnil => hall.nil_not_mem (hnil ▸ hmem)
    have hfile := hfiles relative List.mem_cons_self
    have hread : read host.linkLimit d (partsOf (P ++ relative)) = some (content relative) := by
      have hwalk : d.Walks host.linkLimit [] ([] ++ partsOf (P ++ relative))
          ([] ++ (P ++ relative)) := Walks.nil.names (.inr ⟨_, hfile⟩)
      exact read_of_walks hwalk hfile
    obtain ⟨d₁, hrun, hextends, hmirror⟩ := h.copy hall hdone hmem hnew htarget hread
    have hdisjoint' : (relative :: done).Disjoint rest := by
      rw [List.disjoint_cons_left]
      exact ⟨hhead, fun a ha ha' => hdisjoint ha (List.mem_cons_of_mem relative ha')⟩
    obtain ⟨d₂, hrun₂, hmirror₂⟩ := ih hmirror
      (List.cons_subset.2 ⟨hmem, hdone⟩) hrest hnodup hdisjoint' (hpayload.mono hextends.keeps)
      (htarget.mono hextends.keeps)
      fun r hr => hextends.1 _ _ (hfiles r (List.mem_cons_of_mem relative hr))
    refine ⟨d₂, ?_, by simpa using hmirror₂⟩
    rw [List.map_cons]
    unfold restoreEntries restoreEntry
    rw [validateEntry_entryOf hpayload hne hfile]
    simp only [Path.joinTo, Bool.false_eq_true, if_false, hrun, hrun₂]

end Loops

/-! ## Empty locations -/

/-- A path that leads to an empty directory, once it has been made. -/
structure EmptyLocation (limit : ℕ) (d : Disk) (path : List Part) : Prop where
  made : (makeDirs limit d [] path).2 = true
  empty : ∀ l, (makeDirs limit d [] path).1.Walks limit [] path l →
    ∀ k, k ≠ [] → (makeDirs limit d [] path).1.node (l ++ k) = none

/-- What making an empty location gives. -/
theorem EmptyLocation.exists_made {path : List Part} (h : EmptyLocation limit d path) :
    ∃ d₁ T, makeDirs limit d [] path = (d₁, true) ∧ MadeDirs (fun _ => True) d d₁ ∧
      d₁.Walks limit [] path T ∧ d₁.IsDir T ∧ ∀ k, k ≠ [] → d₁.node (T ++ k) = none := by
  have hroot : d.Walks limit [] [] [] := .nil
  obtain ⟨hmade, hend⟩ : MadeDirs (fun _ => True) d (makeDirs limit d [] path).1 ∧ _ :=
    makeDirs_spec hroot (node_nil d)
  obtain ⟨T, hT, hdir⟩ := hend h.made
  exact ⟨_, T, Prod.ext rfl h.made, hmade, hT, hdir, h.empty T hT⟩

theorem hasChildren_eq_false (h : ∀ k, k ≠ [] → d.node (T ++ k) = none) :
    hasChildren d T = false := by
  rw [hasChildren, List.any_eq_false]
  intro entry hentry hchild
  obtain ⟨hne, hlast⟩ := of_decide_eq_true hchild
  obtain ⟨item, hitem⟩ := exists_node_of_entry hentry
  obtain ⟨name, hname⟩ : ∃ name, entry.location = T ++ [name] :=
    ⟨_, by rw [← hlast, List.dropLast_append_getLast hne]⟩
  rw [hname, h [name] (List.cons_ne_nil name [])] at hitem
  cases hitem

/-- **A restoration into an empty location gets as far as the entries.** -/
theorem openRestore_of_empty {backup : List Part} {text : List UInt8} {manifest : BackupManifest}
    (h : EmptyLocation host.linkLimit d target)
    (hread : read host.linkLimit d (backup ++ [.down manifestName]) = some text)
    (hvalid : host.validateJson text = .ok manifest) :
    ∃ d₁ T, openRestore host d backup target = (.ok manifest, d₁) ∧
      MadeDirs (fun _ => True) d d₁ ∧ d₁.Walks host.linkLimit [] target T ∧ d₁.IsDir T ∧
      ∀ k, k ≠ [] → d₁.node (T ++ k) = none := by
  obtain ⟨d₁, T, hrun, hmade, hT, hdir, hempty⟩ := h.exists_made
  refine ⟨d₁, T, ?_, hmade, hT, hdir, hempty⟩
  -- if the target is there already, then it is an empty directory
  have hfilter : ((d.walk host.linkLimit [] target).filter fun l =>
      decide (d.IsDir l → hasChildren d l)) = none := by
    rw [Option.filter_eq_none_iff]
    intro l hl
    have hwalk := walk_eq_some.1 hl
    obtain rfl := hT.unique (hwalk.mono hmade.keeps)
    have hd : d.IsDir T := by
      rcases hwalk.exists (node_nil d) with hd | hfile
      · exact hd
      · exact absurd (hmade.keeps.file T hfile) hdir.not_isFile
    have hchildren : hasChildren d T = false := by
      refine hasChildren_eq_false fun k hk => ?_
      rcases hmade.node (T ++ k) with hsame | ⟨hnone, -⟩
      · rw [← hsame, hempty k hk]
      · exact hnone
    simp [hd, hchildren]
  unfold openRestore
  rw [hfilter, hread]
  simp only [hvalid, hrun]

/-! ## The round trip -/

section RoundTrip

variable {source backup : List Part} {s : Location} {createdAt : Datetime}

/-- What a backup of the files below `s` holds. -/
structure Holds (host : Host) (d : Disk) (s : Location) (files : List Location)
    (content : Location → List UInt8) (d₁ : Disk) (backup : List Part) (text : List UInt8) :
    Prop where
  paths : FilePaths files
  mem_files : ∀ k, k ∈ files ↔ d.IsFile (s ++ k)
  content_eq : ∀ k bytes, d.node (s ++ k) = some (.file bytes) → content k = bytes
  text : read host.linkLimit d₁ (backup ++ [.down manifestName]) = some text
  payload : ∃ P, d₁.Walks host.linkLimit [] (backup ++ [.down payloadName]) P ∧
    ∀ k ∈ files, d₁.node (P ++ k) = some (.file (content k))

/-- The manifest of a backup. -/
def manifestOf (host : Host) (createdAt : Datetime) (files : List Location)
    (content : Location → List UInt8) : BackupManifest :=
  { createdAt := createdAt, entries := files.map (entryOf host content) }

theorem isDirectory_of_walks {path : List Part} {l : Location} (h : d.Walks limit [] path l)
    (hl : d.IsDir l) : isDirectory limit d path = true := by
  rw [isDirectory, walk_eq_some.2 h, Option.any_some, decide_eq_true_iff]
  exact hl

/-- The directories of a backup `B`, before the first file is copied. -/
structure Opened (limit : ℕ) (d : Disk) (backup : List Part) (B : Location) : Prop where
  walks : d.Walks limit [] backup B
  dir : d.IsDir B
  payload : d.IsDir (B ++ [payloadName])
  empty : ∀ k, k ≠ [] → k ≠ [payloadName] → d.node (B ++ k) = none

theorem EmptyLocation.opened (h : EmptyLocation limit d backup) :
    ∃ d₁ d₂ B, makeDirs limit d [] backup = (d₁, true) ∧
      makeDir limit d₁ backup payloadName = (d₂, true) ∧ MadeDirs (fun _ => True) d d₂ ∧
      Opened limit d₂ backup B := by
  obtain ⟨d₁, B, hrun, hmade, hB, hdir, hempty⟩ := h.exists_made
  have hnone : d₁.node (B ++ [payloadName]) = none := hempty _ (List.cons_ne_nil _ _)
  have hput := madeDirs_put hdir hnone
  have hnode := node_put_dir hdir hnone
  have hmake : makeDir limit d₁ backup payloadName = (d₁.put (B ++ [payloadName]) .dir, true) := by
    rw [makeDir, walk_eq_some.2 hB]
    dsimp only
    rw [if_pos hnone]
  refine ⟨d₁, _, B, hrun, hmake, hmade.trans (hput.mono fun _ _ => trivial),
    hB.mono hput.keeps, hput.keeps.dir B hdir, ?_, fun k hk hk' => ?_⟩
  · rw [IsDir, hnode, if_pos rfl]
  · rw [hnode, if_neg fun heq => hk' (List.append_cancel_left heq)]
    exact hempty k hk

/-- The files below a directory, on a disk with some more directories. -/
theorem filesBelow_of_madeDirs {d₂ : Disk} (hsource : d.Walks limit [] source s) (hs : d.IsDir s)
    (hlinks : ∀ k dest, d.node (s ++ k) ≠ some (.link dest))
    (hmade : MadeDirs (fun _ => True) d d₂) :
    FilePaths (filesBelow limit d₂ source) ∧
      ∀ k, k ∈ filesBelow limit d₂ source ↔ d.IsFile (s ++ k) := by
  have hsource₂ := hsource.mono hmade.keeps
  have hs₂ := hmade.keeps.dir s hs
  have hlinks₂ : ∀ k dest, d₂.node (s ++ k) ≠ some (.link dest) := by
    intro k dest hlink
    rcases hmade.node (s ++ k) with hsame | ⟨-, hdir, -⟩
    · exact hlinks k dest (hsame ▸ hlink)
    · rw [IsDir, hlink] at hdir
      cases hdir
  refine ⟨filePaths_filesBelow hsource₂ hs₂ hlinks₂, fun k => ?_⟩
  rw [mem_filesBelow hsource₂ hs₂ hlinks₂, hmade.isFile_iff]

/-- **Creating a backup in an empty location** copies the files below the source. -/
theorem createBackup_spec (hsource : d.Walks host.linkLimit [] source s) (hs : d.IsDir s)
    (hlinks : ∀ k dest, d.node (s ++ k) ≠ some (.link dest))
    (hnew : d.walk host.linkLimit [] backup = none)
    (hbackup : EmptyLocation host.linkLimit d backup) (haware : createdAt.utcOffset ≠ none) :
    ∃ files content d₁,
      createBackup host d source backup createdAt =
        (.ok (manifestOf host createdAt files content), d₁) ∧
      Holds host d s files content d₁ backup
        (host.dump (manifestOf host createdAt files content)) := by
  -- the directories, and the files to be copied
  obtain ⟨d₁, d₂, B, hdirs, hmake, hmade, hB, hBdir, hPdir, hempty⟩ := hbackup.opened
  obtain ⟨hpaths, hmem⟩ := filesBelow_of_madeDirs hsource hs hlinks hmade
  obtain ⟨files, hfiles⟩ : ∃ files, files = filesBelow host.linkLimit d₂ source := ⟨_, rfl⟩
  rw [← hfiles] at hpaths hmem
  obtain ⟨content, hcontent⟩ : ∃ content : Location → List UInt8,
      ∀ k bytes, d.node (s ++ k) = some (.file bytes) → content k = bytes :=
    ⟨fun k => (contentAt d (s ++ k)).getD [], fun k bytes hk => by
      simp only [contentAt, hk, Option.getD_some]⟩
  have hread : ∀ r ∈ files, read host.linkLimit d₂ (source ++ partsOf r) = some (content r) := by
    intro r hr
    obtain ⟨bytes, hbytes⟩ := (hmem r).1 hr
    have hbytes₂ := hmade.some_of_some hbytes
    rw [hcontent r bytes hbytes]
    exact read_of_walks ((hsource.mono hmade.keeps).names (.inr ⟨bytes, hbytes₂⟩)) hbytes₂
  -- the copies
  have hP := hB.concat_dir hBdir hPdir
  have hPempty : ∀ k, k ≠ [] → d₂.node (B ++ [payloadName] ++ k) = none := fun k hk => by
    rw [List.append_assoc]
    exact hempty _ (List.cons_ne_nil _ _) (by simpa using hk)
  obtain ⟨d₃, hcopy, hextends, hmirror⟩ := copyFiles_spec (mirror_of_empty hPdir hPempty) hpaths
    (List.nil_subset files) (List.Subset.refl files) hpaths.nodup (List.disjoint_nil_left files)
    hP hread
  rw [List.append_nil] at hmirror
  -- the manifest, which lies beside the payload
  have hbeside : ¬ B ++ [payloadName] <+: B ++ [manifestName] := by
    rw [List.prefix_append_right_inj]
    decide
  have hnone : d₃.node (B ++ [manifestName]) = none := by
    rw [hextends.outside _ hbeside]
    exact hempty _ (List.cons_ne_nil _ _) (by decide)
  have hBdir₃ := hextends.keeps.dir B hBdir
  have hplace : d₃.IsPlace (B ++ [manifestName]) := ⟨by rwa [List.dropLast_concat], .inl hnone⟩
  have hlocate := (hB.mono hextends.keeps).locate_concat hBdir₃ hnone
  obtain ⟨text, htext⟩ : ∃ text, text = host.dump (manifestOf host createdAt files content) :=
    ⟨_, rfl⟩
  have hkeeps := hplace.keeps_write text
  refine ⟨files, content, d₃.write (B ++ [manifestName]) text, ?_, hpaths, hmem, hcontent, ?_,
    B ++ [payloadName], ?_, fun k hk => ?_⟩
  · unfold createBackup
    rw [if_neg]
    · simp only [hdirs, hmake, ← hfiles, hcopy, if_neg haware, hlocate, htext]
      rfl
    · rw [isDirectory_of_walks hsource hs, hnew]
      simp
  · have hfile := hplace.node_write text (B ++ [manifestName])
    rw [if_pos rfl] at hfile
    rw [← htext]
    exact read_of_walks (((hB.mono hextends.keeps).mono hkeeps).concat_file
      (hkeeps.dir B hBdir₃) ⟨text, hfile⟩) hfile
  · exact (hP.mono hextends.keeps).mono hkeeps
  · rw [hplace.node_write, if_neg]
    · exact hmirror.file k (List.mem_reverse.2 hk)
    · intro heq
      exact hbeside (heq ▸ List.prefix_append (B ++ [payloadName]) k)

/-- **A backup that was just created is restored exactly.** -/
theorem restore_createBackup (hsource : d.Walks host.linkLimit [] source s) (hs : d.IsDir s)
    (hlinks : ∀ k dest, d.node (s ++ k) ≠ some (.link dest))
    (hnew : d.walk host.linkLimit [] backup = none)
    (hbackup : EmptyLocation host.linkLimit d backup) (haware : createdAt.utcOffset ≠ none)
    (hjson : ∀ manifest, (createBackup host d source backup createdAt).1 = .ok manifest →
      host.validateJson (host.dump manifest) = .ok manifest) :
    ∃ manifest d₁, createBackup host d source backup createdAt = (.ok manifest, d₁) ∧
      ∀ target, EmptyLocation host.linkLimit d₁ target →
        ∃ d₂ T, restoreBackup host d₁ backup target = (.ok manifest, d₂) ∧
          d₂.Walks host.linkLimit [] target T ∧
          ∀ k content, d₂.node (T ++ k) = some (.file content) ↔
            d.node (s ++ k) = some (.file content) := by
  obtain ⟨files, content, d₁, hcreate, hpaths, hmem, hcontent, htext, P, hP, hfiles⟩ :=
    createBackup_spec hsource hs hlinks hnew hbackup haware
  refine ⟨_, d₁, hcreate, fun target htarget => ?_⟩
  have hvalid := hjson _ (by rw [hcreate])
  obtain ⟨d₂, T, hopen, hmade, hT, hTdir, hTempty⟩ := openRestore_of_empty htarget htext hvalid
  obtain ⟨d₃, hrun, hmirror⟩ := restoreEntries_spec (mirror_of_empty hTdir hTempty) hpaths
    (List.nil_subset files) (List.Subset.refl files) hpaths.nodup (List.disjoint_nil_left files)
    (hP.mono hmade.keeps) hT fun r hr => hmade.some_of_some (hfiles r hr)
  rw [List.append_nil] at hmirror
  have hkeeps := (restoreEntries_written host (backup ++ [.down payloadName]) target
    (files.map (entryOf host content)) d₂).1
  rw [hrun] at hkeeps
  refine ⟨d₃, T, ?_, hT.mono hkeeps, fun k bytes => ⟨fun hk => ?_, fun hk => ?_⟩⟩
  · unfold restoreBackup
    simp only [hopen, manifestOf, hrun]
  · -- whatever file is there has been copied
    by_cases hfile : k ∈ files
    · obtain ⟨bytes', hbytes'⟩ := (hmem k).1 hfile
      rw [hmirror.file k (List.mem_reverse.2 hfile), hcontent k bytes' hbytes'] at hk
      cases hk
      exact hbytes'
    · rcases hmirror.rest k (fun hdone => hfile (List.mem_reverse.1 hdone)) with hnone | ⟨hdir, -⟩
      · rw [hnone] at hk
        cases hk
      · exact absurd ⟨bytes, hk⟩ hdir.not_isFile
  · rw [hmirror.file k (List.mem_reverse.2 ((hmem k).2 ⟨bytes, hk⟩)), hcontent k bytes hk]

end RoundTrip

/-! ## Backups and restorations -/

/-- A missing name in a directory is an empty location. -/
theorem emptyLocation_concat {path : List Part} {l : Location} {name : Name}
    (h : d.Walks limit [] path l) (hl : d.IsDir l) (hnone : d.node (l ++ [name]) = none) :
    EmptyLocation limit d (path ++ [.down name]) := by
  have hdirs : makeDirs limit d [] (path ++ [.down name]) =
      (d.put (l ++ [name]) .dir, true) := by
    have hwalk : d.Walks limit [] ([] ++ path) l := h
    rw [makeDirs_of_walks hwalk hl, List.nil_append]
    simp only [makeDirs, h.concat_none hl hnone, walk_eq_some.2 h, if_pos hnone]
  have hput := madeDirs_put hl hnone
  have hnode := node_put_dir hl hnone
  have hnew : (d.put (l ++ [name]) .dir).IsDir (l ++ [name]) := by
    rw [IsDir, hnode, if_pos rfl]
  have hwalk := (h.mono hput.keeps).concat_dir (hput.keeps.dir l hl) hnew
  refine ⟨by rw [hdirs], fun T hT k hk => ?_⟩
  rw [hdirs] at hT ⊢
  obtain rfl := hwalk.unique hT
  rw [hnode, if_neg fun heq => hk (List.append_right_eq_self.1 heq)]
  -- what lies below a missing name is missing
  cases hitem : d.node (l ++ [name] ++ k) with
  | none => rfl
  | some item =>
    have hdir := isDir_of_append hitem hk
    rw [IsDir, hnone] at hdir
    cases hdir

namespace BackupSample

def data : Name := ⟨"data", by decide⟩

def backup : Name := ⟨"backup", by decide⟩

def restored : Name := ⟨"restored", by decide⟩

def first : Name := ⟨"a.txt", by decide⟩

def second : Name := ⟨"b.txt", by decide⟩

def bytes (text : String) : List UInt8 := text.toList.map fun c => UInt8.ofNat c.toNat

def digest (content : List UInt8) : String :=
  if content = bytes "abc" then
    "ba7816bf8f01cfea414140de5dae2223b00361a396177a9cb410ff61f20015ad"
  else if content = bytes "xyz" then
    "3608bca1e44ea6c4d268eb6db02260269892c0b42b86bbf1e77a6fa16c3c9282"
  else "e3b0c44298fc1c149afbf4c8996fb92427ae41e4649b934ca495991b7852b855"

def entry (path : String) : BackupEntry :=
  { path := path
    size := 3
    sha256 := "ba7816bf8f01cfea414140de5dae2223b00361a396177a9cb410ff61f20015ad" }

def manifest (entries : List BackupEntry) : BackupManifest :=
  { createdAt := ⟨1785542400, some 0⟩, entries := entries }

def dumpEntry (entry : BackupEntry) : List UInt8 :=
  bytes "    \x7b\n      \"path\": \"" ++ bytes entry.path ++
    bytes "\",\n      \"size\": 3,\n      \"sha256\": \"" ++ bytes entry.sha256 ++
      bytes "\"\n    \x7d"

def dump (manifest : BackupManifest) : List UInt8 :=
  bytes "\x7b\n  \"schema_version\": 1,\n  \"created_at\": \"2026-08-01T00:00:00Z\",\n" ++
    bytes "  \"rpo_hours\": 24,\n  \"rto_hours\": 4,\n  \"entries\": [\n" ++
      (bytes ",\n").intercalate (manifest.entries.map dumpEntry) ++
        bytes "\n  ],\n  \"search_indexes_rebuildable\": true\n\x7d\n"

def manifests : List BackupManifest :=
  [manifest [entry "a.txt"], manifest [entry "a.txt", entry "b.txt"],
    manifest [entry "../payload/a.txt"]]

def sampleHost : Host where
  sha256 := digest
  dump := dump
  validateJson text :=
    match manifests.find? fun manifest => decide (dump manifest = text) with
    | some manifest => .ok manifest
    | none => .error (.value "Invalid JSON")

def blank : Disk where
  entries := .empty
  closed l item h := by
    rcases eq_or_ne l [] with rfl | hl
    · rfl
    · rw [nodeAt, if_neg hl] at h
      cases h

/-- A directory with one file. -/
def tree : Disk := (blank.put [data] .dir).put [data, first] (.file (bytes "abc"))

/-- A backup of two files, the second of which was changed, with some manifest. -/
def stored (manifest : BackupManifest) : Disk :=
  ((((blank.put [backup] .dir).put [backup, payloadName] .dir).put
    [backup, payloadName, first] (.file (bytes "abc"))).put
      [backup, payloadName, second] (.file (bytes "xyz"))).put
        [backup, manifestName] (.file (dump manifest))

theorem node_tree (l : Location) :
    tree.node l = if l = [data, first] then some (.file (bytes "abc")) else
      if l = [data] then some .dir else blank.node l := by
  have hdata : ∀ k, (blank.put [data] .dir).node k = if k = [data] then some .dir else
      blank.node k := fun k => node_put (by decide) (by decide) k
  have hdir : (blank.put [data] .dir).IsDir [data] := by
    rw [IsDir, hdata, if_pos rfl]
  have hfree : ¬ (blank.put [data] .dir).IsDir [data, first] := by
    rw [IsDir, hdata]
    decide
  rw [tree, node_put hdir hfree, hdata]

theorem tree_no_link (l : Location) (dest : Path) : tree.node l ≠ some (.link dest) := by
  rw [node_tree]
  split
  · simp
  · split
    · simp
    · rw [node, nodeAt]
      split <;> simp [blank, Table.get, Table.empty]

end BackupSample

end Operations
end RagflowAgent
