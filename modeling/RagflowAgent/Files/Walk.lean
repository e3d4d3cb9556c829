import RagflowAgent.Files.Disk

/-!
# Following a path

A path is followed part by part from a directory, and a link on the way is replaced by the path it
holds.  The kernel follows a limited number of links.

* `Disk.walk` is what the kernel finds at the end of a path, and `Disk.Walks` the same as a
  relation; `Walks.names` leads on by names;
* `Disk.locate` is the place of a file that is opened for writing, and `Disk.Locates` its relation;
* `Disk.resolve` is `realpath`, which takes what it does not find as it is: `resolve_of_walks`;
* `Disk.makeDirs` makes the directories that are missing on a path: `makeDirs_spec`, and
  `makeDirs_names` for a path that goes on by names.
-/

namespace RagflowAgent
namespace Files

/-- Where the target of a link that lies in `cur` starts. -/
def Path.start (path : Path) (cur : Location) : Location := if path.absolute then [] else cur

namespace Disk

/-! ## What the kernel finds -/

/-- One path, with `follow` for the links. -/
def walkParts (d : Disk) (follow : Location → List Part → Option Location) :
    Location → List Part → Option Location
  | cur, [] => some cur
  | cur, .up :: rest => d.walkParts follow cur.dropLast rest
  | cur, .down name :: rest =>
    match d.node (cur ++ [name]) with
    | some .dir => d.walkParts follow (cur ++ [name]) rest
    | some (.file _) => if rest = [] then some (cur ++ [name]) else none
    | some (.link dest) => follow (dest.start cur) (dest.parts ++ rest)
    | none => none

/-- Follow a path from a directory, through `limit` links at most. -/
def walk (d : Disk) : (limit : ℕ) → Location → List Part → Option Location
  | 0 => d.walkParts fun _ _ => none
  | limit + 1 => d.walkParts (d.walk limit)

/-- The path leads from one place to the other. -/
inductive Walks (d : Disk) : ℕ → Location → List Part → Location → Prop where
  | nil {limit : ℕ} {cur : Location} : Walks d limit cur [] cur
  | up {limit : ℕ} {cur l : Location} {rest : List Part} :
      Walks d limit cur.dropLast rest l → Walks d limit cur (.up :: rest) l
  | dir {limit : ℕ} {cur l : Location} {name : Name} {rest : List Part} :
      d.IsDir (cur ++ [name]) → Walks d limit (cur ++ [name]) rest l →
      Walks d limit cur (.down name :: rest) l
  | file {limit : ℕ} {cur : Location} {name : Name} :
      d.IsFile (cur ++ [name]) → Walks d limit cur [.down name] (cur ++ [name])
  | link {limit : ℕ} {cur l : Location} {name : Name} {dest : Path} {rest : List Part} :
      d.node (cur ++ [name]) = some (.link dest) →
      Walks d limit (dest.start cur) (dest.parts ++ rest) l →
      Walks d (limit + 1) cur (.down name :: rest) l

variable {d d' : Disk} {limit : ℕ} {cur l l' start : Location} {name : Name}
  {parts rest : List Part}

theorem walks_of_walkParts {follow : Location → List Part → Option Location}
    (hfollow : ∀ cur name dest rest l, d.node (cur ++ [name]) = some (.link dest) →
      follow (dest.start cur) (dest.parts ++ rest) = some l →
      d.Walks limit cur (.down name :: rest) l)
    (h : d.walkParts follow cur parts = some l) : d.Walks limit cur parts l := by
  induction parts generalizing cur with
  | nil =>
    cases h
    exact .nil
  | cons part rest ih =>
    cases part with
    | up => exact .up (ih h)
    | down name =>
      unfold walkParts at h
      split at h
      · rename_i hdir
        exact .dir hdir (ih h)
      · rename_i content hfile
        split at h
        · rename_i hrest
          subst hrest
          cases h
          exact .file ⟨content, hfile⟩
        · cases h
      · rename_i dest hlink
        exact hfollow cur name dest rest l hlink h
      · cases h

theorem walks_of_walk (h : d.walk limit cur parts = some l) : d.Walks limit cur parts l := by
  induction limit generalizing cur parts l with
  | zero =>
    refine walks_of_walkParts (fun _ _ _ _ _ _ hfollow => ?_) h
    cases hfollow
  | succ limit ih =>
    exact walks_of_walkParts (fun _ _ _ _ _ hlink hfollow => .link hlink (ih hfollow)) h

/-- The equations of `walk`, for every limit at once. -/
theorem walk_nil : d.walk limit cur [] = some cur := by
  cases limit <;> rfl

theorem walk_up : d.walk limit cur (.up :: rest) = d.walk limit cur.dropLast rest := by
  cases limit <;> rfl

theorem walk_dir (h : d.IsDir (cur ++ [name])) :
    d.walk limit cur (.down name :: rest) = d.walk limit (cur ++ [name]) rest := by
  rw [IsDir] at h
  cases limit <;>
  · unfold walk
    rw [walkParts, h]

theorem walk_file (h : d.IsFile (cur ++ [name])) :
    d.walk limit cur [.down name] = some (cur ++ [name]) := by
  obtain ⟨content, h⟩ := h
  cases limit <;>
  · unfold walk
    rw [walkParts, h]
    rfl

theorem walk_link {dest : Path} (h : d.node (cur ++ [name]) = some (.link dest)) :
    d.walk (limit + 1) cur (.down name :: rest) =
      d.walk limit (dest.start cur) (dest.parts ++ rest) := by
  rw [walk, walkParts, h]

theorem walk_none (h : d.node (cur ++ [name]) = none) :
    d.walk limit cur (.down name :: rest) = none := by
  cases limit <;>
  · unfold walk
    rw [walkParts, h]

/-- **The function and the relation agree.** -/
theorem walk_eq_some : d.walk limit cur parts = some l ↔ d.Walks limit cur parts l := by
  refine ⟨walks_of_walk, fun h => ?_⟩
  induction h with
  | nil => exact walk_nil
  | up _ ih => rw [walk_up, ih]
  | dir hdir _ ih => rw [walk_dir hdir, ih]
  | file hfile => exact walk_file hfile
  | link hlink _ ih => rw [walk_link hlink, ih]

theorem Walks.unique (h : d.Walks limit cur parts l) (h' : d.Walks limit cur parts l') :
    l = l' := by
  rw [← walk_eq_some] at h h'
  rw [h] at h'
  exact Option.some.inj h'

theorem IsDir.not_isFile (h : d.IsDir l) : ¬ d.IsFile l := by
  rintro ⟨content, hfile⟩
  rw [IsDir, hfile] at h
  cases h

theorem isDir_start (h : d.IsDir cur) (dest : Path) : d.IsDir (dest.start cur) := by
  unfold Path.start
  split
  · exact node_nil d
  · exact h

/-- What is found at the end of a path is a directory or a file. -/
theorem Walks.exists (h : d.Walks limit cur parts l) (hcur : d.IsDir cur) :
    d.IsDir l ∨ d.IsFile l := by
  induction h with
  | nil => exact .inl hcur
  | up _ ih => exact ih (isDir_dropLast hcur)
  | dir hdir _ ih => exact ih hdir
  | file hfile => exact .inr hfile
  | link _ _ ih => exact ih (isDir_start hcur _)

/-! ## Growing disks -/

/-- Directories and links stay, and files stay files. -/
structure Keeps (d d' : Disk) : Prop where
  dir : ∀ l, d.IsDir l → d'.IsDir l
  link : ∀ l dest, d.node l = some (.link dest) → d'.node l = some (.link dest)
  file : ∀ l, d.IsFile l → d'.IsFile l

theorem Keeps.refl (d : Disk) : d.Keeps d := ⟨fun _ h => h, fun _ _ h => h, fun _ h => h⟩

theorem Keeps.trans {d'' : Disk} (h : d.Keeps d') (h' : d'.Keeps d'') : d.Keeps d'' :=
  ⟨fun l hl => h'.dir l (h.dir l hl), fun l dest hl => h'.link l dest (h.link l dest hl),
    fun l hl => h'.file l (h.file l hl)⟩

/-- A path that leads somewhere leads there on a disk that has grown. -/
theorem Walks.mono (h : d.Walks limit cur parts l) (hd : d.Keeps d') :
    d'.Walks limit cur parts l := by
  induction h with
  | nil => exact .nil
  | up _ ih => exact .up ih
  | dir hdir _ ih => exact .dir (hd.dir _ hdir) ih
  | file hfile => exact .file (hd.file _ hfile)
  | link hlink _ ih => exact .link (hd.link _ _ hlink) ih

/-! ## Going on -/

theorem Walks.concat_dir (h : d.Walks limit start parts cur) (hcur : d.IsDir cur)
    (hdir : d.IsDir (cur ++ [name])) :
    d.Walks limit start (parts ++ [.down name]) (cur ++ [name]) := by
  induction h with
  | nil => exact .dir hdir .nil
  | up _ ih => exact .up (ih hcur hdir)
  | dir hd _ ih => exact .dir hd (ih hcur hdir)
  | file hfile => exact absurd hfile hcur.not_isFile
  | link hlink _ ih =>
    have hrest := ih hcur hdir
    rw [List.append_assoc] at hrest
    exact .link hlink hrest

theorem Walks.concat_file (h : d.Walks limit start parts cur) (hcur : d.IsDir cur)
    (hfile : d.IsFile (cur ++ [name])) :
    d.Walks limit start (parts ++ [.down name]) (cur ++ [name]) := by
  induction h with
  | nil => exact .file hfile
  | up _ ih => exact .up (ih hcur hfile)
  | dir hd _ ih => exact .dir hd (ih hcur hfile)
  | file hf => exact absurd hf hcur.not_isFile
  | link hlink _ ih =>
    have hrest := ih hcur hfile
    rw [List.append_assoc] at hrest
    exact .link hlink hrest

/-- A name that is missing leads nowhere. -/
theorem Walks.concat_none (h : d.Walks limit start parts cur) (hcur : d.IsDir cur)
    (hnone : d.node (cur ++ [name]) = none) :
    d.walk limit start (parts ++ [.down name]) = none := by
  induction h with
  | nil => exact walk_none hnone
  | up _ ih =>
    rw [List.cons_append, walk_up]
    exact ih hcur hnone
  | dir hd _ ih =>
    rw [List.cons_append, walk_dir hd]
    exact ih hcur hnone
  | file hf => exact absurd hf hcur.not_isFile
  | link hlink _ ih =>
    rw [List.cons_append, walk_link hlink, ← List.append_assoc]
    exact ih hcur hnone

/-- **Names lead to what lies below**, as long as that is no link. -/
theorem Walks.names (h : d.Walks limit start parts cur) {names : Location}
    (hitem : d.IsDir (cur ++ names) ∨ d.IsFile (cur ++ names)) :
    d.Walks limit start (parts ++ partsOf names) (cur ++ names) := by
  induction names using List.reverseRecOn with
  | nil => simpa [partsOf] using h
  | append_singleton names name ih =>
    have hdir : d.IsDir (cur ++ names) := by
      rw [← List.append_assoc] at hitem
      rcases hitem with hitem | ⟨content, hitem⟩ <;>
      · have hparent := isDir_dropLast hitem
        rwa [List.dropLast_concat] at hparent
    have hwalk := ih (.inl hdir)
    rw [partsOf, List.map_append, List.map_singleton, ← List.append_assoc, ← List.append_assoc]
    rw [← List.append_assoc] at hitem
    rcases hitem with hitem | hitem
    · exact hwalk.concat_dir hdir hitem
    · exact hwalk.concat_file hdir hitem

/-- The beginning of a path that leads somewhere leads to a directory. -/
theorem Walks.of_append {first last : List Part} (h : d.Walks limit cur (first ++ last) l)
    (hcur : d.IsDir cur) (hlast : last ≠ []) :
    ∃ m, d.Walks limit cur first m ∧ d.IsDir m := by
  generalize hparts : first ++ last = parts at h
  induction h generalizing first with
  | nil =>
    rw [List.append_eq_nil_iff] at hparts
    exact absurd hparts.2 hlast
  | up _ ih =>
    cases first with
    | nil => exact ⟨_, .nil, hcur⟩
    | cons part first =>
      obtain ⟨rfl, hrest⟩ := List.cons.inj hparts
      obtain ⟨m, hm, hdir⟩ := ih (isDir_dropLast hcur) hrest
      exact ⟨m, .up hm, hdir⟩
  | dir hd _ ih =>
    cases first with
    | nil => exact ⟨_, .nil, hcur⟩
    | cons part first =>
      obtain ⟨rfl, hrest⟩ := List.cons.inj hparts
      obtain ⟨m, hm, hdir⟩ := ih hd hrest
      exact ⟨m, .dir hd hm, hdir⟩
  | file _ =>
    cases first with
    | nil => exact ⟨_, .nil, hcur⟩
    | cons part first =>
      obtain ⟨-, hrest⟩ := List.cons.inj hparts
      exact absurd (List.append_eq_nil_iff.1 hrest).2 hlast
  | @link limit cur l name dest rest hlink _ ih =>
    cases first with
    | nil => exact ⟨_, .nil, hcur⟩
    | cons part first =>
      obtain ⟨rfl, hrest⟩ := List.cons.inj hparts
      have hfirst : (dest.parts ++ first) ++ last = dest.parts ++ rest := by
        rw [List.append_assoc]
        exact congrArg (dest.parts ++ ·) hrest
      obtain ⟨m, hm, hdir⟩ := ih (isDir_start hcur dest) hfirst
      exact ⟨m, .link hlink hm, hdir⟩

/-! ## `realpath` -/

/-- One path, with `follow` for the links.  A link that is not followed is taken as it is. -/
def resolveParts (d : Disk) (follow : Option (Location → List Part → Location)) :
    Location → List Part → Location
  | cur, [] => cur
  | cur, .up :: rest => d.resolveParts follow cur.dropLast rest
  | cur, .down name :: rest =>
    match d.node (cur ++ [name]) with
    | some (.link dest) =>
      match follow with
      | some follow => follow (dest.start cur) (dest.parts ++ rest)
      | none => d.resolveParts follow (cur ++ [name]) rest
    | _ => d.resolveParts follow (cur ++ [name]) rest

/-- Replace the links of a path, as far as there are any. -/
def resolve (d : Disk) : (limit : ℕ) → Location → List Part → Location
  | 0 => d.resolveParts none
  | limit + 1 => d.resolveParts (some (d.resolve limit))

theorem resolve_nil : d.resolve limit cur [] = cur := by
  cases limit <;> rfl

theorem resolve_up : d.resolve limit cur (.up :: rest) = d.resolve limit cur.dropLast rest := by
  cases limit <;> rfl

theorem resolve_down (h : ∀ dest, d.node (cur ++ [name]) ≠ some (.link dest)) :
    d.resolve limit cur (.down name :: rest) = d.resolve limit (cur ++ [name]) rest := by
  cases limit <;> simp only [resolve, resolveParts]

theorem resolve_link {dest : Path} (h : d.node (cur ++ [name]) = some (.link dest)) :
    d.resolve (limit + 1) cur (.down name :: rest) =
      d.resolve limit (dest.start cur) (dest.parts ++ rest) := by
  rw [resolve]
  simp only [resolveParts, h]

/-- **Where a path leads is what it resolves to.** -/
theorem resolve_of_walks (h : d.Walks limit cur parts l) : d.resolve limit cur parts = l := by
  induction h with
  | nil => exact resolve_nil
  | up _ ih => rw [resolve_up, ih]
  | dir hdir _ ih =>
    rw [resolve_down, ih]
    intro dest hlink
    rw [IsDir, hlink] at hdir
    cases hdir
  | file hfile =>
    rw [resolve_down, resolve_nil]
    intro dest hlink
    obtain ⟨content, hfile⟩ := hfile
    rw [hlink] at hfile
    cases hfile
  | link hlink _ ih => rw [resolve_link hlink, ih]

/-! ## Files that are opened for writing -/

/-- One path, with `follow` for the links. -/
def locateParts (d : Disk) (follow : Location → List Part → Option Location) :
    Location → List Part → Option Location
  | _, [] => none
  | cur, .up :: rest => d.locateParts follow cur.dropLast rest
  | cur, .down name :: rest =>
    match d.node (cur ++ [name]) with
    | some .dir => d.locateParts follow (cur ++ [name]) rest
    | some (.link dest) => follow (dest.start cur) (dest.parts ++ rest)
    | _ => if rest = [] then some (cur ++ [name]) else none

/-- Where a file is stored that is opened for writing: the directory must be there, the file need
not be. -/
def locate (d : Disk) : (limit : ℕ) → Location → List Part → Option Location
  | 0 => d.locateParts fun _ _ => none
  | limit + 1 => d.locateParts (d.locate limit)

/-- A file can be stored here. -/
structure IsPlace (d : Disk) (l : Location) : Prop where
  dir : d.IsDir l.dropLast
  free : d.node l = none ∨ d.IsFile l

theorem IsPlace.not_isDir (h : d.IsPlace l) : ¬ d.IsDir l := by
  intro hdir
  rcases h.free with hnone | hfile
  · rw [IsDir, hnone] at hdir
    cases hdir
  · exact hdir.not_isFile hfile

theorem isPlace_of_locateParts {follow : Location → List Part → Option Location}
    (hfollow : ∀ cur parts l, d.IsDir cur → follow cur parts = some l → d.IsPlace l)
    (hcur : d.IsDir cur) (h : d.locateParts follow cur parts = some l) : d.IsPlace l := by
  induction parts generalizing cur with
  | nil => cases h
  | cons part rest ih =>
    cases part with
    | up => exact ih (isDir_dropLast hcur) h
    | down name =>
      unfold locateParts at h
      cases hitem : d.node (cur ++ [name]) with
      | none =>
        rw [hitem] at h
        simp only [Option.ite_none_right_eq_some, Option.some.injEq] at h
        obtain ⟨-, rfl⟩ := h
        exact ⟨by rwa [List.dropLast_concat], .inl hitem⟩
      | some item =>
        rw [hitem] at h
        cases item with
        | dir => exact ih hitem h
        | link dest => exact hfollow _ _ _ (isDir_start hcur dest) h
        | file content =>
          simp only [Option.ite_none_right_eq_some, Option.some.injEq] at h
          obtain ⟨-, rfl⟩ := h
          exact ⟨by rwa [List.dropLast_concat], .inr ⟨content, hitem⟩⟩

/-- **A file that is opened for writing lies in a directory**, and is new or a file already. -/
theorem isPlace_of_locate (hcur : d.IsDir cur) (h : d.locate limit cur parts = some l) :
    d.IsPlace l := by
  induction limit generalizing cur parts l with
  | zero =>
    refine isPlace_of_locateParts (fun _ _ _ _ hfollow => ?_) hcur h
    cases hfollow
  | succ limit ih =>
    exact isPlace_of_locateParts (fun _ _ _ hdir hfollow => ih hdir hfollow) hcur h

theorem IsPlace.node_write (h : d.IsPlace l) (content : List UInt8) (k : Location) :
    (d.write l content).node k = if k = l then some (.file content) else d.node k :=
  Disk.node_write h.dir h.not_isDir k

theorem IsPlace.keeps_write (h : d.IsPlace l) (content : List UInt8) :
    d.Keeps (d.write l content) where
  dir k hk := by
    rw [IsDir, h.node_write, if_neg]
    · exact hk
    · rintro rfl
      exact h.not_isDir hk
  link k dest hk := by
    rw [h.node_write, if_neg]
    · exact hk
    · rintro rfl
      rcases h.free with hnone | ⟨content', hfile⟩
      · rw [hnone] at hk
        cases hk
      · rw [hfile] at hk
        cases hk
  file k := fun ⟨content', hk⟩ => by
    by_cases hkl : k = l
    · exact ⟨content, by rw [h.node_write, if_pos hkl]⟩
    · exact ⟨content', by rw [h.node_write, if_neg hkl]; exact hk⟩

theorem locate_up : d.locate limit cur (.up :: rest) = d.locate limit cur.dropLast rest := by
  cases limit <;> rfl

theorem locate_dir (h : d.IsDir (cur ++ [name])) :
    d.locate limit cur (.down name :: rest) = d.locate limit (cur ++ [name]) rest := by
  rw [IsDir] at h
  cases limit <;>
  · unfold locate
    rw [locateParts, h]

theorem locate_none (h : d.node (cur ++ [name]) = none) :
    d.locate limit cur [.down name] = some (cur ++ [name]) := by
  cases limit <;>
  · unfold locate
    rw [locateParts, h]
    rfl

theorem locate_link {dest : Path} (h : d.node (cur ++ [name]) = some (.link dest)) :
    d.locate (limit + 1) cur (.down name :: rest) =
      d.locate limit (dest.start cur) (dest.parts ++ rest) := by
  rw [locate, locateParts, h]

/-- A missing name in a directory is the place of a new file. -/
theorem Walks.locate_concat (h : d.Walks limit start parts cur) (hcur : d.IsDir cur)
    (hnone : d.node (cur ++ [name]) = none) :
    d.locate limit start (parts ++ [.down name]) = some (cur ++ [name]) := by
  induction h with
  | nil => exact locate_none hnone
  | up _ ih =>
    rw [List.cons_append, locate_up]
    exact ih hcur hnone
  | dir hd _ ih =>
    rw [List.cons_append, locate_dir hd]
    exact ih hcur hnone
  | file hf => exact absurd hf hcur.not_isFile
  | link hlink _ ih =>
    rw [List.cons_append, locate_link hlink, ← List.append_assoc]
    exact ih hcur hnone

/-! ## Missing directories -/

/-- `mkdir` with `parents` and `exist_ok`: every beginning of the path becomes a directory, from
the left.  `done` is what has been gone through. -/
def makeDirs (limit : ℕ) : Disk → (done : List Part) → List Part → Disk × Bool
  | d, _, [] => (d, true)
  | d, done, part :: rest =>
    match d.walk limit [] (done ++ [part]), part, d.walk limit [] done with
    | some l, _, _ =>
      if d.IsDir l then makeDirs limit d (done ++ [part]) rest else (d, false)
    | none, .down name, some cur =>
      if d.node (cur ++ [name]) = none then
        makeDirs limit (d.put (cur ++ [name]) .dir) (done ++ [part]) rest
      else (d, false)
    | none, _, _ => (d, false)

/-- The disk differs by new directories, at places that satisfy `P`. -/
structure MadeDirs (P : Location → Prop) (d d' : Disk) : Prop where
  written : d'.written = d.written
  node : ∀ l, d'.node l = d.node l ∨ d.node l = none ∧ d'.IsDir l ∧ P l

namespace MadeDirs

variable {P Q : Location → Prop} {item : Node}

theorem refl (P : Location → Prop) (d : Disk) : MadeDirs P d d := ⟨rfl, fun _ => .inl rfl⟩

theorem some_of_some (h : MadeDirs P d d') (hl : d.node l = some item) :
    d'.node l = some item := by
  rcases h.node l with hsame | ⟨hnone, -⟩
  · rw [hsame, hl]
  · rw [hl] at hnone
    cases hnone

theorem trans {d'' : Disk} (h : MadeDirs P d d') (h' : MadeDirs P d' d'') : MadeDirs P d d'' where
  written := h'.written.trans h.written
  node l := by
    rcases h.node l with hsame | ⟨hnone, hdir, hl⟩
    · rcases h'.node l with hsame' | ⟨hnone, hdir, hl⟩
      · exact .inl (hsame'.trans hsame)
      · exact .inr ⟨hsame ▸ hnone, hdir, hl⟩
    · exact .inr ⟨hnone, h'.some_of_some hdir, hl⟩

theorem mono (h : MadeDirs P d d') (hPQ : ∀ l, P l → Q l) : MadeDirs Q d d' :=
  ⟨h.written, fun l => (h.node l).imp_right fun hl => ⟨hl.1, hl.2.1, hPQ l hl.2.2⟩⟩

theorem keeps (h : MadeDirs P d d') : d.Keeps d' where
  dir _ hl := h.some_of_some hl
  link _ _ hl := h.some_of_some hl
  file _ := fun ⟨content, hl⟩ => ⟨content, h.some_of_some hl⟩

theorem isFile_iff (h : MadeDirs P d d') : d'.IsFile l ↔ d.IsFile l := by
  refine ⟨fun hfile => ?_, h.keeps.file l⟩
  rcases h.node l with hsame | ⟨-, hdir, -⟩
  · obtain ⟨content, hl⟩ := hfile
    exact ⟨content, by rw [← hsame, hl]⟩
  · exact absurd hfile hdir.not_isFile

end MadeDirs

theorem node_put_dir (hcur : d.IsDir cur) (hnone : d.node (cur ++ [name]) = none) (k : Location) :
    (d.put (cur ++ [name]) .dir).node k =
      if k = cur ++ [name] then some .dir else d.node k := by
  refine node_put (by rwa [List.dropLast_concat]) ?_ k
  rw [IsDir, hnone]
  exact nofun

/-- One new directory. -/
theorem madeDirs_put (hcur : d.IsDir cur) (hnone : d.node (cur ++ [name]) = none) :
    MadeDirs (· = cur ++ [name]) d (d.put (cur ++ [name]) .dir) where
  written := written_put d _ .dir
  node k := by
    rw [IsDir, node_put_dir hcur hnone]
    split
    · rename_i hk
      subst hk
      exact .inr ⟨hnone, rfl, rfl⟩
    · exact .inl rfl

/-- **What making directories does**, and where it leads when it succeeds. -/
theorem makeDirs_spec {done rest : List Part} (h : d.Walks limit [] done cur)
    (hcur : d.IsDir cur) :
    MadeDirs (fun _ => True) d (makeDirs limit d done rest).1 ∧
      ((makeDirs limit d done rest).2 = true → ∃ l,
        (makeDirs limit d done rest).1.Walks limit [] (done ++ rest) l ∧
          (makeDirs limit d done rest).1.IsDir l) := by
  induction rest generalizing d done cur with
  | nil => exact ⟨.refl _ d, fun _ => ⟨cur, by rwa [List.append_nil], hcur⟩⟩
  | cons part rest ih =>
    rw [List.append_cons]
    unfold makeDirs
    split
    · rename_i l hwalk
      split
      · exact ih (walk_eq_some.1 hwalk) ‹_›
      · exact ⟨.refl _ d, nofun⟩
    · rename_i name l hl _
      obtain rfl : l = cur := (walk_eq_some.1 hl).unique h
      split
      · rename_i hnone
        have hput := madeDirs_put hcur hnone
        have hnew : (d.put (l ++ [name]) .dir).IsDir (l ++ [name]) := by
          rw [IsDir, node_put_dir hcur hnone, if_pos rfl]
        have hwalk := (h.mono hput.keeps).concat_dir (hput.keeps.dir l hcur) hnew
        obtain ⟨hmade, hend⟩ := ih hwalk hnew
        exact ⟨(hput.mono fun _ _ => trivial).trans hmade, hend⟩
      · exact ⟨.refl _ d, nofun⟩
    · exact ⟨.refl _ d, nofun⟩

/-- What is there already is gone through. -/
theorem makeDirs_of_walks {done first rest : List Part} (hroot : d.Walks limit [] (done ++ first) l)
    (hl : d.IsDir l) :
    makeDirs limit d done (first ++ rest) = makeDirs limit d (done ++ first) rest := by
  induction first generalizing done with
  | nil => rw [List.nil_append, List.append_nil]
  | cons part first ih =>
    rw [List.append_cons] at hroot
    obtain ⟨m, hm, hdir⟩ : ∃ m, d.Walks limit [] (done ++ [part]) m ∧ d.IsDir m := by
      by_cases hfirst : first = []
      · subst hfirst
        rw [List.append_nil] at hroot
        exact ⟨l, hroot, hl⟩
      · exact hroot.of_append (node_nil d) hfirst
    rw [List.cons_append]
    simp only [makeDirs, walk_eq_some.2 hm, if_pos hdir]
    rw [ih hroot, ← List.append_cons]

/-- **Directories below a directory**, where nothing else is in the way. -/
theorem makeDirs_names {done : List Part} {names : Location} (h : d.Walks limit [] done cur)
    (hcur : d.IsDir cur)
    (hfree : ∀ k, k <+: names → d.node (cur ++ k) = none ∨ d.IsDir (cur ++ k)) :
    (makeDirs limit d done (partsOf names)).2 = true ∧
      (makeDirs limit d done (partsOf names)).1.IsDir (cur ++ names) ∧
      MadeDirs (fun l => ∃ k, k <+: names ∧ l = cur ++ k) d
        (makeDirs limit d done (partsOf names)).1 := by
  induction names generalizing d done cur with
  | nil => exact ⟨rfl, by rwa [List.append_nil], .refl _ d⟩
  | cons name names ih =>
    have hparts : partsOf (name :: names) = .down name :: partsOf names := rfl
    have hcons : cur ++ name :: names = (cur ++ [name]) ++ names := List.append_cons cur name names
    -- what the shorter path may make lies below the first name
    have hbelow : ∀ l, (∃ k, k <+: names ∧ l = cur ++ [name] ++ k) →
        ∃ k, k <+: name :: names ∧ l = cur ++ k := by
      rintro l ⟨k, hk, rfl⟩
      exact ⟨name :: k, List.cons_prefix_cons.2 ⟨rfl, hk⟩, (List.append_cons cur name k).symm⟩
    rw [hparts, hcons]
    rcases hfree [name] (by simp) with hnone | hdir
    · have hput := madeDirs_put hcur hnone
      have hget := node_put_dir hcur hnone
      have hnew : (d.put (cur ++ [name]) .dir).IsDir (cur ++ [name]) := by
        rw [IsDir, hget, if_pos rfl]
      have hwalk := (h.mono hput.keeps).concat_dir (hput.keeps.dir cur hcur) hnew
      obtain ⟨hok, hend, hmade⟩ := ih hwalk hnew fun k hk => by
        by_cases hempty : k = []
        · subst hempty
          exact .inr (by rwa [List.append_nil])
        · have hne : cur ++ [name] ++ k ≠ cur ++ [name] := fun heq =>
            hempty (List.append_right_eq_self.1 heq)
          rw [IsDir, hget, if_neg hne, List.append_assoc]
          exact hfree _ (List.cons_prefix_cons.2 ⟨rfl, hk⟩)
      simp only [makeDirs, h.concat_none hcur hnone, walk_eq_some.2 h, if_pos hnone]
      refine ⟨hok, hend, (hput.mono fun l hl => ?_).trans (hmade.mono hbelow)⟩
      exact ⟨[name], by simp, hl⟩
    · have hwalk := h.concat_dir hcur hdir
      obtain ⟨hok, hend, hmade⟩ := ih hwalk hdir fun k hk => by
        rw [List.append_assoc]
        exact hfree _ (List.cons_prefix_cons.2 ⟨rfl, hk⟩)
      simp only [makeDirs, walk_eq_some.2 hwalk, if_pos hdir]
      exact ⟨hok, hend, hmade.mono hbelow⟩

end Disk

end Files
end RagflowAgent
