import RagflowAgent.Operations.Backup

/-!
# Where a restoration writes

A backup that has been tampered with should not be restored at all, and nothing should be written
outside the target.

* `Contained` is what should hold of every restoration;
* `AllInside` says that all entries can be copied, to places inside the target;
* `contained_iff`: a restoration is as it should be exactly when all entries can be copied to places
  inside the target, or the first cannot be copied.
-/

namespace RagflowAgent
namespace Operations

open Files Disk

variable {host : Host} {d d' d₁ : Disk} {payload target : List Part} {entry : BackupEntry}
  {entries : List BackupEntry} {l T : Location} {limit : ℕ}

/-! ## One entry -/

theorem isPlace_of_copyPlace {source destination : List Part}
    (h : copyPlace limit d source destination = some l) : d.IsPlace l := by
  simp only [copyPlace, Option.ite_none_left_eq_some] at h
  exact isPlace_of_locate (node_nil d) h.2

theorem madeDirs_makeDirs (limit : ℕ) (d : Disk) (parts : List Part) :
    MadeDirs (fun _ => True) d (makeDirs limit d [] parts).1 := by
  have hroot : d.Walks limit [] [] [] := .nil
  exact (makeDirs_spec hroot (node_nil d)).1

/-- **An entry that has a place is copied there.** -/
theorem restoreEntry_of_place (h : entryPlace host d payload target entry = some l) :
    ∃ d₁ content, MadeDirs (fun _ => True) d d₁ ∧ d₁.IsPlace l ∧
      restoreEntry host payload target entry d = (.ok (), d₁.write l content) := by
  unfold entryPlace at h
  unfold restoreEntry
  split at h
  · cases h
  rename_i relative source hvalid
  dsimp only at h ⊢
  have hmade := madeDirs_makeDirs host.linkLimit d (relative.joinTo target).dropLast
  unfold copyTo
  split at h
  · rename_i d₁ hdirs
    rw [hdirs] at hmade
    simp only [Option.ite_none_right_eq_some, Option.isSome_iff_exists] at h
    obtain ⟨⟨content, hcontent⟩, hplace⟩ := h
    refine ⟨d₁, content, hmade, isPlace_of_copyPlace hplace, ?_⟩
    unfold copy2
    rw [hcontent, hplace]
  · cases h

/-- **An entry that has none is not copied**, and at most directories have been made. -/
theorem restoreEntry_of_none (h : entryPlace host d payload target entry = none) :
    ∃ e d₁, MadeDirs (fun _ => True) d d₁ ∧
      restoreEntry host payload target entry d = (.error e, d₁) := by
  unfold entryPlace at h
  unfold restoreEntry
  split at h
  · rename_i e hvalid
    exact ⟨e, d, .refl _ d, rfl⟩
  rename_i relative source hvalid
  dsimp only at h ⊢
  have hmade := madeDirs_makeDirs host.linkLimit d (relative.joinTo target).dropLast
  unfold copyTo
  split at h
  · rename_i d₁ hdirs
    rw [hdirs] at hmade
    refine ⟨.os, d₁, hmade, ?_⟩
    unfold copy2
    split at h
    · rw [h]
      split <;> first | rfl | contradiction
    · rename_i hnone
      rw [Option.not_isSome_iff_eq_none] at hnone
      rw [hnone]
  · rename_i d₁ hdirs
    rw [hdirs] at hmade
    exact ⟨.os, d₁, hmade, rfl⟩

/-! ## All entries -/

/-- The files that have been written are there at the end. -/
theorem restoreEntries_written (host : Host) (payload target : List Part)
    (entries : List BackupEntry) (d : Disk) :
    d.Keeps (restoreEntries host payload target entries d).2 ∧
      ∃ new, (restoreEntries host payload target entries d).2.written = new ++ d.written ∧
        ∀ l ∈ new, (restoreEntries host payload target entries d).2.IsFile l := by
  induction entries generalizing d with
  | nil => exact ⟨.refl d, [], rfl, by simp⟩
  | cons entry entries ih =>
    unfold restoreEntries
    cases hplace : entryPlace host d payload target entry with
    | none =>
      obtain ⟨e, d₁, hmade, hrun⟩ := restoreEntry_of_none hplace
      rw [hrun]
      exact ⟨hmade.keeps, [], hmade.written, by simp⟩
    | some l =>
      obtain ⟨d₁, content, hmade, hl, hrun⟩ := restoreEntry_of_place hplace
      rw [hrun]
      obtain ⟨hkeeps, new, hnew, hfiles⟩ := ih (d₁.write l content)
      refine ⟨(hmade.keeps.trans (hl.keeps_write content)).trans hkeeps, new ++ [l], ?_, ?_⟩
      · rw [hnew, written_write, hmade.written, List.append_assoc, List.singleton_append]
      · intro k hk
        rcases List.mem_append.1 hk with hk | hk
        · exact hfiles k hk
        · rw [List.mem_singleton] at hk
          subst hk
          exact hkeeps.file k ⟨content, by rw [hl.node_write, if_pos rfl]⟩

/-- A first entry that has a place is written there. -/
theorem exists_written_of_place (entries : List BackupEntry)
    (h : entryPlace host d payload target entry = some l) :
    ∃ new, (restoreEntries host payload target (entry :: entries) d).2.written =
      new ++ l :: d.written := by
  obtain ⟨d₁, content, hmade, hl, hrun⟩ := restoreEntry_of_place h
  unfold restoreEntries
  rw [hrun]
  obtain ⟨-, new, hnew, -⟩ :=
    restoreEntries_written host payload target entries (d₁.write l content)
  exact ⟨new, by rw [hnew, written_write, hmade.written]⟩

/-- If the first entry has no place, nothing is written. -/
theorem restoreEntries_of_none (entries : List BackupEntry)
    (h : entryPlace host d payload target entry = none) :
    ∃ e d₁, MadeDirs (fun _ => True) d d₁ ∧
      restoreEntries host payload target (entry :: entries) d = (.error e, d₁) := by
  obtain ⟨e, d₁, hmade, hrun⟩ := restoreEntry_of_none h
  refine ⟨e, d₁, hmade, ?_⟩
  unfold restoreEntries
  rw [hrun]

/-- Every entry can be copied, to a place inside `T`. -/
def AllInside (host : Host) (payload target : List Part) (T : Location) :
    Disk → List BackupEntry → Prop
  | _, [] => True
  | d, entry :: entries => ∃ l, entryPlace host d payload target entry = some l ∧ T <+: l ∧
      AllInside host payload target T (restoreEntry host payload target entry d).2 entries

/-- **All entries are copied to places inside `T` exactly when all can be.** -/
theorem allInside_iff :
    AllInside host payload target T d entries ↔
      (restoreEntries host payload target entries d).1 = .ok () ∧
        ∃ new, (restoreEntries host payload target entries d).2.written = new ++ d.written ∧
          ∀ l ∈ new, T <+: l := by
  induction entries generalizing d with
  | nil => exact iff_of_true trivial ⟨rfl, [], rfl, by simp⟩
  | cons entry entries ih =>
    unfold AllInside restoreEntries
    cases hplace : entryPlace host d payload target entry with
    | none =>
      obtain ⟨e, d₁, -, hrun⟩ := restoreEntry_of_none hplace
      rw [hrun]
      simp
    | some l =>
      obtain ⟨d₁, content, hmade, -, hrun⟩ := restoreEntry_of_place hplace
      rw [hrun]
      simp only [Option.some.injEq, exists_eq_left', ih, written_write, hmade.written]
      constructor
      · rintro ⟨hl, hok, new, hnew, hinside⟩
        refine ⟨hok, new ++ [l], by rw [hnew, List.append_assoc, List.singleton_append], ?_⟩
        simpa [or_imp, forall_and] using ⟨hinside, hl⟩
      · rintro ⟨hok, new, hnew, hinside⟩
        obtain ⟨-, new', hnew', -⟩ :=
          restoreEntries_written host payload target entries (d₁.write l content)
        rw [written_write, hmade.written] at hnew'
        have hsame : new = new' ++ [l] := by
          have happend : new ++ d.written = new' ++ [l] ++ d.written := by
            rw [← hnew, hnew', List.append_assoc, List.singleton_append]
          exact List.append_cancel_right happend
        subst hsame
        exact ⟨hinside l (by simp), hok, new', hnew', fun k hk => hinside k (by simp [hk])⟩

/-! ## The whole restoration -/

/-- What is done before the first entry makes directories at most. -/
theorem openRestore_spec (host : Host) (d : Disk) (backup target : List Part) :
    MadeDirs (fun _ => True) d (openRestore host d backup target).2 ∧
      ∀ manifest, (openRestore host d backup target).1 = .ok manifest →
        ∃ T, (openRestore host d backup target).2.Walks host.linkLimit [] target T ∧
          (openRestore host d backup target).2.IsDir T := by
  unfold openRestore
  split
  · exact ⟨.refl _ d, nofun⟩
  split
  · exact ⟨.refl _ d, nofun⟩
  split
  · exact ⟨.refl _ d, nofun⟩
  have hroot : d.Walks host.linkLimit [] [] [] := .nil
  have hspec : MadeDirs (fun _ => True) d (makeDirs host.linkLimit d [] target).1 ∧ _ :=
    makeDirs_spec hroot (node_nil d)
  split
  · rename_i d₁ hdirs
    rw [hdirs] at hspec
    exact ⟨hspec.1, fun _ _ => hspec.2 rfl⟩
  · rename_i d₁ hdirs
    rw [hdirs] at hspec
    exact ⟨hspec.1, nofun⟩

/-- The restoration has written `new`. -/
structure ContainedBy {α : Type} (new : List Location) (host : Host) (target : List Part)
    (d : Disk) (r : Except BackupError α × Disk) : Prop where
  written : r.2.written = new ++ d.written
  /-- It has written inside the target only. -/
  inside : ∀ l ∈ new, ∃ T, r.2.Walks host.linkLimit [] target T ∧ T <+: l
  /-- If it has failed, the target holds no file that it did not hold before. -/
  atomic : ∀ e, r.1 = .error e → ∀ T, r.2.Walks host.linkLimit [] target T →
    ∀ l, T <+: l → r.2.IsFile l → d.IsFile l ∧ l ∉ new

/-- What should hold of every restoration. -/
def Contained {α : Type} (host : Host) (target : List Part) (d : Disk)
    (r : Except BackupError α × Disk) : Prop :=
  ∃ new, ContainedBy new host target d r

/-- Where nothing was written, all is well. -/
theorem contained_of_madeDirs {α : Type} {r : Except BackupError α × Disk}
    (h : MadeDirs (fun _ => True) d r.2) : Contained host target d r :=
  ⟨[], h.written, by simp, fun _ _ _ _ l _ hl => ⟨h.isFile_iff.1 hl, by simp⟩⟩

/-- It does not matter what a restoration returns. -/
theorem contained_congr {α β : Type} {r : Except BackupError α × Disk}
    {r' : Except BackupError β × Disk} (hdisk : r.2 = r'.2)
    (herror : ∀ e, r.1 = .error e ↔ r'.1 = .error e) :
    Contained host target d r ↔ Contained host target d r' := by
  refine exists_congr fun new => ⟨fun h => ?_, fun h => ?_⟩
  · obtain ⟨hwritten, hinside, hatomic⟩ := h
    simp only [hdisk, herror] at hwritten hinside hatomic
    exact ⟨hwritten, hinside, hatomic⟩
  · obtain ⟨hwritten, hinside, hatomic⟩ := h
    simp only [← hdisk, ← herror] at hwritten hinside hatomic
    exact ⟨hwritten, hinside, hatomic⟩

/-- The same for what follows on the opening. -/
theorem contained_restoreEntries_iff (hmade : MadeDirs (fun _ => True) d d₁)
    (hT : d₁.Walks host.linkLimit [] target T) :
    Contained host target d (restoreEntries host payload target entries d₁) ↔
      AllInside host payload target T d₁ entries ∨
        ∃ entry ∈ entries.head?, entryPlace host d₁ payload target entry = none := by
  obtain ⟨hkeeps, new, hnew, hfiles⟩ := restoreEntries_written host payload target entries d₁
  have hend := hT.mono hkeeps
  have hall : AllInside host payload target T d₁ entries ↔ _ := allInside_iff
  rw [hmade.written] at hnew hall
  constructor
  · rintro ⟨new', hcontained⟩
    obtain rfl : new' = new := List.append_cancel_right (hcontained.written.symm.trans hnew)
    have hinside : ∀ l ∈ new', T <+: l := fun l hl => by
      obtain ⟨T', hT', hTl⟩ := hcontained.inside l hl
      rwa [hend.unique hT']
    cases hres : (restoreEntries host payload target entries d₁).1 with
    | ok => exact .inl (hall.2 ⟨hres, new', hnew, hinside⟩)
    | error e =>
      cases entries with
      | nil => cases hres
      | cons entry rest =>
        refine .inr ⟨entry, rfl, ?_⟩
        by_contra hplace
        -- the first entry has been written inside the target, and is there at the end
        obtain ⟨l, hplace⟩ := Option.ne_none_iff_exists'.1 hplace
        obtain ⟨later, hlater⟩ := exists_written_of_place rest hplace
        have hsame : new' = later ++ [l] := by
          have happend : new' ++ d.written = later ++ [l] ++ d.written := by
            rw [← hnew, hlater, hmade.written, List.append_assoc, List.singleton_append]
          exact List.append_cancel_right happend
        have hmem : l ∈ new' := by
          rw [hsame]
          simp
        exact (hcontained.atomic e hres T hend l (hinside l hmem) (hfiles l hmem)).2 hmem
  · rintro (hcond | ⟨entry, hentry, hplace⟩)
    · obtain ⟨hok, new', hnew', hinside⟩ := hall.1 hcond
      refine ⟨new', hnew', fun l hl => ⟨T, hend, hinside l hl⟩, fun e he => ?_⟩
      rw [hok] at he
      cases he
    · obtain ⟨rest, rfl⟩ := List.head?_eq_some_iff.1 hentry
      obtain ⟨e, d₂, hnone, hrun⟩ := restoreEntries_of_none rest hplace
      rw [hrun]
      exact contained_of_madeDirs (hmade.trans hnone)

/-- The condition: all entries can be copied to places inside the target, or the first cannot be
copied at all. -/
def Restorable (host : Host) (d : Disk) (backup target : List Part) : Prop :=
  ∀ manifest d₁ T, openRestore host d backup target = (.ok manifest, d₁) →
    d₁.Walks host.linkLimit [] target T →
    AllInside host (backup ++ [.down payloadName]) target T d₁ manifest.entries ∨
      ∃ entry ∈ manifest.entries.head?,
        entryPlace host d₁ (backup ++ [.down payloadName]) target entry = none

/-- **A restoration is as it should be exactly when** all entries can be copied to places inside the
target, or the first cannot be copied. -/
theorem contained_iff (host : Host) (d : Disk) (backup target : List Part) :
    Contained host target d (restoreBackup host d backup target) ↔
      Restorable host d backup target := by
  obtain ⟨hmade, hopen⟩ := openRestore_spec host d backup target
  unfold Restorable restoreBackup
  cases hrun : openRestore host d backup target with
  | mk r d₁ =>
    rw [hrun] at hmade hopen
    cases r with
    | error e =>
      refine iff_of_true (contained_of_madeDirs hmade) fun manifest d' T h => ?_
      cases h
    | ok manifest =>
      obtain ⟨T, hT, -⟩ := hopen manifest rfl
      have hiff : Contained host target d (restoreEntries host (backup ++ [.down payloadName])
          target manifest.entries d₁) ↔ _ := contained_restoreEntries_iff hmade hT
      refine Iff.trans (contained_congr ?_ fun e => ?_) (hiff.trans ?_)
      · dsimp only
        split <;> rename_i hres <;> rw [hres]
      · dsimp only
        split <;> rename_i hres <;> rw [hres] <;> simp
      · constructor
        · rintro hcond manifest' d' T' h hT'
          cases h
          obtain rfl := hT.unique hT'
          exact hcond
        · exact fun hcond => hcond manifest d₁ T rfl hT

end Operations
end RagflowAgent
