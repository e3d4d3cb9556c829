import Mathlib.Data.List.Lex
import Mathlib.Data.String.Basic
import RagflowAgent.Files.Walk
import RagflowAgent.Ranking

/-!
# Backups of a directory

A backup is a directory with a copy of a tree of files, the payload, and a manifest that names each
file with its hash.  `createBackup` makes one, and `restoreBackup` copies the files of one into an
empty directory; each file is checked against the manifest right before it is copied.

* `read`, `copy2` and `copyTo` are the calls of the standard library that both use;
* `Host` holds what comes from elsewhere: how many links the kernel follows, the hash, and the JSON
  form of a manifest;
* `entryPlace` is where an entry would be copied to.

The paths of a call start at the root.
-/

namespace RagflowAgent
namespace Operations

open Files Ranking

/-! ## Manifests -/

inductive BackupError where
  /-- A `ValueError`; the errors of validation are among them. -/
  | value (message : String)
  /-- An `OSError`. -/
  | os
  deriving DecidableEq

structure BackupEntry where
  path : String
  size : ℕ
  sha256 : String
  deriving DecidableEq

/-- A moment, with its distance from UTC where that is known. -/
structure Datetime where
  instant : ℤ
  utcOffset : Option ℤ
  deriving DecidableEq

structure BackupManifest where
  schemaVersion : ℕ := 1
  createdAt : Datetime
  rpoHours : ℕ := 24
  rtoHours : ℕ := 4
  entries : List BackupEntry
  searchIndexesRebuildable : Bool := true
  deriving DecidableEq

structure Host where
  linkLimit : ℕ := 40
  sha256 : List UInt8 → String
  /-- `model_dump_json`, as it is written. -/
  dump : BackupManifest → List UInt8
  /-- `model_validate_json`. -/
  validateJson : List UInt8 → Except BackupError BackupManifest

def payloadName : Name := ⟨"payload", by decide⟩

def manifestName : Name := ⟨"manifest.json", by decide⟩

/-! ## Files -/

section Calls

variable (limit : ℕ) (d : Disk)

/-- `is_dir`. -/
def isDirectory (path : List Part) : Bool :=
  (d.walk limit [] path).any fun l => decide (d.IsDir l)

/-- The content of a file. -/
def contentAt (l : Location) : Option (List UInt8) :=
  match d.node l with
  | some (.file content) => some content
  | _ => none

/-- `read_bytes`. -/
def read (path : List Part) : Option (List UInt8) :=
  (d.walk limit [] path).bind (contentAt d)

/-- Where a copy of `source` goes: a directory takes it under its own name, and a file is not copied
onto itself. -/
def copyPlace (source destination : List Part) : Option Location :=
  let destination :=
    if isDirectory limit d destination then destination ++ source.getLast?.toList else destination
  if d.walk limit [] source = d.walk limit [] destination then none
  else d.locate limit [] destination

/-- `shutil.copy2`. -/
def copy2 (source destination : List Part) : Except BackupError Unit × Disk :=
  match read limit d source, copyPlace limit d source destination with
  | some content, some l => (.ok (), d.write l content)
  | _, _ => (.error .os, d)

/-- `destination.parent.mkdir(parents=True, exist_ok=True)`, and then the copy. -/
def copyTo (source destination : List Part) : Except BackupError Unit × Disk :=
  match Disk.makeDirs limit d [] destination.dropLast with
  | (d, true) => copy2 limit d source destination
  | (d, false) => (.error .os, d)

/-- The files below a directory, in the order of their paths. -/
def filesBelow (source : List Part) : List Location :=
  match d.walk limit [] source with
  | none => []
  | some root =>
    let below := (d.entries.rows.map Entry.location).filter fun l => decide (root <+: l)
    let relative := below.map fun l => l.drop root.length
    sortedBy (fun names => names.map Subtype.val) <| relative.filter fun names =>
      decide (names ≠ []) && (read limit d (source ++ partsOf names)).isSome

/-- `mkdir` of a name in a directory, which must be new. -/
def makeDir (parent : List Part) (name : Name) : Disk × Bool :=
  match d.walk limit [] parent with
  | none => (d, false)
  | some cur =>
    if d.node (cur ++ [name]) = none then (d.put (cur ++ [name]) .dir, true) else (d, false)

/-- Whether something lies in a directory. -/
def hasChildren (l : Location) : Bool :=
  d.entries.rows.any fun entry => decide (entry.location ≠ [] ∧ entry.location.dropLast = l)

end Calls

/-! ## Creating -/

/-- Copy the files one after another, and tell their hashes. -/
def copyFiles (host : Host) (source payload : List Part) :
    List Location → Disk → Except BackupError (List BackupEntry) × Disk
  | [], d => (.ok [], d)
  | relative :: rest, d =>
    let item := source ++ partsOf relative
    match copyTo host.linkLimit d item (payload ++ partsOf relative) with
    | (.error e, d) => (.error e, d)
    | (.ok (), d) =>
      match read host.linkLimit d item with
      | none => (.error .os, d)
      | some content =>
        match copyFiles host source payload rest d with
        | (.error e, d) => (.error e, d)
        | (.ok entries, d) =>
          let entry : BackupEntry :=
            { path := renderNames relative
              size := content.length
              sha256 := host.sha256 content }
          (.ok (entry :: entries), d)

def createBackup (host : Host) (d : Disk) (source target : List Part) (createdAt : Datetime) :
    Except BackupError BackupManifest × Disk :=
  if ¬ isDirectory host.linkLimit d source ∨ (d.walk host.linkLimit [] target).isSome then
    (.error (.value "backup source must exist and target must be new"), d)
  else
    let payload := target ++ [.down payloadName]
    -- `payload.mkdir(parents=True)` makes the target, and then the payload
    match Disk.makeDirs host.linkLimit d [] target with
    | (d, false) => (.error .os, d)
    | (d, true) =>
      match makeDir host.linkLimit d target payloadName with
      | (d, false) => (.error .os, d)
      | (d, true) =>
        match copyFiles host source payload (filesBelow host.linkLimit d source) d with
        | (.error e, d) => (.error e, d)
        | (.ok entries, d) =>
          if createdAt.utcOffset = none then
            (.error (.value "backup timestamp must be timezone-aware"), d)
          else
            let manifest : BackupManifest := { createdAt := createdAt, entries := entries }
            match d.locate host.linkLimit [] (target ++ [.down manifestName]) with
            | none => (.error .os, d)
            | some l => (.ok manifest, d.write l (host.dump manifest))

/-! ## Restoring -/

/-- What is done before the first entry: the target must be empty, the manifest is read, and the
target is made. -/
def openRestore (host : Host) (d : Disk) (backup target : List Part) :
    Except BackupError BackupManifest × Disk :=
  match (d.walk host.linkLimit [] target).filter fun l => decide (d.IsDir l → hasChildren d l) with
  | some l =>
    (.error (if d.IsDir l then .value "restore target must be empty" else .os), d)
  | none =>
    match read host.linkLimit d (backup ++ [.down manifestName]) with
    | none => (.error .os, d)
    | some text =>
      match host.validateJson text with
      | .error e => (.error e, d)
      | .ok manifest =>
        match Disk.makeDirs host.linkLimit d [] target with
        | (d, true) => (.ok manifest, d)
        | (d, false) => (.error .os, d)

/-- The check of one entry: the path and the file that it names. -/
def validateEntry (host : Host) (d : Disk) (payload : List Part) (entry : BackupEntry) :
    Except BackupError (Path × Location) :=
  match parsePath entry.path with
  | none => .error (.value "embedded null byte")
  | some relative =>
    let source := d.resolve host.linkLimit [] (relative.joinTo payload)
    let root := d.resolve host.linkLimit [] payload
    let failed : BackupError := .value ("backup entry failed validation: " ++ entry.path)
    if root <+: source ∧ root ≠ source then
      match read host.linkLimit d (partsOf source) with
      | none => .error .os
      | some content =>
        if host.sha256 content = entry.sha256 then .ok (relative, source) else .error failed
    else .error failed

def restoreEntry (host : Host) (payload target : List Part) (entry : BackupEntry) (d : Disk) :
    Except BackupError Unit × Disk :=
  match validateEntry host d payload entry with
  | .error e => (.error e, d)
  | .ok (relative, source) =>
    copyTo host.linkLimit d (partsOf source) (relative.joinTo target)

def restoreEntries (host : Host) (payload target : List Part) :
    List BackupEntry → Disk → Except BackupError Unit × Disk
  | [], d => (.ok (), d)
  | entry :: entries, d =>
    match restoreEntry host payload target entry d with
    | (.error e, d) => (.error e, d)
    | (.ok (), d) => restoreEntries host payload target entries d

def restoreBackup (host : Host) (d : Disk) (backup target : List Part) :
    Except BackupError BackupManifest × Disk :=
  match openRestore host d backup target with
  | (.error e, d) => (.error e, d)
  | (.ok manifest, d) =>
    match restoreEntries host (backup ++ [.down payloadName]) target manifest.entries d with
    | (.error e, d) => (.error e, d)
    | (.ok (), d) => (.ok manifest, d)

/-- Where an entry that passes its check is copied to, if it can be. -/
def entryPlace (host : Host) (d : Disk) (payload target : List Part) (entry : BackupEntry) :
    Option Location :=
  match validateEntry host d payload entry with
  | .error _ => none
  | .ok (relative, source) =>
    let destination := relative.joinTo target
    match Disk.makeDirs host.linkLimit d [] destination.dropLast with
    | (d, true) =>
      if (read host.linkLimit d (partsOf source)).isSome then
        copyPlace host.linkLimit d (partsOf source) destination
      else none
    | (_, false) => none

end Operations
end RagflowAgent
