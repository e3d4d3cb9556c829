import Mathlib.Data.List.Induction
import RagflowAgent.Relational.Table

/-!
# A disk

Directories, files and symbolic links, each at a `Location`, the list of the names that lead to it
from the root.  What is on a `Disk` lies in directories: the field `closed` says so.

* A `Path` has parts, names and `..`; `parsePath` reads one from a text, and `renderNames` writes
  one without `..`: `parsePath_renderNames`;
* `Disk.node` is what is at a location;
* `Disk.put` puts something into a directory, and `Disk.write` stores a file and notes where, in
  `written`.
-/

namespace RagflowAgent
namespace Files

open Keyed

/-! ## Names and paths -/

/-- A text that names something in a directory. -/
def IsName (s : String) : Prop :=
  s ≠ "" ∧ s ≠ "." ∧ s ≠ ".." ∧ '/' ∉ s.toList ∧ '\x00' ∉ s.toList

instance : DecidablePred IsName := fun _ => inferInstanceAs (Decidable (_ ∧ _))

abbrev Name := { s : String // IsName s }

/-- The names that lead to a place from the root. -/
abbrev Location := List Name

inductive Part where
  | up
  | down (name : Name)
  deriving DecidableEq

structure Path where
  absolute : Bool
  parts : List Part
  deriving DecidableEq

/-- The parts that lead to a location. -/
def partsOf (names : Location) : List Part := names.map .down

@[simp] theorem partsOf_append (names names' : Location) :
    partsOf (names ++ names') = partsOf names ++ partsOf names' :=
  List.map_append

@[simp] theorem partsOf_singleton (name : Name) : partsOf [name] = [.down name] := rfl

/-- An empty part and `.` are left out. -/
def parsePart (s : String) : Option Part :=
  if s = ".." then some .up
  else if h : IsName s then some (.down ⟨s, h⟩)
  else none

/-- The path that a text stands for.  A text with a null byte stands for none. -/
def parsePath (text : String) : Option Path :=
  if '\x00' ∈ text.toList then none
  else some
    { absolute := text.toList.head? = some '/'
      parts := (text.toList.splitOn '/').filterMap fun s => parsePart (String.ofList s) }

/-- `as_posix` of a relative path of names. -/
def renderNames (names : Location) : String :=
  String.ofList (['/'].intercalate (names.map fun name => name.val.toList))

/-- `base / path`. -/
def Path.joinTo (path : Path) (base : List Part) : List Part :=
  if path.absolute then path.parts else base ++ path.parts

theorem parsePart_name (name : Name) : parsePart name.val = some (.down name) := by
  unfold parsePart
  rw [if_neg name.property.2.2.1, dif_pos name.property]

theorem char_mem_of_mem_intercalate {c sep : Char} {l : List (List Char)}
    (h : c ∈ [sep].intercalate l) : c = sep ∨ ∃ part ∈ l, c ∈ part := by
  induction l with
  | nil => simp at h
  | cons part l ih =>
    cases l with
    | nil =>
      rw [List.intercalate_singleton] at h
      exact .inr ⟨part, List.mem_singleton_self part, h⟩
    | cons next l =>
      rw [List.intercalate_cons_cons, List.mem_append, List.mem_append] at h
      rcases h with (h | h) | h
      · exact .inr ⟨part, List.mem_cons_self, h⟩
      · exact .inl (List.mem_singleton.1 h)
      · rcases ih h with h | ⟨part', hpart', h⟩
        · exact .inl h
        · exact .inr ⟨part', List.mem_cons_of_mem part hpart', h⟩

/-- **Names are read back as they were rendered.** -/
theorem parsePath_renderNames {names : Location} (hne : names ≠ []) :
    parsePath (renderNames names) = some ⟨false, partsOf names⟩ := by
  obtain ⟨name, rest, rfl⟩ := List.exists_cons_of_ne_nil hne
  have hzero : '\x00' ∉ (renderNames (name :: rest)).toList := by
    rw [renderNames, String.toList_ofList]
    intro hmem
    rcases char_mem_of_mem_intercalate hmem with h | ⟨part, hpart, h⟩
    · exact absurd h (by decide)
    · obtain ⟨name', -, rfl⟩ := List.mem_map.1 hpart
      exact name'.property.2.2.2.2 h
  have hsplit : (renderNames (name :: rest)).toList.splitOn '/' =
      (name :: rest).map fun name => name.val.toList := by
    rw [renderNames, String.toList_ofList]
    refine List.splitOn_intercalate '/' (fun part hpart => ?_) (by simp)
    obtain ⟨name', -, rfl⟩ := List.mem_map.1 hpart
    exact name'.property.2.2.2.1
  have hhead : (renderNames (name :: rest)).toList.head? ≠ some '/' := by
    rw [renderNames, String.toList_ofList]
    obtain ⟨c, cs, hcs⟩ := List.exists_cons_of_ne_nil
      (fun hempty => name.property.1 (String.toList_eq_nil_iff.1 hempty))
    have hc : c ≠ '/' := by
      rintro rfl
      exact name.property.2.2.2.1 (by rw [hcs]; exact List.mem_cons_self)
    cases rest with
    | nil => simpa [hcs] using hc
    | cons next rest => simpa [List.intercalate_cons_cons, hcs] using hc
  unfold parsePath
  rw [if_neg hzero, hsplit, List.filterMap_map]
  have hparts : ((fun s => parsePart (String.ofList s)) ∘ fun name : Name => name.val.toList) =
      fun name => some (.down name) := by
    funext name
    simp only [Function.comp_apply, String.ofList_toList]
    exact parsePart_name name
  rw [hparts, List.filterMap_eq_map']
  simp only [hhead, decide_false]
  rfl

/-! ## Disks -/

inductive Node where
  | dir
  | file (content : List UInt8)
  | link (dest : Path)
  deriving DecidableEq

structure Entry where
  location : Location
  node : Node
  deriving DecidableEq

instance : Keyed Location Entry where
  key := Entry.location

/-- What is at a location.  The root is a directory. -/
def nodeAt (entries : Table Entry) (l : Location) : Option Node :=
  if l = [] then some .dir else (entries.get l).map Entry.node

structure Disk where
  entries : Table Entry
  /-- What there is lies in a directory. -/
  closed : ∀ l node, nodeAt entries l = some node → nodeAt entries l.dropLast = some .dir
  /-- Where files have been written, the last one first. -/
  written : List Location := []

namespace Disk

variable {d d' : Disk} {l k : Location} {item : Node}

def node (d : Disk) (l : Location) : Option Node := nodeAt d.entries l

def IsDir (d : Disk) (l : Location) : Prop := d.node l = some .dir

instance (d : Disk) (l : Location) : Decidable (d.IsDir l) :=
  inferInstanceAs (Decidable (_ = _))

def IsFile (d : Disk) (l : Location) : Prop := ∃ content, d.node l = some (.file content)

@[simp] theorem node_nil (d : Disk) : d.node [] = some .dir := by
  simp [node, nodeAt]

theorem isDir_dropLast (h : d.node l = some item) : d.IsDir l.dropLast := d.closed l item h

/-- Every location on the way to something is a directory. -/
theorem isDir_of_append (h : d.node (l ++ k) = some item) (hk : k ≠ []) : d.IsDir l := by
  induction k using List.reverseRecOn generalizing item with
  | nil => exact absurd rfl hk
  | append_singleton k name ih =>
    have hdir := isDir_dropLast h
    rw [← List.append_assoc, List.dropLast_concat] at hdir
    by_cases hempty : k = []
    · rwa [hempty, List.append_nil] at hdir
    · exact ih hdir hempty

theorem nodeAt_upsert (entries : Table Entry) (hl : l ≠ []) (k : Location) :
    nodeAt (entries.upsert ⟨l, item⟩) k = if k = l then some item else nodeAt entries k := by
  unfold nodeAt
  rw [Table.get_upsert]
  by_cases hk : k = []
  · rw [if_pos hk, if_pos hk, if_neg]
    rintro rfl
    exact hl hk
  · rw [if_neg hk, if_neg hk]
    by_cases hkl : k = l
    · rw [if_pos hkl, if_pos (show k = key (⟨l, item⟩ : Entry) from hkl)]
      rfl
    · rw [if_neg hkl, if_neg (show k ≠ key (⟨l, item⟩ : Entry) from hkl)]

theorem dropLast_ne_self (hl : l ≠ []) : l.dropLast ≠ l := by
  intro heq
  have hlength := congrArg List.length heq
  rw [List.length_dropLast] at hlength
  have hpos := List.length_pos_iff.2 hl
  omega

/-- Put something into a directory, where there is no directory yet. -/
def put (d : Disk) (l : Location) (item : Node) : Disk :=
  if h : d.IsDir l.dropLast ∧ ¬ d.IsDir l then
    { entries := d.entries.upsert ⟨l, item⟩
      written := d.written
      closed := by
        have hl : l ≠ [] := by
          rintro rfl
          exact h.2 (node_nil d)
        intro k item' hk
        rw [nodeAt_upsert _ hl] at hk ⊢
        split at hk
        · rename_i hkl
          subst hkl
          rw [if_neg (dropLast_ne_self hl)]
          exact h.1
        · have hdir := d.closed k item' hk
          rw [if_neg]
          · exact hdir
          · rintro rfl
            exact h.2 hdir }
  else d

theorem node_put (hdir : d.IsDir l.dropLast) (hfree : ¬ d.IsDir l) (k : Location) :
    (d.put l item).node k = if k = l then some item else d.node k := by
  have hl : l ≠ [] := by
    rintro rfl
    exact hfree (node_nil d)
  unfold put
  rw [dif_pos ⟨hdir, hfree⟩]
  exact nodeAt_upsert _ hl k

@[simp] theorem written_put (d : Disk) (l : Location) (item : Node) :
    (d.put l item).written = d.written := by
  unfold put
  split <;> rfl

/-- Store a file. -/
def write (d : Disk) (l : Location) (content : List UInt8) : Disk :=
  { d.put l (.file content) with written := l :: d.written }

theorem node_write {content : List UInt8} (hdir : d.IsDir l.dropLast) (hfree : ¬ d.IsDir l)
    (k : Location) :
    (d.write l content).node k = if k = l then some (.file content) else d.node k :=
  node_put hdir hfree k

@[simp] theorem written_write (d : Disk) (l : Location) (content : List UInt8) :
    (d.write l content).written = l :: d.written := rfl

end Disk

end Files
end RagflowAgent
