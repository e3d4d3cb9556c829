import Mathlib.Data.List.Nodup

/-!
# Ordered forests

A `Forest` is a row of trees: leaves, and nodes of some kind that have a row of trees below them.

* `leaves` are the leaves from left to right, and `paths` has with each of them the kinds of the
  nodes above it, from the outermost one to the innermost one;
* `findAll` are the nodes whose kind is looked for, in the order in which they begin, with the
  nodes above them;
* `mem_paths_of_findAll` and `exists_findAll_of_mem_paths`: what is below a node that was found
  has the kind of the node on its path, and every kind on a path is that of a node found there.
-/

namespace RagflowAgent

inductive Forest (κ α : Type) where
  | nil
  | leaf (item : α) (rest : Forest κ α)
  | node (kind : κ) (children rest : Forest κ α)

namespace Forest

variable {κ α : Type}

/-- The leaves from left to right. -/
def leaves : Forest κ α → List α
  | nil => []
  | leaf item rest => item :: rest.leaves
  | node _ children rest => children.leaves ++ rest.leaves

/-- The leaves, and the kinds of the nodes above them. -/
def paths : Forest κ α → List (List κ × α)
  | nil => []
  | leaf item rest => ([], item) :: rest.paths
  | node kind children rest =>
    children.paths.map (fun entry => (kind :: entry.1, entry.2)) ++ rest.paths

/-- A node, with the kinds of the nodes above it. -/
structure Found (κ α : Type) where
  above : List κ
  kind : κ
  children : Forest κ α

/-- The nodes of the kinds that are looked for, in the order in which they begin. -/
def findAll (wanted : κ → Bool) (above : List κ) : Forest κ α → List (Found κ α)
  | nil => []
  | leaf _ rest => rest.findAll wanted above
  | node kind children rest =>
    (if wanted kind then [{ above, kind, children }] else []) ++
      (children.findAll wanted (above ++ [kind]) ++ rest.findAll wanted above)

/-- The forest without the nodes of these kinds and what is below them. -/
def prune (removed : κ → Bool) : Forest κ α → Forest κ α
  | nil => nil
  | leaf item rest => leaf item (rest.prune removed)
  | node kind children rest =>
    if removed kind then rest.prune removed
    else node kind (children.prune removed) (rest.prune removed)

variable {forest : Forest κ α} {wanted removed : κ → Bool} {above path : List κ} {item : α}
  {found : Found κ α}

@[simp] theorem map_snd_paths (forest : Forest κ α) :
    forest.paths.map Prod.snd = forest.leaves := by
  induction forest with
  | nil => rfl
  | leaf item rest ih => rw [paths, List.map_cons, ih, leaves]
  | node kind children rest ihChildren ihRest =>
    have hchildren : (children.paths.map fun entry => (kind :: entry.1, entry.2)).map Prod.snd =
        children.paths.map Prod.snd := by
      rw [List.map_map]
      rfl
    rw [paths, List.map_append, hchildren, ihChildren, ihRest, leaves]

theorem mem_leaves_of_mem_paths (h : (path, item) ∈ forest.paths) : item ∈ forest.leaves := by
  rw [← map_snd_paths]
  exact List.mem_map_of_mem h

theorem exists_mem_paths (h : item ∈ forest.leaves) : ∃ path, (path, item) ∈ forest.paths := by
  rw [← map_snd_paths] at h
  obtain ⟨⟨path, _⟩, hmem, rfl⟩ := List.mem_map.1 h
  exact ⟨path, hmem⟩

/-- What is below a node that was found has the node on its path. -/
theorem mem_paths_of_findAll (hfound : found ∈ forest.findAll wanted above)
    (h : (path, item) ∈ found.children.paths) :
    wanted found.kind = true ∧
      ∃ upper, found.above = above ++ upper ∧
        (upper ++ found.kind :: path, item) ∈ forest.paths := by
  induction forest generalizing above with
  | nil => exact absurd hfound List.not_mem_nil
  | leaf other rest ih =>
    obtain ⟨hwanted, upper, habove, hmem⟩ := ih hfound
    exact ⟨hwanted, upper, habove, List.mem_cons_of_mem _ hmem⟩
  | node kind children rest ihChildren ihRest =>
    rw [findAll] at hfound
    rcases List.mem_append.1 hfound with hfound | hfound
    · split at hfound
      · rename_i hwanted
        rw [List.mem_singleton.1 hfound] at h ⊢
        refine ⟨hwanted, [], (List.append_nil _).symm, List.mem_append_left _ ?_⟩
        exact List.mem_map_of_mem (f := fun entry : List κ × α => (kind :: entry.1, entry.2)) h
      · exact absurd hfound List.not_mem_nil
    rcases List.mem_append.1 hfound with hfound | hfound
    · obtain ⟨hwanted, upper, habove, hmem⟩ := ihChildren hfound
      refine ⟨hwanted, kind :: upper, ?_, List.mem_append_left _ ?_⟩
      · rw [habove, List.append_assoc, List.singleton_append]
      · exact List.mem_map_of_mem (f := fun entry : List κ × α => (kind :: entry.1, entry.2)) hmem
    · obtain ⟨hwanted, upper, habove, hmem⟩ := ihRest hfound
      exact ⟨hwanted, upper, habove, List.mem_append_right _ hmem⟩

/-- Every kind on a path is that of a node that is found there. -/
theorem exists_findAll_of_mem_paths {upper : List κ} {kind : κ} (above : List κ)
    (hwanted : wanted kind = true) (h : (upper ++ kind :: path, item) ∈ forest.paths) :
    ∃ found ∈ forest.findAll wanted above, found.kind = kind ∧
      (path, item) ∈ found.children.paths := by
  induction forest generalizing above upper with
  | nil => exact absurd h List.not_mem_nil
  | leaf other rest ih =>
    rcases List.mem_cons.1 h with heq | h
    · have hnil : upper ++ kind :: path = [] := congrArg Prod.fst heq
      simp at hnil
    · exact ih above h
  | node first children rest ihChildren ihRest =>
    rw [findAll]
    rcases List.mem_append.1 h with h | h
    · obtain ⟨⟨path', item'⟩, hmem, heq⟩ := List.mem_map.1 h
      obtain ⟨hpath, rfl⟩ := Prod.mk.inj heq
      cases upper with
      | nil =>
        obtain ⟨rfl, rfl⟩ := List.cons.inj hpath
        refine ⟨⟨above, first, children⟩, List.mem_append_left _ ?_, rfl, hmem⟩
        rw [if_pos hwanted]
        exact List.mem_singleton_self _
      | cons _ upper =>
        obtain ⟨rfl, rfl⟩ := List.cons.inj hpath
        obtain ⟨found, hfound, hkind, hbelow⟩ := ihChildren (above ++ [first]) hmem
        exact ⟨found, List.mem_append_right _ (List.mem_append_left _ hfound), hkind, hbelow⟩
    · obtain ⟨found, hfound, hkind, hbelow⟩ := ihRest above h
      exact ⟨found, List.mem_append_right _ (List.mem_append_right _ hfound), hkind, hbelow⟩

/-- What is below a node that was found is in the forest. -/
theorem mem_leaves_of_findAll (hfound : found ∈ forest.findAll wanted above)
    (h : item ∈ found.children.leaves) : item ∈ forest.leaves := by
  obtain ⟨path, hpath⟩ := exists_mem_paths h
  obtain ⟨-, upper, -, hmem⟩ := mem_paths_of_findAll hfound hpath
  exact mem_leaves_of_mem_paths hmem

/-- What is left are the leaves with no removed node above them. -/
theorem paths_prune (removed : κ → Bool) (forest : Forest κ α) :
    (forest.prune removed).paths =
      forest.paths.filter fun entry => entry.1.all fun kind => !removed kind := by
  induction forest with
  | nil => rfl
  | leaf item rest ih => rw [prune, paths, paths, ih, List.filter_cons_of_pos rfl]
  | node kind children rest ihChildren ihRest =>
    rw [prune, paths, List.filter_append, List.filter_map]
    cases hremoved : removed kind with
    | true =>
      have hnone : children.paths.filter
          ((fun entry : List κ × α => entry.1.all fun kind => !removed kind) ∘
            fun entry => (kind :: entry.1, entry.2)) = [] := by
        refine List.filter_eq_nil_iff.2 fun entry _ => ?_
        simp [hremoved]
      rw [if_pos rfl, ihRest, hnone]
      rfl
    | false =>
      have hall : children.paths.filter
          ((fun entry : List κ × α => entry.1.all fun kind => !removed kind) ∘
            fun entry => (kind :: entry.1, entry.2)) =
          children.paths.filter fun entry => entry.1.all fun kind => !removed kind := by
        refine List.filter_congr fun entry _ => ?_
        simp [hremoved]
      rw [if_neg Bool.false_ne_true, paths, ihChildren, ihRest, hall]

/-- Where no leaf stands twice, a leaf has one path. -/
theorem path_unique {path' : List κ} (hnodup : forest.leaves.Nodup)
    (h : (path, item) ∈ forest.paths) (h' : (path', item) ∈ forest.paths) : path = path' := by
  rw [← map_snd_paths] at hnodup
  have heq := List.inj_on_of_nodup_map hnodup h h' rfl
  exact congrArg Prod.fst heq

end Forest
end RagflowAgent
