import RagflowAgent.Interleaving.History
import RagflowAgent.Knowledge.Application.Rebuild

/-!
# The publication of an alias

A run of the rebuild service looks up the read alias, and then moves it, or deletes its own
generation because the alias does not point to it.  Between the two requests another run can move
the alias.  The guarantees hold in the runs in which that does not happen:

* `Timely`: the alias is moved, and an index is deleted, only while the alias is as the run has
  last looked it up;
* `Exclusive`: the alias points to one index at most, and `KeepsPublished`: no index is deleted
  that the alias points to;
* `StaysAway`: no third run moves the alias to the index that two runs expect, or to one of the
  two that they publish;
* `alias_publication` is the theorem: it puts the three parts together.

`rebuildMonitor` watches one run.  It says which moves and deletions follow which look-up, and that
a run returns only when the alias was seen to point to its own index.
-/

namespace RagflowAgent
namespace Knowledge

open Interleaving Keyed Search

/-! ## The statements -/

section Statements

variable {τ : Type}

/-- Runs of the service on one cluster. -/
abbrev Rebuilds (τ : Type) : Type 1 := Config ClusterCall Error Unit Cluster τ

/-- What each run has last seen the alias point to. -/
def recordResolved [DecidableEq τ] (h : τ → List String) (cfg : Rebuilds τ) (t : τ)
    (x : ClusterInput) : τ → List String :=
  match (cfg.threads t).pending with
  | some ⟨_, .getAlias aliasName⟩ =>
    match (execCluster (.getAlias aliasName) x cfg.state).1 with
    | .ok response => Function.update h t (response.getD [])
    | .error _ => h
  | _ => h

/-- The alias is moved, and an index deleted, while the alias is as the run has seen it. -/
def Timely (aliasName : String) (h : τ → List String) (cfg : Rebuilds τ) (t : τ)
    (_ : ClusterInput) : Prop :=
  match (cfg.threads t).pending with
  | some ⟨_, .updateAliases _⟩ => cfg.state.aliases.pointed aliasName = h t
  | some ⟨_, .deleteIndex _⟩ => cfg.state.aliases.pointed aliasName = h t
  | _ => True

instance (aliasName : String) (h : τ → List String) (cfg : Rebuilds τ) (t : τ)
    (x : ClusterInput) : Decidable (Timely aliasName h cfg t x) := by
  unfold Timely
  split <;> infer_instance

/-- The alias points to one index at most. -/
def Exclusive (aliasName : String) (cfg : Rebuilds τ) : Prop :=
  (cfg.state.aliases.pointed aliasName).length ≤ 1

/-- A step does not delete the index that the alias points to. -/
def KeepsPublished (aliasName : String) (cfg : Rebuilds τ) (t : τ) (_ : ClusterInput) : Prop :=
  ∀ index, (cfg.threads t).pending = some ⟨Unit, .deleteIndex index⟩ →
    index ∉ cfg.state.aliases.pointed aliasName

/-- A step of a third run does not move the alias to the index that two runs expect, nor to an
index of theirs. -/
def StaysAway (aliasName : String) (commands : τ → RebuildCommand) (t u : τ) (cfg : Rebuilds τ)
    (v : τ) (_ : ClusterInput) : Prop :=
  match (cfg.threads v).pending with
  | some ⟨_, .updateAliases actions⟩ =>
    v = t ∨ v = u ∨ ∀ index ∈ (commands t).generation.physicalIndex ::
      (commands u).generation.physicalIndex :: (commands t).expectedCurrent.toList,
        AliasAction.add index aliasName ∉ actions
  | _ => True

instance [DecidableEq τ] (aliasName : String) (commands : τ → RebuildCommand) (t u : τ)
    (cfg : Rebuilds τ) (v : τ) (x : ClusterInput) :
    Decidable (StaysAway aliasName commands t u cfg v x) := by
  unfold StaysAway
  split <;> infer_instance

/-- Two runs that expect the alias on the same index and move it to different ones. -/
structure Rivals (first second : RebuildCommand) : Prop where
  expected : second.expectedCurrent = first.expectedCurrent
  ne : first.generation.physicalIndex ≠ second.generation.physicalIndex
  first_ne : first.expectedCurrent ≠ some first.generation.physicalIndex
  second_ne : first.expectedCurrent ≠ some second.generation.physicalIndex

end Statements

/-! ## One run -/

/-- What a run knows: its generation, what it expects, and what it has last seen the alias point
to. -/
structure RebuildSight where
  generation : IndexGeneration
  expected : Option String
  resolved : List String := []

/-- The alias is moved from the index that is expected and was seen, and an index is deleted that
the alias was not seen to point to. -/
def rebuildMonitor : Monitor ClusterCall Error RebuildSight where
  licit m _ c := match c with
    | .getAlias aliasName => aliasName = m.generation.readAlias
    | .updateAliases actions => m.resolved = m.expected.toList ∧
      actions = AliasTable.move m.expected m.generation.physicalIndex m.generation.readAlias
        m.generation.writeAlias
    | .deleteIndex index => index = m.generation.physicalIndex ∧ index ∉ m.resolved
    | _ => True
  next m _ c r := match c, r with
    | .getAlias _, .ok response => { m with resolved := response.getD [] }
    | _, _ => m

/-- The same run, perhaps after another look at the alias. -/
def RebuildSight.SameRun (m m' : RebuildSight) : Prop :=
  m'.generation = m.generation ∧ m'.expected = m.expected

section Conforms

open Monitor

variable {search : ElasticsearchSearchAdapter} {context : AuthorizationContext}
  {m : RebuildSight}

theorem RebuildSight.SameRun.refl (m : RebuildSight) : m.SameRun m := ⟨rfl, rfl⟩

theorem RebuildSight.SameRun.trans {m m' m'' : RebuildSight} (h : m.SameRun m')
    (h' : m'.SameRun m'') : m.SameRun m'' :=
  ⟨h'.1.trans h.1, h'.2.trans h.2⟩

/-- A check leaves the run as it is. -/
theorem conforms_check {p : Prop} [Decidable p] {error : Error} :
    rebuildMonitor.Conforms (Prog.raiseWhen p error) (fun _ m' => m' = m ∧ ¬ p)
      (fun _ m' => m' = m) m :=
  conforms_raiseWhen (fun _ => rfl) fun h => ⟨rfl, h⟩

theorem conforms_requireGenerationScope (generation : IndexGeneration) :
    rebuildMonitor.Conforms (search.requireGenerationScope context generation)
      (fun _ m' => m' = m) (fun _ m' => m' = m) m := by
  refine conforms_bind conforms_check fun _ m' hm' => ?_
  obtain ⟨rfl, -⟩ := hm'
  exact conforms_check.mono (fun _ _ h => h.1) fun _ _ h => h

theorem conforms_createStagingGeneration (generation : IndexGeneration) :
    rebuildMonitor.Conforms (search.createStagingGeneration context generation)
      (fun _ m' => m' = m) (fun _ m' => m' = m) m := by
  refine conforms_bind (conforms_requireGenerationScope generation) fun _ m' hm' => ?_
  subst hm'
  refine conforms_bind (R := fun _ m'' => m'' = m')
    (conforms_perform trivial (fun _ => rfl) fun _ => rfl) fun present m'' hm'' => ?_
  subst hm''
  split
  · rfl
  · exact conforms_perform trivial (fun _ => rfl) fun _ => rfl

theorem conforms_writeGeneration (generation : IndexGeneration) (records : List IndexRecord) :
    rebuildMonitor.Conforms (search.writeGeneration context generation records)
      (fun _ m' => m' = m) (fun _ m' => m' = m) m := by
  refine conforms_bind (conforms_requireGenerationScope generation) fun _ m' hm' => ?_
  subst hm'
  refine conforms_bind conforms_check fun _ m'' hm'' => ?_
  obtain ⟨rfl, -⟩ := hm''
  split
  · rfl
  · refine conforms_bind (R := fun _ m''' => m''' = m'')
      (conforms_perform trivial (fun _ => rfl) fun _ => rfl) fun errors m''' hm''' => ?_
    subst hm'''
    exact conforms_check.mono (fun _ _ h => h.1) fun _ _ h => h

theorem conforms_validateGeneration (generation : IndexGeneration) :
    rebuildMonitor.Conforms (search.validateGeneration context generation)
      (fun _ m' => m' = m) (fun _ m' => m' = m) m := by
  refine conforms_bind (conforms_requireGenerationScope generation) fun _ m' hm' => ?_
  subst hm'
  refine conforms_bind (R := fun _ m'' => m'' = m')
    (conforms_perform trivial (fun _ => rfl) fun _ => rfl) fun properties m'' hm'' => ?_
  subst hm''
  exact conforms_bind (R := fun _ m''' => m''' = m'')
    (conforms_perform trivial (fun _ => rfl) fun _ => rfl) fun _ m''' hm''' => hm'''

/-- **What a look at the alias tells**: the indexes that it points to, of which there is one at
most. -/
theorem conforms_resolveAlias {aliasName : String} (h : aliasName = m.generation.readAlias) :
    rebuildMonitor.Conforms (search.resolveAlias aliasName)
      (fun current m' => m.SameRun m' ∧ m'.resolved = current.toList) (fun _ m' => m.SameRun m')
      m := by
  refine conforms_bind (R := fun _ m' => m' = m)
    (conforms_check.mono (fun _ _ h => h.1) fun _ _ h => h ▸ .refl m) fun _ m' hm' => ?_
  subst hm'
  refine conforms_bind (R := fun response m'' => m'.SameRun m'' ∧ m''.resolved = response.getD [])
    (conforms_perform h (fun _ => ⟨⟨rfl, rfl⟩, rfl⟩) fun _ => ⟨rfl, rfl⟩)
    fun response m'' hm'' => ?_
  cases response with
  | none => exact hm''
  | some response =>
    refine conforms_bind (conforms_check.mono (fun _ _ h => h) fun _ _ h => h ▸ hm''.1)
      fun _ m''' hm''' => ?_
    obtain ⟨rfl, hone⟩ := hm'''
    rw [List.length_insertionSort] at hone
    refine ⟨hm''.1, hm''.2.trans ?_⟩
    cases response with
    | nil => rfl
    | cons index others =>
      have hothers : others = [] := by
        rw [List.length_cons] at hone
        exact List.length_eq_zero_iff.1 (by omega)
      subst hothers
      rfl

/-- A switch that returns has seen the alias on its index. -/
theorem conforms_switchAlias :
    rebuildMonitor.Conforms (search.switchAlias context m.generation m.expected)
      (fun current m' => m.SameRun m' ∧ m'.resolved = [m.generation.physicalIndex] ∧
        current = m.expected) (fun _ m' => m.SameRun m') m := by
  refine conforms_bind ((conforms_requireGenerationScope m.generation).mono (fun _ _ h => h)
    fun _ _ h => h ▸ .refl m) fun _ m' hm' => ?_
  subst hm'
  refine conforms_bind (conforms_resolveAlias rfl) fun current m₁ h₁ => ?_
  refine conforms_bind (conforms_check.mono (fun _ _ h => h) fun _ _ h => h ▸ h₁.1)
    fun _ m₂ h₂ => ?_
  obtain ⟨rfl, hcurrent⟩ := h₂
  rw [not_not] at hcurrent
  subst hcurrent
  refine conforms_bind (R := fun _ m₃ => m₃ = m₂) (conforms_perform ?_ (fun _ => rfl) fun _ => h₁.1)
    fun _ m₃ h₃ => ?_
  · rw [← h₁.1.2, ← h₁.1.1]
    refine ⟨?_, rfl⟩
    rw [h₁.2, h₁.1.2]
  subst h₃
  refine conforms_bind ((conforms_resolveAlias (congrArg _ h₁.1.1.symm)).mono (fun _ _ h => h)
    fun _ _ h => h₁.1.trans h) fun actual m₄ h₄ => ?_
  refine conforms_bind (conforms_check.mono (fun _ _ h => h) fun _ _ h => h ▸ h₁.1.trans h₄.1)
    fun _ m₅ h₅ => ?_
  obtain ⟨rfl, hactual⟩ := h₅
  rw [not_not] at hactual
  exact ⟨h₁.1.trans h₄.1, by rw [h₄.2, hactual]; rfl, rfl⟩

/-- A generation is deleted when the alias was not seen to point to it. -/
theorem conforms_deleteGeneration :
    rebuildMonitor.Conforms (search.deleteGeneration context m.generation)
      (fun _ _ => True) (fun _ _ => True) m := by
  refine conforms_bind ((conforms_requireGenerationScope m.generation).mono (fun _ _ h => h)
    fun _ _ _ => trivial) fun _ m' hm' => ?_
  subst hm'
  refine conforms_bind ((conforms_resolveAlias rfl).mono (fun _ _ h => h) fun _ _ _ => trivial)
    fun current m₁ h₁ => ?_
  refine conforms_bind (conforms_check.mono (fun _ _ h => h) fun _ _ _ => trivial) fun _ m₂ h₂ => ?_
  obtain ⟨rfl, hcurrent⟩ := h₂
  refine conforms_perform ⟨by rw [h₁.1.1], fun hmem => hcurrent ?_⟩ (fun _ => trivial)
    fun _ => trivial
  rw [h₁.2] at hmem
  exact Option.mem_toList.1 hmem

/-- A publication that returns has seen the alias on its index, even if the switch has failed. -/
theorem conforms_publish :
    rebuildMonitor.Conforms
      (IndexRebuildService.publish search context m.generation m.expected)
      (fun _ m' => m.SameRun m' ∧ m'.resolved = [m.generation.physicalIndex])
      (fun _ m' => m.SameRun m') m := by
  refine conforms_attempt (conforms_switchAlias.mono (fun _ _ h => ⟨h.1, h.2.1⟩) fun _ _ h => h)
    fun error m₁ h₁ => ?_
  refine conforms_bind ((conforms_resolveAlias (congrArg _ h₁.1.symm)).mono (fun _ _ h => h)
    fun _ _ h => h₁.trans h) fun actual m₂ h₂ => ?_
  refine conforms_bind (conforms_check.mono (fun _ _ h => h) fun _ _ h => h ▸ h₁.trans h₂.1)
    fun _ m₃ h₃ => ?_
  obtain ⟨rfl, hactual⟩ := h₃
  rw [not_not] at hactual
  exact ⟨h₁.trans h₂.1, by rw [h₂.2, hactual]; rfl⟩

theorem conforms_build (records : List IndexRecord) :
    rebuildMonitor.Conforms
      (IndexRebuildService.build search context m.generation records m.expected)
      (fun _ m' => m'.resolved = [m.generation.physicalIndex]) (fun _ m' => m.SameRun m') m := by
  refine conforms_bind ((conforms_writeGeneration m.generation records).mono (fun _ _ h => h)
    fun _ _ h => h ▸ .refl m) fun _ m' hm' => ?_
  subst hm'
  refine conforms_bind ((conforms_validateGeneration m'.generation).mono (fun _ _ h => h)
    fun _ _ h => h ▸ .refl m') fun validation m'' hm'' => ?_
  subst hm''
  refine conforms_bind (conforms_check.mono (fun _ _ h => h.1) fun _ _ h => h ▸ .refl m'')
    fun _ m₁ h₁ => ?_
  subst h₁
  refine conforms_bind conforms_publish fun previous m₂ h₂ => ?_
  exact conforms_bind (conforms_check.mono (fun _ _ h => h.1) fun _ _ h => h ▸ h₂.1)
    fun _ m₃ h₃ => h₃ ▸ h₂.2

/-- The handler does not return. -/
theorem conforms_discard (error : Error) :
    rebuildMonitor.Conforms (IndexRebuildService.discard search context m.generation error)
      (fun _ m' => m'.resolved = [m.generation.physicalIndex]) (fun _ _ => True) m := by
  refine conforms_bind ((conforms_resolveAlias rfl).mono (fun _ _ h => h) fun _ _ _ => trivial)
    fun actual m₁ h₁ => ?_
  dsimp only
  split
  · rw [← h₁.1.1]
    exact conforms_bind conforms_deleteGeneration fun _ _ _ => trivial
  · trivial

theorem conforms_buildAndPublish (records : List IndexRecord) :
    rebuildMonitor.Conforms
      (IndexRebuildService.buildAndPublish search context m.generation records m.expected)
      (fun _ m' => m'.resolved = [m.generation.physicalIndex]) (fun _ _ => True) m := by
  refine conforms_bind (conforms_check.mono (fun _ _ h => h.1) fun _ _ _ => trivial)
    fun _ m' hm' => ?_
  subst hm'
  refine conforms_bind ((conforms_createStagingGeneration m'.generation).mono (fun _ _ h => h)
    fun _ _ _ => trivial) fun _ m'' hm'' => ?_
  subst hm''
  refine conforms_attempt (conforms_build records) fun error m₁ h₁ => ?_
  rw [← h₁.1]
  exact conforms_discard error

theorem conforms_rollbackAlias {expectedCurrent : String} (h : m.expected = some expectedCurrent) :
    rebuildMonitor.Conforms
      (IndexRebuildService.rollbackAlias search context m.generation expectedCurrent)
      (fun _ m' => m'.resolved = [m.generation.physicalIndex]) (fun _ _ => True) m := by
  refine conforms_bind ((conforms_validateGeneration m.generation).mono (fun _ _ h => h)
    fun _ _ _ => trivial) fun validation m' hm' => ?_
  subst hm'
  refine conforms_bind (conforms_check.mono (fun _ _ h => h.1) fun _ _ _ => trivial)
    fun _ m'' hm'' => ?_
  subst hm''
  rw [← h]
  exact conforms_bind (conforms_switchAlias.mono (fun _ _ h => h.2.1) fun _ _ _ => trivial)
    fun _ _ h => h

/-- What a run knows at its start. -/
def RebuildCommand.sight (command : RebuildCommand) : RebuildSight where
  generation := command.generation
  expected := command.expectedCurrent

/-- **A run returns only when it has last seen the alias on its own index.** -/
theorem conforms_rebuildCommand (command : RebuildCommand) :
    rebuildMonitor.Conforms (command.program search)
      (fun _ m' => m'.resolved = [command.generation.physicalIndex]) (fun _ _ => True)
      command.sight := by
  cases command with
  | buildAndPublish context generation records expectedCurrent =>
    exact conforms_bind (conforms_buildAndPublish (m := ⟨generation, expectedCurrent, []⟩) records)
      fun _ _ h => h
  | rollbackAlias context target expectedCurrent =>
    exact conforms_rollbackAlias (m := ⟨target, some expectedCurrent, []⟩) rfl

end Conforms

/-! ## What a step does to the alias -/

section Steps

/-- The requests that do not write aliases. -/
def ClusterCall.KeepsAliases {β : Type} : ClusterCall β → Prop
  | .updateAliases _ | .deleteIndex _ => False
  | _ => True

/-- A call that finds the alias as the run has seen it. -/
def FindsAlias {β : Type} (aliasName : String) (m : RebuildSight) (s : Cluster)
    (c : ClusterCall β) : Prop :=
  match c with
  | .updateAliases _ | .deleteIndex _ => s.aliases.pointed aliasName = m.resolved
  | _ => True

/-- The alias is moved from the index that a run expects to its own. -/
structure MovesAlias {β : Type} (aliasName : String) (m : RebuildSight) (c : ClusterCall β)
    (before after : List String) : Prop where
  call : ∃ actions, (⟨β, c⟩ : Σ β, ClusterCall β) = ⟨Unit, .updateAliases actions⟩ ∧
    AliasAction.add m.generation.physicalIndex aliasName ∈ actions
  before : before = m.expected.toList
  after : after = [m.generation.physicalIndex]

variable {β : Type} {c : ClusterCall β} {x : ClusterInput} {s : Cluster} {m : RebuildSight}
  {aliasName : String}

theorem mem_move (current : Option String) (target readAlias writeAlias : String) :
    AliasAction.add target readAlias ∈ AliasTable.move current target readAlias writeAlias :=
  List.mem_append_right _ List.mem_cons_self

/-- The requests that concern the indexes leave the aliases as they are. -/
theorem aliases_of_effect {b : β} {s' : Cluster} (hc : c.KeepsAliases)
    (h : c.effect x s = .ok (b, s')) : s'.aliases = s.aliases := by
  cases c with
  | createIndex index properties =>
    simp only [ClusterCall.effect] at h
    split at h <;> cases h
    rfl
  | bulk index documents =>
    simp only [ClusterCall.effect] at h
    split at h <;> cases h <;> rfl
  | getMapping index =>
    simp only [ClusterCall.effect] at h
    split at h <;> cases h
    rfl
  | search index =>
    simp only [ClusterCall.effect] at h
    split at h <;> cases h
    rfl
  | getAlias aliasName =>
    simp only [ClusterCall.effect] at h
    split at h <;> cases h <;> rfl
  | indexExists index =>
    cases h
    rfl
  | updateAliases actions => exact hc.elim
  | deleteIndex index => exact hc.elim

/-- Such a request leaves them as they are, whether it fails or not. -/
theorem aliases_exec (hc : c.KeepsAliases) :
    (execCluster c x s).2.aliases = s.aliases := by
  rcases execFaulty_cases (fun _ _ => true) ClusterInput.toFaults ClusterCall.effect c x s with
    ⟨e, he⟩ | ⟨b, s', heffect, he⟩
  · rw [execCluster, he]
  · rcases he with he | ⟨e, he⟩ <;> rw [execCluster, he] <;> exact aliases_of_effect hc heffect

/-- **What a step does to the alias**: nothing, or it moves it from the index that the run expects
to its own. -/
theorem pointed_exec (halias : m.generation.readAlias = aliasName)
    (hlicit : rebuildMonitor.licit m c) (hfinds : FindsAlias aliasName m s c) :
    (execCluster c x s).2.aliases.pointed aliasName = s.aliases.pointed aliasName ∨
      MovesAlias aliasName m c (s.aliases.pointed aliasName)
        ((execCluster c x s).2.aliases.pointed aliasName) := by
  cases c with
  | updateAliases actions =>
    obtain ⟨hresolved, rfl⟩ := hlicit
    have hpointed : s.aliases.pointed m.generation.readAlias = m.expected.toList := by
      rw [halias, ← hresolved]
      exact hfinds
    rcases execFaulty_cases (fun _ _ => true) ClusterInput.toFaults ClusterCall.effect
      (.updateAliases _) x s with ⟨e, he⟩ | ⟨b, s', heffect, he⟩
    · rw [execCluster, he]
      exact .inl rfl
    · have hafter : (execCluster (.updateAliases (AliasTable.move m.expected
          m.generation.physicalIndex m.generation.readAlias m.generation.writeAlias)) x s).2 =
            s' := by
        rcases he with he | ⟨e, he⟩ <;> rw [execCluster, he]
      rw [hafter]
      rw [ClusterCall.effect] at heffect
      split at heffect
      · cases heffect
      · cases heffect
        subst halias
        exact .inr ⟨⟨_, rfl, mem_move _ _ _ _⟩, hpointed, AliasTable.pointed_update_move hpointed⟩
  | deleteIndex index =>
    obtain ⟨-, hindex⟩ := hlicit
    have hpointed : s.aliases.pointed aliasName = m.resolved := hfinds
    rw [← hpointed] at hindex
    have hcases : (execCluster (.deleteIndex index) x s).2 = s ∨
        (execCluster (.deleteIndex index) x s).2 =
          ⟨s.indexes.erase (fun found => found.name = index), s.aliases.dropIndex index⟩ :=
      execFaulty_snd_cases rfl
    rcases hcases with he | he
    · rw [he]
      exact .inl rfl
    · rw [he]
      exact .inl (AliasTable.pointed_dropIndex hindex)
  | _ =>
    refine .inl (congrArg (AliasTable.pointed · aliasName) (aliases_exec ?_))
    trivial

/-- An answer leaves a run the run that it is. -/
theorem sameRun_next (r : Except Error β) : m.SameRun (rebuildMonitor.next m c r) := by
  cases c with
  | getAlias aliasName =>
    cases r with
    | ok response => exact ⟨rfl, rfl⟩
    | error e => exact .refl m
  | _ => exact .refl m

/-- A run has seen what it had seen before, or what the alias points to. -/
theorem mem_resolved_next (halias : m.generation.readAlias = aliasName)
    (hlicit : rebuildMonitor.licit m c) {index : String}
    (h : index ∈ (rebuildMonitor.next m c (execCluster c x s).1).resolved) :
    index ∈ m.resolved ∨ index ∈ s.aliases.pointed aliasName := by
  cases c with
  | getAlias name =>
    have hname : name = aliasName := hlicit.trans halias
    subst hname
    cases hr : (execCluster (.getAlias name) x s).1 with
    | error e =>
      rw [hr] at h
      exact .inl h
    | ok response =>
      rw [hr] at h
      have heffect : ClusterCall.effect (.getAlias name) x s = .ok (response, _) :=
        execFaulty_of_ok hr
      right
      simp only [ClusterCall.effect] at heffect
      split at heffect
      · rw [← (Prod.mk.inj (Except.ok.inj heffect)).1] at h
        exact absurd h List.not_mem_nil
      · rw [← (Prod.mk.inj (Except.ok.inj heffect)).1] at h
        exact h
  | _ => exact .inl h

end Steps

/-! ## Runs -/

section Runs

variable {τ : Type}

/-- What the runs know, and the indexes that the alias has pointed to. -/
structure AliasPast (τ : Type) where
  sights : τ → RebuildSight
  ever : List String

def AliasPast.resolved (h : AliasPast τ) (t : τ) : List String := (h.sights t).resolved

/-- The alias points to one index at most, and what a run has seen it point to it has pointed
to. -/
structure Published (aliasName : String) (commands : τ → RebuildCommand) (h : AliasPast τ)
    (s : Cluster) : Prop where
  generation : ∀ t, (h.sights t).generation = (commands t).generation
  expected : ∀ t, (h.sights t).expected = (commands t).expectedCurrent
  single : (s.aliases.pointed aliasName).length ≤ 1
  current : ∀ index ∈ s.aliases.pointed aliasName, index ∈ h.ever
  seen : ∀ t, ∀ index ∈ h.resolved t, index ∈ h.ever

/-- When the alias has pointed to the index of one of two runs, it has left the index that they
expect, and it does not come to the other one. -/
structure Unrivalled (aliasName : String) (first second : RebuildCommand) (ever : List String)
    (s : Cluster) : Prop where
  left : first.generation.physicalIndex ∈ ever ∨ second.generation.physicalIndex ∈ ever →
    s.aliases.pointed aliasName ≠ first.expectedCurrent.toList
  one : ¬ (first.generation.physicalIndex ∈ ever ∧ second.generation.physicalIndex ∈ ever)

variable {aliasName : String} {commands : τ → RebuildCommand} {h : AliasPast τ} {s : Cluster}
  {cfg : Rebuilds τ} {t u v : τ} {β : Type} {c : ClusterCall β} {x : ClusterInput}

/-- **The alias comes to the index of one of two rivals at most**, if no third run brings it back
to the index that they expect. -/
theorem Unrivalled.call (hunrivalled : Unrivalled aliasName (commands t) (commands u) h.ever s)
    (hrivals : Rivals (commands t) (commands u)) (hpublished : Published aliasName commands h s)
    (halias : (commands v).generation.readAlias = aliasName)
    (hlicit : rebuildMonitor.licit (h.sights v) c) (hfinds : FindsAlias aliasName (h.sights v) s c)
    (haway : ∀ actions, (⟨β, c⟩ : Σ β, ClusterCall β) = ⟨Unit, .updateAliases actions⟩ →
      v = t ∨ v = u ∨ ∀ index ∈ (commands t).generation.physicalIndex ::
        (commands u).generation.physicalIndex :: (commands t).expectedCurrent.toList,
          AliasAction.add index aliasName ∉ actions) :
    Unrivalled aliasName (commands t) (commands u)
      (h.ever ++ (execCluster c x s).2.aliases.pointed aliasName) (execCluster c x s).2 := by
  have halias' : (h.sights v).generation.readAlias = aliasName := by
    rw [hpublished.generation v, halias]
  rcases pointed_exec (x := x) halias' hlicit hfinds with hkept | hmoved
  · have hever : ∀ index, index ∈ h.ever ++ s.aliases.pointed aliasName → index ∈ h.ever := by
      intro index hindex
      rcases List.mem_append.1 hindex with hold | hnow
      · exact hold
      · exact hpublished.current index hnow
    constructor
    · intro hmem
      rw [hkept] at hmem ⊢
      exact hunrivalled.left (hmem.imp (hever _) (hever _))
    · rintro ⟨hfirst, hsecond⟩
      rw [hkept] at hfirst hsecond
      exact hunrivalled.one ⟨hever _ hfirst, hever _ hsecond⟩
  · obtain ⟨⟨actions, hcall, hadds⟩, hbefore, hafter⟩ := hmoved
    rw [hpublished.expected v] at hbefore
    rw [hpublished.generation v] at hadds hafter
    rw [hafter]
    have hever : ∀ index, index ≠ (commands v).generation.physicalIndex →
        index ∈ h.ever ++ [(commands v).generation.physicalIndex] → index ∈ h.ever := by
      intro index hne hindex
      rcases List.mem_append.1 hindex with hold | hnow
      · exact hold
      · exact absurd (List.mem_singleton.1 hnow) hne
    have hleaves : ∀ index, (commands t).expectedCurrent ≠ some index →
        [index] ≠ (commands t).expectedCurrent.toList := by
      intro index hne heq
      exact hne (Option.mem_toList.1 (heq ▸ List.mem_singleton.2 rfl))
    -- a move from the expected index finds that the alias has been on neither of the two
    have hfresh : (commands v).expectedCurrent = (commands t).expectedCurrent →
        (commands t).generation.physicalIndex ∉ h.ever ∧
          (commands u).generation.physicalIndex ∉ h.ever := by
      intro hexpected
      rw [hexpected] at hbefore
      exact ⟨fun hmem => hunrivalled.left (.inl hmem) hbefore,
        fun hmem => hunrivalled.left (.inr hmem) hbefore⟩
    rcases haway actions hcall with rfl | rfl | haway
    · refine ⟨fun _ => hafter ▸ hleaves _ hrivals.first_ne, fun hboth => ?_⟩
      exact (hfresh rfl).2 (hever _ hrivals.ne.symm hboth.2)
    · refine ⟨fun _ => hafter ▸ hleaves _ hrivals.second_ne, fun hboth => ?_⟩
      exact (hfresh hrivals.expected).1 (hever _ hrivals.ne hboth.1)
    · have hne : ∀ index ∈ (commands t).generation.physicalIndex ::
          (commands u).generation.physicalIndex :: (commands t).expectedCurrent.toList,
            index ≠ (commands v).generation.physicalIndex := by
        rintro index hindex rfl
        exact haway _ hindex hadds
      have hfirst := hne _ List.mem_cons_self
      have hsecond := hne _ (List.mem_cons_of_mem _ List.mem_cons_self)
      refine ⟨fun _ => hafter ▸ hleaves _ fun hexpected => ?_, fun hboth => ?_⟩
      · refine hne _ (List.mem_cons_of_mem _ (List.mem_cons_of_mem _ ?_)) rfl
        rw [hexpected]
        exact List.mem_singleton.2 rfl
      · exact hunrivalled.one ⟨hever _ hfirst hboth.1, hever _ hsecond hboth.2⟩

/-- Every run conforms from here on, and the invariant holds. -/
abbrev WatchedAlias (commands : τ → RebuildCommand) (I : AliasPast τ → Cluster → Prop)
    (h : AliasPast τ) (cfg : Rebuilds τ) : Prop :=
  rebuildMonitor.WatchedPast
    (fun t _ m => m.resolved = [(commands t).generation.physicalIndex]) (fun _ _ _ => True)
    AliasPast.sights I h cfg

theorem WatchedAlias.keepsPublished
    (hw : WatchedAlias commands (Published aliasName commands) h cfg)
    (htimely : Timely aliasName h.resolved cfg t x) : KeepsPublished aliasName cfg t x := by
  intro index hpending
  have hconforms := hw.conforms t
  rw [Timely, hpending] at htimely
  cases ht : cfg.threads t with
  | ret a =>
    rw [ht] at hpending
    cases hpending
  | raise e =>
    rw [ht] at hpending
    cases hpending
  | call c k =>
    rw [ht] at hpending hconforms
    cases hpending
    have htimely' : cfg.state.aliases.pointed aliasName = (h.sights t).resolved := htimely
    rw [htimely']
    exact hconforms.1.2

theorem StaysAway.of_pending (haway : StaysAway aliasName commands t u cfg v x)
    (hpending : (cfg.threads v).pending = some ⟨β, c⟩) (actions : List AliasAction)
    (hcall : (⟨β, c⟩ : Σ β, ClusterCall β) = ⟨Unit, .updateAliases actions⟩) :
    v = t ∨ v = u ∨ ∀ index ∈ (commands t).generation.physicalIndex ::
      (commands u).generation.physicalIndex :: (commands t).expectedCurrent.toList,
        AliasAction.add index aliasName ∉ actions := by
  rw [hcall] at hpending
  rw [StaysAway, hpending] at haway
  exact haway

/-- At the start the alias has been on neither of two rivals and on the index that they expect, or
it is not there. -/
theorem unrivalled_start (hrivals : Rivals (commands t) (commands u))
    (hone : (s.aliases.pointed aliasName).length ≤ 1) :
    Unrivalled aliasName (commands t) (commands u) (s.aliases.pointed aliasName) s := by
  have hsingle : ∀ index ∈ s.aliases.pointed aliasName,
      s.aliases.pointed aliasName = [index] := by
    intro index hindex
    have hlength : (s.aliases.pointed aliasName).length = 1 :=
      le_antisymm hone (List.length_pos_of_mem hindex)
    obtain ⟨other, hother⟩ := List.length_eq_one_iff.1 hlength
    rw [hother] at hindex ⊢
    rw [List.mem_singleton.1 hindex]
  have hleaves : ∀ index, (commands t).expectedCurrent ≠ some index →
      index ∈ s.aliases.pointed aliasName →
        s.aliases.pointed aliasName ≠ (commands t).expectedCurrent.toList := by
    intro index hne hindex heq
    rw [heq] at hindex
    exact hne (Option.mem_toList.1 hindex)
  constructor
  · rintro (hfirst | hsecond)
    · exact hleaves _ hrivals.first_ne hfirst
    · exact hleaves _ hrivals.second_ne hsecond
  · rintro ⟨hfirst, hsecond⟩
    rw [hsingle _ hfirst] at hsecond
    exact hrivals.ne (List.mem_singleton.1 hsecond).symm

/-- The alias has pointed to the index of a run that has returned. -/
theorem WatchedAlias.mem_ever {first second : RebuildCommand}
    (hw : WatchedAlias commands (fun h s => Published aliasName commands h s ∧
      Unrivalled aliasName first second h.ever s) h cfg)
    (hreturned : (cfg.threads t).returned = some ()) :
    (commands t).generation.physicalIndex ∈ h.ever := by
  have hconforms := hw.conforms t
  rw [Prog.returned_eq_some.1 hreturned] at hconforms
  refine hw.inv.1.seen t _ ?_
  have hresolved : h.resolved t = [(commands t).generation.physicalIndex] := hconforms
  rw [hresolved]
  exact List.mem_singleton.2 rfl

variable [DecidableEq τ]

def recordSights (aliasName : String) (h : AliasPast τ) (cfg : Rebuilds τ) (t : τ)
    (x : ClusterInput) : AliasPast τ :=
  match (cfg.threads t).pending with
  | some _ => ⟨rebuildMonitor.watch execCluster cfg h.sights t x,
      h.ever ++ (cfg.step execCluster t x).state.aliases.pointed aliasName⟩
  | none => h

theorem recordSights_call {k : Except Error β → Rebuild Unit}
    (ht : cfg.threads t = .call c k) : recordSights aliasName h cfg t x =
      ⟨Function.update h.sights t
          (rebuildMonitor.next (h.sights t) c (execCluster c x cfg.state).1),
        h.ever ++ (execCluster c x cfg.state).2.aliases.pointed aliasName⟩ := by
  have hpending : (cfg.threads t).pending = some ⟨β, c⟩ := by rw [ht]; rfl
  rw [recordSights, hpending, Monitor.watch_call ht, Config.step_call ht]

theorem recordSights_finished (ht : (cfg.threads t).Finished) :
    recordSights aliasName h cfg t x = h := by
  have hpending : (cfg.threads t).pending = none := ht
  rw [recordSights, hpending]

/-- **A timely call keeps the alias on one index.** -/
theorem Published.call (hpublished : Published aliasName commands h s)
    (halias : (commands t).generation.readAlias = aliasName)
    (hlicit : rebuildMonitor.licit (h.sights t) c)
    (hfinds : FindsAlias aliasName (h.sights t) s c) :
    Published aliasName commands
      ⟨Function.update h.sights t (rebuildMonitor.next (h.sights t) c (execCluster c x s).1),
        h.ever ++ (execCluster c x s).2.aliases.pointed aliasName⟩ (execCluster c x s).2 := by
  have halias' : (h.sights t).generation.readAlias = aliasName := by
    rw [hpublished.generation t, halias]
  have hsame := sameRun_next (m := h.sights t) (c := c) (execCluster c x s).1
  refine ⟨fun u => ?_, fun u => ?_, ?_, fun index hindex => ?_, fun u index hindex => ?_⟩
  · dsimp only
    by_cases hu : u = t
    · subst hu
      rw [Function.update_self, hsame.1, hpublished.generation]
    · rw [Function.update_of_ne hu, hpublished.generation]
  · dsimp only
    by_cases hu : u = t
    · subst hu
      rw [Function.update_self, hsame.2, hpublished.expected]
    · rw [Function.update_of_ne hu, hpublished.expected]
  · rcases pointed_exec (x := x) halias' hlicit hfinds with hkept | hmoved
    · rw [hkept]
      exact hpublished.single
    · rw [hmoved.after]
      exact le_rfl
  · exact List.mem_append_right _ hindex
  · refine List.mem_append_left _ ?_
    change index ∈ (Function.update h.sights t _ u).resolved at hindex
    by_cases hu : u = t
    · subst hu
      rw [Function.update_self] at hindex
      rcases mem_resolved_next halias' hlicit hindex with hold | hnew
      · exact hpublished.seen u index hold
      · exact hpublished.current index hnew
    · rw [Function.update_of_ne hu] at hindex
      exact hpublished.seen u index hindex

/-- A step in which an invariant is kept by the calls that find the alias as it was seen. -/
theorem WatchedAlias.step {I : AliasPast τ → Cluster → Prop} (hw : WatchedAlias commands I h cfg)
    (htimely : Timely aliasName h.resolved cfg t x)
    (hI : ∀ {β : Type} (c : ClusterCall β), (cfg.threads t).pending = some ⟨β, c⟩ →
      rebuildMonitor.licit (h.sights t) c → FindsAlias aliasName (h.sights t) cfg.state c →
        I ⟨Function.update h.sights t
            (rebuildMonitor.next (h.sights t) c (execCluster c x cfg.state).1),
          h.ever ++ (execCluster c x cfg.state).2.aliases.pointed aliasName⟩
          (execCluster c x cfg.state).2) :
    WatchedAlias commands I (recordSights aliasName h cfg t x) (cfg.step execCluster t x) := by
  refine Monitor.WatchedPast.step hw (fun hend => recordSights_finished hend) ?_
    fun {β} c k ht hlicit => ?_
  · cases ht : cfg.threads t with
    | ret a =>
      have hend : (cfg.threads t).Finished := by rw [ht]; rfl
      rw [recordSights_finished hend, Monitor.watch_finished hend]
    | raise e =>
      have hend : (cfg.threads t).Finished := by rw [ht]; rfl
      rw [recordSights_finished hend, Monitor.watch_finished hend]
    | call c k => rw [recordSights_call ht, Monitor.watch_call ht]
  · have hpending : (cfg.threads t).pending = some ⟨β, c⟩ := by rw [ht]; rfl
    rw [recordSights_call ht]
    refine hI c hpending hlicit ?_
    rw [Timely, hpending] at htimely
    cases c with
    | updateAliases actions => exact htimely
    | deleteIndex index => exact htimely
    | _ => trivial

theorem resolved_recordSights (h : AliasPast τ) (cfg : Rebuilds τ) (t : τ) (x : ClusterInput) :
    (recordSights aliasName h cfg t x).resolved = recordResolved h.resolved cfg t x := by
  cases ht : cfg.threads t with
  | ret a =>
    have hend : (cfg.threads t).pending = none := by rw [ht]; rfl
    rw [recordSights_finished hend, recordResolved, hend]
  | raise e =>
    have hend : (cfg.threads t).pending = none := by rw [ht]; rfl
    rw [recordSights_finished hend, recordResolved, hend]
  | call c k =>
    have hpending : (cfg.threads t).pending = some ⟨_, c⟩ := by rw [ht]; rfl
    have hupdate : ∀ (m : RebuildSight) (ever : List String),
        AliasPast.resolved ⟨Function.update h.sights t m, ever⟩ =
          Function.update h.resolved t m.resolved :=
      fun m _ => Function.comp_update RebuildSight.resolved h.sights t m
    rw [recordSights_call ht, recordResolved, hpending, hupdate]
    cases c with
    | getAlias name =>
      dsimp only
      cases (execCluster (.getAlias name) x cfg.state).1 with
      | ok response => rfl
      | error e => exact Function.update_eq_self t h.resolved
    | _ => exact Function.update_eq_self t h.resolved

/-- **Publication is exclusive and never dangling.**  In every run in which the alias is moved, and
an index deleted, while the alias is as the run has seen it, the alias points to one index at
most, and no index is deleted that it points to.  Of two runs that expect the same index and
publish others one returns at most, if no third run moves the alias to one of the three. -/
theorem alias_publication (search : ElasticsearchSearchAdapter) (commands : τ → RebuildCommand)
    (s : Cluster) (aliasName : String)
    (halias : ∀ t, (commands t).generation.readAlias = aliasName)
    (hone : (s.aliases.pointed aliasName).length ≤ 1) (l : List (τ × ClusterInput))
    (hl : (rebuildSystem search commands s).RespectsPast execCluster recordResolved
      (Timely aliasName) (fun _ => []) l) :
    Exclusive aliasName ((rebuildSystem search commands s).run execCluster l) ∧
    (rebuildSystem search commands s).Respects execCluster (KeepsPublished aliasName) l ∧
    ∀ t u, Rivals (commands t) (commands u) →
      (rebuildSystem search commands s).Respects execCluster
        (StaysAway aliasName commands t u) l →
      ¬ ((((rebuildSystem search commands s).run execCluster l).threads t).returned = some () ∧
        (((rebuildSystem search commands s).run execCluster l).threads u).returned =
          some ()) := by
  let start : AliasPast τ := ⟨fun t => (commands t).sight, s.aliases.pointed aliasName⟩
  have hconforms : ∀ t, rebuildMonitor.Conforms ((commands t).program search)
      (fun _ m => m.resolved = [(commands t).generation.physicalIndex]) (fun _ _ => True)
      (start.sights t) := fun t => conforms_rebuildCommand (commands t)
  have hpublished : Published aliasName commands start s := by
    refine ⟨fun _ => rfl, fun _ => rfl, hone, fun _ hindex => hindex, fun t index hindex => ?_⟩
    exact absurd hindex List.not_mem_nil
  have hview : ∀ (h : AliasPast τ) (cfg : Rebuilds τ) t x,
      (recordSights aliasName h cfg t x).resolved = recordResolved h.resolved cfg t x :=
    resolved_recordSights
  change Config.RespectsPast _ _ _ start.resolved _ _ at hl
  rw [Config.respectsPast_of_view hview] at hl
  have hstep : ∀ (h : AliasPast τ) cfg t x, WatchedAlias commands (Published aliasName commands) h
      cfg → Timely aliasName h.resolved cfg t x → WatchedAlias commands
        (Published aliasName commands) (recordSights aliasName h cfg t x)
          (cfg.step execCluster t x) := by
    intro h cfg t x hw htimely
    exact WatchedAlias.step hw htimely fun c _ hlicit hfinds =>
      hw.inv.call (halias t) hlicit hfinds
  refine ⟨(hl.invariant hstep ⟨hpublished, hconforms⟩).inv.single, ?_, ?_⟩
  · refine (hl.of_invariant hstep (D := fun _ => KeepsPublished aliasName) ?_
      ⟨hpublished, hconforms⟩).respects
    exact fun h cfg t x hw htimely => hw.keepsPublished htimely
  · rintro t u hrivals haway ⟨ht, hu⟩
    have hstep' : ∀ (h : AliasPast τ) cfg v x, WatchedAlias commands (fun h s =>
        Published aliasName commands h s ∧
          Unrivalled aliasName (commands t) (commands u) h.ever s) h cfg →
        Timely aliasName h.resolved cfg v x ∧ StaysAway aliasName commands t u cfg v x →
          WatchedAlias commands (fun h s => Published aliasName commands h s ∧
            Unrivalled aliasName (commands t) (commands u) h.ever s)
              (recordSights aliasName h cfg v x) (cfg.step execCluster v x) := by
      intro h cfg v x hw hC
      refine WatchedAlias.step hw hC.1 fun c hpending hlicit hfinds => ⟨?_, ?_⟩
      · exact hw.inv.1.call (halias v) hlicit hfinds
      · exact hw.inv.2.call hrivals hw.inv.1 (halias v) hlicit hfinds (hC.2.of_pending hpending)
    have hend := (hl.and_respects haway).invariant hstep'
      ⟨⟨hpublished, unrivalled_start hrivals hone⟩, hconforms⟩
    exact hend.inv.2.one ⟨hend.mem_ever ht, hend.mem_ever hu⟩

end Runs

/-! ## Two runs that overlap -/

namespace Sample

def rebuilder : AuthorizationContext where
  tenantId := "t"
  actorId := "operator"
  requestId := "request"

/-- The generation with an index of the given name. -/
def generationOf (physicalIndex : String) : IndexGeneration where
  tenantId := "t"
  knowledgeBaseId := "kb"
  physicalIndex := physicalIndex
  readAlias := "c-read"
  writeAlias := "c-write"
  expectedChunks := 0
  mappingVersion := "1"

/-- Three generations, of which the first one is in use. -/
def generations : Cluster where
  indexes := ⟨[⟨"c-1", mappingProperties, []⟩, ⟨"c-2", mappingProperties, []⟩,
    ⟨"c-3", mappingProperties, []⟩], by decide⟩
  aliases := [("c-read", "c-1"), ("c-write", "c-1")]

/-- Both runs expect the first generation. -/
def rebuildCommands : ℕ → RebuildCommand
  | 0 => .rollbackAlias rebuilder (generationOf "c-2") "c-1"
  | _ => .rollbackAlias rebuilder (generationOf "c-3") "c-1"

def rebuilds : Rebuilds ℕ := rebuildSystem ⟨"c"⟩ rebuildCommands generations

def rebuildCalls (calls : List (ℕ × ℕ)) : List (ℕ × ClusterInput) :=
  calls.flatMap fun call => List.replicate call.2 (call.1, {})

/-- Both runs look up the alias, then both move it. -/
def overlapping : List (ℕ × ClusterInput) := rebuildCalls [(0, 3), (1, 3), (0, 1), (1, 1)]

/-- One run after the other. -/
def successive : List (ℕ × ClusterInput) := rebuildCalls [(0, 5), (1, 5)]

end Sample

/-- Both moves take the alias from the first generation, so it points to the two others. -/
theorem not_exclusive_overlapping :
    ¬ Exclusive "c-read" (Sample.rebuilds.run execCluster Sample.overlapping) := by
  have hpointed : (Sample.rebuilds.run execCluster Sample.overlapping).state.aliases.pointed
      "c-read" = ["c-2", "c-3"] := by decide +kernel
  rw [Exclusive, hpointed]
  decide

/-- The second of two runs, one after the other, does not return. -/
theorem alias_publication_successive :
    Exclusive "c-read" (Sample.rebuilds.run execCluster Sample.successive) ∧
      Sample.rebuilds.Respects execCluster (KeepsPublished "c-read") Sample.successive ∧
      ¬ (((Sample.rebuilds.run execCluster Sample.successive).threads 0).returned = some () ∧
        ((Sample.rebuilds.run execCluster Sample.successive).threads 1).returned = some ()) := by
  have halias : ∀ t, (Sample.rebuildCommands t).generation.readAlias = "c-read" := by
    intro t
    cases t <;> rfl
  have hrivals : Rivals (Sample.rebuildCommands 0) (Sample.rebuildCommands 1) :=
    ⟨rfl, by decide, by decide, by decide⟩
  obtain ⟨hone, hkeeps, hreturns⟩ := alias_publication ⟨"c"⟩ Sample.rebuildCommands
    Sample.generations "c-read" halias (by decide) Sample.successive (by decide +kernel)
  exact ⟨hone, hkeeps, hreturns 0 1 hrivals (by decide +kernel)⟩

end Knowledge
end RagflowAgent
