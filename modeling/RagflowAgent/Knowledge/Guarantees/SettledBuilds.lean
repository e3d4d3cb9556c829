import RagflowAgent.Interleaving.Monitor
import RagflowAgent.Knowledge.Advanced.GraphRag

/-!
# Builds settle

The record of a build should settle: once it says `SUCCEEDED` or `CANCELLED` it should stay so, and
when nobody works on it any more it should not say `RUNNING`.  The service saves its records without
looking at what is stored, and a build that raises leaves its record as it is.

* `StaysSettled` is the first property at a step, `SavesOpen` what a save needs for it:
  `respects_staysSettled_iff`;
* `buildWatcher` follows a call and notes the record that it owes an outcome, `Running` says that
  somebody owes an outcome for every record that says `RUNNING`, and `Ends` what a call needs to
  pay: `not_running_of_quiet`;
* `builds_settle` joins the two;
* in `Sample` a success is cancelled, a cancellation is lost, and a build raises.
-/

namespace RagflowAgent
namespace Knowledge
namespace Advanced

open Interleaving GraphRagService

/-! ## The system -/

/-- A call of the service. -/
inductive BuildRequest where
  | build (record : AdvancedBuild) (chunks : List ChunkRecord) (now : ℕ)
  | cancel (tenantId buildId : String) (now : ℕ)
  deriving DecidableEq

namespace BuildRequest

def program (budget : AdvancedResourceBudget) : BuildRequest → Prog BuildCall Error Unit
  | .build record chunks now => (GraphRagService.build budget record chunks now).void
  | .cancel tenantId buildId now => (GraphRagService.cancel tenantId buildId now).void

/-- The build has few enough chunks to be tried. -/
def Works (budget : AdvancedResourceBudget) : BuildRequest → Prop
  | .build _ chunks _ => chunks.length ≤ budget.maxSourceChunks
  | .cancel _ _ _ => False

/-- The build meets a chunk that is not of its scope. -/
def Raises : BuildRequest → Prop
  | .build record chunks _ =>
    record.cancellationRequested = false ∧ ∃ chunk ∈ chunks, Foreign record chunk
  | .cancel _ _ _ => False

instance (budget : AdvancedResourceBudget) : DecidablePred (Works budget) := fun request => by
  cases request <;> unfold Works <;> infer_instance

end BuildRequest

variable {τ : Type} [DecidableEq τ]

/-- Any number of calls over one repository. -/
def builds (budget : AdvancedResourceBudget) (requests : τ → BuildRequest)
    (T : Table AdvancedBuildRow) : Config BuildCall Error Unit (Table AdvancedBuildRow) τ :=
  ⟨T, fun t => (requests t).program budget⟩

variable {cfg : Config BuildCall Error Unit (Table AdvancedBuildRow) τ} {t : τ} {x : Faults Error}
  {T T' : Table AdvancedBuildRow} {build : AdvancedBuild}

/-! ## One save -/

/-- The save takes effect. -/
def Takes (x : Faults Error) (T : Table AdvancedBuildRow) (build : AdvancedBuild) : Prop :=
  x.fault = none ∧ ∃ r, (BuildCall.save build).effect x T = .ok r

theorem get_of_effect_save {u : Unit} (h : (BuildCall.save build).effect x T = .ok (u, T')) :
    ∃ row, row.payload = build ∧ ∀ k, T'.get k = if k = build.key then some row else T.get k := by
  unfold BuildCall.effect at h
  dsimp only at h
  split at h
  · rename_i row hrow
    cases h
    exact ⟨{ row with payload := build }, rfl, Table.get_replace hrow⟩
  · split at h
    · cases h
    · cases h
      exact ⟨⟨build.idempotencyKey.value, build⟩, rfl, Table.get_upsert T _⟩

/-- A record that is stored already can be saved. -/
theorem exists_effect_save {row : AdvancedBuildRow} (h : T.get build.key = some row) :
    ∃ r, (BuildCall.save build).effect x T = .ok r := by
  refine ⟨((), T.replace { row with payload := build }), ?_⟩
  unfold BuildCall.effect
  dsimp only
  rw [h]

/-- **What a save can do**: nothing, or store the record. -/
theorem execBuild_save_cases (build : AdvancedBuild) (x : Faults Error)
    (T : Table AdvancedBuildRow) :
    (∃ e, execBuild (.save build) x T = (.error e, T) ∧ ¬ Takes x T build) ∨
      Takes x T build ∧ ∃ r T' row, execBuild (.save build) x T = (r, T') ∧
        row.payload = build ∧ (∀ k, T'.get k = if k = build.key then some row else T.get k) ∧
        (x.lateFault = none → r = .ok ()) := by
  cases hfault : x.fault with
  | some e =>
    refine .inl ⟨e, execFaulty_of_fault rfl hfault, fun h => ?_⟩
    rw [h.1] at hfault
    cases hfault
  | none =>
    cases heffect : (BuildCall.save build).effect x T with
    | error e =>
      refine .inl ⟨e, ?_, fun ⟨_, r, hr⟩ => ?_⟩
      · unfold execBuild execFaulty
        simp only [id, hfault, Option.filter_none, heffect]
      · rw [heffect] at hr
        cases hr
    | ok r =>
      obtain ⟨u, T'⟩ := r
      obtain ⟨row, hrow, hget⟩ := get_of_effect_save heffect
      refine .inr ⟨⟨hfault, _, heffect⟩, (execBuild (.save build) x T).1, T', row, ?_, hrow, hget,
        fun hlate => ?_⟩
      · exact Prod.ext rfl (execFaulty_snd hfault heffect)
      · unfold execBuild execFaulty
        simp only [id, hfault, Option.filter_none, heffect, hlate]

/-- A lookup leaves the table as it is. -/
theorem execBuild_read_snd {β : Type} {c : BuildCall β} {b : β}
    (h : c.effect x T = .ok (b, T)) : (execBuild c x T).2 = T :=
  execFaulty_snd_of_read h

/-! ## Settled records -/

/-- The build is over for good. -/
def AdvancedBuild.Settled (build : AdvancedBuild) : Prop :=
  build.status = .succeeded ∨ build.status = .cancelled

instance : DecidablePred AdvancedBuild.Settled := fun _ => inferInstanceAs (Decidable (_ ∨ _))

/-- The step keeps the status of every record that has settled. -/
def StaysSettled (cfg : Config BuildCall Error Unit (Table AdvancedBuildRow) τ) (t : τ)
    (x : Faults Error) : Prop :=
  ∀ k row, cfg.state.get k = some row → row.payload.Settled →
    ∃ row', (cfg.step execBuild t x).state.get k = some row' ∧
      row'.payload.status = row.payload.status

/-- A record that has settled is not saved with another status. -/
def SavesOpen (cfg : Config BuildCall Error Unit (Table AdvancedBuildRow) τ) (t : τ)
    (x : Faults Error) : Prop :=
  ∀ build k, cfg.threads t = .call (.save build) k → Takes x cfg.state build →
    ∀ row, cfg.state.get build.key = some row → row.payload.Settled →
      row.payload.status = build.status

/-- **A step stores nothing, or the record of a save.** -/
theorem state_step_cases (cfg : Config BuildCall Error Unit (Table AdvancedBuildRow) τ) (t : τ)
    (x : Faults Error) :
    (cfg.step execBuild t x).state = cfg.state ∨
      ∃ build k row, cfg.threads t = .call (.save build) k ∧ Takes x cfg.state build ∧
        row.payload = build ∧ ∀ key, (cfg.step execBuild t x).state.get key =
          if key = build.key then some row else cfg.state.get key := by
  cases ht : cfg.threads t with
  | ret a => exact .inl (by rw [Config.step_finished (by rw [ht]; rfl)])
  | raise e => exact .inl (by rw [Config.step_finished (by rw [ht]; rfl)])
  | call c k =>
    rw [Config.step_call ht]
    cases c with
    | get tenantId buildId => exact .inl (execBuild_read_snd rfl)
    | getByIdempotencyKey tenantId idempotencyKey => exact .inl (execBuild_read_snd rfl)
    | save build =>
      obtain ⟨e, hexec, -⟩ | ⟨htakes, r, T', row, hexec, hrow, hget, -⟩ :=
        execBuild_save_cases build x cfg.state
      · exact .inl (by rw [hexec])
      · exact .inr ⟨build, k, row, rfl, htakes, hrow, by rw [hexec]; exact hget⟩

theorem staysSettled_iff (cfg : Config BuildCall Error Unit (Table AdvancedBuildRow) τ) (t : τ)
    (x : Faults Error) : StaysSettled cfg t x ↔ SavesOpen cfg t x := by
  constructor
  · intro hstays build k ht htakes row hrow hsettled
    obtain ⟨row', hrow', hstatus⟩ := hstays _ row hrow hsettled
    obtain ⟨e, -, hnot⟩ | ⟨-, r, T', saved, hexec, hsaved, hget, -⟩ :=
      execBuild_save_cases build x cfg.state
    · exact absurd htakes hnot
    rw [Config.step_call ht, hexec] at hrow'
    change T'.get build.key = some row' at hrow'
    rw [hget, if_pos rfl] at hrow'
    cases hrow'
    rw [← hstatus, hsaved]
  · intro hopen k row hrow hsettled
    obtain hsame | ⟨build, next, saved, ht, htakes, hsaved, hget⟩ := state_step_cases cfg t x
    · exact ⟨row, by rw [hsame]; exact hrow, rfl⟩
    by_cases hkey : k = build.key
    · subst hkey
      refine ⟨saved, by rw [hget, if_pos rfl], ?_⟩
      rw [hsaved, hopen build next ht htakes row hrow hsettled]
    · exact ⟨row, by rw [hget, if_neg hkey]; exact hrow, rfl⟩

/-- In every run, records stay settled exactly when none that has settled is saved with another
status. -/
theorem respects_staysSettled_iff {l : List (τ × Faults Error)} :
    cfg.Respects execBuild StaysSettled l ↔ cfg.Respects execBuild SavesOpen l :=
  Config.respects_congr (P := fun _ => True) (fun _ _ _ _ => trivial)
    (fun cfg t x _ => staysSettled_iff cfg t x) trivial

/-! ## What a call owes -/

/-- Whether a call may store `RUNNING`, and the record that it has stored so. -/
structure BuildWatch where
  works : Bool
  owed : Option (String × String) := none
  deriving DecidableEq

/-- While a call owes an outcome, it makes no other call than to save one. -/
def buildWatcher : Monitor BuildCall Error BuildWatch where
  licit m _ c :=
    match c with
    | .save build =>
      (build.status = .running → m.works = true ∧ m.owed = none) ∧ ∀ k ∈ m.owed, build.key = k
    | _ => m.owed = none
  next m _ c r :=
    match c, r with
    | .save build, .ok _ =>
      { m with owed := if build.status = .running then some build.key else none }
    | .save _, .error _ => { m with owed := none }
    | _, _ => m

section Conforms

variable {Q : AdvancedBuild × Option GraphSnapshot → BuildWatch → Prop}
  {E : Error → BuildWatch → Prop} {m : BuildWatch} {budget : AdvancedResourceBudget}
  {chunks : List ChunkRecord} {now : ℕ} {α : Type} {result : α}
  {R : α → BuildWatch → Prop}

/-- A save that pays what is owed. -/
theorem conforms_saveOutcome (hstatus : build.status ≠ .running)
    (howed : ∀ k ∈ m.owed, build.key = k) (hok : R result { m with owed := none })
    (herr : ∀ e, E e { m with owed := none }) :
    buildWatcher.Conforms ((Prog.perform (.save build)).bind fun _ => .ret result) R E m := by
  refine Monitor.conforms_bind (R := fun _ m' => m' = { m with owed := none })
    (Monitor.conforms_perform ⟨fun h => absurd h hstatus, howed⟩ (fun _ => ?_) herr) ?_
  · change ({ m with owed := if build.status = .running then some build.key else none } :
      BuildWatch) = _
    rw [if_neg hstatus]
  · rintro _ _ rfl
    exact hok

/-- The work of a build pays, unless it meets a chunk that is not of its scope. -/
theorem conforms_work {running : AdvancedBuild} (howed : m.owed = some running.key)
    (hQ : ∀ result, Q result { m with owed := none }) (hE : ∀ e, E e { m with owed := none })
    (hraises : running.cancellationRequested = false → (∃ chunk ∈ chunks, Foreign running chunk) →
      ∀ e, E e m) :
    buildWatcher.Conforms (work budget running chunks now) Q E m := by
  have hpays : ∀ k ∈ m.owed, running.key = k := by
    intro k hk
    rw [howed] at hk
    exact Option.some.inj hk
  unfold work
  split
  · exact conforms_saveOutcome (by simp) hpays (hQ _) hE
  · rename_i hrequested
    refine Monitor.conforms_bind (R := fun _ m' => m' = m)
      (Monitor.conforms_raiseWhen (fun hforeign => ?_) fun _ => rfl) ?_
    · exact hraises (Bool.not_eq_true _ ▸ hrequested) hforeign _
    rintro _ _ rfl
    split
    · exact conforms_saveOutcome (by simp) hpays (hQ _) hE
    · obtain ⟨snapshot, hsnapshot⟩ := exists_graphSnapshot running chunks
      rw [hsnapshot]
      exact conforms_saveOutcome (by simp) hpays (hQ _) hE

/-- A build owes nothing in the end, unless it meets such a chunk. -/
theorem conforms_buildNew (howed : m.owed = none)
    (hworks : chunks.length ≤ budget.maxSourceChunks → m.works = true)
    (hQ : ∀ result, Q result { m with owed := none }) (hE : ∀ e, E e { m with owed := none })
    (hraises : build.cancellationRequested = false → (∃ chunk ∈ chunks, Foreign build chunk) →
      ∀ e owed, E e { m with owed := owed }) :
    buildWatcher.Conforms (buildNew budget build chunks now) Q E m := by
  unfold buildNew
  split
  · refine conforms_saveOutcome (by simp) (fun k hk => ?_) (hQ _) hE
    rw [howed] at hk
    cases hk
  · rename_i hfew
    refine Monitor.conforms_bind (R := fun _ m' => m' = { m with owed := some build.key })
      (Monitor.conforms_perform ⟨fun _ => ⟨hworks (by omega), howed⟩, fun k hk => ?_⟩
        (fun _ => rfl) hE) ?_
    · rw [howed] at hk
      cases hk
    · rintro _ _ rfl
      exact conforms_work rfl hQ hE fun hrequested hforeign e => hraises hrequested hforeign e _

end Conforms

/-- **What a call owes in the end**: nothing, or it has raised over a chunk that is not of its
scope. -/
theorem conforms_program (budget : AdvancedResourceBudget) (request : BuildRequest) :
    buildWatcher.Conforms (request.program budget) (fun _ m => m.owed = none)
      (fun _ m => m.owed = none ∨ request.Raises) ⟨decide (request.Works budget), none⟩ := by
  cases request with
  | build record chunks now =>
    refine Monitor.conforms_bind (R := fun _ m => m.owed = none) ?_ fun _ _ h => h
    refine Monitor.conforms_bind (R := fun _ m =>
        m = ⟨decide ((BuildRequest.build record chunks now).Works budget), none⟩)
      (Monitor.conforms_perform rfl (fun _ => rfl) fun _ => .inl rfl) ?_
    rintro prior _ rfl
    have hnew : buildWatcher.Conforms (buildNew budget record chunks now)
        (fun _ m => m.owed = none)
        (fun _ m => m.owed = none ∨ (BuildRequest.build record chunks now).Raises)
        ⟨decide ((BuildRequest.build record chunks now).Works budget), none⟩ :=
      conforms_buildNew rfl (fun hfew => decide_eq_true hfew) (fun _ => rfl) (fun _ => .inl rfl)
        fun hrequested hforeign _ _ => .inr ⟨hrequested, hforeign⟩
    cases prior with
    | none => exact hnew
    | some prior =>
      by_cases hsucceeded : prior.status = .succeeded
      · simp only [hsucceeded, if_pos]
        rfl
      · simp only [hsucceeded, if_false]
        exact hnew
  | cancel tenantId buildId now =>
    refine Monitor.conforms_bind (R := fun _ m => m.owed = none) ?_ fun _ _ h => h
    refine Monitor.conforms_bind (R := fun _ m => m.owed = none)
      (Monitor.conforms_perform rfl (fun _ => rfl) fun _ => .inl rfl) fun found m hm => ?_
    cases found with
    | none => exact .inl hm
    | some found =>
      refine conforms_saveOutcome (by simp) (fun k hk => ?_) rfl fun _ => .inl rfl
      rw [hm] at hk
      cases hk

/-! ## Records that are left running -/

/-- What a call needs to pay what it owes.  A record that says `RUNNING` is stored by a call that
goes on and meets no foreign chunk, and then its outcome is stored too. -/
structure Ends (budget : AdvancedResourceBudget) (requests : τ → BuildRequest)
    (cfg : Config BuildCall Error Unit (Table AdvancedBuildRow) τ) (t : τ) (x : Faults Error) :
    Prop where
  running : ∀ build k, cfg.threads t = .call (.save build) k → build.status = .running →
    Takes x cfg.state build → x.lateFault = none ∧ ¬ (requests t).Raises
  outcome : ∀ build k, cfg.threads t = .call (.save build) k → build.status ≠ .running →
    (requests t).Works budget → x.fault = none

/-- Somebody owes an outcome for every record that says `RUNNING`. -/
structure Running (budget : AdvancedResourceBudget) (requests : τ → BuildRequest)
    (ms : τ → BuildWatch) (T : Table AdvancedBuildRow) : Prop where
  owed : ∀ k row, T.get k = some row → row.payload.status = .running →
    ∃ t, (ms t).owed = some k
  stored : ∀ t k, (ms t).owed = some k → ∃ row, T.get k = some row
  pays : ∀ t k, (ms t).owed = some k → (requests t).Works budget ∧ ¬ (requests t).Raises
  works : ∀ t, (ms t).works = true → (requests t).Works budget

section Save

variable {budget : AdvancedResourceBudget} {requests : τ → BuildRequest} {ms : τ → BuildWatch}
  {row : AdvancedBuildRow}

/-- A call that has stored its outcome owes nothing. -/
theorem Running.paid (h : Running budget requests ms T) (hpays : ∀ k ∈ (ms t).owed, build.key = k)
    (hrow : row.payload.status ≠ .running)
    (hget : ∀ k, T'.get k = if k = build.key then some row else T.get k) :
    Running budget requests (Function.update ms t { ms t with owed := none }) T' := by
  have hothers : ∀ u k, (Function.update ms t { ms t with owed := none } u).owed = some k →
      (ms u).owed = some k := by
    intro u k hu
    by_cases hut : u = t
    · subst hut
      rw [Function.update_self] at hu
      cases hu
    · rwa [Function.update_of_ne hut] at hu
  refine ⟨fun k row' hrow' hstatus => ?_, fun u k hu => ?_, fun u k hu => h.pays u k (hothers u k hu),
    fun u hu => h.works u ?_⟩
  · rw [hget] at hrow'
    split at hrow'
    · cases hrow'
      exact absurd hstatus hrow
    rename_i hkey
    obtain ⟨u, hu⟩ := h.owed k row' hrow' hstatus
    refine ⟨u, ?_⟩
    have hut : u ≠ t := by
      rintro rfl
      exact hkey (hpays k hu).symm
    rw [Function.update_of_ne hut]
    exact hu
  · rw [hget]
    split
    · exact ⟨row, rfl⟩
    · exact h.stored u k (hothers u k hu)
  · by_cases hut : u = t
    · subst hut
      rwa [Function.update_self] at hu
    · rwa [Function.update_of_ne hut] at hu

/-- A call that has stored `RUNNING` owes an outcome. -/
theorem Running.charged (h : Running budget requests ms T) (hfree : (ms t).owed = none)
    (hworks : (requests t).Works budget) (hraises : ¬ (requests t).Raises)
    (hget : ∀ k, T'.get k = if k = build.key then some row else T.get k) :
    Running budget requests (Function.update ms t { ms t with owed := some build.key }) T' := by
  have hothers : ∀ u k, (Function.update ms t { ms t with owed := some build.key } u).owed = some k →
      (u = t ∧ k = build.key) ∨ (ms u).owed = some k := by
    intro u k hu
    by_cases hut : u = t
    · subst hut
      rw [Function.update_self] at hu
      exact .inl ⟨rfl, (Option.some.inj hu).symm⟩
    · rw [Function.update_of_ne hut] at hu
      exact .inr hu
  refine ⟨fun k row' hrow' hstatus => ?_, fun u k hu => ?_, fun u k hu => ?_,
    fun u hu => h.works u ?_⟩
  · rw [hget] at hrow'
    split at hrow'
    · rename_i hkey
      exact ⟨t, by rw [Function.update_self, hkey]⟩
    obtain ⟨u, hu⟩ := h.owed k row' hrow' hstatus
    have hut : u ≠ t := by
      rintro rfl
      rw [hfree] at hu
      cases hu
    exact ⟨u, by rw [Function.update_of_ne hut]; exact hu⟩
  · rw [hget]
    split
    · exact ⟨row, rfl⟩
    · rename_i hkey
      rcases hothers u k hu with ⟨-, rfl⟩ | hu
      · exact absurd rfl hkey
      · exact h.stored u k hu
  · rcases hothers u k hu with ⟨rfl, -⟩ | hu
    · exact ⟨hworks, hraises⟩
    · exact h.pays u k hu
  · by_cases hut : u = t
    · subst hut
      rwa [Function.update_self] at hu
    · rwa [Function.update_of_ne hut] at hu

end Save

/-- **Every step that lets its call pay keeps the debts in order.** -/
theorem keptWhen_running (budget : AdvancedResourceBudget) (requests : τ → BuildRequest) :
    buildWatcher.KeptWhen execBuild (Ends budget requests) (Running budget requests) := by
  intro cfg ms t β c k x ht hends hrunning hlicit
  have hsame : Function.update ms t (ms t) = ms := Function.update_eq_self t ms
  cases c with
  | get tenantId buildId =>
    change Running budget requests (Function.update ms t (ms t)) _
    rw [hsame, execBuild_read_snd rfl]
    exact hrunning
  | getByIdempotencyKey tenantId idempotencyKey =>
    change Running budget requests (Function.update ms t (ms t)) _
    rw [hsame, execBuild_read_snd rfl]
    exact hrunning
  | save build =>
    obtain ⟨hnew, hpays⟩ := hlicit
    obtain ⟨e, hexec, hnot⟩ | ⟨htakes, r, T', row, hexec, hrow, hget, hanswer⟩ :=
      execBuild_save_cases build x cfg.state
    · -- a call that owes an outcome does store it
      have hfree : (ms t).owed = none := by
        by_contra howed
        obtain ⟨key, hkey⟩ := Option.ne_none_iff_exists'.1 howed
        have hstatus : build.status ≠ .running := fun h => howed (hnew h).2
        obtain ⟨row, hrow⟩ := hrunning.stored t key hkey
        rw [← hpays key hkey] at hrow
        exact hnot ⟨hends.outcome build k ht hstatus (hrunning.pays t key hkey).1,
          exists_effect_save hrow⟩
      have hnext : buildWatcher.next (ms t) (.save build) (.error e) = ms t := by
        change ({ ms t with owed := none } : BuildWatch) = ms t
        rw [← hfree]
      rw [hexec]
      change Running budget requests
        (Function.update ms t (buildWatcher.next (ms t) (.save build) (.error e))) cfg.state
      rw [hnext, hsame]
      exact hrunning
    · rw [hexec]
      by_cases hstatus : build.status = .running
      · obtain ⟨hlate, hraises⟩ := hends.running build k ht hstatus htakes
        obtain ⟨hworks, hfree⟩ := hnew hstatus
        have hnext : buildWatcher.next (ms t) (.save build) r =
            { ms t with owed := some build.key } := by
          rw [hanswer hlate]
          change ({ ms t with owed := if build.status = .running then some build.key else none } :
            BuildWatch) = _
          rw [if_pos hstatus]
        change Running budget requests
          (Function.update ms t (buildWatcher.next (ms t) (.save build) r)) T'
        rw [hnext]
        exact hrunning.charged hfree (hrunning.works t hworks) hraises hget
      · have hnext : buildWatcher.next (ms t) (.save build) r = { ms t with owed := none } := by
          cases r with
          | error e => rfl
          | ok u =>
            change ({ ms t with owed := if build.status = .running then some build.key else none } :
              BuildWatch) = _
            rw [if_neg hstatus]
        change Running budget requests
          (Function.update ms t (buildWatcher.next (ms t) (.save build) r)) T'
        rw [hnext]
        exact hrunning.paid hpays (by rw [hrow]; exact hstatus) hget

/-! ## Runs -/

/-- No call is in progress: each has ended, or has not begun. -/
def Quiet (budget : AdvancedResourceBudget) (requests : τ → BuildRequest)
    (cfg : Config BuildCall Error Unit (Table AdvancedBuildRow) τ) : Prop :=
  ∀ t, (cfg.threads t).Finished ∨ cfg.threads t = (requests t).program budget

/-- A call that has not begun owes nothing. -/
theorem owed_of_program {budget : AdvancedResourceBudget} {request : BuildRequest}
    {Q : Unit → BuildWatch → Prop} {E : Error → BuildWatch → Prop} {m : BuildWatch}
    (h : buildWatcher.Conforms (request.program budget) Q E m) : m.owed = none := by
  cases request with
  | build record chunks now => exact h.1
  | cancel tenantId buildId now => exact h.1

/-- The watchers of calls that have not begun. -/
def watchers (budget : AdvancedResourceBudget) (requests : τ → BuildRequest) (t : τ) : BuildWatch :=
  ⟨decide ((requests t).Works budget), none⟩

/-- **No record is left running** when no call is in progress. -/
theorem not_running_of_quiet (budget : AdvancedResourceBudget) (requests : τ → BuildRequest)
    (hT : ∀ row ∈ T.rows, row.payload.status ≠ .running) {l : List (τ × Faults Error)}
    (h : (builds budget requests T).Respects execBuild (Ends budget requests) l)
    (hquiet : Quiet budget requests ((builds budget requests T).run execBuild l)) :
    ∀ row ∈ ((builds budget requests T).run execBuild l).state.rows,
      row.payload.status ≠ .running := by
  have hstart : Running budget requests (watchers budget requests) T := by
    refine ⟨fun k row hrow hstatus => ?_, fun _ _ h => ?_, fun _ _ h => ?_,
      fun _ h => of_decide_eq_true h⟩
    · exact absurd hstatus (hT row (Table.mem_of_get hrow))
    · cases h
    · cases h
  have hwatched : buildWatcher.Watched (Running budget requests) (builds budget requests T)
      (watchers budget requests) :=
    ⟨hstart, fun t => (conforms_program budget (requests t)).mono (fun _ _ _ => trivial)
      fun _ _ _ => trivial⟩
  have hafter := (hwatched.run_when (keptWhen_running budget requests) h).inv
  intro row hrow hstatus
  obtain ⟨t, ht⟩ := hafter.owed _ row (Table.mem_rows_iff.1 hrow) hstatus
  have hconforms : buildWatcher.Conforms (((builds budget requests T).run execBuild l).threads t)
      (fun _ m => m.owed = none) (fun _ m => m.owed = none ∨ (requests t).Raises)
      (buildWatcher.observe execBuild (builds budget requests T) (watchers budget requests) l t) :=
    Monitor.conforms_run (conforms_program budget (requests t)) l
  have hnone : (buildWatcher.observe execBuild (builds budget requests T)
      (watchers budget requests) l t).owed = none := by
    rcases hquiet t with hfinished | hfresh
    · generalize ((builds budget requests T).run execBuild l).threads t = p at hfinished hconforms
      cases p with
      | ret a => exact hconforms
      | raise e =>
        rcases hconforms with hnone | hraises
        · exact hnone
        · exact absurd hraises (hafter.pays t _ ht).2
      | call c k => cases hfinished
    · rw [hfresh] at hconforms
      exact owed_of_program hconforms
  rw [hnone] at ht
  cases ht

/-- **When builds settle.**  In every run of any number of calls, records stay settled exactly when
none that has settled is saved with another status; and if every call that stores `RUNNING` goes on
to store an outcome, no record says `RUNNING` when no call is in progress. -/
theorem builds_settle (budget : AdvancedResourceBudget) (requests : τ → BuildRequest)
    (hT : ∀ row ∈ T.rows, row.payload.status ≠ .running) (l : List (τ × Faults Error)) :
    ((builds budget requests T).Respects execBuild StaysSettled l ↔
        (builds budget requests T).Respects execBuild SavesOpen l) ∧
      ((builds budget requests T).Respects execBuild (Ends budget requests) l →
        ∀ m, m <+: l → Quiet budget requests ((builds budget requests T).run execBuild m) →
          ∀ row ∈ ((builds budget requests T).run execBuild m).state.rows,
            row.payload.status ≠ .running) :=
  ⟨respects_staysSettled_iff, fun h _ hm hquiet =>
    not_running_of_quiet budget requests hT (h.of_prefix hm) hquiet⟩

/-! ## Builds that do not settle -/

namespace BuildSample

theorem nonEmptyText_b : nonEmptyText "b" = .ok "b" := by decide

def record : AdvancedBuild where
  id := ⟨"b", nonEmptyText_b⟩
  idempotencyKey := ⟨"key", by decide⟩
  tenantId := ⟨"t", by decide⟩
  knowledgeBaseId := ⟨"kb", by decide⟩
  capability := .graphrag
  buildVersion := ⟨"1", by decide⟩
  documentVersionIds := [⟨"v", by decide⟩]
  updatedAt := 0
  documentVersionIds_ne_nil := by decide
  errorCode_of_failed := by decide

def chunkOf (tenantId : String) (nonEmpty : nonEmptyText tenantId = .ok tenantId) :
    ChunkRecord where
  id := "c"
  tenantId := tenantId
  knowledgeBaseId := "kb"
  documentId := "d"
  documentVersionId := "v"
  sequence := 0
  content := "Lean"
  nonEmpty := by
    have hrest : ∀ text ∈ ["kb", "d", "v", "Lean"], nonEmptyText text = .ok text := by
      decide
    intro text htext
    rcases List.mem_cons.1 htext with rfl | htext
    · decide
    rcases List.mem_cons.1 htext with rfl | htext
    · exact nonEmpty
    · exact hrest text htext

/-- A build, and its cancellation. -/
def buildAndCancel (cancelled : Bool) : BuildRequest :=
  if cancelled then .cancel "t" "b" 2 else .build record [chunkOf "t" (by decide)] 1

/-- A build with a chunk of another tenant. -/
def foreignBuild (_ : Unit) : BuildRequest := .build record [chunkOf "other" (by decide)] 1

def turns {τ : Type} (threads : List τ) : List (τ × Faults Error) :=
  threads.map fun t => (t, {})

/-- The build has ended when it is cancelled. -/
def lateCancellation : List (Bool × Faults Error) := turns [false, false, false, true, true]

/-- The build is cancelled while it works. -/
def lostCancellation : List (Bool × Faults Error) := turns [false, false, true, true, false]

def statusAfter {τ : Type} [DecidableEq τ] (requests : τ → BuildRequest)
    (l : List (τ × Faults Error)) : Option AdvancedBuildStatus :=
  (((builds {} requests .empty).run execBuild l).state.get ("t", "b")).map fun row =>
    row.payload.status

theorem status_lateCancellation :
    statusAfter buildAndCancel (turns [false, false, false, true]) = some .succeeded ∧
      statusAfter buildAndCancel lateCancellation = some .cancelled := by
  decide +kernel

theorem status_lostCancellation :
    statusAfter buildAndCancel (turns [false, false, true, true]) = some .cancelled ∧
      statusAfter buildAndCancel lostCancellation = some .succeeded := by
  decide +kernel

theorem status_foreignBuild :
    statusAfter foreignBuild (turns [(), ()]) = some .running ∧
      ((builds {} foreignBuild .empty).run execBuild (turns [(), ()])).threads () =
        .raise (.validation "GraphRAG source scope mismatch") := by
  refine ⟨by decide +kernel, rfl⟩

/-- A run in which the status of a settled record changes. -/
theorem not_staysSettled {τ : Type} [DecidableEq τ] {requests : τ → BuildRequest}
    {m : List (τ × Faults Error)} {t : τ} {x : Faults Error}
    {status status' : AdvancedBuildStatus} (hsettled : status = .succeeded ∨ status = .cancelled)
    (hbefore : statusAfter requests m = some status)
    (hafter : statusAfter requests (m ++ [(t, x)]) = some status') (hne : status' ≠ status) :
    ¬ (builds {} requests .empty).Respects execBuild StaysSettled (m ++ [(t, x)]) := by
  intro h
  rw [Config.respects_append] at h
  obtain ⟨row, hrow, hstatus⟩ := Option.map_eq_some_iff.1 hbefore
  have hpayload : row.payload.Settled := by
    rw [AdvancedBuild.Settled, hstatus]
    exact hsettled
  obtain ⟨row', hrow', hsame⟩ := h.2.1 _ row hrow hpayload
  rw [statusAfter, Config.run_concat, hrow', Option.map_some, hsame, hstatus] at hafter
  exact hne (Option.some.inj hafter).symm

end BuildSample

/-- A success is cancelled, a cancellation is lost, and a build that raises is left running. -/
theorem not_builds_settle :
    ¬ (builds {} BuildSample.buildAndCancel .empty).Respects execBuild StaysSettled
        BuildSample.lateCancellation ∧
      ¬ (builds {} BuildSample.buildAndCancel .empty).Respects execBuild StaysSettled
        BuildSample.lostCancellation ∧
      Quiet {} BuildSample.foreignBuild ((builds {} BuildSample.foreignBuild .empty).run execBuild
        (BuildSample.turns [(), ()])) ∧
      BuildSample.statusAfter BuildSample.foreignBuild (BuildSample.turns [(), ()]) =
        some .running := by
  refine ⟨?_, ?_, fun t => .inl ?_, BuildSample.status_foreignBuild.1⟩
  · exact BuildSample.not_staysSettled (.inl rfl) BuildSample.status_lateCancellation.1
      BuildSample.status_lateCancellation.2 (by decide)
  · exact BuildSample.not_staysSettled (.inr rfl) BuildSample.status_lostCancellation.1
      BuildSample.status_lostCancellation.2 (by decide)
  · rw [show t = () from rfl, BuildSample.status_foreignBuild.2]
    rfl

/-- In an empty repository the builds of these calls settle under the same conditions. -/
theorem builds_settle_empty :
    ((builds {} BuildSample.buildAndCancel .empty).Respects execBuild StaysSettled
          BuildSample.lostCancellation ↔
        (builds {} BuildSample.buildAndCancel .empty).Respects execBuild SavesOpen
          BuildSample.lostCancellation) ∧
      ((builds {} BuildSample.buildAndCancel .empty).Respects execBuild
          (Ends {} BuildSample.buildAndCancel) BuildSample.lostCancellation →
        ∀ m, m <+: BuildSample.lostCancellation →
          Quiet {} BuildSample.buildAndCancel
            ((builds {} BuildSample.buildAndCancel .empty).run execBuild m) →
          ∀ row ∈ ((builds {} BuildSample.buildAndCancel .empty).run execBuild m).state.rows,
            row.payload.status ≠ .running) :=
  builds_settle {} BuildSample.buildAndCancel (fun _ hrow => absurd hrow List.not_mem_nil)
    BuildSample.lostCancellation

end Advanced
end Knowledge
end RagflowAgent
