import RagflowAgent.Agent.Application.Memory
import RagflowAgent.Interleaving.History

/-!
# Memories and the consent they were accepted under

A memory is accepted when `remember` reads an enabled consent.  If the consent is taken back
after that, the memory must never be listed, not even when the user consents again.  The calls
in between are separate, so the order of steps decides.

* `MemoryPast` counts the revocations of every user, and remembers at which count each caller
  has read the consent and each stored memory was accepted;
* `ListsFresh`: what `list_active` returns was not accepted before a revocation that came before
  its start;
* `KeepsConsent`: a memory is stored at the count it was accepted at, and a user consents again
  only when nothing is left from before;
* `respectsPast_listsFresh`: runs of the second kind are of the first kind.
-/

namespace RagflowAgent
namespace Agent

open Interleaving Keyed

/-! ## What has happened -/

/-- The revocations so far, and what was read and accepted when. -/
structure MemoryPast (τ : Type) where
  /-- The number of times a user has taken the consent back. -/
  epoch : MemoryOwner → ℕ := fun _ => 0
  /-- The epoch in which a caller has read the consent. -/
  readAt : τ → ℕ := fun _ => 0
  /-- The epoch in which the caller that stored a memory had read the consent. -/
  acceptedAt : MemoryOwner × String → ℕ := fun _ => 0

section Past

variable {τ : Type} [DecidableEq τ] {β : Type}

namespace MemoryPast

variable (p : MemoryPast τ) (t : τ)

/-- What a call adds to the past. -/
def note (c : MemoryCall β) (x : MemoryInput) (w : MemoryWorld) : MemoryPast τ :=
  match c with
  | .saveConsent consent =>
    if x.fault = none ∧ consent.enabled = false then
      { p with epoch := Function.update p.epoch consent.owner (p.epoch consent.owner + 1) }
    else p
  | .getConsent owner => { p with readAt := Function.update p.readAt t (p.epoch owner) }
  | .saveMemory memory =>
    if x.fault = none ∧ w.memories.get (key memory) = none then
      { p with acceptedAt := Function.update p.acceptedAt (key memory) (p.readAt t) }
    else p
  | _ => p

/-- The consent was not taken back since the caller has read it, and it is not given again while
memories from before are stored. -/
def Allows (c : MemoryCall β) (x : MemoryInput) (w : MemoryWorld) : Prop :=
  match c with
  | .saveMemory memory => x.fault = none → p.readAt t = p.epoch memory.owner
  | .saveConsent consent => x.fault = none → consent.enabled = true →
    ∀ memory ∈ w.memories.rows, memory.owner = consent.owner →
      p.acceptedAt (key memory) = p.epoch consent.owner
  | _ => True

instance (c : MemoryCall β) (x : MemoryInput) (w : MemoryWorld) :
    Decidable (p.Allows t c x w) := by
  unfold Allows
  split <;> infer_instance

end MemoryPast

/-- Callers of the memory service. -/
abbrev MemoryCallers (τ : Type) : Type 1 :=
  Config MemoryCall MemoryException MemoryResult MemoryWorld τ

/-- What a step adds to the past. -/
def recordMemory (p : MemoryPast τ) (cfg : MemoryCallers τ) (t : τ) (x : MemoryInput) :
    MemoryPast τ :=
  match (cfg.threads t).pending with
  | none => p
  | some ⟨_, c⟩ => p.note t c x cfg.state

/-- The step stores a memory, or gives the consent again, only if the past allows it. -/
def KeepsConsent (p : MemoryPast τ) (cfg : MemoryCallers τ) (t : τ) (x : MemoryInput) : Prop :=
  match (cfg.threads t).pending with
  | none => True
  | some ⟨_, c⟩ => p.Allows t c x cfg.state

instance (p : MemoryPast τ) (cfg : MemoryCallers τ) (t : τ) (x : MemoryInput) :
    Decidable (KeepsConsent p cfg t x) := by
  unfold KeepsConsent
  split <;> infer_instance

/-- If the step ends a call of `list_active`, then every memory that is returned was accepted
after the last revocation before the call has read the consent. -/
def ListsFresh (p : MemoryPast τ) (cfg : MemoryCallers τ) (t : τ) (x : MemoryInput) : Prop :=
  ∀ items, ¬ (cfg.threads t).Finished →
    (cfg.step execMemory t x).threads t = .ret (.listed items) →
      ∀ item ∈ items, p.readAt t ≤ p.acceptedAt (key item)

end Past

/-! ## The callers -/

/-- What a caller has read: the user whose enabled consent it has read last, and the memories it
has listed in its last call. -/
structure MemoryReader where
  consent : Option MemoryOwner := none
  listed : List LongTermMemory := []

/-- Memories are listed with an enabled consent only. -/
def memoryMonitor : Monitor MemoryCall MemoryException MemoryReader where
  licit m _ c := match c with
    | .listMemories owner => m.consent = some owner
    | _ => True
  next m _ c r := match c, r with
    | .getConsent owner, .ok (some consent) =>
      { consent := if consent.enabled then some owner else none }
    | .getConsent _, _ => {}
    | .listMemories _, .ok items => { m with listed := items }
    | _, _ => { m with listed := [] }

/-- A caller returns memories that it has just listed. -/
def ReturnsListed : MemoryResult → MemoryReader → Prop
  | .listed items, m => ∀ item ∈ items, item ∈ m.listed
  | _, _ => True

section Conforms

open Monitor

variable {m : MemoryReader}

theorem conforms_listActive (context : ToolAuthorizationContext) :
    memoryMonitor.Conforms (LongTermMemoryService.listActive context)
      (fun items m => ∀ item ∈ items, item ∈ m.listed) (fun _ _ => True) m := by
  refine conforms_bind (R := fun consent m => ∀ c, consent = some c → c.enabled = true →
    m.consent = some context.memoryOwner) ?_ fun consent m hm => ?_
  · refine conforms_perform trivial (fun consent => ?_) fun _ => trivial
    rintro c rfl henabled
    exact if_pos henabled
  · cases consent with
    | none => exact fun item hitem => absurd hitem List.not_mem_nil
    | some consent =>
      dsimp only
      split
      · exact fun item hitem => absurd hitem List.not_mem_nil
      · rename_i henabled
        have hconsent := hm consent rfl (Bool.eq_true_of_not_eq_false henabled)
        refine conforms_bind (R := fun _ m => m.consent = some context.memoryOwner)
          (conforms_perform trivial (fun _ => hconsent) fun _ => trivial) fun now m hm => ?_
        refine conforms_bind (R := fun items m => items = m.listed)
          (conforms_perform hm (fun _ => rfl) fun _ => trivial) fun items m hitems => ?_
        subst hitems
        exact fun item hitem => List.mem_of_mem_filter hitem

/-- A call that lists nothing. -/
theorem conforms_other {α : Type} {c : MemoryCall α} (hc : memoryMonitor.licit m c) :
    memoryMonitor.Conforms (Prog.perform c) (fun _ _ => True) (fun _ _ => True) m :=
  conforms_perform hc (fun _ => trivial) fun _ => trivial

theorem conforms_remember (service : LongTermMemoryService) (context : ToolAuthorizationContext)
    (content source : String) (explicitUserRequest : Bool) :
    memoryMonitor.Conforms (service.remember context content source explicitUserRequest)
      (fun _ _ => True) (fun _ _ => True) m := by
  refine conforms_bind (conforms_other trivial) fun consent m _ => ?_
  cases consent with
  | none => trivial
  | some consent =>
    dsimp only
    split
    · trivial
    split
    · trivial
    split
    · trivial
    refine conforms_bind (conforms_other trivial) fun now m _ => ?_
    refine conforms_bind (conforms_other trivial) fun memoryId m _ => ?_
    exact conforms_bind (conforms_other trivial) fun _ _ _ => trivial

theorem conforms_setConsent (context : ToolAuthorizationContext) (enabled : Bool)
    (consentVersion : String) :
    memoryMonitor.Conforms (LongTermMemoryService.setConsent context enabled consentVersion)
      (fun _ _ => True) (fun _ _ => True) m := by
  refine conforms_bind (conforms_other trivial) fun now m _ => ?_
  refine conforms_bind (conforms_other trivial) fun _ m _ => ?_
  split
  · trivial
  · exact conforms_bind (conforms_other trivial) fun _ _ _ => trivial

/-- **The commands conform.** -/
theorem conforms_memoryCommand (service : LongTermMemoryService) (command : MemoryCommand) :
    memoryMonitor.Conforms (command.program service) ReturnsListed (fun _ _ => True) m := by
  cases command with
  | setConsent context enabled consentVersion =>
    exact conforms_bind (conforms_setConsent _ _ _) fun _ _ _ => trivial
  | remember context content source explicitUserRequest =>
    exact conforms_bind (conforms_remember _ _ _ _ _) fun _ _ _ => trivial
  | listActive context => exact conforms_bind (conforms_listActive context) fun _ _ h => h
  | consentEnabled context =>
    refine conforms_bind (R := fun _ _ => True) ?_ fun _ _ _ => trivial
    exact conforms_bind (conforms_other trivial) fun _ _ _ => trivial
  | delete context memoryId => exact conforms_bind (conforms_other trivial) fun _ _ _ => trivial
  | cleanupExpired =>
    refine conforms_bind (R := fun _ _ => True) ?_ fun _ _ _ => trivial
    exact conforms_bind (conforms_other trivial) fun _ _ _ => conforms_other trivial

end Conforms

/-! ## The invariant -/

/-- While the consent of a user is enabled every memory of the user was accepted since the last
revocation, and a caller that has read an enabled consent finds no older memories. -/
structure Consented {τ : Type} (p : MemoryPast τ) (readers : τ → MemoryReader) (w : MemoryWorld) :
    Prop where
  enabled : ∀ owner consent, w.consents.get owner = some consent → consent.enabled = true →
    ∀ memory ∈ w.memories.rows, memory.owner = owner → p.acceptedAt (key memory) = p.epoch owner
  fresh : ∀ t owner, (readers t).consent = some owner → ∀ memory ∈ w.memories.rows,
    memory.owner = owner → p.readAt t ≤ p.acceptedAt (key memory)
  read : ∀ t owner, (readers t).consent = some owner → p.readAt t ≤ p.epoch owner

section Invariant

variable {τ : Type} {p : MemoryPast τ} {readers : τ → MemoryReader} {w : MemoryWorld} {t : τ}
  {x : MemoryInput}

/-- Memories may be deleted. -/
theorem Consented.erase (h : Consented p readers w) (selected : LongTermMemory → Bool) :
    Consented p readers { w with memories := w.memories.erase selected } where
  enabled owner consent hconsent henabled memory hmemory :=
    h.enabled owner consent hconsent henabled memory (Table.mem_erase.1 hmemory).1
  fresh u owner hu memory hmemory := h.fresh u owner hu memory (Table.mem_erase.1 hmemory).1
  read := h.read

/-- A user takes the consent back. -/
theorem Consented.revoke (h : Consented p readers w) {consent : MemoryConsent}
    (hdisabled : consent.enabled = false) :
    Consented { p with
        epoch := Function.update p.epoch consent.owner (p.epoch consent.owner + 1) }
      readers { w with consents := w.consents.upsert consent } where
  enabled owner consent' hconsent henabled memory hmemory howner := by
    change (w.consents.upsert consent).get owner = some consent' at hconsent
    change p.acceptedAt (key memory) =
      Function.update p.epoch consent.owner (p.epoch consent.owner + 1) owner
    rw [Table.get_upsert] at hconsent
    split at hconsent
    · cases hconsent
      rw [hdisabled] at henabled
      cases henabled
    · rename_i hkey
      have hne : owner ≠ consent.owner := hkey
      rw [Function.update_of_ne hne]
      exact h.enabled owner consent' hconsent henabled memory hmemory howner
  fresh := h.fresh
  read u owner hu := by
    change p.readAt u ≤ Function.update p.epoch consent.owner (p.epoch consent.owner + 1) owner
    have hread := h.read u owner hu
    by_cases howner : owner = consent.owner
    · subst howner
      rw [Function.update_self]
      omega
    · rw [Function.update_of_ne howner]
      exact hread

/-- A user consents, and nothing is left from before a revocation. -/
theorem Consented.consent (h : Consented p readers w) {consent : MemoryConsent}
    (hnone : ∀ memory ∈ w.memories.rows, memory.owner = consent.owner →
      p.acceptedAt (key memory) = p.epoch consent.owner) :
    Consented p readers { w with consents := w.consents.upsert consent } where
  enabled owner consent' hconsent henabled memory hmemory howner := by
    change (w.consents.upsert consent).get owner = some consent' at hconsent
    rw [Table.get_upsert] at hconsent
    split at hconsent
    · rename_i hkey
      obtain rfl : owner = consent.owner := hkey
      exact hnone memory hmemory howner
    · exact h.enabled owner consent' hconsent henabled memory hmemory howner
  fresh := h.fresh
  read := h.read

/-- A memory is stored that was accepted since the last revocation. -/
theorem Consented.remember (h : Consented p readers w) {memory : LongTermMemory}
    {memories : Table LongTermMemory} (hadd : w.memories.add memory = some memories)
    (haccepted : p.readAt t = p.epoch memory.owner) :
    Consented { p with acceptedAt := Function.update p.acceptedAt (key memory) (p.readAt t) }
      readers { w with memories := memories } := by
  have hnone : w.memories.get (key memory) = none := (Table.add_eq_some hadd).1
  -- the new memory, and an old one under another key
  have hcases : ∀ m ∈ memories.rows, m = memory ∨ m ∈ w.memories.rows ∧ key m ≠ key memory := by
    intro m hm
    rw [(Table.add_eq_some hadd).2, List.mem_append, List.mem_singleton] at hm
    rcases hm with hm | hm
    · refine .inr ⟨hm, fun hkey => ?_⟩
      rw [← hkey, Table.mem_rows_iff.1 hm] at hnone
      cases hnone
    · exact .inl hm
  constructor
  · intro owner consent hconsent henabled m hm howner
    change Function.update p.acceptedAt (key memory) (p.readAt t) (key m) = p.epoch owner
    rcases hcases m hm with rfl | ⟨hm, hne⟩
    · rw [Function.update_self, haccepted, howner]
    · rw [Function.update_of_ne hne]
      exact h.enabled owner consent hconsent henabled m hm howner
  · intro u owner hu m hm howner
    change p.readAt u ≤ Function.update p.acceptedAt (key memory) (p.readAt t) (key m)
    rcases hcases m hm with rfl | ⟨hm, hne⟩
    · rw [Function.update_self, haccepted, howner]
      exact h.read u owner hu
    · rw [Function.update_of_ne hne]
      exact h.fresh u owner hu m hm howner
  · exact h.read

variable [DecidableEq τ]

/-- The reader of a caller may forget what it has listed. -/
theorem Consented.update (h : Consented p readers w) {m : MemoryReader}
    (hm : m.consent = (readers t).consent) :
    Consented p (Function.update readers t m) w where
  enabled := h.enabled
  fresh u owner hu := by
    refine h.fresh u owner ?_
    by_cases hut : u = t
    · subst hut
      rw [Function.update_self, hm] at hu
      exact hu
    · rwa [Function.update_of_ne hut] at hu
  read u owner hu := by
    refine h.read u owner ?_
    by_cases hut : u = t
    · subst hut
      rw [Function.update_self, hm] at hu
      exact hu
    · rwa [Function.update_of_ne hut] at hu

/-- A caller reads the consent of a user. -/
theorem Consented.getConsent (h : Consented p readers w) (owner : MemoryOwner)
    {m : MemoryReader} (hm : m.consent = none ∨ m.consent = some owner ∧ ∃ consent,
      w.consents.get owner = some consent ∧ consent.enabled = true) :
    Consented { p with readAt := Function.update p.readAt t (p.epoch owner) }
      (Function.update readers t m) w where
  enabled := h.enabled
  fresh u owner' hu memory hmemory howner := by
    by_cases hut : u = t
    · subst hut
      rw [Function.update_self] at hu
      rcases hm with hm | ⟨hm, consent, hconsent, henabled⟩
      · rw [hm] at hu
        cases hu
      · obtain rfl : owner = owner' := Option.some.inj (hm.symm.trans hu)
        have haccepted := h.enabled owner consent hconsent henabled memory hmemory howner
        change Function.update p.readAt u (p.epoch owner) u ≤ p.acceptedAt (key memory)
        rw [Function.update_self, haccepted]
    · rw [Function.update_of_ne hut] at hu
      change Function.update p.readAt t (p.epoch owner) u ≤ p.acceptedAt (key memory)
      rw [Function.update_of_ne hut]
      exact h.fresh u owner' hu memory hmemory howner
  read u owner' hu := by
    by_cases hut : u = t
    · subst hut
      rw [Function.update_self] at hu
      rcases hm with hm | ⟨hm, -⟩
      · rw [hm] at hu
        cases hu
      · obtain rfl : owner = owner' := Option.some.inj (hm.symm.trans hu)
        change Function.update p.readAt u (p.epoch owner) u ≤ p.epoch owner
        rw [Function.update_self]
    · rw [Function.update_of_ne hut] at hu
      change Function.update p.readAt t (p.epoch owner) u ≤ p.epoch owner'
      rw [Function.update_of_ne hut]
      exact h.read u owner' hu

/-- A call that only reads, and no consent. -/
theorem Consented.reads {β : Type} {c : MemoryCall β} {b : β} (h : Consented p readers w)
    (hread : c.effect x w = .ok (b, w)) {m : MemoryReader}
    (hm : m.consent = (readers t).consent) :
    Consented p (Function.update readers t m) (execMemory c x w).2 := by
  have hstate : (execMemory c x w).2 = w := execFaulty_snd_of_read hread
  rw [hstate]
  exact h.update hm

/-- A call that deletes. -/
theorem Consented.deletes {β : Type} {c : MemoryCall β} {b : β} (h : Consented p readers w)
    {selected : LongTermMemory → Bool}
    (hdelete : c.effect x w = .ok (b, { w with memories := w.memories.erase selected }))
    {m : MemoryReader} (hm : m.consent = (readers t).consent) :
    Consented p (Function.update readers t m) (execMemory c x w).2 := by
  have hstate : (execMemory c x w).2 = w ∨
      (execMemory c x w).2 = { w with memories := w.memories.erase selected } :=
    execFaulty_snd_cases hdelete
  rcases hstate with hstate | hstate <;> rw [hstate]
  · exact h.update hm
  · exact (h.erase selected).update hm

/-- **An allowed call keeps the invariant.** -/
theorem Consented.call {β : Type} {c : MemoryCall β} (h : Consented p readers w)
    (hallows : p.Allows t c x w) :
    Consented (p.note t c x w)
      (Function.update readers t (memoryMonitor.next (readers t) c (execMemory c x w).1))
      (execMemory c x w).2 := by
  cases c with
  | now => exact h.reads rfl rfl
  | newId => exact h.reads rfl rfl
  | saveConsent consent =>
    cases hfault : x.fault with
    | some e =>
      have hexec : execMemory (.saveConsent consent) x w = (.error e, w) :=
        execFaulty_of_fault rfl hfault
      have hnote : p.note t (.saveConsent consent) x w = p :=
        if_neg fun hno => by simp [hfault] at hno
      rw [hexec, hnote]
      exact h.update rfl
    | none =>
      have hstate : (execMemory (.saveConsent consent) x w).2 =
          { w with consents := w.consents.upsert consent } := execFaulty_snd hfault rfl
      rw [hstate]
      cases henabled : consent.enabled with
      | true =>
        have hnote : p.note t (.saveConsent consent) x w = p :=
          if_neg fun hno => by simp [henabled] at hno
        rw [hnote]
        exact (h.consent (hallows hfault henabled)).update rfl
      | false =>
        have hnote : p.note t (.saveConsent consent) x w = { p with
            epoch := Function.update p.epoch consent.owner (p.epoch consent.owner + 1) } :=
          if_pos ⟨hfault, henabled⟩
        rw [hnote]
        exact (h.revoke henabled).update rfl
  | getConsent owner =>
    have hstate : (execMemory (.getConsent owner) x w).2 = w := execFaulty_snd_of_read rfl
    rw [hstate]
    refine h.getConsent owner ?_
    cases hr : (execMemory (.getConsent owner) x w).1 with
    | error e => exact .inl rfl
    | ok answer =>
      have hread : Except.ok (w.consents.get owner, w) = Except.ok (answer, _) :=
        execFaulty_of_ok hr
      cases answer with
      | none => exact .inl rfl
      | some consent =>
        have hconsent : w.consents.get owner = some consent := (Prod.mk.inj (Except.ok.inj hread)).1
        cases henabled : consent.enabled with
        | false => exact .inl (if_neg (by simp [henabled]))
        | true => exact .inr ⟨if_pos henabled, consent, hconsent, henabled⟩
  | saveMemory memory =>
    cases hfault : x.fault with
    | some e =>
      have hexec : execMemory (.saveMemory memory) x w = (.error e, w) :=
        execFaulty_of_fault rfl hfault
      have hnote : p.note t (.saveMemory memory) x w = p :=
        if_neg fun hno => by simp [hfault] at hno
      rw [hexec, hnote]
      exact h.update rfl
    | none =>
      cases hadd : w.memories.add memory with
      | none =>
        have heffect : (MemoryCall.saveMemory memory).effect x w =
            .error (.other "IntegrityError") := by simp only [MemoryCall.effect, hadd]
        have hstate : (execMemory (.saveMemory memory) x w).2 = w :=
          execFaulty_snd_of_error heffect
        have hnote : p.note t (.saveMemory memory) x w = p := by
          refine if_neg fun hnone => ?_
          rw [Table.add, dif_pos hnone.2] at hadd
          cases hadd
        rw [hstate, hnote]
        exact h.update rfl
      | some memories =>
        have heffect : (MemoryCall.saveMemory memory).effect x w =
            .ok ((), { w with memories := memories }) := by simp only [MemoryCall.effect, hadd]
        have hstate : (execMemory (.saveMemory memory) x w).2 = { w with memories := memories } :=
          execFaulty_snd hfault heffect
        have hnote : p.note t (.saveMemory memory) x w = { p with
            acceptedAt := Function.update p.acceptedAt (key memory) (p.readAt t) } :=
          if_pos ⟨hfault, (Table.add_eq_some hadd).1⟩
        rw [hstate, hnote]
        exact (h.remember hadd (hallows hfault)).update rfl
  | listMemories owner =>
    refine h.reads rfl ?_
    cases (execMemory (.listMemories owner) x w).1 <;> rfl
  | deleteMemory owner memoryId => exact h.deletes rfl rfl
  | deleteUserMemories owner => exact h.deletes rfl rfl
  | deleteExpired before => exact h.deletes rfl rfl

end Invariant

/-! ## Runs -/

section Runs

variable {τ : Type} [DecidableEq τ] {cfg : MemoryCallers τ} {t : τ} {x : MemoryInput}
  {h : MemoryPast τ × (τ → MemoryReader)}

/-- The past, together with the readers. -/
def recordReaders (h : MemoryPast τ × (τ → MemoryReader)) (cfg : MemoryCallers τ) (t : τ)
    (x : MemoryInput) : MemoryPast τ × (τ → MemoryReader) :=
  (recordMemory h.1 cfg t x, memoryMonitor.watch execMemory cfg h.2 t x)

/-- The callers conform, and the invariant holds. -/
abbrev WatchedConsent (h : MemoryPast τ × (τ → MemoryReader)) (cfg : MemoryCallers τ) : Prop :=
  memoryMonitor.WatchedPast (fun _ => ReturnsListed) (fun _ _ _ => True) Prod.snd
    (fun h w => Consented h.1 h.2 w) h cfg

theorem WatchedConsent.step (hw : WatchedConsent h cfg) (hkeeps : KeepsConsent h.1 cfg t x) :
    WatchedConsent (recordReaders h cfg t x) (cfg.step execMemory t x) := by
  refine Monitor.WatchedPast.step hw (fun hend => ?_) rfl fun {β} c k ht _ => ?_
  · have hpending : (cfg.threads t).pending = none := hend
    rw [recordReaders, recordMemory, hpending, Monitor.watch_finished hend]
  · have hpending : (cfg.threads t).pending = some ⟨β, c⟩ := by rw [ht]; rfl
    rw [KeepsConsent, hpending] at hkeeps
    rw [recordReaders, recordMemory, hpending, Monitor.watch_call ht]
    exact hw.inv.call hkeeps

omit [DecidableEq τ] in
/-- What a call shows a caller to return is fresh. -/
theorem Consented.fresh_of_listed {p : MemoryPast τ} {readers : τ → MemoryReader} {w : MemoryWorld}
    {β : Type} {c : MemoryCall β} (hconsented : Consented p readers w)
    (hlicit : memoryMonitor.licit (readers t) c) {item : LongTermMemory}
    (hitem : item ∈ (memoryMonitor.next (readers t) c (execMemory c x w).1).listed) :
    p.readAt t ≤ p.acceptedAt (key item) := by
  cases c with
  | listMemories owner =>
    cases hr : (execMemory (.listMemories owner) x w).1 with
    | error e =>
      rw [hr] at hitem
      exact absurd hitem List.not_mem_nil
    | ok items =>
      rw [hr] at hitem
      have hlist : Except.ok (_, w) = Except.ok (items, _) := execFaulty_of_ok hr
      have hitems := (Prod.mk.inj (Except.ok.inj hlist)).1
      have hmem : item ∈ items := hitem
      rw [← hitems, List.mem_filter, decide_eq_true_iff] at hmem
      exact hconsented.fresh t owner hlicit item hmem.1 hmem.2.1
  | getConsent owner =>
    cases hr : (execMemory (.getConsent owner) x w).1 with
    | error e =>
      rw [hr] at hitem
      exact absurd hitem List.not_mem_nil
    | ok consent =>
      rw [hr] at hitem
      cases consent <;> exact absurd hitem List.not_mem_nil
  | _ => exact absurd hitem List.not_mem_nil

theorem WatchedConsent.listsFresh (hw : WatchedConsent h cfg) : ListsFresh h.1 cfg t x := by
  intro items hrunning hret item hitem
  have hconforms := hw.conforms t
  cases ht : cfg.threads t with
  | ret a => exact absurd (show (cfg.threads t).Finished by rw [ht]; rfl) hrunning
  | raise e => exact absurd (show (cfg.threads t).Finished by rw [ht]; rfl) hrunning
  | call c k =>
    rw [ht] at hconforms
    obtain ⟨hlicit, hrest⟩ := hconforms
    have hreturned := hrest (execMemory c x cfg.state).1
    rw [Config.step_call ht] at hret
    dsimp only at hret
    rw [Function.update_self] at hret
    rw [hret] at hreturned
    exact hw.inv.fresh_of_listed hlicit (hreturned item hitem)

/-- **Memories are listed under the consent they were accepted under.**  In every run in which
memories are stored in the epoch they were accepted in, and nobody consents again while older
memories are left, `list_active` returns no memory that was accepted before a revocation that
came before its start. -/
theorem respectsPast_listsFresh (service : LongTermMemoryService) (commands : τ → MemoryCommand)
    (w : MemoryWorld) (l : List (τ × MemoryInput))
    (hl : (memorySystem service commands w).RespectsPast execMemory recordMemory KeepsConsent
      {} l) :
    (memorySystem service commands w).RespectsPast execMemory recordMemory ListsFresh {} l := by
  let start : MemoryPast τ × (τ → MemoryReader) := ({}, fun _ => {})
  have hstart : WatchedConsent start (memorySystem service commands w) := by
    refine ⟨⟨fun _ _ _ _ _ _ _ => rfl, fun _ _ hnone => ?_, fun _ _ hnone => ?_⟩,
      fun t => conforms_memoryCommand service (commands t)⟩
    · cases hnone
    · cases hnone
  have hview : ∀ (h : MemoryPast τ × (τ → MemoryReader)) cfg t x,
      (recordReaders h cfg t x).1 = recordMemory h.1 cfg t x := fun _ _ _ _ => rfl
  change Config.RespectsPast _ _ _ start.1 _ _ at hl
  change Config.RespectsPast _ _ _ start.1 _ _
  rw [Config.respectsPast_of_view hview] at hl ⊢
  exact hl.of_invariant (fun _ _ _ _ hw hkeeps => hw.step hkeeps)
    (fun _ _ _ _ hw _ => hw.listsFresh) hstart

end Runs

/-! ## A memory that is stored late -/

namespace Sample

def memoryUser : ToolAuthorizationContext where
  tenantId := "t"
  actorId := "user"
  requestId := "request"

/-- The user has consented. -/
def consented : MemoryWorld where
  consents := ⟨[{ tenantId := "t", userId := "user", enabled := true, consentVersion := some "1",
                  consentedAt := some 0 }], by simp⟩

/-- The user asks to remember something, takes the consent back, gives it again, and asks what
is remembered. -/
def memoryCommands : ℕ → MemoryCommand
  | 0 => .remember memoryUser "I like tea" "chat" true
  | 1 => .setConsent memoryUser false "1"
  | 2 => .setConsent memoryUser true "1"
  | _ => .listActive memoryUser

def memoryInput : MemoryInput := { now := 1, newId := "m" }

def memoryCalls (calls : List (ℕ × ℕ)) : List (ℕ × MemoryInput) :=
  calls.flatMap fun call => List.replicate call.2 (call.1, memoryInput)

def memories : MemoryCallers ℕ := memorySystem ⟨90⟩ memoryCommands consented

/-- The consent is read, taken back and given again, then the memory is stored, and the list is
about to be read. -/
def lateMemory : List (ℕ × MemoryInput) := memoryCalls [(0, 3), (1, 3), (2, 2), (0, 1), (3, 2)]

/-- Every call is over before the next one starts. -/
def timelyMemory : List (ℕ × MemoryInput) :=
  memoryCalls [(0, 4), (3, 3), (1, 3), (2, 2), (4, 3)]

end Sample

/-- The memory was accepted before the revocation, and it is listed after it. -/
theorem not_respectsPast_listsFresh :
    ¬ Sample.memories.RespectsPast execMemory recordMemory ListsFresh {}
      (Sample.lateMemory ++ [(3, Sample.memoryInput)]) := by
  intro h
  obtain ⟨hlast, -⟩ := (Config.respectsPast_append.1 h).2
  have hrunning : ¬ ((Sample.memories.run execMemory Sample.lateMemory).threads 3).Finished := by
    have hpending : ((Sample.memories.run execMemory Sample.lateMemory).threads 3).pending.isSome =
        true := by decide +kernel
    intro hend
    rw [Prog.Finished.eq_def] at hend
    rw [hend] at hpending
    cases hpending
  have hlisted : (((Sample.memories.run execMemory Sample.lateMemory).step execMemory 3
      Sample.memoryInput).threads 3).returned.any (fun r =>
        r.items.any fun item => key item == (("t", "user"), "m")) = true := by decide +kernel
  have hpast : (Sample.memories.recollect execMemory recordMemory {} Sample.lateMemory).acceptedAt
      (("t", "user"), "m") <
        (Sample.memories.recollect execMemory recordMemory {} Sample.lateMemory).readAt 3 := by
    decide +kernel
  obtain ⟨r, hr, hitems⟩ := (Option.any_eq_true _ _).1 hlisted
  obtain ⟨item, hitem, hkey⟩ := List.any_eq_true.1 hitems
  cases r with
  | listed items =>
    have hfresh := hlast items hrunning (Prog.returned_eq_some.1 hr) item hitem
    rw [beq_iff_eq.1 hkey] at hfresh
    exact absurd hfresh (Nat.not_le.2 hpast)
  | _ => exact absurd hitem List.not_mem_nil

/-- Calls that do not overlap list what they should. -/
theorem respectsPast_listsFresh_timely :
    Sample.memories.RespectsPast execMemory recordMemory ListsFresh {} Sample.timelyMemory :=
  respectsPast_listsFresh ⟨90⟩ Sample.memoryCommands Sample.consented Sample.timelyMemory
    (by decide +kernel)

end Agent
end RagflowAgent
