import Mathlib.Data.List.ReduceOption
import Mathlib.Data.Set.List
import RagflowAgent.Interleaving.Alone
import RagflowAgent.Interleaving.History
import RagflowAgent.Knowledge.Application.Batch

/-!
# What a batch says of its children

A refresh stores how many children of the batch have succeeded, failed and been cancelled, and a
status that follows from it.  `Summarizes` says so for children that were found like this:
`summarizes_refreshed`, and `runAlone_refresh` for a refresh from its start to its end.

Refreshes overlap, and none of them looks at the batch again before it is saved.  So the status of
a batch that has ended can be taken back, by a refresh that has met a child before it ended.

* `BatchWatch` is what a refresh has read, `batchWatcher` follows it;
* `Faithful` says that batches that have ended say what their children say, and `Told` joins it
  with what the refreshes under way have read;
* `staysEnded_iff` compares, at one step, the stability of statuses with `SavesLate`;
* `batch_status` is the result for all runs;
* in `BatchSample` a refresh comes late.
-/

namespace RagflowAgent
namespace Knowledge

open Interleaving Keyed

/-! ## Children -/

/-- The status of a child that has ended. -/
def outcome (child : Option LifecycleOperation) : Option LifecycleOperationStatus :=
  match child with
  | some operation =>
    match operation.status with
    | .member status => if status ∈ terminalLifecycleStatuses then some status else none
    | .text _ => none
  | none => none

/-- What is read as the status of an operation is a member of the enumeration. -/
def Typed (child : Option LifecycleOperation) : Prop :=
  ∀ operation ∈ child, ∃ status, operation.status = .member status

theorem outcome_eq_some {child : Option LifecycleOperation} {status : LifecycleOperationStatus} :
    outcome child = some status ↔ status ∈ terminalLifecycleStatuses ∧
      ∃ operation, child = some operation ∧ operation.status = .member status := by
  cases child with
  | none => simp [outcome]
  | some operation =>
    cases hstatus : operation.status with
    | text s => simp [outcome, hstatus]
    | member status' =>
      simp only [outcome, hstatus, Option.ite_none_right_eq_some, Option.some.injEq]
      constructor
      · rintro ⟨hmem, rfl⟩
        exact ⟨hmem, operation, rfl, hstatus⟩
      · rintro ⟨hmem, operation', rfl, hstatus'⟩
        rw [hstatus] at hstatus'
        cases hstatus'
        exact ⟨hmem, rfl⟩

/-- **A child has no outcome while it is missing or not over.** -/
theorem outcome_eq_none {child : Option LifecycleOperation} (htyped : Typed child) :
    outcome child = none ↔ child = none ∨
      ∃ operation, child = some operation ∧
        operation.status.isIn terminalLifecycleStatuses = false := by
  cases child with
  | none => simp [outcome]
  | some operation =>
    obtain ⟨status, hstatus⟩ := htyped operation rfl
    by_cases hmem : status ∈ terminalLifecycleStatuses
    · simp [outcome, hstatus, hmem, StatusValue.isIn]
    · simp [outcome, hstatus, hmem, StatusValue.isIn]

theorem mem_terminal_iff {status : LifecycleOperationStatus} :
    status ∈ terminalLifecycleStatuses ↔ status = .cancelled ∨ status = .succeeded ∨
      status = .failed ∨ status = .deadLetter := by
  simp [terminalLifecycleStatuses]

/-- The children that have one of these outcomes. -/
def outcomeIn (l : List LifecycleOperationStatus) (child : Option LifecycleOperation) : Bool :=
  (outcome child).any fun status => decide (status ∈ l)

/-- The batch says of these children what is true. -/
structure Summarizes (children : List (Option LifecycleOperation)) (batch : LifecycleBatch) :
    Prop where
  succeeded : batch.succeeded = children.countP (outcomeIn [.succeeded])
  failed : batch.failed = children.countP (outcomeIn [.failed, .deadLetter])
  cancelled : batch.cancelled = children.countP (outcomeIn [.cancelled])
  /-- The counts partition the children that have ended. -/
  partition : batch.succeeded + batch.failed + batch.cancelled =
    children.countP fun child => (outcome child).isSome
  running_iff : batch.status = .running ↔ ∃ child ∈ children, outcome child = none
  cancelled_iff : batch.status = .cancelled ↔
    ∀ child ∈ children, outcome child = some .cancelled
  succeeded_iff : batch.status = .succeeded ↔
    ∀ child ∈ children, outcome child = some .succeeded
  partialSuccess_iff : batch.status = .partialSuccess ↔
    (∀ child ∈ children, outcome child ≠ none) ∧
      (∃ child ∈ children, outcome child = some .succeeded) ∧
      ∃ child ∈ children, outcome child ≠ some .succeeded
  failed_iff : batch.status = .failed ↔
    (∀ child ∈ children, outcome child ≠ none) ∧
      (∀ child ∈ children, outcome child ≠ some .succeeded) ∧
      ∃ child ∈ children, outcome child ≠ some .cancelled

section Counts

variable {children : List (Option LifecycleOperation)}

/-- Counting what was found is counting the children. -/
theorem countP_reduceOption {p : LifecycleOperation → Bool} {q : Option LifecycleOperation → Bool}
    (hnone : q none = false) (hsome : ∀ operation, some operation ∈ children →
      p operation = q (some operation)) :
    children.reduceOption.countP p = children.countP q := by
  induction children with
  | nil => rfl
  | cons child children ih =>
    have hrest := ih fun operation hmem => hsome operation (List.mem_cons_of_mem child hmem)
    cases child with
    | none => rw [List.reduceOption_cons_of_none, hrest, List.countP_cons_of_neg (by simp [hnone])]
    | some operation =>
      have hhead := hsome operation List.mem_cons_self
      rw [List.reduceOption_cons_of_some, List.countP_cons, List.countP_cons, hrest, hhead]

theorem outcomeIn_eq_true {l : List LifecycleOperationStatus}
    {child : Option LifecycleOperation} :
    outcomeIn l child = true ↔ ∃ status ∈ l, outcome child = some status := by
  unfold outcomeIn
  rw [Option.any_eq_true]
  constructor
  · rintro ⟨status, hstatus, hmem⟩
    exact ⟨status, of_decide_eq_true hmem, hstatus⟩
  · rintro ⟨status, hmem, hstatus⟩
    exact ⟨status, hstatus, decide_eq_true hmem⟩

theorem outcomeIn_singleton {status : LifecycleOperationStatus}
    {child : Option LifecycleOperation} :
    outcomeIn [status] child = true ↔ outcome child = some status := by
  rw [outcomeIn_eq_true]
  simp

/-- The three counts, for children as they are read. -/
theorem counts_refreshed (batch : LifecycleBatch) (now : ℕ)
    (htyped : ∀ child ∈ children, Typed child) :
    (batch.refreshed children.reduceOption now).succeeded =
        children.countP (outcomeIn [.succeeded]) ∧
      (batch.refreshed children.reduceOption now).failed =
        children.countP (outcomeIn [.failed, .deadLetter]) ∧
      (batch.refreshed children.reduceOption now).cancelled =
        children.countP (outcomeIn [.cancelled]) := by
  refine ⟨countP_reduceOption rfl ?_, countP_reduceOption rfl ?_, countP_reduceOption rfl ?_⟩ <;>
  · intro operation hmem
    obtain ⟨status, hstatus⟩ := htyped _ hmem operation rfl
    cases status <;> simp [outcomeIn, outcome, hstatus, StatusValue.isIn, terminalLifecycleStatuses]

/-- Each child that has ended is counted once. -/
theorem partition_outcomes :
    children.countP (outcomeIn [.succeeded]) + children.countP (outcomeIn [.failed, .deadLetter]) +
        children.countP (outcomeIn [.cancelled]) =
      children.countP fun child => (outcome child).isSome := by
  induction children with
  | nil => rfl
  | cons child children ih =>
    simp only [List.countP_cons]
    cases houtcome : outcome child with
    | none => simp [outcomeIn, houtcome, ih]
    | some status =>
      have hmem := (outcome_eq_some.1 houtcome).1
      rw [mem_terminal_iff] at hmem
      rcases hmem with rfl | rfl | rfl | rfl <;> simp [outcomeIn, houtcome] <;> omega

/-- The cases of the status, by the counts. -/
theorem batchStatus_iff {total succeeded failed cancelled : ℕ} (htotal : 0 < total)
    (hle : succeeded + failed + cancelled ≤ total) :
    (batchStatus total succeeded failed cancelled = .running ↔
        succeeded + failed + cancelled ≠ total) ∧
      (batchStatus total succeeded failed cancelled = .cancelled ↔ cancelled = total) ∧
      (batchStatus total succeeded failed cancelled = .succeeded ↔ succeeded = total) ∧
      (batchStatus total succeeded failed cancelled = .partialSuccess ↔
        succeeded + failed + cancelled = total ∧ succeeded ≠ 0 ∧ succeeded ≠ total) ∧
      (batchStatus total succeeded failed cancelled = .failed ↔
        succeeded + failed + cancelled = total ∧ succeeded = 0 ∧ cancelled ≠ total) := by
  unfold batchStatus
  dsimp only
  split_ifs
  all_goals
    simp
    omega

/-- **A refresh summarizes the children it has found.** -/
theorem summarizes_refreshed {batch : LifecycleBatch} {now : ℕ}
    (hlength : children.length = batch.operationIds.ids.length)
    (htyped : ∀ child ∈ children, Typed child) :
    Summarizes children (batch.refreshed children.reduceOption now) := by
  obtain ⟨hsucceeded, hfailed, hcancelled⟩ := counts_refreshed batch now htyped
  have hpartition : _ + _ + _ = children.countP fun child => (outcome child).isSome :=
    partition_outcomes
  -- the conditions on the children, as conditions on the counts
  have hended : (children.countP fun child => (outcome child).isSome) = children.length ↔
      ∀ child ∈ children, outcome child ≠ none := by
    simp only [List.countP_eq_length, Option.isSome_iff_ne_none]
  have hall : ∀ status, children.countP (outcomeIn [status]) = children.length ↔
      ∀ child ∈ children, outcome child = some status := fun status => by
    simp only [List.countP_eq_length, outcomeIn_singleton]
  have hnone : children.countP (outcomeIn [.succeeded]) = 0 ↔
      ∀ child ∈ children, outcome child ≠ some .succeeded := by
    simp only [List.countP_eq_zero, outcomeIn_singleton, ne_eq]
  have hsome : ∀ status, (∃ child ∈ children, outcome child ≠ some status) ↔
      children.countP (outcomeIn [status]) ≠ children.length := fun status => by
    rw [ne_eq, hall]
    push Not
    rfl
  have hsome' : (∃ child ∈ children, outcome child = some .succeeded) ↔
      children.countP (outcomeIn [.succeeded]) ≠ 0 := by
    rw [ne_eq, hnone]
    push Not
    rfl
  have hstatus : (batch.refreshed children.reduceOption now).status =
      batchStatus children.length (children.countP (outcomeIn [.succeeded]))
        (children.countP (outcomeIn [.failed, .deadLetter]))
        (children.countP (outcomeIn [.cancelled])) := by
    rw [← hsucceeded, ← hfailed, ← hcancelled, hlength]
    rfl
  have hle := List.countP_le_length (p := fun child => (outcome child).isSome) (l := children)
  obtain ⟨hr, hc, hs, hp, hf⟩ := batchStatus_iff
    (hlength ▸ batch.operationIds.length_pos) (hpartition.trans_le hle)
  rw [← hstatus, hpartition] at hr hp hf
  rw [← hstatus] at hc hs
  constructor
  case succeeded => exact hsucceeded
  case failed => exact hfailed
  case cancelled => exact hcancelled
  case partition => rw [hsucceeded, hfailed, hcancelled, hpartition]
  case running_iff =>
    rw [hr, ne_eq, hended]
    push Not
    rfl
  case cancelled_iff => rw [hc, hall]
  case succeeded_iff => rw [hs, hall]
  case partialSuccess_iff => rw [hp, hended, hsome', hsome]
  case failed_iff => rw [hf, hended, hnone, hsome]

end Counts

/-! ## A refresh from its start to its end -/

/-- The children of a batch, as they are when they are read one after another. -/
def readChildren (tenantId : String) :
    List String → (ℕ → Moment) → Except Error (List (Option LifecycleOperation))
  | [], _ => .ok []
  | operationId :: operationIds, x =>
    match Repository.get (x 0).operations tenantId operationId with
    | .error e => .error e
    | .ok child => (readChildren tenantId operationIds fun n => x (n + 1)).map (child :: ·)

section Alone

variable {w w' : BatchStore} {x : ℕ → Moment} {tenantId : String} {operationIds : List String}
  {children : List (Option LifecycleOperation)}

/-- A status that can be validated becomes a member of the enumeration. -/
theorem exists_member_of_validate {v v' : StatusValue} (h : v.validate = .ok v') :
    ∃ status, v' = .member status := by
  unfold StatusValue.validate at h
  split at h
  · cases h
    exact ⟨_, rfl⟩
  · split at h
    · cases h
      exact ⟨_, rfl⟩
    · cases h

theorem typed_of_get {T : Table LifecycleOperation} {operationId : String}
    {child : Option LifecycleOperation} (h : Repository.get T tenantId operationId = .ok child) :
    Typed child := by
  intro operation hoperation
  rw [Option.mem_def] at hoperation
  subst hoperation
  obtain ⟨row, -, hvalid⟩ := Repository.get_eq_some h
  obtain ⟨v, hv, rfl⟩ := LifecycleOperation.validate_eq_ok hvalid
  exact exists_member_of_validate hv

theorem readChildren_spec (h : readChildren tenantId operationIds x = .ok children) :
    children.length = operationIds.length ∧ ∀ child ∈ children, Typed child := by
  induction operationIds generalizing children x with
  | nil =>
    cases h
    exact ⟨rfl, by simp⟩
  | cons operationId operationIds ih =>
    unfold readChildren at h
    split at h
    · cases h
    · rename_i child hchild
      obtain ⟨rest, hrest, rfl⟩ := map_eq_ok.1 h
      obtain ⟨hlength, htyped⟩ := ih hrest
      refine ⟨by rw [List.length_cons, List.length_cons, hlength], fun child' hmem => ?_⟩
      rcases List.mem_cons.1 hmem with rfl | hmem
      · exact typed_of_get hchild
      · exact htyped child' hmem

/-- A call without faults. -/
theorem execBatch_of_ok {β : Type} {c : BatchCall β} {y : Moment} {b : β} (hy : y.faults = {})
    (h : c.effect y { w with operations := y.operations } = .ok (b, w')) :
    execBatch c y w = (.ok b, w') := by
  unfold execBatch execFaulty
  simp only [hy, Option.filter_none, h]

theorem runAlone_loadOperations (hx : ∀ n, (x n).faults = {})
    (h : readChildren tenantId operationIds x = .ok children) :
    ∃ w', (LifecycleBatchService.loadOperations tenantId operationIds).runAlone execBatch x w =
        (.ok children.reduceOption, w') ∧ w'.batches = w.batches ∧
      (LifecycleBatchService.loadOperations tenantId operationIds).callsAlone execBatch x w =
        operationIds.length := by
  induction operationIds generalizing children x w with
  | nil =>
    cases h
    exact ⟨w, rfl, rfl, rfl⟩
  | cons operationId operationIds ih =>
    unfold readChildren at h
    split at h
    · cases h
    rename_i child hchild
    obtain ⟨rest, hrest, rfl⟩ := map_eq_ok.1 h
    have hcall : (Prog.perform (.getOperation tenantId operationId)).runAlone execBatch x w =
        (.ok child, { w with operations := (x 0).operations }) := by
      rw [Prog.runAlone_perform]
      refine execBatch_of_ok (hx 0) ?_
      change (Repository.get (x 0).operations tenantId operationId).map _ = _
      rw [hchild]
      rfl
    obtain ⟨w', hrun, hbatches, hcalls⟩ := ih (x := fun n => x (n + 1))
      (w := { w with operations := (x 0).operations }) (fun n => hx (n + 1)) hrest
    refine ⟨w', ?_, hbatches, ?_⟩
    · unfold LifecycleBatchService.loadOperations
      rw [Prog.runAlone_bind_ok hcall, Prog.callsAlone_perform, Prog.runAlone_bind_ok hrun]
      cases child with
      | none => rw [List.reduceOption_cons_of_none]; rfl
      | some operation => rw [List.reduceOption_cons_of_some]; rfl
    · unfold LifecycleBatchService.loadOperations
      rw [Prog.callsAlone_bind_ok hcall, Prog.callsAlone_perform, Prog.callsAlone_bind_ok hrun,
        hcalls, List.length_cons, Nat.add_comm]
      rfl

/-- **A refresh that can read everything stores a summary of the children**, whatever the others
make of them meanwhile. -/
theorem runAlone_refresh {context : AuthorizationContext} {batchId : String}
    {batch : LifecycleBatch} (hx : ∀ n, (x n).faults = {})
    (hbatch : Repository.get w.batches context.tenantId batchId = .ok (some batch))
    (howner : batch.requestedBy = context.actorId)
    (hchildren : readChildren context.tenantId batch.operationIds.ids (fun n => x (n + 1)) =
      .ok children) :
    ∃ refreshed w',
      (LifecycleBatchService.refresh context batchId).runAlone execBatch x w =
        (.ok refreshed, w') ∧
      w'.batches.get (context.tenantId, batchId) = some refreshed ∧
      Summarizes children refreshed := by
  obtain ⟨hlength, htyped⟩ := readChildren_spec hchildren
  obtain ⟨row, hrow, hvalid⟩ := Repository.get_eq_some hbatch
  have hsame : batch = row := LifecycleBatch.eq_of_validate_eq_ok hvalid
  subst hsame
  have hkey : key batch = (context.tenantId, batchId) := Table.key_of_get hrow
  have hcall : (Prog.perform (.getBatch context.tenantId batchId)).runAlone execBatch x w =
      (.ok (some batch), { w with operations := (x 0).operations }) := by
    rw [Prog.runAlone_perform]
    refine execBatch_of_ok (hx 0) ?_
    change (Repository.get w.batches context.tenantId batchId).map _ = _
    rw [hbatch]
    rfl
  obtain ⟨w₁, hload, hbatches, hcalls⟩ := runAlone_loadOperations (x := fun n => x (n + 1))
    (w := { w with operations := (x 0).operations }) (fun n => hx (n + 1)) hchildren
  have hget : w₁.batches.get (key batch) = some batch := by
    rw [hbatches, hkey]
    exact hrow
  -- the inputs that are left are those of the clock and of the save
  let y : ℕ → Moment := fun n => x (n + batch.operationIds.ids.length + 1)
  let refreshed := batch.refreshed children.reduceOption (y 0).now
  have hclock : (Prog.perform BatchCall.now).runAlone execBatch y w₁ =
      (.ok (y 0).now, { w₁ with operations := (y 0).operations }) := by
    rw [Prog.runAlone_perform]
    exact execBatch_of_ok (hx _) rfl
  have hsave : (Prog.perform (.save context.tenantId refreshed)).runAlone execBatch
      (fun n => y (n + 1)) { w₁ with operations := (y 0).operations } =
        (.ok (), ⟨(y 1).operations, w₁.batches.replace refreshed⟩) := by
    rw [Prog.runAlone_perform]
    refine execBatch_of_ok (hx _) ?_
    change (Repository.save w₁.batches context.tenantId refreshed).map _ = _
    have hfst : ¬ (key refreshed).1 ≠ context.tenantId := by
      rw [LifecycleBatch.key_refreshed, hkey]
      exact not_not.2 rfl
    unfold Repository.save
    rw [if_neg hfst, LifecycleBatch.key_refreshed, hget]
    rfl
  refine ⟨refreshed, ⟨(y 1).operations, w₁.batches.replace refreshed⟩, ?_, ?_,
    summarizes_refreshed hlength htyped⟩
  · unfold LifecycleBatchService.refresh
    rw [Prog.bind_eq, Prog.runAlone_bind_ok hcall, Prog.callsAlone_perform]
    change ((Prog.raiseWhen _ _).bind _).runAlone _ _ _ = _
    rw [Prog.raiseWhen, if_neg (not_not.2 howner), Prog.ret_bind, Prog.bind_eq,
      Prog.runAlone_bind_ok hload, hcalls]
    change ((Prog.perform BatchCall.now).bind _).runAlone execBatch y w₁ = _
    rw [Prog.runAlone_bind_ok hclock, Prog.callsAlone_perform]
    change ((Prog.perform _).bind _).runAlone execBatch (fun n => y (n + 1)) _ = _
    rw [Prog.runAlone_bind_ok hsave]
    rfl
  · change (w₁.batches.replace refreshed).get _ = _
    rw [Table.get_replace (r := refreshed) hget, LifecycleBatch.key_refreshed, if_pos hkey.symm]

end Alone

/-! ## What a refresh has read -/

/-- What a thread has read so far. -/
structure BatchWatch where
  loaded : Option LifecycleBatch := none
  /-- The tenant the batch was asked for under. -/
  tenantId : String := ""
  /-- The children, in the order in which they were read. -/
  seen : List (Option LifecycleOperation) := []

/-- A refresh reads the children of the batch it has loaded, in their order, and saves the summary
of what it has found; a new batch is pending. -/
def batchWatcher : Monitor BatchCall Error BatchWatch where
  licit m _ c :=
    match c with
    | .getOperation tenantId operationId => ∀ batch ∈ m.loaded, tenantId = m.tenantId ∧
        batch.operationIds.ids[m.seen.length]? = some operationId
    | .add _ entity => entity.status = .pending
    | .save tenantId entity => tenantId = m.tenantId ∧ ∃ batch ∈ m.loaded, ∃ now,
        m.seen.length = batch.operationIds.ids.length ∧
          entity = batch.refreshed m.seen.reduceOption now
    | _ => True
  next m _ c r :=
    match c, r with
    | .getBatch tenantId _, .ok (some batch) => { loaded := some batch, tenantId := tenantId }
    | .getOperation _ _, .ok child => { m with seen := m.seen ++ [child] }
    | _, _ => m

section Conforms

variable {m : BatchWatch}

theorem conforms_loadOperations {batch : LifecycleBatch} (hloaded : m.loaded = some batch)
    (operationIds : List String)
    (hids : batch.operationIds.ids.drop m.seen.length = operationIds) :
    batchWatcher.Conforms (LifecycleBatchService.loadOperations m.tenantId operationIds)
      (fun operations m' => m'.loaded = some batch ∧ m'.tenantId = m.tenantId ∧
        m'.seen.reduceOption = m.seen.reduceOption ++ operations ∧
        m'.seen.length = m.seen.length + operationIds.length) (fun _ _ => True) m := by
  induction operationIds generalizing m with
  | nil => exact ⟨hloaded, rfl, by rw [List.append_nil], rfl⟩
  | cons operationId operationIds ih =>
    have hget : batch.operationIds.ids[m.seen.length]? = some operationId := by
      rw [← List.head?_drop, hids]
      rfl
    have hrest : batch.operationIds.ids.drop (m.seen.length + 1) = operationIds := by
      rw [← List.tail_drop, hids]
      rfl
    unfold LifecycleBatchService.loadOperations
    refine Monitor.conforms_bind (R := fun child m' => m' = { m with seen := m.seen ++ [child] })
      (Monitor.conforms_perform ?_ (fun child => rfl) fun _ => trivial) ?_
    · intro batch' hbatch'
      rw [hloaded] at hbatch'
      cases hbatch'
      exact ⟨rfl, hget⟩
    · rintro child m' rfl
      refine Monitor.conforms_bind (ih (m := { m with seen := m.seen ++ [child] }) hloaded ?_) ?_
      · rw [List.length_append, List.length_singleton]
        exact hrest
      · rintro operations m' ⟨hloaded', htenant, hseen, hlength⟩
        refine ⟨hloaded', htenant, ?_, ?_⟩
        · rw [hseen, List.reduceOption_append, List.append_assoc]
          cases child <;> rfl
        · rw [hlength, List.length_append, List.length_singleton, List.length_cons]
          omega

theorem conforms_refresh (context : AuthorizationContext) (batchId : String) (m : BatchWatch) :
    batchWatcher.Conforms (LifecycleBatchService.refresh context batchId) (fun _ _ => True)
      (fun _ _ => True) m := by
  unfold LifecycleBatchService.refresh
  refine Monitor.conforms_bind (R := fun batch m' => ∀ b ∈ batch,
      m' = { loaded := some b, tenantId := context.tenantId })
    (Monitor.conforms_perform trivial ?_ fun _ => trivial) ?_
  · intro batch b hb
    rw [Option.mem_def] at hb
    subst hb
    rfl
  · intro batch m' hm'
    cases batch with
    | none => exact trivial
    | some batch =>
      obtain rfl := hm' batch rfl
      refine Monitor.conforms_bind (R := fun _ m' =>
          m' = { loaded := some batch, tenantId := context.tenantId })
        (Monitor.conforms_raiseWhen (fun _ => trivial) fun _ => rfl) ?_
      rintro - m' rfl
      refine Monitor.conforms_bind (conforms_loadOperations
        (m := { loaded := some batch, tenantId := context.tenantId }) rfl _ rfl) ?_
      rintro operations m' ⟨hloaded, htenant, hseen, hlength⟩
      refine Monitor.conforms_bind (R := fun _ m'' => m'' = m')
        (Monitor.conforms_perform trivial (fun _ => rfl) fun _ => trivial) ?_
      rintro now m'' rfl
      refine Monitor.conforms_bind (R := fun _ _ => True)
        (Monitor.conforms_perform ⟨htenant.symm, batch, hloaded, now, ?_, ?_⟩ (fun _ => trivial)
          fun _ => trivial) fun _ _ _ => trivial
      · rw [hlength]
        exact Nat.zero_add _
      · rw [hseen]
        rfl

theorem status_of_ofFields {id tenantId knowledgeBaseId requestedBy idempotencyKey : String}
    {kind : LifecycleOperationKind} {operationIds : List String} {concurrency : ℤ} {now : ℕ}
    {batch : LifecycleBatch}
    (h : LifecycleBatch.ofFields id tenantId knowledgeBaseId kind requestedBy idempotencyKey
      operationIds concurrency now = .ok batch) : batch.status = .pending := by
  unfold LifecycleBatch.ofFields at h
  simp only [bind_eq_ok] at h
  obtain ⟨_, -, _, -, _, -, _, -, _, -, _, -, hvalid⟩ := h
  rw [LifecycleBatch.eq_of_validate_eq_ok hvalid]

theorem conforms_create (maxConcurrency : ℤ) (context : AuthorizationContext)
    (knowledgeBaseId : String) (kind : LifecycleOperationKind) (operationIds : List String)
    (idempotencyKey : String) (concurrency : Option ℤ) (hloaded : m.loaded = none) :
    batchWatcher.Conforms (LifecycleBatchService.create maxConcurrency context knowledgeBaseId kind
      operationIds idempotencyKey concurrency) (fun _ _ => True) (fun _ _ => True) m := by
  unfold LifecycleBatchService.create
  refine Monitor.conforms_bind (R := fun _ m' => m'.loaded = none)
    (Monitor.conforms_perform trivial (fun _ => hloaded) fun _ => trivial) ?_
  intro duplicate m' hloaded
  cases duplicate with
  | some duplicate =>
    exact Monitor.conforms_bind (R := fun _ _ => True)
      (Monitor.conforms_raiseWhen (fun _ => trivial) fun _ => trivial) fun _ _ _ => trivial
  | none =>
    refine Monitor.conforms_bind (Monitor.conforms_forEach (I := fun m => m.loaded = none)
      (fun operationId _ m hloaded => ?_) hloaded) ?_
    · refine Monitor.conforms_bind (R := fun _ m' => m'.loaded = none)
        (Monitor.conforms_perform ?_ (fun _ => hloaded) fun _ => trivial) ?_
      · intro batch hbatch
        rw [hloaded] at hbatch
        cases hbatch
      · intro operation m' hloaded
        exact Monitor.conforms_raiseWhen (fun _ => trivial) fun _ => hloaded
    · rintro - m' -
      refine Monitor.conforms_bind (R := fun _ _ => True)
        (Monitor.conforms_perform trivial (fun _ => trivial) fun _ => trivial) fun now m' _ => ?_
      refine Monitor.conforms_bind (R := fun _ _ => True)
        (Monitor.conforms_perform trivial (fun _ => trivial) fun _ => trivial) fun id m' _ => ?_
      refine Monitor.conforms_bind (R := fun batch _ => batch.status = .pending)
        (Monitor.conforms_ofExcept (fun _ h => status_of_ofFields h) fun _ _ => trivial) ?_
      intro batch m' hstatus
      exact Monitor.conforms_bind (R := fun _ _ => True)
        (Monitor.conforms_perform hstatus (fun _ => trivial) fun _ => trivial)
        fun _ _ _ => trivial

end Conforms

/-! ## Batches that have ended -/

/-- The batch is over. -/
def LifecycleBatch.Ended (batch : LifecycleBatch) : Prop :=
  batch.status ∈ [LifecycleBatchStatus.succeeded, .partialSuccess, .failed, .cancelled]

instance : DecidablePred LifecycleBatch.Ended := fun _ => inferInstanceAs (Decidable (_ ∈ _))

/-- The stored operation is read with this status. -/
def Stands (T : Table LifecycleOperation) (k : String × String)
    (status : LifecycleOperationStatus) : Prop :=
  ∃ row, T.get k = some row ∧ row.status.validate = .ok (.member status)

/-- Operations that are over stay as they are. -/
def Absorbing (T T' : Table LifecycleOperation) : Prop :=
  ∀ k, ∀ status ∈ terminalLifecycleStatuses, Stands T k status → Stands T' k status

/-- The status of a batch whose children have come to these ends. -/
def statusOf (outcomes : List LifecycleOperationStatus) : LifecycleBatchStatus :=
  batchStatus outcomes.length (outcomes.countP (· ∈ [.succeeded]))
    (outcomes.countP (· ∈ [.failed, .deadLetter])) (outcomes.countP (· ∈ [.cancelled]))

/-- All children have ended, and the status is what they say. -/
def LifecycleBatch.FaithfulTo (batch : LifecycleBatch) (T : Table LifecycleOperation) : Prop :=
  ∃ outcomes, List.Forall₂ (fun operationId status => status ∈ terminalLifecycleStatuses ∧
      Stands T (batch.tenantId, operationId) status) batch.operationIds.ids outcomes ∧
    batch.status = statusOf outcomes

/-- **Every batch that has ended says what its children say.** -/
def Faithful (w : BatchStore) : Prop :=
  ∀ k batch, w.batches.get k = some batch → batch.Ended → batch.FaithfulTo w.operations

section Ended

variable {T T' : Table LifecycleOperation} {batch batch' : LifecycleBatch} {m : BatchWatch}
  {w : BatchStore}

theorem Stands.unique {k : String × String} {status status' : LifecycleOperationStatus}
    (h : Stands T k status) (h' : Stands T k status') : status = status' := by
  obtain ⟨row, hrow, hvalid⟩ := h
  obtain ⟨row', hrow', hvalid'⟩ := h'
  rw [hrow] at hrow'
  cases hrow'
  rw [hvalid] at hvalid'
  cases hvalid'
  rfl

/-- What is read is there. -/
theorem stands_of_get {tenantId operationId : String} {child : Option LifecycleOperation}
    {status : LifecycleOperationStatus}
    (h : Repository.get T tenantId operationId = .ok child)
    (hstatus : outcome child = some status) :
    Stands T (tenantId, operationId) status := by
  obtain ⟨-, operation, rfl, hoperation⟩ := outcome_eq_some.1 hstatus
  obtain ⟨row, hrow, hvalid⟩ := Repository.get_eq_some h
  obtain ⟨v, hv, rfl⟩ := LifecycleOperation.validate_eq_ok hvalid
  change v = .member status at hoperation
  subst hoperation
  exact ⟨row, hrow, hv⟩

theorem LifecycleBatch.FaithfulTo.absorb (h : batch.FaithfulTo T) (hT : Absorbing T T') :
    batch.FaithfulTo T' := by
  obtain ⟨outcomes, houtcomes, hstatus⟩ := h
  refine ⟨outcomes, houtcomes.imp fun operationId status hs => ?_, hstatus⟩
  exact ⟨hs.1, hT _ _ hs.1 hs.2⟩

/-- Two batches with the same children say the same when both are faithful. -/
theorem LifecycleBatch.FaithfulTo.status_eq (h : batch.FaithfulTo T) (h' : batch'.FaithfulTo T)
    (htenant : batch.tenantId = batch'.tenantId)
    (hids : batch.operationIds = batch'.operationIds) : batch.status = batch'.status := by
  obtain ⟨outcomes, houtcomes, hstatus⟩ := h
  obtain ⟨outcomes', houtcomes', hstatus'⟩ := h'
  rw [htenant, hids] at houtcomes
  have hsame : outcomes = outcomes' := by
    refine List.ext_getElem (houtcomes.length_eq.symm.trans houtcomes'.length_eq) fun i hi hi' => ?_
    have hlt : i < batch'.operationIds.ids.length := houtcomes.length_eq ▸ hi
    exact (houtcomes.get hlt hi).2.unique (houtcomes'.get hlt hi').2
  rw [hstatus, hstatus', hsame]

/-- The status of a refresh that has found that all children have ended. -/
theorem status_refreshed {children : List (Option LifecycleOperation)}
    {outcomes : List LifecycleOperationStatus} {now : ℕ}
    (houtcomes : children.map outcome = outcomes.map some)
    (hlength : children.length = batch.operationIds.ids.length)
    (htyped : ∀ child ∈ children, Typed child) :
    (batch.refreshed children.reduceOption now).status = statusOf outcomes := by
  obtain ⟨hsucceeded, hfailed, hcancelled⟩ := counts_refreshed batch now htyped
  have hcount : ∀ l, children.countP (outcomeIn l) = outcomes.countP (· ∈ l) := by
    intro l
    have hmap : children.countP (outcomeIn l) =
        (children.map outcome).countP fun o => o.any (· ∈ l) := by
      rw [List.countP_map]
      rfl
    rw [hmap, houtcomes, List.countP_map]
    rfl
  have hlengths : children.length = outcomes.length := by
    simpa using congrArg List.length houtcomes
  rw [hcount] at hsucceeded hfailed hcancelled
  rw [statusOf, ← hsucceeded, ← hfailed, ← hcancelled, ← hlengths, hlength]
  rfl

/-! ## What the refreshes under way know -/

/-- What a thread has read is still true, as far as it cannot change. -/
structure BatchWatch.Told (w : BatchStore) (m : BatchWatch) : Prop where
  stored : ∀ batch ∈ m.loaded, batch.tenantId = m.tenantId ∧
    ∃ row, w.batches.get (key batch) = some row ∧ row.operationIds = batch.operationIds
  typed : ∀ child ∈ m.seen, Typed child
  stands : ∀ batch ∈ m.loaded, ∀ (i : ℕ) operationId child status,
    batch.operationIds.ids[i]? = some operationId → m.seen[i]? = some child →
    outcome child = some status → Stands w.operations (batch.tenantId, operationId) status

/-- A thread that has read nothing. -/
theorem BatchWatch.told_init (w : BatchStore) : BatchWatch.Told w {} where
  stored := by simp
  typed := by simp
  stands := by simp

theorem BatchWatch.Told.absorb (h : m.Told w) (hT : Absorbing w.operations T) :
    m.Told { w with operations := T } where
  stored := h.stored
  typed := h.typed
  stands batch hbatch i operationId child status hid hchild hstatus :=
    hT _ _ (outcome_eq_some.1 hstatus).1
      (h.stands batch hbatch i operationId child status hid hchild hstatus)

/-- Batches may be written, as long as they keep their children. -/
theorem BatchWatch.Told.written (h : m.Told w) {batches : Table LifecycleBatch}
    (hbatches : ∀ k row, w.batches.get k = some row →
      ∃ row', batches.get k = some row' ∧ row'.operationIds = row.operationIds) :
    m.Told { w with batches := batches } where
  stored batch hbatch := by
    obtain ⟨htenant, row, hrow, hids⟩ := h.stored batch hbatch
    obtain ⟨row', hrow', hids'⟩ := hbatches _ row hrow
    exact ⟨htenant, row', hrow', hids'.trans hids⟩
  typed := h.typed
  stands := h.stands

/-- Reading the next child. -/
theorem BatchWatch.Told.read (h : m.Told w) {tenantId operationId : String}
    {child : Option LifecycleOperation}
    (hlicit : batchWatcher.licit m (.getOperation tenantId operationId))
    (hread : Repository.get w.operations tenantId operationId = .ok child) :
    BatchWatch.Told w { m with seen := m.seen ++ [child] } where
  stored := h.stored
  typed child' hmem := by
    rcases List.mem_append.1 hmem with hmem | hmem
    · exact h.typed child' hmem
    · rw [List.mem_singleton] at hmem
      rw [hmem]
      exact typed_of_get hread
  stands batch hbatch i operationId' child' status hid hchild hstatus := by
    rcases Nat.lt_or_ge i m.seen.length with hlt | hge
    · rw [List.getElem?_append_left hlt] at hchild
      exact h.stands batch hbatch i operationId' child' status hid hchild hstatus
    · rw [List.getElem?_append_right hge, List.getElem?_singleton] at hchild
      split at hchild
      · rename_i hzero
        cases hchild
        obtain ⟨htenant, hnext⟩ := hlicit batch hbatch
        have hi : i = m.seen.length := by omega
        rw [hi, hnext] at hid
        cases hid
        rw [(h.stored batch hbatch).1, ← htenant]
        exact stands_of_get hread hstatus
      · cases hchild

/-- **A refresh that has found no open child is about to store what the children say.** -/
theorem BatchWatch.Told.faithfulTo (h : m.Told w) (hbatch : batch ∈ m.loaded) {now : ℕ}
    (hlength : m.seen.length = batch.operationIds.ids.length)
    (hended : ∀ child ∈ m.seen, outcome child ≠ none) :
    (batch.refreshed m.seen.reduceOption now).FaithfulTo w.operations := by
  obtain ⟨outcomes, houtcomes⟩ : ∃ outcomes, List.map some outcomes = m.seen.map outcome := by
    rw [← Set.mem_range, Set.range_list_map]
    intro o ho
    obtain ⟨child, hchild, rfl⟩ := List.mem_map.1 ho
    obtain ⟨status, hstatus⟩ := Option.ne_none_iff_exists'.1 (hended child hchild)
    exact ⟨status, hstatus.symm⟩
  have hlengths : outcomes.length = m.seen.length := by
    simpa using congrArg List.length houtcomes
  refine ⟨outcomes, ?_, status_refreshed houtcomes.symm hlength h.typed⟩
  rw [List.forall₂_iff_get]
  refine ⟨hlength.symm.trans hlengths.symm, fun i hid hi => ?_⟩
  have hchild : outcome (m.seen.get ⟨i, hlengths ▸ hi⟩) = some (outcomes.get ⟨i, hi⟩) := by
    have hget := congrArg (fun l : List (Option LifecycleOperationStatus) => l[i]?) houtcomes
    simpa [List.getElem?_eq_getElem hi, List.getElem?_eq_getElem (hlengths ▸ hi)] using hget.symm
  refine ⟨(outcome_eq_some.1 hchild).1, ?_⟩
  refine h.stands batch hbatch i _ (m.seen.get ⟨i, hlengths ▸ hi⟩) _ ?_ ?_ hchild
  · exact List.getElem?_eq_getElem hid
  · exact List.getElem?_eq_getElem _

end Ended

/-! ## One step -/

/-- Batches that have ended are faithful, and what the threads have read is true. -/
structure Told {τ : Type} (ms : τ → BatchWatch) (w : BatchStore) : Prop where
  faithful : Faithful w
  told : ∀ t, (ms t).Told w

section Step

variable {τ : Type} [DecidableEq τ] {ms : τ → BatchWatch} {w w' : BatchStore} {t : τ} {x : Moment}
  {m : BatchWatch} {β : Type} {c : BatchCall β} {b : β}

omit [DecidableEq τ] in
theorem Told.absorb (h : Told ms w) {T : Table LifecycleOperation}
    (hT : Absorbing w.operations T) : Told ms { w with operations := T } where
  faithful k batch hbatch hended := (h.faithful k batch hbatch hended).absorb hT
  told t := (h.told t).absorb hT

theorem Told.update (h : Told ms w) (hm : m.Told w) : Told (Function.update ms t m) w where
  faithful := h.faithful
  told u := by
    by_cases hu : u = t
    · subst hu
      rwa [Function.update_self]
    · rw [Function.update_of_ne hu]
      exact h.told u

theorem next_error (m : BatchWatch) (c : BatchCall β) (e : Error) :
    batchWatcher.next m c (.error e) = m := by
  cases c <;> rfl

/-- The row that a licit save writes over. -/
theorem BatchWatch.Told.exists_row (h : m.Told w) {tenantId : String} {entity : LifecycleBatch}
    (hlicit : batchWatcher.licit m (.save tenantId entity)) :
    (key entity).1 = tenantId ∧ ∃ row, w.batches.get (key entity) = some row ∧
      row.operationIds = entity.operationIds := by
  obtain ⟨rfl, batch, hbatch, now, -, rfl⟩ := hlicit
  obtain ⟨htenant, row, hrow, hids⟩ := h.stored batch hbatch
  exact ⟨htenant, row, hrow, hids⟩

/-- A licit save tells whether an open child has been found. -/
theorem BatchWatch.Told.running_iff (h : m.Told w) {tenantId : String} {entity : LifecycleBatch}
    (hlicit : batchWatcher.licit m (.save tenantId entity)) :
    entity.status = .running ↔ ∃ child ∈ m.seen, outcome child = none := by
  obtain ⟨-, batch, -, now, hlength, rfl⟩ := hlicit
  exact (summarizes_refreshed hlength h.typed).running_iff

/-- **What a licit save stores is faithful**, if it says that the batch has ended. -/
theorem BatchWatch.Told.faithfulTo_of_licit (h : m.Told w) {tenantId : String}
    {entity : LifecycleBatch} (hlicit : batchWatcher.licit m (.save tenantId entity))
    (hclosed : entity.status ≠ .running) : entity.FaithfulTo w.operations := by
  rw [ne_eq, h.running_iff hlicit] at hclosed
  push Not at hclosed
  obtain ⟨-, batch, hbatch, now, hlength, rfl⟩ := hlicit
  exact h.faithfulTo hbatch hlength hclosed

theorem LifecycleBatch.Ended.ne_running {batch : LifecycleBatch} (h : batch.Ended) :
    batch.status ≠ .running := by
  intro hrunning
  rw [LifecycleBatch.Ended, hrunning] at h
  simp at h

omit [DecidableEq τ] in
/-- **A licit call keeps what is known.** -/
theorem Told.effect (h : Told ms w) (hlicit : batchWatcher.licit (ms t) c)
    (heffect : c.effect x w = .ok (b, w')) :
    Told ms w' ∧ (batchWatcher.next (ms t) c (.ok b)).Told w' := by
  cases c with
  | getBatch tenantId resourceId =>
    obtain ⟨batch, hget, hb⟩ := map_eq_ok.1 heffect
    cases hb
    refine ⟨h, ?_⟩
    cases b with
    | none => exact h.told t
    | some batch =>
      obtain ⟨row, hrow, hvalid⟩ := Repository.get_eq_some hget
      obtain rfl : batch = row := LifecycleBatch.eq_of_validate_eq_ok hvalid
      have hkey : key batch = (tenantId, resourceId) := Table.key_of_get hrow
      constructor
      case stored =>
        intro batch' hbatch'
        cases hbatch'
        exact ⟨congrArg Prod.fst hkey, batch, by rw [hkey]; exact hrow, rfl⟩
      case typed =>
        intro child hmem
        cases hmem
      case stands =>
        intro batch' _ i operationId child status _ hchild
        change ([] : List (Option LifecycleOperation))[i]? = some child at hchild
        cases hchild
  | getByIdempotencyKey tenantId idempotencyKey =>
    unfold BatchCall.effect at heffect
    dsimp only at heffect
    split at heffect
    · cases heffect
      exact ⟨h, h.told t⟩
    · obtain ⟨batch, -, hb⟩ := map_eq_ok.1 heffect
      cases hb
      exact ⟨h, h.told t⟩
  | getOperation tenantId resourceId =>
    obtain ⟨child, hget, hb⟩ := map_eq_ok.1 heffect
    cases hb
    exact ⟨h, (h.told t).read hlicit hget⟩
  | newId =>
    cases heffect
    exact ⟨h, h.told t⟩
  | now =>
    cases heffect
    exact ⟨h, h.told t⟩
  | add tenantId entity =>
    obtain ⟨T, hadd, hb⟩ := map_eq_ok.1 heffect
    cases hb
    have hadd' := Repository.add_eq_ok hadd
    have hnone := (Table.add_eq_some hadd').1
    have hkept : ∀ k row, w.batches.get k = some row →
        ∃ row', T.get k = some row' ∧ row'.operationIds = row.operationIds := by
      intro k row hrow
      have hne : k ≠ key entity := by
        rintro rfl
        rw [hnone] at hrow
        cases hrow
      exact ⟨row, by rw [Table.get_of_add hadd', if_neg hne, hrow], rfl⟩
    refine ⟨⟨fun k batch hbatch hended => ?_, fun u => (h.told u).written hkept⟩,
      (h.told t).written hkept⟩
    change T.get k = some batch at hbatch
    rw [Table.get_of_add hadd'] at hbatch
    split at hbatch
    · cases hbatch
      have hpending : entity.status = .pending := hlicit
      rw [LifecycleBatch.Ended, hpending] at hended
      simp at hended
    · exact h.faithful k batch hbatch hended
  | save tenantId entity =>
    obtain ⟨T, hsave, hb⟩ := map_eq_ok.1 heffect
    cases hb
    obtain ⟨-, -, rfl⟩ := Repository.save_eq_ok hsave
    obtain ⟨-, row, hrow, hids⟩ := (h.told t).exists_row hlicit
    have hget : ∀ k, (w.batches.replace entity).get k =
        if k = key entity then some entity else w.batches.get k := Table.get_replace hrow
    have hkept : ∀ k row, w.batches.get k = some row →
        ∃ row', (w.batches.replace entity).get k = some row' ∧
          row'.operationIds = row.operationIds := by
      intro k row' hrow'
      by_cases hk : k = key entity
      · subst hk
        rw [hrow] at hrow'
        cases hrow'
        exact ⟨entity, by rw [hget, if_pos rfl], hids.symm⟩
      · exact ⟨row', by rw [hget, if_neg hk, hrow'], rfl⟩
    refine ⟨⟨fun k batch hbatch hended => ?_, fun u => (h.told u).written hkept⟩,
      (h.told t).written hkept⟩
    change (w.batches.replace entity).get k = some batch at hbatch
    rw [hget] at hbatch
    split at hbatch
    · cases hbatch
      exact (h.told t).faithfulTo_of_licit hlicit hended.ne_running
    · exact h.faithful k batch hbatch hended

theorem Told.exec (h : Told ms w) (hlicit : batchWatcher.licit (ms t) c)
    (hx : Absorbing w.operations x.operations) :
    Told (Function.update ms t (batchWatcher.next (ms t) c (execBatch c x w).1))
      (execBatch c x w).2 := by
  have hmoment := h.absorb hx
  unfold execBatch
  obtain ⟨e, he⟩ | ⟨b, w', heffect, he | ⟨e, he⟩⟩ := execFaulty_cases BatchCall.external
    Moment.faults BatchCall.effect c x { w with operations := x.operations }
  · rw [he, next_error, Function.update_eq_self]
    exact hmoment
  · obtain ⟨hall, hnext⟩ := hmoment.effect hlicit heffect
    rw [he]
    exact hall.update hnext
  · obtain ⟨hall, -⟩ := hmoment.effect hlicit heffect
    rw [he, next_error, Function.update_eq_self]
    exact hall

end Step

/-! ## Runs -/

inductive BatchRequest where
  | create (context : AuthorizationContext) (knowledgeBaseId : String)
      (kind : LifecycleOperationKind) (operationIds : List String) (idempotencyKey : String)
      (concurrency : Option ℤ)
  | refresh (context : AuthorizationContext) (batchId : String)

def BatchRequest.program (maxConcurrency : ℤ) :
    BatchRequest → Prog BatchCall Error LifecycleBatch
  | .create context knowledgeBaseId kind operationIds idempotencyKey concurrency =>
    LifecycleBatchService.create maxConcurrency context knowledgeBaseId kind operationIds
      idempotencyKey concurrency
  | .refresh context batchId => LifecycleBatchService.refresh context batchId

section Runs

variable {τ : Type} [DecidableEq τ]

/-- Any number of requests. -/
def batchRuns (maxConcurrency : ℤ) (requests : τ → BatchRequest) (w : BatchStore) :
    Config BatchCall Error LifecycleBatch BatchStore τ :=
  ⟨w, fun t => (requests t).program maxConcurrency⟩

/-- The operations are worked on, and those that are over stay as they are. -/
def WorksOn (cfg : Config BatchCall Error LifecycleBatch BatchStore τ) (_ : τ) (x : Moment) :
    Prop :=
  Absorbing cfg.state.operations x.operations

/-- The step keeps the status of every batch that has ended. -/
def StaysEnded (cfg : Config BatchCall Error LifecycleBatch BatchStore τ) (t : τ) (x : Moment) :
    Prop :=
  ∀ k batch, cfg.state.batches.get k = some batch → batch.Ended →
    ∃ batch', (cfg.step execBatch t x).state.batches.get k = some batch' ∧
      batch'.status = batch.status

/-- A refresh that has met a child while it was missing or not over saves its batch although the
batch has ended by now. -/
def SavesLate (ms : τ → BatchWatch) (cfg : Config BatchCall Error LifecycleBatch BatchStore τ)
    (t : τ) (x : Moment) : Prop :=
  ∃ tenantId entity k, cfg.threads t = .call (.save tenantId entity) k ∧
    x.faults.fault = none ∧ (∃ child ∈ (ms t).seen, outcome child = none) ∧
    ∃ batch, cfg.state.batches.get (key entity) = some batch ∧ batch.Ended

/-- What a refresh saves is a summary of the children it has read. -/
def SavesSummary (ms : τ → BatchWatch)
    (cfg : Config BatchCall Error LifecycleBatch BatchStore τ) (t : τ) (_ : Moment) : Prop :=
  ∀ tenantId entity k, cfg.threads t = .call (.save tenantId entity) k →
    ∃ batch ∈ (ms t).loaded, (ms t).seen.length = batch.operationIds.ids.length ∧
      entity.operationIds = batch.operationIds ∧ Summarizes (ms t).seen entity

/-- What the threads have read, after one more step. -/
def recordRead (ms : τ → BatchWatch) (cfg : Config BatchCall Error LifecycleBatch BatchStore τ)
    (t : τ) (x : Moment) : τ → BatchWatch :=
  batchWatcher.watch execBatch cfg ms t x

variable {cfg : Config BatchCall Error LifecycleBatch BatchStore τ} {ms : τ → BatchWatch} {t : τ}
  {x : Moment}

/-- Every thread keeps to the rules of the watcher, and what has been read is true. -/
abbrev Watching (ms : τ → BatchWatch)
    (cfg : Config BatchCall Error LifecycleBatch BatchStore τ) : Prop :=
  batchWatcher.WatchedPast (fun _ _ _ => True) (fun _ _ _ => True) id Told ms cfg

theorem Watching.step (h : Watching ms cfg) (hx : WorksOn cfg t x) :
    Watching (recordRead ms cfg t x) (cfg.step execBatch t x) := by
  refine Monitor.WatchedPast.step h (fun hfinished => Monitor.watch_finished hfinished) rfl ?_
  intro β c k ht hlicit
  unfold recordRead
  rw [Monitor.watch_call ht]
  exact h.inv.exec hlicit hx

omit [DecidableEq τ] in
/-- The call a thread waits on is licit. -/
theorem Watching.licit (h : Watching ms cfg) {β : Type} {c : BatchCall β}
    {k : Except Error β → Prog BatchCall Error LifecycleBatch} (ht : cfg.threads t = .call c k) :
    batchWatcher.licit (ms t) c := by
  have hconforms := h.conforms t
  rw [ht] at hconforms
  exact hconforms.1

omit [DecidableEq τ] in
theorem Watching.savesSummary (h : Watching ms cfg) : SavesSummary ms cfg t x := by
  intro tenantId entity k ht
  obtain ⟨-, batch, hbatch, now, hlength, rfl⟩ := h.licit ht
  exact ⟨batch, hbatch, hlength, rfl, summarizes_refreshed hlength (h.inv.told t).typed⟩

/-- What a licit save leaves. -/
theorem batches_execBatch_save {w : BatchStore} {m : BatchWatch} (h : m.Told w)
    {tenantId : String} {entity : LifecycleBatch}
    (hlicit : batchWatcher.licit m (.save tenantId entity)) :
    (execBatch (.save tenantId entity) x w).2.batches =
      if x.faults.fault = none then w.batches.replace entity else w.batches := by
  obtain ⟨htenant, row, hrow, -⟩ := h.exists_row hlicit
  have heffect : (BatchCall.save tenantId entity).effect x { w with operations := x.operations } =
      .ok ((), { operations := x.operations, batches := w.batches.replace entity }) := by
    change (Repository.save w.batches tenantId entity).map _ = _
    unfold Repository.save
    rw [if_neg (not_not.2 htenant), hrow]
    rfl
  split
  · rename_i hfault
    unfold execBatch
    rw [execFaulty_snd hfault heffect]
  · rename_i hfault
    obtain ⟨e, he⟩ := Option.ne_none_iff_exists'.1 hfault
    unfold execBatch
    rw [execFaulty_of_fault rfl he]

/-- A call whose effect keeps every row keeps every row. -/
theorem get_execBatch {w : BatchStore} {β : Type} {c : BatchCall β}
    (heffect : ∀ b w', c.effect x { w with operations := x.operations } = .ok (b, w') →
      ∀ k row, w.batches.get k = some row → w'.batches.get k = some row) {k : String × String}
    {row : LifecycleBatch} (hrow : w.batches.get k = some row) :
    (execBatch c x w).2.batches.get k = some row := by
  unfold execBatch
  obtain ⟨e, he⟩ | ⟨b, w', hb, he | ⟨e, he⟩⟩ := execFaulty_cases BatchCall.external
    Moment.faults BatchCall.effect c x { w with operations := x.operations }
  · rw [he]
    exact hrow
  · rw [he]
    exact heffect b w' hb k row hrow
  · rw [he]
    exact heffect b w' hb k row hrow

/-- **Only a save writes over a row.** -/
theorem get_execBatch_of_ne_save {w : BatchStore} {β : Type} {c : BatchCall β}
    (hc : ∀ tenantId entity, (⟨β, c⟩ : Σ β, BatchCall β) ≠ ⟨Unit, .save tenantId entity⟩)
    {k : String × String} {row : LifecycleBatch} (hrow : w.batches.get k = some row) :
    (execBatch c x w).2.batches.get k = some row := by
  refine get_execBatch (fun b w' heffect k row hrow => ?_) hrow
  cases c with
  | save tenantId entity => exact absurd rfl (hc tenantId entity)
  | newId =>
    cases heffect
    exact hrow
  | now =>
    cases heffect
    exact hrow
  | getByIdempotencyKey tenantId idempotencyKey =>
    unfold BatchCall.effect at heffect
    dsimp only at heffect
    split at heffect
    · cases heffect
      exact hrow
    · obtain ⟨batch, -, hb⟩ := map_eq_ok.1 heffect
      cases hb
      exact hrow
  | add tenantId entity =>
    obtain ⟨T, hadd, hb⟩ := map_eq_ok.1 heffect
    cases hb
    have hadd' := Repository.add_eq_ok hadd
    have hne : k ≠ key entity := by
      rintro rfl
      rw [(Table.add_eq_some hadd').1] at hrow
      cases hrow
    change T.get k = some row
    rw [Table.get_of_add hadd', if_neg hne]
    exact hrow
  | _ =>
    obtain ⟨b', -, hb⟩ := map_eq_ok.1 heffect
    cases hb
    exact hrow

/-- A thread is about to save, or its step keeps every row. -/
theorem exists_save_or_keeps (cfg : Config BatchCall Error LifecycleBatch BatchStore τ) (t : τ)
    (x : Moment) :
    (∃ tenantId entity k, cfg.threads t = .call (.save tenantId entity) k) ∨
      ((∀ tenantId entity k, cfg.threads t ≠ .call (.save tenantId entity) k) ∧
        ∀ k row, cfg.state.batches.get k = some row →
          (cfg.step execBatch t x).state.batches.get k = some row) := by
  by_cases hsave : ∃ tenantId entity k, cfg.threads t = .call (.save tenantId entity) k
  · exact .inl hsave
  · push Not at hsave
    refine .inr ⟨hsave, fun k row hrow => ?_⟩
    cases ht : cfg.threads t with
    | ret a => rwa [Config.step_finished (by rw [ht]; rfl)]
    | raise e => rwa [Config.step_finished (by rw [ht]; rfl)]
    | call c next =>
      rw [Config.step_call ht]
      refine get_execBatch_of_ne_save (fun tenantId entity hc => ?_) hrow
      cases hc
      exact hsave tenantId entity next ht

/-- **One step**: statuses stay exactly when no refresh saves late. -/
theorem staysEnded_iff (h : Watching ms cfg) :
    StaysEnded cfg t x ↔ ¬ SavesLate ms cfg t x := by
  obtain ⟨tenantId, entity, next, ht⟩ | ⟨hsave, hkeeps⟩ := exists_save_or_keeps cfg t x
  swap
  · refine iff_of_true (fun k row hrow _ => ⟨row, hkeeps k row hrow, rfl⟩) ?_
    rintro ⟨tenantId, entity, k, ht, -⟩
    exact hsave tenantId entity k ht
  have hlicit := h.licit ht
  have htold := h.inv.told t
  obtain ⟨-, row, hrow, hids⟩ := htold.exists_row hlicit
  have hafter := batches_execBatch_save (x := x) htold hlicit
  have hget : ∀ k, (cfg.state.batches.replace entity).get k =
      if k = key entity then some entity else cfg.state.batches.get k := Table.get_replace hrow
  constructor
  · rintro hstays ⟨tenantId', entity', next', ht', hfault, hopen, row', hrow', hended⟩
    rw [ht] at ht'
    cases ht'
    obtain ⟨stored, hstored, hstatus⟩ := hstays _ row' hrow' hended
    rw [Config.step_call ht] at hstored
    change (execBatch _ x cfg.state).2.batches.get _ = _ at hstored
    rw [hafter, if_pos hfault, hget, if_pos rfl] at hstored
    cases hstored
    rw [(htold.running_iff hlicit).2 hopen] at hstatus
    exact hended.ne_running hstatus.symm
  · intro hlate k row' hrow' hended
    rw [Config.step_call ht]
    change ∃ batch', (execBatch _ x cfg.state).2.batches.get _ = _ ∧ _
    rw [hafter]
    split
    · rename_i hfault
      rw [hget]
      split
      · rename_i hk
        subst hk
        rw [hrow] at hrow'
        cases hrow'
        refine ⟨entity, rfl, ?_⟩
        -- no open child has been found, so both say what the children say
        have hclosed : entity.status ≠ .running := fun hrunning => hlate
          ⟨tenantId, entity, next, ht, hfault, (htold.running_iff hlicit).1 hrunning, row, hrow,
            hended⟩
        have hkey : key row = key entity := Table.key_of_get hrow
        exact (htold.faithfulTo_of_licit hlicit hclosed).status_eq
          (h.inv.faithful _ row hrow hended) (congrArg Prod.fst hkey).symm hids.symm
      · exact ⟨row', hrow', rfl⟩
    · exact ⟨row', hrow', rfl⟩

omit [DecidableEq τ] in
theorem watching_batchRuns (maxConcurrency : ℤ) (requests : τ → BatchRequest) {w : BatchStore}
    (hw : Faithful w) : Watching (fun _ => {}) (batchRuns maxConcurrency requests w) where
  inv := ⟨hw, fun _ => BatchWatch.told_init w⟩
  conforms t := by
    change batchWatcher.Conforms ((requests t).program maxConcurrency) _ _ {}
    cases requests t with
    | create context knowledgeBaseId kind operationIds idempotencyKey concurrency =>
      exact conforms_create maxConcurrency context knowledgeBaseId kind operationIds
        idempotencyKey concurrency rfl
    | refresh context batchId => exact conforms_refresh context batchId {}

/-- **In every run, what a refresh saves is a summary of the children it has read, and the status
of a batch that has ended stays exactly when no refresh saves late.** -/
theorem respects_staysEnded_iff (maxConcurrency : ℤ) (requests : τ → BatchRequest)
    {w : BatchStore} (hw : Faithful w) {l : List (τ × Moment)}
    (hl : (batchRuns maxConcurrency requests w).Respects execBatch WorksOn l) :
    (batchRuns maxConcurrency requests w).RespectsPast execBatch recordRead SavesSummary
        (fun _ => {}) l ∧
      ((batchRuns maxConcurrency requests w).Respects execBatch StaysEnded l ↔
        (batchRuns maxConcurrency requests w).RespectsPast execBatch recordRead
          (fun ms cfg t x => ¬ SavesLate ms cfg t x) (fun _ => {}) l) := by
  have hinit := watching_batchRuns maxConcurrency requests hw
  refine ⟨hl.respectsPast.of_invariant (P := Watching) (fun _ _ _ _ h hx => h.step hx)
    (fun _ _ _ _ h _ => h.savesSummary) hinit, fun hstays => ?_, fun hlate => ?_⟩
  · exact (hl.respectsPast.and_respects hstays).of_invariant (P := Watching)
      (fun _ _ _ _ h hx => h.step hx.1) (fun _ _ _ _ h hx => (staysEnded_iff h).1 hx.2) hinit
  · exact ((hlate.and_respects hl).of_invariant (P := Watching)
      (fun _ _ _ _ h hx => h.step hx.2) (fun _ _ _ _ h hx => (staysEnded_iff h).2 hx.1)
      hinit).respects

/-- **The status of a batch.**  A refresh that can read everything stores a summary of the
children.  However creations and refreshes overlap while the others work on the operations,
everything that is saved is a summary of what was read, and a batch that has ended keeps its
status exactly when no refresh that has met an open child saves after that. -/
theorem batch_status (maxConcurrency : ℤ) (requests : τ → BatchRequest) (w : BatchStore)
    (l : List (τ × Moment)) (hw : Faithful w)
    (hl : (batchRuns maxConcurrency requests w).Respects execBatch WorksOn l) :
    (∀ (v : BatchStore) (context : AuthorizationContext) (batchId : String)
        (batch : LifecycleBatch) (x : ℕ → Moment) (children : List (Option LifecycleOperation)),
      (∀ n, (x n).faults = {}) →
      Repository.get v.batches context.tenantId batchId = .ok (some batch) →
      batch.requestedBy = context.actorId →
      readChildren context.tenantId batch.operationIds.ids (fun n => x (n + 1)) = .ok children →
      ∃ refreshed v',
        (LifecycleBatchService.refresh context batchId).runAlone execBatch x v =
          (.ok refreshed, v') ∧
        v'.batches.get (context.tenantId, batchId) = some refreshed ∧
        Summarizes children refreshed) ∧
      (batchRuns maxConcurrency requests w).RespectsPast execBatch recordRead SavesSummary
        (fun _ => {}) l ∧
      ((batchRuns maxConcurrency requests w).Respects execBatch StaysEnded l ↔
        (batchRuns maxConcurrency requests w).RespectsPast execBatch recordRead
          (fun ms cfg t x => ¬ SavesLate ms cfg t x) (fun _ => {}) l) :=
  ⟨fun _ _ _ _ _ _ hx hbatch howner hchildren => runAlone_refresh hx hbatch howner hchildren,
    respects_staysEnded_iff maxConcurrency requests hw hl⟩

end Runs

/-! ## A refresh that comes late -/

/-- Where no batch has ended, there is nothing to be faithful to. -/
theorem faithful_of_open {w : BatchStore} (h : ∀ row ∈ w.batches.rows, ¬ row.Ended) :
    Faithful w :=
  fun _ batch hbatch hended => absurd hended (h batch (Table.mem_of_get hbatch))

instance (T : Table LifecycleOperation) (k : String × String)
    (status : LifecycleOperationStatus) : Decidable (Stands T k status) :=
  decidable_of_iff ((T.get k).any fun row =>
      match row.status.validate with
      | .ok v => decide (v = .member status)
      | .error _ => false) <| by
    rw [Option.any_eq_true]
    refine exists_congr fun row => and_congr_right fun _ => ?_
    cases row.status.validate <;> simp

instance (T T' : Table LifecycleOperation) : Decidable (Absorbing T T') :=
  decidable_of_iff (∀ row ∈ T.rows, ∀ status ∈ terminalLifecycleStatuses,
      Stands T (key row) status → Stands T' (key row) status) <| by
    constructor
    · intro h k status hstatus hstands
      obtain ⟨row, hrow, -⟩ := id hstands
      have hkey : key row = k := Table.key_of_get hrow
      subst hkey
      exact h row (Table.mem_of_get hrow) status hstatus hstands
    · exact fun h row _ status hstatus hstands => h _ status hstatus hstands

namespace BatchSample

def context : AuthorizationContext where
  tenantId := "t"
  actorId := "a"
  requestId := "r"

def operation (status : LifecycleOperationStatus) : LifecycleOperation where
  id := "o"
  tenantId := "t"
  knowledgeBaseId := "k"
  documentId := "d"
  versionId := "v"
  kind := .reparse
  idempotencyKey := "i"
  actorId := "a"
  reason := "batch"
  requestId := "r"
  status := .member status
  expectedDocumentRevision := 0
  fencingToken := 1
  createdAt := 0
  updatedAt := 0

def batch : LifecycleBatch where
  id := "b"
  tenantId := "t"
  knowledgeBaseId := "k"
  kind := .reparse
  requestedBy := "a"
  idempotencyKey := "i"
  operationIds := ⟨["o"], by decide, by decide, by decide⟩
  createdAt := 0
  updatedAt := 0

def operations (status : LifecycleOperationStatus) : Table LifecycleOperation :=
  ⟨[operation status], by simp⟩

/-- A batch with one operation, which is under way. -/
def store : BatchStore where
  operations := operations .running
  batches := ⟨[batch], by simp⟩

/-- Two refreshes. -/
def refreshes (_ : Bool) : BatchRequest := .refresh context "b"

/-- One refresh meets the operation under way.  The operation succeeds, and the other refresh runs
from its start to its end. -/
def refreshedMeanwhile : List (Bool × Moment) :=
  List.replicate 2 (false, { operations := operations .running }) ++
    List.replicate 4 (true, { operations := operations .succeeded })

/-- Then the first refresh reads the clock and saves. -/
def lateRefresh : List (Bool × Moment) :=
  refreshedMeanwhile ++ List.replicate 2 (false, { operations := operations .succeeded })

def runs : Config BatchCall Error LifecycleBatch BatchStore Bool := batchRuns 3 refreshes store

theorem faithful_store : Faithful store :=
  faithful_of_open (by decide)

theorem worksOn_lateRefresh : runs.Respects execBatch WorksOn lateRefresh := by
  unfold WorksOn
  decide +kernel

theorem statuses_lateRefresh :
    ((runs.run execBatch refreshedMeanwhile).state.batches.get ("t", "b")).map
        LifecycleBatch.status = some .succeeded ∧
      ((runs.run execBatch lateRefresh).state.batches.get ("t", "b")).map
        LifecycleBatch.status = some .running := by
  decide +kernel

theorem not_staysEnded_lateRefresh : ¬ runs.Respects execBatch StaysEnded lateRefresh := by
  intro h
  rw [lateRefresh, Config.respects_append] at h
  obtain ⟨hbefore, hafter⟩ := statuses_lateRefresh
  obtain ⟨row, hrow, hstatus⟩ := Option.map_eq_some_iff.1 hbefore
  have hended : row.Ended := by
    rw [LifecycleBatch.Ended, hstatus]
    decide
  -- the clock changes nothing, and the save takes the status back
  obtain ⟨row₁, hrow₁, hstatus₁⟩ := h.2.1 _ row hrow hended
  have hended₁ : row₁.Ended := by
    rw [LifecycleBatch.Ended, hstatus₁]
    exact hended
  obtain ⟨row₂, hrow₂, hstatus₂⟩ := h.2.2.1 _ row₁ hrow₁ hended₁
  rw [lateRefresh, Config.run_append] at hafter
  change Option.map _ ((((runs.run execBatch refreshedMeanwhile).step execBatch false _).step
    execBatch false _).state.batches.get _) = _ at hafter
  rw [hrow₂, Option.map_some, hstatus₂, hstatus₁, hstatus] at hafter
  cases hafter

/-- **A refresh that comes late takes a status back**, although operations that are over stay as
they are. -/
theorem not_batch_status :
    ¬ ∀ (requests : Bool → BatchRequest) (w : BatchStore) (l : List (Bool × Moment)),
      Faithful w → (batchRuns 3 requests w).Respects execBatch WorksOn l →
      (batchRuns 3 requests w).Respects execBatch StaysEnded l :=
  fun h => not_staysEnded_lateRefresh
    (h refreshes store lateRefresh faithful_store worksOn_lateRefresh)

/-- In that run a refresh saves late, and what it saves is still a summary of what it has read. -/
theorem batch_status_lateRefresh :
    runs.RespectsPast execBatch recordRead SavesSummary (fun _ => {}) lateRefresh ∧
      ¬ runs.RespectsPast execBatch recordRead (fun ms cfg t x => ¬ SavesLate ms cfg t x)
        (fun _ => {}) lateRefresh := by
  obtain ⟨-, hsummary, hstays⟩ := batch_status 3 refreshes store lateRefresh faithful_store
    worksOn_lateRefresh
  exact ⟨hsummary, fun hlate => not_staysEnded_lateRefresh (hstays.2 hlate)⟩

end BatchSample

end Knowledge
end RagflowAgent
