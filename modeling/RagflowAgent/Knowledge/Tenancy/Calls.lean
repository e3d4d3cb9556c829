import RagflowAgent.Interleaving.Unwinding
import RagflowAgent.Knowledge.Tenancy.Chunks

/-!
# The calls of a tenant

`World.ofTenant` leaves of a world what belongs to one tenant.  A call is *of* a tenant when it
names this tenant wherever it names one (`Action.OfTenant`).

* `Query.answer_ofTenant`: a query of a tenant is answered from what belongs to the tenant;
* `Call.affects_effect`: a call of a tenant acts on what belongs to the tenant;
* `unwinding_exec` puts this together for the theorem about runs.
-/

namespace RagflowAgent
namespace Knowledge

open Interleaving Keyed

/-! ## The world of a tenant -/

/-- What belongs to a tenant.  The clock belongs to nobody. -/
def World.ofTenant (tenantId : String) (w : World) : World where
  store := w.store.ofTenant tenantId
  index := w.index.ofTenant tenantId
  objects := w.objects.filter fun objectKey => OwnsObject tenantId objectKey

/-- Names are plain in the index, and versions have object keys of their tenants. -/
structure World.WellNamed (w : World) : Prop where
  chunks : w.index.Plain
  versions : ∀ version ∈ (w.store.table .documentVersions).rows,
    Knowledge.WellNamed .documentVersions version

namespace World

variable {tenantId : String} {w : World}

theorem ofTenant_ofTenant : (w.ofTenant tenantId).ofTenant tenantId = w.ofTenant tenantId := by
  simp only [ofTenant, Store.ofTenant_ofTenant, SearchIndex.ofTenant_ofTenant,
    List.filter_filter, Bool.and_self]

theorem WellNamed.ofTenant (h : w.WellNamed) : (w.ofTenant tenantId).WellNamed where
  chunks := h.chunks.ofTenant
  versions version hversion := h.versions version (Table.mem_restrict.1 hversion).1

end World

/-! ## Queries -/

namespace Query

/-- A query that names the tenant. -/
def OfTenant (tenantId : String) {β : Type} : Query β → Prop
  | get _ tenantId' _ => tenantId' = tenantId
  | getByIdempotencyKey tenantId' _ => tenantId' = tenantId
  | listVersionsForDocument tenantId' _ => tenantId' = tenantId
  | listVersionsForTenant tenantId' _ => tenantId' = tenantId
  | listOperationsForDocument tenantId' _ => tenantId' = tenantId
  | listOperationsByStatus tenantId' _ _ _ => tenantId' = tenantId
  | listDocumentsByStatus tenantId' _ _ => tenantId' = tenantId
  | listTasksForJob tenantId' _ => tenantId' = tenantId
  | listDue tenantId' _ _ => tenantId' = tenantId
  | validateDocumentVersion scope => scope.tenantId = tenantId
  | listProjectionVersions tenantId' _ => tenantId' = tenantId
  | objectExists objectKey => OwnsObject tenantId objectKey
  | listPrefix keyPrefix => keyPrefix = tenantPrefix tenantId

variable {tenantId : String} {w : World} {β : Type}

theorem filter_rows_ofTenant (r : Resource) {p : r.Row → Bool}
    (hp : ∀ row, p row = true → (key row).1 = tenantId) :
    ((w.ofTenant tenantId).store.table r).rows.filter p = (w.store.table r).rows.filter p :=
  Table.filter_restrict fun row hrow => decide_eq_true (hp row hrow)

/-- **A query of a tenant is answered from what belongs to the tenant.** -/
theorem answer_ofTenant {q : Query β} (hq : q.OfTenant tenantId) :
    q.answer (w.ofTenant tenantId) = q.answer w := by
  cases q with
  | get r tenantId' resourceId =>
    obtain rfl : tenantId' = tenantId := hq
    exact Repository.get_ofTenant
  | getByIdempotencyKey tenantId' idempotencyKey =>
    obtain rfl : tenantId' = tenantId := hq
    have hfind : ((w.ofTenant tenantId').store.table .lifecycleOperations).rows.find?
        (fun row => decide (row.tenantId = tenantId' ∧ row.idempotencyKey = idempotencyKey)) =
          (w.store.table .lifecycleOperations).rows.find?
            fun row => decide (row.tenantId = tenantId' ∧ row.idempotencyKey = idempotencyKey) :=
      Table.find?_restrict fun row hrow => decide_eq_true (of_decide_eq_true hrow).1
    simp only [answer, hfind]
  | listVersionsForDocument tenantId' documentId =>
    obtain rfl : tenantId' = tenantId := hq
    refine congrArg (fun rows => Repository.decode (orderBy DocumentVersion.id rows))
      (filter_rows_ofTenant .documentVersions fun row hrow => ?_)
    exact (of_decide_eq_true hrow).1
  | listVersionsForTenant tenantId' limit =>
    obtain rfl : tenantId' = tenantId := hq
    refine congrArg (fun rows =>
        Repository.decode (List.take limit (orderBy DocumentVersion.id rows)))
      (filter_rows_ofTenant .documentVersions fun row hrow => ?_)
    exact of_decide_eq_true hrow
  | listOperationsForDocument tenantId' documentId =>
    obtain rfl : tenantId' = tenantId := hq
    refine congrArg (fun rows => Repository.decode (orderBy LifecycleOperation.updatedAt rows))
      (filter_rows_ofTenant .lifecycleOperations fun row hrow => ?_)
    exact (of_decide_eq_true hrow).1
  | listOperationsByStatus tenantId' statuses updatedBefore limit =>
    obtain rfl : tenantId' = tenantId := hq
    refine congrArg (fun rows =>
        Repository.decode (List.take limit (orderBy LifecycleOperation.updatedAt rows)))
      (filter_rows_ofTenant .lifecycleOperations fun row hrow => ?_)
    exact (of_decide_eq_true hrow).1
  | listDocumentsByStatus tenantId' statuses limit =>
    obtain rfl : tenantId' = tenantId := hq
    refine congrArg (fun rows => Repository.decode (List.take limit (orderBy Document.id rows)))
      (filter_rows_ofTenant .documents fun row hrow => ?_)
    exact (of_decide_eq_true hrow).1
  | listTasksForJob tenantId' jobId =>
    obtain rfl : tenantId' = tenantId := hq
    refine congrArg (fun rows => Repository.decode (orderBy IngestionTask.id rows))
      (filter_rows_ofTenant .ingestionTasks fun row hrow => ?_)
    exact (of_decide_eq_true hrow).1
  | listDue tenantId' now limit =>
    obtain rfl : tenantId' = tenantId := hq
    refine congrArg (fun rows =>
        Repository.decode (List.take limit (orderBy LifecycleOutboxEvent.availableAt rows)))
      (filter_rows_ofTenant .lifecycleOutbox fun row hrow => ?_)
    exact (of_decide_eq_true hrow).1
  | validateDocumentVersion scope =>
    obtain rfl : scope.tenantId = tenantId := hq
    exact congrArg (fun chunks => Except.ok (List.length chunks))
      (SearchIndex.filter_ofTenant fun chunk _ hchunk => (of_decide_eq_true hchunk).1.1)
  | listProjectionVersions tenantId' limit =>
    obtain rfl : tenantId' = tenantId := hq
    have hfilter : (w.index.ofTenant tenantId').chunks.filter
        (fun chunk => decide (chunk.tenantId = tenantId')) =
          w.index.chunks.filter fun chunk => decide (chunk.tenantId = tenantId') :=
      SearchIndex.filter_ofTenant fun chunk _ hchunk => of_decide_eq_true hchunk
    exact congrArg Except.ok (by
      simp only [World.ofTenant, SearchIndex.listProjectionVersions, hfilter])
  | objectExists objectKey =>
    have hmem : objectKey ∈ (w.ofTenant tenantId).objects ↔ objectKey ∈ w.objects := by
      rw [World.ofTenant, List.mem_filter]
      exact and_iff_left (decide_eq_true hq)
    exact congrArg Except.ok (decide_eq_decide.2 hmem)
  | listPrefix keyPrefix =>
    obtain rfl : keyPrefix = tenantPrefix tenantId := hq
    refine congrArg (fun objects => Except.ok (orderBy id objects)) ?_
    rw [World.ofTenant, List.filter_filter]
    refine List.filter_congr fun objectKey _ => ?_
    unfold OwnsObject
    simp

/-- What the answers of a query tell, in a world with proper names. -/
def Tells : Query β → β → Prop
  | get r tenantId resourceId, o => ∀ e ∈ o, key e = (tenantId, resourceId) ∧ WellNamed r e
  | listVersionsForDocument tenantId _, l =>
    ∀ e ∈ l, e.tenantId = tenantId ∧ OwnsObject e.tenantId e.objectKey
  | listTasksForJob tenantId _, l => ∀ e ∈ l, e.tenantId = tenantId
  | listPrefix keyPrefix, l =>
    ∀ objectKey ∈ l, keyPrefix.toList.isPrefixOf objectKey.toList = true
  | _, _ => True

/-- A version that is read off the store has a proper name. -/
theorem wellNamed_of_readFrom (hw : w.WellNamed) {version : DocumentVersion}
    (h : (Fact.stored .documentVersions version).ReadFrom w.store) :
    OwnsObject version.tenantId version.objectKey := by
  obtain ⟨row, hrow, hvalid⟩ := h
  obtain ⟨rfl, -⟩ := DocumentVersion.validate_eq_ok.1 hvalid
  exact hw.versions version hrow

theorem tells_of_answer {q : Query β} {b : β} (hw : w.WellNamed) (h : q.answer w = .ok b) :
    q.Tells b := by
  obtain ⟨hanswers, hfacts⟩ := answer_spec h
  cases q with
  | get r tenantId' resourceId =>
    intro e he
    refine ⟨(hanswers e he).1, ?_⟩
    cases r with
    | documentVersions =>
      refine wellNamed_of_readFrom hw (hfacts _ ?_)
      exact List.mem_flatMap.2 ⟨e, Option.mem_toList.2 he,
        stored_mem_ofRow (r := .documentVersions) e⟩
    | _ => trivial
  | listVersionsForDocument tenantId' documentId =>
    intro e he
    refine ⟨(hanswers e he).1, wellNamed_of_readFrom hw (hfacts _ ?_)⟩
    exact List.mem_flatMap.2 ⟨e, he, stored_mem_ofRow (r := .documentVersions) e⟩
  | listTasksForJob tenantId' jobId => exact fun e he => (hanswers e he).1
  | listPrefix keyPrefix =>
    cases h
    exact fun objectKey hmem => (mem_of_mem_orderBy hmem).2
  | _ => trivial

end Query

/-! ## Calls -/

/-- A change of an object of the tenant. -/
def ObjectChange.OfTenant (tenantId : String) : ObjectChange → Prop
  | put objectKey => OwnsObject tenantId objectKey
  | delete objectKey => OwnsObject tenantId objectKey

/-- A call that names the tenant. -/
def Action.OfTenant (tenantId : String) {β : Type} (a : Action β) : Prop :=
  match a.call with
  | .query q => q.OfTenant tenantId
  | .commit statements => ∀ s ∈ statements, s.OfTenant tenantId
  | .changeIndex change => change.OfTenant tenantId
  | .changeObjects change => change.OfTenant tenantId
  | _ => True

/-- What an answer tells, in a world with proper names. -/
def Action.Tells {β : Type} (a : Action β) : Except Error β → Prop
  | .ok b =>
    match a.call, b with
    | .query q, b => q.Tells b
    | _, _ => True
  | .error _ => True

namespace ObjectChange

variable {tenantId tenantId' : String} {objects : List String} {change : ObjectChange}

theorem apply_ofTenant (h : change.OfTenant tenantId) :
    change.apply (objects.filter fun objectKey => OwnsObject tenantId objectKey) =
      (change.apply objects).filter fun objectKey => OwnsObject tenantId objectKey := by
  cases change with
  | put objectKey =>
    have howns : OwnsObject tenantId objectKey := h
    by_cases hmem : objectKey ∈ objects
    · simp [apply, hmem, howns]
    · simp [apply, hmem, howns, List.filter_append]
  | delete objectKey => simp only [apply, List.filter_filter, Bool.and_comm]

theorem apply_of_ne (h : change.OfTenant tenantId') (hne : tenantId ≠ tenantId')
    (hplain : PlainName tenantId) (hplain' : PlainName tenantId') :
    ((change.apply objects).filter fun objectKey => OwnsObject tenantId objectKey) =
      objects.filter fun objectKey => OwnsObject tenantId objectKey := by
  have hother : ∀ {objectKey}, OwnsObject tenantId' objectKey → ¬ OwnsObject tenantId objectKey :=
    fun howns' howns => hne (howns.tenantId_eq howns' hplain hplain')
  cases change with
  | put objectKey =>
    by_cases hmem : objectKey ∈ objects
    · simp [apply, hmem]
    · simp [apply, hmem, List.filter_append, hother h]
  | delete objectKey =>
    simp only [apply, List.filter_filter]
    refine List.filter_congr fun objectKey' _ => ?_
    by_cases heq : objectKey' = objectKey
    · subst heq
      simp [hother h]
    · simp [heq]

end ObjectChange

/-- Committed versions have proper names when the statements write such. -/
theorem wellNamed_of_transact {tenantId : String} {st st' : Store} {l : List Stmt}
    (hst : ∀ version ∈ (st.table .documentVersions).rows, WellNamed .documentVersions version)
    (hl : ∀ s ∈ l, s.OfTenant tenantId) (h : st.transact l = .ok st') :
    ∀ version ∈ (st'.table .documentVersions).rows, WellNamed .documentVersions version := by
  intro version hversion
  have hrow : st'.row .documentVersions (key version) = some version :=
    Table.mem_rows_iff.1 hversion
  rw [row_of_transact h (by decide), Option.or_eq_some_iff] at hrow
  obtain hwritten | ⟨-, hstored⟩ := hrow
  · obtain ⟨-, s, hs, hwritten⟩ := exists_written_of_lastWritten hwritten
    have htenant := hl s hs
    cases s with
    | add _ r entity =>
      simp only [Stmt.written] at hwritten
      split at hwritten
      · rename_i hr
        subst hr
        cases hwritten
        exact htenant.2
      · cases hwritten
    | save _ r entity =>
      simp only [Stmt.written] at hwritten
      split at hwritten
      · rename_i hr
        subst hr
        cases hwritten
        exact htenant.2
      · cases hwritten
    | saveIfRevision _ entity _ => simp [Stmt.written] at hwritten
    | cancelPending _ _ _ => simp [Stmt.written] at hwritten
  · exact hst version (Table.mem_of_get hstored)

/-- What a call of a tenant does: it acts on what belongs to the tenant, nobody else sees it, and
it leaves proper names. -/
structure Affects (tenantId : String) {β : Type} (w : World)
    (effect : World → Except Error (β × World)) : Prop where
  own : (effect (w.ofTenant tenantId)).map (Prod.map id (World.ofTenant tenantId)) =
    (effect w).map (Prod.map id (World.ofTenant tenantId))
  others : ∀ tenantId' ≠ tenantId, PlainName tenantId' → ∀ b w', effect w = .ok (b, w') →
    w'.ofTenant tenantId' = w.ofTenant tenantId'
  wellNamed : ∀ b w', effect w = .ok (b, w') → w'.WellNamed

namespace Affects

variable {tenantId : String} {β : Type} {w : World}

/-- A call that changes nothing, or only the clock. -/
theorem of_same {b : β} {f : World → World} (hw : w.WellNamed)
    (hf : ∀ w, (f w).store = w.store ∧ (f w).index = w.index ∧ (f w).objects = w.objects) :
    Affects tenantId w fun w => .ok (b, f w) := by
  have hsame : ∀ tenantId w, (f w).ofTenant tenantId = w.ofTenant tenantId := by
    intro tenantId w
    obtain ⟨hstore, hindex, hobjects⟩ := hf w
    rw [World.ofTenant, World.ofTenant, hstore, hindex, hobjects]
  refine ⟨?_, fun tenantId' _ _ b' w' heq => ?_, fun b' w' heq => ?_⟩
  · simp only [Except.map, Prod.map, hsame, World.ofTenant_ofTenant]
  · cases heq
    exact hsame tenantId' w
  · cases heq
    obtain ⟨hstore, hindex, -⟩ := hf w
    exact ⟨by rw [hindex]; exact hw.chunks, by rw [hstore]; exact hw.versions⟩

end Affects

/-- **A call of a tenant acts on what belongs to the tenant.** -/
theorem Call.affects_effect {tenantId : String} {β : Type} {a : Action β} {x : Input} {w : World}
    (ha : a.OfTenant tenantId) (hname : PlainName tenantId) (hw : w.WellNamed) :
    Affects tenantId w fun w => a.call.effect x w := by
  obtain ⟨task, knows, call⟩ := a
  cases call with
  | query q =>
    have hanswer : q.answer (w.ofTenant tenantId) = q.answer w := Query.answer_ofTenant ha
    refine ⟨?_, fun tenantId' _ _ b w' heq => ?_, fun b w' heq => ?_⟩
    · simp only [effect, hanswer]
      cases q.answer w with
      | error e => rfl
      | ok b => simp only [Except.map, Prod.map, World.ofTenant_ofTenant]
    · obtain ⟨_, -, hb⟩ := map_eq_ok.1 heq
      cases hb
      rfl
    · obtain ⟨_, -, hb⟩ := map_eq_ok.1 heq
      cases hb
      exact hw
  | commit statements =>
    have hown : (w.ofTenant tenantId).store.transact statements =
        (w.store.transact statements).map (Store.ofTenant tenantId) := Store.transact_ofTenant ha
    refine ⟨?_, fun tenantId' hne _ b w' heq => ?_, fun b w' heq => ?_⟩
    · simp only [effect, hown]
      cases w.store.transact statements with
      | error e => rfl
      | ok store =>
        simp [Except.map, World.ofTenant, Store.ofTenant_ofTenant, SearchIndex.ofTenant_ofTenant]
    · obtain ⟨store, hstore, hb⟩ := map_eq_ok.1 heq
      cases hb
      simp only [World.ofTenant, Store.ofTenant_transact_of_ne ha hne hstore]
    · obtain ⟨store, hstore, hb⟩ := map_eq_ok.1 heq
      cases hb
      exact ⟨hw.chunks, wellNamed_of_transact hw.versions ha hstore⟩
  | changeIndex change =>
    have hacts := IndexChange.acts_apply ha hname hw.chunks
    have hown : change.apply (w.ofTenant tenantId).index =
        (change.apply w.index).map (SearchIndex.ofTenant tenantId) := hacts.own
    refine ⟨?_, fun tenantId' hne _ b w' heq => ?_, fun b w' heq => ?_⟩
    · simp only [effect, hown]
      cases change.apply w.index with
      | error e => rfl
      | ok index =>
        simp [Except.map, World.ofTenant, Store.ofTenant_ofTenant, SearchIndex.ofTenant_ofTenant]
    · obtain ⟨index, hindex, hb⟩ := map_eq_ok.1 heq
      cases hb
      simp only [World.ofTenant, hacts.others tenantId' hne index hindex]
    · obtain ⟨index, hindex, hb⟩ := map_eq_ok.1 heq
      cases hb
      exact ⟨hacts.plain index hindex, hw.versions⟩
  | changeObjects change =>
    refine ⟨?_, fun tenantId' hne hplain b w' heq => ?_, fun b w' heq => ?_⟩
    · simp [effect, Except.map, World.ofTenant, ObjectChange.apply_ofTenant ha,
        Store.ofTenant_ofTenant, SearchIndex.ofTenant_ofTenant]
    · cases heq
      simp only [World.ofTenant, ObjectChange.apply_of_ne ha hne hplain hname]
    · cases heq
      exact ⟨hw.chunks, hw.versions⟩
  | _ => exact .of_same hw fun _ => ⟨rfl, rfl, rfl⟩

/-! ## Single steps -/

section Exec

variable {tenantId : String} {β : Type} {a : Action β} {x : Input} {w : World}

/-- **A call of a tenant is answered from what belongs to the tenant, and acts on that.** -/
theorem exec_ofTenant (ha : a.OfTenant tenantId) (hname : PlainName tenantId) (hw : w.WellNamed) :
    (exec a x (w.ofTenant tenantId)).1 = (exec a x w).1 ∧
      (exec a x (w.ofTenant tenantId)).2.ofTenant tenantId =
        (exec a x w).2.ofTenant tenantId := by
  have hown := (Call.affects_effect (x := x) ha hname hw).own
  unfold exec
  split
  · exact ⟨rfl, World.ofTenant_ofTenant⟩
  cases heffect : a.call.effect x w with
  | error e =>
    cases heffect' : a.call.effect x (w.ofTenant tenantId) with
    | error e' =>
      simp only [heffect, heffect', Except.map, Except.error.injEq] at hown
      subst hown
      exact ⟨rfl, World.ofTenant_ofTenant⟩
    | ok r => simp [heffect, heffect', Except.map] at hown
  | ok r =>
    cases heffect' : a.call.effect x (w.ofTenant tenantId) with
    | error e => simp [heffect, heffect', Except.map] at hown
    | ok r' =>
      obtain ⟨b, w₁⟩ := r
      obtain ⟨b', w₁'⟩ := r'
      simp only [heffect, heffect', Except.map, Except.ok.injEq, Prod.map_apply, id_eq,
        Prod.mk.injEq] at hown
      obtain ⟨rfl, hview⟩ := hown
      dsimp only
      split
      · exact ⟨rfl, hview⟩
      · exact ⟨rfl, hview⟩

/-- What a step leaves: the world, or what the effect of the call leaves. -/
theorem exec_snd_eq_or (a : Action β) (x : Input) (w : World) :
    (exec a x w).2 = w ∨ ∃ b, a.call.effect x w = .ok (b, (exec a x w).2) := by
  obtain ⟨e, he⟩ | ⟨-, b, w', heffect, he | ⟨e, he⟩⟩ := exec_cases a x w
  · exact .inl (by rw [he])
  · exact .inr ⟨b, by rw [he, heffect]⟩
  · exact .inr ⟨b, by rw [he, heffect]⟩

/-- The calls of one tenant are not seen by another. -/
theorem ofTenant_exec_of_ne {tenantId' : String} (ha : a.OfTenant tenantId')
    (hname : PlainName tenantId') (hw : w.WellNamed) (hne : tenantId ≠ tenantId')
    (hplain : PlainName tenantId) : (exec a x w).2.ofTenant tenantId = w.ofTenant tenantId := by
  obtain hsame | ⟨b, heffect⟩ := exec_snd_eq_or a x w
  · rw [hsame]
  · exact (Call.affects_effect ha hname hw).others tenantId hne hplain b _ heffect

theorem wellNamed_exec (ha : a.OfTenant tenantId) (hname : PlainName tenantId)
    (hw : w.WellNamed) : (exec a x w).2.WellNamed := by
  obtain hsame | ⟨b, heffect⟩ := exec_snd_eq_or a x w
  · rwa [hsame]
  · exact (Call.affects_effect ha hname hw).wellNamed b _ heffect

theorem tells_exec (hw : w.WellNamed) : a.Tells (exec a x w).1 := by
  obtain ⟨e, he⟩ | ⟨-, b, w', heffect, he | ⟨e, he⟩⟩ := exec_cases a x w
  · rw [he]
    trivial
  · rw [he]
    obtain ⟨task, knows, call⟩ := a
    cases call with
    | query q =>
      obtain ⟨b', hanswer, hb⟩ := map_eq_ok.1 heffect
      cases hb
      exact Query.tells_of_answer hw hanswer
    | _ => trivial
  · rw [he]
    trivial

end Exec

/-- The discipline of a tenant's services: they name this tenant only. -/
def tenantDiscipline (tenant : TenantName) : Discipline Action Error Empty where
  licit _ a := a.OfTenant tenant
  knows _ _ := []
  answers _ := Action.Tells
  yields _ _ _ := []
  mayHandle := True

/-- **Tenants do not see each other's calls.** -/
theorem unwinding_exec : Unwinding exec tenantDiscipline World.WellNamed
    (fun tenant : TenantName => World.ofTenant tenant) where
  answers _ hw _ := tells_exec hw
  keeps {tenant} _ _ _ _ hw ha := wellNamed_exec ha tenant.2 hw
  respects {other tenant} _ _ _ _ hw ha hne :=
    ofTenant_exec_of_ne ha tenant.2 hw (fun heq => hne (Subtype.ext heq)) other.2
  consistent {tenant} _ a w w' x hw hw' ha hview := by
    obtain ⟨hanswer, hleft⟩ := exec_ofTenant (x := x) ha tenant.2 hw
    obtain ⟨hanswer', hleft'⟩ := exec_ofTenant (x := x) ha tenant.2 hw'
    rw [hview] at hanswer hleft
    exact ⟨hanswer.symm.trans hanswer', hleft.symm.trans hleft'⟩

end Knowledge
end RagflowAgent
