import RagflowAgent.Knowledge.Transactions
import RagflowAgent.Relational.Restriction

/-!
# The rows of a tenant

Every row carries the name of its tenant, and so does every statement of a transaction.
`Store.ofTenant` leaves of the database what belongs to one tenant.

* `Store.transact_ofTenant`: a transaction of a tenant runs on the rows of the tenant;
* `Store.ofTenant_transact_of_ne`: it is not seen by another tenant.

The names of tenants are used in the keys of objects and of chunks, too.  A name in which the
separators of these keys do not occur (`PlainName`) cannot be mistaken for the beginning of a
longer one, and then an object has one owner (`OwnsObject.tenantId_eq`).
-/

namespace RagflowAgent
namespace Knowledge

open Keyed

/-! ## Names -/

/-- What stands before the first separator. -/
theorem eq_of_append_cons_eq {sep : Char} {l l' m m' : List Char}
    (h : l ++ sep :: m = l' ++ sep :: m') (hl : sep ∉ l) (hl' : sep ∉ l') : l = l' := by
  have htake : ∀ {l m : List Char}, sep ∉ l → (l ++ sep :: m).takeWhile (· ≠ sep) = l := by
    intro l m hl
    rw [List.takeWhile_append_of_pos fun c hc => by simpa using ne_of_mem_of_not_mem hc hl]
    simp
  rw [← htake hl, h, htake hl']

/-- A name without the separators of the keys that are made from it. -/
def PlainName (name : String) : Prop := '/' ∉ name.toList ∧ ':' ∉ name.toList

instance (name : String) : Decidable (PlainName name) :=
  inferInstanceAs (Decidable (_ ∧ _))

/-- The names of tenants whose keys cannot be confused. -/
abbrev TenantName : Type := { name : String // PlainName name }

/-- The prefix of the object keys of a tenant. -/
def tenantPrefix (tenantId : String) : String := "tenants/" ++ tenantId ++ "/"

/-- An object key of a tenant. -/
def OwnsObject (tenantId objectKey : String) : Prop :=
  (tenantPrefix tenantId).toList.isPrefixOf objectKey.toList = true

instance (tenantId objectKey : String) : Decidable (OwnsObject tenantId objectKey) :=
  inferInstanceAs (Decidable (_ = true))

theorem ownsObject_append (tenantId rest : String) :
    OwnsObject tenantId (tenantPrefix tenantId ++ rest) := by
  rw [OwnsObject, List.isPrefixOf_iff_prefix, String.toList_append]
  exact List.prefix_append _ _

/-- **An object has one owner.** -/
theorem OwnsObject.tenantId_eq {tenantId tenantId' objectKey : String}
    (h : OwnsObject tenantId objectKey) (h' : OwnsObject tenantId' objectKey)
    (hplain : PlainName tenantId) (hplain' : PlainName tenantId') : tenantId = tenantId' := by
  obtain ⟨rest, hrest⟩ := List.isPrefixOf_iff_prefix.1 h
  obtain ⟨rest', hrest'⟩ := List.isPrefixOf_iff_prefix.1 h'
  have hjoined : tenantId.toList ++ '/' :: rest = tenantId'.toList ++ '/' :: rest' := by
    have heq := hrest.trans hrest'.symm
    simpa [tenantPrefix, String.toList_append] using heq
  exact String.toList_inj.1 (eq_of_append_cons_eq hjoined hplain.1 hplain'.1)

/-! ## The database -/

namespace Repository

variable {ρ : Type} [Entity ρ] {T T' : Table ρ} {tenantId tenantId' : String} {entity : ρ}

/-- The rows of a tenant. -/
def ofTenant (tenantId : String) (T : Table ρ) : Table ρ := T.restrict fun k => k.1 = tenantId

theorem get_ofTenant {resourceId : String} :
    get (ofTenant tenantId T) tenantId resourceId = get T tenantId resourceId := by
  rw [get, get, ofTenant, Table.get_restrict (by simp)]

/-- Idempotency keys are compared within a tenant. -/
theorem clashes_ofTenant (htenant : (key entity).1 = tenantId) :
    Clashes (ofTenant tenantId T) entity ↔ Clashes T entity := by
  constructor
  · rintro ⟨row, hrow, h⟩
    exact ⟨row, (Table.mem_restrict.1 hrow).1, h⟩
  · rintro ⟨row, hrow, hkey, h⟩
    exact ⟨row, Table.mem_restrict.2 ⟨hrow, by simp [hkey, htenant]⟩, hkey, h⟩

theorem add_ofTenant :
    add (ofTenant tenantId T) tenantId entity =
      (add T tenantId entity).map (ofTenant tenantId) := by
  by_cases htenant : (key entity).1 = tenantId
  · have hadd := Table.add_restrict (T := T) (q := fun k => decide (k.1 = tenantId))
      (decide_eq_true htenant)
    simp only [add, htenant, ne_eq, not_true_eq_false, if_false, clashes_ofTenant htenant]
    cases Entity.rowValues entity with
    | error e => rfl
    | ok u =>
      dsimp only
      split
      · rfl
      · rw [ofTenant, hadd]
        cases T.add entity <;> rfl
  · simp only [add, ne_eq, htenant, not_false_eq_true, if_true]
    rfl

theorem save_ofTenant :
    save (ofTenant tenantId T) tenantId entity =
      (save T tenantId entity).map (ofTenant tenantId) := by
  by_cases htenant : (key entity).1 = tenantId
  · have hget : (ofTenant tenantId T).get (key entity) = T.get (key entity) :=
      Table.get_restrict (decide_eq_true htenant)
    simp only [save, htenant, ne_eq, not_true_eq_false, if_false, hget]
    cases T.get (key entity) with
    | none => rfl
    | some row =>
      cases Entity.rowValues entity with
      | error e => rfl
      | ok u => exact congrArg Except.ok Table.replace_restrict.symm
  · simp only [save, ne_eq, htenant, not_false_eq_true, if_true]
    rfl

theorem saveIfRevision_ofTenant {T : Table Document} {entity : Document}
    {expectedRevision : ℕ} :
    saveIfRevision (ofTenant tenantId T) tenantId entity expectedRevision =
      (saveIfRevision T tenantId entity expectedRevision).map (ofTenant tenantId) := by
  have hget : (ofTenant tenantId T).get (tenantId, entity.id) = T.get (tenantId, entity.id) :=
    Table.get_restrict (by simp)
  unfold saveIfRevision
  rw [hget]
  split
  · rfl
  split
  · exact congrArg Except.ok Table.replace_restrict.symm
  · rfl

/-- What is written for a tenant is not seen by another. -/
theorem ofTenant_add_of_ne (h : add T tenantId' entity = .ok T') (hne : tenantId ≠ tenantId') :
    ofTenant tenantId T' = ofTenant tenantId T := by
  have htenant : (key entity).1 = tenantId' := by
    by_contra hkey
    simp [add, hkey] at h
  refine Table.add_restrict_of_not ?_ (add_eq_ok h)
  simpa [htenant] using hne.symm

theorem ofTenant_save_of_ne (h : save T tenantId' entity = .ok T') (hne : tenantId ≠ tenantId') :
    ofTenant tenantId T' = ofTenant tenantId T := by
  have htenant : (key entity).1 = tenantId' := by
    by_contra hkey
    simp [save, hkey] at h
  obtain ⟨-, -, rfl⟩ := save_eq_ok h
  refine Table.replace_restrict_of_not ?_
  simpa [htenant] using hne.symm

theorem ofTenant_saveIfRevision_of_ne {T T' : Table Document} {entity : Document}
    {expectedRevision : ℕ} (h : saveIfRevision T tenantId' entity expectedRevision = .ok T')
    (hne : tenantId ≠ tenantId') : ofTenant tenantId T' = ofTenant tenantId T := by
  have htenant : entity.tenantId = tenantId' := by
    by_contra hkey
    simp [saveIfRevision, hkey] at h
  obtain ⟨-, rfl⟩ := saveIfRevision_eq_ok h
  refine Table.replace_restrict_of_not ?_
  simpa [htenant] using hne.symm

end Repository

/-- The rows of a tenant, in every table. -/
def Store.ofTenant (tenantId : String) (st : Store) : Store :=
  ⟨fun r => Repository.ofTenant tenantId (st.table r)⟩

namespace Store

variable {tenantId tenantId' : String} {st st' : Store}

@[simp] theorem table_ofTenant (r : Resource) :
    (st.ofTenant tenantId).table r = Repository.ofTenant tenantId (st.table r) := rfl

theorem ofTenant_ofTenant : (st.ofTenant tenantId).ofTenant tenantId = st.ofTenant tenantId := by
  refine congrArg Store.mk (funext fun r => ?_)
  rw [table_ofTenant, Repository.ofTenant, Repository.ofTenant, Table.restrict_restrict]

theorem ofTenant_put (r : Resource) (T : Table r.Row) :
    (st.put r T).ofTenant tenantId =
      (st.ofTenant tenantId).put r (Repository.ofTenant tenantId T) := by
  refine congrArg Store.mk (funext fun r' => ?_)
  by_cases hr : r' = r
  · subst hr
    simp [put]
  · simp [put, Function.update_of_ne hr, table_ofTenant]

/-- Writing to a table what the tenant does not see. -/
theorem ofTenant_put_of_eq {r : Resource} {T : Table r.Row}
    (h : Repository.ofTenant tenantId T = Repository.ofTenant tenantId (st.table r)) :
    (st.put r T).ofTenant tenantId = st.ofTenant tenantId := by
  rw [ofTenant_put, h]
  exact congrArg Store.mk (Function.update_eq_self r _)

end Store

/-- A row as the services write it: a version has an object key of its tenant. -/
def WellNamed : (r : Resource) → r.Row → Prop
  | .documentVersions, version => OwnsObject version.tenantId version.objectKey
  | _, _ => True

/-- A statement that names the tenant. -/
def Stmt.OfTenant (tenantId : String) : Stmt → Prop
  | add tenantId' r entity => tenantId' = tenantId ∧ WellNamed r entity
  | save tenantId' r entity => tenantId' = tenantId ∧ WellNamed r entity
  | saveIfRevision tenantId' _ _ => tenantId' = tenantId
  | cancelPending tenantId' _ _ => tenantId' = tenantId

section Transactions

variable {tenantId tenantId' : String} {st st' : Store}

/-- A statement runs on the rows of its tenant. -/
theorem Stmt.run_ofTenant {s : Stmt} (hs : s.OfTenant tenantId) :
    s.run (st.ofTenant tenantId) = (s.run st).map (Store.ofTenant tenantId) := by
  have hput : ∀ (r : Resource) (result : Except Error (Table r.Row)),
      (result.map (Repository.ofTenant tenantId)).map ((st.ofTenant tenantId).put r) =
        (result.map (st.put r)).map (Store.ofTenant tenantId) := by
    intro r result
    cases result with
    | error e => rfl
    | ok T => exact congrArg Except.ok (Store.ofTenant_put r T).symm
  cases s with
  | add _ r entity =>
    obtain ⟨rfl, -⟩ := hs
    rw [run, run, Store.table_ofTenant, Repository.add_ofTenant, hput]
  | save _ r entity =>
    obtain ⟨rfl, -⟩ := hs
    rw [run, run, Store.table_ofTenant, Repository.save_ofTenant, hput]
  | saveIfRevision _ entity expectedRevision =>
    obtain rfl := hs
    rw [run, run, Store.table_ofTenant, Repository.saveIfRevision_ofTenant]
    exact hput .documents _
  | cancelPending _ resourceId changedAt =>
    obtain rfl := hs
    rw [run, run, Store.table_ofTenant, Repository.get_ofTenant]
    split
    · rfl
    · rfl
    split
    · rw [Repository.save_ofTenant]
      exact hput .lifecycleOutbox _
    · rfl

/-- A statement of another tenant is not seen. -/
theorem Stmt.ofTenant_run_of_ne {s : Stmt} (hs : s.OfTenant tenantId')
    (hne : tenantId ≠ tenantId') (h : s.run st = .ok st') :
    st'.ofTenant tenantId = st.ofTenant tenantId := by
  cases s with
  | add _ r entity =>
    obtain ⟨rfl, -⟩ := hs
    obtain ⟨T, hT, rfl⟩ := map_eq_ok.1 h
    exact Store.ofTenant_put_of_eq (Repository.ofTenant_add_of_ne hT hne)
  | save _ r entity =>
    obtain ⟨rfl, -⟩ := hs
    obtain ⟨T, hT, rfl⟩ := map_eq_ok.1 h
    exact Store.ofTenant_put_of_eq (Repository.ofTenant_save_of_ne hT hne)
  | saveIfRevision _ entity expectedRevision =>
    obtain rfl := hs
    obtain ⟨T, hT, rfl⟩ := map_eq_ok.1 h
    exact Store.ofTenant_put_of_eq (Repository.ofTenant_saveIfRevision_of_ne hT hne)
  | cancelPending _ resourceId changedAt =>
    obtain rfl := hs
    rw [run] at h
    split at h
    · cases h
    · cases h
      rfl
    split at h
    · obtain ⟨T, hT, rfl⟩ := map_eq_ok.1 h
      exact Store.ofTenant_put_of_eq (Repository.ofTenant_save_of_ne hT hne)
    · cases h
      rfl

/-- A transaction of a tenant runs on its rows. -/
theorem Store.transact_ofTenant {l : List Stmt} (hl : ∀ s ∈ l, s.OfTenant tenantId) :
    (st.ofTenant tenantId).transact l = (st.transact l).map (Store.ofTenant tenantId) := by
  induction l generalizing st with
  | nil => rfl
  | cons s l ih =>
    rw [transact, transact, Stmt.run_ofTenant (hl s List.mem_cons_self)]
    cases s.run st with
    | error e => rfl
    | ok st₁ => exact ih fun s hs => hl s (List.mem_cons_of_mem _ hs)

theorem Store.ofTenant_transact_of_ne {l : List Stmt} (hl : ∀ s ∈ l, s.OfTenant tenantId')
    (hne : tenantId ≠ tenantId') (h : st.transact l = .ok st') :
    st'.ofTenant tenantId = st.ofTenant tenantId := by
  induction l generalizing st with
  | nil =>
    cases h
    rfl
  | cons s l ih =>
    obtain ⟨st₁, h₁, h₂⟩ := Store.transact_cons_eq_ok.1 h
    rw [ih (fun s hs => hl s (List.mem_cons_of_mem _ hs)) h₂,
      Stmt.ofTenant_run_of_ne (hl s List.mem_cons_self) hne h₁]

end Transactions

end Knowledge
end RagflowAgent
