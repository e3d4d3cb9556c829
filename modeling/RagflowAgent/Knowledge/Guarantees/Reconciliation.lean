import RagflowAgent.Interleaving.Monitor
import RagflowAgent.Knowledge.Guarantees.RepeatedPurge
import RagflowAgent.Knowledge.Tenancy.Calls

/-!
# What the reconciler takes away

The reconciler lists the versions of a tenant, and later the objects and the projections, while
other services go on working.  What it deletes it has not found among the versions, so it matters
how old the listing of the versions is, and where it was cut off.

* `listedVersions` are the versions that a listing shows, and `ReconcilerStep` is what one step
  of the reconciler may do, given that listing;
* `follows_run` follows the reconciler by a monitor that remembers what was listed;
* `reconcilerStep_run`: in every run, a deletion hits something of the tenant that no version
  accounted for when they were listed, and a dry run deletes nothing;
* `reconciles`: a reconciler that is alone takes away exactly the orphans among what it listed,
  and the next one finds none.
-/

namespace RagflowAgent
namespace Knowledge

open Interleaving Keyed Monitor

/-! ## Listings -/

/-- The versions that `list_for_tenant` shows. -/
def listedVersions (st : Store) (tenantId : String) (limit : ℕ) : List DocumentVersion :=
  List.take limit <| Query.orderBy DocumentVersion.id <|
    (st.table .documentVersions).rows.filter fun row => row.tenantId = tenantId

/-- Versions are listed as they are stored. -/
theorem eq_listedVersions {w : World} {tenantId : String} {limit : ℕ}
    {versions : List DocumentVersion}
    (h : (Query.listVersionsForTenant tenantId limit).answer w = .ok versions) :
    versions = listedVersions w.store tenantId limit :=
  eq_of_mapM_eq_ok (fun _ _ _ hv => (DocumentVersion.validate_eq_ok.1 hv).1) h

namespace LifecycleReconciler

/-- One step of the reconciler of a tenant.  It deletes nothing in a dry run, and otherwise only
what belongs to the tenant and is accounted for by none of the listed versions. -/
structure ReconcilerStep (tenantId : String) (dryRun : Bool)
    (Unlisted : (DocumentVersion → Prop) → Prop) (w w' : World) : Prop where
  store : w'.store = w.store
  objects : w'.objects ⊆ w.objects
  chunks : w'.index.chunks ⊆ w.index.chunks
  deletedObject : ∀ objectKey ∈ w.objects, objectKey ∉ w'.objects → dryRun = false ∧
    (tenantPrefix tenantId).toList <+: objectKey.toList ∧
      Unlisted fun version => version.objectKey = objectKey
  deletedChunk : ∀ chunk ∈ w.index.chunks, chunk ∉ w'.index.chunks → dryRun = false ∧
    chunk.tenantId = tenantId ∧ Unlisted fun version => version.id = chunk.documentVersionId

namespace ReconcilerStep

variable {tenantId : String} {dryRun : Bool} {Unlisted : (DocumentVersion → Prop) → Prop}
  {w w' : World}

theorem of_same (hstore : w'.store = w.store) (hindex : w'.index = w.index)
    (hobjects : w'.objects = w.objects) : ReconcilerStep tenantId dryRun Unlisted w w' where
  store := hstore
  objects := by
    rw [hobjects]
    exact List.Subset.refl _
  chunks := by
    rw [hindex]
    exact List.Subset.refl _
  deletedObject objectKey hmem hnot := by
    rw [hobjects] at hnot
    exact absurd hmem hnot
  deletedChunk chunk hmem hnot := by
    rw [hindex] at hnot
    exact absurd hmem hnot

/-- One object of the tenant is deleted. -/
theorem deleteObject {objectKey : String} (hdryRun : dryRun = false)
    (hkey : (tenantPrefix tenantId).toList <+: objectKey.toList)
    (hunlisted : Unlisted fun version => version.objectKey = objectKey) :
    ReconcilerStep tenantId dryRun Unlisted w
      { w with objects := (ObjectChange.delete objectKey).apply w.objects } where
  store := rfl
  objects := List.filter_subset_self _
  chunks := List.Subset.refl _
  deletedObject key hmem hnot := by
    have hdeleted : key = objectKey := by
      by_contra hne
      exact hnot (List.mem_filter.2 ⟨hmem, by simpa using hne⟩)
    subst hdeleted
    exact ⟨hdryRun, hkey, hunlisted⟩
  deletedChunk chunk hmem hnot := absurd hmem hnot

/-- The chunks of one version are deleted. -/
theorem deleteProjection {knowledgeBaseId documentId versionId : String}
    (hdryRun : dryRun = false) (hunlisted : Unlisted fun version => version.id = versionId) :
    ReconcilerStep tenantId dryRun Unlisted w
      { w with index := w.index.deleteByQuery fun chunk =>
        chunk.InScope ⟨tenantId, knowledgeBaseId, documentId, versionId⟩ } where
  store := rfl
  objects := List.Subset.refl _
  chunks chunk hmem := (SearchIndex.mem_deleteByQuery.1 hmem).1
  deletedObject objectKey hmem hnot := absurd hmem hnot
  deletedChunk chunk hmem hnot := by
    have hscope : chunk.InScope ⟨tenantId, knowledgeBaseId, documentId, versionId⟩ := by
      by_contra hne
      exact hnot (SearchIndex.mem_deleteByQuery.2 ⟨hmem, hne⟩)
    obtain ⟨htenant, -, -, rfl⟩ := hscope
    exact ⟨hdryRun, htenant, hunlisted⟩

end ReconcilerStep

/-! ## The monitor -/

/-- What a reconciler has listed. -/
structure Listing where
  versions : Option (List DocumentVersion) := none
  objects : List String := []
  projections : List (String × String × String) := []

/-- What is remembered of an answer. -/
def Listing.note {β : Type} (m : Listing) : Query β → β → Listing
  | .listVersionsForTenant _ _, versions => { m with versions := some versions }
  | .listPrefix _, objects => { m with objects := objects }
  | .listProjectionVersions _ _, projections => { m with projections := projections }
  | _, _ => m

/-- The listings are those of the tenant. -/
def Asks (tenantId : String) (limit : ℕ) {β : Type} : Query β → Prop
  | .listVersionsForTenant tenantId' limit' => tenantId' = tenantId ∧ limit' = limit * 10
  | .listPrefix keyPrefix => keyPrefix = tenantPrefix tenantId
  | _ => True

/-- The calls that a reconciler makes. -/
def Reconciles (tenantId : String) (limit : ℕ) (dryRun : Bool) (m : Listing) {β : Type}
    (a : Action β) : Prop :=
  match a.call with
  | .query q => Asks tenantId limit q
  | .changeObjects change => dryRun = false ∧ ∃ objectKey ∈ m.objects,
      change = .delete objectKey ∧ ∃ versions ∈ m.versions,
        objectKey ∉ versions.map DocumentVersion.objectKey
  | .changeIndex change => dryRun = false ∧ ∃ projection ∈ m.projections,
      change = .deleteDocumentVersion
          ⟨tenantId, projection.1, projection.2.1, projection.2.2⟩ ∧
        ∃ versions ∈ m.versions, projection.2.2 ∉ versions.map DocumentVersion.id
  | .commit _ => False
  | _ => True

/-- The state of the watcher after an answer. -/
def noted (m : Listing) ⦃β : Type⦄ (a : Action β) : Except Error β → Listing
  | .ok b =>
    match a.call, b with
    | .query q, b => m.note q b
    | _, _ => m
  | .error _ => m

/-- The watcher of a reconciler. -/
def listingWatcher (tenantId : String) (limit : ℕ) (dryRun : Bool) :
    Monitor Action Error Listing where
  licit m _ a := Reconciles tenantId limit dryRun m a
  next := noted

section Walk

variable {tenantId : String} {limit : ℕ} {dryRun : Bool} {α β : Type} {m : Listing}

/-- The service makes these calls only, and `Q` holds of what was listed when it returns. -/
def Follows (tenantId : String) (limit : ℕ) (dryRun : Bool) (p : Service α)
    (Q : α → Listing → Prop) (m : Listing) : Prop :=
  (listingWatcher tenantId limit dryRun).Conforms p Q (fun _ _ => True) m

theorem follows_bind {p : Service β} {f : β → Service α} {Q : α → Listing → Prop}
    {R : β → Listing → Prop} (hp : Follows tenantId limit dryRun p R m)
    (hf : ∀ b m', R b m' → Follows tenantId limit dryRun (f b) Q m') :
    Follows tenantId limit dryRun (p.bind f) Q m :=
  conforms_bind hp hf

theorem follows_ask {knows : List Fact} {call : Call β} {f : β → Service α}
    {Q : α → Listing → Prop}
    (hlicit : Reconciles tenantId limit dryRun m ⟨.reconciling, knows, call⟩)
    (hf : ∀ b, Follows tenantId limit dryRun (f b) Q
      (noted m ⟨.reconciling, knows, call⟩ (.ok b))) :
    Follows tenantId limit dryRun ((ask .reconciling knows call).bind f) Q m :=
  follows_bind (R := fun b m' => m' = noted m ⟨.reconciling, knows, call⟩ (.ok b))
    (conforms_perform hlicit (fun _ => rfl) fun _ => trivial) fun b _ hb => hb ▸ hf b

/-- A loop whose rounds list nothing. -/
theorem follows_collect {p : α → Service (List ReconciliationFinding)} {l : List α}
    (hp : ∀ a ∈ l, Follows tenantId limit dryRun (p a) (fun _ m' => m' = m) m) :
    Follows tenantId limit dryRun (collect p l) (fun _ m' => m' = m) m := by
  induction l with
  | nil => exact rfl
  | cons a l ih =>
    refine follows_bind (hp a List.mem_cons_self) fun found m' hm' => ?_
    subst hm'
    refine follows_bind (ih fun b hb => hp b (List.mem_cons_of_mem a hb)) fun rest m' hm' => ?_
    exact hm'

theorem follows_checkOperation {context : AuthorizationContext}
    {operation : LifecycleOperation} :
    Follows tenantId limit dryRun (checkOperation context operation) (fun _ m' => m' = m) m := by
  refine follows_ask trivial fun document => follows_ask trivial fun version => ?_
  split
  · refine follows_ask trivial fun count => follows_ask trivial fun found => ?_
    split
    · exact rfl
    · exact rfl
  · exact rfl

theorem follows_checkObject {context : AuthorizationContext} {versions : List DocumentVersion}
    {objectKey : String} (hversions : m.versions = some versions) (hkey : objectKey ∈ m.objects) :
    Follows tenantId limit dryRun (checkObject context [] dryRun versions objectKey)
      (fun _ m' => m' = m) m := by
  unfold checkObject
  split
  · exact rfl
  rename_i hunlisted
  dsimp only
  split
  · exact rfl
  · rename_i hdryRun
    refine follows_ask ⟨by simpa using hdryRun, objectKey, hkey, rfl, versions, hversions,
      hunlisted⟩ fun _ => ?_
    exact rfl

theorem follows_checkProjection {context : AuthorizationContext}
    {versions : List DocumentVersion} {projection : String × String × String}
    (htenant : context.tenantId = tenantId) (hversions : m.versions = some versions)
    (hprojection : projection ∈ m.projections) :
    Follows tenantId limit dryRun (checkProjection context [] dryRun versions projection)
      (fun _ m' => m' = m) m := by
  obtain ⟨knowledgeBaseId, documentId, versionId⟩ := projection
  unfold checkProjection
  dsimp only
  split
  · exact rfl
  rename_i hunlisted
  split
  · exact rfl
  · rename_i hdryRun
    refine follows_ask ⟨by simpa using hdryRun, _, hprojection, by rw [htenant], versions,
      hversions, hunlisted⟩ fun _ => ?_
    exact rfl

/-- **The reconciler deletes only what it has listed**, and only if none of the versions it has
listed accounts for it. -/
theorem follows_run {context : AuthorizationContext} {staleBefore : ℕ} :
    Follows context.tenantId limit dryRun (run context limit staleBefore dryRun)
      (fun _ _ => True) {} := by
  refine follows_ask trivial fun operations => follows_ask trivial fun now => ?_
  refine follows_ask trivial fun outbox => follows_ask ⟨rfl, rfl⟩ fun versions => ?_
  refine follows_ask trivial fun documents => ?_
  refine follows_bind (follows_collect fun _ _ => follows_checkOperation) fun drift m hm => ?_
  subst hm
  refine follows_ask rfl fun objects => ?_
  refine follows_bind (follows_collect fun objectKey hkey => follows_checkObject rfl hkey)
    fun orphanObjects m hm => ?_
  subst hm
  refine follows_ask trivial fun projections => ?_
  refine follows_bind (follows_collect fun projection hprojection =>
    follows_checkProjection rfl rfl hprojection) fun orphanProjections m hm => ?_
  exact follows_ask trivial fun now => trivial

end Walk

/-! ## Runs -/

section Runs

variable {τ : Type} [DecidableEq τ] {settings : Settings} {commands : τ → Command} {w : World}
  {t : τ} {context : AuthorizationContext} {limit staleBefore : ℕ} {dryRun : Bool}

/-- The reconciler and what it has listed, at any moment of a run. -/
theorem follows_threads (settings : Settings) (w : World)
    (ht : commands t = .reconcile context limit staleBefore dryRun) (l : List (τ × Input)) :
    Follows context.tenantId limit dryRun (((system settings commands w).run exec l).threads t)
      (fun _ _ => True)
      ((listingWatcher context.tenantId limit dryRun).observe exec (system settings commands w)
        (fun _ => {}) l t) := by
  have hstart : (listingWatcher context.tenantId limit dryRun).Conforms
      ((system settings commands w).threads t) (fun _ _ => True) (fun _ _ => True) {} := by
    have hthread : (system settings commands w).threads t =
        (run context limit staleBefore dryRun).void := by
      rw [system]
      simp only [ht, Command.service]
    rw [hthread]
    exact follows_bind follows_run fun _ _ _ => trivial
  exact conforms_run hstart l

/-- The versions that are remembered were listed at an earlier moment. -/
theorem listed_of_versions (ht : commands t = .reconcile context limit staleBefore dryRun)
    {l : List (τ × Input)} {versions : List DocumentVersion}
    (h : ((listingWatcher context.tenantId limit dryRun).observe exec
      (system settings commands w) (fun _ => {}) l t).versions = some versions) :
    ∃ m, m <+: l ∧ versions = listedVersions
      ((system settings commands w).run exec m).state.store context.tenantId (limit * 10) := by
  obtain ⟨m, x, hm, β, a, k, hthread, hbefore, hafter⟩ :=
    exists_call_of_observe (P := fun m : Listing => m.versions = some versions) (by simp) h
  refine ⟨m, (List.prefix_append _ _).trans hm, ?_⟩
  have hfollows := follows_threads settings w ht m
  rw [hthread] at hfollows
  obtain ⟨task, knows, call⟩ := a
  cases hr : exec ⟨task, knows, call⟩ x ((system settings commands w).run exec m).state with
  | mk r w' =>
    rw [hr] at hafter
    cases r with
    | error e => exact absurd hafter hbefore
    | ok b =>
      cases call with
      | query q =>
        obtain ⟨hanswer, -⟩ := exec_query_eq_ok hr
        cases q with
        | listVersionsForTenant tenantId' limit' =>
          obtain ⟨rfl, rfl⟩ := hfollows.1
          cases hafter
          exact eq_listedVersions hanswer
        | _ => exact absurd hafter hbefore
      | _ => exact absurd hafter hbefore

/-- The object keys that are remembered are keys of the tenant. -/
theorem prefix_of_objects (ht : commands t = .reconcile context limit staleBefore dryRun)
    {l : List (τ × Input)} {objectKey : String}
    (h : objectKey ∈ ((listingWatcher context.tenantId limit dryRun).observe exec
      (system settings commands w) (fun _ => {}) l t).objects) :
    (tenantPrefix context.tenantId).toList <+: objectKey.toList := by
  obtain ⟨m, x, hm, β, a, k, hthread, hbefore, hafter⟩ :=
    exists_call_of_observe (P := fun m : Listing => objectKey ∈ m.objects) (by simp) h
  have hfollows := follows_threads settings w ht m
  rw [hthread] at hfollows
  obtain ⟨task, knows, call⟩ := a
  cases hr : exec ⟨task, knows, call⟩ x ((system settings commands w).run exec m).state with
  | mk r w' =>
    rw [hr] at hafter
    cases r with
    | error e => exact absurd hafter hbefore
    | ok b =>
      cases call with
      | query q =>
        obtain ⟨hanswer, -⟩ := exec_query_eq_ok hr
        cases q with
        | listPrefix keyPrefix =>
          obtain rfl : keyPrefix = tenantPrefix context.tenantId := hfollows.1
          cases hanswer
          have hmem : objectKey ∈ Query.orderBy id
              (((system settings commands w).run exec m).state.objects.filter fun key =>
                (tenantPrefix context.tenantId).toList.isPrefixOf key.toList) := hafter
          rw [Query.orderBy, List.mem_insertionSort, List.mem_filter] at hmem
          exact List.isPrefixOf_iff_prefix.1 hmem.2
        | _ => exact absurd hafter hbefore
      | _ => exact absurd hafter hbefore

end Runs

/-! ## A reconciler that is alone -/

/-- The objects of a tenant that none of the listed versions refers to. -/
def orphanObjects (w : World) (tenantId : String) (limit : ℕ) : List String :=
  (Query.orderBy id (w.objects.filter fun objectKey =>
    (tenantPrefix tenantId).toList.isPrefixOf objectKey.toList)).filter fun objectKey =>
      objectKey ∉ (listedVersions w.store tenantId (limit * 10)).map DocumentVersion.objectKey

/-- The listed projections of which the version is not listed. -/
def orphanProjections (w : World) (tenantId : String) (limit : ℕ) :
    List (String × String × String) :=
  (w.index.listProjectionVersions tenantId (limit * 10)).filter fun projection =>
    projection.2.2 ∉ (listedVersions w.store tenantId (limit * 10)).map DocumentVersion.id

/-- The scope of a projection of a tenant. -/
def projectionScope (tenantId : String) (projection : String × String × String) : VersionScope :=
  ⟨tenantId, projection.1, projection.2.1, projection.2.2⟩

def objectFinding (tenantId : String) (dryRun : Bool) (objectKey : String) :
    ReconciliationFinding where
  tenantId := tenantId
  kind := "orphan_object"
  resourceId := objectKey
  repaired := !dryRun

def projectionFinding (tenantId : String) (dryRun : Bool)
    (projection : String × String × String) : ReconciliationFinding where
  tenantId := tenantId
  kind := "orphan_projection"
  resourceId := projection.2.2
  repaired := !dryRun

/-- What a reconciler that is alone has done from `w` to `w'`. -/
structure Reconciled (tenantId : String) (limit : ℕ) (dryRun : Bool) (w : World)
    (report : ReconciliationReport) (w' : World) : Prop where
  cleaned : Cleaned w w'
    (if dryRun then [] else (orphanProjections w tenantId limit).map (projectionScope tenantId))
    (if dryRun then [] else orphanObjects w tenantId limit)
  objects : (report.findings.filter fun finding => finding.kind = "orphan_object") =
    (orphanObjects w tenantId limit).map (objectFinding tenantId dryRun)
  projections : (report.findings.filter fun finding => finding.kind = "orphan_projection") =
    (orphanProjections w tenantId limit).map (projectionFinding tenantId dryRun)

section Alone

variable {α : Type} {P : World → Prop} {w : World} {context : AuthorizationContext}
  {limit staleBefore : ℕ} {dryRun : Bool}

/-- Any input is allowed, and nothing is said about a reconciliation that fails. -/
abbrev Returns {β : Type} (P : World → Prop) (p : Service β) (Q : β → World → Prop) : Prop :=
  Settles (fun _ => True) P p Q fun _ => True

/-- A loop, with what it has found so far. -/
theorem returns_collect {p : α → Service (List ReconciliationFinding)} {l : List α}
    {I : List α → List ReconciliationFinding → World → Prop}
    (hp : ∀ done a rest acc, done ++ a :: rest = l →
      Returns (I done acc) (p a) fun found => I (done ++ [a]) (acc ++ found)) :
    Returns (I [] []) (collect p l) fun found => I l found := by
  suffices h : ∀ rest done acc, done ++ rest = l →
      Returns (I done acc) (collect p rest) fun found => I l (acc ++ found) from h l [] [] rfl
  intro rest
  induction rest with
  | nil =>
    intro done acc hdone
    rw [List.append_nil] at hdone
    subst hdone
    refine triple_ret fun w hw => ?_
    rw [List.append_nil]
    exact hw
  | cons a rest ih =>
    intro done acc hdone
    refine triple_bind (hp done a rest acc hdone) fun found => ?_
    refine triple_bind (ih (done ++ [a]) (acc ++ found) (by simpa using hdone)) fun others => ?_
    refine triple_ret fun w hw => ?_
    rw [← List.append_assoc]
    exact hw

/-- A query, then the rest. -/
theorem returns_query {β γ : Type} {knows : List Fact} {q : Query β} {f : β → Service γ}
    {Q : γ → World → Prop} {φ : β → Prop}
    (hanswer : ∀ w b, P w → q.answer w = .ok b → φ b) (hf : ∀ b, φ b → Returns P (f b) Q) :
    Returns P ((ask .reconciling knows (.query q)).bind f) Q :=
  settles_bind_query (fun _ _ _ _ _ => trivial) hanswer hf

/-- The findings about operations are of other kinds. -/
theorem returns_checkOperation {operation : LifecycleOperation} :
    Returns P (checkOperation context operation) fun found w =>
      (∀ finding ∈ found, finding.kind ≠ "orphan_object" ∧
        finding.kind ≠ "orphan_projection") ∧ P w := by
  refine returns_query (φ := fun _ => True) (fun _ _ _ _ => trivial) fun document _ => ?_
  refine returns_query (φ := fun _ => True) (fun _ _ _ _ => trivial) fun version _ => ?_
  split
  · refine returns_query (φ := fun _ => True) (fun _ _ _ _ => trivial) fun count _ => ?_
    refine returns_query (φ := fun _ => True) (fun _ _ _ _ => trivial) fun found _ => ?_
    split
    · exact triple_ret fun w hw => ⟨by simp, hw⟩
    · exact triple_ret fun w hw => ⟨by simp, hw⟩
  · exact triple_ret fun w hw => ⟨by simp, hw⟩

theorem returns_drift {operations : List LifecycleOperation} :
    Returns P (collect (checkOperation context) operations) fun found w =>
      (∀ finding ∈ found, finding.kind ≠ "orphan_object" ∧
        finding.kind ≠ "orphan_projection") ∧ P w := by
  refine (returns_collect (I := fun _ acc w => (∀ finding ∈ acc, finding.kind ≠ "orphan_object" ∧
    finding.kind ≠ "orphan_projection") ∧ P w) fun done operation rest acc _ => ?_).mono ?_ ?_ ?_
  · rintro x w' ⟨hacc, hw'⟩ hx
    obtain ⟨halong, hends⟩ := returns_checkOperation x w' hw' hx
    refine ⟨halong, fun found hfound => ?_, fun e he => trivial⟩
    obtain ⟨hkinds, hP⟩ := hends.1 found hfound
    exact ⟨List.forall_mem_append.2 ⟨hacc, hkinds⟩, hP⟩
  · exact fun w' hw' => ⟨by simp, hw'⟩
  · exact fun _ _ h => h
  · exact fun _ _ h => h

/-- One object. -/
theorem returns_checkObject {versions : List DocumentVersion} {objectKey : String}
    {scopes : List VersionScope} {keys : List String} :
    Returns (fun w' => Cleaned w w' scopes keys)
      (checkObject context [] dryRun versions objectKey) fun found w' =>
        found = (if objectKey ∈ versions.map DocumentVersion.objectKey then []
          else [objectFinding context.tenantId dryRun objectKey]) ∧
        Cleaned w w' scopes (keys ++ if dryRun then [] else
          if objectKey ∈ versions.map DocumentVersion.objectKey then [] else [objectKey]) := by
  unfold checkObject
  by_cases hlisted : objectKey ∈ versions.map DocumentVersion.objectKey
  · simp only [if_pos hlisted, ite_self, List.append_nil]
    exact triple_ret fun w' hw' => ⟨rfl, hw'⟩
  simp only [if_neg hlisted]
  cases dryRun with
  | true =>
    simp only [reduceIte, List.append_nil]
    exact triple_ret fun w' hw' => ⟨rfl, hw'⟩
  | false =>
    simp only [Bool.false_eq_true, reduceIte]
    refine triple_bind (Q := fun _ w' => Cleaned w w' scopes (keys ++ [objectKey]))
      (settles_ask ?_ fun _ _ _ _ _ _ _ => trivial) fun _ => triple_ret fun w' hw' => ⟨rfl, hw'⟩
    intro x w₁ u w₂ hw₁ _ heffect
    cases heffect
    have hone : Cleaned w₁
        { w₁ with objects := (ObjectChange.delete objectKey).apply w₁.objects } [] [objectKey] :=
      { store := rfl
        index := SearchIndex.without_nil.symm
        objects := by simp [ObjectChange.apply] }
    exact (hw₁.trans hone).congr (by simp) fun _ => Iff.rfl

/-- One projection. -/
theorem returns_checkProjection {versions : List DocumentVersion}
    {projection : String × String × String} {scopes : List VersionScope} {keys : List String} :
    Returns (fun w' => Cleaned w w' scopes keys)
      (checkProjection context [] dryRun versions projection) fun found w' =>
        found = (if projection.2.2 ∈ versions.map DocumentVersion.id then []
          else [projectionFinding context.tenantId dryRun projection]) ∧
        Cleaned w w' (scopes ++ if dryRun then [] else
          if projection.2.2 ∈ versions.map DocumentVersion.id then []
          else [projectionScope context.tenantId projection]) keys := by
  obtain ⟨knowledgeBaseId, documentId, versionId⟩ := projection
  unfold checkProjection
  dsimp only
  by_cases hlisted : versionId ∈ versions.map DocumentVersion.id
  · simp only [if_pos hlisted, ite_self, List.append_nil]
    exact triple_ret fun w' hw' => ⟨rfl, hw'⟩
  simp only [if_neg hlisted]
  cases dryRun with
  | true =>
    simp only [reduceIte, List.append_nil]
    exact triple_ret fun w' hw' => ⟨rfl, hw'⟩
  | false =>
    simp only [Bool.false_eq_true, reduceIte]
    refine triple_bind (Q := fun _ w' => Cleaned w w' (scopes ++
      [projectionScope context.tenantId (knowledgeBaseId, documentId, versionId)]) keys)
      (settles_ask ?_ fun _ _ _ _ _ _ _ => trivial) fun _ => triple_ret fun w' hw' => ⟨rfl, hw'⟩
    intro x w₁ u w₂ hw₁ _ heffect
    cases heffect
    have hone : Cleaned w₁
        { w₁ with index := w₁.index.deleteByQuery fun chunk =>
            chunk.InScope ⟨context.tenantId, knowledgeBaseId, documentId, versionId⟩ }
        [projectionScope context.tenantId (knowledgeBaseId, documentId, versionId)] [] :=
      { store := rfl
        index := by simp [SearchIndex.without, projectionScope]
        objects := by simp }
    exact (hw₁.trans hone).congr (fun _ => Iff.rfl) (by simp)

/-- What a loop over listed entries has found and deleted, one entry later. -/
theorem filter_append_single {β γ : Type} (dryRun : Bool) (q : β → Prop) [DecidablePred q]
    (f : β → γ) (done : List β) (a : β) :
    ((done ++ [a]).filter fun b => ¬ q b).map f =
        ((done.filter fun b => ¬ q b).map f) ++ (if q a then [] else [f a]) ∧
      (if dryRun then [] else ((done ++ [a]).filter fun b => ¬ q b).map f) =
        (if dryRun then [] else (done.filter fun b => ¬ q b).map f) ++
          if dryRun then [] else if q a then [] else [f a] := by
  rw [List.filter_append, List.map_append]
  by_cases hq : q a
  · cases dryRun <;> simp [hq]
  · cases dryRun <;> simp [hq]

/-- The objects, one after the other. -/
theorem returns_objects {versions : List DocumentVersion} {objects : List String} :
    Returns w.SameStores (collect (checkObject context [] dryRun versions) objects)
      fun found w' =>
        found = (objects.filter fun key => key ∉ versions.map DocumentVersion.objectKey).map
          (objectFinding context.tenantId dryRun) ∧
        Cleaned w w' [] (if dryRun then [] else
          (objects.filter fun key => key ∉ versions.map DocumentVersion.objectKey).map id) := by
  refine (returns_collect (I := fun done acc w' =>
    acc = (done.filter fun key => key ∉ versions.map DocumentVersion.objectKey).map
      (objectFinding context.tenantId dryRun) ∧
    Cleaned w w' [] (if dryRun then [] else
      (done.filter fun key => key ∉ versions.map DocumentVersion.objectKey).map id))
    fun done objectKey rest acc _ => ?_).mono ?_ (fun _ _ h => h) fun _ _ h => h
  · rintro x w₁ ⟨rfl, hw₁⟩ hx
    obtain ⟨halong, hends⟩ := returns_checkObject x w₁ hw₁ hx
    refine ⟨halong, fun found hfound => ?_, fun e he => trivial⟩
    obtain ⟨rfl, hcleaned⟩ := hends.1 found hfound
    have hfound := (filter_append_single dryRun
      (fun key => key ∈ versions.map DocumentVersion.objectKey)
      (objectFinding context.tenantId dryRun) done objectKey).1
    have hdeleted := (filter_append_single dryRun
      (fun key => key ∈ versions.map DocumentVersion.objectKey) id done objectKey).2
    exact ⟨hfound.symm, by rw [hdeleted]; exact hcleaned⟩
  · intro w' hw'
    refine ⟨rfl, ?_⟩
    have hnone := Cleaned.of_sameStores hw'
    cases dryRun <;> exact hnone

/-- The projections, one after the other. -/
theorem returns_projections {versions : List DocumentVersion}
    {projections : List (String × String × String)} {keys : List String} :
    Returns (fun w' => Cleaned w w' [] keys)
      (collect (checkProjection context [] dryRun versions) projections) fun found w' =>
        found = (projections.filter fun p => p.2.2 ∉ versions.map DocumentVersion.id).map
          (projectionFinding context.tenantId dryRun) ∧
        Cleaned w w' (if dryRun then [] else
          (projections.filter fun p => p.2.2 ∉ versions.map DocumentVersion.id).map
            (projectionScope context.tenantId)) keys := by
  refine (returns_collect (I := fun done acc w' =>
    acc = (done.filter fun p => p.2.2 ∉ versions.map DocumentVersion.id).map
      (projectionFinding context.tenantId dryRun) ∧
    Cleaned w w' (if dryRun then [] else
      (done.filter fun p => p.2.2 ∉ versions.map DocumentVersion.id).map
        (projectionScope context.tenantId)) keys)
    fun done projection rest acc _ => ?_).mono ?_ (fun _ _ h => h) fun _ _ h => h
  · rintro x w₁ ⟨rfl, hw₁⟩ hx
    obtain ⟨halong, hends⟩ := returns_checkProjection x w₁ hw₁ hx
    refine ⟨halong, fun found hfound => ?_, fun e he => trivial⟩
    obtain ⟨rfl, hcleaned⟩ := hends.1 found hfound
    have hfound := (filter_append_single dryRun
      (fun p : String × String × String => p.2.2 ∈ versions.map DocumentVersion.id)
      (projectionFinding context.tenantId dryRun) done projection).1
    have hdeleted := (filter_append_single dryRun
      (fun p : String × String × String => p.2.2 ∈ versions.map DocumentVersion.id)
      (projectionScope context.tenantId) done projection).2
    exact ⟨hfound.symm, by rw [hdeleted]; exact hcleaned⟩
  · intro w' hw'
    refine ⟨rfl, ?_⟩
    cases dryRun <;> exact hw'

/-- What holds for certain may be used. -/
theorem returns_of_and {β : Type} {φ : Prop} {p : Service β} {Q : β → World → Prop}
    (h : φ → Returns P p Q) : Returns (fun w => φ ∧ P w) p Q :=
  fun x w hw hx => h hw.1 x w hw.2 hx

/-- The findings of the other kinds do not count. -/
theorem filter_findings {drift due expired objects projections : List ReconciliationFinding}
    (hdrift : ∀ f ∈ drift, f.kind ≠ "orphan_object" ∧ f.kind ≠ "orphan_projection")
    (hdue : ∀ f ∈ due, f.kind = "outbox_due")
    (hexpired : ∀ f ∈ expired, f.kind = "expired_physical_cleanup")
    (hobjects : ∀ f ∈ objects, f.kind = "orphan_object")
    (hprojections : ∀ f ∈ projections, f.kind = "orphan_projection") :
    ((drift ++ due ++ objects ++ projections ++ expired).filter fun f =>
        f.kind = "orphan_object") = objects ∧
      ((drift ++ due ++ objects ++ projections ++ expired).filter fun f =>
        f.kind = "orphan_projection") = projections := by
  have hnone : ∀ {l : List ReconciliationFinding} {kind : String},
      (∀ f ∈ l, f.kind ≠ kind) → (l.filter fun f => f.kind = kind) = [] := by
    intro l kind hl
    exact List.filter_eq_nil_iff.2 fun f hf => by simpa using hl f hf
  have hall : ∀ {l : List ReconciliationFinding} {kind : String},
      (∀ f ∈ l, f.kind = kind) → (l.filter fun f => f.kind = kind) = l := by
    intro l kind hl
    exact List.filter_eq_self.2 fun f hf => by simpa using hl f hf
  have hother : ∀ {l : List ReconciliationFinding} {kind kind' : String},
      (∀ f ∈ l, f.kind = kind) → kind ≠ kind' → (l.filter fun f => f.kind = kind') = [] := by
    intro l kind kind' hl hne
    exact hnone fun f hf heq => hne ((hl f hf).symm.trans heq)
  simp only [List.filter_append]
  constructor
  · rw [hnone fun f hf => (hdrift f hf).1, hother hdue (by decide), hall hobjects,
      hother hprojections (by decide), hother hexpired (by decide)]
    simp
  · rw [hnone fun f hf => (hdrift f hf).2, hother hdue (by decide), hall hprojections,
      hother hobjects (by decide), hother hexpired (by decide)]
    simp

/-- **What a reconciler that is alone does**, when it returns. -/
theorem returns_run : Returns w.SameStores (run context limit staleBefore dryRun)
    (Reconciled context.tenantId limit dryRun w) := by
  refine returns_query (φ := fun _ => True) (fun _ _ _ _ => trivial) fun operations _ => ?_
  refine settles_bind_now (fun _ _ h => ⟨h.store, h.index, h.objects⟩) fun x _ => ?_
  refine returns_query (φ := fun _ => True) (fun _ _ _ _ => trivial) fun outbox _ => ?_
  refine returns_query
    (φ := fun versions => versions = listedVersions w.store context.tenantId (limit * 10))
    (fun w' versions hw' hanswer => by rw [← hw'.store]; exact eq_listedVersions hanswer)
    fun versions hversions => ?_
  refine returns_query (φ := fun _ => True) (fun _ _ _ _ => trivial) fun documents _ => ?_
  refine triple_bind returns_drift fun drift => returns_of_and fun hdrift => ?_
  refine returns_query
    (φ := fun objects => objects = Query.orderBy id (w.objects.filter fun objectKey =>
      (tenantPrefix context.tenantId).toList.isPrefixOf objectKey.toList))
    (fun w' objects hw' hanswer => by rw [← hw'.objects]; exact (Except.ok.inj hanswer).symm)
    fun objects hobjects => ?_
  refine triple_bind returns_objects fun found => returns_of_and fun hfound => ?_
  refine returns_query
    (φ := fun projections =>
      projections = w.index.listProjectionVersions context.tenantId (limit * 10))
    (fun w' projections hw' hanswer => ?_) fun projections hprojections => ?_
  · have hindex : w'.index = w.index := hw'.index.trans SearchIndex.without_nil
    rw [← hindex]
    exact (Except.ok.inj hanswer).symm
  refine triple_bind returns_projections fun found' => returns_of_and fun hfound' => ?_
  refine settles_bind_now (fun _ _ h => ⟨h.store, h.index, h.objects⟩) fun y _ => ?_
  subst hversions hobjects hprojections
  refine triple_ret fun w' hw' => ?_
  rw [List.map_id] at hw'
  have hdue : ∀ f ∈ outbox.map (dueFinding context), f.kind = "outbox_due" := by
    intro f hf
    obtain ⟨event, -, rfl⟩ := List.mem_map.1 hf
    rfl
  have hexpired : ∀ f ∈ (documents.filter (Expired · y.now)).map (expiredFinding context),
      f.kind = "expired_physical_cleanup" := by
    intro f hf
    obtain ⟨document, -, rfl⟩ := List.mem_map.1 hf
    rfl
  have hobjects : ∀ f ∈ found, f.kind = "orphan_object" := by
    intro f hf
    rw [hfound] at hf
    obtain ⟨objectKey, -, rfl⟩ := List.mem_map.1 hf
    rfl
  have hprojections : ∀ f ∈ found', f.kind = "orphan_projection" := by
    intro f hf
    rw [hfound'] at hf
    obtain ⟨projection, -, rfl⟩ := List.mem_map.1 hf
    rfl
  have hkinds := filter_findings hdrift hdue hexpired hobjects hprojections
  exact ⟨hw', hkinds.1.trans hfound, hkinds.2.trans hfound'⟩

/-- A reconciler that is alone and returns. -/
theorem reconciled_of_runAlone {x : ℕ → Input} {w' : World} {report : ReconciliationReport}
    (h : (run context limit staleBefore dryRun).runAlone exec x w = (.ok report, w')) :
    Reconciled context.tenantId limit dryRun w report w' := by
  have htriple : Returns w.SameStores (run context limit staleBefore dryRun)
      (Reconciled context.tenantId limit dryRun w) := returns_run
  obtain ⟨-, hok, -⟩ := htriple x w ⟨rfl, rfl, rfl⟩ (Prog.along_of_forall fun _ _ _ _ => trivial)
  rw [h] at hok
  exact hok report rfl

/-- Once the orphans are deleted, there are none. -/
theorem Reconciled.orphanObjects_eq_nil {tenantId : String} {report : ReconciliationReport}
    {w' w₁ : World} (h : Reconciled tenantId limit false w report w') (hsame : w'.SameStores w₁) :
    orphanObjects w₁ tenantId limit = [] := by
  refine List.eq_nil_iff_forall_not_mem.2 fun objectKey hmem => ?_
  obtain ⟨hlisted, hunlisted⟩ := List.mem_filter.1 hmem
  rw [hsame.objects, hsame.store, h.cleaned.objects, h.cleaned.store, Query.orderBy,
    List.mem_insertionSort, List.mem_filter, List.mem_filter] at *
  obtain ⟨⟨hobject, hnot⟩, hkey⟩ := hlisted
  refine of_decide_eq_true hnot (List.mem_filter.2 ⟨?_, hunlisted⟩)
  rw [Query.orderBy, List.mem_insertionSort]
  exact List.mem_filter.2 ⟨hobject, hkey⟩

/-- A listing of the projections that is not cut off shows them all, and only them. -/
theorem mem_listProjectionVersions {index : SearchIndex} {tenantId : String} {limit : ℕ}
    {projection : String × String × String}
    (hlimit : (index.chunks.filter fun chunk => chunk.tenantId = tenantId).length ≤ limit) :
    projection ∈ index.listProjectionVersions tenantId limit ↔
      ∃ chunk ∈ index.chunks, chunk.InScope (projectionScope tenantId projection) := by
  have hfold : ∀ (hits seen : List (String × String × String)),
      projection ∈ hits.foldl (fun seen version =>
        if version ∈ seen then seen else seen ++ [version]) seen ↔
        projection ∈ seen ∨ projection ∈ hits := by
    intro hits
    induction hits with
    | nil => simp
    | cons hit hits ih =>
      intro seen
      rw [List.foldl_cons, ih, List.mem_cons]
      split
      · rename_i hseen
        constructor
        · rintro (h | h)
          · exact .inl h
          · exact .inr (.inr h)
        · rintro (h | rfl | h)
          · exact .inl h
          · exact .inl hseen
          · exact .inr h
      · rw [List.mem_append, List.mem_singleton, or_assoc]
  rw [SearchIndex.listProjectionVersions, hfold, List.take_of_length_le hlimit]
  simp only [List.not_mem_nil, false_or, List.mem_map, List.mem_filter, decide_eq_true_eq]
  constructor
  · rintro ⟨chunk, ⟨hmem, htenant⟩, rfl⟩
    exact ⟨chunk, hmem, htenant, rfl, rfl, rfl⟩
  · rintro ⟨chunk, hmem, htenant, h₁, h₂, h₃⟩
    refine ⟨chunk, ⟨hmem, htenant⟩, ?_⟩
    rw [h₁, h₂, h₃]
    rfl

/-- Deleting chunks makes a listing no longer. -/
theorem length_filter_without {index : SearchIndex} {scopes : List VersionScope}
    (p : IndexedChunk → Bool) :
    ((index.without scopes).chunks.filter p).length ≤ (index.chunks.filter p).length :=
  ((List.filter_sublist (l := index.chunks)).filter p).length_le

/-- Once the orphaned projections are deleted, there are none. -/
theorem Reconciled.orphanProjections_eq_nil {tenantId : String} {report : ReconciliationReport}
    {w' w₁ : World} (h : Reconciled tenantId limit false w report w') (hsame : w'.SameStores w₁)
    (hlimit : (w.index.chunks.filter fun chunk => chunk.tenantId = tenantId).length ≤
      limit * 10) :
    orphanProjections w₁ tenantId limit = [] := by
  have hindex : w₁.index =
      w.index.without ((orphanProjections w tenantId limit).map (projectionScope tenantId)) :=
    hsame.index.trans h.cleaned.index
  refine List.eq_nil_iff_forall_not_mem.2 fun projection hmem => ?_
  obtain ⟨hlisted, hunlisted⟩ := List.mem_filter.1 hmem
  rw [hsame.store, h.cleaned.store] at hunlisted
  rw [hindex, mem_listProjectionVersions ((length_filter_without _).trans hlimit)] at hlisted
  obtain ⟨chunk, hchunk, hscope⟩ := hlisted
  obtain ⟨hstored, hkept⟩ := SearchIndex.mem_without.1 hchunk
  refine hkept _ (List.mem_map.2 ⟨projection, List.mem_filter.2 ⟨?_, hunlisted⟩, rfl⟩) hscope
  exact (mem_listProjectionVersions hlimit).2 ⟨chunk, hstored, hscope⟩

/-- A finding of a kind that was not found. -/
theorem forall_kind_ne {findings : List ReconciliationFinding} {kind : String}
    (h : (findings.filter fun finding => finding.kind = kind) = []) :
    ∀ finding ∈ findings, finding.kind ≠ kind := by
  intro finding hmem hkind
  exact List.filter_eq_nil_iff.1 h finding hmem (decide_eq_true hkind)

/-- **Reconciliation.**  A reconciler that is alone and returns has reported the orphans among
what it listed, and, if it is no dry run, deleted these and nothing else.  As long as nobody
changes the stores, another run finds no orphaned object, and if the listing of the projections
was not cut off, it finds no orphaned projection and deletes nothing. -/
theorem reconciles {x : ℕ → Input} {w' : World} {report : ReconciliationReport}
    (h : (run context limit staleBefore dryRun).runAlone exec x w = (.ok report, w')) :
    Reconciled context.tenantId limit dryRun w report w' ∧
      (dryRun = false → ∀ (y : ℕ → Input) w₁ w₂ staleBefore' dryRun' report',
        w'.SameStores w₁ →
        (run context limit staleBefore' dryRun').runAlone exec y w₁ = (.ok report', w₂) →
        (∀ finding ∈ report'.findings, finding.kind ≠ "orphan_object") ∧
          ((w.index.chunks.filter fun chunk => chunk.tenantId = context.tenantId).length ≤
              limit * 10 →
            (∀ finding ∈ report'.findings, finding.kind ≠ "orphan_projection") ∧
              w₁.SameStores w₂)) := by
  refine ⟨reconciled_of_runAlone h, ?_⟩
  rintro rfl y w₁ w₂ staleBefore' dryRun' report' hsame hrun
  have hfirst := reconciled_of_runAlone h
  have hagain := reconciled_of_runAlone hrun
  have hobjects := hfirst.orphanObjects_eq_nil hsame
  refine ⟨forall_kind_ne ?_, fun hlimit => ⟨forall_kind_ne ?_, ?_⟩⟩
  · rw [hagain.objects, hobjects, List.map_nil]
  · rw [hagain.projections, hfirst.orphanProjections_eq_nil hsame hlimit, List.map_nil]
  · have hcleaned := hagain.cleaned
    rw [hobjects, hfirst.orphanProjections_eq_nil hsame hlimit, List.map_nil, ite_self,
      ite_self] at hcleaned
    exact
      { store := hcleaned.store
        index := hcleaned.index.trans SearchIndex.without_nil
        objects := hcleaned.objects.trans (List.filter_eq_self.2 (by simp)) }

end Alone

end LifecycleReconciler

namespace Sample

/-- Besides the document there are an object and a chunk that no version accounts for. -/
def littered : World :=
  { world with
    index := { world.index with chunks := [chunk, { chunk with documentVersionId := "v9" }] }
    objects := ["tenants/t/lost", "tenants/t/uploads/job/source"] }

/-- The findings about the litter. -/
def litterReport : LifecycleReconciler.ReconciliationReport where
  tenantId := "t"
  dryRun := false
  scanned := 1
  findings := [LifecycleReconciler.objectFinding "t" false "tenants/t/lost",
    LifecycleReconciler.projectionFinding "t" false ("kb", "d", "v9")]

/-- There is no litter. -/
def cleanReport : LifecycleReconciler.ReconciliationReport where
  tenantId := "t"
  dryRun := true
  scanned := 1
  findings := []

/-- The world after the litter is deleted, and after another look. -/
def tidied : World :=
  ((LifecycleReconciler.run context 100 0 false).runAlone exec (fun _ => inputOf "v")
    littered).2

def lookedAt : World :=
  ((LifecycleReconciler.run context 100 0 true).runAlone exec (fun _ => inputOf "v") tidied).2

/-- A reconciler at work, up to its first deletion. -/
def littering (l : List (Unit × Input)) : Config Action Error Unit World Unit :=
  (system settings (fun _ : Unit => Command.reconcile context 100 0 false) littered).run exec l

def sixSteps : List (Unit × Input) := List.replicate 6 ((), inputOf "v")

theorem runAlone_littered :
    (LifecycleReconciler.run context 100 0 false).runAlone exec (fun _ => inputOf "v") littered =
      (.ok litterReport, tidied) :=
  Prod.ext (by decide +kernel) rfl

theorem runAlone_tidied :
    (LifecycleReconciler.run context 100 0 true).runAlone exec (fun _ => inputOf "v") tidied =
      (.ok cleanReport, lookedAt) :=
  Prod.ext (by decide +kernel) rfl

end Sample

namespace LifecycleReconciler

/-- The litter is found and deleted, and not found again. -/
theorem reconciles_littered :
    Reconciled "t" 100 false Sample.littered Sample.litterReport Sample.tidied ∧
      Sample.tidied.SameStores Sample.lookedAt := by
  obtain ⟨hreconciled, hquiet⟩ := reconciles Sample.runAlone_littered
  have hlimit : (Sample.littered.index.chunks.filter fun chunk => chunk.tenantId = "t").length ≤
      100 * 10 := by decide
  exact ⟨hreconciled, ((hquiet rfl (fun _ => Sample.inputOf "v") Sample.tidied Sample.lookedAt 0
    true Sample.cleanReport ⟨rfl, rfl, rfl⟩ Sample.runAlone_tidied).2 hlimit).2⟩

end LifecycleReconciler

end Knowledge
end RagflowAgent
