import RagflowAgent.Knowledge.Tenancy.Services

/-!
# Tenants do not see each other

All tenants share one database, one index and one bucket of objects, and their services interleave
at will.  `isolated_run` says that a tenant cannot tell: what belongs to it and what its services
are answered are, at every moment of every run, what they would be if the rows, chunks and objects
of all other tenants did not exist and none of their steps had been taken.

Nothing checks the names of tenants, and isolation needs two things of them.  Without the colon the
ids of chunks of different tenants are different, and without the slash no tenant's prefix of object
keys begins another's; what goes wrong otherwise is shown at the end.
-/

namespace RagflowAgent
namespace Knowledge

open Interleaving

section Runs

variable {τ : Type} [DecidableEq τ]

/-- A run of the system in which there is one tenant: with its part of the world, and with its
steps of the schedule. -/
def alone (settings : Settings) (commands : τ → Command) (w : World) (tenantId : String)
    (l : List (τ × Input)) : Config Action Error Unit World τ :=
  (system settings commands (w.ofTenant tenantId)).run exec
    (l.filter fun step => (commands step.1).tenantId = tenantId)

omit [DecidableEq τ] in
/-- The commands of a system stay with their tenants. -/
theorem separate_system {settings : Settings} {commands : τ → Command} {w : World}
    (hw : w.WellNamed) (hcommands : ∀ t, PlainName (commands t).tenantId) :
    Separate tenantDiscipline World.WellNamed
      (fun t => (⟨(commands t).tenantId, hcommands t⟩ : TenantName))
      (system settings commands w) where
  inv := hw
  obedient t := by
    have hconfined : Confined ⟨(commands t).tenantId, hcommands t⟩
        ((commands t).service settings) fun _ => True := confined_service rfl
    exact ⟨[], hconfined⟩

/-- **Tenant isolation.**  Whatever the others have stored and whatever they do, and whatever fails
on the way: what belongs to a tenant is what it would be without them, and so is what its services
have been answered and still have to do. -/
theorem isolated_run (settings : Settings) (commands : τ → Command) (w : World)
    (l : List (τ × Input)) {tenantId : String} (hw : w.WellNamed)
    (hcommands : ∀ t, PlainName (commands t).tenantId) (htenant : PlainName tenantId) :
    ((system settings commands w).run exec l).state.ofTenant tenantId =
        (alone settings commands w tenantId l).state.ofTenant tenantId ∧
      ∀ t, (commands t).tenantId = tenantId →
        ((system settings commands w).run exec l).threads t =
          (alone settings commands w tenantId l).threads t := by
  have hstart : Alike (fun tenant : TenantName => World.ofTenant tenant)
      (fun t => (⟨(commands t).tenantId, hcommands t⟩ : TenantName)) ⟨tenantId, htenant⟩
      (system settings commands w) (system settings commands (w.ofTenant tenantId)) :=
    ⟨World.ofTenant_ofTenant.symm, fun _ _ => rfl⟩
  obtain ⟨hview, hthreads⟩ := unwinding_exec.alike_run_filter (separate_system hw hcommands)
    (separate_system hw.ofTenant hcommands) hstart l
  have hsteps : (l.filter fun step => decide ((⟨(commands step.1).tenantId,
      hcommands step.1⟩ : TenantName) = ⟨tenantId, htenant⟩)) =
        l.filter fun step => (commands step.1).tenantId = tenantId :=
    List.filter_congr fun step _ =>
      decide_eq_decide.2 ⟨fun h => congrArg Subtype.val h, fun h => Subtype.ext h⟩
  rw [hsteps] at hview hthreads
  exact ⟨hview, fun t ht => hthreads t (Subtype.ext ht)⟩

end Runs

namespace Sample

/-- The reconciler of another tenant. -/
def stranger : AuthorizationContext := { context with tenantId := "u" }

/-- A tenant deletes its document, and another one looks for orphans. -/
def neighbours : Bool → Command
  | false => .requestDelete context "d" "k" "r"
  | true => .reconcile stranger 100 0 false

theorem wellNamed_world : world.WellNamed where
  chunks chunk hchunk := by
    obtain rfl := List.mem_singleton.1 hchunk
    decide
  versions version hversion := by
    obtain rfl := List.mem_singleton.1 hversion
    have howns : OwnsObject "t" "tenants/t/uploads/job/source" := by decide
    exact howns

theorem plainName_neighbours (t : Bool) : PlainName (neighbours t).tenantId := by
  revert t
  decide

/-- The two take turns. -/
def turns : List (Bool × Input) :=
  (List.replicate 7 [(false, inputOf "v"), (true, inputOf "v")]).flatten

end Sample

/-- The deletion goes as it goes without the reconciler. -/
theorem isolated_run_neighbours :
    ((system Sample.settings Sample.neighbours Sample.world).run exec
        Sample.turns).state.ofTenant "t" =
      (alone Sample.settings Sample.neighbours Sample.world "t" Sample.turns).state.ofTenant "t" :=
  (isolated_run Sample.settings Sample.neighbours Sample.world Sample.turns Sample.wellNamed_world
    Sample.plainName_neighbours (by decide)).1

/-- A slash in the name of a tenant is not harmless: the reconciler of the tenant `t` takes an
object of the tenant `t/s` for an orphan of its own. -/
example : OwnsObject "t/s" "tenants/t/s/uploads/job/source" ∧
    ((LifecycleReconciler.run Sample.context 100 0 false).runAlone exec
      (fun _ => Sample.inputOf "v")
      { Sample.world with objects := ["tenants/t/s/uploads/job/source"] }).2.objects = [] := by
  decide +kernel

end Knowledge
end RagflowAgent
