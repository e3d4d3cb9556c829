import Mathlib.Tactic.ByContra
import RagflowAgent.Knowledge.Domain.Failure

/-!
# Who may do what

The first-version policy: a resource belongs to a tenant and an owner, and apart from
its owner only readers of a tenant-visible resource are let in.  `PermissionChecker.check`
gives the decision with its reason, `PermissionChecker.require` raises on a denial.
-/

namespace RagflowAgent
namespace Knowledge

/-- `PRIVATE` is called `ownerOnly` here, since `private` is a keyword. -/
inductive Visibility where
  | ownerOnly
  | tenant
  deriving DecidableEq, Repr

inductive PermissionAction where
  | read
  | write
  | delete
  | manage
  deriving DecidableEq, Repr

/-- Trusted identity of a request. -/
structure AuthorizationContext where
  tenantId : String
  actorId : String
  requestId : String
  roles : List String := []
  deriving DecidableEq, Repr

/-- What the policy looks at in a resource. -/
structure ResourceAuthorization where
  tenantId : String
  ownerId : String
  visibility : Visibility
  deriving DecidableEq, Repr

structure PermissionDecision where
  allowed : Bool
  reasonCode : String
  deriving DecidableEq, Repr

namespace PermissionChecker

def check (context : AuthorizationContext) (resource : ResourceAuthorization)
    (action : PermissionAction) : PermissionDecision :=
  if context.tenantId ≠ resource.tenantId then ⟨false, "tenant_mismatch"⟩
  else if context.actorId = resource.ownerId then ⟨true, "owner_allowed"⟩
  else if resource.visibility = .tenant ∧ action = .read then ⟨true, "tenant_read_allowed"⟩
  else if resource.visibility = .ownerOnly then ⟨false, "private_owner_required"⟩
  else ⟨false, "owner_write_required"⟩

def require (context : AuthorizationContext) (resource : ResourceAuthorization)
    (action : PermissionAction) : Except Error Unit :=
  let decision := check context resource action
  if decision.allowed then .ok () else .error (.authorization decision.reasonCode)

/-- **Tenants are isolated**: whatever is allowed is allowed inside one tenant. -/
theorem tenantId_eq_of_require {context : AuthorizationContext}
    {resource : ResourceAuthorization} {action : PermissionAction}
    (h : require context resource action = .ok ()) : context.tenantId = resource.tenantId := by
  by_contra hne
  simp [require, check, hne] at h

/-- Readers are the owner, and everybody in the tenant when the resource is visible there. -/
theorem allowed_read_iff {context : AuthorizationContext} {resource : ResourceAuthorization} :
    (check context resource .read).allowed = true ↔
      context.tenantId = resource.tenantId ∧
        (context.actorId = resource.ownerId ∨ resource.visibility = .tenant) := by
  unfold check
  by_cases htenant : context.tenantId = resource.tenantId
  · by_cases howner : context.actorId = resource.ownerId
    · simp [htenant, howner]
    · cases resource.visibility with
      | ownerOnly => simp [htenant, howner]
      | tenant => simp [htenant, howner]
  · simp [htenant]

/-- A requirement is met exactly when the decision allows it. -/
theorem require_eq_ok_iff {context : AuthorizationContext} {resource : ResourceAuthorization}
    {action : PermissionAction} :
    require context resource action = .ok () ↔ (check context resource action).allowed = true := by
  unfold require
  by_cases h : (check context resource action).allowed = true <;> simp [h]

/-- What a requirement raises that is not met. -/
theorem require_eq_error {context : AuthorizationContext} {resource : ResourceAuthorization}
    {action : PermissionAction} {e : Error} (h : require context resource action = .error e) :
    (check context resource action).allowed ≠ true ∧
      ∃ reasonCode, e = .authorization reasonCode := by
  unfold require at h
  by_cases hallowed : (check context resource action).allowed = true
  · simp [hallowed] at h
  · simp only [hallowed, if_neg, Bool.false_eq_true, not_false_eq_true] at h
    cases h
    exact ⟨hallowed, _, rfl⟩

/-- Nobody but the owner writes or deletes. -/
theorem actorId_eq_of_require {context : AuthorizationContext}
    {resource : ResourceAuthorization} {action : PermissionAction} (ha : action ≠ .read)
    (h : require context resource action = .ok ()) : context.actorId = resource.ownerId := by
  by_contra hne
  have hread : ¬ (resource.visibility = .tenant ∧ action = .read) := fun hread => ha hread.2
  have hdeny : (check context resource action).allowed = false := by
    unfold check
    rw [if_neg hne, if_neg hread]
    split
    · rfl
    · split <;> rfl
  simp [require, hdeny] at h

end PermissionChecker

inductive KnowledgeBaseStatus where
  | active
  | archived
  deriving DecidableEq, Repr

/-- A knowledge base, as far as document registration reads it. -/
structure KnowledgeBase where
  id : String
  tenantId : String
  ownerId : String
  name : String
  visibility : Visibility := .ownerOnly
  status : KnowledgeBaseStatus := .active
  createdAt : ℕ
  updatedAt : ℕ
  deriving DecidableEq, Repr

namespace KnowledgeBase

def authorization (knowledgeBase : KnowledgeBase) : ResourceAuthorization where
  tenantId := knowledgeBase.tenantId
  ownerId := knowledgeBase.ownerId
  visibility := knowledgeBase.visibility

def validate (knowledgeBase : KnowledgeBase) : Except Error KnowledgeBase :=
  if knowledgeBase.updatedAt < knowledgeBase.createdAt then
    .error (.validation "updated_at cannot precede created_at")
  else .ok knowledgeBase

end KnowledgeBase

end Knowledge
end RagflowAgent
