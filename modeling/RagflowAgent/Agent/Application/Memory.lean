import RagflowAgent.Agent.Domain.Agentic
import RagflowAgent.Interleaving.Faults
import RagflowAgent.Interleaving.Run
import RagflowAgent.Relational.Table

/-!
# Long-term memory

What a user asks the agent to remember is stored only with the user's consent.  The service
reads the consent, decides, and writes; a user who takes the consent back has everything deleted.

The calls are those of the repository, the clock and the id generator.  The columns of a row are
those of its payload, so the tables hold the payloads.
-/

namespace RagflowAgent
namespace Agent

open Interleaving Text Text.Pattern

/-! ## State -/

/-- Tenant and user. -/
abbrev MemoryOwner : Type := String × String

structure MemoryConsent where
  tenantId : String
  userId : String
  enabled : Bool := false
  consentVersion : Option String := none
  consentedAt : Option ℕ := none
  revokedAt : Option ℕ := none
  deriving DecidableEq, Repr

structure LongTermMemory where
  memoryId : String
  tenantId : String
  userId : String
  content : String
  source : String
  consentVersion : String
  consentedAt : ℕ
  createdAt : ℕ
  expiresAt : ℕ
  deletedAt : Option ℕ := none
  content_length : content ≠ "" ∧ content.length ≤ 2000
  deriving DecidableEq, Repr

def MemoryConsent.owner (consent : MemoryConsent) : MemoryOwner :=
  (consent.tenantId, consent.userId)

def LongTermMemory.owner (memory : LongTermMemory) : MemoryOwner := (memory.tenantId, memory.userId)

/-- `agent_memory_consents`. -/
instance : Keyed MemoryOwner MemoryConsent := ⟨MemoryConsent.owner⟩

/-- `agent_long_term_memories`. -/
instance : Keyed (MemoryOwner × String) LongTermMemory :=
  ⟨fun memory => (memory.owner, memory.memoryId)⟩

/-- The two tables. -/
structure MemoryWorld where
  consents : Table MemoryConsent := Table.empty
  memories : Table LongTermMemory := Table.empty

inductive MemoryException where
  | policy (message errorCode : String)
  | other (typeName : String)
  deriving DecidableEq, Repr

/-- What settles a call. -/
structure MemoryInput extends Faults MemoryException where
  now : ℕ := 0
  newId : String := ""
  deriving DecidableEq, Repr

/-! ## Calls -/

/-- The calls, with the type of their answers. -/
inductive MemoryCall : Type → Type 1 where
  | now : MemoryCall ℕ
  | newId : MemoryCall String
  | saveConsent (consent : MemoryConsent) : MemoryCall Unit
  | getConsent (owner : MemoryOwner) : MemoryCall (Option MemoryConsent)
  | saveMemory (memory : LongTermMemory) : MemoryCall Unit
  | listMemories (owner : MemoryOwner) : MemoryCall (List LongTermMemory)
  | deleteMemory (owner : MemoryOwner) (memoryId : String) : MemoryCall Bool
  | deleteUserMemories (owner : MemoryOwner) : MemoryCall ℕ
  | deleteExpired (before : ℕ) : MemoryCall ℕ

namespace MemoryCall

/-- The clock and the id generator cannot fail. -/
def external ⦃β : Type⦄ : MemoryCall β → Bool
  | now => false
  | newId => false
  | _ => true

/-- What a call does when it takes effect: its answer and the next state. -/
def effect ⦃β : Type⦄ (c : MemoryCall β) (x : MemoryInput) (w : MemoryWorld) :
    Except MemoryException (β × MemoryWorld) :=
  match c with
  | now => .ok (x.now, w)
  | newId => .ok (x.newId, w)
  | saveConsent consent => .ok ((), { w with consents := w.consents.upsert consent })
  | getConsent owner => .ok (w.consents.get owner, w)
  | saveMemory memory =>
    match w.memories.add memory with
    | none => .error (.other "IntegrityError")
    | some memories => .ok ((), { w with memories := memories })
  | listMemories owner =>
    .ok (w.memories.rows.filter fun memory =>
      memory.owner = owner ∧ memory.deletedAt = none, w)
  | deleteMemory owner memoryId =>
    let selected (memory : LongTermMemory) : Bool :=
      memory.owner = owner ∧ memory.memoryId = memoryId
    .ok (w.memories.rows.countP selected == 1, { w with memories := w.memories.erase selected })
  | deleteUserMemories owner =>
    let selected (memory : LongTermMemory) : Bool := memory.owner = owner
    .ok (w.memories.rows.countP selected, { w with memories := w.memories.erase selected })
  | deleteExpired before =>
    let selected (memory : LongTermMemory) : Bool := memory.expiresAt ≤ before
    .ok (w.memories.rows.countP selected, { w with memories := w.memories.erase selected })

end MemoryCall

abbrev MemoryProgram (α : Type) : Type 1 := Prog MemoryCall MemoryException α

/-- **One step of a service.** -/
def execMemory ⦃β : Type⦄ (c : MemoryCall β) (x : MemoryInput) (w : MemoryWorld) :
    Except MemoryException β × MemoryWorld :=
  execFaulty MemoryCall.external MemoryInput.toFaults MemoryCall.effect c x w

/-! ## The service -/

/-- `_FORBIDDEN_MEMORY`. -/
def forbiddenMemory : Pattern :=
  let separator := optional (one fun c => c == '_' || c == ' ' || c == '-')
  choice [word "password", word "passwd", sequence [word "api", separator, word "key"],
    sequence [word "access", separator, word "token"], word "authorization:",
    sequence [word "private", separator, word "key"], word "密码", word "密钥", word "令牌"]

/-- `context.tenant_id`, `context.actor_id`. -/
def ToolAuthorizationContext.memoryOwner (context : ToolAuthorizationContext) : MemoryOwner :=
  (context.tenantId, context.actorId)

/-- The time to live of a memory is counted in ticks of the clock. -/
structure LongTermMemoryService where
  ttl : ℕ

namespace LongTermMemoryService

variable (service : LongTermMemoryService)

def setConsent (context : ToolAuthorizationContext) (enabled : Bool) (consentVersion : String) :
    MemoryProgram MemoryConsent := do
  let now ← Prog.perform .now
  let consent : MemoryConsent := {
    tenantId := context.tenantId
    userId := context.actorId
    enabled := enabled
    consentVersion := if enabled then some consentVersion else none
    consentedAt := if enabled then some now else none
    revokedAt := if enabled then none else some now }
  Prog.perform (.saveConsent consent)
  if enabled then return consent
  else
    let _ ← Prog.perform (.deleteUserMemories context.memoryOwner)
    return consent

def remember (context : ToolAuthorizationContext) (content source : String)
    (explicitUserRequest : Bool) : MemoryProgram LongTermMemory := do
  let required : MemoryException :=
    .policy "long-term memory requires explicit current consent and request"
      "memory_consent_required"
  match ← Prog.perform (.getConsent context.memoryOwner) with
  | none => .raise required
  | some consent =>
    if explicitUserRequest = false ∨ consent.enabled = false then .raise required
    else
      let normalized := strip content
      if h : normalized = "" ∨ 2000 < normalized.length then
        .raise (.policy "memory content is invalid" "memory_content_invalid")
      else if forbiddenMemory.occursIn normalized then
        .raise (.policy "secret-like content cannot be stored in long-term memory"
          "memory_sensitive_content")
      else do
        let now ← Prog.perform .now
        let memoryId ← Prog.perform .newId
        let item : LongTermMemory := {
          memoryId := memoryId
          tenantId := context.tenantId
          userId := context.actorId
          content := normalized
          source := source
          consentVersion :=
            if isBlank consent.consentVersion then "unknown" else consent.consentVersion.getD ""
          consentedAt := consent.consentedAt.getD now
          createdAt := now
          expiresAt := now + service.ttl
          content_length := not_or.1 h |>.imp_right Nat.not_lt.1 }
        Prog.perform (.saveMemory item)
        return item

def listActive (context : ToolAuthorizationContext) : MemoryProgram (List LongTermMemory) := do
  match ← Prog.perform (.getConsent context.memoryOwner) with
  | none => return []
  | some consent =>
    if consent.enabled = false then return []
    else do
      let now ← Prog.perform .now
      let items ← Prog.perform (.listMemories context.memoryOwner)
      return items.filter fun item => item.deletedAt = none ∧ now < item.expiresAt

def consentEnabled (context : ToolAuthorizationContext) : MemoryProgram Bool := do
  let consent ← Prog.perform (.getConsent context.memoryOwner)
  return consent.any MemoryConsent.enabled

def delete (context : ToolAuthorizationContext) (memoryId : String) : MemoryProgram Bool :=
  Prog.perform (.deleteMemory context.memoryOwner memoryId)

def cleanupExpired : MemoryProgram ℕ := do
  let now ← Prog.perform .now
  Prog.perform (.deleteExpired now)

end LongTermMemoryService

/-! ## Commands -/

/-- What a caller can ask for. -/
inductive MemoryCommand where
  | setConsent (context : ToolAuthorizationContext) (enabled : Bool) (consentVersion : String)
  | remember (context : ToolAuthorizationContext) (content source : String)
      (explicitUserRequest : Bool)
  | listActive (context : ToolAuthorizationContext)
  | consentEnabled (context : ToolAuthorizationContext)
  | delete (context : ToolAuthorizationContext) (memoryId : String)
  | cleanupExpired

/-- What a command returns. -/
inductive MemoryResult where
  | consent (consent : MemoryConsent)
  | stored (memory : LongTermMemory)
  | listed (items : List LongTermMemory)
  | enabled (enabled : Bool)
  | deleted (deleted : Bool)
  | cleaned (count : ℕ)

/-- The memories that a command returns, if it lists memories. -/
def MemoryResult.items : MemoryResult → List LongTermMemory
  | listed items => items
  | _ => []

def MemoryCommand.program (service : LongTermMemoryService) :
    MemoryCommand → MemoryProgram MemoryResult
  | setConsent context enabled consentVersion =>
    (LongTermMemoryService.setConsent context enabled consentVersion).bind
      fun consent => .ret (.consent consent)
  | remember context content source explicitUserRequest =>
    (service.remember context content source explicitUserRequest).bind
      fun memory => .ret (.stored memory)
  | listActive context =>
    (LongTermMemoryService.listActive context).bind fun items => .ret (.listed items)
  | consentEnabled context =>
    (LongTermMemoryService.consentEnabled context).bind fun enabled => .ret (.enabled enabled)
  | delete context memoryId =>
    (LongTermMemoryService.delete context memoryId).bind fun deleted => .ret (.deleted deleted)
  | cleanupExpired => LongTermMemoryService.cleanupExpired.bind fun count => .ret (.cleaned count)

/-- Any number of callers over one world. -/
def memorySystem {τ : Type} (service : LongTermMemoryService) (commands : τ → MemoryCommand)
    (w : MemoryWorld) : Config MemoryCall MemoryException MemoryResult MemoryWorld τ :=
  ⟨w, fun t => (commands t).program service⟩

end Agent
end RagflowAgent
