import RagflowAgent.Agent.Graphs.MinimalAgent
import RagflowAgent.Text.Joined
import RagflowAgent.Text.Percent

/-!
# Checkpoints

The checkpoints of all runs of all tenants are in one checkpointer, which knows nothing but the
names of threads.

* `Checkpointer` is what the checkpointer does to the checkpoints of a thread;
* `storageThreadId` and `agenticThreadId` name the threads of the minimal agent and of the agentic
  graph, by quoted texts;
* `load`, `listCheckpointIds` and `delete` are the store of the minimal agent, which looks at the
  owner of a checkpoint too;
* `StoreCall` is any call on the checkpointer, by either graph, and `trace` what a sequence of
  calls is answered.
-/

namespace RagflowAgent
namespace Checkpoints

open Agent (Json)
open MinimalAgent (AgentRunIdentity AgentState)

/-! ## The checkpointer -/

/-- A stored checkpoint. -/
structure CheckpointTuple where
  checkpointId : String
  /-- `checkpoint.get("channel_values", {})`. -/
  channelValues : Json

/-- A checkpointer: the checkpoints of each thread, the latest first, and what saving and deleting
do to them. -/
structure Checkpointer (σ : Type) where
  thread : σ → String → List CheckpointTuple
  /-- `aput`. -/
  put : σ → String → CheckpointTuple → σ
  /-- `adelete_thread`. -/
  deleteThread : σ → String → σ
  thread_put : ∀ s threadId checkpoint threadId',
    thread (put s threadId checkpoint) threadId' =
      if threadId' = threadId then checkpoint :: thread s threadId else thread s threadId'
  thread_deleteThread : ∀ s threadId threadId',
    thread (deleteThread s threadId) threadId' =
      if threadId' = threadId then [] else thread s threadId'

/-- The checkpointer that keeps its threads in memory. -/
def inMemory : Checkpointer (String → List CheckpointTuple) where
  thread s := s
  put s threadId checkpoint threadId' :=
    if threadId' = threadId then checkpoint :: s threadId else s threadId'
  deleteThread s threadId threadId' := if threadId' = threadId then [] else s threadId'
  thread_put _ _ _ _ := rfl
  thread_deleteThread _ _ _ := rfl

/-! ## Names of threads -/

def checkpointNamespace : String := "ragflow-agent:agent-state:v1"

def agenticCheckpointNamespace : String := "ragflow-agent:agentic-rag:v1"

/-- The text that both graphs name their threads by. -/
def qualified (graphNamespace tenantId threadId : String) : String :=
  graphNamespace ++ "/tenant/" ++ Text.quote tenantId ++ "/thread/" ++ Text.quote threadId

/-- `_storage_thread_id`. -/
def storageThreadId (identity : AgentRunIdentity) : String :=
  qualified checkpointNamespace identity.tenantId identity.threadId

/-- The thread of `agentic_checkpoint_config`. -/
def agenticThreadId (tenantId threadId : String) : String :=
  qualified agenticCheckpointNamespace tenantId threadId

/-! ## Decoding -/

inductive Error where
  | checkpoint (message errorCode : String)
  /-- `AgentStateVersionError`. -/
  | stateVersion (version : Option Json)
  /-- The model rejects the payload. -/
  | validation (message : String)

def accessDenied : Error :=
  .checkpoint "checkpoint identity does not match the requested run"
    "agent_checkpoint_access_denied"

/-- The keys of `AgentGraphState`. -/
def graphStateKeys : List String :=
  ["version", "identity", "messages", "route", "pending_tool_call", "tool_results",
    "current_node", "step_count", "retry_count", "final_answer", "error_code",
    "termination_reason", "event_sequence"]

/-- `checkpoint_fields`. -/
def checkpointFields (raw : List (String × Json)) : List (String × Json) :=
  raw.filter fun entry => entry.1 ∈ graphStateKeys

/-- `value == n`, where a truth value is a number. -/
def equalsInt (n : ℤ) : Json → Bool
  | .int value => value = n
  | .bool value => (if value then 1 else 0) = n
  | .float value => value = n
  | _ => false

/-- `payload["version"] = 1`, where the key is there. -/
def setVersion (payload : List (String × Json)) : List (String × Json) :=
  payload.map fun entry => if entry.1 = "version" then (entry.1, .int 1) else entry

/-- `payload.setdefault(key, value)`. -/
def setDefault (payload : List (String × Json)) (default : String × Json) :
    List (String × Json) :=
  if (Json.get payload default.1).isSome then payload else payload ++ [default]

/-- What a state of version 0 lacks. -/
def migrationDefaults : List (String × Json) :=
  [("route", .str "undecided"), ("pending_tool_call", .null), ("tool_results", .list []),
    ("current_node", .str "migrated"), ("step_count", .int 0), ("retry_count", .int 0),
    ("final_answer", .null), ("error_code", .null), ("termination_reason", .null),
    ("event_sequence", .int 0)]

/-- `migrate_state_payload`. -/
def migrateStatePayload (raw : List (String × Json)) : Except Error (List (String × Json)) :=
  match Json.get raw "version" with
  | none => .error (.stateVersion none)
  | some version =>
    if equalsInt 1 version then .ok raw
    else if equalsInt 0 version then .ok (migrationDefaults.foldl setDefault (setVersion raw))
    else .error (.stateVersion (some version))

/-- `AgentState.model_validate`. -/
abbrev Validate : Type := List (String × Json) → Except Error AgentState

/-- The state of a stored checkpoint. -/
def stateOf (validate : Validate) (checkpoint : CheckpointTuple) : Except Error AgentState :=
  match checkpoint.channelValues with
  | .dict channelValues => (migrateStatePayload (checkpointFields channelValues)).bind validate
  | _ => .error (.checkpoint "checkpoint channel values are invalid" "agent_checkpoint_invalid")

/-- `_validate_owner`. -/
def validateOwner (expected : AgentRunIdentity) (state : AgentState) : Except Error Unit :=
  if state.identity.tenantId ≠ expected.tenantId ∨ state.identity.threadId ≠ expected.threadId ∨
      state.identity.runId ≠ expected.runId then
    .error accessDenied
  else .ok ()

/-! ## The store of the minimal agent -/

section Store

variable {σ : Type} (saver : Checkpointer σ) (validate : Validate)

/-- `load`. -/
def load (s : σ) (identity : AgentRunIdentity) : Except Error (Option AgentState) :=
  match (saver.thread s (storageThreadId identity)).head? with
  | none => .ok none
  | some checkpoint => do
    let state ← stateOf validate checkpoint
    validateOwner identity state
    return some state

/-- `list_checkpoint_ids`. -/
def listCheckpointIds (s : σ) (identity : AgentRunIdentity) : List String :=
  (saver.thread s (storageThreadId identity)).map CheckpointTuple.checkpointId

/-- `delete`. -/
def delete (s : σ) (identity : AgentRunIdentity) : Except Error Unit × σ :=
  match load saver validate s identity with
  | .error e => (.error e, s)
  | .ok none => (.ok (), saver.deleteThread s (storageThreadId identity))
  | .ok (some state) =>
    match validateOwner identity state with
    | .error e => (.error e, s)
    | .ok () => (.ok (), saver.deleteThread s (storageThreadId identity))

/-! ## Calls -/

/-- A call on the checkpointer. -/
inductive StoreCall where
  | load (identity : AgentRunIdentity)
  | listCheckpointIds (identity : AgentRunIdentity)
  | delete (identity : AgentRunIdentity)
  /-- The graph of the minimal agent saves a checkpoint. -/
  | save (identity : AgentRunIdentity) (checkpoint : CheckpointTuple)
  /-- `aget_state` of the agentic graph. -/
  | agenticState (tenantId threadId : String)
  /-- The agentic graph saves a checkpoint. -/
  | agenticSave (tenantId threadId : String) (checkpoint : CheckpointTuple)

inductive Answer where
  | loaded (result : Except Error (Option AgentState))
  | listed (checkpointIds : List String)
  | deleted (result : Except Error Unit)
  | snapshot (checkpoint : Option CheckpointTuple)
  | saved

/-- What a call is about: the graph, by its namespace, the tenant and the thread. -/
structure Scope where
  graphNamespace : String
  tenantId : String
  threadId : String
  deriving DecidableEq, Repr

def StoreCall.scope : StoreCall → Scope
  | load identity => ⟨checkpointNamespace, identity.tenantId, identity.threadId⟩
  | listCheckpointIds identity => ⟨checkpointNamespace, identity.tenantId, identity.threadId⟩
  | delete identity => ⟨checkpointNamespace, identity.tenantId, identity.threadId⟩
  | save identity _ => ⟨checkpointNamespace, identity.tenantId, identity.threadId⟩
  | agenticState tenantId threadId => ⟨agenticCheckpointNamespace, tenantId, threadId⟩
  | agenticSave tenantId threadId _ => ⟨agenticCheckpointNamespace, tenantId, threadId⟩

/-- One call: its answer and the next state. -/
def answer (s : σ) : StoreCall → Answer × σ
  | .load identity => (.loaded (load saver validate s identity), s)
  | .listCheckpointIds identity => (.listed (listCheckpointIds saver s identity), s)
  | .delete identity =>
    ((.deleted (delete saver validate s identity).1), (delete saver validate s identity).2)
  | .save identity checkpoint => (.saved, saver.put s (storageThreadId identity) checkpoint)
  | .agenticState tenantId threadId =>
    (.snapshot (saver.thread s (agenticThreadId tenantId threadId)).head?, s)
  | .agenticSave tenantId threadId checkpoint =>
    (.saved, saver.put s (agenticThreadId tenantId threadId) checkpoint)

/-- The calls and their answers. -/
def trace : σ → List StoreCall → List (StoreCall × Answer)
  | _, [] => []
  | s, call :: calls =>
    (call, (answer saver validate s call).1) :: trace (answer saver validate s call).2 calls

end Store

end Checkpoints
end RagflowAgent
