import RagflowAgent.Agent.Domain.Text
import RagflowAgent.Fallible

/-!
# The minimal agent

The graph of the minimal agent normalizes its input and then decides, again and again, between a
tool and an answer.

* `AgentState` is what a checkpoint holds, `MinimalNode` the nodes of the graph;
* `MinimalNode.run` is what a node makes of the state, from what the model and the tool answer;
* `MinimalNode.after` are the edges.

The messages are left out: only the model reads them, and what it answers is an input.  So are
the retries of an operation, of which the nodes see the number.
-/

namespace RagflowAgent
namespace MinimalAgent

open Agent (Host Json)

/-! ## State -/

structure AgentRunIdentity where
  tenantId : String
  userId : String
  requestId : String
  threadId : String
  runId : String
  traceId : String
  deriving DecidableEq, Repr

inductive AgentRoute where
  | undecided
  | tool
  | final
  deriving DecidableEq, Repr

def AgentRoute.value : AgentRoute → String
  | undecided => "undecided"
  | tool => "tool"
  | final => "final"

structure ToolCall where
  callId : String
  name : String
  arguments : Json

/-- The output of a tool is read by the model only. -/
structure ToolExecutionResult where
  callId : String
  name : String
  status : String
  deriving DecidableEq, Repr

/-- A decision is well formed: an answer has a content, and a tool has a name. -/
inductive ModelDecision where
  | final (content : String)
  | tool (toolName : String) (toolArguments : Json)

inductive TerminationReason where
  | completed
  | failed
  deriving DecidableEq, Repr

structure AgentState where
  identity : AgentRunIdentity
  route : AgentRoute := .undecided
  pendingToolCall : Option ToolCall := none
  toolResults : List ToolExecutionResult := []
  currentNode : String := "created"
  stepCount : ℕ := 0
  retryCount : ℕ := 0
  finalAnswer : Option String := none
  terminationReason : Option TerminationReason := none
  eventSequence : ℕ := 0

def AgentState.initial (identity : AgentRunIdentity) : AgentState := { identity := identity }

/-! ## Nodes -/

/-- Why an execution ends early.  `other` is any exception that the runtime does not name, and
the end of its process. -/
inductive Cause where
  | timeout
  | recursion
  | cancelled
  | agentError (errorCode : String)
  | other (typeName message : String)
  deriving DecidableEq, Repr

/-- What an operation returns, after so many retries. -/
structure OperationResult (α : Type) where
  value : α
  retries : ℕ := 0

/-- What the model and the tool do while a node runs. -/
structure NodeInput where
  decision : Except Cause (OperationResult ModelDecision)
  execution : Except Cause (OperationResult ToolExecutionResult)

inductive MinimalNode where
  | normalizeInput
  | decide
  | executeTool
  | observe
  | finish
  deriving DecidableEq, Repr

def MinimalNode.name : MinimalNode → String
  | normalizeInput => "normalize_input"
  | decide => "decide"
  | executeTool => "execute_tool"
  | observe => "observe"
  | finish => "finish"

/-- `_stable_call_id`. -/
def stableCallId (host : Host) (state : AgentState) (toolName : String) (arguments : Json) :
    String :=
  Agent.takeText 32 <| host.sha256 <| Json.dumps host <| .dict
    [("run_id", .str state.identity.runId), ("step", .int state.stepCount),
      ("tool", .str toolName), ("arguments", arguments)]

def normalizeInput (state : AgentState) : AgentState :=
  { state with currentNode := "normalize_input" }

def decide (host : Host) (state : AgentState) (outcome : OperationResult ModelDecision) :
    AgentState :=
  let state' := { state with
    currentNode := "decide"
    stepCount := state.stepCount + 1
    retryCount := state.retryCount + outcome.retries
    eventSequence := state.eventSequence + 1 }
  match outcome.value with
  | .final content =>
    { state' with route := .final, pendingToolCall := none, finalAnswer := some content }
  | .tool toolName toolArguments =>
    { state' with
      route := .tool
      pendingToolCall :=
        some ⟨stableCallId host state toolName toolArguments, toolName, toolArguments⟩ }

def executeTool (state : AgentState) (outcome : OperationResult ToolExecutionResult) :
    AgentState :=
  { state with
    currentNode := "execute_tool"
    toolResults := state.toolResults ++ [outcome.value]
    stepCount := state.stepCount + 1
    retryCount := state.retryCount + outcome.retries
    eventSequence := state.eventSequence + 1 }

def observe (state : AgentState) : AgentState :=
  { state with
    currentNode := "observe"
    route := .undecided
    pendingToolCall := none
    stepCount := state.stepCount + 1
    eventSequence := state.eventSequence + 1 }

def finish (state : AgentState) : AgentState :=
  { state with
    currentNode := "finish"
    terminationReason := some .completed
    stepCount := state.stepCount + 1
    eventSequence := state.eventSequence + 1 }

namespace MinimalNode

/-- What a node makes of the state. -/
def run (host : Host) (state : AgentState) (input : NodeInput) :
    MinimalNode → Except Cause AgentState
  | normalizeInput => .ok (MinimalAgent.normalizeInput state)
  | decide => input.decision.map (MinimalAgent.decide host state)
  | executeTool =>
    if state.pendingToolCall.isNone then
      .error (.other "ValueError" "execute_tool requires pending_tool_call")
    else input.execution.map (MinimalAgent.executeTool state)
  | observe =>
    if state.toolResults = [] then .error (.other "ValueError" "observe requires a Tool result")
    else .ok (MinimalAgent.observe state)
  | finish =>
    if state.finalAnswer.all (· = "") then
      .error (.other "ValueError" "finish requires final_answer")
    else .ok (MinimalAgent.finish state)

/-- The node after this one, or the end of the graph. -/
def after (state : AgentState) : MinimalNode → Option MinimalNode
  | normalizeInput => some decide
  | decide => if state.route = .tool then some executeTool else some finish
  | executeTool => some observe
  | observe => some decide
  | finish => none

/-- Only the normalization of the input does not count as an event. -/
theorem eventSequence_of_run {host : Host} {state state' : AgentState} {input : NodeInput}
    {node : MinimalNode} (h : node.run host state input = .ok state') :
    state'.eventSequence =
      if node = .normalizeInput then state.eventSequence else state.eventSequence + 1 := by
  cases node with
  | normalizeInput =>
    cases h
    rfl
  | decide =>
    obtain ⟨outcome, -, rfl⟩ := map_eq_ok.1 h
    rw [if_neg nofun, MinimalAgent.decide]
    split <;> rfl
  | executeTool =>
    rw [run] at h
    split at h
    · cases h
    · obtain ⟨outcome, -, rfl⟩ := map_eq_ok.1 h
      rfl
  | observe =>
    rw [run] at h
    split at h
    · cases h
    · cases h
      rfl
  | finish =>
    rw [run] at h
    split at h
    · cases h
    · cases h
      rfl

/-- The graph never returns to the normalization of its input. -/
theorem after_ne_normalizeInput (state : AgentState) (node : MinimalNode) :
    node.after state ≠ some normalizeInput := by
  cases node with
  | decide =>
    rw [after]
    split <;> exact nofun
  | normalizeInput => exact nofun
  | executeTool => exact nofun
  | observe => exact nofun
  | finish => exact nofun

end MinimalNode

end MinimalAgent
end RagflowAgent
