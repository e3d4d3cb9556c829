import RagflowAgent.Fallible
import RagflowAgent.Agent.Graphs.MinimalAgent

/-!
# The runtime of the minimal agent

The runtime streams the updates of the graph, numbers the events that tell of them, and resumes a
run from its last checkpoint.

* `TracePublisher.emit` numbers an event;
* `step` is a turn of the graph: a node runs, and its update is published.  `stream` takes turn
  after turn, and `execute` adds the first and the last event;
* `afterRun` and `afterResume` are a run and the resumption of it, and `history` is a run with any
  number of resumptions.

Where an execution stops is an input.  It can be interrupted before or while a node runs, and while
the update of a node is published; `Execution.saved` tells how many of its checkpoints are durable
when it is over.
-/

namespace RagflowAgent
namespace MinimalAgent

open Agent (Host Json)

/-! ## Events -/

inductive AgentEventType where
  | runStarted
  | runResumed
  | nodeCompleted
  | modelCompleted
  | toolCompleted
  | runCompleted
  | runFailed
  | runCancelled
  deriving DecidableEq, Repr

structure AgentEvent where
  eventType : AgentEventType
  identity : AgentRunIdentity
  sequence : ℕ
  node : Option String
  payload : List (String × Json)

/-- The arguments of `emit`. -/
structure Emission where
  eventType : AgentEventType
  node : Option String := none
  payload : List (String × Json) := []
  minimumSequence : Option ℕ := none

/-- The counter of an execution, and the events it has emitted. -/
structure TracePublisher where
  identity : AgentRunIdentity
  sequence : ℕ
  events : List AgentEvent := []

namespace TracePublisher

def emit (publisher : TracePublisher) (emission : Emission) : TracePublisher :=
  let sequence := max (publisher.sequence + 1) (emission.minimumSequence.getD 0)
  { publisher with
    sequence := sequence
    events := publisher.events ++
      [⟨emission.eventType, publisher.identity, sequence, emission.node, emission.payload⟩] }

def emitAll (publisher : TracePublisher) (emissions : List Emission) : TracePublisher :=
  emissions.foldl emit publisher

end TracePublisher

/-- `_publish_update`: the events that tell of the update of a node. -/
def publishUpdate (node : MinimalNode) (state : AgentState) : List Emission :=
  let completed : Emission := {
    eventType := .nodeCompleted
    node := some node.name
    payload := [("route", .str state.route.value), ("step_count", .int state.stepCount),
      ("retry_count", .int state.retryCount)]
    minimumSequence := some state.eventSequence }
  match node with
  | .decide => [completed, {
      eventType := .modelCompleted
      node := some node.name
      payload := [("decision", .str state.route.value),
        ("tool_name", (state.pendingToolCall.map fun call => Json.str call.name).getD .null)] }]
  | .executeTool => completed ::
      (state.toolResults.getLast?.map fun result => {
        eventType := .toolCompleted
        node := some node.name
        payload := [("tool_name", .str result.name), ("status", .str result.status)] }).toList
  | _ => [completed]

/-- The event of an execution that ends early, if the runtime names the cause. -/
def Cause.emission : Cause → List Emission
  | .timeout => [{ eventType := .runFailed, payload := [("error_code", .str "agent_timeout")] }]
  | .recursion =>
    [{ eventType := .runFailed, payload := [("error_code", .str "agent_step_limit_exceeded")] }]
  | .cancelled => [{ eventType := .runCancelled }]
  | .agentError errorCode =>
    [{ eventType := .runFailed, payload := [("error_code", .str errorCode)] }]
  | .other _ _ => []

/-! ## An execution -/

/-- A state of the graph, and the node that is to run. -/
structure Checkpoint where
  state : AgentState
  next : Option MinimalNode

/-- Where an execution is interrupted: before the node is done, or when so many events of its
update are emitted. -/
inductive Interruption where
  | running (cause : Cause)
  | publishing (emitted : ℕ) (cause : Cause)

structure Turn where
  input : NodeInput
  interruption : Option Interruption := none

structure Execution where
  turns : ℕ → Turn
  saved : ℕ

structure AgentRuntime where
  host : Host
  maxGraphSteps : ℕ := 12

/-- What a stream leaves: the publisher, the checkpoints after its nodes, and its end. -/
structure Streamed where
  publisher : TracePublisher
  trail : List Checkpoint
  ending : Except Cause AgentState

/-- What an execution leaves: its events, the checkpoints after its nodes, and the final state
unless it has failed. -/
structure Executed where
  events : List AgentEvent
  trail : List Checkpoint
  result : Except Cause AgentState

/-- The last durable checkpoint of a run, and all its events in the order of their emission. -/
structure Thread where
  checkpoint : Option Checkpoint := none
  events : List AgentEvent := []

/-- The last durable checkpoint, when `saved` of those in the list are. -/
def durable (previous : Option Checkpoint) (trail : List Checkpoint) (saved : ℕ) :
    Option Checkpoint :=
  (trail.take saved).getLast?.or previous

namespace AgentRuntime

variable (runtime : AgentRuntime)

/-- One turn of the graph: the stream ends, or it goes on from the checkpoint that is reached. -/
def step (turn : Turn) (checkpoint : Checkpoint) (publisher : TracePublisher) :
    Streamed ⊕ Checkpoint × TracePublisher :=
  match turn.interruption, checkpoint.next with
  | some (.running cause), _ => .inl ⟨publisher, [], .error cause⟩
  | _, none => .inl ⟨publisher, [], .ok checkpoint.state⟩
  | interruption, some node =>
    match node.run runtime.host checkpoint.state turn.input with
    | .error cause => .inl ⟨publisher, [], .error cause⟩
    | .ok state =>
      let reached : Checkpoint := ⟨state, node.after state⟩
      match interruption with
      | some (.publishing emitted cause) =>
        .inl ⟨publisher.emitAll ((publishUpdate node state).take emitted), [reached],
          .error cause⟩
      | _ => .inr (reached, publisher.emitAll (publishUpdate node state))

/-- The graph from a checkpoint on, for at most `fuel` nodes; the next turn has number `i`. -/
def stream (turns : ℕ → Turn) : ℕ → ℕ → Checkpoint → TracePublisher → Streamed
  | 0, i, checkpoint, publisher =>
    match (turns i).interruption, checkpoint.next with
    | some (.running cause), _ => ⟨publisher, [], .error cause⟩
    | _, none => ⟨publisher, [], .ok checkpoint.state⟩
    | _, some _ => ⟨publisher, [], .error .recursion⟩
  | fuel + 1, i, checkpoint, publisher =>
    match runtime.step (turns i) checkpoint publisher with
    | .inl streamed => streamed
    | .inr (reached, publisher) =>
      let rest := stream turns fuel (i + 1) reached publisher
      { rest with trail := reached :: rest.trail }

/-- `_execute`. -/
def execute (identity : AgentRunIdentity) (start : Checkpoint) (startEvent : AgentEventType)
    (execution : Execution) : Executed :=
  let publisher : TracePublisher := ⟨identity, start.state.eventSequence, []⟩
  let streamed := runtime.stream execution.turns runtime.maxGraphSteps 0 start
    (publisher.emit { eventType := startEvent })
  match streamed.ending with
  | .error cause =>
    ⟨(streamed.publisher.emitAll cause.emission).events, streamed.trail, .error cause⟩
  | .ok state =>
    if state.terminationReason ≠ some .completed then
      ⟨streamed.publisher.events, streamed.trail, .error (.agentError "agent_checkpoint_invalid")⟩
    else
      ⟨(streamed.publisher.emit {
        eventType := .runCompleted
        node := some state.currentNode
        payload := [("step_count", .int state.stepCount),
          ("retry_count", .int state.retryCount)] }).events, streamed.trail, .ok state⟩

/-! ## A run and its resumptions -/

/-- `run` of a thread without a checkpoint. -/
def afterRun (identity : AgentRunIdentity) (execution : Execution) : Thread :=
  let start : Checkpoint := ⟨AgentState.initial identity, some .normalizeInput⟩
  let executed := runtime.execute identity start .runStarted execution
  ⟨durable none (start :: executed.trail) execution.saved, executed.events⟩

/-- `resume`, which raises without an event when there is no checkpoint. -/
def afterResume (identity : AgentRunIdentity) (thread : Thread) (execution : Execution) : Thread :=
  match thread.checkpoint with
  | none => thread
  | some start =>
    let executed := runtime.execute identity start .runResumed execution
    ⟨durable (some start) executed.trail execution.saved, thread.events ++ executed.events⟩

/-- A run, and resumptions of it one after another. -/
def history (identity : AgentRunIdentity) (run : Execution) (resumptions : List Execution) :
    Thread :=
  resumptions.foldl (runtime.afterResume identity) (runtime.afterRun identity run)

end AgentRuntime

end MinimalAgent
end RagflowAgent
