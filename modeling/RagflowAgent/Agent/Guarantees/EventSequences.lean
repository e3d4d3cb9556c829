import RagflowAgent.Agent.Application.Runtime

/-!
# The numbers of a run's events

Within one execution the counter only grows, so the events of a run are numbered in their order.
A resumption takes its counter from the restored state.  The state counts the nodes that have run,
but the counter has also numbered the start of the run and what the model and the tools did, so it
is always ahead of the state; the resumption repeats a number.

* `Numbered` is the invariant of a publisher, `numbered_stream` its run lemma;
* `step_cases` says what a turn does, and `lt_of_mem_trail` that every checkpoint of a run is
  behind its counter;
* `increasing_iff` is the theorem.
-/

namespace RagflowAgent
namespace MinimalAgent

/-- The events are numbered in the order of their emission. -/
def Increasing (events : List AgentEvent) : Prop :=
  (events.map AgentEvent.sequence).Pairwise (· < ·)

instance (events : List AgentEvent) : Decidable (Increasing events) :=
  inferInstanceAs (Decidable (List.Pairwise _ _))

/-! ## The publisher -/

/-- The events of a publisher are increasing up to its counter. -/
structure Numbered (publisher : TracePublisher) : Prop where
  increasing : Increasing publisher.events
  le : ∀ event ∈ publisher.events, event.sequence ≤ publisher.sequence
  reached : publisher.events ≠ [] → ∃ event ∈ publisher.events, event.sequence = publisher.sequence

section Publisher

variable {publisher : TracePublisher}

theorem lt_sequence_emit (publisher : TracePublisher) (emission : Emission) :
    publisher.sequence < (publisher.emit emission).sequence :=
  lt_of_lt_of_le (Nat.lt_succ_self _) (le_max_left _ _)

theorem le_sequence_emitAll (emissions : List Emission) :
    ∀ publisher : TracePublisher,
      publisher.sequence ≤ (publisher.emitAll emissions).sequence := by
  induction emissions with
  | nil => exact fun _ => le_rfl
  | cons emission emissions ih =>
    exact fun publisher => (lt_sequence_emit publisher emission).le.trans (ih _)

/-- Every update is published with at least one event. -/
theorem lt_sequence_publishUpdate (publisher : TracePublisher) (node : MinimalNode)
    (state : AgentState) :
    publisher.sequence < (publisher.emitAll (publishUpdate node state)).sequence := by
  obtain ⟨emission, emissions, h⟩ :
      ∃ emission emissions, publishUpdate node state = emission :: emissions := by
    cases node with
    | decide => exact ⟨_, _, rfl⟩
    | executeTool => exact ⟨_, _, rfl⟩
    | normalizeInput => exact ⟨_, _, rfl⟩
    | observe => exact ⟨_, _, rfl⟩
    | finish => exact ⟨_, _, rfl⟩
  rw [h]
  exact lt_of_lt_of_le (lt_sequence_emit publisher emission) (le_sequence_emitAll emissions _)

/-- What is emitted comes after what was. -/
theorem prefix_emitAll (emissions : List Emission) :
    ∀ publisher : TracePublisher, publisher.events <+: (publisher.emitAll emissions).events := by
  induction emissions with
  | nil => exact fun _ => List.prefix_rfl
  | cons emission emissions ih =>
    intro publisher
    have hfirst : publisher.events <+: (publisher.emit emission).events := List.prefix_append _ _
    exact hfirst.trans (ih _)

theorem Numbered.emit (h : Numbered publisher) (emission : Emission) :
    Numbered (publisher.emit emission) := by
  have hlt := lt_sequence_emit publisher emission
  refine ⟨?_, fun event hevent => ?_, fun _ => ⟨_, List.mem_append_right _ (List.mem_singleton.2 rfl),
    rfl⟩⟩
  · show (List.map AgentEvent.sequence (publisher.events ++ [_])).Pairwise (· < ·)
    rw [List.map_append, List.pairwise_append]
    refine ⟨h.increasing, List.pairwise_singleton _ _, fun a ha b hb => ?_⟩
    obtain ⟨event, hevent, rfl⟩ := List.mem_map.1 ha
    obtain rfl := List.mem_singleton.1 hb
    exact lt_of_le_of_lt (h.le event hevent) hlt
  · rcases List.mem_append.1 hevent with hevent | hevent
    · exact (h.le event hevent).trans hlt.le
    · rw [List.mem_singleton.1 hevent]
      exact le_rfl

theorem Numbered.emitAll (emissions : List Emission) :
    ∀ {publisher : TracePublisher}, Numbered publisher →
      Numbered (publisher.emitAll emissions) := by
  induction emissions with
  | nil => exact fun h => h
  | cons emission emissions ih => exact fun h => ih (h.emit emission)

end Publisher

/-! ## A stream -/

section Stream

variable (runtime : AgentRuntime) (turns : ℕ → Turn)

/-- **What a turn does.**  Nothing runs; or a node runs and the publication of its update is
interrupted; or the update is published. -/
theorem step_cases (turn : Turn) (checkpoint : Checkpoint) (publisher : TracePublisher) :
    (∃ ending, runtime.step turn checkpoint publisher = .inl ⟨publisher, [], ending⟩) ∨
      ∃ node state, checkpoint.next = some node ∧
        node.run runtime.host checkpoint.state turn.input = .ok state ∧
        ((∃ emitted cause, runtime.step turn checkpoint publisher =
            .inl ⟨publisher.emitAll ((publishUpdate node state).take emitted),
              [⟨state, node.after state⟩], .error cause⟩) ∨
          runtime.step turn checkpoint publisher =
            .inr (⟨state, node.after state⟩,
              publisher.emitAll (publishUpdate node state))) := by
  unfold AgentRuntime.step
  split
  · exact .inl ⟨_, rfl⟩
  · exact .inl ⟨_, rfl⟩
  · rename_i node hnext _
    split
    · exact .inl ⟨_, rfl⟩
    · rename_i state hrun
      refine .inr ⟨node, state, hnext, hrun, ?_⟩
      simp only
      split
      · exact .inl ⟨_, _, rfl⟩
      · exact .inr rfl

/-- Without a turn left the stream stops where it is. -/
theorem stream_zero (i : ℕ) (checkpoint : Checkpoint) (publisher : TracePublisher) :
    ∃ ending, runtime.stream turns 0 i checkpoint publisher = ⟨publisher, [], ending⟩ := by
  unfold AgentRuntime.stream
  split <;> exact ⟨_, rfl⟩

/-- A stream keeps its events numbered, and keeps what was emitted before. -/
theorem numbered_stream (fuel : ℕ) : ∀ (i : ℕ) (checkpoint : Checkpoint)
    {publisher : TracePublisher}, Numbered publisher →
      Numbered (runtime.stream turns fuel i checkpoint publisher).publisher ∧
        publisher.events <+:
          (runtime.stream turns fuel i checkpoint publisher).publisher.events := by
  induction fuel with
  | zero =>
    intro i checkpoint publisher h
    obtain ⟨ending, heq⟩ :=
      stream_zero runtime turns i checkpoint publisher
    rw [heq]
    exact ⟨h, List.prefix_rfl⟩
  | succ fuel ih =>
    intro i checkpoint publisher h
    rw [AgentRuntime.stream]
    obtain ⟨ending, heq⟩ | ⟨node, state, -, -, ⟨emitted, cause, heq⟩ | heq⟩ :=
      step_cases runtime (turns i) checkpoint publisher
    · rw [heq]
      exact ⟨h, List.prefix_rfl⟩
    · rw [heq]
      exact ⟨h.emitAll _, prefix_emitAll _ _⟩
    · rw [heq]
      have hrest := ih (i + 1) ⟨state, node.after state⟩ (h.emitAll (publishUpdate node state))
      exact ⟨hrest.1, (prefix_emitAll _ _).trans hrest.2⟩

/-- The counter is ahead of the state: the start of the run and the normalization of its input are
numbered, and the state does not count them. -/
def Ahead (checkpoint : Checkpoint) (publisher : TracePublisher) : Prop :=
  checkpoint.state.eventSequence + (if checkpoint.next = some .normalizeInput then 1 else 2) ≤
    publisher.sequence

/-- A node that has run is behind the counter even before its update is published. -/
theorem Ahead.lt_of_run {runtime : AgentRuntime} {checkpoint : Checkpoint} {publisher : TracePublisher}
    {node : MinimalNode} {input : NodeInput} {state : AgentState}
    (h : Ahead checkpoint publisher) (hnext : checkpoint.next = some node)
    (hrun : node.run runtime.host checkpoint.state input = .ok state) :
    state.eventSequence < publisher.sequence := by
  have hsequence := MinimalNode.eventSequence_of_run hrun
  rw [Ahead, hnext] at h
  by_cases hnode : node = .normalizeInput
  · rw [if_pos (congrArg some hnode)] at h
    rw [if_pos hnode] at hsequence
    omega
  · rw [if_neg fun heq => hnode (Option.some.inj heq)] at h
    rw [if_neg hnode] at hsequence
    omega

/-- **Every checkpoint of a stream is behind its counter.**  By induction on the nodes: each is
published before the next one runs. -/
theorem lt_of_mem_trail (fuel : ℕ) : ∀ (i : ℕ) (checkpoint : Checkpoint)
    (publisher : TracePublisher), Ahead checkpoint publisher →
      let streamed := runtime.stream turns fuel i checkpoint publisher
      publisher.sequence ≤ streamed.publisher.sequence ∧
        ∀ reached ∈ streamed.trail,
          reached.state.eventSequence < streamed.publisher.sequence := by
  induction fuel with
  | zero =>
    intro i checkpoint publisher _
    obtain ⟨ending, heq⟩ :=
      stream_zero runtime turns i checkpoint publisher
    rw [heq]
    exact ⟨le_rfl, fun _ h => absurd h List.not_mem_nil⟩
  | succ fuel ih =>
    intro i checkpoint publisher h
    rw [AgentRuntime.stream]
    obtain ⟨ending, heq⟩ | ⟨node, state, hnext, hrun, ⟨emitted, cause, heq⟩ | heq⟩ :=
      step_cases runtime (turns i) checkpoint publisher
    · rw [heq]
      exact ⟨le_rfl, fun _ h => absurd h List.not_mem_nil⟩
    · rw [heq]
      have hle := le_sequence_emitAll ((publishUpdate node state).take emitted) publisher
      refine ⟨hle, fun reached hreached => ?_⟩
      rw [List.mem_singleton.1 hreached]
      exact lt_of_lt_of_le (h.lt_of_run hnext hrun) hle
    · have hlt := h.lt_of_run hnext hrun
      have hpublished := lt_sequence_publishUpdate publisher node state
      have hahead : Ahead ⟨state, node.after state⟩
          (publisher.emitAll (publishUpdate node state)) := by
        rw [Ahead, if_neg (MinimalNode.after_ne_normalizeInput state node)]
        exact le_trans (Nat.succ_le_succ hlt) hpublished
      obtain ⟨hle, htrail⟩ := ih (i + 1) _ _ hahead
      rw [heq]
      refine ⟨hpublished.le.trans hle, fun reached hreached => ?_⟩
      rcases List.mem_cons.1 hreached with rfl | hreached
      · exact lt_of_lt_of_le hlt (hpublished.le.trans hle)
      · exact htrail reached hreached

end Stream

/-! ## An execution -/

section Execution

variable (runtime : AgentRuntime) (identity : AgentRunIdentity) (start : Checkpoint)
  (startEvent : AgentEventType) (execution : Execution)

/-- The first event of an execution has the next number after the state's. -/
theorem numbered_start (publisher : TracePublisher) (hempty : publisher.events = []) :
    Numbered (publisher.emit { eventType := startEvent }) := by
  have h : Numbered publisher := by
    refine ⟨?_, fun event hevent => ?_, fun hne => absurd hempty hne⟩
    · rw [Increasing, hempty]
      exact List.Pairwise.nil
    · rw [hempty] at hevent
      exact absurd hevent List.not_mem_nil
  exact h.emit _

/-- **What an execution leaves.**  Its events are those of a publisher whose counter has gone from
the state's number on, and its checkpoints are behind the counter when the state was. -/
theorem execute_spec :
    ∃ publisher : TracePublisher, Numbered publisher ∧
      (runtime.execute identity start startEvent execution).events = publisher.events ∧
      start.state.eventSequence < publisher.sequence ∧
      (∃ event ∈ publisher.events, event.sequence = start.state.eventSequence + 1) ∧
      (start.state.eventSequence = 0 → start.next = some .normalizeInput →
        ∀ reached ∈ (runtime.execute identity start startEvent execution).trail,
          reached.state.eventSequence < publisher.sequence) := by
  set begun : TracePublisher :=
    TracePublisher.emit ⟨identity, start.state.eventSequence, []⟩ { eventType := startEvent }
    with hbegun
  have hsequence : begun.sequence = start.state.eventSequence + 1 := Nat.max_zero _
  set streamed := runtime.stream execution.turns runtime.maxGraphSteps 0 start begun
    with hstreamed
  have hnumbered : Numbered streamed.publisher ∧ begun.events <+: streamed.publisher.events :=
    numbered_stream runtime execution.turns _ 0 start (numbered_start startEvent _ rfl)
  have hmem : ∃ event ∈ streamed.publisher.events,
      event.sequence = start.state.eventSequence + 1 :=
    ⟨_, hnumbered.2.subset (List.mem_singleton.2 rfl), hsequence⟩
  have hlt : start.state.eventSequence < streamed.publisher.sequence := by
    obtain ⟨event, hevent, heq⟩ := hmem
    have hle := hnumbered.1.le event hevent
    omega
  have htrail : start.state.eventSequence = 0 → start.next = some .normalizeInput →
      ∀ reached ∈ streamed.trail,
        reached.state.eventSequence < streamed.publisher.sequence := by
    intro hzero hnext
    have hahead : Ahead start begun := by
      rw [Ahead, if_pos hnext, hsequence]
    exact (lt_of_mem_trail runtime execution.turns _ 0 start begun hahead).2
  rw [AgentRuntime.execute, ← hbegun, ← hstreamed]
  split
  · rename_i cause hending
    have hle := le_sequence_emitAll cause.emission streamed.publisher
    obtain ⟨event, hevent, heq⟩ := hmem
    exact ⟨_, hnumbered.1.emitAll cause.emission, rfl, lt_of_lt_of_le hlt hle,
      ⟨event, (prefix_emitAll _ _).subset hevent, heq⟩,
      fun hzero hnext reached hreached =>
        lt_of_lt_of_le (htrail hzero hnext reached hreached) hle⟩
  · rename_i state hending
    split
    · exact ⟨_, hnumbered.1, rfl, hlt, hmem, htrail⟩
    · set completed : Emission := {
        eventType := .runCompleted
        node := some state.currentNode
        payload := [("step_count", .int state.stepCount), ("retry_count", .int state.retryCount)] }
      have hle := (lt_sequence_emit streamed.publisher completed).le
      obtain ⟨event, hevent, heq⟩ := hmem
      exact ⟨_, hnumbered.1.emit completed, rfl, lt_of_lt_of_le hlt hle,
        ⟨event, (List.prefix_append _ _).subset hevent, heq⟩,
        fun hzero hnext reached hreached =>
          lt_of_lt_of_le (htrail hzero hnext reached hreached) hle⟩

/-- Within one execution the numbers increase. -/
theorem increasing_execute :
    Increasing (runtime.execute identity start startEvent execution).events := by
  obtain ⟨publisher, hnumbered, heq, -⟩ := execute_spec runtime identity start startEvent execution
  rw [heq]
  exact hnumbered.increasing

end Execution

/-! ## A run and its resumptions -/

section History

variable {runtime : AgentRuntime} {identity : AgentRunIdentity}

/-- A durable checkpoint is the previous one or one that was reached. -/
theorem mem_of_durable {previous : Option Checkpoint} {trail : List Checkpoint} {saved : ℕ}
    {checkpoint : Checkpoint}
    (h : durable previous trail saved = some checkpoint) :
    checkpoint ∈ trail ∨ previous = some checkpoint := by
  unfold durable at h
  cases hlast : (trail.take saved).getLast? with
  | none => exact .inr ((congrArg (Option.or · previous) hlast).symm.trans h)
  | some last =>
    rw [hlast] at h
    cases h
    exact .inl (List.mem_of_mem_take (List.mem_of_getLast? hlast))

/-- **A run has emitted a number beyond the state of its last checkpoint.** -/
theorem exists_sequence_of_afterRun {run : Execution} {checkpoint : Checkpoint}
    (h : (runtime.afterRun identity run).checkpoint = some checkpoint) :
    ∃ event ∈ (runtime.afterRun identity run).events,
      checkpoint.state.eventSequence < event.sequence := by
  set start : Checkpoint := ⟨AgentState.initial identity, some .normalizeInput⟩
  obtain ⟨publisher, hnumbered, hevents, hlt, ⟨first, hfirst, -⟩, htrail⟩ :=
    execute_spec runtime identity start .runStarted run
  obtain ⟨event, hevent, heq⟩ := hnumbered.reached (List.ne_nil_of_mem hfirst)
  have hafter : (runtime.afterRun identity run).events = publisher.events := hevents
  refine ⟨event, hafter.symm ▸ hevent, ?_⟩
  rw [heq]
  rcases mem_of_durable h with hmem | hprevious
  · rcases List.mem_cons.1 hmem with rfl | hmem
    · exact hlt
    · exact htrail rfl rfl checkpoint hmem
  · cases hprevious

/-- Later resumptions add events. -/
theorem prefix_foldl_afterResume (resumptions : List Execution) : ∀ thread : Thread,
    thread.events <+: (resumptions.foldl (runtime.afterResume identity) thread).events := by
  induction resumptions with
  | nil => exact fun _ => List.prefix_rfl
  | cons execution resumptions ih =>
    intro thread
    have hstep : thread.events <+: (runtime.afterResume identity thread execution).events := by
      unfold AgentRuntime.afterResume
      split
      · exact List.prefix_rfl
      · exact List.prefix_append _ _
    exact hstep.trans (ih _)

/-- Resumptions without a checkpoint do nothing. -/
theorem foldl_afterResume_of_none (resumptions : List Execution) {thread : Thread}
    (h : thread.checkpoint = none) :
    resumptions.foldl (runtime.afterResume identity) thread = thread := by
  induction resumptions with
  | nil => rfl
  | cons execution resumptions ih =>
    have hstep : runtime.afterResume identity thread execution = thread := by
      rw [AgentRuntime.afterResume, h]
    rw [List.foldl_cons, hstep]
    exact ih

/-- A resumption that finds the checkpoint of the run repeats a number. -/
theorem not_increasing_resumed {run : Execution} {checkpoint : Checkpoint}
    (h : (runtime.afterRun identity run).checkpoint = some checkpoint) (execution : Execution) :
    ¬ Increasing (runtime.afterResume identity (runtime.afterRun identity run) execution).events := by
  intro hincreasing
  obtain ⟨event, hevent, hlt⟩ := exists_sequence_of_afterRun h
  obtain ⟨publisher, -, hevents, -, ⟨first, hfirst, heq⟩, -⟩ :=
    execute_spec runtime identity checkpoint .runResumed execution
  have hresumed : (runtime.afterResume identity (runtime.afterRun identity run) execution).events =
      (runtime.afterRun identity run).events ++ publisher.events := by
    rw [AgentRuntime.afterResume, h, ← hevents]
  rw [Increasing, hresumed, List.map_append, List.pairwise_append] at hincreasing
  have hbefore := hincreasing.2.2 event.sequence (List.mem_map_of_mem hevent) first.sequence
    (List.mem_map_of_mem hfirst)
  omega

/-- **The events of a run are numbered in their order exactly when no resumption finds a
checkpoint**: there is none, or the run has ended before its first checkpoint was durable. -/
theorem increasing_iff (runtime : AgentRuntime) (identity : AgentRunIdentity) (run : Execution)
    (resumptions : List Execution) :
    Increasing (runtime.history identity run resumptions).events ↔
      resumptions = [] ∨ (runtime.afterRun identity run).checkpoint = none := by
  constructor
  · intro hincreasing
    cases resumptions with
    | nil => exact .inl rfl
    | cons execution resumptions =>
      right
      cases hcheckpoint : (runtime.afterRun identity run).checkpoint with
      | none => rfl
      | some checkpoint =>
        have hstart : (runtime.afterResume identity (runtime.afterRun identity run)
            execution).events <+:
              (runtime.history identity run (execution :: resumptions)).events :=
          prefix_foldl_afterResume resumptions _
        have hfirst := hincreasing.sublist (hstart.map AgentEvent.sequence).sublist
        exact absurd hfirst (not_increasing_resumed hcheckpoint execution)
  · rintro (rfl | hnone)
    · exact increasing_execute runtime identity _ _ run
    · rw [AgentRuntime.history, foldl_afterResume_of_none resumptions hnone]
      exact increasing_execute runtime identity _ _ run

end History

/-! ## A cancelled run -/

namespace Sample

/-- The run needs no digest. -/
def runtime : AgentRuntime where
  host := {
    sha256 := fun _ => ""
    reprFloat := fun _ => "1.0"
    reprStr := fun s => "'" ++ s ++ "'"
    lower := String.map Char.toLower
    isAlnum := Char.isAlphanum }

def identity : AgentRunIdentity where
  tenantId := "tenant-a"
  userId := "user-a"
  requestId := "request-a"
  threadId := "thread-a"
  runId := "run-a"
  traceId := "trace-run-a"

/-- The model answers, and no tool is called. -/
def answers : NodeInput where
  decision := .ok { value := .final "done" }
  execution := .error (.agentError "agent_tool_failure")

/-- The run is cancelled while the model decides, behind the checkpoint of the first node. -/
def cancelled : Execution where
  turns
    | 0 => { input := answers }
    | _ => { input := answers, interruption := some (.running .cancelled) }
  saved := 2

/-- The resumption runs to the end of the graph. -/
def completed : Execution where
  turns _ := { input := answers }
  saved := 2

end Sample

/-- The resumption begins with the number that the start of the run had. -/
theorem not_increasing_cancelled :
    (Sample.runtime.history Sample.identity Sample.cancelled [Sample.completed]).events.map
        (fun event => (event.eventType, event.sequence)) =
      [(.runStarted, 1), (.nodeCompleted, 2), (.runCancelled, 3), (.runResumed, 1),
        (.nodeCompleted, 2), (.modelCompleted, 3), (.nodeCompleted, 4), (.runCompleted, 5)] ∧
      ¬ Increasing
        (Sample.runtime.history Sample.identity Sample.cancelled [Sample.completed]).events := by
  decide +kernel

end MinimalAgent
end RagflowAgent
