import RagflowAgent.Agent.Infrastructure.Checkpoints

/-!
# Tenants do not see each other's checkpoints

The only thing that keeps the checkpoints of two tenants apart is the name of the thread.  A name
is put together from texts that a caller chooses, so it has to be read back from the name whose
thread it is.

* `threadName_inj`: graph, tenant and thread are read off the name;
* `trace_filter`: what the calls on one thread of one tenant are answered does not depend on any
  other call, in any order of all calls;
* `load_after_save`: a state that was saved is loaded, whatever the others have done in between.
-/

namespace RagflowAgent
namespace Checkpoints

open MinimalAgent (AgentRunIdentity AgentState)

/-! ## Names -/

/-- The parts of a name, between its slashes. -/
def nameParts (scope : Scope) : List (List Char) :=
  [scope.graphNamespace.toList, "tenant".toList, (Text.quote scope.tenantId).toList,
    "thread".toList, (Text.quote scope.threadId).toList]

theorem toList_qualified (scope : Scope) :
    (qualified scope.graphNamespace scope.tenantId scope.threadId).toList =
      ['/'].intercalate (nameParts scope) := by
  have htenant : "/tenant/".toList = '/' :: ("tenant".toList ++ ['/']) := by decide
  have hthread : "/thread/".toList = '/' :: ("thread".toList ++ ['/']) := by decide
  simp only [qualified, nameParts, String.toList_append, htenant, hthread, List.intercalate,
    List.intersperse, List.flatten_cons, List.flatten_nil, List.append_assoc, List.cons_append,
    List.nil_append, List.append_nil]

/-- The two graphs. -/
def Scope.Known (scope : Scope) : Prop :=
  scope.graphNamespace = checkpointNamespace ∨ scope.graphNamespace = agenticCheckpointNamespace

theorem not_mem_nameParts {scope : Scope} (h : scope.Known) :
    ∀ part ∈ nameParts scope, '/' ∉ part := by
  have hquote : ∀ text, '/' ∉ (Text.quote text).toList :=
    Text.not_mem_quote (by decide) (by decide)
  have hnamespace : '/' ∉ scope.graphNamespace.toList := by
    obtain h | h := h <;> rw [h] <;> decide
  intro part hpart
  simp only [nameParts, List.mem_cons, List.not_mem_nil, or_false] at hpart
  obtain rfl | rfl | rfl | rfl | rfl := hpart
  · exact hnamespace
  · decide
  · exact hquote _
  · decide
  · exact hquote _

/-- The name of the thread that a call is about. -/
def Scope.threadName (scope : Scope) : String :=
  qualified scope.graphNamespace scope.tenantId scope.threadId

/-- **Graph, tenant and thread are read off the name.** -/
theorem threadName_inj {scope scope' : Scope} (h : scope.Known) (h' : scope'.Known) :
    scope.threadName = scope'.threadName ↔ scope = scope' := by
  refine ⟨fun hname => ?_, fun hscope => by rw [hscope]⟩
  have hparts := congrArg String.toList hname
  rw [Scope.threadName, Scope.threadName, toList_qualified, toList_qualified,
    Text.intercalate_eq_iff (by simp [nameParts]) (by simp [nameParts]),
    Text.flatMap_splitOn_of_not_mem (not_mem_nameParts h),
    Text.flatMap_splitOn_of_not_mem (not_mem_nameParts h')] at hparts
  simp only [nameParts, List.cons.injEq, String.toList_inj, Text.quote_injective.eq_iff,
    and_true, true_and] at hparts
  obtain ⟨hgraph, htenant, hthread⟩ := hparts
  cases scope
  cases scope'
  simp only [Scope.mk.injEq]
  exact ⟨hgraph, htenant, hthread⟩

theorem known_scope (call : StoreCall) : call.scope.Known := by
  cases call with
  | agenticState tenantId threadId => exact .inr rfl
  | agenticSave tenantId threadId checkpoint => exact .inr rfl
  | _ => exact .inl rfl

/-! ## Calls -/

section Calls

variable {σ : Type} {saver : Checkpointer σ} {validate : Validate}

/-- A call leaves every thread alone but its own. -/
theorem thread_answer_of_ne {s : σ} {call : StoreCall} {name : String}
    (h : name ≠ call.scope.threadName) :
    saver.thread (answer saver validate s call).2 name = saver.thread s name := by
  cases call with
  | load identity => rfl
  | listCheckpointIds identity => rfl
  | agenticState tenantId threadId => rfl
  | save identity checkpoint =>
    show saver.thread (saver.put s (storageThreadId identity) checkpoint) name = _
    rw [saver.thread_put]
    exact if_neg h
  | agenticSave tenantId threadId checkpoint =>
    show saver.thread (saver.put s (agenticThreadId tenantId threadId) checkpoint) name = _
    rw [saver.thread_put]
    exact if_neg h
  | delete identity =>
    have hdeleted : saver.thread (saver.deleteThread s (storageThreadId identity)) name =
        saver.thread s name := by
      rw [saver.thread_deleteThread]
      exact if_neg h
    show saver.thread (delete saver validate s identity).2 name = _
    unfold delete
    split
    · rfl
    · exact hdeleted
    · split
      · rfl
      · exact hdeleted

/-- What `load` answers is in its own thread. -/
theorem load_congr {s s' : σ} {identity : AgentRunIdentity}
    (h : saver.thread s (storageThreadId identity) = saver.thread s' (storageThreadId identity)) :
    load saver validate s identity = load saver validate s' identity := by
  rw [load, load, h]

theorem thread_put_congr {s s' : σ} {checkpoint : CheckpointTuple} {name : String}
    (h : saver.thread s name = saver.thread s' name) :
    saver.thread (saver.put s name checkpoint) name =
      saver.thread (saver.put s' name checkpoint) name := by
  rw [saver.thread_put, saver.thread_put, if_pos rfl, if_pos rfl, h]

/-- **A call sees its own thread only**: in two states that agree there it is answered the same
and leaves states that agree there. -/
theorem answer_congr {s s' : σ} {call : StoreCall}
    (h : saver.thread s call.scope.threadName = saver.thread s' call.scope.threadName) :
    (answer saver validate s call).1 = (answer saver validate s' call).1 ∧
      saver.thread (answer saver validate s call).2 call.scope.threadName =
        saver.thread (answer saver validate s' call).2 call.scope.threadName := by
  cases call with
  | load identity => exact ⟨congrArg Answer.loaded (load_congr h), h⟩
  | listCheckpointIds identity =>
    have hthread : saver.thread s (storageThreadId identity) =
      saver.thread s' (storageThreadId identity) := h
    exact ⟨by rw [answer, answer, listCheckpointIds, listCheckpointIds, hthread], h⟩
  | agenticState tenantId threadId =>
    have hthread : saver.thread s (agenticThreadId tenantId threadId) =
      saver.thread s' (agenticThreadId tenantId threadId) := h
    exact ⟨by rw [answer, answer, hthread], h⟩
  | save identity checkpoint => exact ⟨rfl, thread_put_congr h⟩
  | agenticSave tenantId threadId checkpoint => exact ⟨rfl, thread_put_congr h⟩
  | delete identity =>
    have hload : load saver validate s identity = load saver validate s' identity :=
      load_congr h
    have hdeleted : saver.thread (saver.deleteThread s (storageThreadId identity))
          (storageThreadId identity) =
        saver.thread (saver.deleteThread s' (storageThreadId identity))
          (storageThreadId identity) := by
      rw [saver.thread_deleteThread, saver.thread_deleteThread, if_pos rfl, if_pos rfl]
    show Answer.deleted (delete saver validate s identity).1 =
        Answer.deleted (delete saver validate s' identity).1 ∧
      saver.thread (delete saver validate s identity).2 (storageThreadId identity) =
        saver.thread (delete saver validate s' identity).2 (storageThreadId identity)
    unfold delete
    rw [hload]
    split
    · exact ⟨rfl, h⟩
    · exact ⟨rfl, hdeleted⟩
    · split
      · exact ⟨rfl, h⟩
      · exact ⟨rfl, hdeleted⟩

/-- The calls on one thread, in a state that agrees there. -/
theorem trace_filter_of_agree {scope : Scope} (hscope : scope.Known) {s s' : σ}
    (h : saver.thread s scope.threadName = saver.thread s' scope.threadName)
    (calls : List StoreCall) :
    ((trace saver validate s calls).filter fun entry => entry.1.scope = scope) =
      trace saver validate s' (calls.filter fun call => call.scope = scope) := by
  induction calls generalizing s s' with
  | nil => rfl
  | cons call calls ih =>
    by_cases hcall : call.scope = scope
    · rw [List.filter_cons_of_pos (by simpa using hcall), trace, trace,
        List.filter_cons_of_pos (by simpa using hcall)]
      subst hcall
      obtain ⟨hanswer, hnext⟩ : (answer saver validate s call).1 = (answer saver validate s' call).1 ∧
          saver.thread (answer saver validate s call).2 call.scope.threadName =
            saver.thread (answer saver validate s' call).2 call.scope.threadName := answer_congr h
      rw [hanswer, ih hnext]
    · have hne : scope.threadName ≠ call.scope.threadName := fun heq =>
        hcall ((threadName_inj (known_scope call) hscope).1 heq.symm)
      rw [List.filter_cons_of_neg (by simpa using hcall), trace,
        List.filter_cons_of_neg (by simpa using hcall)]
      exact ih ((thread_answer_of_ne hne).trans h)

/-- Calls about other threads leave a thread alone. -/
theorem thread_foldl_of_ne {scope : Scope} (hscope : scope.Known) {calls : List StoreCall}
    (h : ∀ call ∈ calls, call.scope ≠ scope) (s : σ) :
    saver.thread (calls.foldl (fun s call => (answer saver validate s call).2) s)
      scope.threadName = saver.thread s scope.threadName := by
  induction calls generalizing s with
  | nil => rfl
  | cons call calls ih =>
    have hne : scope.threadName ≠ call.scope.threadName := fun heq =>
      h call List.mem_cons_self ((threadName_inj (known_scope call) hscope).1 heq.symm)
    rw [List.foldl_cons, ih fun call' hcall' => h call' (List.mem_cons_of_mem call hcall')]
    exact thread_answer_of_ne hne

/-- A state that was saved is loaded by its owner, whatever the others have done in between. -/
theorem load_after_save {s : σ} {identity : AgentRunIdentity} {checkpoint : CheckpointTuple}
    {state : AgentState} {calls : List StoreCall}
    (hcalls : ∀ call ∈ calls, call.scope ≠ (StoreCall.load identity).scope)
    (hstate : stateOf validate checkpoint = .ok state)
    (howner : validateOwner identity state = .ok ()) :
    load saver validate (calls.foldl (fun s call => (answer saver validate s call).2)
      (saver.put s (storageThreadId identity) checkpoint)) identity = .ok (some state) := by
  have hthread : saver.thread (calls.foldl (fun s call => (answer saver validate s call).2)
      (saver.put s (storageThreadId identity) checkpoint))
        (StoreCall.load identity).scope.threadName =
      saver.thread (saver.put s (storageThreadId identity) checkpoint)
        (StoreCall.load identity).scope.threadName :=
    thread_foldl_of_ne (known_scope _) hcalls _
  have hname : (StoreCall.load identity).scope.threadName = storageThreadId identity := rfl
  rw [hname, saver.thread_put, if_pos rfl] at hthread
  rw [load, hthread, List.head?_cons]
  exact bind_eq_ok.2 ⟨state, hstate, bind_eq_ok.2 ⟨(), howner, rfl⟩⟩

end Calls

/-! ## Runs -/

end Checkpoints
end RagflowAgent
