import RagflowAgent.Agent.Conduct.Approvals
import RagflowAgent.Agent.Graphs.Transitions

/-!
# Runs that share a process

Any number of runs go through the graph at the same time.  After a node, the graph stores the
position of the run as its checkpoint, and goes on from there; when a process dies within a node,
or an answer to an approval is given twice, the node is executed again from the checkpoint.  So a
run moves on by workers, each of which executes one node.

* `Runs` is what is shared: the world of the services, the checkpoint of every run, and a record
  of what the tools have returned, which no program reads;
* `RunCall` are the calls of the services and those on the checkpoints;
* `advance` is the program of a worker, `AgentCommand` what else goes on meanwhile.
-/

namespace RagflowAgent
namespace Agent

open Interleaving AgenticRagNodes

/-! ## State -/

/-- Something that a tool has returned. -/
structure Returned where
  invocation : ToolInvocation
  context : ToolAuthorizationContext
  output : Json

structure Runs (ρ : Type) where
  world : World
  position : ρ → Position
  returned : List Returned := []

/-! ## Calls -/

inductive RunCall (ρ : Type) : Type → Type 1 where
  | agent ⦃β : Type⦄ (c : Call β) : RunCall ρ β
  | load (run : ρ) : RunCall ρ Position
  | save (run : ρ) (position : Position) : RunCall ρ Unit
  | restart : RunCall ρ Unit

/-- What the answer to a call shows of the output of a tool. -/
def Call.returned {β : Type} : Call β → Except AgentException β → List Returned
  | .invoke invocation context => fun
    | .ok output => [⟨invocation, context, output⟩]
    | .error _ => []
  | _ => fun _ => []

/-- An approval request is read that has succeeded before. -/
def Call.readsSucceeded {β : Type} : Call β → Except AgentException β → Bool
  | .getApproval _ _ => fun
    | .ok (some item) => decide (item.status = .succeeded)
    | _ => false
  | _ => fun _ => false

variable {ρ τ : Type} [DecidableEq ρ]

/-- One step.  A process that is started anew has empty maps. -/
def execRuns ⦃β : Type⦄ (c : RunCall ρ β) (x : Input) (s : Runs ρ) :
    Except AgentException β × Runs ρ :=
  match c with
  | .agent c =>
    let r := exec c x s.world
    (r.1, { s with world := r.2, returned := c.returned r.1 ++ s.returned })
  | .load run => (.ok (s.position run), s)
  | .save run position =>
    (.ok (), { s with position := Function.update s.position run position })
  | .restart =>
    (.ok (), { s with world :=
      { s.world with completed := fun _ => none, successful := fun _ => none } })

/-! ## Programs -/

/-- A worker executes the node of the checkpoint and stores the position after it. -/
def advance (nodes : AgenticRagNodes) (run : ρ) : Prog (RunCall ρ) AgentException Unit :=
  (Prog.perform (.load run)).bind fun
    | .ended _ => .ret ()
    | .before node state =>
      ((nodes.run node state).embed RunCall.agent).bind fun state' =>
        Prog.perform (.save run (.after node state'))

inductive AgentCommand (ρ : Type) where
  | advance (run : ρ)
  | approval (command : ApprovalCommand)
  | restart

def AgentCommand.program (nodes : AgenticRagNodes) :
    AgentCommand ρ → Prog (RunCall ρ) AgentException Unit
  | advance run => Agent.advance nodes run
  | approval command => (command.program nodes.approvals).embed RunCall.agent
  | restart => Prog.perform .restart

/-- The runs are at the start of the graph, and nothing has been executed. -/
def startRuns (nodes : AgenticRagNodes) (requests : ρ → AgenticRunRequest)
    (commands : τ → AgentCommand ρ) (approvals : Table AgentApprovalRow) :
    Config (RunCall ρ) AgentException Unit (Runs ρ) τ where
  state := {
    world := { approvals := approvals }
    position := fun run =>
      .before .route ((requests run).initial nodes.approvals.tools.host) }
  threads t := (commands t).program nodes

end Agent
end RagflowAgent
