import BehaviorTree.Actor.Basic
import BehaviorTree.Expression.Eval

/-!
The setting in which nodes are ticked. A tick works on a scene, the shared context and the state
of the actor that runs; it ends with an outcome or is cut short by a fault, and the changes made
before a fault stay. A node reports a verdict, or that it is running together with the frames that
lead to what runs.
-/

namespace BehaviorTree

/-- Why a run was cut short. -/
inductive RunError where
  | expr (node : String) (id : Nat) (error : ExprError)
  | assertion (id : Nat) (message : String)
  /-- A node was resumed with progress that it does not understand. -/
  | badResume (node : String) (id : Nat)
  /-- A node asked for a child that it does not have. -/
  | noChild (node : String) (id : Nat)
  | custom (message : String)
deriving DecidableEq, Repr

def RunError.message : RunError → String
  | .expr node id error => node ++ " #" ++ toString id ++ ": " ++ error.message
  | .assertion id message => "Assertion failed at #" ++ toString id ++ ": " ++ message
  | .badResume node id => node ++ " #" ++ toString id ++ " was resumed with an unexpected state"
  | .noChild node id => node ++ " #" ++ toString id ++ " has no such child"
  | .custom message => message

/-- An error and how many nodes were on the stack when it was raised. -/
structure Fault where
  error : RunError
  depth : Nat

/-- What a tick reads and changes. -/
structure Scene where
  context : Context
  actor : Actor

/-- A tick changes the scene, also when it ends in a fault. -/
abbrev TickM := ExceptT Fault (StateM Scene)

/-- What ticking a node led to. -/
inductive Outcome where
  | done (verdict : Verdict)
  /-- The frames of the node and of what runs below it. -/
  | running (frames : List Frame)

/-- What an outcome reports. -/
def Outcome.status : Outcome → Status
  | done verdict => verdict.status
  | running _ => .running

/-- Ids of the nodes on the stack, from the root. -/
abbrev Path := List Nat

/-- A way to tick a node, below the nodes of a path. -/
abbrev Ticker := Path → TickM Outcome

/-- What a node decided. -/
inductive Step where
  | finish (verdict : Verdict)
  /-- To go on from this progress, once the nodes above it have completed or the deadline has
  come. -/
  | suspend (progress : Progress) (deadline : Option Float) (above : List Frame)

namespace Step

def success : Step := .finish .success

def failure : Step := .finish .failure

/-- To go on from this progress with nothing above. -/
def keep (progress : Progress) : Step := .suspend progress none []

/-- To go on from this progress when the nodes above have completed. -/
def await (progress : Progress) (above : List Frame) : Step := .suspend progress none above

end Step

/-- A child of a Parallel node in one tick: settled before, or to be ticked. -/
inductive Task where
  | settled (verdict : Verdict)
  | pending (run : Ticker)

/-- One execution of a node. -/
structure Visit where
  node : Node
  /-- The progress to go on from, none on a fresh tick. -/
  progress : Option Progress
  /-- Fresh ticks of the children. -/
  children : List Ticker
  /-- The children of a Parallel node. -/
  tasks : List Task
  /-- The nodes on the stack, this one included. -/
  path : Path

namespace Scene

/-- Changes the context of a scene. -/
def updateContext (scene : Scene) (f : Context → Context) : Scene :=
  { scene with context := f scene.context }

/-- Changes the actor of a scene. -/
def updateActor (scene : Scene) (f : Actor → Actor) : Scene :=
  { scene with actor := f scene.actor }

/-- Adds a note to the journal of a scene. -/
def note (scene : Scene) (n : Note) : Scene := scene.updateContext (·.note n)

/-- Takes a note if the actor is being debugged. -/
def noteDebug (scene : Scene) (n : Note) : Scene := if scene.actor.debug then scene.note n else scene

end Scene

namespace TickM

def context : TickM Context := do return (← get).context

def actor : TickM Actor := do return (← get).actor

/-- The time by the clock of the context. -/
def now : TickM Float := do return (← get).context.clock

/-- Changes the context. -/
def updateContext (f : Context → Context) : TickM Unit := modify (·.updateContext f)

/-- Changes the actor. -/
def updateActor (f : Actor → Actor) : TickM Unit := modify (·.updateActor f)

/-- Adds a note to the journal. -/
def note (n : Note) : TickM Unit := modify (·.note n)

/-- Adds a note to the journal of an actor that is being debugged. -/
def noteDebug (n : Note) : TickM Unit := modify (·.noteDebug n)

end TickM

namespace Visit

/-- Raises an error at the depth of the visit. -/
def fail {α : Type} (visit : Visit) (error : RunError) : TickM α :=
  throw ⟨error, visit.path.length⟩

/-- The node was resumed with a progress that is none of its own. -/
def badResume {α : Type} (visit : Visit) : TickM α :=
  visit.fail (.badResume visit.node.name visit.node.id)

/-- Ticks a child afresh. -/
def tickChild (visit : Visit) (i : Nat) : TickM Outcome :=
  match visit.children[i]? with
  | some tick => tick visit.path
  | none => visit.fail (.noChild visit.node.name visit.node.id)

/-- The verdict of the child that completed last, for a node that is resumed. -/
def childVerdict (visit : Visit) : TickM Verdict := do
  match (← TickM.actor).last.verdict? with
  | some verdict => return verdict
  | none => visit.badResume

/-- Value of the variable wired to an input slot. -/
def input? (visit : Visit) (i : Nat) : TickM (Option Value) := do
  return (← TickM.actor).input? visit.node i

/-- Value of the variable wired to an output slot. -/
def output? (visit : Visit) (i : Nat) : TickM (Option Value) := do
  return (← TickM.actor).output? visit.node i

/-- Writes the variable wired to an output slot. -/
def setOutput (visit : Visit) (i : Nat) (v : Value) : TickM Unit :=
  TickM.updateActor fun actor => actor.setOutput visit.node i v

/-- Evaluates the expression that an argument holds against the variables of the actor. -/
def evaluate (visit : Visit) (arg : String) : TickM Value := do
  let node := visit.node
  match node.text? arg with
  | none =>
    visit.fail (.custom (node.name ++ " #" ++ toString node.id ++ ": no expression in " ++
      Text.quoted arg))
  | some code =>
    let scene ← get
    let (result, context) := scene.context.compile code
    set { scene with context }
    match result with
    | .error error => visit.fail (.expr node.name node.id error)
    | .ok e =>
      match e.eval scene.actor.get? with
      | .ok v => return v
      | .error error => visit.fail (.expr node.name node.id error)

end Visit
end BehaviorTree
