import BehaviorTree.Actor.Frame
import BehaviorTree.Context

/-!
The state of one actor: its variables, the stack of its running nodes and what became of its last
run. A loaded tree holds none of this, so any number of actors can run the same tree. Variables
whose names begin with two underscores are temporary: they are discarded when a run is abandoned.
-/

namespace BehaviorTree

/-- Variables of an actor. -/
abbrev Blackboard := Fields Value

/-- A name with two leading underscores is that of a temporary variable. -/
def isTemporary (name : String) : Bool := ['_', '_'].isPrefixOf name.toList

/-- What a running tree owns: its variables, its memory of what was done, and its stack. -/
structure Actor where
  /-- Owner of the listeners registered on behalf of this actor. -/
  caller : Nat
  /-- How the actor is addressed. -/
  target : Target
  vars : Blackboard
  /-- Once nodes whose child has completed. -/
  completed : List Nat
  stack : List Frame
  /-- What the last executed node reported. -/
  last : Status
  status : TreeStatus
  debug : Bool

namespace Actor

/-- An actor that has not been run, addressed by its caller. -/
def new (caller : Nat) : Actor :=
  { caller, target := .caller caller, vars := [], completed := [], stack := []
    last := .success, status := .idle, debug := false }

/-- What a variable holds. -/
def get? (actor : Actor) (name : String) : Option Value := actor.vars.get? name

/-- Writes a variable. -/
def set (actor : Actor) (name : String) (v : Value) : Actor :=
  { actor with vars := actor.vars.set name v }

/-- Takes a variable away. -/
def remove (actor : Actor) (name : String) : Actor :=
  { actor with vars := actor.vars.erase name }

/-- Takes all variables away. -/
def clearVars (actor : Actor) : Actor := { actor with vars := [] }

/-- Takes the temporary variables away, as when a run is abandoned. -/
def clearTemporaries (actor : Actor) : Actor :=
  { actor with vars := actor.vars.filter fun entry => !isTemporary entry.1 }

/-- Value of the variable wired to an input slot. -/
def input? (actor : Actor) (node : Node) (i : Nat) : Option Value :=
  (node.inputVar? i).bind actor.get?

/-- Value of the variable wired to an output slot. -/
def output? (actor : Actor) (node : Node) (i : Nat) : Option Value :=
  (node.outputVar? i).bind actor.get?

/-- Writes the variable wired to an output slot; an unwired slot is passed over. -/
def setOutput (actor : Actor) (node : Node) (i : Nat) (v : Value) : Actor :=
  match node.outputVar? i with
  | some name => actor.set name v
  | none => actor

/-- Running under way: the last run has not completed and there is something to resume. -/
def isRunning (actor : Actor) : Bool := actor.status == .running && !actor.stack.isEmpty

end Actor
end BehaviorTree
