import BehaviorTree.Status
import BehaviorTree.Value.Basic

/-!
What is noted while trees run: what nodes and runners did, what nodes were told to log, and which
listeners were called.
-/

namespace BehaviorTree

/-- How much a note matters. -/
inductive Level where
  | trace
  | debug
  | info
  | warn
  | error
deriving DecidableEq, Repr

namespace Level

/-- How a level is called. -/
def name : Level → String
  | trace => "trace"
  | debug => "debug"
  | info => "info"
  | warn => "warn"
  | error => "error"

/-- The level of a name. -/
def ofName? (name : String) : Option Level :=
  match name with
  | "trace" => some trace
  | "debug" => some debug
  | "info" => some info
  | "warn" => some warn
  | "error" => some error
  | _ => none

@[simp] theorem ofName?_name (l : Level) : ofName? l.name = some l := by cases l <;> rfl

end Level

/-- Stages of a run that a host can follow. -/
inductive Stage where
  /-- The run begins at the root. -/
  | beforeRun
  /-- The tree completed, with either verdict. -/
  | afterRun
  | afterRunSuccess
  | afterRunFailure
  /-- A running tree was abandoned. -/
  | interrupted
  /-- An assertion failed, and the run with it. -/
  | assertFailed
deriving DecidableEq, Repr

namespace Stage

/-- How a stage is called. -/
def name : Stage → String
  | beforeRun => "BeforeRun"
  | afterRun => "AfterRun"
  | afterRunSuccess => "AfterRunSuccess"
  | afterRunFailure => "AfterRunFailure"
  | interrupted => "Interrupted"
  | assertFailed => "AssertFailed"

/-- The stage of a name; followers can be registered under no other. -/
def ofName? (name : String) : Option Stage :=
  match name with
  | "BeforeRun" => some beforeRun
  | "AfterRun" => some afterRun
  | "AfterRunSuccess" => some afterRunSuccess
  | "AfterRunFailure" => some afterRunFailure
  | "Interrupted" => some interrupted
  | "AssertFailed" => some assertFailed
  | _ => none

@[simp] theorem ofName?_name (s : Stage) : ofName? s.name = some s := by cases s <;> rfl

end Stage

/-- What is written in the journal as things happen. -/
inductive Note where
  /-- A node is executed, below `depth` others. -/
  | entered (node : String) (id depth : Nat)
  | left (node : String) (id : Nat) (status : Status)
  /-- The deadline of a node has come while it was waiting for its child. -/
  | deadlineExpired (node : String) (now : Float)
  | timedOut (node : String) (id : Nat)
  | interrupted (tree : String) (depth : Nat)
  | assertionFailed (tree error : String)
  | runFailed (tree error : String)
  /-- What a node was told to log. -/
  | logged (level : Level) (id : Nat) (message : String)
  /-- A host's listener was called. -/
  | heard (tag : String) (args : List Value)
  /-- A host that follows the run was called. -/
  | followed (stage : Stage) (tag : String) (depth : Nat) (status : TreeStatus) (last : Status)
  | probe (node : String) (id : Nat)
  | peek (id : Nat) (desc : String) (last : Status) (status : TreeStatus) (path : List Nat)

namespace Note

/-- Level of the notes that nodes and runners write to the log. -/
def level? : Note → Option Level
  | entered .. => some .trace
  | left .. => some .trace
  | deadlineExpired .. => some .debug
  | timedOut .. => some .debug
  | interrupted .. => some .debug
  | assertionFailed .. => some .error
  | runFailed .. => some .error
  | logged level _ _ => some level
  | _ => none

/-- The text that a note is logged with. -/
def message : Note → String
  | entered .. => "exec"
  | left .. => "done"
  | deadlineExpired .. => "deadline expired"
  | timedOut .. => "timed out"
  | interrupted .. => "interrupted"
  | assertionFailed .. => "assertion failed"
  | runFailed .. => "run failed"
  | logged _ _ message => message
  | _ => ""

end Note
end BehaviorTree
