import BehaviorTree.Runner
import BehaviorTree.Source.Input
import BehaviorTree.Tree.Load

/-!
What a host can ask of a session and what it is answered.
-/

namespace BehaviorTree.Session

/-- What is asked of one runner. -/
inductive RunnerCommand where
  | run
  | interrupt
  | clear
  /-- Asks for an interrupt of the next run. -/
  | request
  /-- Asks for the name of the tree. -/
  | tree
  | get (name : String)
  | set (name : String) (v : Value)
  | remove (name : String)
  | clearVars
  | clearTemporaries
  | setDebug (debug : Bool)
  | eval (code : String)
  /-- Registers a listener; its id is kept under the label. -/
  | on (label event : String) (address : Address) (reaction : Reaction)
  /-- Registers a listener that is removed when the label is given up. -/
  | subscribe (label event : String) (address : Address) (reaction : Reaction)
  | off (event : String)
  | offCaller
  | hasListeners
  | follow (stage : String) (reaction : Reaction)
  | unknown

/-- What a host can ask of a session. -/
inductive Command where
  | load (label tree : String) (strict : Bool) (source : Option SourceInput)
  | spawn (label tree : String) (address : Option Address) (debug : Bool)
      (vars : List (String × Value))
  | advance (dt : Float)
  | setTime (t : Float)
  | dispatch (event : String) (args : List Value) (address : Option Address)
  | compile (code : String)
  | isTemporary (name : String)
  /-- Gives up the listener kept under the label. -/
  | unsubscribe (label : String)
  | offListener (label : String) (event : Option String) (address : Option Address)
  | drop (runner : String)
  | toRunner (runner : String) (command : RunnerCommand)

/-- What a session answers. -/
inductive Answer where
  | nothing
  | count (n : Nat)
  | number (x : Float)
  | flag (b : Bool)
  | text (s : String)
  | status (status : TreeStatus)
  | unset
  | value (v : Value)
  | expr (e : Expr) (cached : Nat)
  | notCompiled (error : ExprError) (cached : Nat)
  | exprError (error : ExprError)
  | loadError (error : LoadError)
  | sourceError (error : SourceError)
  | noSuch
  | badStep

end BehaviorTree.Session
