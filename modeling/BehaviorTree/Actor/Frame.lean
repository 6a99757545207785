import BehaviorTree.Tree.Basic

/-!
What a running actor remembers. A frame stands for a node that was entered and has not completed,
with the progress it made; the frames of a stack lead from the root to the node that runs. A
Parallel node keeps a stack for each child that has not completed.
-/

namespace BehaviorTree

mutual

/-- What a node needs to go on. -/
inductive Progress where
  /-- Nothing. -/
  | entered
  /-- The child that runs. -/
  | child (i : Nat)
  /-- Every child that a Parallel node ticks. -/
  | branches (branches : List Branch)
  /-- The condition of an IfElse node runs. -/
  | testing
  /-- The chosen branch of an IfElse node runs. -/
  | branching
  /-- The iteration, how many there are at most, the child in it and whether that child runs, and
  the elements to go through. -/
  | iteration (index : Nat) (count : Option Nat) (child : Nat) (waiting : Bool) (items : List Value)
  /-- Whether the child runs or is to be started again. -/
  | restarting (waiting : Bool)
  /-- Attempts that have ended, and whether another one runs. -/
  | attempt (count : Nat) (waiting : Bool)
  /-- Time at which the wait is over. -/
  | deadline (time : Float)
  /-- A delay until a time. -/
  | delaying (time : Float)
  /-- A delay is over and the child runs. -/
  | delayed
  /-- A listener, and whether the child handles an event. -/
  | listening (listener : Nat) (waiting : Bool)
  /-- A count. -/
  | count (n : Int)
  /-- A remark that is of no use later. -/
  | remark (s : String)

/-- A node on the stack, with what it keeps between ticks and the time at which it is cut off. -/
inductive Frame where
  | mk (node : Node) (progress : Progress) (deadline : Option Float)

/-- A child of a Parallel node: its verdict, or its own stack, which is empty before it starts. -/
inductive Branch where
  | settled (verdict : Verdict)
  | active (stack : List Frame)

end

instance : Inhabited Progress := ⟨.entered⟩

namespace Frame

def node : Frame → Node
  | mk node _ _ => node

/-- What the node of a frame keeps between ticks. -/
def progress : Frame → Progress
  | mk _ progress _ => progress

def deadline : Frame → Option Float
  | mk _ _ deadline => deadline

/-- The deadline has come. -/
def isDue (now : Float) (frame : Frame) : Bool :=
  match frame.deadline with
  | some deadline => deadline ≤ now
  | none => false

end Frame

mutual

/-- Listeners of the listening nodes in a stack, those in branches included. -/
def Frame.listeners : Frame → List Nat
  | .mk _ progress _ => progress.listeners

/-- Listeners held within the progress of a node. -/
def Progress.listeners : Progress → List Nat
  | .listening listener _ => [listener]
  | .branches branches => branchListeners branches
  | _ => []

def Branch.listeners : Branch → List Nat
  | .settled _ => []
  | .active stack => stackListeners stack

/-- Listeners held by the frames of a stack. -/
def stackListeners : List Frame → List Nat
  | [] => []
  | frame :: rest => frame.listeners ++ stackListeners rest

def branchListeners : List Branch → List Nat
  | [] => []
  | branch :: rest => branch.listeners ++ branchListeners rest

end

end BehaviorTree
