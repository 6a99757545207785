import BehaviorTree.Proofs.Descent.Basic

/-!
Saved states laid out as stacks. The state of an active node is a frame for the node with the
frames of its active child above it; the children of a Parallel node get stacks of their own. Not
every state makes sense for every node: in a sound one each node remembers what its kind works
with, the active child is one that it can wait for, and no active Once node has completed.
-/

namespace BehaviorTree.Descent

/-! ### Layout -/

/-- The progress of a node that waits for a child. -/
def progressOver : Kind → Memory → Nat → Progress
  | .sequence, _, i => .child i
  | .selector, _, i => .child i
  | .ifElse, _, i => if i = 0 then .testing else .branching
  | .alwaysRunning, _, _ => .restarting true
  | .delay, _, _ => .delayed
  | _, .round it, i => it.progress i true
  | _, .attempts count, _ => .attempt count true
  | _, .until time, _ => .deadline time
  | _, .mailbox listener, _ => .listening listener true
  | _, .nothing, _ => .entered

/-- The progress of a node that runs with no child active. -/
def progressAt : Kind → Memory → Progress
  | .alwaysRunning, _ => .restarting false
  | .delay, .until time => .delaying time
  | _, .round it => it.progress 0 false
  | _, .attempts count => .attempt count false
  | _, .until time => .deadline time
  | _, .mailbox listener => .listening listener false
  | _, .nothing => .entered

mutual

/-- The stack of a saved state. -/
def frames : Node → Active → List Frame
  | node, .resting memory => [.mk node (progressAt node.kind memory) none]
  | node, .over memory i state =>
    .mk node (progressOver node.kind memory i) (armed? node.kind memory) ::
      match node.children[i]? with
      | some child => frames child state
      | none => []
  | node, .beside shares => [.mk node (.branches (branches node.children shares)) none]

/-- The branch that stands for the share of a child. -/
def branch : Node → Share → Branch
  | _, .settled verdict => .settled verdict
  | node, .active state => .active (frames node state)

/-- The branches that stand for the shares of the children. -/
def branches : List Node → List Share → List Branch
  | child :: children, share :: shares => branch child share :: branches children shares
  | _, _ => []

end

/-- What a report comes to on a stack. -/
def Report.outcome (node : Node) : Report → Outcome
  | .done verdict => .done verdict
  | .running state => .running (frames node state)

/-- What a node decided, as the report tells it. -/
def Report.step (node : Node) : Report → Step
  | .done verdict => .finish verdict
  | .running (.resting memory) => .keep (progressAt node.kind memory)
  | .running (.over memory i state) =>
    .suspend (progressOver node.kind memory i) (armed? node.kind memory)
      (match node.children[i]? with
      | some child => frames child state
      | none => [])
  | .running (.beside shares) => .keep (.branches (branches node.children shares))

/-! ### Sound states -/

/-- What a node can remember while no child is active. -/
def RestsWith : Kind → Memory → Prop
  | .loop, .round it => it.isOver = false
  | .foreach, .round it => it.isOver = false
  | .alwaysRunning, .nothing => True
  | .repeatUntil _, .attempts _ => True
  | .delay, .until _ => True
  | .listen, .mailbox _ => True
  | .listenTree, .mailbox _ => True
  | .wait, .until _ => True
  | _, _ => False

/-- What a node can remember while a child is active, and which child that can be. -/
def WaitsWith : Kind → Memory → Nat → Prop
  | .sequence, .nothing, _ => True
  | .selector, .nothing, _ => True
  | .ifElse, .nothing, i => i ≤ 2
  | .loop, .round it, _ => it.isOver = false
  | .foreach, .round it, _ => it.isOver = false
  | .inverter, .nothing, i => i = 0
  | .alwaysSuccess, .nothing, i => i = 0
  | .alwaysFail, .nothing, i => i = 0
  | .alwaysRunning, .nothing, i => i = 0
  | .assert, .nothing, i => i = 0
  | .once, .nothing, i => i = 0
  | .delay, .nothing, i => i = 0
  | .repeatUntil _, .attempts _, i => i = 0
  | .timeout, .until _, i => i = 0
  | .listen, .mailbox _, i => i = 0
  | .listenTree, .mailbox _, i => i = 0
  | _, _, _ => False

mutual

/-- A state that a node can be in, when the Once nodes with these ids have completed. -/
def Sound (completed : List Nat) : Node → Active → Prop
  | node, .resting memory => RestsWith node.kind memory
  | node, .over memory i state =>
    WaitsWith node.kind memory i ∧ (node.kind = .once → node.id ∉ completed) ∧
      ∃ child, node.children[i]? = some child ∧ Sound completed child state
  | node, .beside shares => node.kind = .parallel ∧ SoundShares completed node.children shares

/-- What the share of a child asks for the state below it. -/
def SoundShare (completed : List Nat) : Node → Share → Prop
  | _, .settled _ => True
  | node, .active state => Sound completed node state

/-- Every child has a share, and each is sound. -/
def SoundShares (completed : List Nat) : List Node → List Share → Prop
  | [], [] => True
  | child :: children, share :: shares =>
    SoundShare completed child share ∧ SoundShares completed children shares
  | _, _ => False

end

theorem frames_ne_nil (node : Node) (state : Active) : frames node state ≠ [] := by
  cases state <;> simp [frames]

end BehaviorTree.Descent
