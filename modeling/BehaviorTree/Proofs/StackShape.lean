import BehaviorTree.Proofs.Descent.Refinement

/-!
The stack of a runner between two actions of its host. The frames follow a path down the tree,
from the root, and the progress in each frame agrees with the frame above it: a node that waits
for a child has that child above it, and a node that waits for nothing is on top. A Parallel node
is on top of its stack, and the stacks of its branches are of the same form.
-/

namespace BehaviorTree

/-- The progress a process of a kind resumes with, and the child it has above it then, if any. -/
def Suspends : Kind → Progress → Option Nat → Prop
  | .sequence, .child i, above => above = some i
  | .selector, .child i, above => above = some i
  | .parallel, .branches _, above => above = none
  | .ifElse, .testing, above => above = some 0
  | .ifElse, .branching, above => above = some 1 ∨ above = some 2
  | .loop, .iteration _ _ i waiting _, above => above = if waiting then some i else none
  | .foreach, .iteration _ _ i waiting _, above => above = if waiting then some i else none
  | .inverter, .entered, above => above = some 0
  | .alwaysSuccess, .entered, above => above = some 0
  | .alwaysFail, .entered, above => above = some 0
  | .assert, .entered, above => above = some 0
  | .once, .entered, above => above = some 0
  | .alwaysRunning, .restarting waiting, above => above = if waiting then some 0 else none
  | .repeatUntil _, .attempt _ waiting, above => above = if waiting then some 0 else none
  | .timeout, .deadline _, above => above = some 0
  | .delay, .delaying _, above => above = none
  | .delay, .delayed, above => above = some 0
  | .listen, .listening _ waiting, above => above = if waiting then some 0 else none
  | .listenTree, .listening _ waiting, above => above = if waiting then some 0 else none
  | .wait, .deadline _, above => above = none
  | _, _, _ => False

mutual

/-- A stack that begins with the node and goes from each frame to a child that it waits for. -/
def StackFits : List Frame → Node → Prop
  | [], _ => False
  | .mk owner progress _ :: above, node =>
    owner = node ∧ ProgressFits progress node.children ∧
      (above = [] ∧ Suspends node.kind progress none ∨
        ∃ i child, node.children[i]? = some child ∧ Suspends node.kind progress (some i) ∧
          StackFits above child)

/-- The branches that a progress holds, if any, fit the children. -/
def ProgressFits : Progress → List Node → Prop
  | .branches branches, children => BranchesFit branches children
  | _, _ => True

/-- One branch for each child. -/
def BranchesFit : List Branch → List Node → Prop
  | [], [] => True
  | branch :: branches, child :: children => BranchFits branch child ∧ BranchesFit branches children
  | _, _ => False

/-- A branch whose child has completed, or whose stack begins with that child. -/
def BranchFits : Branch → Node → Prop
  | .settled _, _ => True
  | .active stack, child => StackFits stack child

end

namespace Descent

/-! ### Frames of a sound state -/

/-- A node that waits for a child is suspended on it. -/
theorem suspends_progressOver {kind : Kind} {memory : Memory} {i : Nat}
    (waits : WaitsWith kind memory i) : Suspends kind (progressOver kind memory i) (some i) := by
  cases kind with
  | ifElse =>
    cases memory with
    | nothing =>
      have one : i ≤ 2 := waits
      simp only [progressOver]
      split
      · rename_i first
        rw [first]
        rfl
      · simp only [Suspends, Option.some.injEq]
        omega
    | _ => exact waits.elim
  | _ => cases memory <;> first | exact waits.elim | (cases waits; rfl) | rfl

theorem suspends_progressAt {kind : Kind} {memory : Memory} (rests : RestsWith kind memory) :
    Suspends kind (progressAt kind memory) none := by
  cases kind <;> cases memory <;> first | exact rests.elim | rfl

theorem progressFits_progressOver (kind : Kind) (memory : Memory) (i : Nat) (children : List Node) :
    ProgressFits (progressOver kind memory i) children := by
  cases kind with
  | ifElse =>
    rw [progressOver]
    split <;> trivial
  | _ => cases memory <;> trivial

theorem progressFits_progressAt (kind : Kind) (memory : Memory) (children : List Node) :
    ProgressFits (progressAt kind memory) children := by
  cases kind <;> cases memory <;> trivial

mutual

/-- The frames of a sound state fit its node. -/
theorem stackFits_frames {completed : List Nat} : ∀ {node : Node} {state : Active},
    Sound completed node state → StackFits (frames node state) node
  | _, .resting _, rests =>
    ⟨rfl, progressFits_progressAt _ _ _, .inl ⟨rfl, suspends_progressAt rests⟩⟩
  | _, .over _ i _, ⟨waits, _, child, here, sound⟩ => by
    refine ⟨rfl, progressFits_progressOver _ _ _ _, .inr ⟨i, child, here, suspends_progressOver waits, ?_⟩⟩
    rw [here]
    exact stackFits_frames sound
  | _, .beside _, ⟨kind, sound⟩ => by
    refine ⟨rfl, branchesFit_branches sound, .inl ⟨rfl, ?_⟩⟩
    rw [kind]
    rfl

theorem branchesFit_branches {completed : List Nat} : ∀ {children : List Node} {shares : List Share},
    SoundShares completed children shares → BranchesFit (branches children shares) children
  | [], [], _ => trivial
  | _ :: _, _ :: _, ⟨first, rest⟩ => ⟨branchFits_branch first, branchesFit_branches rest⟩

theorem branchFits_branch {completed : List Nat} : ∀ {child : Node} {share : Share},
    SoundShare completed child share → BranchFits (branch child share) child
  | _, .settled _, _ => trivial
  | _, .active _, sound => stackFits_frames sound

end

namespace Walker

variable {walker : Walker}

/-- The frames laid out for a valid walker fit the tree. -/
theorem stackFits_layout (valid : walker.Valid) (busy : walker.layout.actor.stack ≠ []) :
    StackFits walker.layout.actor.stack walker.runner.tree.root := by
  rcases active : walker.active with _ | state
  · have stackless : walker.layout.actor.stack = [] := by
      rw [layout_stack, stack, active]
    exact absurd stackless busy
  · rw [layout_stack, stack, active]
    exact stackFits_frames (valid.sound state active)

theorem running_iff_stack (valid : walker.Valid) :
    walker.layout.actor.status = .running ↔ walker.layout.actor.stack ≠ [] := by
  rw [layout_status, valid.running,
    layout_stack, ne_eq, ← List.isEmpty_iff, isEmpty_stack]
  cases walker.active <;> simp

end Walker
end Descent

namespace Runner

/-- Whatever its host has done with a runner of a loaded tree, it is running exactly when there is a
stack, and the stack fits the tree. -/
theorem performAll_stackFits (source : Source) (cache : ExprCache) (name : String) (strict : Bool)
    (tree : Tree) (loaded : (source.load Registry.builtin cache name strict).1 = .ok tree)
    (caller : Nat) (target : Target) (debug : Bool) (ctx : Context) (actions : List HostAction) :
    let runner := ((Runner.new tree (.newWith caller target debug)).performAll ctx actions).1
    (runner.actor.status = .running ↔ runner.actor.stack ≠ []) ∧
      (runner.actor.stack ≠ [] → StackFits runner.actor.stack tree.root) := by
  intro runner
  obtain ⟨after, valid, sameTree, reached⟩ :=
    Descent.Walker.performAll_layout (Source.built_load loaded)
      (Descent.Walker.valid_new tree caller target debug) ctx actions
  have laid : runner = after.layout := reached
  rw [laid]
  refine ⟨Descent.Walker.running_iff_stack valid, fun busy => ?_⟩
  have fits := Descent.Walker.stackFits_layout valid busy
  rwa [sameTree] at fits

theorem performAll_stackFits_patrol :
    (patrolSource.load Registry.builtin [] "patrol" true).1 = .ok patrol ∧
      let runner := ((Runner.new patrol (.newWith 1 .everyone false)).performAll
        (.new Registry.builtin) [.run, .context (·.advance 1.0), .run]).1
      (runner.actor.status = .running ↔ runner.actor.stack ≠ []) ∧
        (runner.actor.stack ≠ [] → StackFits runner.actor.stack patrol.root) :=
  have loaded := congrArg Prod.fst load_patrol
  ⟨loaded, performAll_stackFits patrolSource [] "patrol" true patrol loaded 1 .everyone false _ _⟩

end Runner
end BehaviorTree
