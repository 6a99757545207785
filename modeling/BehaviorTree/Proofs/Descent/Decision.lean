import BehaviorTree.Proofs.Descent.Effect
import BehaviorTree.Proofs.Descent.Frames
import BehaviorTree.Proofs.Tree.Shape

/-!
What a node decides by the rules of the descent, told as a node on a stack tells it. A child that
is entered either runs, and the node waits for it, or it has a verdict, which the node heeds with
one turn less. All that is asked of the children is that their fresh ticks agree.
-/

namespace BehaviorTree.Descent

open Visit (Iteration limit?)

/-- The visit of a node on a stack. -/
def onStack (node : Node) (progress : Option Progress) (tasks : List Task) (path : Path) : Visit :=
  { node, progress, children := node.children.map Node.tick, tasks, path }

/-- Fresh ticks of these nodes on a stack are fresh ticks by descent. -/
def Agree (nodes : List Node) : Prop :=
  ∀ child ∈ nodes, ∀ path, child.tick path = Report.outcome child <$> tick child none path

/-- What a node decides by carrying out a move. -/
def decision (node : Node) (path : Path) (move : Move) : TickM Step :=
  Report.step node <$> carryOut (visitAt node path) (node.children.map tick) move

/-- What a node decides by moves of which it enters a child so often at most. -/
def decisionWithin (node : Node) (path : Path) (turns : Nat) (move : Move) : TickM Step :=
  Report.step node <$> drive (visitAt node path) (node.children.map tick) turns move

/-- What follows the tick of a child: the node waits for it, or makes something of its verdict. -/
def following (wait : List Frame → TickM Step) (settle : Verdict → TickM Step) : Outcome → TickM Step
  | .running above => wait above
  | .done verdict => settle verdict

variable {node : Node} {path : Path} {progress : Option Progress} {tasks : List Task}

/-! ### Moves -/

@[simp] theorem decisionWithin_finish (turns : Nat) (verdict : Verdict) :
    decisionWithin node path turns (.finish verdict) = pure (.finish verdict) := by
  cases turns <;> rfl

@[simp] theorem decisionWithin_rest (turns : Nat) (memory : Memory) :
    decisionWithin node path turns (.rest memory) = pure (.keep (progressAt node.kind memory)) := by
  cases turns <;> rfl

/-- What becomes of a child that is entered. -/
theorem decisionWithin_enter (agree : Agree node.children) (turns i : Nat) (memory : Memory)
    {child : Node} (here : node.children[i]? = some child) {settle : Outcome → TickM Step}
    (waits : ∀ above, settle (.running above) =
      pure (.suspend (progressOver node.kind memory i) (armed? node.kind memory) above))
    (settles : ∀ verdict, settle (.done verdict) =
      heed (visitAt node path) node.kind memory i verdict >>= decisionWithin node path turns) :
    decisionWithin node path (turns + 1) (.enter i memory) = child.tick path >>= settle := by
  have entered : (node.children.map tick)[i]? = some (tick child) := by
    rw [List.getElem?_map, here]
    rfl
  rw [decisionWithin, drive, entered, agree child (List.mem_of_getElem? here), bind_map_left]
  simp only [map_bind]
  congr 1
  funext report
  cases report with
  | running state => simp only [Report.outcome, waits, map_pure, Report.step, here]
  | done verdict =>
    simp only [Report.outcome, settles, map_bind]
    rfl

theorem decision_of_turns {move : Move} {n : Nat}
    (h : ∀ ctx, turns (visitAt node path) ctx move = n) :
    decision node path move = decisionWithin node path n move := by
  refine TickM.ext fun s => ?_
  rw [decision, decisionWithin, TickM.play_map, TickM.play_map, carryOut,
    TickM.play_bind_ok (TickM.play_context s), h]

@[simp] theorem decision_finish (verdict : Verdict) :
    decision node path (.finish verdict) = pure (.finish verdict) := by
  rw [decision_of_turns (n := node.children.length) fun _ => rfl, decisionWithin_finish]

@[simp] theorem decision_rest (memory : Memory) :
    decision node path (.rest memory) = pure (.keep (progressAt node.kind memory)) := by
  rw [decision_of_turns (n := node.children.length) fun _ => rfl, decisionWithin_rest]

/-- A node that does not handle events enters each child at most once. -/
theorem decision_enter {i : Nat} (memory : Memory) (quiet : ∀ listener, memory ≠ .mailbox listener) :
    decision node path (.enter i memory) =
      decisionWithin node path node.children.length (.enter i memory) := by
  refine decision_of_turns fun ctx => ?_
  cases memory with
  | mailbox listener => exact absurd rfl (quiet listener)
  | _ => rfl

/-- A node with one child enters it and settles at once what becomes of its verdict. -/
theorem decision_only (agree : Agree node.children) {child : Node} (only : node.children = [child])
    (memory : Memory) (quiet : ∀ listener, memory ≠ .mailbox listener)
    {settle : Outcome → TickM Step}
    (waits : ∀ above, settle (.running above) =
      pure (.suspend (progressOver node.kind memory 0) (armed? node.kind memory) above))
    (settles : ∀ verdict, settle (.done verdict) =
      heed (visitAt node path) node.kind memory 0 verdict >>= decisionWithin node path 0) :
    decision node path (.enter 0 memory) = child.tick path >>= settle := by
  have here : node.children[0]? = some child := by
    rw [only]
    rfl
  have one : node.children.length = 0 + 1 := by
    rw [only]
    rfl
  rw [decision_enter memory quiet, one, decisionWithin_enter agree 0 0 memory here waits settles]

end BehaviorTree.Descent
