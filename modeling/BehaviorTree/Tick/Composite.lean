import BehaviorTree.Tick.Basic

/-!
Nodes with any number of children. Sequence and Selector go through the children until one stops
them; Loop and Foreach go through them once per iteration, an iteration per tick; IfElse chooses
between two; Parallel ticks all that have not completed, each on a stack of its own.
-/

namespace BehaviorTree.Visit

/-! ### Sequence and Selector -/

/-- Ticks the children from the `i`-th on, until one reports `stop` or runs. -/
def runFrom (visit : Visit) (stop : Verdict) : Nat → List Ticker → TickM Step
  | _, [] => return .finish stop.invert
  | i, tick :: rest => do
    match ← tick visit.path with
    | .running above => return .await (.child i) above
    | .done verdict => if verdict = stop then return .finish stop else runFrom visit stop (i + 1) rest

/-- Goes through the children up to the first one that reports `stop`. -/
def runUntil (visit : Visit) (stop : Verdict) : TickM Step := do
  match visit.progress with
  | none => visit.runFrom stop 0 visit.children
  | some (.child last) =>
    if (← visit.childVerdict) = stop then return .finish stop
    else visit.runFrom stop (last + 1) (visit.children.drop (last + 1))
  | some _ => visit.badResume

/-! ### Parallel -/

/-- Runs the pending tasks in order. Each has a stack of its own, so its nodes are counted from
there, and what cuts one short is raised where the Parallel node stands. -/
def runTasks (depth : Nat) : List Task → TickM (List Branch)
  | [] => return []
  | .settled verdict :: rest => do return .settled verdict :: (← runTasks depth rest)
  | .pending run :: rest => do
    let outcome ← tryCatch (run []) fun fault => throw ⟨fault.error, depth⟩
    let branch :=
      match outcome with
      | .done verdict => Branch.settled verdict
      | .running frames => .active frames
    return branch :: (← runTasks depth rest)

/-- Whether a branch has completed. -/
def isSettled : Branch → Bool
  | .settled _ => true
  | .active _ => false

/-- Ticks every child that has not completed, and succeeds when all have. -/
def parallel (visit : Visit) : TickM Step := do
  match visit.progress with
  | none => pure ()
  | some (.branches _) => pure ()
  | some _ => visit.badResume
  let branches ← runTasks visit.path.length visit.tasks
  return if branches.all isSettled then .success else .keep (.branches branches)

/-! ### IfElse -/

/-- Ticks the child that the condition chose; a missing one counts as success. -/
def runBranch (visit : Visit) (condition : Verdict) : TickM Step := do
  let i := match condition with
    | .success => 1
    | .failure => 2
  match visit.children[i]? with
  | none => return .success
  | some tick =>
    match ← tick visit.path with
    | .running above => return .await .branching above
    | .done verdict => return .finish verdict

/-- Runs the second child if the first succeeds, and the third otherwise. -/
def ifElse (visit : Visit) : TickM Step := do
  match visit.progress with
  | none =>
    match ← visit.tickChild 0 with
    | .running above => return .await .testing above
    | .done condition => visit.runBranch condition
  | some .testing => visit.runBranch (← visit.childVerdict)
  | some .branching => return .finish (← visit.childVerdict)
  | some _ => visit.badResume

/-! ### Loop and Foreach -/

/-- Which iteration it is, how many there are at most, and the elements to go through. -/
structure Iteration where
  index : Nat
  count : Option Nat
  items : List Value

namespace Iteration

/-- Whether all iterations are done. -/
def isOver (it : Iteration) : Bool := it.count.any (· ≤ it.index)

/-- What is kept of an iteration between ticks. -/
def progress (it : Iteration) (child : Nat) (waiting : Bool) : Progress :=
  .iteration it.index it.count child waiting it.items

end Iteration

/-- Ticks the children of an iteration from the `i`-th on. When all have succeeded the next
iteration is due in the next tick, if there is one. -/
def runIteration (visit : Visit) (it : Iteration) : Nat → List Ticker → TickM Step
  | _, [] =>
    let next := { it with index := it.index + 1 }
    return if next.isOver then .success else .keep (next.progress 0 false)
  | i, tick :: rest => do
    match ← tick visit.path with
    | .running above => return .await (it.progress i true) above
    | .done .success => runIteration visit it (i + 1) rest
    | .done .failure => return .failure

/-- Goes on with an iteration from the `i`-th child; `before` is called when it begins. -/
def enterIteration (visit : Visit) (before : Iteration → TickM Unit) (it : Iteration) (i : Nat) :
    TickM Step := do
  if it.isOver then return .success
  if i = 0 then before it
  visit.runIteration it i (visit.children.drop i)

/-- Goes through the children once per iteration. -/
def iterate (visit : Visit) (fresh : TickM Iteration) (before : Iteration → TickM Unit) :
    TickM Step := do
  match visit.progress with
  | none => visit.enterIteration before (← fresh) 0
  | some (.iteration index count child true items) =>
    match ← visit.childVerdict with
    | .failure => return .failure
    | .success => visit.enterIteration before ⟨index, count, items⟩ (child + 1)
  | some (.iteration index count child false items) =>
    visit.enterIteration before ⟨index, count, items⟩ child
  | some _ => visit.badResume

/-- A count of iterations; a negative one sets no limit. -/
def limit? (n : Int) : Option Nat := if 0 ≤ n then some n.toNat else none

/-- Repeats the children a number of times. A whole number in the input variable counts before
the argument. -/
def loop (visit : Visit) : TickM Step :=
  visit.iterate
    (do
      let given := (← visit.input? 0).bind Value.int?
      return ⟨0, (given.or (visit.node.int? "count")).bind limit?, []⟩)
    (fun it => visit.setOutput 0 (.ofNat it.index))

/-- Goes through the children for every element that the input array has when it is entered. -/
def foreach (visit : Visit) : TickM Step :=
  visit.iterate
    (do
      let items := ((← visit.input? 0).bind Value.array?).getD []
      return ⟨0, some items.length, items⟩)
    (fun it => do
      match it.items[it.index]? with
      | some item =>
        visit.setOutput 0 item
        visit.setOutput 1 (.ofNat it.index)
      | none => pure ())

end BehaviorTree.Visit
