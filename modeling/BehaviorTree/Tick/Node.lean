import BehaviorTree.Tick.Extension

/-!
Ticking and resuming nodes. A fresh tick enters a node below the ones on the stack. A stack is
resumed from its innermost frame outward: each node goes on from its progress once the nodes above
it have completed. Before that, the frames above the outermost node whose deadline has come are
dropped, so that this node is the one that goes on.
-/

namespace BehaviorTree

namespace Visit

/-- What a node of each kind does. -/
def run (visit : Visit) : TickM Step :=
  match visit.node.kind with
  | .sequence => visit.runUntil .failure
  | .selector => visit.runUntil .success
  | .parallel => visit.parallel
  | .ifElse => visit.ifElse
  | .loop => visit.loop
  | .foreach => visit.foreach
  | .inverter => visit.inverter
  | .alwaysSuccess => visit.alwaysSuccess
  | .alwaysFail => visit.alwaysFail
  | .alwaysRunning => visit.alwaysRunning
  | .assert => visit.assert
  | .repeatUntil wanted => visit.repeatUntil wanted
  | .timeout => visit.timeout
  | .delay => visit.delay
  | .once => visit.once
  | .listen => visit.listen
  | .listenTree => visit.listenTree
  | .check => visit.check
  | .isNull => visit.isNull
  | .notNull => visit.notNull
  | .isStatus => visit.isStatus
  | .calculate => visit.calculate
  | .constant => visit.constant
  | .push => visit.push
  | .clear => visit.clear
  | .log => visit.log
  | .now => visit.now
  | .wait => visit.wait
  | .extension e => visit.extension e

/-- The frames that remain when a node has decided. -/
def outcome (visit : Visit) : Step → Outcome
  | .finish verdict => .done verdict
  | .suspend progress deadline above => .running (.mk visit.node progress deadline :: above)

/-- Executes a node and records what it reported, be it a verdict or that it is running. -/
def execute (visit : Visit) : TickM Outcome := do
  let node := visit.node
  TickM.noteDebug (.entered node.name node.id (visit.path.length - 1))
  let outcome := visit.outcome (← visit.run)
  TickM.noteDebug (.left node.name node.id outcome.status)
  TickM.updateActor fun actor => { actor with last := outcome.status }
  return outcome

end Visit

namespace Node

mutual

/-- Ticks a node afresh, below the nodes of the path. -/
def tick : Node → Ticker
  | ⟨id, kind, name, desc, args, input, output, children⟩, path =>
    let ticks := tickAll children
    Visit.execute
      { node := ⟨id, kind, name, desc, args, input, output, children⟩
        progress := none
        children := ticks
        tasks := ticks.map .pending
        path := path ++ [id] }

def tickAll : List Node → List Ticker
  | [] => []
  | child :: rest => tick child :: tickAll rest

end

end Node

/-- Ends the subscriptions of listening nodes. -/
def release (listeners : List Nat) : TickM Unit :=
  TickM.updateContext fun ctx => listeners.foldl Context.unsubscribe ctx

/-- Drops the frames above the outermost node whose deadline has come; gives the number of frames
below the node that goes on. -/
def expireDeadlines (stack : List Frame) : TickM Nat := do
  let now ← TickM.now
  match stack.findIdx? (Frame.isDue now) with
  | none => return stack.length - 1
  | some i =>
    let name := (stack[i]?.map fun frame => frame.node.name).getD ""
    TickM.noteDebug (.deadlineExpired name now)
    release (stackListeners (stack.drop (i + 1)))
    return i

mutual

/-- Resumes the frame with `below` others below it, then each of those as the ones above
complete. -/
def resumeFrom : List Frame → Nat → Ticker
  | [], _, _ => do
    match (← TickM.actor).last.verdict? with
    | some verdict => return .done verdict
    | none => return .running []
  | .mk node progress deadline :: above, below, path => do
    let children := Node.tickAll node.children
    let visit : Visit :=
      { node, progress := some progress, children, tasks := resumeTasks children progress
        path := path ++ [node.id] }
    match below with
    | 0 => visit.execute
    | below + 1 =>
      match ← resumeFrom above below (path ++ [node.id]) with
      | .running frames => return .running (.mk node progress deadline :: frames)
      | .done _ => visit.execute

/-- What is left to do for the children of a Parallel node. -/
def resumeTasks (children : List Ticker) : Progress → List Task
  | .branches branches => branchTasks children branches
  | _ => []

/-- Children paired with their branches as tasks. -/
def branchTasks : List Ticker → List Branch → List Task
  | child :: children, branch :: branches =>
    branchTask child branch :: branchTasks children branches
  | _, _ => []

/-- A child that has completed stays as it is; one that runs is resumed on its own stack. -/
def branchTask (child : Ticker) : Branch → Task
  | .settled verdict => .settled verdict
  | .active [] => .pending child
  | .active (frame :: above) =>
    .pending fun path => do
      resumeFrom (frame :: above) (← expireDeadlines (frame :: above)) path

end

/-- Continues a suspended run. -/
def resume (stack : List Frame) : TickM Outcome := do
  resumeFrom stack (← expireDeadlines stack) []

end BehaviorTree
