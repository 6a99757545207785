import BehaviorTree.Tick.Node

/-!
Running a tree for an actor. A run begins at the root or goes on from the suspended nodes, and the
host that follows it is told about its stages. A run that is interrupted or cut short by an error
is abandoned: the stack and the temporary variables are discarded and the listening nodes on the
stack stop listening. A request for an interrupt takes effect when the next run begins, provided
that the tree is running then; otherwise it is dropped.
-/

namespace BehaviorTree

/-- A tree and the actor it is run for. -/
structure Runner where
  tree : Tree
  actor : Actor
  /-- What hosts do at the stages of a run. -/
  followers : List (Stage × Reaction)

namespace Runner

/-- A runner without followers. -/
def new (tree : Tree) (actor : Actor) : Runner := ⟨tree, actor, []⟩

/-- Status of the last run. A tree that is about to be interrupted counts as interrupted. -/
def status (runner : Runner) (ctx : Context) : TreeStatus :=
  if ctx.isPending runner.actor.caller && runner.actor.isRunning then .interrupted
  else runner.actor.status

/-- Registers a follower for a stage. -/
def follow (runner : Runner) (stage : Stage) (reaction : Reaction) : Runner :=
  { runner with followers := runner.followers ++ [(stage, reaction)] }

/-- Tells the followers of a stage about it, with the number of nodes on the stack. -/
def announce (runner : Runner) (stage : Stage) (depth : Nat) (ctx : Context) : Context :=
  (runner.followers.filter fun follower => follower.1 = stage).foldl
    (fun ctx follower =>
      (ctx.note (.followed stage follower.2.tag depth runner.actor.status runner.actor.last)).obey
        follower.2.orders) ctx

/-- Abandons whatever is running. -/
def unwind (runner : Runner) (ctx : Context) : Runner × Context :=
  ({ runner with actor := { runner.actor.clearTemporaries with stack := [] } },
    ctx.unsubscribeAll runner.actor.caller)

/-- Says how the run of a tree stands. -/
def setStatus (runner : Runner) (status : TreeStatus) : Runner :=
  { runner with actor := { runner.actor with status } }

/-- Abandons a running tree. -/
def abort (runner : Runner) (ctx : Context) : Runner × Context :=
  let depth := runner.actor.stack.length
  let ctx := runner.announce .interrupted depth (ctx.note (.interrupted runner.tree.name depth))
  let (runner, ctx) := runner.unwind ctx
  (runner.setStatus .interrupted, ctx)

/-- Ends a run with a verdict. -/
def complete (runner : Runner) (ctx : Context) (verdict : Verdict) :
    TreeStatus × Runner × Context :=
  let runner := runner.setStatus verdict.treeStatus
  let ctx := runner.announce .afterRun 0 ctx
  let ctx :=
    match verdict with
    | .success => runner.announce .afterRunSuccess 0 ctx
    | .failure => runner.announce .afterRunFailure 0 ctx
  (verdict.treeStatus, runner, ctx.dropRequest runner.actor.caller)

/-- Notes an error; a host can follow failed assertions. -/
def report (runner : Runner) (ctx : Context) (fault : Fault) : Context :=
  match fault.error with
  | .assertion .. =>
    runner.announce .assertFailed fault.depth
      (ctx.note (.assertionFailed runner.tree.name fault.error.message))
  | _ => ctx.note (.runFailed runner.tree.name fault.error.message)

/-- What follows the ticks of a run. An error counts as a failure of the whole tree. -/
def conclude (runner : Runner) (result : Except Fault Outcome) (scene : Scene) :
    TreeStatus × Runner × Context :=
  let ctx := scene.context
  match result with
  | .ok (.running frames) =>
    (.running,
      { runner with actor := { scene.actor with stack := frames, status := .running } }, ctx)
  | .ok (.done verdict) =>
    complete { runner with actor := { scene.actor with stack := [] } } ctx verdict
  | .error fault =>
    let runner := { runner with actor := scene.actor }
    let ctx := runner.report ctx fault
    let (runner, ctx) := runner.unwind ctx
    runner.complete ctx .failure

/-- Ticks the nodes of a run, from the root or on from the suspended ones. The stack is taken out of
the actor meanwhile; what is left of it comes with the outcome. -/
def tickNodes (runner : Runner) (ctx : Context) : Except Fault Outcome × Scene :=
  let actor := { runner.actor with stack := [] }
  if runner.actor.stack.isEmpty then
    (runner.tree.root.tick []).run.run ⟨runner.announce .beforeRun 0 ctx, actor⟩
  else (resume runner.actor.stack).run.run ⟨ctx, actor⟩

/-- Ticks the tree once. -/
def run (runner : Runner) (ctx : Context) : TreeStatus × Runner × Context :=
  let pending := ctx.isPending runner.actor.caller
  let ctx := ctx.dropRequest runner.actor.caller
  if pending && runner.actor.isRunning then
    let (runner, ctx) := runner.abort ctx
    (.interrupted, runner, ctx)
  else
    let (result, scene) := runner.tickNodes ctx
    runner.conclude result scene

/-- Abandons a running tree at once; does nothing to one that is not running. -/
def interrupt (runner : Runner) (ctx : Context) : Runner × Context :=
  if runner.actor.isRunning then runner.abort (ctx.dropRequest runner.actor.caller)
  else (runner, ctx)

/-- Brings the actor back to its beginning and removes all its listeners. -/
def clear (runner : Runner) (ctx : Context) : Runner × Context :=
  let (runner, ctx) :=
    if runner.actor.status = .running then runner.interrupt ctx else (runner, ctx)
  let (runner, ctx) := runner.unwind ctx
  let caller := runner.actor.caller
  ({ runner with actor := { runner.actor.clearVars with completed := [], status := .idle } },
    (ctx.dropRequest caller).offCaller caller)

/-- Gives the actor up: all its listeners are removed. -/
def discard (runner : Runner) (ctx : Context) : Context :=
  (ctx.unsubscribeAll runner.actor.caller).offCaller runner.actor.caller

end Runner
end BehaviorTree
