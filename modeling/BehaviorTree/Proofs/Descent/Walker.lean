import BehaviorTree.Proofs.Descent.Basic
import BehaviorTree.Proofs.Host

/-!
Running a tree for an actor by descent. Where a runner keeps a stack in the actor, a walker keeps
the saved state of the root beside it, and every run begins at the root; the rest is the same.
-/

namespace BehaviorTree.Descent

/-- A tree and the actor it is run for, without a stack, and the saved state of the root. -/
structure Walker where
  runner : Runner
  active : Option Active

namespace Walker

/-- A walker that has not been run. -/
def new (tree : Tree) (actor : Actor) : Walker := ⟨.new tree actor, none⟩

/-- How deep the active nodes are nested. -/
def depth (walker : Walker) : Nat := (walker.active.map Active.depth).getD 0

/-- Abandons whatever is active. -/
def unwind (walker : Walker) (ctx : Context) : Walker × Context :=
  let (runner, ctx) := walker.runner.unwind ctx
  (⟨runner, none⟩, ctx)

/-- Whether a run is under way and something is kept of it. -/
def isRunning (walker : Walker) : Bool :=
  walker.runner.actor.status == .running && walker.active.isSome

/-- Abandons a running tree. -/
def abort (walker : Walker) (ctx : Context) : Walker × Context :=
  let ctx := walker.runner.announce .interrupted walker.depth
    (ctx.note (.interrupted walker.runner.tree.name walker.depth))
  let (walker, ctx) := walker.unwind ctx
  (⟨walker.runner.setStatus .interrupted, none⟩, ctx)

/-- Ends a run with a verdict. -/
def complete (runner : Runner) (ctx : Context) (verdict : Verdict) :
    TreeStatus × Walker × Context :=
  let (status, runner, ctx) := runner.complete ctx verdict
  (status, ⟨runner, none⟩, ctx)

/-- What follows the ticks of a run. -/
def conclude (walker : Walker) (result : Except Fault Report) (scene : Scene) :
    TreeStatus × Walker × Context :=
  let runner := { walker.runner with actor := scene.actor }
  let ctx := scene.context
  match result with
  | .ok (.running state) => (.running, ⟨runner.setStatus .running, some state⟩, ctx)
  | .ok (.done verdict) => complete runner ctx verdict
  | .error fault =>
    let (runner, ctx) := runner.unwind (runner.report ctx fault)
    complete runner ctx .failure

/-- Ticks the root, afresh or on from its saved state. -/
def tickRoot (walker : Walker) (ctx : Context) : Except Fault Report × Scene :=
  let ctx := if walker.active.isNone then walker.runner.announce .beforeRun 0 ctx else ctx
  (tick walker.runner.tree.root walker.active []).run.run ⟨ctx, { walker.runner.actor with stack := [] }⟩

/-- Ticks the tree once. -/
def run (walker : Walker) (ctx : Context) : TreeStatus × Walker × Context :=
  let pending := ctx.isPending walker.runner.actor.caller
  let ctx := ctx.dropRequest walker.runner.actor.caller
  if pending && walker.isRunning then
    let (walker, ctx) := walker.abort ctx
    (.interrupted, walker, ctx)
  else
    let (result, scene) := walker.tickRoot ctx
    walker.conclude result scene

/-- Abandons a running tree at once. -/
def interrupt (walker : Walker) (ctx : Context) : Walker × Context :=
  if walker.isRunning then walker.abort (ctx.dropRequest walker.runner.actor.caller)
  else (walker, ctx)

/-- Brings the actor back to its beginning and removes all its listeners. -/
def clear (walker : Walker) (ctx : Context) : Walker × Context :=
  let (walker, ctx) :=
    if walker.runner.actor.status = .running then walker.interrupt ctx else (walker, ctx)
  let (walker, ctx) := walker.unwind ctx
  let caller := walker.runner.actor.caller
  let actor := { walker.runner.actor.clearVars with completed := [], status := .idle }
  (⟨{ walker.runner with actor }, none⟩, (ctx.dropRequest caller).offCaller caller)

/-- Carries out an action. -/
def perform (walker : Walker) (ctx : Context) : HostAction → Option TreeStatus × Walker × Context
  | .run =>
    let (status, walker, ctx) := walker.run ctx
    (some status, walker, ctx)
  | .interrupt => (none, walker.interrupt ctx)
  | .clear => (none, walker.clear ctx)
  | .context change => (none, walker, change ctx)
  | .vars change => (none, withActor fun actor => { actor with vars := change actor.vars }, ctx)
  | .setDebug debug => (none, withActor fun actor => { actor with debug }, ctx)
  | .follow stage reaction => (none, { walker with runner := walker.runner.follow stage reaction }, ctx)
where
  /-- The walker with its actor changed. -/
  withActor (change : Actor → Actor) : Walker :=
    { walker with runner := { walker.runner with actor := change walker.runner.actor } }

/-- What a host sees of a schedule of actions. -/
def trace (walker : Walker) (ctx : Context) : List HostAction → List Observation
  | [] => []
  | action :: rest =>
    let (answer, walker, ctx) := walker.perform ctx action
    walker.runner.actor.observed answer ctx :: trace walker ctx rest

end Walker
end BehaviorTree.Descent
