import BehaviorTree.Runner

/-!
What a host can do with a runner, and what it can see of it. Between two runs a host may change the
context in any way: it moves the clock, dispatches events, registers and removes listeners, asks
for interrupts, and has other actors run. It may write variables at will, but it does not reach
into the stack.
-/

namespace BehaviorTree

/-- What can be done with a runner and its context between its ticks. -/
inductive HostAction where
  | run
  | interrupt
  | clear
  /-- Whatever happens to the context. -/
  | context (change : Context → Context)
  /-- Whatever is written to the variables. -/
  | vars (change : Blackboard → Blackboard)
  | setDebug (debug : Bool)
  | follow (stage : Stage) (reaction : Reaction)

/-- What a host sees once an action is carried out. -/
structure Observation where
  /-- The answer of a run. -/
  answer : Option TreeStatus
  status : TreeStatus
  vars : Blackboard
  last : Status
  /-- Once nodes whose child has completed. -/
  completed : List Nat
  /-- The bus with all subscriptions, the mailboxes, the requests, the clock and the notes. -/
  context : Context

/-- What is seen of an actor after an action. -/
def Actor.observed (actor : Actor) (answer : Option TreeStatus) (context : Context) : Observation :=
  { answer, status := actor.status, vars := actor.vars, last := actor.last
    completed := actor.completed, context }

/-- A new actor, addressed and debugged as its host likes. -/
def Actor.newWith (caller : Nat) (target : Target) (debug : Bool) : Actor :=
  { Actor.new caller with target, debug }

namespace Runner

/-- Carries out an action. -/
def perform (runner : Runner) (ctx : Context) : HostAction → Option TreeStatus × Runner × Context
  | .run =>
    let (status, runner, ctx) := runner.run ctx
    (some status, runner, ctx)
  | .interrupt => (none, runner.interrupt ctx)
  | .clear => (none, runner.clear ctx)
  | .context change => (none, runner, change ctx)
  | .vars change =>
    (none, { runner with actor := { runner.actor with vars := change runner.actor.vars } }, ctx)
  | .setDebug debug => (none, { runner with actor := { runner.actor with debug } }, ctx)
  | .follow stage reaction => (none, runner.follow stage reaction, ctx)

/-- Carries out a schedule of actions. -/
def performAll (runner : Runner) (ctx : Context) : List HostAction → Runner × Context
  | [] => (runner, ctx)
  | action :: rest =>
    let (_, runner, ctx) := runner.perform ctx action
    performAll runner ctx rest

/-- What a host sees of a schedule of actions. -/
def trace (runner : Runner) (ctx : Context) : List HostAction → List Observation
  | [] => []
  | action :: rest =>
    let (answer, runner, ctx) := runner.perform ctx action
    runner.actor.observed answer ctx :: trace runner ctx rest

end Runner
end BehaviorTree
