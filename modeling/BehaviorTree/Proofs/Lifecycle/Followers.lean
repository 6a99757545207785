import BehaviorTree.Proofs.Event.Asked
import BehaviorTree.Proofs.Session.Journal

/-!
What the followers of a runner carry out. Each operation of a runner tells the followers of some stages about
them, and these carry out their orders at once, one after another. The orders are listed with the contexts in
which that happens, so that it can be said of them what is said of orders that hosts carry out otherwise.
-/

namespace BehaviorTree

open Context (gather)

/-- Orders, and the context in which they are carried out. -/
abbrev Charge := Context × List Order

namespace Runner

variable (runner : Runner)

/-- What the followers of a stage carry out when they are told about it. -/
def chargesAt (stage : Stage) (depth : Nat) (ctx : Context) : List Charge :=
  let told (ctx : Context) (follower : Stage × Reaction) : Context :=
    ctx.note (.followed stage follower.2.tag depth runner.actor.status runner.actor.last)
  gather (fun ctx follower => (told ctx follower).obey follower.2.orders)
    (fun ctx follower => [(told ctx follower, follower.2.orders)]) ctx
    (runner.followers.filter fun follower => follower.1 = stage)

/-- What they carry out when a running tree is abandoned. -/
def chargesAborting (ctx : Context) : List Charge :=
  let depth := runner.actor.stack.length
  runner.chargesAt .interrupted depth (ctx.note (.interrupted runner.tree.name depth))

/-- What they carry out when a run ends with a verdict. -/
def chargesCompleting (ctx : Context) (verdict : Verdict) : List Charge :=
  let runner := runner.setStatus verdict.treeStatus
  let ended := runner.announce .afterRun 0 ctx
  runner.chargesAt .afterRun 0 ctx ++
    match verdict with
    | .success => runner.chargesAt .afterRunSuccess 0 ended
    | .failure => runner.chargesAt .afterRunFailure 0 ended

/-- What they carry out when an error is noted. -/
def chargesReporting (ctx : Context) (fault : Fault) : List Charge :=
  match fault.error with
  | .assertion .. =>
    runner.chargesAt .assertFailed fault.depth (ctx.note (.assertionFailed runner.tree.name fault.error.message))
  | _ => []

/-- What they carry out after the ticks of a run. -/
def chargesConcluding (result : Except Fault Outcome) (scene : Scene) : List Charge :=
  match result with
  | .ok (.running _) => []
  | .ok (.done verdict) =>
    ({ runner with actor := { scene.actor with stack := [] } } : Runner).chargesCompleting scene.context verdict
  | .error fault =>
    let runner := { runner with actor := scene.actor }
    let ctx := runner.report scene.context fault
    runner.chargesReporting scene.context fault ++
      (runner.unwind ctx).1.chargesCompleting (runner.unwind ctx).2 .failure

/-- What they carry out in a run before the nodes are ticked. -/
def chargesBefore (ctx : Context) : List Charge :=
  if runner.isCancelled ctx then []
  else if runner.actor.stack.isEmpty then runner.chargesAt .beforeRun 0 (ctx.dropRequest runner.actor.caller)
  else []

/-- What they carry out in a run once the nodes have been ticked, or if they are not. -/
def chargesAfter (ctx : Context) : List Charge :=
  let dropped := ctx.dropRequest runner.actor.caller
  if runner.isCancelled ctx then runner.chargesAborting dropped
  else
    let (result, scene) := runner.tickNodes dropped
    runner.chargesConcluding result scene

/-- What they carry out when a host interrupts the runner. -/
def chargesInterrupting (ctx : Context) : List Charge :=
  if runner.actor.isRunning then runner.chargesAborting (ctx.dropRequest runner.actor.caller) else []

variable {runner} {ctx : Context}

/-- That a run begins is told if nothing is on the stack. -/
theorem chargesBefore_eq_nil (suspended : runner.actor.stack ≠ []) : runner.chargesBefore ctx = [] := by
  rw [chargesBefore, if_neg (mt List.isEmpty_iff.mp suspended), ite_self]

/-- Nothing is told at the end of a run that leaves the tree running. -/
theorem chargesAfter_eq_nil (running : (runner.run ctx).1 = .running) : runner.chargesAfter ctx = [] := by
  rw [run_eq] at running
  rw [chargesAfter]
  split at running
  · cases running
  · rename_i going
    rw [if_neg going]
    generalize runner.tickNodes (ctx.dropRequest runner.actor.caller) = ticked at running ⊢
    obtain ⟨fault | (verdict | frames), scene⟩ := ticked
    · cases running
    · cases verdict <;> cases running
    · rfl

end Runner
end BehaviorTree
