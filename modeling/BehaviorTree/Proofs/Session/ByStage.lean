import BehaviorTree.Proofs.Descent.Executions
import BehaviorTree.Runner

/-!
What a runner does to its context, stage by stage. What the single stages keep, whatever a host does
to a runner keeps: telling its followers, abandoning what runs, completing a run. The ticks of the
nodes are left to those who know what the nodes do.
-/

namespace BehaviorTree

namespace Runner

/-- What each stage of what a runner does keeps, the ticks of its nodes apart. -/
structure Steady (caller : Nat) (followers : List (Stage × Reaction)) (K : Context → Prop) : Prop where
  note {ctx} (n : Note) : (∀ id, n.enters id = false) → K ctx → K (ctx.note n)
  obey {ctx} : ∀ follower ∈ followers, K ctx → K (ctx.obey follower.2.orders)
  dropRequest {ctx} : K ctx → K (ctx.dropRequest caller)
  unwind {ctx} : K ctx → K (ctx.unsubscribeAll caller)

namespace Steady

variable {K : Context → Prop} {runner : Runner} {ctx : Context}
  (steady : Steady runner.actor.caller runner.followers K)

include steady

/-- Telling followers keeps what their orders keep. -/
theorem announce (stage : Stage) (depth : Nat) (kept : K ctx) : K (runner.announce stage depth ctx) := by
  rw [Runner.announce]
  have told : ∀ follower ∈ runner.followers.filter fun follower => follower.1 = stage,
      follower ∈ runner.followers := fun follower member => List.mem_of_mem_filter member
  generalize (runner.followers.filter fun follower => follower.1 = stage) = followers at told
  induction followers generalizing ctx with
  | nil => exact kept
  | cons follower rest ih =>
    obtain ⟨first, later⟩ := List.forall_mem_cons.mp told
    exact ih (steady.obey follower first (steady.note _ (fun _ => rfl) kept)) later

theorem abort (kept : K ctx) : K (runner.abort ctx).2 :=
  steady.unwind (steady.announce .interrupted _ (steady.note _ (fun _ => rfl) kept))

/-- Completing keeps what the orders of the followers keep. -/
theorem complete (verdict : Verdict) (kept : K ctx) : K (runner.complete ctx verdict).2.2 := by
  have steady : Steady (runner.setStatus verdict.treeStatus).actor.caller
    (runner.setStatus verdict.treeStatus).followers K := steady
  cases verdict with
  | success =>
    exact steady.dropRequest (steady.announce .afterRunSuccess 0 (steady.announce .afterRun 0 kept))
  | failure =>
    exact steady.dropRequest (steady.announce .afterRunFailure 0 (steady.announce .afterRun 0 kept))

theorem report (fault : Fault) (kept : K ctx) : K (runner.report ctx fault) := by
  rw [Runner.report]
  split
  · exact steady.announce _ _ (steady.note _ (fun _ => rfl) kept)
  · exact steady.note _ (fun _ => rfl) kept

/-- The end of a run keeps what the orders of the followers keep. -/
theorem conclude (result : Except Fault Outcome) {scene : Scene}
    (same : scene.actor.caller = runner.actor.caller) (kept : K scene.context) :
    K (runner.conclude result scene).2.2 := by
  have steady (actor : Actor) (caller : actor.caller = runner.actor.caller) :
      Steady ({ runner with actor } : Runner).actor.caller ({ runner with actor } : Runner).followers K := by
    rw [show ({ runner with actor } : Runner).actor.caller = runner.actor.caller from caller]
    exact steady
  rcases result with fault | (verdict | frames)
  · have told := (steady scene.actor same).report fault kept
    exact (steady ({ scene.actor.clearTemporaries with stack := [] }) same).complete .failure
      ((steady scene.actor same).unwind told)
  · exact (steady { scene.actor with stack := [] } same).complete verdict kept
  · exact kept

theorem interrupt (kept : K ctx) : K (runner.interrupt ctx).2 := by
  rw [Runner.interrupt]
  split
  · exact steady.abort (steady.dropRequest kept)
  · exact kept

/-- All that clearing does before the listeners of the caller are removed. -/
theorem cleared (kept : K ctx) :
    ∃ before, K before ∧ (runner.clear ctx).2 = before.offCaller runner.actor.caller := by
  by_cases running : runner.actor.status = .running
  · refine ⟨_, steady.dropRequest (steady.unwind (steady.interrupt kept)), ?_⟩
    simp only [Runner.clear, if_pos running]
    have same : (runner.interrupt ctx).1.actor.caller = runner.actor.caller := by
      rw [Runner.interrupt]
      split <;> rfl
    simp only [Runner.unwind, Actor.clearTemporaries, same]
  · refine ⟨_, steady.dropRequest (steady.unwind kept), ?_⟩
    simp only [Runner.clear, if_neg running]
    rfl

end Steady
end Runner
end BehaviorTree
