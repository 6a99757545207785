import BehaviorTree.Proofs.Session.Steady

/-!
The stages of a run and who is told about them. Whatever is done to a runner, those who follow it are
told about a few stages, in an order that depends on how the run goes; nobody is told in between, neither
by the nodes that are ticked nor by what the followers do themselves.
-/

namespace BehaviorTree

open Context (Withstands)

namespace Context

theorem told_note (ctx : Context) (n : Note) : (ctx.note n).told = ctx.told ++ n.told?.toList := by
  refine List.filterMap_append.trans (congrArg (ctx.told ++ ·) ?_)
  rw [List.filterMap_cons]
  cases n.told? <;> rfl

theorem withstands_told (told : List (Stage × String)) : Withstands (fun _ => True) fun ctx => ctx.told = told where
  heeds _ _ _ _ _ _ _ _ _ := trivial
  heard tag args kept := by
    rw [told_note]
    exact (List.append_nil _).trans kept
  deliver _ _ kept := kept
  request _ _ kept := by
    rw [request]
    split <;> exact kept
  on _ _ kept := kept
  off _ _ kept := kept
  offCaller _ _ kept := kept
  advance _ _ kept := kept

@[simp] theorem told_obey (ctx : Context) (orders : List Order) : (ctx.obey orders).told = ctx.told :=
  (withstands_told ctx.told).obey (fun _ _ => trivial) rfl

@[simp] theorem told_unsubscribe (ctx : Context) (listener : Nat) : (ctx.unsubscribe listener).told = ctx.told := by
  rw [unsubscribe]
  split <;> rfl

@[simp] theorem told_unsubscribeAll (ctx : Context) (caller : Nat) : (ctx.unsubscribeAll caller).told = ctx.told := by
  rw [unsubscribeAll]
  generalize ((ctx.mailboxes.filter fun box => box.caller = caller).map Mailbox.listener) = listeners
  induction listeners generalizing ctx with
  | nil => rfl
  | cons listener rest ih => rw [List.foldl_cons, ih, told_unsubscribe]

@[simp] theorem told_dropRequest (ctx : Context) (caller : Nat) : (ctx.dropRequest caller).told = ctx.told := rfl

end Context

/-- The stages that end a run with a verdict. -/
def Verdict.closing : Verdict → List Stage
  | .success => [.afterRun, .afterRunSuccess]
  | .failure => [.afterRun, .afterRunFailure]

/-- Whether a run has failed by an assertion. -/
def RunError.isAssertion : RunError → Bool
  | .assertion _ _ => true
  | _ => false

namespace Runner

/-- The stages that follow the ticks of a run. -/
def closing : Except Fault Outcome → List Stage
  | .ok (.running _) => []
  | .ok (.done verdict) => verdict.closing
  | .error fault => (if fault.error.isAssertion then [.assertFailed] else []) ++ Verdict.failure.closing

/-- The stages that a run goes through. -/
def runStages (runner : Runner) (ctx : Context) : List Stage :=
  if runner.isCancelled ctx then [.interrupted]
  else
    (if runner.actor.stack.isEmpty then [.beforeRun] else []) ++
      closing (runner.tickNodes (ctx.dropRequest runner.actor.caller)).1

/-- The stages that an action leads to. -/
def stages (runner : Runner) (ctx : Context) : HostAction → List Stage
  | .run => runner.runStages ctx
  | .interrupt => if runner.actor.isRunning then [.interrupted] else []
  | .clear => if runner.actor.isRunning then [.interrupted] else []
  | _ => []

/-- What is told when there are such stages: for each of them every follower of the stage, in the order in
which they came. -/
def tells (runner : Runner) (stages : List Stage) : List (Stage × String) :=
  stages.flatMap fun stage =>
    (runner.followers.filter fun follower => follower.1 = stage).map fun follower => (stage, follower.2.tag)

variable {runner : Runner} {ctx : Context} {cache : ExprCache}

theorem tells_append (runner : Runner) (stages more : List Stage) :
    runner.tells (stages ++ more) = runner.tells stages ++ runner.tells more := List.flatMap_append

/-- Every follower of a stage is told of it once, in order. -/
theorem told_announce (runner : Runner) (stage : Stage) (depth : Nat) (ctx : Context) :
    (runner.announce stage depth ctx).told = ctx.told ++ runner.tells [stage] := by
  rw [announce, tells, List.flatMap_singleton]
  generalize (runner.followers.filter fun follower => follower.1 = stage) = followers
  induction followers generalizing ctx with
  | nil => exact (List.append_nil _).symm
  | cons follower rest ih =>
    rw [List.foldl_cons, ih, Context.told_obey, Context.told_note, List.append_assoc]
    rfl

theorem told_abort (runner : Runner) (ctx : Context) :
    (runner.abort ctx).2.told = ctx.told ++ runner.tells [.interrupted] := by
  refine (Context.told_unsubscribeAll _ _).trans ?_
  rw [told_announce, Context.told_note]
  exact congrArg (· ++ _) (List.append_nil _)

/-- A tree that completes tells of its end and of its verdict. -/
theorem told_complete (runner : Runner) (ctx : Context) (verdict : Verdict) :
    (runner.complete ctx verdict).2.2.told = ctx.told ++ runner.tells verdict.closing := by
  have both (last : Stage) : runner.tells [.afterRun, last] = runner.tells [.afterRun] ++ runner.tells [last] :=
    runner.tells_append [.afterRun] [last]
  cases verdict with
  | success =>
    refine (told_announce _ .afterRunSuccess 0 _).trans ?_
    rw [told_announce, List.append_assoc, Verdict.closing, both]
    rfl
  | failure =>
    refine (told_announce _ .afterRunFailure 0 _).trans ?_
    rw [told_announce, List.append_assoc, Verdict.closing, both]
    rfl

/-- Of an error none is told, unless it is an assertion that failed. -/
theorem told_report (runner : Runner) (ctx : Context) (fault : Fault) :
    (runner.report ctx fault).told =
      ctx.told ++ runner.tells (if fault.error.isAssertion then [.assertFailed] else []) := by
  rw [report]
  split
  · rename_i failed
    rw [told_announce, Context.told_note, failed]
    exact congrArg (· ++ _) (List.append_nil _)
  · rename_i other
    rw [Context.told_note]
    have plain : fault.error.isAssertion = false := by
      rcases error : fault.error <;> first | rfl | exact absurd error (other _ _)
    rw [plain]
    rfl

/-- What followers are told at the end of a run goes by its result. -/
theorem told_conclude (runner : Runner) (result : Except Fault Outcome) (scene : Scene) :
    (runner.conclude result scene).2.2.told = scene.context.told ++ runner.tells (closing result) := by
  rcases result with fault | (verdict | frames)
  · refine (told_complete _ _ .failure).trans ?_
    rw [closing, tells_append, ← List.append_assoc]
    refine congrArg (· ++ _) ((Context.told_unsubscribeAll _ _).trans ?_)
    exact told_report { runner with actor := scene.actor } scene.context fault
  · exact told_complete { runner with actor := { scene.actor with stack := [] } } scene.context verdict
  · exact (List.append_nil _).symm

theorem told_interrupt (runner : Runner) (ctx : Context) :
    (runner.interrupt ctx).2.told =
      ctx.told ++ runner.tells (if runner.actor.isRunning then [.interrupted] else []) := by
  rw [interrupt]
  split
  · exact told_abort runner _
  · exact (List.append_nil _).symm

/-- Clearing tells of an interrupt if the tree was running. -/
theorem told_clear (runner : Runner) (ctx : Context) :
    (runner.clear ctx).2.told =
      ctx.told ++ runner.tells (if runner.actor.isRunning then [.interrupted] else []) := by
  by_cases running : runner.actor.status = .running
  · simp only [clear, if_pos running]
    exact (Context.told_unsubscribeAll _ _).trans (told_interrupt runner ctx)
  · have still : runner.actor.isRunning = false := by
      rw [Actor.isRunning, beq_false_of_ne running, Bool.false_and]
    simp only [clear, if_neg running, still]
    exact (Context.told_unsubscribeAll _ _).trans (List.append_nil _).symm

/-- Nodes tell the followers nothing. -/
theorem Ready.told_tickNodes (ready : runner.Ready cache) (ctx : Context) :
    (runner.tickNodes ctx).2.context.told =
      ctx.told ++ runner.tells (if runner.actor.stack.isEmpty then [.beforeRun] else []) := by
  have builtin := ready.shaped.mono fun _ shaped => shaped.builtin
  have effects := Descent.changes_tick runner.tree.root builtin (restore runner.actor.stack) [] (runner.opening ctx)
  rw [ready.tickNodes_eq ctx, effects.told, opening]
  split
  · exact told_announce runner .beforeRun 0 ctx
  · exact (List.append_nil _).symm

theorem Ready.told_run (ready : runner.Ready cache) (ctx : Context) :
    (runner.run ctx).2.2.told = ctx.told ++ runner.tells (runner.runStages ctx) := by
  rw [run_eq, runStages]
  split
  · exact told_abort runner _
  · rw [told_conclude, ready.told_tickNodes, tells_append, List.append_assoc]
    rfl

/-- Whatever a host does to a runner, its followers are told about the stages of that and nothing else. -/
theorem Ready.told_perform (ready : runner.Ready cache) (ctx : Context) {action : HostAction}
    (own : ∀ change, action ≠ .context change) :
    (runner.perform ctx action).2.2.told = ctx.told ++ runner.tells (runner.stages ctx action) := by
  cases action with
  | run => exact ready.told_run ctx
  | interrupt => exact told_interrupt runner ctx
  | clear => exact told_clear runner ctx
  | context change => exact absurd rfl (own change)
  | vars | setDebug | follow => exact (List.append_nil _).symm

end Runner
end BehaviorTree
