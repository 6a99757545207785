import BehaviorTree.Proofs.Lifecycle.Stages
import BehaviorTree.Proofs.StackShape

/-!
Runs come in rounds. A round begins when a tree that is not running is run and ends when the run
completes, fails on an error or is abandoned; a tree is running just while a round is open. So those who
follow a runner are told about each beginning and each end once, in turn.
-/

namespace BehaviorTree

/-- The stages that may end a round. -/
inductive Ending : List Stage → Prop where
  | succeeded : Ending [.afterRun, .afterRunSuccess]
  | failed : Ending [.afterRun, .afterRunFailure]
  | asserted : Ending [.assertFailed, .afterRun, .afterRunFailure]
  | interrupted : Ending [.interrupted]

/-- The stages of any number of rounds that have ended. -/
inductive Rounds : List Stage → Prop where
  | none : Rounds []
  | more {ending later : List Stage} (ends : Ending ending) (rounds : Rounds later) :
      Rounds (.beforeRun :: ending ++ later)

theorem ending_closing (verdict : Verdict) : Ending verdict.closing := by
  cases verdict with
  | success => exact .succeeded
  | failure => exact .failed

namespace Rounds

variable {word ending : List Stage}

theorem concat (rounds : Rounds word) (ends : Ending ending) : Rounds (word ++ .beforeRun :: ending) := by
  induction rounds with
  | none => simpa using Rounds.more ends .none
  | more first _ ih => simpa using Rounds.more first ih

/-- The last stage of a round is no beginning. -/
theorem getLast?_ne (rounds : Rounds word) : word.getLast? ≠ some .beforeRun := by
  induction rounds with
  | none => exact nofun
  | @more ending later ends _ ih =>
    rw [List.getLast?_append]
    rcases last : later.getLast? with _ | stage
    · cases ends <;> exact nofun
    · rw [last] at ih
      exact ih

end Rounds

namespace Runner

/-- The stages that a schedule of actions leads to, in order. -/
def stagesAll (runner : Runner) (ctx : Context) : List HostAction → List Stage
  | [] => []
  | action :: rest =>
    let (_, next, ctx') := runner.perform ctx action
    runner.stages ctx action ++ next.stagesAll ctx' rest

/-- Rounds that have ended, and one that has begun if the tree is running. -/
def Amid (runner : Runner) (word : List Stage) : Prop :=
  ∃ ended, Rounds ended ∧ word = ended ++ if runner.actor.status = .running then [.beforeRun] else []

variable {runner : Runner} {ctx : Context} {cache : ExprCache} {word : List Stage}

namespace Amid

theorem prefix_rounds (amid : runner.Amid word) : ∃ whole, Rounds whole ∧ word <+: whole := by
  obtain ⟨ended, rounds, rfl⟩ := amid
  split
  · exact ⟨_, rounds.concat .interrupted, [.interrupted], by simp⟩
  · exact ⟨ended, rounds, by simp⟩

/-- A tree is running just when its last stage was the beginning of a run. -/
theorem running_iff (amid : runner.Amid word) :
    runner.actor.status = .running ↔ word.getLast? = some .beforeRun := by
  obtain ⟨ended, rounds, rfl⟩ := amid
  split
  · rename_i running
    exact ⟨fun _ => List.getLast?_concat, fun _ => running⟩
  · rename_i still
    rw [List.append_nil]
    exact ⟨fun running => absurd running still, fun last => absurd last rounds.getLast?_ne⟩

/-- What has begun is ended. -/
theorem ended {next : Runner} {ending : List Stage} (amid : runner.Amid word)
    (running : runner.actor.status = .running) (ends : Ending ending) (done : next.actor.status ≠ .running) :
    next.Amid (word ++ ending) := by
  obtain ⟨ended, rounds, rfl⟩ := amid
  refine ⟨_, rounds.concat ends, ?_⟩
  rw [if_pos running, if_neg done]
  simp

theorem same {next : Runner} (amid : runner.Amid word) (same : next.actor.status = runner.actor.status) :
    next.Amid (word ++ []) := by
  rwa [Amid, same, List.append_nil]

end Amid

/-- A runner is running just when there is something on its stack. -/
theorem Ready.running_iff (ready : runner.Ready cache) :
    runner.actor.status = .running ↔ runner.actor.stack.isEmpty = false := by
  obtain ⟨walker, valid, rfl⟩ := ready.laid
  rw [Descent.Walker.running_iff_stack valid, List.isEmpty_eq_false_iff]

theorem Ready.isRunning_iff (ready : runner.Ready cache) :
    runner.actor.isRunning = true ↔ runner.actor.status = .running := by
  rw [Actor.isRunning, Bool.and_eq_true, Bool.not_eq_true', ← ready.running_iff, beq_iff_eq, and_self]

theorem amid_interrupt (ready : runner.Ready cache) (amid : runner.Amid word) (ctx : Context) :
    (runner.interrupt ctx).1.Amid (word ++ if runner.actor.isRunning then [.interrupted] else []) := by
  rw [interrupt]
  split
  · rename_i running
    exact amid.ended (ready.isRunning_iff.mp running) .interrupted (by rintro ⟨⟩)
  · exact amid.same rfl

/-- A running tree that is cleared is told to be interrupted. -/
theorem amid_clear (ready : runner.Ready cache) (amid : runner.Amid word) (ctx : Context) :
    (runner.clear ctx).1.Amid (word ++ if runner.actor.isRunning then [.interrupted] else []) := by
  by_cases running : runner.actor.isRunning
  · rw [if_pos running]
    exact amid.ended (ready.isRunning_iff.mp running) .interrupted (by rintro ⟨⟩)
  · rw [if_neg running]
    obtain ⟨ended, rounds, rfl⟩ := amid
    have still : runner.actor.status ≠ .running := fun status => running (ready.isRunning_iff.mpr status)
    exact ⟨ended, rounds, by rw [if_neg still, if_neg (by rintro ⟨⟩), List.append_nil]⟩

/-- A run begins a round if none is open, and ends it unless the tree goes on running. -/
theorem amid_run (ready : runner.Ready cache) (amid : runner.Amid word) (ctx : Context) :
    (runner.run ctx).2.1.Amid (word ++ runner.runStages ctx) := by
  rw [run_eq, runStages]
  split
  · rename_i cancelled
    exact amid.ended (ready.isRunning_iff.mp (Bool.and_eq_true_iff.mp cancelled).2) .interrupted (by rintro ⟨⟩)
  · -- In either case a round is open by the time the nodes are ticked.
    obtain ⟨ended, rounds, rfl⟩ := amid
    have opened : (ended ++ if runner.actor.status = .running then [Stage.beforeRun] else []) ++
        (if runner.actor.stack.isEmpty then [.beforeRun] else []) = ended ++ [.beforeRun] := by
      rcases empty : runner.actor.stack.isEmpty with _ | _
      · rw [if_pos (ready.running_iff.mpr empty), if_neg Bool.false_ne_true, List.append_nil]
      · rw [if_neg fun running => ?_, List.append_nil, if_pos rfl]
        rw [ready.running_iff, empty] at running
        cases running
    rw [← List.append_assoc, opened]
    generalize runner.tickNodes (ctx.dropRequest runner.actor.caller) = ticked
    obtain ⟨fault | (verdict | frames), scene⟩ := ticked
    · have ends : Ending (closing (.error fault)) := by
        rw [closing]
        split
        · exact .asserted
        · exact .failed
      exact ⟨_, rounds.concat ends, by simp [conclude, complete, setStatus, Verdict.treeStatus]⟩
    · refine ⟨_, rounds.concat (ending_closing verdict), ?_⟩
      cases verdict <;> simp [conclude, complete, setStatus, Verdict.treeStatus, closing]
    · exact ⟨ended, rounds, by simp [conclude, closing]⟩

theorem amid_perform (ready : runner.Ready cache) (amid : runner.Amid word) (ctx : Context) (action : HostAction) :
    (runner.perform ctx action).2.1.Amid (word ++ runner.stages ctx action) := by
  cases action with
  | run => exact amid_run ready amid ctx
  | interrupt => exact amid_interrupt ready amid ctx
  | clear => exact amid_clear ready amid ctx
  | context | vars | setDebug | follow => exact amid.same rfl

/-- Every sequence of actions takes up the rounds where they were. -/
theorem amid_performAll (ready : runner.Ready cache) (amid : runner.Amid word) (ctx : Context)
    (actions : List HostAction) :
    (runner.performAll ctx actions).1.Ready cache ∧
      (runner.performAll ctx actions).1.Amid (word ++ runner.stagesAll ctx actions) := by
  induction actions generalizing runner ctx word with
  | nil => exact ⟨ready, amid.same rfl⟩
  | cons action rest ih =>
    rw [stagesAll, ← List.append_assoc]
    exact ih (ready.perform ctx action) (amid_perform ready amid ctx action) _

/-! ### Answers -/

/-- How the answer of a run goes with the stages that were told. -/
structure Answers (runner : Runner) (ctx : Context) : Prop where
  succeeded : (runner.run ctx).1 = .success ↔ .afterRunSuccess ∈ runner.runStages ctx
  failed : (runner.run ctx).1 = .failure ↔ .afterRunFailure ∈ runner.runStages ctx
  interrupted : (runner.run ctx).1 = .interrupted ↔ .interrupted ∈ runner.runStages ctx
  /-- The nodes are ticked, and an assertion among them fails. -/
  asserted : .assertFailed ∈ runner.runStages ctx ↔
    runner.isCancelled ctx = false ∧ ∃ error, runner.raised? ctx = some error ∧ error.isAssertion

/-- A stage other than the first is one of those after the ticks. -/
theorem mem_runStages (going : runner.isCancelled ctx = false) {stage : Stage} (later : stage ≠ .beforeRun) :
    stage ∈ runner.runStages ctx ↔
      stage ∈ closing (runner.tickNodes (ctx.dropRequest runner.actor.caller)).1 := by
  rw [runStages, going, if_neg Bool.false_ne_true, List.mem_append]
  refine or_iff_right fun first => ?_
  split at first
  · exact later (List.mem_singleton.mp first)
  · cases first

/-- What a run answers goes by the stages that it went through. -/
theorem answers (runner : Runner) (ctx : Context) : runner.Answers ctx := by
  have answer := congrArg Prod.fst (run_eq runner ctx)
  rcases cancelled : runner.isCancelled ctx with _ | _
  · have closes {stage : Stage} (later : stage ≠ .beforeRun) := mem_runStages cancelled later
    have raised : runner.raised? ctx = _ := raised?.eq_1 runner ctx
    rw [cancelled, if_neg Bool.false_ne_true] at answer
    generalize runner.tickNodes (ctx.dropRequest runner.actor.caller) = ticked at answer closes raised
    obtain ⟨result, scene⟩ := ticked
    constructor
    case asserted =>
      rw [closes (by decide), cancelled, raised]
      rcases result with fault | (verdict | frames)
      · cases fails : fault.error.isAssertion <;> simp [closing, Verdict.closing, fails]
      · cases verdict <;> simp [closing, Verdict.closing]
      · simp [closing]
    all_goals
      rw [closes (by decide), answer]
      rcases result with fault | (verdict | frames)
      · cases fails : fault.error.isAssertion <;>
          simp [conclude, complete, closing, Verdict.closing, Verdict.treeStatus, fails]
      · cases verdict <;> simp [conclude, complete, closing, Verdict.closing, Verdict.treeStatus]
      · simp [conclude, closing]
  · rw [cancelled, if_pos rfl] at answer
    have only : runner.runStages ctx = [.interrupted] := by rw [runStages, cancelled, if_pos rfl]
    constructor <;> simp [answer, only, cancelled]

/-- A call to a runner that its followers are told about. -/
structure Followed (runner : Runner) (ctx : Context) (action : HostAction) : Prop where
  told : (∀ change, action ≠ .context change) →
    (runner.perform ctx action).2.2.told = ctx.told ++ runner.tells (runner.stages ctx action)
  answers : runner.Answers ctx

/-- Whatever a host does with a runner of a loaded tree, its followers are told about rounds, and the tree
is running just while a round is open. -/
theorem stages_in_rounds (source : Source) (cache : ExprCache) (name : String) (strict : Bool) (tree : Tree)
    (loaded : (source.load Registry.builtin cache name strict).1 = .ok tree) (caller : Nat) (target : Target)
    (debug : Bool) (ctx : Context) (actions : List HostAction) :
    let start := Runner.new tree (.newWith caller target debug)
    let runner := (start.performAll ctx actions).1
    let word := start.stagesAll ctx actions
    (∃ whole, Rounds whole ∧ word <+: whole) ∧
      (runner.actor.status = .running ↔ word.getLast? = some .beforeRun) ∧
        ∀ ctx action, runner.Followed ctx action := by
  intro start runner word
  obtain ⟨admitted, nodup⟩ := source.admitted_load cache name strict loaded
  have fresh : start.Ready _ := ⟨⟨admitted, nodup⟩, _, Descent.Walker.valid_new tree caller target debug, rfl⟩
  have idle : start.Amid [] := ⟨[], .none, rfl⟩
  obtain ⟨ready, amid⟩ := amid_performAll fresh idle ctx actions
  rw [List.nil_append] at amid
  exact ⟨amid.prefix_rounds, amid.running_iff, fun ctx action =>
    ⟨fun own => ready.told_perform ctx own, runner.answers ctx⟩⟩

/-- A patrol is interrupted from within and begun again. -/
theorem stages_in_rounds_patrol :
    (patrolSource.load Registry.builtin [] "patrol" true).1 = .ok patrol ∧
      let start := Runner.new patrol (.newWith 1 .everyone false)
      let actions : List HostAction := [.follow .beforeRun ⟨"again", [.interrupt "guard"]⟩, .run, .run, .run]
      let ctx : Context := { Context.new Registry.builtin with directory := [("guard", (1, .everyone))] }
      let runner := (start.performAll ctx actions).1
      let word := start.stagesAll ctx actions
      (∃ whole, Rounds whole ∧ word <+: whole) ∧
        (runner.actor.status = .running ↔ word.getLast? = some .beforeRun) ∧
          ∀ ctx action, runner.Followed ctx action :=
  have loaded := congrArg Prod.fst load_patrol
  ⟨loaded, stages_in_rounds patrolSource [] "patrol" true patrol loaded 1 .everyone false _ _⟩

end Runner
end BehaviorTree
