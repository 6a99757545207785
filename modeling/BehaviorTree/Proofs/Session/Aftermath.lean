import BehaviorTree.Proofs.Session.Heeding
import BehaviorTree.Proofs.Session.Listeners
import BehaviorTree.Proofs.Event.Mirror

/-!
What is left after an error. Wherever in the tree it is raised, and whatever else is suspended at that time,
the run fails and nothing goes on: no frame, no temporary variable and no listening of the actor outlives it.
All else stays as it was when the error was raised, and the next run begins at the root.
-/

namespace BehaviorTree

open Relation (ReflTransGen)
open Context (Aside Untouched)
open Descent (Call Effect Effects)

/-! ### Others -/

/-- From one context to another nobody has touched what belongs to a caller, unless a host has ordered so
through its followers. -/
def Context.TouchedByFollowers (followers : List (Stage × Reaction)) (caller : Nat) : Context → Context → Prop :=
  ReflTransGen fun older newer =>
    Untouched caller older newer ∨ ∃ follower ∈ followers, newer = older.obey follower.2.orders

/-- Followers that give no orders touch nothing. -/
theorem Context.TouchedByFollowers.untouched {followers : List (Stage × Reaction)} {caller : Nat}
    {older newer : Context} (touched : TouchedByFollowers followers caller older newer)
    (mute : ∀ follower ∈ followers, follower.2.orders = []) : Untouched caller older newer := by
  induction touched with
  | refl => exact .refl older
  | tail _ last ih =>
    rcases last with untouched | ⟨follower, member, rfl⟩
    · exact ih.trans untouched
    · rw [mute follower member]
      exact ih

/-! ### Runners with nothing on the stack -/

/-- Whether an action is a run. -/
def HostAction.isRun : HostAction → Bool
  | run => true
  | _ => false

namespace Runner

variable {runner : Runner} {ctx : Context}

theorem isRunning_of_stack (empty : runner.actor.stack = []) : runner.actor.isRunning = false := by
  rw [Actor.isRunning, empty, List.isEmpty_nil, Bool.not_true, Bool.and_false]

/-- A run of such a runner enters the root. -/
theorem run_of_stack (empty : runner.actor.stack = []) (ctx : Context) :
    runner.run ctx =
      let ticked := TickM.play (runner.tree.root.tick [])
        ⟨runner.announce .beforeRun 0 (ctx.dropRequest runner.actor.caller), runner.actor⟩
      runner.conclude ticked.1 ticked.2 := by
  have going : runner.isCancelled ctx = false := by rw [isCancelled, isRunning_of_stack empty, Bool.and_false]
  have same : { runner.actor with stack := [] } = runner.actor := by rw [← empty]
  rw [run_eq, if_neg (by simp [going]), tickNodes, empty, List.isEmpty_nil, if_pos rfl, same]
  rfl

/-- Nothing but a run puts frames on the stack. -/
theorem stack_perform (empty : runner.actor.stack = []) (ctx : Context) {action : HostAction}
    (other : action.isRun = false) : (runner.perform ctx action).2.1.actor.stack = [] := by
  cases action with
  | run => cases other
  | interrupt =>
    change (runner.interrupt ctx).1.actor.stack = []
    rw [Runner.interrupt, isRunning_of_stack empty, if_neg Bool.false_ne_true]
    exact empty
  | clear => rfl
  | _ => exact empty

theorem tree_interrupt (runner : Runner) (ctx : Context) : (runner.interrupt ctx).1.tree = runner.tree := by
  rw [Runner.interrupt]
  split <;> rfl

theorem tree_clear (runner : Runner) (ctx : Context) : (runner.clear ctx).1.tree = runner.tree := by
  by_cases running : runner.actor.status = .running
  · simp only [Runner.clear, if_pos running]
    exact runner.tree_interrupt ctx
  · simp only [Runner.clear, if_neg running]
    rfl

theorem tree_conclude (runner : Runner) (result : Except Fault Outcome) (scene : Scene) :
    (runner.conclude result scene).2.1.tree = runner.tree := by
  rcases result with fault | (verdict | frames) <;> rfl

theorem tree_perform (runner : Runner) (ctx : Context) (action : HostAction) :
    (runner.perform ctx action).2.1.tree = runner.tree := by
  cases action with
  | run =>
    change (runner.run ctx).2.1.tree = runner.tree
    rw [run_eq]
    split
    · rfl
    · exact tree_conclude _ _ _
  | interrupt => exact runner.tree_interrupt ctx
  | clear => exact runner.tree_clear ctx
  | _ => rfl

/-- Until the next run an empty stack stays empty. -/
theorem stack_performAll (empty : runner.actor.stack = []) (ctx : Context) {actions : List HostAction}
    (others : ∀ action ∈ actions, action.isRun = false) :
    (runner.performAll ctx actions).1.actor.stack = [] ∧ (runner.performAll ctx actions).1.tree = runner.tree := by
  induction actions generalizing runner ctx with
  | nil => exact ⟨empty, rfl⟩
  | cons action rest ih =>
    obtain ⟨other, later⟩ := List.forall_mem_cons.mp others
    obtain ⟨stackless, same⟩ := ih (stack_perform empty ctx other) (runner.perform ctx action).2.2 later
    exact ⟨stackless, same.trans (runner.tree_perform ctx action)⟩

/-! ### Runs that are cut short -/

/-- What a run leaves behind that was cut short by an error, given the scene in which that was raised. -/
structure Aftermath (runner : Runner) (ctx : Context) (raised : Scene) : Prop where
  failed : (runner.run ctx).1 = .failure
  stack : (runner.run ctx).2.1.actor.stack = []
  /-- Only temporary variables are discarded. -/
  vars : ∀ name, (runner.run ctx).2.1.actor.get? name = if isTemporary name then none else raised.actor.get? name
  /-- What Once nodes have completed counts from then on, be it in this run or before. -/
  memos : (runner.run ctx).2.1.actor.completed = raised.actor.completed
  earlier : runner.actor.completed ⊆ (runner.run ctx).2.1.actor.completed
  /-- Nobody listens for the actor any more, and no event waits for it. -/
  deaf : (runner.run ctx).2.2.bus.ears runner.actor.caller = []
  emptied : (runner.run ctx).2.2.boxes runner.actor.caller = []
  others : ∀ other, other ≠ runner.actor.caller →
    Context.TouchedByFollowers runner.followers other ctx (runner.run ctx).2.2
  /-- Whatever a host does before it runs the tree again, that run enters the root and is not interrupted. -/
  afresh : ∀ later actions, (∀ action ∈ actions, HostAction.isRun action = false) →
    let next := (runner.run ctx).2.1.performAll later actions
    let ticked := TickM.play (runner.tree.root.tick [])
      ⟨next.1.announce .beforeRun 0 (next.2.dropRequest next.1.actor.caller), next.1.actor⟩
    next.1.run next.2 = next.1.conclude ticked.1 ticked.2

/-- What the stages of a run do to others is what the followers have ordered. -/
theorem steady_touched {other : Nat} (apart : other ≠ runner.actor.caller) (before : Context) :
    Steady runner.actor.caller runner.followers fun ctx =>
      ctx.Wired ∧ Context.TouchedByFollowers runner.followers other before ctx where
  note _ _ kept := ⟨kept.1.congr rfl rfl, kept.2.tail (.inl ⟨rfl, fun _ _ => rfl⟩)⟩
  obey follower member kept := ⟨(Context.stirs_obey _ _).wired kept.1, kept.2.tail (.inr ⟨follower, member, rfl⟩)⟩
  dropRequest kept := ⟨kept.1.congr rfl rfl, kept.2.tail (.inl ⟨rfl, fun _ _ => rfl⟩)⟩
  unwind kept := by
    have closed : Aside other _ _ := .unsubscribeAll kept.1 apart.symm
    exact ⟨(Context.passage_unsubscribeAll kept.1 _).wired, kept.2.tail (.inl closed.untouched)⟩

/-- A caller without mailboxes has no listener that fills one. -/
theorem ears_eq_nil (wired : ctx.Wired) (indexed : ctx.bus.Indexed) {caller : Nat} (none : ctx.boxes caller = []) :
    ctx.bus.ears caller = [] := by
  refine List.eq_nil_iff_forall_not_mem.mpr fun l ear => ?_
  obtain ⟨⟨event, target, present⟩, own, fills⟩ := indexed.mem_ears.mp ear
  obtain ⟨box, there, rfl, -, -⟩ := wired.boxed event target l present fills
  have member : box ∈ ctx.boxes caller := Context.mem_boxes.mpr ⟨there, own⟩
  rw [none] at member
  cases member

variable {cache : ExprCache} {log : List Call}

/-- A run touches the listeners of others only through its followers. -/
theorem Ready.touched_run (ready : runner.Ready cache) (wired : ctx.Wired) (held : runner.Held log ctx) {other : Nat}
    (apart : other ≠ runner.actor.caller) :
    Context.TouchedByFollowers runner.followers other ctx (runner.run ctx).2.2 := by
  have wired' : (ctx.dropRequest runner.actor.caller).Wired := wired.congr rfl rfl
  have held' : runner.Held log (ctx.dropRequest runner.actor.caller) := held.mono (List.Subset.refl _) rfl
  obtain ⟨H, log, keeps⟩ := ready.scene_ticks wired' held'
  refine ((steady_touched apart ctx).run ⟨wired, .refl⟩ keeps.acting fun kept => ⟨keeps.wired, ?_⟩).2
  exact kept.2.tail (.inl (keeps.others other apart))

theorem Ready.completed_tickNodes (ready : runner.Ready cache) (ctx : Context) :
    runner.actor.completed ⊆ (runner.tickNodes ctx).2.actor.completed := by
  have builtin := ready.shaped.mono fun _ shaped => shaped.builtin
  have effects := Descent.changes_tick runner.tree.root builtin (restore runner.actor.stack) [] (runner.opening ctx)
  rw [ready.tickNodes_eq]
  exact effects.completed_mono

/-- What a run comes to that is cut short. -/
theorem run_of_fault {fault : Fault} (going : runner.isCancelled ctx = false)
    (raised : (runner.tickNodes (ctx.dropRequest runner.actor.caller)).1 = .error fault) :
    runner.run ctx =
      runner.conclude (.error fault) (runner.tickNodes (ctx.dropRequest runner.actor.caller)).2 := by
  rw [run_eq, if_neg (by simp [going])]
  simp only [raised]

/-- Whatever is on the stack and wherever the error is raised, a run that is cut short leaves nothing of itself. -/
theorem Ready.aftermath (ready : runner.Ready cache) (tidy : ctx.Tidy) (wired : ctx.Wired) (held : runner.Held log ctx)
    (given : Context.Given ctx.callers runner.actor.caller runner.actor.target)
    (going : runner.isCancelled ctx = false) {fault : Fault}
    (raised : (runner.tickNodes (ctx.dropRequest runner.actor.caller)).1 = .error fault) :
    runner.Aftermath ctx (runner.tickNodes (ctx.dropRequest runner.actor.caller)).2 := by
  have ran := run_of_fault going raised
  have stackless : (runner.run ctx).2.1.actor.stack = [] := by rw [ran]; rfl
  have memos : (runner.run ctx).2.1.actor.completed =
      (runner.tickNodes (ctx.dropRequest runner.actor.caller)).2.actor.completed := by rw [ran]; rfl
  obtain ⟨tame, entry⟩ := ready.tame_run given
  have same : (runner.run ctx).2.1.actor.caller = runner.actor.caller := congrArg Prod.fst entry
  have emptied : (runner.run ctx).2.2.boxes runner.actor.caller = [] := by
    have owned := (ready.held_run wired held).owned
    rw [stackless, same] at owned
    exact List.map_eq_nil_iff.mp owned.eq_nil
  constructor
  case failed => rw [ran]; rfl
  case stack => exact stackless
  case vars =>
    intro name
    rw [ran]
    exact (Fields.get?_filter _ (fun name => !isTemporary name) name).trans (by cases isTemporary name <;> rfl)
  case memos => exact memos
  case earlier => exact memos ▸ ready.completed_tickNodes (ctx.dropRequest runner.actor.caller)
  case deaf => exact ears_eq_nil (ready.passage_run wired held).wired (tame.tidy tidy).indexed emptied
  case emptied => exact emptied
  case others => exact fun other apart => ready.touched_run wired held apart
  case afresh =>
    intro later actions others next
    obtain ⟨stackless, kept⟩ := stack_performAll stackless later others
    have tree : (runner.run ctx).2.1.tree = runner.tree := by rw [ran]; exact tree_conclude _ _ _
    rw [run_of_stack stackless, kept, tree]

end Runner

namespace Session

/-- In every session, whatever its host has done so far: when an error cuts a run short, the run fails, nothing is
left of it on the stack, among the temporary variables or on the bus, all else is as it was when the error was
raised, and the next run begins at the root. -/
theorem aftermath_of_error (source : SourceInput) (commands : List Command) (name : String) (runner : Runner)
    (fault : Fault) :
    let session := (new Registry.builtin source).after commands
    session.runners.at? name = some runner → runner.isCancelled session.context = false →
      (runner.tickNodes (session.context.dropRequest runner.actor.caller)).1 = .error fault →
        (session.exchange (.toRunner name .run)).1.1 = .status .failure ∧
          runner.Aftermath session.context
            (runner.tickNodes (session.context.dropRequest runner.actor.caller)).2 := by
  intro session there going raised
  have tidy : session.Tidy := (tidy_new Registry.builtin source).after (ready_new source) commands
  have ready := ((ready_new source).after commands).runners name runner there
  have guarded := (guarded_new Registry.builtin source (fun _ => False) fun _ => []).after
    (tidy_new Registry.builtin source) (ready_new source) commands fun _ spared => spared.elim
  have aftermath := ready.aftermath tidy.context guarded.wired (guarded.held name runner there) (tidy.given there)
    going raised
  refine ⟨?_, aftermath⟩
  rw [session.exchange_run_eq there]
  exact congrArg Answer.status aftermath.failed

end Session

/-! ### A drill -/

/-- Listens for a bell, and asserts beside it that something can be done again and again that can be done once
only. -/
def drillSource : Source :=
  [{ name := "drill"
     root :=
      { name := "Parallel"
        children :=
          [{ name := "Listen", args := [("event", .text "bell")], children := [{ name := "Clear" }] },
            { name := "Assert"
              children :=
                [{ name := "Inverter"
                   children :=
                    [{ name := "RepeatUntilFailure"
                       children := [{ name := "Once", children := [{ name := "Clear" }] }] }] }] }] } }]

namespace drill

/-- A node that listens for the bell. -/
def awake : Node :=
  { id := 2, kind := .listen, name := "Listen", desc := "", args := [("event", .text "bell")], input := []
    output := [], children := [clearLeaf 3] }

/-- Repeats a Once node until it refuses to be done again. -/
def tries : Node :=
  { id := 6, kind := .repeatUntil .failure, name := "RepeatUntilFailure", desc := "", args := [], input := []
    output := []
    children :=
      [{ id := 7, kind := .once, name := "Once", desc := "", args := [], input := [], output := []
         children := [clearLeaf 8] }] }

/-- Fails when the tries are over. -/
def fails : Node :=
  { id := 5, kind := .inverter, name := "Inverter", desc := "", args := [], input := [], output := []
    children := [tries] }

/-- Raises an error when the tries are over. -/
def asserts : Node :=
  { id := 4, kind := .assert, name := "Assert", desc := "", args := [], input := [], output := []
    children := [fails] }

end drill

def drill : Tree where
  name := "drill"
  desc := ""
  root :=
    { id := 1, kind := .parallel, name := "Parallel", desc := "", args := [], input := [], output := []
      children := [drill.awake, drill.asserts] }

theorem load_drill : drillSource.load Registry.builtin [] "drill" true = (.ok drill, []) := by
  cbv

namespace Session

/-- Has the drill loaded and run once for a guard, which listens from then on and tries again. -/
def drilling : List Command :=
  [.load "drill" "drill" true none, .spawn "guard" "drill" none false [], .toRunner "guard" .run]

/-- The drill under way, its listener open and its first try made. -/
def drilled : Runner :=
  .new drill { Actor.newWith 1 (.caller 1) false with
    completed := [7]
    stack :=
      [.mk drill.root
        (.branches
          [.active [.mk drill.awake (.listening 1 false) none],
            .active [.mk drill.asserts .entered none, .mk drill.fails .entered none,
              .mk drill.tries (.attempt 1 false) none]]) none]
    last := .running, status := .running }

theorem at?_drilling :
    ((new Registry.builtin (.trees drillSource)).after drilling).runners.at? "guard" = some drilled := by
  simp only [drilling, after, List.foldl, exchange, Session.perform, Session.load, Option.getD,
    SourceInput.read, new, Context.new, load_drill]
  rfl

/-- In the next run the assertion fails. -/
theorem raised_drilling :
    let session := (new Registry.builtin (.trees drillSource)).after drilling
    drilled.isCancelled session.context = false ∧
      (drilled.tickNodes (session.context.dropRequest 1)).1 = .error ⟨.assertion 4 "Inverter failed", 1⟩ := by
  simp only [drilling, after, List.foldl, exchange, Session.perform, Session.load, Option.getD,
    SourceInput.read, new, Context.new, load_drill]
  exact ⟨rfl, rfl⟩

/-- The second run is cut short within one branch, while the other one listens. -/
theorem aftermath_of_error_drill :
    let session := (new Registry.builtin (.trees drillSource)).after drilling
    session.runners.at? "guard" = some drilled ∧ drilled.isCancelled session.context = false ∧
      (drilled.tickNodes (session.context.dropRequest 1)).1 = .error ⟨.assertion 4 "Inverter failed", 1⟩ ∧
      (session.exchange (.toRunner "guard" .run)).1.1 = .status .failure ∧
        drilled.Aftermath session.context (drilled.tickNodes (session.context.dropRequest 1)).2 :=
  ⟨at?_drilling, raised_drilling.1, raised_drilling.2,
    aftermath_of_error (.trees drillSource) drilling "guard" drilled _ at?_drilling raised_drilling.1 raised_drilling.2⟩

end Session
end BehaviorTree
