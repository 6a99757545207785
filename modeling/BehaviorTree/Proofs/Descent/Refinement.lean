import BehaviorTree.Proofs.Descent.Simulation
import BehaviorTree.Proofs.Descent.Walker
import BehaviorTree.Proofs.Tree.Loaded

/-!
A runner is a walker whose saved state is laid out as a stack. Each action of a host takes the
layout of a walker to the layout of what the walker becomes, and keeps the saved state sound.
-/

namespace BehaviorTree

/-- What loading promises of a tree: nodes that have the shape of their kinds, with an id each. -/
structure Tree.Built (tree : Tree) : Prop where
  shaped : tree.root.Every Node.Shaped
  nodup : tree.root.ids.Nodup

theorem Source.built_load {source : Source} {cache : ExprCache} {name : String} {strict : Bool}
    {tree : Tree} (loaded : (source.load Registry.builtin cache name strict).1 = .ok tree) :
    tree.Built := by
  obtain ⟨admitted, nodup⟩ := source.admitted_load cache name strict loaded
  exact ⟨admitted.mono fun _ => Node.Admitted.toShaped, nodup⟩

namespace Descent

/-- The stack of a sound state is as long as its active nodes are deep. -/
theorem length_frames {completed : List Nat} : ∀ {node : Node} {state : Active},
    Sound completed node state → (frames node state).length = state.depth
  | _, .resting _, _ => rfl
  | _, .over _ _ _, ⟨_, _, _, here, sound⟩ => by
    simp only [frames, here, List.length_cons, length_frames sound, Active.depth]
  | _, .beside _, _ => rfl

namespace Walker

/-- The saved state as a stack. -/
def stack (walker : Walker) : List Frame :=
  match walker.active with
  | none => []
  | some state => frames walker.runner.tree.root state

/-- The walker as a runner. -/
def layout (walker : Walker) : Runner :=
  { walker.runner with actor := { walker.runner.actor with stack := walker.stack } }

/-- A walker that runs exactly when something is active, which is in a sound state. -/
structure Valid (walker : Walker) : Prop where
  sound : ∀ state ∈ walker.active,
    Sound walker.runner.actor.completed walker.runner.tree.root state
  running : walker.runner.actor.status = .running ↔ walker.active.isSome = true

variable {walker : Walker}

@[simp] theorem layout_stack (walker : Walker) : walker.layout.actor.stack = walker.stack := rfl

@[simp] theorem layout_status (walker : Walker) :
    walker.layout.actor.status = walker.runner.actor.status := rfl

@[simp] theorem layout_caller (walker : Walker) :
    walker.layout.actor.caller = walker.runner.actor.caller := rfl

@[simp] theorem layout_tree (walker : Walker) : walker.layout.tree = walker.runner.tree := rfl

theorem isEmpty_stack (walker : Walker) : walker.stack.isEmpty = walker.active.isNone := by
  rcases active : walker.active with _ | state
  · rw [stack, active]
    rfl
  · simp [stack, active, frames_ne_nil]

theorem isRunning_layout (walker : Walker) : walker.layout.actor.isRunning = walker.isRunning := by
  rw [Actor.isRunning, isRunning, layout_stack,
    isEmpty_stack, Option.not_isNone]
  rfl

theorem length_stack (valid : walker.Valid) : walker.stack.length = walker.depth := by
  rcases active : walker.active with _ | state
  · simp [stack, depth, active]
  · simp [stack, depth, active, length_frames (valid.sound state active)]

/-! ### Abandoning -/

theorem layout_abort (valid : walker.Valid) (ctx : Context) :
    walker.layout.abort ctx = ((walker.abort ctx).1.layout, (walker.abort ctx).2) := by
  rw [Runner.abort, layout_stack, length_stack valid]
  rfl

theorem layout_interrupt (valid : walker.Valid) (ctx : Context) :
    walker.layout.interrupt ctx = ((walker.interrupt ctx).1.layout, (walker.interrupt ctx).2) := by
  rw [Runner.interrupt, interrupt, isRunning_layout]
  split
  · exact layout_abort valid _
  · rfl

/-- Clearing the laid out walker is laying out the cleared one. -/
theorem layout_clear (valid : walker.Valid) (ctx : Context) :
    walker.layout.clear ctx = ((walker.clear ctx).1.layout, (walker.clear ctx).2) := by
  have interrupted := layout_interrupt valid ctx
  rw [Runner.clear, clear]
  by_cases running : walker.runner.actor.status = .running
  · rw [if_pos running, if_pos (by exact running), interrupted]
    rfl
  · rw [if_neg running, if_neg (by exact running)]
    rfl

/-! ### Runs -/

/-- Ticking the stack gives what ticking by descent gives. -/
theorem layout_tickNodes (built : walker.runner.tree.Built) (valid : walker.Valid) (ctx : Context) :
    walker.layout.tickNodes ctx =
      ((walker.tickRoot ctx).1.map (Report.outcome walker.runner.tree.root),
        (walker.tickRoot ctx).2) := by
  obtain ⟨fresh, resumes⟩ := simulated walker.runner.tree.root built.shaped built.nodup
  have played (x : TickM Report) (s : Scene) :
      (Report.outcome walker.runner.tree.root <$> x).run.run s =
        ((x.run.run s).1.map (Report.outcome walker.runner.tree.root), (x.run.run s).2) :=
    TickM.play_map _ x s
  rcases active : walker.active with _ | state
  · have stackless : walker.layout.actor.stack = [] := by
      rw [layout_stack, stack, active]
    rw [Runner.tickNodes, stackless, List.isEmpty_nil, if_pos rfl, tickRoot, active, ← played, ← fresh []]
    rfl
  · have stacked : walker.layout.actor.stack = frames walker.runner.tree.root state := by
      rw [layout_stack, stack, active]
    have busy : (frames walker.runner.tree.root state).isEmpty = false := by
      simp [frames_ne_nil]
    rw [Runner.tickNodes, stacked, busy, if_neg Bool.false_ne_true, tickRoot, active, ← played]
    exact resumes state [] _ (valid.sound state active)

theorem layout_complete (runner : Runner) (ctx : Context) (verdict : Verdict) :
    Runner.complete { runner with actor := { runner.actor with stack := [] } } ctx verdict =
      ((complete runner ctx verdict).1, (complete runner ctx verdict).2.1.layout,
        (complete runner ctx verdict).2.2) := by
  cases verdict <;> rfl

/-- A run that ends leaves the layout of what remains. -/
theorem layout_conclude (walker : Walker) (result : Except Fault Report) (scene : Scene) :
    walker.layout.conclude (result.map (Report.outcome walker.runner.tree.root)) scene =
      ((walker.conclude result scene).1, (walker.conclude result scene).2.1.layout,
        (walker.conclude result scene).2.2) := by
  rcases result with fault | (verdict | state)
  · exact layout_complete { walker.runner with actor := scene.actor.clearTemporaries } _ .failure
  · exact layout_complete { walker.runner with actor := scene.actor } _ verdict
  · rfl

/-- A run of the stack machine is a run by descent, laid out. -/
theorem layout_run (built : walker.runner.tree.Built) (valid : walker.Valid) (ctx : Context) :
    walker.layout.run ctx =
      ((walker.run ctx).1, (walker.run ctx).2.1.layout, (walker.run ctx).2.2) := by
  have ticked := layout_tickNodes built valid (ctx.dropRequest walker.runner.actor.caller)
  rw [Runner.run, run, isRunning_layout, layout_caller]
  simp only
  split
  · rw [layout_abort valid]
  · rw [ticked, layout_conclude]

/-! ### Validity -/

theorem valid_of_none (active : walker.active = none) (status : walker.runner.actor.status ≠ .running) :
    walker.Valid where
  sound state member := by
    rw [active] at member
    cases member
  running := by
    rw [active]
    exact ⟨fun running => absurd running status, nofun⟩

theorem valid_complete (runner : Runner) (ctx : Context) (verdict : Verdict) :
    (complete runner ctx verdict).2.1.Valid := by
  cases verdict <;> exact valid_of_none rfl nofun

theorem valid_abort (walker : Walker) (ctx : Context) : (walker.abort ctx).1.Valid :=
  valid_of_none rfl nofun

theorem valid_interrupt (valid : walker.Valid) (ctx : Context) : (walker.interrupt ctx).1.Valid := by
  rw [interrupt]
  split
  · exact valid_abort walker _
  · exact valid

theorem valid_clear (walker : Walker) (ctx : Context) : (walker.clear ctx).1.Valid := by
  rw [clear]
  exact valid_of_none rfl nofun

/-- A run leaves a sound state, or none. -/
theorem valid_run (built : walker.runner.tree.Built) (valid : walker.Valid) (ctx : Context) :
    (walker.run ctx).2.1.Valid := by
  rw [run]
  simp only
  split
  · exact valid_abort walker _
  · generalize ctx.dropRequest walker.runner.actor.caller = ctx
    rcases ticked : walker.tickRoot ctx with ⟨fault | (verdict | state), scene⟩
    · exact valid_complete _ _ _
    · exact valid_complete _ _ _
    · have keeps (ctx : Context) :=
        keepsSound walker.runner.tree.root (built.shaped.mono fun _ => Node.Shaped.builtin)
          built.nodup walker.active [] ⟨ctx, { walker.runner.actor with stack := [] }⟩ valid.sound
      refine ⟨fun other same => ?_, fun _ => rfl, fun _ => rfl⟩
      rw [← Option.mem_some.mp same]
      exact (keeps _ _ _ ticked).1

theorem tree_run (walker : Walker) (ctx : Context) :
    (walker.run ctx).2.1.runner.tree = walker.runner.tree := by
  rw [run]
  simp only
  split
  · rfl
  · rcases walker.tickRoot _ with ⟨fault | (verdict | state), scene⟩
    · rfl
    · cases verdict <;> rfl
    · rfl

theorem tree_interrupt (walker : Walker) (ctx : Context) :
    (walker.interrupt ctx).1.runner.tree = walker.runner.tree := by
  rw [interrupt]
  split <;> rfl

theorem tree_perform (walker : Walker) (ctx : Context) (action : HostAction) :
    (walker.perform ctx action).2.1.runner.tree = walker.runner.tree := by
  cases action with
  | run => exact tree_run walker ctx
  | interrupt => exact tree_interrupt walker ctx
  | clear =>
    simp only [perform, clear]
    split
    · exact tree_interrupt walker ctx
    · rfl
  | _ => rfl

/-- What an action makes of a valid walker is valid. -/
theorem valid_perform (built : walker.runner.tree.Built) (valid : walker.Valid) (ctx : Context)
    (action : HostAction) : (walker.perform ctx action).2.1.Valid := by
  cases action with
  | run => exact valid_run built valid ctx
  | interrupt => exact valid_interrupt valid ctx
  | clear => exact valid_clear walker ctx
  | context | vars | setDebug | follow => exact ⟨valid.sound, valid.running⟩

/-- An action takes the layout of a walker to the layout of what the walker becomes. -/
theorem layout_perform (built : walker.runner.tree.Built) (valid : walker.Valid) (ctx : Context)
    (action : HostAction) :
    walker.layout.perform ctx action =
      ((walker.perform ctx action).1, (walker.perform ctx action).2.1.layout,
        (walker.perform ctx action).2.2) := by
  cases action with
  | run =>
    simp only [Runner.perform, perform, layout_run built valid]
  | interrupt => simp only [Runner.perform, perform, layout_interrupt valid]
  | clear => simp only [Runner.perform, perform, layout_clear valid]
  | context | vars | setDebug | follow => rfl

/-- A runner and a walker that are in the same state show a host the same ever after. -/
theorem trace_layout (built : walker.runner.tree.Built) (valid : walker.Valid) (ctx : Context)
    (actions : List HostAction) : walker.layout.trace ctx actions = walker.trace ctx actions := by
  induction actions generalizing walker ctx with
  | nil => rfl
  | cons action rest ih =>
    have next := ih (by rw [tree_perform]; exact built) (valid_perform built valid ctx action)
      (walker.perform ctx action).2.2
    rw [Runner.trace, trace, layout_perform built valid]
    simp only [next]
    rfl

/-- After a schedule of actions a runner still is the layout of a walker. -/
theorem performAll_layout (built : walker.runner.tree.Built) (valid : walker.Valid) (ctx : Context)
    (actions : List HostAction) :
    ∃ after : Walker, after.Valid ∧ after.runner.tree = walker.runner.tree ∧
      (walker.layout.performAll ctx actions).1 = after.layout := by
  induction actions generalizing walker ctx with
  | nil => exact ⟨walker, valid, rfl, rfl⟩
  | cons action rest ih =>
    have sameTree := tree_perform walker ctx action
    obtain ⟨after, validAfter, treeAfter, reached⟩ := ih (by rw [sameTree]; exact built)
      (valid_perform built valid ctx action) (walker.perform ctx action).2.2
    refine ⟨after, validAfter, treeAfter.trans sameTree, ?_⟩
    rw [Runner.performAll, layout_perform built valid]
    exact reached

theorem valid_new (tree : Tree) (caller : Nat) (target : Target) (debug : Bool) :
    (Walker.new tree (Actor.newWith caller target debug)).Valid := valid_of_none rfl nofun

end Walker

/-- Whatever the schedule, running a loaded tree on the stack shows a host the same as running it by
descent from the root. -/
theorem trace_eq_descent (source : Source) (cache : ExprCache) (name : String) (strict : Bool)
    (tree : Tree) (loaded : (source.load Registry.builtin cache name strict).1 = .ok tree)
    (caller : Nat) (target : Target) (debug : Bool) (ctx : Context) (actions : List HostAction) :
    (Runner.new tree (Actor.newWith caller target debug)).trace ctx actions =
      (Walker.new tree (Actor.newWith caller target debug)).trace ctx actions :=
  Walker.trace_layout (Source.built_load loaded) (Walker.valid_new tree caller target debug) ctx actions

theorem trace_eq_descent_patrol :
    (patrolSource.load Registry.builtin [] "patrol" true).1 = .ok patrol ∧
      (Runner.new patrol (Actor.newWith 1 .everyone true)).trace (.new Registry.builtin)
          [.run, .context (·.advance 1.0), .run, .interrupt, .run, .clear] =
        (Walker.new patrol (Actor.newWith 1 .everyone true)).trace (.new Registry.builtin)
          [.run, .context (·.advance 1.0), .run, .interrupt, .run, .clear] :=
  have loaded := congrArg Prod.fst load_patrol
  ⟨loaded, trace_eq_descent patrolSource [] "patrol" true patrol loaded 1 .everyone true _ _⟩

end Descent
end BehaviorTree
