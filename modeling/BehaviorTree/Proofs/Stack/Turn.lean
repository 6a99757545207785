import BehaviorTree.Proofs.Stack.Standing
import BehaviorTree.Proofs.Session.Journal
import BehaviorTree.Proofs.Tree.Expansion

/-!
The stacks that are resumed in a run. A run that goes on resumes the stack of the actor; if no deadline on it has
come and a Parallel node is on top, the stacks of its branches are resumed in turn, each in the scene that the
ones before it have left. When a stack is resumed, every frame on it stands where its node keeps it, and what is
recorded last is what the branch reported that was ticked before it in the same run, if there was one.
-/

namespace BehaviorTree

open Relation (ReflTransGen)
open Descent (resumed resumeAt)
open TickM

/-! ### Going on from a stack -/

/-- Goes on with the frames of a stack, one after another, once what is above them has come to an outcome. -/
def rise : List Frame → (Path → TickM Outcome) → Ticker
  | [], above, path => above path
  | .mk node progress deadline :: below, above, path => do
    match ← rise below above (path ++ [node.id]) with
    | .running frames => return .running (.mk node progress deadline :: frames)
    | .done _ => resumed node progress (path ++ [node.id])

/-- Frames whose deadlines have not come wait for what is above them. -/
theorem resumeAt_append {below top : List Frame} {s : Scene} (busy : top ≠ [])
    (early : ∀ frame ∈ below, frame.isDue s.context.clock = false) (path : Path) :
    (resumeAt (below ++ top) path).play s = (rise below (resumeAt top) path).play s := by
  induction below generalizing path with
  | nil => rfl
  | cons frame below ih =>
    obtain ⟨node, progress, deadline⟩ := frame
    have first := early _ List.mem_cons_self
    rw [Descent.isDue_eq] at first
    rw [List.cons_append, Descent.resumeAt_cons first (List.append_ne_nil_of_right_ne_nil below busy), rise]
    exact play_bind_left (ih (fun frame member => early frame (List.mem_cons_of_mem _ member)) _) _

namespace Scene

/-- The deadline of a node has come, and what is above it has been dropped. -/
def cut (scene : Scene) (node : Node) (above : List Frame) : Scene :=
  (scene.noteDebug (.deadlineExpired node.name scene.context.clock)).updateContext fun ctx =>
    (stackListeners above).foldl Context.unsubscribe ctx

@[simp] theorem clock_entered (s : Scene) (node : Node) (depth : Nat) :
    (s.entered node depth).context.clock = s.context.clock := Descent.noteDebug_clock s _

@[simp] theorem actor_entered (s : Scene) (node : Node) (depth : Nat) : (s.entered node depth).actor = s.actor :=
  Descent.noteDebug_actor s _

theorem precedes_entered (s : Scene) (node : Node) (depth : Nat) : s.Precedes (s.entered node depth) :=
  ⟨s.clock_entered node depth, Descent.wired_noteDebug _⟩

theorem play_release (listeners : List Nat) (s : Scene) :
    (release listeners).play s = (.ok (), s.updateContext fun ctx => listeners.foldl Context.unsubscribe ctx) := rfl

theorem precedes_cut (s : Scene) (node : Node) (above : List Frame) : s.Precedes (s.cut node above) := by
  have told : s.Precedes (s.noteDebug (.deadlineExpired node.name s.context.clock)) :=
    ⟨Descent.noteDebug_clock s _, Descent.wired_noteDebug _⟩
  exact told.trans (.of_effects ((Descent.changes_release (stackListeners above) :
    Descent.Changes [] (release (stackListeners above))) _))

@[simp] theorem clock_cut (s : Scene) (node : Node) (above : List Frame) :
    (s.cut node above).context.clock = s.context.clock := (s.precedes_cut node above).clock

@[simp] theorem actor_cut (s : Scene) (node : Node) (above : List Frame) : (s.cut node above).actor = s.actor :=
  Descent.noteDebug_actor s _

end Scene

/-- A frame whose deadline has come goes on at once, with all above it dropped. -/
theorem play_due {node : Node} {progress : Progress} {deadline : Option Float} {above : List Frame} {s : Scene}
    (due : (Frame.mk node progress deadline).isDue s.context.clock = true) (path : Path) :
    (resumeAt (.mk node progress deadline :: above) path).play s =
      (resumed node progress (path ++ [node.id])).play (s.cut node above) := by
  rw [Descent.isDue_eq] at due
  rw [Descent.resumeAt_due due, play_bind_ok (play_now s), play_bind_ok (play_noteDebug _ s),
    play_bind_ok (Scene.play_release _ _)]
  rfl

/-- Any other frame waits for what is above it. -/
theorem play_early {node : Node} {progress : Progress} {deadline : Option Float} {above : List Frame} {s : Scene}
    (early : (Frame.mk node progress deadline).isDue s.context.clock = false) (busy : above ≠ []) (path : Path) :
    (resumeAt (.mk node progress deadline :: above) path).play s =
      match (resumeAt above (path ++ [node.id])).play s with
      | (.ok (.running frames), t) => (.ok (.running (.mk node progress deadline :: frames)), t)
      | (.ok (.done _), t) => (resumed node progress (path ++ [node.id])).play t
      | (.error fault, t) => (.error fault, t) := by
  rw [Descent.isDue_eq] at early
  rw [Descent.resumeAt_cons early busy, play_bind]
  rcases (resumeAt above (path ++ [node.id])).play s with ⟨fault | (verdict | frames), t⟩ <;> rfl

/-! ### Verdicts of children -/

/-- What follows for the node of a frame that takes the verdict of its child, from what became of the frames
above it. -/
def Frame.passOn (frame : Frame) (depth : Nat) : Except Fault Outcome × Scene → Except Fault Outcome × Scene
  | (.ok (.running frames), t) => (.ok (.running (frame :: frames)), t)
  | (.ok (.done verdict), t) => (.ok (.done verdict), (t.entered frame.node depth).reported frame.node verdict.status)
  | (.error fault, t) => (.error fault, t)

/-- What follows for a node that asks for the verdict of its child when a status is recorded: it takes the
verdict, or is cut short if something runs. -/
def Node.takeUp (node : Node) (depth : Nat) (last : Status) (s : Scene) : Except Fault Outcome × Scene :=
  match last.verdict? with
  | some verdict => (.ok (.done verdict), (s.entered node depth).reported node verdict.status)
  | none => (.error ⟨.badResume node.name node.id, depth + 1⟩, s.entered node depth)

theorem Node.takeUp_verdict (node : Node) (depth : Nat) (verdict : Verdict) (s : Scene) :
    node.takeUp depth verdict.status s =
      (.ok (.done verdict), (s.entered node depth).reported node verdict.status) := by
  rw [takeUp, Status.verdict?_status]

namespace Visit

/-- A node that is told the verdict of its child takes what is recorded last. -/
theorem play_childVerdict_eq (visit : Visit) (s : Scene) :
    visit.childVerdict.play s =
      match s.actor.last.verdict? with
      | some verdict => (.ok verdict, s)
      | none => (.error ⟨.badResume visit.node.name visit.node.id, visit.path.length⟩, s) := by
  rw [childVerdict, play_bind_ok (play_actor s)]
  cases s.actor.last <;> rfl

/-- An execution that finishes with the verdict of the child. -/
theorem play_execute_childVerdict {visit : Visit} {s : Scene} {depth : Nat}
    (runs : visit.run.play (s.entered visit.node depth) =
      (Step.finish <$> visit.childVerdict).play (s.entered visit.node depth))
    (path : visit.path.length = depth + 1) :
    visit.execute.play s = visit.node.takeUp depth s.actor.last s := by
  rw [play_execute, path, Nat.add_sub_cancel, runs, play_map, play_childVerdict_eq, Scene.actor_entered, Node.takeUp]
  rcases s.actor.last.verdict? with _ | verdict
  · rw [path]
    rfl
  · rfl

end Visit

/-- A node that takes the verdict of its child, once that has completed. -/
theorem play_passOn {node : Node} {progress : Progress} {deadline : Option Float} {above : List Frame} {s : Scene}
    {path : Path} (early : (Frame.mk node progress deadline).isDue s.context.clock = false) (busy : above ≠ [])
    (takes : ∀ verdict t, (resumeAt above (path ++ [node.id])).play s = (.ok (.done verdict), t) →
      (resumed node progress (path ++ [node.id])).play t = node.takeUp path.length t.actor.last t) :
    (resumeAt (.mk node progress deadline :: above) path).play s =
      (Frame.mk node progress deadline).passOn path.length ((resumeAt above (path ++ [node.id])).play s) := by
  rw [play_early early busy]
  rcases played : (resumeAt above (path ++ [node.id])).play s with ⟨fault | (verdict | frames), t⟩
  · rfl
  · have last : t.actor.last = verdict.status := records_resumeAt above _ s _ t played
    simp only [takes verdict t played, last, Node.takeUp_verdict, Frame.passOn]
    rfl
  · rfl

/-! ### Turns -/

/-- A stack that is resumed in a run. -/
structure Turn where
  stack : List Frame
  /-- The scene in which it is resumed. -/
  scene : Scene
  /-- What the branch reported that was ticked before it in the same run, if there was one. -/
  since : Option Status

/-- What a branch has reported. -/
def Branch.status : Branch → Status
  | settled verdict => verdict.status
  | active _ => .running

/-- What the branches of a Parallel node reported that were ticked, given what became of them. -/
def Branch.reports : List Branch → List Branch → List Status
  | .active _ :: before, branch :: after => branch.status :: reports before after
  | .settled _ :: before, _ :: after => reports before after
  | _, _ => []

/-- What a Parallel node does for a branch that runs is to resume its stack. -/
theorem branchTasks_active {nodes : List Node} {branches : List Branch} (stand : BranchesStand branches nodes) {i : Nat}
    {stack : List Frame} (here : branches[i]? = some (.active stack)) :
    (branchTasks (nodes.map Node.tick) branches)[i]? = some (.pending (resumeAt stack)) := by
  induction nodes generalizing branches i with
  | nil =>
    rcases branches with _ | ⟨branch, branches⟩
    · cases here
    · exact stand.elim
  | cons child nodes ih =>
    rcases branches with _ | ⟨branch, branches⟩
    · exact stand.elim
    obtain ⟨first, others⟩ := stand
    rw [List.map_cons, branchTasks]
    rcases i with _ | i
    · rw [List.getElem?_cons_zero, Option.some.injEq] at here ⊢
      subst here
      rcases stack with _ | ⟨frame, above⟩
      · exact first.elim
      · rfl
    · exact ih others here

namespace Turn

/-- What comes of the turn. -/
def played (turn : Turn) : Except Fault Outcome × Scene := (resumeAt turn.stack []).play turn.scene

/-- The time at which the stack is resumed. -/
def now (turn : Turn) : Float := turn.scene.context.clock

/-- In the course of a turn the stack of a branch is resumed: that of the Parallel node on top, once the branches
before it have been ticked. -/
inductive Opens (outer : Turn) : Turn → Prop
  | branch {below stack : List Frame} {node : Node} {branches ticked : List Branch} {i : Nat} {t : Scene}
      (early : ∀ frame ∈ outer.stack, frame.isDue outer.now = false)
      (top : outer.stack = below ++ [.mk node (.branches branches) none])
      (here : branches[i]? = some (.active stack))
      (before : (Visit.runTasks (below.length + 1)
        ((branchTasks (node.children.map Node.tick) branches).take i)).play (outer.scene.entered node below.length) =
          (.ok ticked, t)) :
      Opens outer ⟨stack, t, (Branch.reports branches ticked).getLast?.or outer.since⟩

end Turn

namespace Runner

/-- The turn with which a run begins that goes on. -/
def firstTurn (runner : Runner) (ctx : Context) : Turn where
  stack := runner.actor.stack
  scene := ⟨ctx.dropRequest runner.actor.caller, { runner.actor with stack := [] }⟩
  since := none

/-- A run from here on comes to this turn. -/
structure Resumes (runner : Runner) (ctx : Context) (turn : Turn) : Prop where
  goesOn : runner.isCancelled ctx = false
  busy : runner.actor.stack ≠ []
  turns : ReflTransGen Turn.Opens (runner.firstTurn ctx) turn

/-- A run that goes on ends as its first turn does. -/
theorem run_eq_firstTurn {runner : Runner} {ctx : Context} (goesOn : runner.isCancelled ctx = false)
    (busy : runner.actor.stack ≠ []) :
    runner.run ctx = runner.conclude (runner.firstTurn ctx).played.1 (runner.firstTurn ctx).played.2 := by
  have ticked : runner.tickNodes (ctx.dropRequest runner.actor.caller) = (runner.firstTurn ctx).played := by
    rw [tickNodes, if_neg (by simpa using busy)]
    rfl
  rw [run_eq, if_neg (by simp [goesOn]), ticked]

end Runner

/-! ### What is recorded last -/

theorem branchTasks_nil_left (branches : List Branch) : branchTasks [] branches = [] := by
  cases branches <;> rfl

theorem branchTasks_nil_right (children : List Ticker) : branchTasks children [] = [] := by
  cases children <;> rfl

theorem Branch.reports_nil (branches : List Branch) : Branch.reports branches [] = [] := by
  rcases branches with _ | ⟨_ | _, _⟩ <;> rfl

/-- After some branches have been ticked, the report of the last of them is recorded. -/
theorem last_runTasks (depth : Nat) (nodes : List Node) (branches : List Branch) (i : Nat) (s : Scene) :
    Gives (Visit.runTasks depth ((branchTasks (nodes.map Node.tick) branches).take i)) s fun ticked t =>
      t.actor.last = (Branch.reports branches ticked).getLast?.getD s.actor.last := by
  induction nodes generalizing branches i s with
  | nil =>
    rw [List.map_nil, branchTasks_nil_left, List.take_nil]
    exact gives_pure (by rw [Branch.reports_nil]; rfl)
  | cons node nodes ih =>
    rcases branches with _ | ⟨branch, branches⟩
    · rw [branchTasks_nil_right, List.take_nil]
      exact gives_pure rfl
    rcases i with _ | i
    · exact gives_pure (by rw [Branch.reports_nil]; rfl)
    rw [List.map_cons, branchTasks, List.take_succ_cons]
    -- Whatever ticks an active branch records its report.
    have pending {run : Ticker} {stack : List Frame} (records : Records run) :
        Gives (Visit.runTasks depth (.pending run ::
          (branchTasks (nodes.map Node.tick) branches).take i)) s fun ticked t =>
          t.actor.last = (Branch.reports (.active stack :: branches) ticked).getLast?.getD s.actor.last := by
      refine gives_bind (gives_rethrow _ (records [] s)) fun outcome t last => ?_
      refine gives_bind (ih branches i t) fun ticked u later => gives_pure ?_
      rw [later, Branch.reports, List.getLast?_cons, Option.getD_some, last]
      cases outcome <;> rfl
    rcases branch with verdict | (_ | ⟨frame, above⟩)
    · exact gives_bind (ih branches i s) fun ticked t last => gives_pure last
    · exact pending (records_tick node)
    · exact pending (records_resumeAt (frame :: above))

/-! ### Turns stand -/

/-- The part of a stack above some frames stands on a node further down. -/
theorem Stands.above {below top : List Frame} {node : Node} (stands : Stands (below ++ top) node) (busy : top ≠ []) :
    ∃ n ∈ node.preorder, Stands top n := by
  induction below generalizing node with
  | nil => exact ⟨node, node.self_mem_preorder, stands⟩
  | cons frame below ih =>
    obtain ⟨owner, progress, deadline⟩ := frame
    obtain ⟨rfl, -, -, higher⟩ := stands
    obtain ⟨child, member, stands⟩ := higher.resolve_left (List.append_ne_nil_of_right_ne_nil below busy)
    obtain ⟨n, inside, stands⟩ := ih stands
    exact ⟨n, Node.mem_preorder_of_child member inside, stands⟩

/-- Each active branch stands on a child. -/
theorem BranchesStand.at {branches : List Branch} {nodes : List Node} (stand : BranchesStand branches nodes) {i : Nat}
    {stack : List Frame} (here : branches[i]? = some (.active stack)) : ∃ child ∈ nodes, Stands stack child := by
  induction nodes generalizing branches i with
  | nil =>
    rcases branches with _ | ⟨branch, branches⟩
    · cases here
    · exact stand.elim
  | cons child nodes ih =>
    rcases branches with _ | ⟨branch, branches⟩
    · cases here
    obtain ⟨first, others⟩ := stand
    rcases i with _ | i
    · rw [List.getElem?_cons_zero, Option.some.injEq] at here
      subst here
      exact ⟨child, List.mem_cons_self, first⟩
    · obtain ⟨other, member, stands⟩ := ih others here
      exact ⟨other, List.mem_cons_of_mem _ member, stands⟩

/-- The stack of a turn stands on one of the nodes of a tree, and what is recorded last was reported in the run,
or else the run of the tree has not come to an end. -/
structure Turn.Stands (turn : Turn) (root : Node) (opening : Scene) : Prop where
  stands : ∃ node ∈ root.preorder, BehaviorTree.Stands turn.stack node
  last : turn.scene.actor.last = turn.since.getD .running
  follows : opening.Precedes turn.scene

/-- Every frame of the stack is for a node of the tree, and holds what that node keeps. -/
theorem Turn.Stands.layer {turn : Turn} {root : Node} {opening : Scene} (standing : turn.Stands root opening)
    {below above : List Frame} {node : Node} {progress : Progress} {deadline : Option Float}
    (layers : turn.stack = below ++ .mk node progress deadline :: above) :
    node ∈ root.preorder ∧ node.kind.Keeps progress deadline above ∧ ProgressStands progress node.children ∧
      (above = [] ∨ ∃ child ∈ node.children, BehaviorTree.Stands above child) := by
  obtain ⟨base, inside, stands⟩ := standing.stands
  rw [layers] at stands
  obtain ⟨owner, within, rfl, keeps, stand, higher⟩ := stands.above (List.cons_ne_nil _ _)
  exact ⟨Node.mem_preorder_trans inside within, keeps, stand, higher⟩

/-- A turn that is opened by one that stands does so too. -/
theorem Turn.Stands.opens {outer inner : Turn} {root : Node} {opening : Scene} (hosted : root.Every (·.kind.Hosted))
    (stands : outer.Stands root opening) (opens : outer.Opens inner) : inner.Stands root opening := by
  obtain ⟨early, top, here, before⟩ := opens
  rename_i below stack node branches ticked i t
  obtain ⟨inside, -, stand, -⟩ := stands.layer top
  have children (child : Node) (member : child ∈ node.children) :=
    backs_and_resumable child ((hosted.below inside).child member)
  have tasks := backs_branchTasks children (List.Subset.refl _) stand
  have follows := (Visit.leaves_runTasks _ (List.forall₂_take i tasks) _ _ _ before).2
  obtain ⟨child, member, standing⟩ := BranchesStand.at stand here
  refine ⟨⟨child, ?_, standing⟩, ?_, ?_⟩
  · exact Node.mem_preorder_trans inside (Node.mem_preorder_of_child member child.self_mem_preorder)
  · rw [last_runTasks _ _ _ _ _ _ _ before, Scene.actor_entered, stands.last]
    cases (Branch.reports branches ticked).getLast? <;> rfl
  · exact (stands.follows.trans (outer.scene.precedes_entered node below.length)).trans follows

theorem Turn.Stands.reached {first turn : Turn} {root : Node} {opening : Scene} (hosted : root.Every (·.kind.Hosted))
    (stands : first.Stands root opening) (turns : ReflTransGen Turn.Opens first turn) : turn.Stands root opening := by
  induction turns with
  | refl => exact stands
  | tail _ opens ih => exact ih.opens hosted opens

/-- The frames below the outermost one whose deadline has come go on from what becomes of that one. -/
theorem Turn.played_eq {turn : Turn} {below above : List Frame} {frame : Frame}
    (layers : turn.stack = below ++ frame :: above) (early : ∀ frame ∈ below, frame.isDue turn.now = false) :
    turn.played = (rise below (resumeAt (frame :: above)) []).play turn.scene := by
  rw [Turn.played, layers]
  exact resumeAt_append (List.cons_ne_nil _ _) early []

/-! ### Runners -/

/-- A runner of such nodes that has left nothing on its stack, or frames that stand on the root. -/
structure Runner.Upright (runner : Runner) : Prop where
  hosted : runner.tree.root.Every (·.kind.Hosted)
  standing : runner.actor.stack = [] ∨
    Stands runner.actor.stack runner.tree.root ∧ runner.actor.last = .running

namespace Runner

variable {runner : Runner}

theorem Upright.of_nil {other : Runner} (upright : runner.Upright) (tree : other.tree = runner.tree)
    (stackless : other.actor.stack = []) : other.Upright := ⟨tree ▸ upright.hosted, .inl stackless⟩

theorem Upright.of_same {other : Runner} (upright : runner.Upright) (tree : other.tree = runner.tree)
    (stack : other.actor.stack = runner.actor.stack) (last : other.actor.last = runner.actor.last) : other.Upright := by
  refine ⟨tree ▸ upright.hosted, ?_⟩
  rw [tree, stack, last]
  exact upright.standing

/-- What the nodes of a run leave stands on the root. -/
theorem Upright.ticked (upright : runner.Upright) (ctx : Context) {frames : List Frame}
    (running : (runner.tickNodes ctx).1 = .ok (.running frames)) :
    Stands frames runner.tree.root ∧ (runner.tickNodes ctx).2.actor.last = .running := by
  obtain ⟨backs, resumable⟩ := backs_and_resumable runner.tree.root upright.hosted
  have left {tick : Ticker} (backs : Backs runner.tree.root tick) (records : Records tick) {s : Scene}
      (running : ((tick []).play s).1 = .ok (.running frames)) :
      Stands frames runner.tree.root ∧ ((tick []).play s).2.actor.last = .running := by
    rcases played : (tick []).play s with ⟨result, t⟩
    rw [played] at running
    cases running
    exact ⟨(backs [] s _ t played).1, records [] s _ t played⟩
  rcases upright.standing with stackless | ⟨stands, -⟩
  · rw [tickNodes, if_pos (by simp [stackless])] at running ⊢
    exact left backs (records_tick _) running
  · rw [tickNodes, if_neg (by simpa using stands.ne_nil)] at running ⊢
    exact left (resumable.backs stands) (records_resumeAt _) running

/-- The end of a run leaves a runner upright. -/
theorem Upright.conclude (upright : runner.Upright) {result : Except Fault Outcome} {scene : Scene}
    (stands : ∀ frames, result = .ok (.running frames) →
      Stands frames runner.tree.root ∧ scene.actor.last = .running) :
    (runner.conclude result scene).2.1.Upright := by
  rcases result with fault | (verdict | frames)
  · exact upright.of_nil rfl rfl
  · exact upright.of_nil rfl rfl
  · exact ⟨upright.hosted, .inr (stands frames rfl)⟩

theorem Upright.interrupt (upright : runner.Upright) (ctx : Context) : (runner.interrupt ctx).1.Upright := by
  rw [Runner.interrupt]
  split
  · exact upright.of_nil rfl rfl
  · exact upright

theorem Upright.clear (upright : runner.Upright) (ctx : Context) : (runner.clear ctx).1.Upright := by
  have before : (if runner.actor.status = .running then runner.interrupt ctx else (runner, ctx)).1.Upright := by
    split
    · exact upright.interrupt ctx
    · exact upright
  exact before.of_nil rfl rfl

/-- Every action leaves a runner upright. -/
theorem Upright.perform (upright : runner.Upright) (ctx : Context) (action : HostAction) :
    (runner.perform ctx action).2.1.Upright := by
  cases action with
  | run =>
    change (runner.run ctx).2.1.Upright
    rw [run_eq]
    split
    · exact upright.of_nil rfl rfl
    · exact upright.conclude fun frames running => upright.ticked _ running
  | interrupt => exact upright.interrupt ctx
  | clear => exact upright.clear ctx
  | _ => exact upright.of_same rfl rfl rfl

theorem Upright.performAll (upright : runner.Upright) (ctx : Context) (actions : List HostAction) :
    (runner.performAll ctx actions).1.Upright := by
  induction actions generalizing runner ctx with
  | nil => exact upright
  | cons action rest ih => exact ih (upright.perform ctx action) _

/-- Every turn of a run stands on a node of the tree. -/
theorem Upright.resumes (upright : runner.Upright) {ctx : Context} {turn : Turn} (resumes : runner.Resumes ctx turn) :
    turn.Stands runner.tree.root (runner.firstTurn ctx).scene := by
  obtain ⟨stands, last⟩ := upright.standing.resolve_left resumes.busy
  exact Turn.Stands.reached upright.hosted ⟨⟨_, Node.self_mem_preorder _, stands⟩, last, .refl _⟩ resumes.turns

end Runner

/-- The built-in kinds are among them. -/
theorem Registry.hosted_builtin {name : String} {kind : Kind} (known : Registry.builtin.get? name = some kind) :
    kind.Hosted := fun e same => absurd same (Registry.builtin_of_get? known e)

/-- A runner of a loaded tree with nothing but such nodes stays upright, whatever its host does with it. -/
theorem Source.upright_load {source : Source} {check : Node → CheckM Unit} {registry : Registry}
    {cache : ExprCache} {name : String} {strict : Bool} {tree : Tree}
    (hosted : ∀ name kind, registry.get? name = some kind → kind.Hosted)
    (loaded : (source.loadWith check registry cache name strict).1 = .ok tree) (caller : Nat) (target : Target)
    (debug : Bool) (ctx : Context) (actions : List HostAction) :
    ((Runner.new tree (.newWith caller target debug)).performAll ctx actions).1.Upright := by
  obtain ⟨main, state, -, -, -, returned, -⟩ := returns_load loaded
  have expands := ((Loader.returns_expands _).1 _ _ _ _ _ returned).2
  have all : tree.root.Every (·.kind.Hosted) := expands.registered.mono fun n known => hosted _ _ known.choose_spec
  exact Runner.Upright.performAll ⟨all, .inl rfl⟩ ctx actions

end BehaviorTree
