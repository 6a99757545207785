import BehaviorTree.Proofs.Descent.Arming
import BehaviorTree.Proofs.Session.Clear
import BehaviorTree.Proofs.Stack.Turn

/-!
Timeout nodes. One that is entered afresh ticks its child and, if that runs, arms its deadline. When a stack is
resumed on which deadlines have come, the outermost of them is looked for before any node goes on: it belongs to
a Timeout node, which fails with all above it dropped. Where no deadline has come, a Timeout node completes when
its child does, and as its child does; the second look that it takes at its deadline then finds what the first
one found, since the clock stands still in a run.
-/

namespace BehaviorTree

open Descent (Armed Call Dated resumed resumeAt)
open TickM

/-! ### Executions of a Timeout node -/

namespace Scene

/-- A Timeout node has been executed after its deadline. -/
def timedOut (scene : Scene) (node : Node) (depth : Nat) : Scene :=
  ((scene.entered node depth).note (.timedOut node.name node.id)).reported node .failure

end Scene

/-- What follows for a Timeout node that has ticked its child afresh, from what became of the child. -/
def Node.allot (node : Node) (deadline : Float) : Except Fault Outcome × Scene → Except Fault Outcome × Scene
  | (.ok (.running above), t) =>
    (.ok (.running (.mk node (.deadline deadline) (some deadline) :: above)), t.reported node .running)
  | (.ok (.done verdict), t) => (.ok (.done verdict), t.reported node verdict.status)
  | (.error fault, t) => (.error fault, t)

section

variable {node : Node} (kind : node.kind = .timeout)

include kind

/-- A Timeout node that is entered afresh completes just when its child does, and as its child does. -/
theorem play_tick_timeout {child : Node} (only : node.children = [child]) (path : Path) (s : Scene) :
    (node.tick path).play s =
      node.allot (s.context.clock + node.timeLimit)
        ((child.tick (path ++ [node.id])).play (s.entered node path.length)) := by
  rw [Descent.tick_execute, Visit.play_execute]
  simp only [Visit.run, Descent.onStack, kind, Visit.timeout, Visit.tickChild, only, List.map_cons,
    List.getElem?_cons_zero, List.length_append, List.length_singleton, Nat.add_sub_cancel]
  rw [play_bind_ok (play_now _), play_bind, Scene.clock_entered]
  rcases (child.tick (path ++ [node.id])).play (s.entered node path.length) with ⟨fault | (verdict | above), t⟩ <;> rfl

/-- One that goes on fails if its deadline has come, and takes the verdict of its child otherwise. -/
theorem play_resumed_timeout (time : Float) (path : Path) (s : Scene) :
    (resumed node (.deadline time) (path ++ [node.id])).play s =
      if time ≤ s.context.clock then (.ok (.done .failure), s.timedOut node path.length)
      else node.takeUp path.length s.actor.last s := by
  have length : (path ++ [node.id]).length = path.length + 1 := by simp
  split
  · rename_i due
    rw [resumed, Visit.play_execute]
    simp only [Visit.run, Descent.onStack, kind, Visit.timeout, length, Nat.add_sub_cancel]
    rw [play_bind_ok (play_now _), Scene.clock_entered, if_pos due]
    rfl
  · rename_i early
    refine Visit.play_execute_childVerdict ?_ length
    simp only [Visit.run, Descent.onStack, kind, Visit.timeout]
    rw [play_bind_ok (play_now _), Scene.clock_entered, if_neg early]
    rfl

end

/-- A Timeout node has a time limit, and ticks its only child afresh when it is entered. -/
structure Node.Limits (node : Node) : Prop where
  stated : node.number? "time" = some node.timeLimit
  entered : ∃ child, node.children = [child] ∧ ∀ path s, (node.tick path).play s =
    node.allot (s.context.clock + node.timeLimit)
      ((child.tick (path ++ [node.id])).play (s.entered node path.length))

/-- A Timeout node that was admitted has a limit. -/
theorem Node.Admitted.limits {cache : ExprCache} {node : Node} (admitted : node.Admitted cache)
    (kind : node.kind = .timeout) : node.Limits := by
  have declared : Arg.required "time" .float "Time limit" ∈ node.kind.declaration.args := by
    rw [kind]
    exact List.mem_singleton_self _
  have fitted := admitted.fitted _ declared
  obtain ⟨v, given⟩ := Option.isSome_iff_exists.mp (fitted.required rfl)
  obtain ⟨limit, number⟩ := Option.isSome_iff_exists.mp (fitted.typed v given)
  have held : node.arg? "time" = some v := (Option.filter_eq_some_iff.mp given).1
  have stated : node.number? "time" = some limit := by
    rw [Node.number?, held]
    exact number
  obtain ⟨child, only⟩ := admitted.only_child (by rw [kind]; rfl)
  exact ⟨by rw [timeLimit, stated, Option.getD_some], child, only, play_tick_timeout kind only⟩

/-! ### Frames within a stack -/

theorem stackFrames_append (below above : List Frame) :
    stackFrames (below ++ above) = stackFrames below ++ stackFrames above := by
  induction below with
  | nil => rfl
  | cons frame below ih => rw [List.cons_append, stackFrames, stackFrames, ih, List.append_assoc]

theorem subset_stackFrames (stack : List Frame) : stack ⊆ stackFrames stack := by
  induction stack with
  | nil => exact List.nil_subset _
  | cons frame above ih =>
    obtain ⟨node, progress, deadline⟩ := frame
    rw [stackFrames, Frame.within]
    exact List.cons_subset.mpr ⟨List.mem_cons_self, List.Subset.trans ih (List.subset_append_right _ _)⟩

/-- Frames of a branch are among those of all branches. -/
theorem stackFrames_subset_of_branch {branches : List Branch} {i : Nat} {stack : List Frame}
    (here : branches[i]? = some (.active stack)) : stackFrames stack ⊆ branchFrames branches := by
  induction branches generalizing i with
  | nil => cases here
  | cons branch rest ih =>
    rw [branchFrames]
    rcases i with _ | i
    · rw [List.getElem?_cons_zero, Option.some.injEq] at here
      rw [here]
      exact List.subset_append_left _ _
    · exact List.Subset.trans (ih here) (List.subset_append_right _ _)

/-- The stack of a branch is within that of its Parallel node. -/
theorem Turn.Opens.frames {outer inner : Turn} (opens : outer.Opens inner) :
    stackFrames inner.stack ⊆ stackFrames outer.stack := by
  obtain ⟨-, top, here, -⟩ := opens
  rw [top, stackFrames_append]
  refine List.Subset.trans (stackFrames_subset_of_branch here) (List.Subset.trans ?_ (List.subset_append_right _ _))
  exact List.Subset.trans (List.subset_cons_self _ _) (List.subset_append_left _ _)

/-- Whatever is resumed in a run is within the stack of the actor. -/
theorem Runner.Resumes.frames {runner : Runner} {ctx : Context} {turn : Turn} (resumes : runner.Resumes ctx turn) :
    stackFrames turn.stack ⊆ stackFrames runner.actor.stack := by
  have turns := resumes.turns
  induction turns with
  | refl => exact List.Subset.refl _
  | tail _ opens ih => exact List.Subset.trans opens.frames (ih ⟨resumes.goesOn, resumes.busy, ‹_›⟩)

/-- What the node of a frame keeps, and where that node stands. -/
def Frame.KeptBelow (frame : Frame) (root : Node) : Prop :=
  frame.node ∈ root.preorder ∧ ∃ above, frame.node.kind.Keeps frame.progress frame.deadline above

theorem Frame.KeptBelow.child {frame : Frame} {node child : Node} (kept : frame.KeptBelow child)
    (member : child ∈ node.children) : frame.KeptBelow node := ⟨Node.mem_preorder_of_child member kept.1, kept.2⟩

mutual

/-- Every frame of a stack holds what its node keeps, also in branches. -/
theorem keptBelow_of_stands : ∀ {stack : List Frame} {node : Node}, Stands stack node →
    ∀ frame ∈ stackFrames stack, frame.KeptBelow node
  | .mk owner progress deadline :: above, node, ⟨same, keeps, stand, higher⟩, frame, member => by
    rcases List.mem_append.mp member with first | later
    · rw [Frame.within] at first
      rcases List.mem_cons.mp first with rfl | inside
      · exact same ▸ ⟨owner.self_mem_preorder, above, same ▸ keeps⟩
      · obtain ⟨child, below, kept⟩ := keptBelow_of_progressStands stand frame inside
        exact kept.child below
    · rcases higher with rfl | ⟨child, below, stands⟩
      · cases later
      · exact (keptBelow_of_stands stands frame later).child below

theorem keptBelow_of_progressStands : ∀ {progress : Progress} {nodes : List Node}, ProgressStands progress nodes →
    ∀ frame ∈ progress.within, ∃ child ∈ nodes, frame.KeptBelow child
  | .branches _, _, stand, frame, member => keptBelow_of_branchesStand stand frame member

theorem keptBelow_of_branchesStand : ∀ {branches : List Branch} {nodes : List Node}, BranchesStand branches nodes →
    ∀ frame ∈ branchFrames branches, ∃ child ∈ nodes, frame.KeptBelow child
  | branch :: branches, child :: rest, ⟨first, others⟩, frame, member => by
    rcases List.mem_append.mp member with here | later
    · exact ⟨child, List.mem_cons_self, keptBelow_of_branchStands first frame here⟩
    · obtain ⟨other, below, kept⟩ := keptBelow_of_branchesStand others frame later
      exact ⟨other, List.mem_cons_of_mem _ below, kept⟩

theorem keptBelow_of_branchStands : ∀ {branch : Branch} {child : Node}, BranchStands branch child →
    ∀ frame ∈ branch.within, frame.KeptBelow child
  | .active _, _, stands, frame, member => keptBelow_of_stands stands frame member

end

/-! ### The journal of a runner -/

/-- What can be told of frames from the ticks so far, if ticks of a tree leave only frames of which it can be told. -/
structure Lasting (K : List Call → List Frame → Prop) : Prop where
  none (log : List Call) : K log []
  tick {root : Node} (nodup : root.ids.Nodup) (log : List Call) (state : Option Descent.Active) (s : Scene) :
    (∀ active ∈ state, K log (stackFrames (Descent.frames root active))) →
      Gives (Descent.tick root state []) s fun report _ => ∀ active, report = .running active →
        K (log ++ ⟨0, root, state, [], .nothing, s, s⟩ :: Descent.calls root state [] s)
          (stackFrames (Descent.frames root active))

theorem lasting_dated : Lasting Dated where
  none _ := Descent.dated_nil
  tick nodup log state s before :=
    ((Descent.dates _ nodup).call 0 state [] .nothing s s before).mono fun _ _ dated _ same => by
      subst same
      exact dated

namespace Runner

/-- The ticks of a runner's nodes that an action leads to. -/
def callsOf (runner : Runner) (ctx : Context) : HostAction → List Call
  | .run => runner.calls ctx
  | _ => []

/-- All ticks of a runner's nodes while actions are carried out. -/
def journal (runner : Runner) (ctx : Context) : List HostAction → List Call
  | [] => []
  | action :: rest =>
    let (_, next, onward) := runner.perform ctx action
    runner.callsOf ctx action ++ next.journal onward rest

variable {runner : Runner} {cache : ExprCache} {log : List Call} {K : List Call → List Frame → Prop}

/-- A run leaves frames of which the same can be told. -/
theorem Ready.lasting_run (ready : runner.Ready cache) (lasting : Lasting K)
    (kept : K log (stackFrames runner.actor.stack)) (ctx : Context) :
    K (log ++ runner.calls ctx) (stackFrames (runner.run ctx).2.1.actor.stack) := by
  rw [run_eq, calls]
  split
  · exact lasting.none _
  · have before : ∀ active ∈ restore runner.actor.stack, K log (stackFrames (Descent.frames runner.tree.root active)) := by
      intro active member
      rw [← ready.stack_eq_frames member]
      exact kept
    generalize ctx.dropRequest runner.actor.caller = ctx
    have ticked := lasting.tick ready.tree.nodup log (restore runner.actor.stack) (runner.opening ctx) before
    rw [ready.tickNodes_eq]
    rcases played : (Descent.tick runner.tree.root (restore runner.actor.stack) []).play (runner.opening ctx) with
      ⟨fault | (verdict | state), t⟩
    · exact lasting.none _
    · exact lasting.none _
    · exact ticked _ _ played state rfl

/-- What every run keeps of the frames, every action keeps. -/
theorem Ready.lasting_perform (ready : runner.Ready cache) (lasting : Lasting K)
    (kept : K log (stackFrames runner.actor.stack)) (ctx : Context) (action : HostAction) :
    K (log ++ runner.callsOf ctx action) (stackFrames (runner.perform ctx action).2.1.actor.stack) := by
  have still : K (log ++ []) (stackFrames runner.actor.stack) := by rwa [List.append_nil]
  cases action with
  | run => exact ready.lasting_run lasting kept ctx
  | interrupt =>
    change K (log ++ []) (stackFrames (runner.interrupt ctx).1.actor.stack)
    rw [Runner.interrupt]
    split
    · exact lasting.none _
    · exact still
  | clear =>
    have empty : (runner.clear ctx).1.actor.stack = [] := rfl
    change K (log ++ []) (stackFrames (runner.clear ctx).1.actor.stack)
    rw [empty]
    exact lasting.none _
  | context | vars | setDebug | follow => exact still

/-- What each action preserves holds when all of them are carried out. -/
theorem journal_induct {H : Runner → List Call → Prop} {actions : List HostAction}
    (step : ∀ runner log ctx, ∀ action ∈ actions, H runner log →
      H (runner.perform ctx action).2.1 (log ++ runner.callsOf ctx action))
    (holds : H runner log) (ctx : Context) : H (runner.performAll ctx actions).1 (log ++ runner.journal ctx actions) := by
  induction actions generalizing runner ctx log with
  | nil => exact (List.append_nil log).symm ▸ holds
  | cons action rest ih =>
    have first := step runner log ctx action List.mem_cons_self holds
    have onward := ih (fun runner log ctx action member => step runner log ctx action (List.mem_cons_of_mem _ member))
      first (runner.perform ctx action).2.2
    rw [List.append_assoc] at onward
    exact onward

theorem Ready.lasting_performAll (ready : runner.Ready cache) (lasting : Lasting K)
    (kept : K log (stackFrames runner.actor.stack)) (ctx : Context) (actions : List HostAction) :
    K (log ++ runner.journal ctx actions) (stackFrames (runner.performAll ctx actions).1.actor.stack) := by
  let H (runner : Runner) (log : List Call) := runner.Ready cache ∧ K log (stackFrames runner.actor.stack)
  have holds : H runner log := ⟨ready, kept⟩
  refine (journal_induct (fun runner log ctx action _ holds => ?_) holds ctx).2
  exact ⟨holds.1.perform ctx action, holds.1.lasting_perform lasting holds.2 ctx action⟩

end Runner

/-! ### Turns -/

section

variable {kind : Kind} {progress : Progress} {deadline : Option Float} {above : List Frame}

theorem Kind.Keeps.limited (keeps : kind.Keeps progress deadline above) (timeout : kind = .timeout) :
    ∃ time, progress = .deadline time ∧ deadline = some time ∧ above ≠ [] := by
  subst timeout
  exact keeps

/-- Among the built-in nodes only Timeout nodes arm deadlines. -/
theorem Kind.Keeps.unarmed (keeps : kind.Keeps progress deadline above) (builtin : ∀ e, kind ≠ .extension e)
    (other : kind ≠ .timeout) : deadline = none := by
  cases kind with
  | timeout => exact absurd rfl other
  | extension e => exact absurd rfl (builtin e)
  | parallel => exact keeps.2.1
  | _ => exact keeps.2

end

/-- Nodes whose frames have been dropped listen no longer. -/
theorem Scene.silent_cut {s : Scene} (wired : s.context.Wired) (node : Node) {above : List Frame} {event : String}
    {target : Target} {l : Listener Sink} (here : l ∈ (s.cut node above).context.bus.listeners event target)
    (fills : l.sink = .mailbox) : l.id ∉ stackListeners above := by
  obtain ⟨box, member, rfl, -⟩ := ((s.precedes_cut node above).wired wired).boxed event target l here fills
  exact (Context.mem_unsubscribes _ member).2

/-- Only a Timeout node has a deadline. It is the one that it armed when it was last entered afresh, and what it
remembers itself. -/
structure Frame.Timed (log : List Call) (frame : Frame) : Prop where
  others : frame.node.kind ≠ .timeout → frame.deadline = none
  armed : frame.node.kind = .timeout →
    ∃ time, frame.progress = .deadline time ∧ frame.deadline = some time ∧ Armed log frame.node time

/-- While a Timeout node is not entered again, its deadline stays the same. -/
theorem Frame.Timed.deadline_eq {log more : List Call} {frame later : Frame} (timed : frame.Timed log)
    (after : later.Timed (log ++ more)) (same : later.node = frame.node)
    (others : ∀ call ∈ more, call.node.id = frame.node.id → call.state ≠ none) : later.deadline = frame.deadline := by
  by_cases timeout : frame.node.kind = .timeout
  · obtain ⟨time, -, deadline, armed⟩ := timed.armed timeout
    obtain ⟨time', -, deadline', armed'⟩ := after.armed (same ▸ timeout)
    rw [same] at armed'
    rw [deadline, deadline', (armed.later others).unique armed']
  · rw [timed.others timeout, after.others (same ▸ timeout)]

namespace Turn

/-- The outermost deadline that has come belongs to a Timeout node. -/
structure Cuts (turn : Turn) (below : List Frame) (node : Node) (time : Float) (above : List Frame) : Prop where
  layers : turn.stack = below ++ .mk node (.deadline time) (some time) :: above
  timeout : node.kind = .timeout
  due : time ≤ turn.now
  outermost : ∀ frame ∈ below, frame.isDue turn.now = false
  /-- It fails, and nothing above it is executed. -/
  fails : ∀ path, (resumeAt (.mk node (.deadline time) (some time) :: above) path).play turn.scene =
    (.ok (.done .failure), (turn.scene.cut node above).timedOut node path.length)
  /-- The nodes below it go on from there. -/
  played : turn.played = (rise below (resumeAt (.mk node (.deadline time) (some time) :: above)) []).play turn.scene
  /-- The nodes above it listen no longer, and the events that wait for them are gone. -/
  silent : turn.scene.context.Wired → ∀ event target,
    ∀ l ∈ (turn.scene.cut node above).context.bus.listeners event target, l.sink = .mailbox →
      l.id ∉ stackListeners above
  emptied : ∀ box ∈ (turn.scene.cut node above).context.mailboxes, box.listener ∉ stackListeners above

/-- A Timeout node whose deadline has not come. -/
structure Waits (turn : Turn) (below : List Frame) (node : Node) (frame : Frame) (above : List Frame) : Prop where
  child : ∃ child, node.children = [child] ∧ BehaviorTree.Stands above child
  /-- It completes if and only if the frames above it do, and with their verdict. -/
  passes : ∀ path, (resumeAt (frame :: above) path).play turn.scene =
    frame.passOn path.length ((resumeAt above (path ++ [node.id])).play turn.scene)
  played : turn.played = (rise below (resumeAt (frame :: above)) []).play turn.scene

/-- What becomes of the Timeout nodes in a stack that is resumed. -/
structure Timely (turn : Turn) (runner : Runner) (ctx : Context) : Prop where
  now : turn.now = ctx.clock
  wired : ctx.Wired → turn.scene.context.Wired
  frames : turn.stack ⊆ stackFrames runner.actor.stack
  cuts : (∃ frame ∈ turn.stack, frame.isDue turn.now = true) → ∃ below node time above, turn.Cuts below node time above
  waits : ∀ below node progress deadline above, turn.stack = below ++ .mk node progress deadline :: above →
    node.kind = .timeout → (∀ frame ∈ below, frame.isDue turn.now = false) →
      (Frame.mk node progress deadline).isDue turn.now = false →
        turn.Waits below node (.mk node progress deadline) above
  /-- A Parallel node on top resumes the stack of every branch that runs, after the branches before it. -/
  branches : ∀ below node branches, turn.stack = below ++ [.mk node (.branches branches) none] →
    (∀ frame ∈ turn.stack, frame.isDue turn.now = false) → ∀ i stack ticked t,
      branches[i]? = some (.active stack) →
      (Visit.runTasks (below.length + 1) ((branchTasks (node.children.map Node.tick) branches).take i)).play
        (turn.scene.entered node below.length) = (.ok ticked, t) →
      (branchTasks (node.children.map Node.tick) branches)[i]? = some (.pending (resumeAt stack)) ∧
        ∃ since, runner.Resumes ctx ⟨stack, t, since⟩

end Turn

namespace Runner

variable {runner : Runner} {cache : ExprCache} {ctx : Context} {turn : Turn}

/-- The outermost deadline that has come belongs to a Timeout node, which fails. -/
theorem Ready.cuts (ready : runner.Ready cache) (upright : runner.Upright) (resumes : runner.Resumes ctx turn)
    (due : ∃ frame ∈ turn.stack, frame.isDue turn.now = true) :
    ∃ below node time above, turn.Cuts below node time above := by
  obtain ⟨frame, found⟩ := Option.isSome_iff_exists.mp (List.find?_isSome.mpr due)
  obtain ⟨due, below, above, layers, early⟩ := List.find?_eq_some_iff_append.mp found
  obtain ⟨node, progress, deadline⟩ := frame
  obtain ⟨member, keeps, -, -⟩ := (upright.resumes resumes).layer layers
  have timeout : node.kind = .timeout := by
    by_contra other
    rw [keeps.unarmed (ready.shaped node member).builtin other] at due
    cases due
  obtain ⟨time, rfl, rfl, -⟩ := keeps.limited timeout
  have outermost : ∀ frame ∈ below, frame.isDue turn.now = false := fun frame member => by
    simpa using early frame member
  refine ⟨below, node, time, above, {
    layers, timeout, outermost
    due := of_decide_eq_true due
    fails := fun path => ?_
    played := turn.played_eq layers outermost
    silent := fun wired event target l => Scene.silent_cut wired node
    emptied := fun box member => (Context.mem_unsubscribes _ member).2 }⟩
  rw [play_due due, play_resumed_timeout timeout, Scene.clock_cut]
  exact if_pos (of_decide_eq_true due)

/-- A Timeout node whose deadline has not come ends as its child does. -/
theorem Ready.waits (ready : runner.Ready cache) (upright : runner.Upright) (resumes : runner.Resumes ctx turn)
    {below above : List Frame} {node : Node} {progress : Progress} {deadline : Option Float}
    (layers : turn.stack = below ++ .mk node progress deadline :: above) (timeout : node.kind = .timeout)
    (outermost : ∀ frame ∈ below, frame.isDue turn.now = false)
    (early : (Frame.mk node progress deadline).isDue turn.now = false) :
    turn.Waits below node (.mk node progress deadline) above := by
  obtain ⟨member, keeps, -, higher⟩ := (upright.resumes resumes).layer layers
  obtain ⟨time, rfl, rfl, busy⟩ := keeps.limited timeout
  obtain ⟨child, only⟩ := (ready.shaped node member).only_child (by rw [timeout]; rfl)
  obtain ⟨other, isChild, stands⟩ := higher.resolve_left busy
  rw [only, List.mem_singleton] at isChild
  subst isChild
  refine {
    child := ⟨other, only, stands⟩
    passes := fun path => play_passOn early busy fun verdict t played => ?_
    played := turn.played_eq layers outermost }
  -- The clock stands still while the child goes on, so that the deadline has not come by then either.
  have hosted := (upright.hosted.below member).child (only ▸ List.mem_singleton_self other)
  have still := ((backs_and_resumable other hosted).2.backs stands _ _ _ _ played).2.clock
  rw [play_resumed_timeout timeout, still]
  exact if_neg (of_decide_eq_false early)

/-- Every turn of a resumed stack is timely. -/
theorem Ready.timely (ready : runner.Ready cache) (upright : runner.Upright) (resumes : runner.Resumes ctx turn) :
    turn.Timely runner ctx where
  now := (upright.resumes resumes).follows.clock
  wired wired := (upright.resumes resumes).follows.wired (wired.congr rfl rfl)
  frames := List.Subset.trans (subset_stackFrames _) resumes.frames
  cuts := ready.cuts upright resumes
  waits _ _ _ _ _ := ready.waits upright resumes
  branches below node branches top early i stack ticked t here before := by
    obtain ⟨-, -, stand, -⟩ := (upright.resumes resumes).layer top
    have turns := resumes.turns.tail (.branch early top here before)
    exact ⟨branchTasks_active stand here, _, resumes.goesOn, resumes.busy, turns⟩

/-- On the stack of a runner deadlines belong to Timeout nodes, and stand as these have armed them. -/
theorem Ready.timed (ready : runner.Ready cache) (upright : runner.Upright) {log : List Call}
    (dated : Dated log (stackFrames runner.actor.stack)) :
    ∀ frame ∈ stackFrames runner.actor.stack, frame.Timed log := by
  intro frame member
  rcases upright.standing with empty | ⟨stands, -⟩
  · rw [empty] at member
    cases member
  · obtain ⟨inside, above, keeps⟩ := keptBelow_of_stands stands frame member
    refine ⟨keeps.unarmed (ready.shaped frame.node inside).builtin, fun timeout => ?_⟩
    obtain ⟨time, progress, deadline, -⟩ := keeps.limited timeout
    exact ⟨time, progress, deadline, dated frame member time deadline⟩

/-- In whatever state a runner of a loaded tree is, and whatever the clock shows then: in every stack that is
resumed the outermost deadline that has come makes its Timeout node fail, with all above it dropped, and where
none has come a Timeout node ends as its child does. Every deadline on the stack is the one that its Timeout node
armed when it was last entered afresh, and it stays the same until the node is entered again. -/
theorem timeouts_kept (source : Source) (cache : ExprCache) (name : String) (strict : Bool) (tree : Tree)
    (loaded : (source.load Registry.builtin cache name strict).1 = .ok tree) (caller : Nat) (target : Target)
    (debug : Bool) (before : Context) (actions : List HostAction) :
    let start := Runner.new tree (.newWith caller target debug)
    let runner := (start.performAll before actions).1
    (∀ node ∈ tree.root.preorder, node.kind = .timeout → node.Limits) ∧
      (∀ ctx turn, runner.Resumes ctx turn → turn.Timely runner ctx) ∧
      (∀ frame ∈ stackFrames runner.actor.stack, frame.Timed (start.journal before actions)) ∧
      ∀ ctx more, ∀ frame ∈ stackFrames runner.actor.stack,
        ∀ later ∈ stackFrames (runner.performAll ctx more).1.actor.stack, later.node = frame.node →
          (∀ call ∈ runner.journal ctx more, call.node.id = frame.node.id → call.state ≠ none) →
            later.deadline = frame.deadline := by
  intro start runner
  obtain ⟨admitted, nodup⟩ := source.admitted_load cache name strict loaded
  have fresh : start.Ready _ := ⟨⟨admitted, nodup⟩, _, Descent.Walker.valid_new tree caller target debug, rfl⟩
  have begun : Dated [] (stackFrames start.actor.stack) := Descent.dated_nil
  have ready : runner.Ready _ := fresh.performAll before actions
  have dated := fresh.lasting_performAll lasting_dated begun before actions
  have upright : runner.Upright :=
    Source.upright_load (fun _ _ => Registry.hosted_builtin) loaded caller target debug before actions
  have timed := ready.timed upright dated
  refine ⟨fun node inside timeout => (admitted node inside).limits timeout,
    fun ctx turn resumes => ready.timely upright resumes, timed, ?_⟩
  intro ctx more frame member later still same others
  have onward := ready.lasting_performAll lasting_dated dated ctx more
  have timed' := (ready.performAll ctx more).timed (upright.performAll ctx more) onward
  exact (timed frame member).deadline_eq (timed' later still) same others

end Runner

/-! ### A vigil -/

/-- Listens for a call for a limited time. -/
def vigilSource (limit : Float) : Source :=
  [{ name := "vigil"
     root :=
      { name := "Timeout", args := [("time", .number limit)]
        children :=
          [{ name := "ListenTree", args := [("event", .text "call")], children := [{ name := "Clear" }] }] } }]

namespace vigil

/-- A node that listens for a call. -/
def awake : Node :=
  { id := 2, kind := .listenTree, name := "ListenTree", desc := "", args := [("event", .text "call")], input := []
    output := [], children := [clearLeaf 3] }

/-- A node that listens under a time limit. -/
def limited (limit : Float) : Node :=
  { id := 1, kind := .timeout, name := "Timeout", desc := "", args := [("time", .number limit)], input := []
    output := [], children := [awake] }

/-- Nobody has called yet. -/
def stack (limit deadline : Float) : List Frame :=
  [.mk (limited limit) (.deadline deadline) (some deadline), .mk awake (.listening 1 false) none]

end vigil

def vigil (limit : Float) : Tree := ⟨"vigil", "", vigil.limited limit⟩

theorem load_vigil (limit : Float) :
    (vigilSource limit).load Registry.builtin [] "vigil" true = (.ok (vigil limit), []) := by
  cbv

theorem vigil.stack_eq (limit : Float) :
    ((Runner.new (vigil limit) (.newWith 1 .everyone false)).performAll (.new Registry.builtin) [.run]).1.actor.stack =
      stack limit (0.0 + limit) := by
  rfl

/-- If nobody calls in time, the vigil fails; so it does when twice the time has passed. -/
theorem Runner.timeouts_kept_vigil :
    ((vigilSource 1.0).load Registry.builtin [] "vigil" true).1 = .ok (vigil 1.0) ∧
      let host := (Runner.new (vigil 1.0) (.newWith 1 .everyone false)).performAll (.new Registry.builtin) [.run]
      (∀ ctx, host.1.isCancelled ctx = false → 0.0 + 1.0 ≤ ctx.clock → (host.1.run ctx).1 = .failure) ∧
        (host.1.run (host.2.advance 2.0)).1 = .failure := by
  have loaded := congrArg Prod.fst (load_vigil 1.0)
  refine ⟨loaded, ?_⟩
  intro host
  suffices cut : ∀ ctx, host.1.isCancelled ctx = false → 0.0 + 1.0 ≤ ctx.clock → (host.1.run ctx).1 = .failure from
    ⟨cut, cut _ rfl (by decide +kernel)⟩
  intro ctx goesOn late
  set runner := host.1
  have laid : runner.actor.stack = vigil.stack 1.0 (0.0 + 1.0) := vigil.stack_eq 1.0
  have busy : runner.actor.stack ≠ [] := laid ▸ List.cons_ne_nil _ _
  have due : (Frame.mk (vigil.limited 1.0) (.deadline (0.0 + 1.0)) (some (0.0 + 1.0))).isDue ctx.clock = true :=
    decide_eq_true late
  obtain ⟨-, timely, -⟩ := Runner.timeouts_kept _ _ _ _ _ loaded 1 .everyone false (.new Registry.builtin) [.run]
  have bottom : Frame.mk (vigil.limited 1.0) (.deadline (0.0 + 1.0)) (some (0.0 + 1.0)) ∈ runner.actor.stack := by
    rw [laid]
    exact List.mem_cons_self
  have resumed := timely ctx (runner.firstTurn ctx) ⟨goesOn, busy, .refl⟩
  obtain ⟨below, node, time, above, cuts⟩ := resumed.cuts ⟨_, bottom, due⟩
  have layers : vigil.stack 1.0 (0.0 + 1.0) = below ++ .mk node (.deadline time) (some time) :: above :=
    laid ▸ cuts.layers
  rcases below with _ | ⟨first, below⟩
  · rw [run_eq_firstTurn goesOn busy, cuts.played, rise, cuts.fails]
    rfl
  · obtain ⟨rfl, -⟩ := List.cons.inj layers
    exact absurd due (Bool.eq_false_iff.mp (cuts.outermost _ List.mem_cons_self))

end BehaviorTree
