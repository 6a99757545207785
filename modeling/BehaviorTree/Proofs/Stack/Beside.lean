import BehaviorTree.Proofs.Descent.Attending
import BehaviorTree.Proofs.Stack.Timeout

/-!
Parallel nodes. In each run that reaches one, all of its children that have not completed are executed, in order and
each on a stack of its own: ticked afresh in the first run, and resumed in later ones. It succeeds as soon as all
have completed, however they did, and otherwise keeps their stacks; an error cuts it short. The frames below it stay
as they are meanwhile.
-/

namespace BehaviorTree

open Descent (Pursued Call Lived LivedAll resumed resumeAt ticksOf)
open TickM

/-! ### One pass over the children -/

/-- What is done with a child of a Parallel node: nothing once it has completed; it is ticked afresh before it has
begun, and its own stack is resumed after that. -/
def Branch.goOn? (child : Node) : Branch → Option (TickM Outcome)
  | .settled _ => none
  | .active [] => some (child.tick [])
  | .active (frame :: above) => some (resume (frame :: above))

/-- What is kept of a child that has been executed. -/
def Outcome.branch : Outcome → Branch
  | .done verdict => .settled verdict
  | .running frames => .active frames

/-- The children are executed in order, each in the scene that the ones before it have left and for a branch of its
own. Those that have completed are left alone, and an error ends the pass. -/
inductive Pass (depth : Nat) : List Node → List Branch → Scene → Except Fault (List Branch) × Scene → Prop
  | over (s : Scene) : Pass depth [] [] s (.ok [], s)
  | settled {child : Node} {nodes : List Node} {verdict : Verdict} {branches : List Branch} {s t : Scene}
      {result : Except Fault (List Branch)} (rest : Pass depth nodes branches s (result, t)) :
      Pass depth (child :: nodes) (.settled verdict :: branches) s (result.map (.settled verdict :: ·), t)
  | executed {child : Node} {nodes : List Node} {branch : Branch} {branches : List Branch} {s t u : Scene}
      {x : TickM Outcome} {outcome : Outcome} {result : Except Fault (List Branch)}
      (goesOn : branch.goOn? child = some x) (played : x.play s = (.ok outcome, t))
      (rest : Pass depth nodes branches t (result, u)) :
      Pass depth (child :: nodes) (branch :: branches) s (result.map (outcome.branch :: ·), u)
  | cut {child : Node} {nodes : List Node} {branch : Branch} {branches : List Branch} {s t : Scene} {x : TickM Outcome}
      {fault : Fault} (goesOn : branch.goOn? child = some x) (played : x.play s = (.error fault, t)) :
      Pass depth (child :: nodes) (branch :: branches) s (.error ⟨fault.error, depth⟩, t)

theorem play_runTasks_pending (depth : Nat) (run : Ticker) (tasks : List Task) (s : Scene) :
    (Visit.runTasks depth (.pending run :: tasks)).play s =
      match (run []).play s with
      | (.ok outcome, t) =>
        (((Visit.runTasks depth tasks).play t).1.map (outcome.branch :: ·), ((Visit.runTasks depth tasks).play t).2)
      | (.error fault, t) => (.error ⟨fault.error, depth⟩, t) := by
  rw [Visit.runTasks, play_bind, play_tryCatch]
  rcases (run []).play s with ⟨fault | outcome, t⟩
  · rfl
  · simp only
    rw [bind_pure_comp, play_map]
    cases outcome <;> rfl

/-- The tasks of a Parallel node make one pass over its children. -/
theorem pass_runTasks (depth : Nat) {nodes : List Node} {branches : List Branch} (all : branches.length = nodes.length)
    (s : Scene) :
    Pass depth nodes branches s ((Visit.runTasks depth (branchTasks (nodes.map Node.tick) branches)).play s) := by
  induction nodes generalizing branches s with
  | nil =>
    rw [List.length_nil, List.length_eq_zero_iff] at all
    rw [all]
    exact .over s
  | cons child nodes ih =>
    rcases branches with _ | ⟨branch, branches⟩
    · cases all
    have rest (t : Scene) := ih (Nat.succ.inj all) t
    rw [List.map_cons, branchTasks]
    have pending {run : Ticker} (goesOn : branch.goOn? child = some (run [])) :
        Pass depth (child :: nodes) (branch :: branches) s
          ((Visit.runTasks depth (.pending run :: branchTasks (nodes.map Node.tick) branches)).play s) := by
      rw [play_runTasks_pending]
      rcases played : (run []).play s with ⟨fault | outcome, t⟩
      · exact .cut goesOn played
      · exact .executed goesOn played (rest t)
    rcases branch with verdict | (_ | ⟨frame, above⟩)
    · rw [branchTask, Visit.runTasks, bind_pure_comp, play_map]
      exact .settled (rest s)
    · exact pending rfl
    · exact pending rfl

/-- Before the first pass, no child has begun. -/
def Node.unbegun (node : Node) : List Branch := node.children.map fun _ => .active []

theorem branchTasks_unbegun (nodes : List Node) :
    branchTasks (nodes.map Node.tick) (nodes.map fun _ => .active []) = (nodes.map Node.tick).map .pending := by
  induction nodes with
  | nil => rfl
  | cons child nodes ih => rw [List.map_cons, List.map_cons, List.map_cons, branchTasks, ih]; rfl

/-! ### Executions of a Parallel node -/

/-- What a Parallel node that stands above these frames makes of a pass. -/
def Node.attend (node : Node) (below : List Frame) :
    Except Fault (List Branch) × Scene → Except Fault Outcome × Scene
  | (.ok branches, t) =>
    if branches.all Visit.isSettled then
      (rise below (fun _ => pure (.done .success)) []).play (t.reported node .success)
    else (.ok (.running (below ++ [.mk node (.branches branches) none])), t.reported node .running)
  | (.error fault, t) => (.error fault, t)

/-- What becomes of the frames of a stack when what is above them has come to an outcome. -/
theorem play_rise (below : List Frame) (above : Path → TickM Outcome) (path : Path) (s : Scene) :
    (rise below above path).play s =
      match (above (path ++ below.map fun frame => frame.node.id)).play s with
      | (.ok (.running frames), t) => (.ok (.running (below ++ frames)), t)
      | (.ok (.done verdict), t) => (rise below (fun _ => pure (.done verdict)) path).play t
      | (.error fault, t) => (.error fault, t) := by
  induction below generalizing path with
  | nil =>
    rw [rise, List.map_nil, List.append_nil]
    rcases (above path).play s with ⟨fault | (verdict | frames), t⟩ <;> rfl
  | cons frame below ih =>
    obtain ⟨node, progress, deadline⟩ := frame
    rw [rise, play_bind, ih, List.map_cons, Frame.node, ← List.append_cons]
    rcases (above (path ++ node.id :: below.map fun frame => frame.node.id)).play s with ⟨fault | (verdict | frames), t⟩
    · rfl
    · exact (play_bind _ _ t).symm
    · rfl

/-- What a Parallel node decides after a pass over its children. -/
theorem Visit.play_parallel {visit : Visit}
    (begun : ∀ progress ∈ visit.progress, ∃ branches, progress = .branches branches) (s : Scene) :
    visit.parallel.play s =
      (((runTasks visit.path.length visit.tasks).play s).1.map fun branches =>
          if branches.all isSettled then .success else .keep (.branches branches),
        ((runTasks visit.path.length visit.tasks).play s).2) := by
  have ran : visit.parallel.play s = (do
      let branches ← runTasks visit.path.length visit.tasks
      return if branches.all isSettled then Step.success else .keep (.branches branches)).play s := by
    rw [parallel]
    rcases progress : visit.progress with _ | progress
    · rfl
    · obtain ⟨branches, rfl⟩ := begun _ progress
      rfl
  rw [ran, bind_pure_comp, play_map]

section

variable {node : Node} (kind : node.kind = .parallel)

include kind

/-- What comes of an execution of a Parallel node. -/
theorem play_execute_parallel {progress : Option Progress} (begun : ∀ p ∈ progress, ∃ branches, p = .branches branches)
    (tasks : List Task) (path : Path) (s : Scene) :
    (Descent.onStack node progress tasks (path ++ [node.id])).execute.play s =
      node.attend [] ((Visit.runTasks (path.length + 1) tasks).play (s.entered node path.length)) := by
  have length : (path ++ [node.id]).length = path.length + 1 := by simp
  have ran : (Descent.onStack node progress tasks (path ++ [node.id])).run =
      (Descent.onStack node progress tasks (path ++ [node.id])).parallel := by
    rw [Visit.run]
    simp only [Descent.onStack, kind]
  rw [Visit.play_execute, ran, Visit.play_parallel begun]
  simp only [Descent.onStack, length, Nat.add_sub_cancel]
  rcases (Visit.runTasks (path.length + 1) tasks).play (s.entered node path.length) with ⟨fault | branches, t⟩
  · rfl
  · simp only [Except.map, Node.attend]
    by_cases all : branches.all Visit.isSettled = true
    · rw [if_pos all, if_pos all]
      rfl
    · rw [if_neg all, if_neg all]
      rfl

/-- A Parallel node that is entered afresh ticks all of its children. -/
theorem pass_tick (path : Path) (s : Scene) :
    ∃ ended, Pass (path.length + 1) node.children node.unbegun (s.entered node path.length) ended ∧
      (node.tick path).play s = node.attend [] ended := by
  refine ⟨_, pass_runTasks _ (List.length_map _) _, ?_⟩
  rw [Descent.tick_execute, ← branchTasks_unbegun, play_execute_parallel kind (by rintro _ ⟨⟩)]

/-- One that goes on executes those that have not completed. -/
theorem pass_resumed {branches : List Branch} (all : branches.length = node.children.length) (path : Path) (s : Scene) :
    ∃ ended, Pass (path.length + 1) node.children branches (s.entered node path.length) ended ∧
      (resumed node (.branches branches) (path ++ [node.id])).play s = node.attend [] ended := by
  refine ⟨_, pass_runTasks _ all _, ?_⟩
  rw [resumed, play_execute_parallel kind]
  · rfl
  · rintro _ ⟨⟩
    exact ⟨branches, rfl⟩

end

/-! ### Turns -/

/-- There is a branch for each child. -/
theorem BranchesStand.length_eq {branches : List Branch} {nodes : List Node} (stand : BranchesStand branches nodes) :
    branches.length = nodes.length := by
  induction nodes generalizing branches with
  | nil =>
    rcases branches with _ | ⟨branch, branches⟩
    · rfl
    · exact stand.elim
  | cons child nodes ih =>
    rcases branches with _ | ⟨branch, branches⟩
    · exact stand.elim
    · exact congrArg Nat.succ (ih stand.2)

/-- The frames below a Parallel node wait for it, or go on once it has succeeded. -/
theorem Node.attend_below (node : Node) (below : List Frame) (ended : Except Fault (List Branch) × Scene) :
    (match node.attend [] ended with
      | (.ok (.running frames), t) => (.ok (.running (below ++ frames)), t)
      | (.ok (.done verdict), t) => (rise below (fun _ => pure (.done verdict)) []).play t
      | (.error fault, t) => (.error fault, t)) = node.attend below ended := by
  rcases ended with ⟨fault | branches, t⟩
  · rfl
  · rw [attend, attend]
    by_cases all : branches.all Visit.isSettled = true
    · rw [if_pos all, if_pos all]
      rfl
    · rw [if_neg all, if_neg all]
      rfl

/-- A Parallel node on top of a stack that is resumed. -/
structure Turn.Attends (turn : Turn) (runner : Runner) (ctx : Context) (below : List Frame) (node : Node)
    (branches : List Branch) (ended : Except Fault (List Branch) × Scene) : Prop where
  /-- There is one branch for each child, and what runs in it are that child and nodes below that. -/
  stand : BranchesStand branches node.children
  pass : Pass (below.length + 1) node.children branches (turn.scene.entered node below.length) ended
  played : turn.played = node.attend below ended
  /-- The stack of a branch that runs is resumed in the scene that the branches before it have left. -/
  turns : ∀ i stack ticked t, branches[i]? = some (.active stack) →
    (Visit.runTasks (below.length + 1) ((branchTasks (node.children.map Node.tick) branches).take i)).play
      (turn.scene.entered node below.length) = (.ok ticked, t) → ∃ since, runner.Resumes ctx ⟨stack, t, since⟩

theorem lasting_lived : Lasting LivedAll where
  none _ := Descent.livedAll_nil
  tick nodup log state s before :=
    ((Descent.lives _ nodup).call nodup 0 state [] .nothing s s before).mono fun _ _ lived _ same => by
      subst same
      exact lived

namespace Runner

variable {runner : Runner} {ctx : Context} {turn : Turn}

/-- A Parallel node in a stack that is resumed is on top of it, and attends to its branches unless a deadline below it
has come. -/
theorem Upright.attends (upright : runner.Upright) (resumes : runner.Resumes ctx turn) {below above : List Frame}
    {node : Node} {progress : Progress} {deadline : Option Float}
    (layers : turn.stack = below ++ .mk node progress deadline :: above) (kind : node.kind = .parallel)
    (outermost : ∀ frame ∈ below, frame.isDue turn.now = false) :
    above = [] ∧ deadline = none ∧
      ∃ branches ended, progress = .branches branches ∧ turn.Attends runner ctx below node branches ended := by
  obtain ⟨-, keeps, stand, -⟩ := (upright.resumes resumes).layer layers
  rw [kind] at keeps
  obtain ⟨⟨branches, rfl⟩, rfl, rfl⟩ := keeps
  have early : ∀ frame ∈ turn.stack, frame.isDue turn.now = false := by
    rw [layers]
    exact List.forall_mem_append.mpr ⟨outermost, List.forall_mem_singleton.mpr rfl⟩
  obtain ⟨ended, pass, attends⟩ :=
    pass_resumed kind stand.length_eq (below.map fun frame => frame.node.id) turn.scene
  rw [List.length_map] at pass
  refine ⟨rfl, rfl, branches, ended, rfl, stand, pass, ?_, fun i stack ticked t here before => ?_⟩
  · have timeless : (none : Option Float).any (· ≤ turn.scene.context.clock) = false := rfl
    rw [turn.played_eq layers outermost, play_rise, List.nil_append, Descent.resumeAt_top timeless, attends,
      Node.attend_below]
  · exact ⟨_, resumes.goesOn, resumes.busy, resumes.turns.tail (.branch early layers here before)⟩

/-- In whatever state a runner of a loaded tree is, each run that reaches a Parallel node executes the children that
have not completed, in order and on stacks of their own: afresh when the node is entered afresh, and on from what they
have left when it goes on. The node succeeds when all have completed, and the frames below it stay as they are. The
branches on the stack are what has become of the children since the node was last entered afresh, and until it is
entered again, a child that has completed is not ticked and keeps its verdict. -/
theorem branches_attended (source : Source) (cache : ExprCache) (name : String) (strict : Bool) (tree : Tree)
    (loaded : (source.load Registry.builtin cache name strict).1 = .ok tree) (caller : Nat) (target : Target)
    (debug : Bool) (before : Context) (actions : List HostAction) :
    let start := Runner.new tree (.newWith caller target debug)
    let runner := (start.performAll before actions).1
    (∀ node ∈ tree.root.preorder, node.kind = .parallel → ∀ path s, ∃ ended,
        Pass (path.length + 1) node.children node.unbegun (s.entered node path.length) ended ∧
          (node.tick path).play s = node.attend [] ended) ∧
      (∀ ctx turn, runner.Resumes ctx turn → ∀ below node progress deadline above,
        turn.stack = below ++ .mk node progress deadline :: above → node.kind = .parallel →
          (∀ frame ∈ below, frame.isDue turn.now = false) → above = [] ∧ deadline = none ∧
            ∃ branches ended, progress = .branches branches ∧ turn.Attends runner ctx below node branches ended) ∧
      LivedAll (start.journal before actions) (stackFrames runner.actor.stack) ∧
      ∀ ctx more node (branches after : List Branch) deadline deadline',
        .mk node (.branches branches) deadline ∈ stackFrames runner.actor.stack →
          .mk node (.branches after) deadline' ∈ stackFrames (runner.performAll ctx more).1.actor.stack →
            (∀ call ∈ runner.journal ctx more, call.node.id = node.id → call.state ≠ none) →
              ∀ (i : Nat) child verdict, node.children[i]? = some child → branches[i]? = some (.settled verdict) →
                after[i]? = some (.settled verdict) ∧ ticksOf child (runner.journal ctx more) = [] := by
  intro start runner
  obtain ⟨admitted, nodup⟩ := source.admitted_load cache name strict loaded
  have fresh : start.Ready _ := ⟨⟨admitted, nodup⟩, _, Descent.Walker.valid_new tree caller target debug, rfl⟩
  have begun : LivedAll [] (stackFrames start.actor.stack) := Descent.livedAll_nil
  have ready : runner.Ready _ := fresh.performAll before actions
  have lived := fresh.lasting_performAll lasting_lived begun before actions
  have upright : runner.Upright :=
    Source.upright_load (fun _ _ => Registry.hosted_builtin) loaded caller target debug before actions
  refine ⟨fun node _ kind => pass_tick kind, fun ctx turn resumes below node progress deadline above layers kind =>
    upright.attends resumes layers kind, lived, ?_⟩
  intro ctx more node branches after deadline deadline' here later others i child verdict inside settled
  have onward := ready.lasting_performAll lasting_lived lived ctx more
  exact (lived _ here branches rfl).onward (onward _ later after rfl) others inside settled

end Runner

/-! ### Chores -/

/-- Does one thing at once, another one until it cannot be done any more, and listens for a call beside them. -/
def choresSource : Source :=
  [{ name := "chores"
     root :=
      { name := "Parallel"
        children :=
          [{ name := "Clear" },
            { name := "RepeatUntilFailure", children := [{ name := "Once", children := [{ name := "Clear" }] }] },
            { name := "ListenTree", args := [("event", .text "call")], children := [{ name := "Clear" }] }] } }]

namespace chores

/-- Repeats a Once node until it refuses to be done again. -/
def tries : Node :=
  { id := 3, kind := .repeatUntil .failure, name := "RepeatUntilFailure", desc := "", args := [], input := []
    output := []
    children :=
      [{ id := 4, kind := .once, name := "Once", desc := "", args := [], input := [], output := []
         children := [clearLeaf 5] }] }

/-- A node that listens for a call. -/
def awake : Node :=
  { id := 6, kind := .listenTree, name := "ListenTree", desc := "", args := [("event", .text "call")], input := []
    output := [], children := [clearLeaf 7] }

end chores

def chores : Tree where
  name := "chores"
  desc := ""
  root :=
    { id := 1, kind := .parallel, name := "Parallel", desc := "", args := [], input := [], output := []
      children := [clearLeaf 2, chores.tries, chores.awake] }

theorem load_chores : choresSource.load Registry.builtin [] "chores" true = (.ok chores, []) := by
  cbv

namespace chores

/-- The call is awaited, and the first thing is done. -/
def branches (second : Branch) : List Branch :=
  [.settled .success, second, .active [.mk awake (.listening 1 false) none]]

/-- The chores after their first run. -/
def begun : Runner :=
  ((Runner.new chores (.newWith 1 .everyone false)).performAll (.new Registry.builtin) [.run]).1

/-- The context that the first run of the chores leaves. -/
def context : Context := ((Runner.new chores (.newWith 1 .everyone false)).performAll (.new Registry.builtin) [.run]).2

theorem stack_begun : begun.actor.stack =
    [.mk chores.root (.branches (branches (.active [.mk tries (.attempt 1 false) none]))) none] := by
  rfl

theorem stack_later : (begun.performAll context [.run]).1.actor.stack =
    [.mk chores.root (.branches (branches (.settled .success))) none] := by
  rfl

/-- The root goes on in the second run. -/
theorem others : ∀ call ∈ begun.journal context [.run], call.node.id = 1 → call.state ≠ none := by
  intro call member same
  change call ∈ begun.calls context ++ [] at member
  rw [List.append_nil, Runner.calls] at member
  split at member
  · cases member
  · rcases List.mem_cons.mp member with rfl | within
    · change restore begun.actor.stack ≠ none
      rw [stack_begun]
      exact Option.some_ne_none _
    · have below := Descent.id_calls _ _ _ _ call within
      rw [same] at below
      exact absurd below (by decide)

end chores

/-- The first thing is not done again in the second run. -/
theorem Runner.branches_attended_chores :
    (choresSource.load Registry.builtin [] "chores" true).1 = .ok chores ∧
      ticksOf (clearLeaf 2) (chores.begun.journal chores.context [.run]) = [] := by
  have loaded := congrArg Prod.fst load_chores
  refine ⟨loaded, ?_⟩
  obtain ⟨-, -, -, lasts⟩ := Runner.branches_attended _ _ _ _ _ loaded 1 .everyone false (.new Registry.builtin) [.run]
  have here := subset_stackFrames _ (chores.stack_begun ▸ List.mem_cons_self)
  have later := subset_stackFrames _ (chores.stack_later ▸ List.mem_cons_self)
  exact (lasts chores.context [.run] _ _ _ none none here later chores.others 0 (clearLeaf 2) .success rfl rfl).2

end BehaviorTree
