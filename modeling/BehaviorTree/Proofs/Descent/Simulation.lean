import BehaviorTree.Proofs.Descent.Composite
import BehaviorTree.Proofs.Descent.Decorator
import BehaviorTree.Proofs.Descent.Sound

/-!
Ticking a stack from its innermost frame outward is ticking by descent from the root. The frames of
a sound state are resumed to the report of the state: a frame whose child has completed does what
its node does when it heeds the child's verdict, a deadline that cuts the stack is one that the
descent meets on its way, and a Parallel node resumes its stacks as it ticks its children.
-/

namespace BehaviorTree.Descent

variable {node : Node} {path : Path} {tasks : List Task}

/-! ### Decisions -/

section

variable (agree : Agree node.children) (shaped : node.Shaped)
  (builtin : ∀ child ∈ node.children, child.Every IsBuiltin)

include agree shaped builtin

/-- On a fresh tick a node decides by the move that it begins with. -/
theorem run_start (alone : node.kind ≠ .parallel) :
    (onStack node none tasks path).run =
      start (visitAt node path) node.kind >>= decision node path := by
  have decorated (role : node.kind.declaration.role = .decorator) := shaped.only_child role
  -- The two nodes that listen and the two that iterate go first, each pair as one.
  by_cases listens : Listens node
  · obtain ⟨child, only⟩ := listens.only_child shaped
    exact listen_start agree listens only (builtin child (by simp [only]))
  by_cases iterates : Iterates node
  · exact iterate_start agree iterates
  cases kind : node.kind with
  | sequence =>
    simp only [Visit.run, onStack, kind]
    exact runUntil_start agree (.inl ⟨kind, rfl⟩)
  | selector =>
    simp only [Visit.run, onStack, kind]
    exact runUntil_start agree (.inr ⟨kind, rfl⟩)
  | parallel => exact absurd kind alone
  | ifElse =>
    simp only [Visit.run, onStack, kind]
    exact ifElse_start agree kind shaped
  | loop => exact absurd (.inl kind) iterates
  | foreach => exact absurd (.inr kind) iterates
  | inverter =>
    obtain ⟨child, only⟩ := decorated (by rw [kind]; rfl)
    rw [← kind, mapVerdict_start agree (.inl ⟨kind, rfl⟩) only]
  | alwaysSuccess =>
    obtain ⟨child, only⟩ := decorated (by rw [kind]; rfl)
    rw [← kind, mapVerdict_start agree (.inr (.inl ⟨kind, rfl⟩)) only]
  | alwaysFail =>
    obtain ⟨child, only⟩ := decorated (by rw [kind]; rfl)
    rw [← kind, mapVerdict_start agree (.inr (.inr ⟨kind, rfl⟩)) only]
  | alwaysRunning =>
    obtain ⟨child, only⟩ := decorated (by rw [kind]; rfl)
    simp only [Visit.run, onStack, kind]
    exact alwaysRunning_enter agree kind only (.inl rfl)
  | assert =>
    obtain ⟨child, only⟩ := decorated (by rw [kind]; rfl)
    simp only [Visit.run, onStack, kind]
    exact assert_start agree kind only
  | repeatUntil wanted =>
    obtain ⟨child, only⟩ := decorated (by rw [kind]; cases wanted <;> rfl)
    simp only [Visit.run, onStack, kind]
    exact repeatUntil_enter agree kind only 0 (.inl ⟨rfl, rfl⟩)
  | timeout =>
    obtain ⟨child, only⟩ := decorated (by rw [kind]; rfl)
    simp only [Visit.run, onStack, kind]
    exact (timeout_start agree kind only).trans (by rw [kind])
  | delay =>
    obtain ⟨child, only⟩ := decorated (by rw [kind]; rfl)
    simp only [Visit.run, onStack, kind]
    exact (delay_start agree kind only).trans (by rw [kind])
  | once =>
    obtain ⟨child, only⟩ := decorated (by rw [kind]; rfl)
    simp only [Visit.run, onStack, kind]
    exact (once_start agree kind only).trans (by rw [kind])
  | listen => exact absurd (.inl kind) listens
  | listenTree => exact absurd (.inr kind) listens
  | wait =>
    simp only [Visit.run, onStack, kind]
    exact (wait_start kind).trans (by rw [kind])
  | extension e => exact absurd kind (shaped.builtin e)
  | check | isNull | notNull | isStatus | calculate | constant | push | clear | log | now =>
    rw [← kind]
    exact leaf_start (by rw [kind]; rfl)

/-- A node that rests goes on by the move for what it remembers. -/
theorem run_goOn {memory : Memory} (rests : RestsWith node.kind memory) :
    (onStack node (some (progressAt node.kind memory)) tasks path).run =
      goOn (visitAt node path) node.kind memory >>= decision node path := by
  have decorated (role : node.kind.declaration.role = .decorator) := shaped.only_child role
  by_cases listens : Listens node
  · obtain ⟨child, only⟩ := listens.only_child shaped
    obtain ⟨listener, rfl, progress⟩ := listens.rests rests
    rw [progress]
    exact listen_goOn agree listens only (builtin child (by simp [only])) listener
  by_cases iterates : Iterates node
  · obtain ⟨it, rfl, progress⟩ := iterates.rests rests
    rw [progress]
    exact iterate_goOn agree iterates it
  cases kind : node.kind with
  | loop => exact absurd (.inl kind) iterates
  | foreach => exact absurd (.inr kind) iterates
  | alwaysRunning =>
    rw [kind] at rests
    obtain ⟨child, only⟩ := decorated (by rw [kind]; rfl)
    cases memory with
    | nothing =>
      simp only [Visit.run, onStack, kind]
      exact alwaysRunning_enter agree kind only (.inr rfl)
    | _ => exact rests.elim
  | repeatUntil wanted =>
    rw [kind] at rests
    obtain ⟨child, only⟩ := decorated (by rw [kind]; cases wanted <;> rfl)
    cases memory with
    | attempts count =>
      simp only [Visit.run, onStack, kind]
      exact repeatUntil_enter agree kind only count (.inr rfl)
    | _ => exact rests.elim
  | delay =>
    rw [kind] at rests
    obtain ⟨child, only⟩ := decorated (by rw [kind]; rfl)
    cases memory with
    | «until» time =>
      simp only [Visit.run, onStack, kind]
      exact delay_goOn agree kind only time
    | _ => exact rests.elim
  | listen => exact absurd (.inl kind) listens
  | listenTree => exact absurd (.inr kind) listens
  | wait =>
    rw [kind] at rests
    cases memory with
    | «until» time =>
      simp only [Visit.run, onStack, kind]
      exact wait_goOn kind time
    | _ => exact rests.elim
  | _ =>
    rw [kind] at rests
    cases memory <;> exact rests.elim

/-- A node whose child has completed does what it does when it heeds the child's verdict, unless its
deadline has come. -/
theorem run_heed {memory : Memory} {i : Nat} (waits : WaitsWith node.kind memory i) {s : Scene}
    {verdict : Verdict} (reported : s.actor.last = verdict.status)
    (once : node.kind = .once → node.id ∉ s.actor.completed)
    (early : ∀ time ∈ armed? node.kind memory, ¬ time ≤ s.context.clock) :
    (onStack node (some (progressOver node.kind memory i)) tasks path).run.play s =
      (heed (visitAt node path) node.kind memory i verdict >>= decision node path).play s := by
  -- Listening and iterating nodes heed by one rule each, whatever their kind; the others go kind by kind.
  by_cases listens : Listens node
  · obtain ⟨child, only⟩ := listens.only_child shaped
    obtain ⟨listener, rfl, progress⟩ := listens.waits waits
    rw [progress]
    exact listen_heed agree listens only (builtin child (by simp [only])) listener i reported
  by_cases iterates : Iterates node
  · obtain ⟨it, rfl, underWay, progress⟩ := iterates.waits waits
    rw [progress]
    exact iterate_heed tasks agree iterates it underWay i reported
  cases kind : node.kind with
  | sequence =>
    rw [kind] at waits
    cases memory with
    | nothing =>
      simp only [Visit.run, onStack, kind]
      exact (runUntil_heed agree (.inl ⟨kind, rfl⟩) i reported).trans (by rw [kind])
    | _ => exact waits.elim
  | selector =>
    rw [kind] at waits
    cases memory with
    | nothing =>
      simp only [Visit.run, onStack, kind]
      exact (runUntil_heed agree (.inr ⟨kind, rfl⟩) i reported).trans (by rw [kind])
    | _ => exact waits.elim
  | ifElse =>
    rw [kind] at waits
    cases memory with
    | nothing =>
      simp only [Visit.run, onStack, kind]
      exact (ifElse_heed agree kind shaped i reported).trans (by rw [kind])
    | _ => exact waits.elim
  | loop => exact absurd (.inl kind) iterates
  | foreach => exact absurd (.inr kind) iterates
  | inverter => rw [← kind, mapVerdict_heed (.inl ⟨kind, rfl⟩) memory i _ reported]
  | alwaysSuccess => rw [← kind, mapVerdict_heed (.inr (.inl ⟨kind, rfl⟩)) memory i _ reported]
  | alwaysFail => rw [← kind, mapVerdict_heed (.inr (.inr ⟨kind, rfl⟩)) memory i _ reported]
  | alwaysRunning =>
    simp only [Visit.run, onStack, kind]
    exact (alwaysRunning_heed kind memory i reported).trans (by rw [kind])
  | assert =>
    simp only [Visit.run, onStack, kind]
    exact (assert_heed kind memory i _ reported).trans (by rw [kind])
  | repeatUntil wanted =>
    rw [kind] at waits
    cases memory with
    | attempts count =>
      simp only [Visit.run, onStack, kind]
      exact (repeatUntil_heed kind count i reported).trans (by rw [kind])
    | _ => exact waits.elim
  | timeout =>
    rw [kind] at waits early
    cases memory with
    | «until» time =>
      simp only [Visit.run, onStack, kind]
      exact (timeout_heed kind _ i (early time rfl) reported).trans (by rw [kind])
    | _ => exact waits.elim
  | delay =>
    simp only [Visit.run, onStack, kind]
    exact (delay_heed kind memory i reported).trans (by rw [kind])
  | once =>
    simp only [Visit.run, onStack, kind]
    exact (once_heed kind _ memory i (once kind) reported).trans (by rw [kind])
  | listen => exact absurd (.inl kind) listens
  | listenTree => exact absurd (.inr kind) listens
  | _ =>
    rw [kind] at waits
    cases memory <;> exact waits.elim

end

/-! ### Executions -/

@[simp] theorem outcome_step (node : Node) (report : Report) {progress : Option Progress}
    {tasks : List Task} {path : Path} :
    (onStack node progress tasks path).outcome (Report.step node report) = Report.outcome node report := by
  cases report with
  | done verdict => rfl
  | running state => cases state <;> simp [Report.step, Report.outcome, Visit.outcome, frames, onStack, Step.keep]

@[simp] theorem outcome_status (node : Node) (report : Report) :
    (Report.outcome node report).status = report.status := by
  cases report <;> rfl

@[simp] theorem noteDebug_clock (s : Scene) (n : Note) :
    (s.noteDebug n).context.clock = s.context.clock := by
  unfold Scene.noteDebug
  split <;> rfl

/-- A node that decides alike is executed alike. -/
theorem execute_of_run {progress : Option Progress} {x : TickM Report} {s : Scene}
    (h : ∀ t, t.actor = s.actor → t.context.clock = s.context.clock →
      (onStack node progress tasks path).run.play t = (Report.step node <$> x).play t) :
    (onStack node progress tasks path).execute.play s =
      (Report.outcome node <$> act (visitAt node path) x).play s := by
  rw [Visit.execute, act, map_bind]
  refine TickM.play_bind_congr fun _ t noted => ?_
  have same : t = s.noteDebug (.entered node.name node.id (path.length - 1)) := by
    cases noted
    rfl
  have decided := h t (by rw [same, noteDebug_actor]) (by rw [same, noteDebug_clock])
  rw [map_bind, TickM.play_bind, decided, TickM.play_map, TickM.play_bind]
  rcases x.play t with ⟨fault | report, u⟩
  · rfl
  · simp only [Except.map, outcome_step, outcome_status, map_bind, map_pure]
    rfl

/-! ### Stacks -/

theorem tickAll_map : ∀ nodes : List Node, Node.tickAll nodes = nodes.map Node.tick
  | [] => rfl
  | _ :: rest => by rw [Node.tickAll, tickAll_map rest, List.map_cons]

theorem tick_execute (node : Node) (path : Path) :
    node.tick path = (onStack node none ((node.children.map Node.tick).map .pending)
      (path ++ [node.id])).execute := by
  obtain ⟨id, kind, name, desc, args, input, output, children⟩ := node
  rw [Node.tick, tickAll_map]
  rfl

/-- Resumes a stack below the nodes of a path. -/
def resumeAt (stack : List Frame) : BehaviorTree.Ticker := fun path => do
  resumeFrom stack (← expireDeadlines stack) path

section

variable {progress : Progress} {deadline : Option Float} {above : List Frame} {s : Scene}

/-- The frame of a node, executed again. -/
def resumed (node : Node) (progress : Progress) (path : Path) : TickM Outcome :=
  (onStack node (some progress) (resumeTasks (node.children.map Node.tick) progress) path).execute

theorem resumeFrom_zero :
    resumeFrom (.mk node progress deadline :: above) 0 path =
      resumed node progress (path ++ [node.id]) := by
  rw [resumeFrom, tickAll_map]
  rfl

theorem resumeFrom_succ (below : Nat) :
    resumeFrom (.mk node progress deadline :: above) (below + 1) path =
      (resumeFrom above below (path ++ [node.id]) >>= fun
        | .running frames => return .running (.mk node progress deadline :: frames)
        | .done _ => resumed node progress (path ++ [node.id])) := by
  rw [resumeFrom, tickAll_map]
  rfl

theorem isDue_eq (now : Float) :
    Frame.isDue now (.mk node progress deadline) = deadline.any (· ≤ now) := by
  cases deadline <;> rfl

/-- A frame whose deadline has come drops all above it. -/
theorem resumeAt_due (due : deadline.any (· ≤ s.context.clock) = true) :
    (resumeAt (.mk node progress deadline :: above) path).play s =
      (do
        TickM.noteDebug (.deadlineExpired node.name (← TickM.now))
        release (stackListeners above)
        resumed node progress (path ++ [node.id]) : TickM Outcome).play s := by
  have found : (Frame.mk node progress deadline :: above).findIdx? (Frame.isDue s.context.clock) =
      some 0 := by
    rw [List.findIdx?_cons, isDue_eq, due]
    rfl
  rw [resumeAt, expireDeadlines, bind_assoc, TickM.play_bind_ok (TickM.play_now s),
    TickM.play_bind_ok (TickM.play_now s), found]
  simp only [bind_assoc, pure_bind, resumeFrom_zero]
  rfl

/-- A frame with nothing above it is executed again. -/
theorem resumeAt_top (early : deadline.any (· ≤ s.context.clock) = false) :
    (resumeAt [.mk node progress deadline] path).play s =
      (resumed node progress (path ++ [node.id])).play s := by
  have found : [Frame.mk node progress deadline].findIdx? (Frame.isDue s.context.clock) = none := by
    rw [List.findIdx?_cons, isDue_eq, early]
    rfl
  rw [resumeAt, expireDeadlines, bind_assoc, TickM.play_bind_ok (TickM.play_now s), found]
  simp only [List.length_singleton, Nat.sub_self, pure_bind, resumeFrom_zero]

/-- A frame waits for what is above it to complete. -/
theorem resumeAt_cons (early : deadline.any (· ≤ s.context.clock) = false) (waits : above ≠ []) :
    (resumeAt (.mk node progress deadline :: above) path).play s =
      (resumeAt above (path ++ [node.id]) >>= fun
        | .running frames => return .running (.mk node progress deadline :: frames)
        | .done _ => resumed node progress (path ++ [node.id])).play s := by
  have found : (Frame.mk node progress deadline :: above).findIdx? (Frame.isDue s.context.clock) =
      (above.findIdx? (Frame.isDue s.context.clock)).map (· + 1) := by
    rw [List.findIdx?_cons, isDue_eq, early]
    rfl
  rw [resumeAt, resumeAt, expireDeadlines, expireDeadlines, bind_assoc, bind_assoc, bind_assoc,
    TickM.play_bind_ok (TickM.play_now s), TickM.play_bind_ok (TickM.play_now s), found]
  rcases above.findIdx? (Frame.isDue s.context.clock) with _ | i
  · obtain ⟨below, count⟩ := Nat.exists_eq_add_of_le' (List.length_pos_of_ne_nil waits)
    simp only [Option.map_none, List.length_cons, Nat.add_sub_cancel, pure_bind, count]
    rw [resumeFrom_succ]
  · simp only [Option.map_some, List.getElem?_cons_succ, List.drop_succ_cons, bind_assoc, pure_bind,
      resumeFrom_succ]

end

/-! ### Children beside each other -/

/-- The stack of a sound state is resumed as the state is ticked. -/
def Resumes (node : Node) : Prop :=
  ∀ (state : Active) (path : Path) (s : Scene), Sound s.actor.completed node state →
    (resumeAt (frames node state) path).play s =
      (Report.outcome node <$> tick node (some state) path).play s

/-- What is left to do for a child of a Parallel node. -/
def taskOf (node : Node) : Option Share → Task
  | none => .pending node.tick
  | some (.settled verdict) => .settled verdict
  | some (.active state) => .pending (resumeAt (frames node state))

theorem pending_eq : ∀ nodes : List Node,
    (nodes.map Node.tick).map Task.pending = nodes.zipWith taskOf (nodes.map fun _ => none)
  | [] => rfl
  | _ :: rest => by
    simp only [List.map_cons, List.zipWith_cons_cons, pending_eq rest]
    rfl

/-- The task of a branch is that of the share it stands for. -/
theorem branchTask_eq (node : Node) (share : Share) :
    branchTask node.tick (branch node share) = taskOf node (some share) := by
  cases share with
  | settled verdict => simp only [branch, branchTask, taskOf]
  | active state =>
    rcases stack : frames node state with _ | ⟨frame, above⟩
    · exact absurd stack (frames_ne_nil node state)
    · simp only [branch, branchTask, taskOf, stack]
      rfl

/-- The tasks of the branches are those of the shares they stand for. -/
theorem branchTasks_eq : ∀ (nodes : List Node) (shares : List Share),
    branchTasks (nodes.map Node.tick) (branches nodes shares) =
      nodes.zipWith taskOf (shares.map some)
  | [], _ => by simp [branches, branchTasks]
  | _ :: _, [] => by simp [branches, branchTasks]
  | node :: nodes, share :: shares => by
    simp only [List.map_cons, branches, branchTasks, List.zipWith_cons_cons, branchTask_eq,
      branchTasks_eq nodes shares]

/-- A child of a Parallel node that is ticked on its own stack. -/
theorem runPending_play (visit : Visit) {run : BehaviorTree.Ticker} {state : Option Active} {s : Scene}
    (h : (run []).play s = (Report.outcome node <$> tick node state []).play s) (rest : List Task) :
    (Visit.runTasks visit.path.length (.pending run :: rest)).play s =
      (tickBeside visit (tick node) state >>= fun share => do
        return branch node share :: (← Visit.runTasks visit.path.length rest)).play s := by
  rw [Visit.runTasks, tickBeside, TickM.play_bind, TickM.play_tryCatch, h, TickM.play_map, bind_assoc,
    TickM.play_bind, TickM.play_tryCatch]
  rcases (tick node state []).play s with ⟨fault | report, t⟩
  · rfl
  · cases report with
    | done verdict =>
      simp only [Except.map, Report.outcome, Report.share, pure_bind, branch]
    | running state =>
      simp only [Except.map, Report.outcome, Report.share, pure_bind, branch]

/-- A task is run as the child is ticked. -/
theorem runTask_play (visit : Visit) (agree : ∀ path, node.tick path = Report.outcome node <$> tick node none path)
    (resumes : Resumes node) (share : Option Share) (s : Scene)
    (sound : ∀ a ∈ share, SoundShare s.actor.completed node a) (rest : List Task) :
    (Visit.runTasks visit.path.length (taskOf node share :: rest)).play s =
      (tickShare visit (tick node) share >>= fun share => do
        return branch node share :: (← Visit.runTasks visit.path.length rest)).play s := by
  rcases share with _ | (verdict | state)
  · exact runPending_play visit (congrArg (TickM.play · s) (agree [])) rest
  · simp only [taskOf, tickShare, Visit.runTasks, pure_bind, branch]
  · exact runPending_play visit (resumes state [] s (sound _ rfl)) rest

/-- The tasks of a Parallel node are run as its children are ticked. -/
theorem runTasks_play (visit : Visit) {nodes : List Node} (agree : Agree nodes)
    (resumes : ∀ child ∈ nodes, Resumes child) (nodup : (Node.idsAll nodes).Nodup)
    (builtin : ∀ child ∈ nodes, child.Every IsBuiltin) (shares : List (Option Share)) (s : Scene)
    (sound : SoundBefore s.actor.completed nodes shares) :
    (Visit.runTasks visit.path.length (nodes.zipWith taskOf shares)).play s =
      (branches nodes <$> tickShares visit (nodes.map tick) shares).play s := by
  induction nodes generalizing shares s with
  | nil =>
    cases sound
    simp [Visit.runTasks, tickShares, branches]
  | cons child rest ih =>
    cases sound with
    | cons first later =>
    rw [Node.idsAll, List.flatMap_cons, List.nodup_append] at nodup
    obtain ⟨childNodup, restNodup, apart⟩ := nodup
    have keeps := keepsSound child (builtin child List.mem_cons_self) childNodup
    rw [List.zipWith_cons_cons, runTask_play visit (agree child List.mem_cons_self)
      (resumes child List.mem_cons_self) _ s first, List.map_cons, tickShares, map_bind]
    refine TickM.play_bind_congr fun share t ticked => ?_
    obtain ⟨_, effects⟩ := tickShare_sound visit keeps _ s first share t ticked
    have untouched := SoundBefore.after later effects apart
    have others := ih (fun n member => agree n (List.mem_cons_of_mem _ member))
      (fun n member => resumes n (List.mem_cons_of_mem _ member)) restNodup
      (fun n member => builtin n (List.mem_cons_of_mem _ member)) _ t untouched
    rw [map_bind, TickM.play_bind, others, TickM.play_map, TickM.play_bind]
    rcases (tickShares visit (rest.map tick) _).play t with ⟨fault | shares, u⟩
    · rfl
    · simp only [Except.map, map_pure, branches]

/-- All branches are settled when all shares are. -/
theorem all_isSettled {completed : List Nat} : ∀ {nodes : List Node} {shares : List Share},
    SoundShares completed nodes shares →
      (branches nodes shares).all Visit.isSettled = shares.all isSettled
  | [], [], _ => by simp [branches]
  | node :: _, share :: _, ⟨_, rest⟩ => by
    have first : Visit.isSettled (branch node share) = isSettled share := by
      cases share <;> simp [branch] <;> rfl
    simp only [branches, List.all_cons, first, all_isSettled rest]

/-- A Parallel node decides on a stack as it does in the descent. -/
theorem parallel_play (kind : node.kind = .parallel) (agree : Agree node.children)
    (resumes : ∀ child ∈ node.children, Resumes child) (nodup : node.ids.Nodup)
    (builtin : ∀ child ∈ node.children, child.Every IsBuiltin)
    (shares : List (Option Share)) {progress : Option Progress}
    (begins : progress = none ∨ ∃ branches, progress = some (.branches branches)) {s : Scene}
    (sound : SoundBefore s.actor.completed node.children shares) :
    (onStack node progress (node.children.zipWith taskOf shares) path).run.play s =
      (Report.step node <$>
        tickAllBeside (visitAt node path) (node.children.map tick) shares).play s := by
  have ran := runTasks_play (visitAt node path) agree resumes (Node.nodup_idsAll_children nodup) builtin
    shares s sound
  have entered : (onStack node progress (node.children.zipWith taskOf shares) path).run =
      (Visit.runTasks path.length (node.children.zipWith taskOf shares) >>= fun branches =>
        return if branches.all Visit.isSettled then .success else .keep (.branches branches)) := by
    simp only [Visit.run, onStack, kind]
    rcases begins with rfl | ⟨branches, rfl⟩ <;> rfl
  rw [entered, TickM.play_bind, show path.length = (visitAt node path).path.length from rfl, ran,
    TickM.play_map, tickAllBeside, map_bind, TickM.play_bind]
  rcases ticked : (tickShares (visitAt node path) (node.children.map tick) shares).play s with
    ⟨fault | shares, t⟩
  · rfl
  · have keeps (child : Node) (member : child ∈ node.children) : KeepsSound child :=
      keepsSound child (builtin child member)
        (Node.nodup_ids_of_mem (Node.nodup_idsAll_children nodup) member)
    have sound := tickShares_sound (visitAt node path) (Node.nodup_idsAll_children nodup) keeps builtin _
      s sound shares t ticked
    simp only [Except.map, all_isSettled sound]
    split <;> simp [Report.step, Step.success]

/-! ### Nodes -/

theorem listeners_progressAt {kind : Kind} {memory : Memory} (rests : RestsWith kind memory) :
    (progressAt kind memory).listeners = Active.listeners.memoryListeners memory := by
  cases memory <;> cases kind <;> first | exact rests.elim | rfl

theorem listeners_progressOver {kind : Kind} {memory : Memory} {i : Nat}
    (waits : WaitsWith kind memory i) :
    (progressOver kind memory i).listeners = Active.listeners.memoryListeners memory := by
  cases memory <;> cases kind <;>
    first
      | exact waits.elim
      | rfl
      | (rw [progressOver]; split <;> rfl)

mutual

/-- The listeners in the stack of a sound state are those of the state. -/
theorem stackListeners_frames {completed : List Nat} : ∀ {node : Node} {state : Active},
    Sound completed node state → stackListeners (frames node state) = state.listeners
  | _, .resting _, rests => by
    simp only [frames, stackListeners, Frame.listeners, listeners_progressAt rests, Active.listeners,
      List.append_nil]
  | _, .over _ _ _, ⟨waits, _, _, here, sound⟩ => by
    simp only [frames, stackListeners, Frame.listeners, listeners_progressOver waits, here,
      Active.listeners, stackListeners_frames sound]
  | _, .beside _, ⟨_, sound⟩ => by
    simp only [frames, stackListeners, Frame.listeners, Progress.listeners, Active.listeners,
      branchListeners_branches sound, List.append_nil]

/-- The branches have the listeners of the shares. -/
theorem branchListeners_branches {completed : List Nat} : ∀ {nodes : List Node} {shares : List Share},
    SoundShares completed nodes shares →
      branchListeners (branches nodes shares) = shareListeners shares
  | [], [], _ => by simp only [branches, branchListeners, shareListeners]
  | _ :: _, .settled _ :: _, ⟨_, rest⟩ => by
    simp only [branches, branch, branchListeners, shareListeners, Branch.listeners, Share.listeners,
      branchListeners_branches rest]
  | _ :: _, .active _ :: _, ⟨first, rest⟩ => by
    simp only [branches, branch, branchListeners, shareListeners, Branch.listeners, Share.listeners,
      stackListeners_frames first, branchListeners_branches rest]

end

/-- Only a Timeout node arms a deadline. -/
theorem timeout_of_armed {kind : Kind} {memory : Memory} {time : Float}
    (armed : time ∈ armed? kind memory) : kind = .timeout ∧ memory = .until time := by
  cases memory with
  | «until» other =>
    rw [armed?] at armed
    split at armed
    · cases armed
      exact ⟨‹_›, rfl⟩
    · cases armed
  | _ => cases armed

/-- A node whose deadline has come gives up its child. -/
theorem visitNode_due (children : List Ticker) {memory : Memory} {i : Nat} {state : Active} {s : Scene}
    (due : (armed? node.kind memory).any (· ≤ s.context.clock) = true) :
    (visitNode (visitAt node path) children (some (.over memory i state))).play s =
      (expire (visitAt node path) state).play s := by
  rw [visitNode, TickM.play_bind_ok (TickM.play_now s), if_pos (by exact due)]

/-- Any other node has its active child ticked first. -/
theorem visitNode_early {children : List Ticker} {memory : Memory} {i : Nat} {state : Active} {s : Scene}
    (early : (armed? node.kind memory).any (· ≤ s.context.clock) = false) {tick : Ticker}
    (here : children[i]? = some tick) :
    (visitNode (visitAt node path) children (some (.over memory i state))).play s =
      (tick (some state) path >>= fun
        | .running state => do
          TickM.updateActor fun actor => { actor with last := .running }
          return .running (.over memory i state)
        | .done verdict => act (visitAt node path) do
          carryOut (visitAt node path) children
            (← heed (visitAt node path) node.kind memory i verdict)).play s := by
  have late : ¬ (armed? node.kind memory).any (· ≤ s.context.clock) = true :=
    Bool.eq_false_iff.mp early
  rw [visitNode, TickM.play_bind_ok (TickM.play_now s), if_neg (by exact late), here]
  rfl

/-- A frame whose deadline has come is executed to the failure of its node. -/
theorem resumed_due {memory : Memory} {i : Nat} {state : Active} {s : Scene}
    (due : (armed? node.kind memory).any (· ≤ s.context.clock) = true) :
    (do
      TickM.noteDebug (.deadlineExpired node.name (← TickM.now))
      release state.listeners
      resumed node (progressOver node.kind memory i) path : TickM Outcome).play s =
        (Report.outcome node <$> expire (visitAt node path) state).play s := by
  obtain ⟨time, armed, come⟩ := (Option.any_eq_true _ _).mp due
  obtain ⟨kind, rfl⟩ := timeout_of_armed armed
  have expired (t : Scene) (now : t.context.clock = s.context.clock) :
      (resumed node (progressOver node.kind (.until time) i) path).play t =
        (Report.outcome node <$> act (visitAt node path) do
          TickM.note (.timedOut node.name node.id)
          return .done .failure).play t := by
    refine execute_of_run fun u _ same => ?_
    simp only [kind, progressOver]
    simp only [Visit.run, onStack, kind]
    refine timeout_expire ?_
    rw [same, now]
    exact of_decide_eq_true come
  rw [expire]
  simp only [map_bind]
  rw [TickM.play_bind_ok (TickM.play_now s), TickM.play_bind_ok (TickM.play_now s)]
  refine TickM.play_bind_congr fun _ t noted => TickM.play_bind_congr fun _ u released => ?_
  refine expired u ?_
  have unhurried := ((changes_release state.listeners : Changes [] (release state.listeners)) t).clock
  rw [released] at unhurried
  cases noted
  rw [unhurried, noteDebug_clock]

/-- A frame waits for what is above it, then heeds its verdict. -/
theorem resumed_early (agree : Agree node.children) (shaped : node.Shaped)
    (builtin : ∀ child ∈ node.children, child.Every IsBuiltin) {memory : Memory} {i : Nat}
    (waits : WaitsWith node.kind memory i) {s : Scene} {verdict : Verdict}
    (reported : s.actor.last = verdict.status)
    (once : node.kind = .once → node.id ∉ s.actor.completed)
    (early : (armed? node.kind memory).any (· ≤ s.context.clock) = false) :
    (resumed node (progressOver node.kind memory i) path).play s =
      (Report.outcome node <$> act (visitAt node path) do
        carryOut (visitAt node path) (node.children.map tick)
          (← heed (visitAt node path) node.kind memory i verdict)).play s := by
  refine execute_of_run fun t same now => ?_
  rw [run_heed agree shaped builtin waits (by rw [same, reported])
    (by rw [same]; exact once), map_bind]
  · rfl
  · intro time armed come
    have due : (armed? node.kind memory).any (· ≤ s.context.clock) = true :=
      (Option.any_eq_true _ _).mpr ⟨time, armed, decide_eq_true (now ▸ come)⟩
    rw [early] at due
    cases due

section

variable (shaped : node.Every Node.Shaped) (nodup : node.ids.Nodup) (agree : Agree node.children)
  (resumes : ∀ child ∈ node.children, Resumes child)

include shaped nodup agree resumes

/-- A fresh tick on a stack is a fresh tick by descent. -/
theorem tick_of_children (path : Path) :
    node.tick path = Report.outcome node <$> tick node none path := by
  have builtin (child : Node) (member : child ∈ node.children) : child.Every IsBuiltin :=
    fun n inside => (shaped.child member n inside).builtin
  refine TickM.ext fun s => ?_
  rw [tick_execute, tick_eq, visitNode]
  split
  · rename_i kind
    refine execute_of_run fun t _ _ => ?_
    rw [pending_eq, List.map_map]
    exact parallel_play kind agree resumes nodup builtin _ (.inl rfl) (soundBefore_none _ _)
  · rename_i alone
    refine execute_of_run fun t _ _ => ?_
    rw [run_start agree shaped.self builtin alone, map_bind]
    rfl

theorem resumes_of_children : Resumes node := by
  have builtin (child : Node) (member : child ∈ node.children) : child.Every IsBuiltin :=
    fun n inside => (shaped.child member n inside).builtin
  intro state path s sound
  rw [tick_eq]
  rcases state with memory | ⟨memory, i, state⟩ | shares
  · rw [frames, resumeAt_top rfl, visitNode]
    refine execute_of_run fun t _ _ => ?_
    rw [run_goOn agree shaped.self builtin sound, map_bind]
    rfl
  · obtain ⟨waits, once, child, here, below⟩ := sound
    have member := List.mem_of_getElem? here
    have entered : (node.children.map tick)[i]? = some (tick child) := by
      rw [List.getElem?_map, here]
      rfl
    simp only [frames, here]
    rcases due : (armed? node.kind memory).any (· ≤ s.context.clock) with _ | _
    · rw [resumeAt_cons due (frames_ne_nil child state),
        TickM.play_bind_left (resumes child member state _ s below),
        TickM.play_map_left (visitNode_early due entered), bind_map_left, map_bind]
      refine TickM.play_bind_congr fun report t ticked => ?_
      have last := tick_last child (some state) (path ++ [node.id]) s report t ticked
      have effects := gives_effects (changes_tick child (builtin child member) (some state)
        (path ++ [node.id])) s report t ticked
      cases report with
      | running state =>
        -- A child that runs has reported so, and nothing is recorded for the nodes below it.
        have unchanged : (t.updateActor fun actor => { actor with last := .running }) = t := by
          rw [← show t.actor.last = .running from last]
          rfl
        rw [map_bind, TickM.play_bind_ok (TickM.play_updateActor _ t), unchanged]
        simp only [Report.outcome, frames, here, map_pure]
      | done verdict =>
        refine resumed_early agree shaped.self builtin waits last
          (fun kind => notMem_completed nodup member effects (once kind)) ?_
        rw [effects.clock]
        exact due
    · rw [resumeAt_due due, stackListeners_frames below, TickM.play_map_left (visitNode_due _ due)]
      exact resumed_due due
  · obtain ⟨kind, sound⟩ := sound
    rw [frames, resumeAt_top rfl, visitNode]
    refine execute_of_run fun t same _ => ?_
    rw [resumeTasks, branchTasks_eq]
    rw [← same] at sound
    exact parallel_play kind agree resumes nodup builtin _ (.inr ⟨_, rfl⟩) (soundBefore_some sound)

end

/-- Ticking by descent is what happens on the stack: afresh, and on from every sound state. -/
theorem simulated (node : Node) (shaped : node.Every Node.Shaped) (nodup : node.ids.Nodup) :
    (∀ path, node.tick path = Report.outcome node <$> tick node none path) ∧ Resumes node := by
  induction node using Node.induct with
  | step node ih =>
    have below (child : Node) (member : child ∈ node.children) := ih child member (shaped.child member)
      (Node.nodup_ids_of_mem (Node.nodup_idsAll_children nodup) member)
    have agree : Agree node.children := fun child member => (below child member).1
    have resumes (child : Node) (member : child ∈ node.children) := (below child member).2
    exact ⟨tick_of_children shaped nodup agree resumes, resumes_of_children shaped nodup agree resumes⟩

end BehaviorTree.Descent
