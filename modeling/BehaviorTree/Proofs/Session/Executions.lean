import BehaviorTree.Proofs.Session.Guarded

/-!
How often nodes are executed in one run. A run executes every node once at most, and once more for
every event that waited, when it began, for a listening node above it. That the run ends is not owed
to the bound on how many events a listening node handles: the loop stops when no event is left.
-/

namespace BehaviorTree

open Context (Wired Withstands)
open Descent (Active Agree Call Listens Pairing Report Share Sound frames handed onStack tick)
open TickM (Gives gives_bind gives_map gives_pure play_bind_ok play_context)

/-! ### Events and executions -/

namespace Context

theorem withstands_executions (id : Nat) (P : Nat → Prop) :
    Withstands (fun _ => True) fun ctx => P (ctx.executions id) where
  heeds _ _ _ _ _ _ _ _ _ := trivial
  heard tag args kept := by
    rw [executions_note]
    exact kept
  deliver listener args kept := kept
  request {ctx _ caller _} _ _ kept := by
    rw [request]
    split <;> exact kept
  on _ _ kept := kept
  off _ _ kept := kept
  offCaller _ _ kept := kept
  advance dt _ kept := kept

theorem executions_unsubscribeAll (id : Nat) (ctx : Context) (caller : Nat) :
    (ctx.unsubscribeAll caller).executions id = ctx.executions id := by
  rw [unsubscribeAll]
  generalize ((ctx.mailboxes.filter fun box => box.caller = caller).map Mailbox.listener) = listeners
  induction listeners generalizing ctx with
  | nil => rfl
  | cons listener rest ih => rw [List.foldl_cons, ih, executions_unsubscribe]

end Context

/-- How many events wait for the listening nodes on a stack that have a node below them. -/
def Context.waitingAbove (ctx : Context) (id : Nat) (stack : List Frame) : Nat :=
  (((stackHolds stack).filter fun h => id ∈ Node.idsAll h.node.children).map fun h =>
    (ctx.queue h.listener).length).sum

/-- Each event that waits for a node above counts once for it. -/
theorem Context.waiting_le_waitingAbove (ctx : Context) (id : Nat) {stack : List Frame}
    (nodup : ∀ h ∈ stackHolds stack, h.node.ids.Nodup) :
    ctx.waiting id ↑(stackHolds stack) ≤ ctx.waitingAbove id stack := by
  rw [Context.waiting, Context.waitingAbove, Multiset.map_coe, Multiset.sum_coe]
  generalize stackHolds stack = holds at nodup
  induction holds with
  | nil => exact Nat.le_refl _
  | cons h rest ih =>
    obtain ⟨first, later⟩ := List.forall_mem_cons.mp nodup
    rw [List.map_cons, List.sum_cons, List.filter_cons]
    split
    · have most := List.nodup_iff_count_le_one.mp (Node.nodup_idsAll_children first) id
      rw [List.map_cons, List.sum_cons]
      refine Nat.add_le_add (Nat.le_trans (Nat.mul_le_mul_right _ most) ?_) (ih later)
      exact Nat.le_of_eq (Nat.one_mul _)
    · rename_i outside
      have none := List.count_eq_zero.mpr (fun inside => outside (decide_eq_true inside))
      rw [Hold.waiting, none, Nat.zero_mul, Nat.zero_add]
      exact ih later

/-! ### Runs -/

namespace Runner

variable {runner : Runner} {cache : ExprCache} {ctx : Context}

theorem steady_executions (caller : Nat) (followers : List (Stage × Reaction)) (id : Nat) (P : Nat → Prop) :
    Steady caller followers fun ctx => P (ctx.executions id) where
  note other plain kept := by
    rw [Context.executions_note, plain id]
    exact kept
  obey _ _ kept := (Context.withstands_executions id P).obey (fun _ _ => trivial) kept
  dropRequest kept := kept
  unwind kept := by
    rw [Context.executions_unsubscribeAll]
    exact kept

/-- Listening nodes on the stack are nodes of the tree. -/
theorem Ready.below_stackHolds (ready : runner.Ready cache) :
    ∀ h ∈ stackHolds runner.actor.stack, h.node ∈ runner.tree.root.preorder := by
  intro h member
  rcases ready.restores with ⟨-, empty⟩ | ⟨state, -, sound, laid⟩
  · rw [empty] at member
    cases member
  · rw [laid, Descent.stackHolds_frames sound] at member
    exact Descent.mem_preorder_of_holds .due member

/-- Nothing waits for a runner that is not running, and nothing is done before others go on. -/
theorem waiting_opening (id : Nat) :
    (runner.opening ctx).context.waiting id ↑(stackHolds runner.actor.stack) =
      ctx.waiting id ↑(stackHolds runner.actor.stack) := by
  rw [Runner.opening]
  split
  · rename_i empty
    rw [List.isEmpty_iff.mp empty]
    rfl
  · rfl

/-- The ticks of a run execute a node once and once more for every event that waits above it. -/
theorem Ready.executions_ticks (ready : runner.Ready cache) (wired : ctx.Wired) (id : Nat) :
    (runner.tickNodes ctx).2.context.executions id ≤
      (runner.opening ctx).context.executions id + (1 + ctx.waitingAbove id runner.actor.stack) := by
  have ticked := Descent.frugal id runner.tree.root ready.shaped (restore runner.actor.stack) []
    (runner.opening ctx) (fun state member => (ready.sound state member).mono nofun) (opening_wired wired)
  rw [ready.holdsBefore_restore, waiting_opening] at ticked
  rw [ready.tickNodes_eq]
  refine Nat.le_trans ticked (Nat.add_le_add_left (Nat.add_le_add ?_ ?_) _)
  · exact List.nodup_iff_count_le_one.mp ready.tree.nodup id
  · exact ctx.waiting_le_waitingAbove id fun h member =>
      Node.nodup_ids_of_mem_preorder ready.tree.nodup (ready.below_stackHolds h member)

theorem Ready.caller_tickNodes (ready : runner.Ready cache) :
    (runner.tickNodes ctx).2.actor.caller = runner.actor.caller := by
  have builtin := ready.shaped.mono fun _ shaped => shaped.builtin
  rw [ready.tickNodes_eq]
  exact (Descent.changes_tick runner.tree.root builtin (restore runner.actor.stack) [] _).caller

/-- So does the run, since telling followers executes no node. -/
theorem Ready.executions_run (ready : runner.Ready cache) (wired : ctx.Wired) (id : Nat) :
    (runner.run ctx).2.2.executions id ≤
      ctx.executions id + (1 + ctx.waitingAbove id runner.actor.stack) := by
  have dropped : (ctx.dropRequest runner.actor.caller).Wired := wired.congr rfl rfl
  have opened : (runner.opening (ctx.dropRequest runner.actor.caller)).context.executions id ≤
      ctx.executions id :=
    (steady_executions runner.actor.caller runner.followers id (· ≤ ctx.executions id)).opening (Nat.le_refl _)
  exact (steady_executions runner.actor.caller runner.followers id (· ≤ _)).run (Nat.le_add_right _ _)
    ready.caller_tickNodes fun _ =>
      Nat.le_trans (ready.executions_ticks dropped id) (Nat.add_le_add_right opened _)

end Runner

/-! ### Watching a run -/

/-- The scene with the actor debugged, after other notes. -/
def Scene.watched (notes : List Note) (s : Scene) : Scene :=
  ⟨{ s.context with notes }, { s.actor with debug := true }⟩

/-- The runner with its actor debugged. -/
def Runner.watched (runner : Runner) : Runner :=
  { runner with actor := { runner.actor with debug := true } }

namespace Descent

theorem watched_noteDebug (notes : List Note) (n : Note) (s : Scene) :
    ∃ more, (s.watched notes).noteDebug n = (s.noteDebug n).watched more := by
  have debugged : (s.watched notes).actor.debug = true := rfl
  rcases debug : s.actor.debug with _ | _
  · exact ⟨notes ++ [n], by rw [Scene.noteDebug, if_pos debugged, Scene.noteDebug, debug]; rfl⟩
  · exact ⟨notes ++ [n], by rw [Scene.noteDebug, if_pos debugged, Scene.noteDebug, if_pos debug]; rfl⟩

theorem watched_unsubscribe (notes : List Note) (listener : Nat) (s : Scene) :
    (s.watched notes).unsubscribe listener = (s.unsubscribe listener).watched notes := by
  have same : ({ s.context with notes } : Context).unsubscribe listener =
      { s.context.unsubscribe listener with notes } := by
    have found : ({ s.context with notes } : Context).mailbox? listener = s.context.mailbox? listener := rfl
    rw [Context.unsubscribe, Context.unsubscribe, found]
    rcases s.context.mailbox? listener with _ | box <;> rfl
  exact congrArg (fun context => (⟨context, { s.actor with debug := true }⟩ : Scene)) same

/-- Nodes go the same way whether they are watched or not. -/
theorem pairing_watched :
    Pairing id fun _ _ s t => s.context.Wired ∧ ∃ notes, t = s.watched notes where
  alike := by
    rintro H log s t ⟨-, notes, rfl⟩
    exact ⟨rfl, rfl, rfl, rfl, rfl, rfl⟩
  queue := by
    rintro h H log s t ⟨-, notes, rfl⟩
    rfl
  next := by
    rintro H log s t ⟨-, notes, rfl⟩
    rfl
  recast vars completed last := by
    rintro ⟨wired, notes, rfl⟩
    exact ⟨wired, notes, rfl⟩
  note n := by
    rintro ⟨wired, notes, rfl⟩
    exact ⟨wired.congr rfl rfl, notes ++ [n], rfl⟩
  noteDebug {H log s t} n := by
    rintro ⟨wired, notes, rfl⟩
    exact ⟨wired_noteDebug n wired, watched_noteDebug notes n s⟩
  compile code := by
    rintro ⟨wired, notes, rfl⟩
    exact ⟨wired.congr rfl rfl, notes, rfl⟩
  call related _ := related
  unheard related := related.1.queue_fresh (Nat.lt_succ_self _)
  subscribe := by
    rintro H log s t call ⟨wired, notes, rfl⟩ - - - - -
    exact ⟨wired.subscribe _ _ _, notes, rfl⟩
  accept := by
    rintro node listener stance H log s t args rest call ⟨wired, notes, rfl⟩ - - - - - -
    obtain ⟨vars, written⟩ := Actor.writeArguments_eq node args
    refine ⟨wired.updateMailbox listener fun _ => rest, notes, ?_⟩
    exact congrArg (Scene.mk _) ((written _).trans (congrArg (fun actor => { actor with debug := true })
      (written s.actor).symm))
  settle related _ _ := related
  unsubscribe := by
    rintro h H log s t ⟨wired, notes, rfl⟩
    exact ⟨wired.unsubscribe _, notes, watched_unsubscribe notes h.listener s⟩

/-- A node that is watched does the same. -/
theorem tick_watched {node : Node} {state : Option Active} {path : Path} {s : Scene} (shaped : node.Every Node.Shaped)
    (sound : ∀ a ∈ state, Sound [] node a) (wired : s.context.Wired) (notes : List Note) :
    ∃ more, (tick node state path).play (s.watched notes) =
      (((tick node state path).play s).1, ((tick node state path).play s).2.watched more) := by
  have ticked := paired_tick pairing_watched node shaped ⟨0, node, state, path, .nothing, s, s⟩ 0 [_]
    (s.watched notes) rfl sound List.mem_cons_self ⟨wired, notes, rfl⟩
  simp only [show Active.rename id = id from funext Active.rename_id, Option.map_id, id_eq] at ticked
  unfold TickM.Abreast at ticked
  generalize (tick node state path).play s = left at ticked ⊢
  generalize (tick node state path).play (s.watched notes) = right at ticked ⊢
  cases ticked with
  | @values report other t u related =>
    obtain ⟨same, -, more, rfl⟩ := related
    rw [same, show report.rename id = report by cases report <;> simp [Report.rename, Active.rename_id]]
    exact ⟨more, rfl⟩
  | faults fault related =>
    obtain ⟨-, -, more, rfl⟩ := related
    exact ⟨more, rfl⟩

/-- Events are handled one after another: those that wait, and further ones up to a bound. -/
def handleWaiting (node : Node) (progress : Option Progress) (tasks : List Task) (path : Path)
    (listener further : Nat) : TickM Step := do
  let waiting := ((← TickM.context).queue listener).length
  (onStack node progress tasks path).handleEvents ((node.flag? "once").getD false) listener
    (waiting + further)

theorem agree_of_shaped {node : Node} (shaped : node.Every Node.Shaped) (nodup : node.ids.Nodup) :
    Agree node.children := fun child member =>
  (simulated child (shaped.child member) (Node.nodup_ids_of_mem (Node.nodup_idsAll_children nodup) member)).1

/-- The bound is not what ends the handling of events. -/
theorem handleWaiting_eq {node : Node} (shaped : node.Every Node.Shaped) (nodup : node.ids.Nodup)
    (listens : Listens node) (progress : Option Progress) (tasks : List Task) (path : Path)
    (listener further : Nat) :
    handleWaiting node progress tasks path listener further =
      handleWaiting node progress tasks path listener 0 := by
  have agree := agree_of_shaped shaped nodup
  obtain ⟨child, only⟩ := listens.only_child shaped.self
  have member : child ∈ node.children := only ▸ List.mem_singleton_self child
  have builtin := (shaped.child member).mono fun _ shaped => shaped.builtin
  exact (handle_eq path progress tasks agree listens only builtin listener further).trans
    (handle_eq path progress tasks agree listens only builtin listener 0).symm

/-- No event is left that a listening node could handle. -/
inductive Handled (listener : Nat) (t : Scene) : Step → Prop where
  | done (verdict : Verdict) : Handled listener t (.finish verdict)
  | running (above : List Frame) : Handled listener t (.await (.listening listener true) above)
  | none (nothing : t.context.queue listener = []) : Handled listener t (.keep (.listening listener false))

/-- The child brings no further events to the mailbox that one has been taken from. -/
theorem gives_tickChild {node child : Node} {progress : Option Progress} {tasks : List Task} {path : Path}
    (agree : Agree node.children) (only : node.children = [child]) (builtin : child.Every IsBuiltin) (listener : Nat)
    {s : Scene} {event : List Value} {rest : List (List Value)} (waiting : s.context.queue listener = event :: rest) :
    Gives ((onStack node progress tasks path).tickChild 0) (handed node listener event rest s)
      fun _ t => (t.context.queue listener).length ≤ rest.length := by
  have left : (handed node listener event rest s).context.queue listener = rest := s.context.queue_take waiting
  rw [tickChild_eq only, agree child (only ▸ List.mem_singleton_self child)]
  refine gives_map fun report t ticked => ?_
  have shorter := (changes_tick child builtin none path (handed node listener event rest s)).queue_length_le listener
  rwa [ticked, left] at shorter

/-- A node handles its events if it may handle as many as wait. -/
theorem gives_handleEvents {node child : Node} {progress : Option Progress} {tasks : List Task} {path : Path}
    (agree : Agree node.children) (only : node.children = [child]) (builtin : child.Every IsBuiltin) (isOnce : Bool)
    (listener budget : Nat) (s : Scene) (within : (s.context.queue listener).length ≤ budget) :
    Gives ((onStack node progress tasks path).handleEvents isOnce listener budget) s
      fun step t => Handled listener t step := by
  induction budget generalizing s with
  | zero => exact gives_pure (.none (List.eq_nil_of_length_eq_zero (Nat.le_zero.mp within)))
  | succ budget ih =>
    unfold Gives
    rw [Visit.handleEvents]
    rcases waiting : s.context.queue listener with _ | ⟨event, rest⟩
    · rw [play_bind_ok (Visit.play_takeEvent_nil waiting)]
      exact gives_pure (.none waiting)
    · rw [waiting, List.length_cons] at within
      have written : ((onStack node progress tasks path).writeArguments event).play
          (s.updateContext (·.updateMailbox listener fun _ => rest)) =
            (.ok (), handed node listener event rest s) := rfl
      rw [play_bind_ok (Visit.play_takeEvent_cons waiting), play_bind_ok written]
      -- An event less waits for every turn that is taken, so the budget suffices to the end.
      refine gives_bind (gives_tickChild agree only builtin listener waiting) fun outcome t shorter => ?_
      rcases outcome with verdict | above
      · cases isOnce
        · exact ih t (Nat.le_trans shorter (Nat.le_of_succ_le_succ within))
        · exact fun _ _ ended => by cases ended; exact .done verdict
      · exact gives_pure (.running above)

/-- Handling what waits ends with nothing left, a child that runs or the node done. -/
theorem gives_handleWaiting {node : Node} (shaped : node.Every Node.Shaped) (nodup : node.ids.Nodup)
    (listens : Listens node) (progress : Option Progress) (tasks : List Task) (path : Path) (listener : Nat)
    (s : Scene) :
    Gives (handleWaiting node progress tasks path listener 0) s fun step t => Handled listener t step := by
  obtain ⟨child, only⟩ := listens.only_child shaped.self
  have member : child ∈ node.children := only ▸ List.mem_singleton_self child
  unfold Gives
  rw [handleWaiting, play_bind_ok (play_context s)]
  exact gives_handleEvents (agree_of_shaped shaped nodup) only ((shaped.child member).mono fun _ shaped => shaped.builtin)
    _ listener _ s (Nat.le_refl _)

end Descent

namespace Runner

variable {runner : Runner} {cache : ExprCache} {ctx : Context}

theorem Ready.watched (ready : runner.Ready cache) : runner.watched.Ready cache :=
  ready.perform (.new Registry.builtin) (.setDebug true)

/-- A runner that is watched ticks the same nodes, which do the same. -/
theorem Ready.tickNodes_watched (ready : runner.Ready cache) (wired : ctx.Wired) :
    ∃ notes, runner.watched.tickNodes ctx =
      ((runner.tickNodes ctx).1, (runner.tickNodes ctx).2.watched notes) := by
  obtain ⟨notes, ticked⟩ := Descent.tick_watched (s := runner.opening ctx) ready.shaped
    (fun state member => (ready.sound state member).mono nofun) (opening_wired wired)
    (runner.opening ctx).context.notes
  have same : (tick runner.watched.tree.root (restore runner.watched.actor.stack) []).play
      (runner.watched.opening ctx) = _ := ticked
  refine ⟨notes, ?_⟩
  rw [ready.tickNodes_eq, ready.watched.tickNodes_eq, same]
  rfl

end Runner

namespace Session

/-- The notes of a run of the runner of a name that is watched. -/
def watchedRun (session : Session) (name : String) : List Note :=
  ((session.exchange (.toRunner name (.setDebug true))).2.exchange (.toRunner name .run)).1.2

/-- What a run of a runner takes at most. -/
structure Economy (session : Session) (name : String) (runner : Runner) : Prop where
  /-- No two nodes of the tree are taken for each other. -/
  distinct : runner.tree.root.ids.Nodup
  /-- A listening node is done with the events that wait for it; it needs no bound on how many more
  it may handle. -/
  ends : ∀ node ∈ runner.tree.root.preorder, Listens node → ∀ progress tasks path listener further,
    Descent.handleWaiting node progress tasks path listener further =
      Descent.handleWaiting node progress tasks path listener 0
  /-- Within as many turns as events wait it is done, its child runs, or no event is left. -/
  handles : ∀ node ∈ runner.tree.root.preorder, Listens node → ∀ progress tasks path listener s,
    TickM.Gives (Descent.handleWaiting node progress tasks path listener 0) s
      fun step t => Descent.Handled listener t step
  /-- The nodes of a run do the same whether they are watched or not. -/
  watched : ∃ notes, runner.watched.tickNodes (session.context.dropRequest runner.actor.caller) =
    ((runner.tickNodes (session.context.dropRequest runner.actor.caller)).1,
      (runner.tickNodes (session.context.dropRequest runner.actor.caller)).2.watched notes)
  /-- A node is executed once, and once more for every event that waits above it when the run
  begins. -/
  executed : ∀ node ∈ runner.tree.root.preorder, (session.watchedRun name).countP (Note.enters node.id) ≤
    1 + session.context.waitingAbove node.id runner.actor.stack
  /-- A node with no listening node above it is executed once. -/
  once : ∀ node ∈ runner.tree.root.preorder,
    (∀ other ∈ runner.tree.root.preorder, Listens other → node.id ∉ Node.idsAll other.children) →
      (session.watchedRun name).countP (Note.enters node.id) ≤ 1

variable {name : String} {runner : Runner}

/-- The notes of a run tell of no more executions than that. -/
theorem executions_watchedRun {session : Session} (there : session.runners.at? name = some runner)
    (ready : runner.Ready session.context.cache) (wired : session.context.Wired) (id : Nat) :
    (session.watchedRun name).countP (Note.enters id) ≤
      1 + session.context.waitingAbove id runner.actor.stack := by
  have set : (session.exchange (.toRunner name (.setDebug true))).2 =
      session.setRunner name runner.watched { session.context with notes := [] } := by
    rw [exchange, perform, there]
    rfl
  have put : (session.setRunner name runner.watched { session.context with notes := [] }).runners.at? name =
      some runner.watched := by
    rw [setRunner_runners, Index.at?_put, if_pos rfl]
  have unnoted : ({ session.context with notes := [] } : Context).Wired := wired.congr rfl rfl
  have most := ready.watched.executions_run unnoted id
  rw [watchedRun, set, exchange_run_eq _ put]
  exact Nat.le_trans most (Nat.le_of_eq (Nat.zero_add _))

variable (source : SourceInput)

/-- However a runner has come to where it is, a run of it ends, and executes no node more often than
once and once more for every event that waits above it. -/
theorem run_is_economical (commands : List Command)
    (there : ((new Registry.builtin source).after commands).runners.at? name = some runner) :
    ((new Registry.builtin source).after commands).Economy name runner := by
  have ready := ((ready_new source).after commands).runners name runner there
  have guarded := (guarded_new Registry.builtin source (fun _ => False) fun _ => []).after
    (tidy_new Registry.builtin source) (ready_new source) commands nofun
  have held := guarded.held name runner there
  have wired := guarded.wired
  generalize (new Registry.builtin source).after commands = session at *
  constructor
  case distinct => exact ready.tree.nodup
  case ends =>
    intro node member listens
    exact Descent.handleWaiting_eq (ready.shaped.below member)
      (Node.nodup_ids_of_mem_preorder ready.tree.nodup member) listens
  case handles =>
    intro node member listens
    exact Descent.gives_handleWaiting (ready.shaped.below member)
      (Node.nodup_ids_of_mem_preorder ready.tree.nodup member) listens
  case watched => exact ready.tickNodes_watched (wired.congr rfl rfl)
  case executed => exact fun node _ => executions_watchedRun there ready wired node.id
  case once =>
    intro node _ outside
    have most := executions_watchedRun there ready wired node.id
    have none : session.context.waitingAbove node.id runner.actor.stack = 0 := by
      have unheld : (stackHolds runner.actor.stack).filter
          (fun h => node.id ∈ Node.idsAll h.node.children) = [] := by
        refine List.filter_eq_nil_iff.mpr fun h member => ?_
        rw [decide_eq_true_eq]
        obtain ⟨-, -, -, -, listens, -⟩ := held.opened h member
        exact outside h.node (ready.below_stackHolds h member) listens
      rw [Context.waitingAbove, unheld]
      rfl
    rwa [none] at most

theorem run_is_economical_watcher :
    ((new Registry.builtin (.trees watchSource)).after watching).runners.at? "guard" = some watcher ∧
      ((new Registry.builtin (.trees watchSource)).after watching).Economy "guard" watcher :=
  ⟨at?_watching, run_is_economical (.trees watchSource) watching at?_watching⟩

end Session
end BehaviorTree
