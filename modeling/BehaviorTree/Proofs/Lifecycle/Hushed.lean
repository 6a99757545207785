import BehaviorTree.Proofs.Event.Hushed
import BehaviorTree.Proofs.Event.Mirror
import BehaviorTree.Proofs.Session.Executions

/-!
Runs among hosts that make no requests. A runner whose followers and listeners make none does what it
would do otherwise, with no request pending; only the start of a run looks for one, and a single request
made right before has the same effect as any number of them.
-/

namespace BehaviorTree

open Context (Hushed Wired)
open Descent (Active Pairing Report tick)

variable {own : String → Bool}

/-! ### Ticks -/

/-- The second scene is the first one without requests. -/
structure Scene.Hushed (own : String → Bool) (s t : Scene) : Prop where
  wired : s.context.Wired
  actor : t.actor = s.actor
  hush : Context.Hushed own s.actor.caller s.context t.context

namespace Descent

/-- Nodes make no requests and look for none. -/
theorem pairing_hushed : Pairing id fun _ _ s t => Scene.Hushed own s t where
  alike := by
    rintro H log ⟨ctx, actor⟩ ⟨ctx', actor'⟩ ⟨wired, same, hush⟩
    obtain rfl : actor' = actor := same
    obtain ⟨-, -⟩ := hush
    exact ⟨rfl, rfl, rfl, rfl, rfl, rfl⟩
  queue := by
    rintro h H log ⟨ctx, actor⟩ ⟨ctx', actor'⟩ ⟨wired, -, hush⟩
    obtain ⟨-, -⟩ := hush
    rfl
  next := by
    rintro H log ⟨ctx, actor⟩ ⟨ctx', actor'⟩ ⟨wired, -, hush⟩
    obtain ⟨bus, -⟩ := hush
    exact congrArg (· + 1) bus.issued
  recast vars completed last := by
    rintro ⟨wired, same, hush⟩
    exact ⟨wired, congrArg (Actor.recast vars completed last) same, hush⟩
  note n := by
    rintro ⟨wired, same, hush⟩
    exact ⟨wired.congr rfl rfl, same, hush.note n⟩
  noteDebug {H log s t} n := by
    rintro ⟨wired, same, hush⟩
    rw [Scene.noteDebug, Scene.noteDebug, same]
    split
    · exact ⟨wired.congr rfl rfl, same, hush.note n⟩
    · exact ⟨wired, same, hush⟩
  compile code := by
    rintro ⟨wired, same, hush⟩
    exact ⟨wired.congr rfl rfl, same, hush.compile code⟩
  call related _ := related
  unheard related := related.wired.queue_fresh (Nat.lt_succ_self _)
  subscribe := by
    rintro H log s t call ⟨wired, same, hush⟩ - - - - -
    refine ⟨wired.subscribe _ _ _, same, ?_⟩
    have caller : t.actor.caller = s.actor.caller := congrArg Actor.caller same
    rw [Scene.subscribe, Scene.subscribe, caller]
    exact hush.subscribe call.node.event (call.node.audience s.actor) s.actor.caller
  accept := by
    rintro node listener stance H log s t args rest call ⟨wired, same, hush⟩ - - - - - -
    obtain ⟨vars, written⟩ := Actor.writeArguments_eq node args
    refine ⟨wired.updateMailbox listener fun _ => rest, congrArg (Actor.writeArguments · node args) same, ?_⟩
    have caller : (s.actor.writeArguments node args).caller = s.actor.caller := by
      rw [written]
      rfl
    have filled := hush.updateMailbox listener fun _ => rest
    rwa [← caller] at filled
  settle related _ _ := related
  unsubscribe := by
    rintro h H log s t ⟨wired, same, hush⟩
    exact ⟨wired.unsubscribe _, same, hush.unsubscribe h.listener⟩

/-- A tick does the same whether or not requests are made. -/
theorem tick_hushed {node : Node} {state : Option Active} {path : Path} {s t : Scene}
    (shaped : node.Every Node.Shaped) (sound : ∀ a ∈ state, Sound [] node a) (hush : s.Hushed own t) :
    ((tick node state path).play t).1 = ((tick node state path).play s).1 ∧
      ((tick node state path).play s).2.Hushed own ((tick node state path).play t).2 := by
  have ticked := paired_tick pairing_hushed node shaped ⟨0, node, state, path, .nothing, s, s⟩ 0 [_] t rfl sound
    List.mem_cons_self hush
  simp only [show Active.rename id = id from funext Active.rename_id, Option.map_id, id_eq] at ticked
  unfold TickM.Abreast at ticked
  generalize (tick node state path).play s = left at ticked ⊢
  generalize (tick node state path).play t = right at ticked ⊢
  cases ticked with
  | @values report other t u related =>
    obtain ⟨same, hush⟩ := related
    rw [same, show report.rename id = report by cases report <;> simp [Report.rename, Active.rename_id]]
    exact ⟨rfl, hush⟩
  | faults fault related =>
    obtain ⟨-, hush⟩ := related
    exact ⟨rfl, hush⟩

end Descent

/-! ### Runners -/

namespace Runner

variable {runner : Runner} {cache : ExprCache} {ctx ctx' : Context}

/-- The runner with followers that make no requests. -/
def hushed (own : String → Bool) (runner : Runner) : Runner :=
  { runner with followers := runner.followers.map fun follower => (follower.1, follower.2.hushed own) }

/-- What is done comes to the same when no requests are made. -/
def Agrees (own : String → Bool) (one two : Runner × Context) : Prop :=
  two.1 = one.1.hushed own ∧ one.2.Hushed own one.1.actor.caller two.2

/-- Followers are told the same on both sides. -/
theorem hush_announce (runner : Runner) {caller : Nat} (stage : Stage) (depth : Nat) (hush : ctx.Hushed own caller ctx') :
    (runner.announce stage depth ctx).Hushed own caller ((runner.hushed own).announce stage depth ctx') := by
  have told : (runner.hushed own).followers.filter (fun follower => follower.1 = stage) =
      (runner.followers.filter fun follower => follower.1 = stage).map
        fun follower => (follower.1, follower.2.hushed own) := List.filter_map
  rw [announce, announce, told]
  generalize (runner.followers.filter fun follower => follower.1 = stage) = followers
  induction followers generalizing ctx ctx' with
  | nil => exact hush
  | cons follower rest ih =>
    rw [List.map_cons, List.foldl_cons, List.foldl_cons]
    exact ih ((hush.note _).obey follower.2.orders)

theorem agrees_unwind (runner : Runner) (hush : ctx.Hushed own runner.actor.caller ctx') :
    Agrees own (runner.unwind ctx) ((runner.hushed own).unwind ctx') := ⟨rfl, hush.unsubscribeAll _⟩

theorem agrees_abort (hush : ctx.Hushed own runner.actor.caller ctx') :
    Agrees own (runner.abort ctx) ((runner.hushed own).abort ctx') :=
  ⟨rfl, (hush_announce runner .interrupted _ (hush.note _)).unsubscribeAll _⟩

theorem agrees_complete (runner : Runner) (verdict : Verdict) (hush : ctx.Hushed own runner.actor.caller ctx') :
    Agrees own (runner.complete ctx verdict).2 ((runner.hushed own).complete ctx' verdict).2 := by
  have ended := hush_announce (runner.setStatus verdict.treeStatus) .afterRun 0 hush
  cases verdict with
  | success => exact ⟨rfl, (hush_announce (runner.setStatus _) .afterRunSuccess 0 ended).dropRequest⟩
  | failure => exact ⟨rfl, (hush_announce (runner.setStatus _) .afterRunFailure 0 ended).dropRequest⟩

theorem hush_report (runner : Runner) (fault : Fault) {caller : Nat} (hush : ctx.Hushed own caller ctx') :
    (runner.report ctx fault).Hushed own caller ((runner.hushed own).report ctx' fault) := by
  rw [report, report]
  split
  · exact hush_announce runner .assertFailed _ (hush.note _)
  · exact hush.note _

/-- A run ends alike on both sides. -/
theorem agrees_conclude (result : Except Fault Outcome) {s t : Scene} (hush : s.Hushed own t) :
    ((runner.hushed own).conclude result t).1 = (runner.conclude result s).1 ∧
      Agrees own (runner.conclude result s).2 ((runner.hushed own).conclude result t).2 := by
  obtain ⟨ctx, actor⟩ := s
  obtain ⟨ctx', actor'⟩ := t
  obtain ⟨-, same, hush⟩ := hush
  obtain rfl : actor' = actor := same
  rcases result with fault | (verdict | frames)
  · have told := hush_report { runner with actor := actor' } fault hush
    have unwound := agrees_unwind { runner with actor := actor' } told
    exact ⟨rfl, agrees_complete _ .failure unwound.2⟩
  · exact ⟨rfl, agrees_complete { runner with actor := { actor' with stack := [] } } verdict hush⟩
  · exact ⟨rfl, rfl, hush⟩

theorem agrees_interrupt (hush : ctx.Hushed own runner.actor.caller ctx') :
    Agrees own (runner.interrupt ctx) ((runner.hushed own).interrupt ctx') := by
  have running : (runner.hushed own).actor.isRunning = runner.actor.isRunning := rfl
  rw [interrupt, interrupt, running]
  split
  · exact agrees_abort hush.dropRequest
  · exact ⟨rfl, hush⟩

/-- A runner is cleared alike on both sides. -/
theorem agrees_clear (hush : ctx.Hushed own runner.actor.caller ctx') :
    Agrees own (runner.clear ctx) ((runner.hushed own).clear ctx') := by
  have same : (runner.hushed own).actor.status = runner.actor.status := rfl
  have cleared {runner : Runner} {ctx ctx' : Context} (hush : ctx.Hushed own runner.actor.caller ctx') :
      ((((runner.unwind ctx).2.dropRequest runner.actor.caller).offCaller runner.actor.caller)).Hushed own
        runner.actor.caller
        (((runner.hushed own).unwind ctx').2.dropRequest runner.actor.caller |>.offCaller runner.actor.caller) :=
    (hush.unsubscribeAll _).dropRequest.offCaller _
  by_cases running : runner.actor.status = .running
  · obtain ⟨stopped, left⟩ := agrees_interrupt hush
    simp only [clear, same, if_pos running]
    rw [stopped]
    exact ⟨rfl, cleared left⟩
  · simp only [clear, same, if_neg running]
    exact ⟨rfl, cleared hush⟩

theorem Ready.hushed (own : String → Bool) (ready : runner.Ready cache) : (runner.hushed own).Ready cache := by
  obtain ⟨walker, valid, rfl⟩ := ready.laid
  exact ⟨ready.tree, ⟨walker.runner.hushed own, walker.active⟩, ⟨valid.sound, valid.running⟩, rfl⟩

/-- The ticks of a run are the same. -/
theorem Ready.tickNodes_hushed (ready : runner.Ready cache) (wired : ctx.Wired)
    (hush : ctx.Hushed own runner.actor.caller ctx') :
    ((runner.hushed own).tickNodes ctx').1 = (runner.tickNodes ctx).1 ∧
      (runner.tickNodes ctx).2.Hushed own ((runner.hushed own).tickNodes ctx').2 := by
  have opened : (runner.opening ctx).Hushed own ((runner.hushed own).opening ctx') := by
    refine ⟨opening_wired wired, rfl, ?_⟩
    have empty : (runner.hushed own).actor.stack.isEmpty = runner.actor.stack.isEmpty := rfl
    rw [opening, opening, empty]
    split
    · exact hush_announce runner .beforeRun 0 hush
    · exact hush
  have sound : ∀ state ∈ restore runner.actor.stack, Descent.Sound [] runner.tree.root state := by
    refine fun state member => (ready.sound state member).mono ?_
    rintro id - ⟨⟩
  obtain ⟨same, left⟩ := Descent.tick_hushed ready.shaped sound opened
  rw [ready.tickNodes_eq, (ready.hushed own).tickNodes_eq]
  exact ⟨congrArg (Except.map (Report.outcome runner.tree.root)) same, left⟩

/-- A run that no request interrupts goes the same way without any. -/
theorem Ready.agrees_run (ready : runner.Ready cache) (wired : ctx.Wired)
    (hush : ctx.Hushed own runner.actor.caller ctx') (going : runner.isCancelled ctx = false) :
    ((runner.hushed own).run ctx').1 = (runner.run ctx).1 ∧
      Agrees own (runner.run ctx).2 ((runner.hushed own).run ctx').2 := by
  have going' : (runner.hushed own).isCancelled ctx' = false := by
    rw [isCancelled, show ctx'.isPending (runner.hushed own).actor.caller = false from hush.isPending_eq_false]
    rfl
  have dropped : (ctx.dropRequest runner.actor.caller).Wired := wired.congr rfl rfl
  obtain ⟨same, left⟩ := ready.tickNodes_hushed dropped hush.dropRequest
  rw [run_eq, run_eq, going, going', if_neg Bool.false_ne_true, if_neg Bool.false_ne_true]
  simp only
  rw [show ((runner.hushed own).tickNodes (ctx'.dropRequest (runner.hushed own).actor.caller)).1 = _ from same]
  exact agrees_conclude _ left

/-- A run that is interrupted is so for a single request that is made right before. -/
theorem agrees_run_request (hush : ctx.Hushed own runner.actor.caller ctx')
    (cancelled : runner.isCancelled ctx = true) :
    ((runner.hushed own).run (ctx'.request runner.actor.caller)).1 = (runner.run ctx).1 ∧
      Agrees own (runner.run ctx).2 ((runner.hushed own).run (ctx'.request runner.actor.caller)).2 := by
  have running : (runner.hushed own).actor.isRunning = true := (Bool.and_eq_true_iff.mp cancelled).2
  have cancelled' : (runner.hushed own).isCancelled (ctx'.request runner.actor.caller) = true := by
    rw [isCancelled, running, Bool.and_true]
    exact Context.isPending_request_self ctx' runner.actor.caller
  rw [run_eq, run_eq, cancelled, cancelled', if_pos rfl, if_pos rfl]
  exact ⟨rfl, agrees_abort hush.dropRequest_request⟩

end Runner
end BehaviorTree
