import BehaviorTree.Proofs.Descent.Mirror
import BehaviorTree.Proofs.Session.Clear
import BehaviorTree.Proofs.Session.Heeding

/-!
One runner in two contexts where its caller finds the same. Its listeners may go by other ids in the
second one, and so its stack differs there; whatever the runner is asked, it answers the same in
both, and is left in the same way. Its followers give no orders.
-/

namespace BehaviorTree

open Context (Aside Mirrors)
open Descent (Active Call Mirrored Report Sound frames pairing_mirrored renumber tick)

/-! ### Stacks with other listeners -/

namespace Descent

variable {f g : Nat → Nat}

theorem Memory.rename_congr {memory : Memory}
    (same : ∀ l ∈ Active.listeners.memoryListeners memory, f l = g l) : memory.rename f = memory.rename g := by
  cases memory with
  | mailbox listener => exact congrArg Memory.mailbox (same listener List.mem_cons_self)
  | _ => rfl

mutual

/-- Only the listeners of the active nodes have to be named. -/
theorem Active.rename_congr : ∀ {state : Active}, (∀ l ∈ state.listeners, f l = g l) →
    state.rename f = state.rename g
  | .resting memory, same => by rw [Active.rename, Active.rename, Memory.rename_congr same]
  | .over memory i state, same => by
    obtain ⟨own, above⟩ := List.forall_mem_append.mp same
    rw [Active.rename, Active.rename, Memory.rename_congr own, Active.rename_congr above]
  | .beside shares, same => by rw [Active.rename, Active.rename, renameAll_congr same]

theorem renameAll_congr : ∀ {shares : List Share}, (∀ l ∈ shareListeners shares, f l = g l) →
    renameAll f shares = renameAll g shares
  | [], _ => rfl
  | .settled _ :: rest, same => by
    have others : renameAll f rest = renameAll g rest := renameAll_congr same
    rw [renameAll, renameAll, others]
    rfl
  | .active state :: rest, same => by
    obtain ⟨own, others⟩ := List.forall_mem_append.mp same
    rw [renameAll, renameAll, renameAll_congr others, Share.rename, Share.rename, Active.rename_congr own]

end

/-- The nodes that run do not depend on their listeners. -/
theorem nodes_frames_rename (node : Node) (state : Active) :
    (frames node (state.rename f)).map Frame.node = (frames node state).map Frame.node := by
  induction node using Node.induct generalizing state with
  | step node ih =>
    rcases state with memory | ⟨memory, i, state⟩ | shares
    · rfl
    · rw [Active.rename, frames, frames, List.map_cons, List.map_cons]
      refine congrArg _ ?_
      rcases here : node.children[i]? with _ | child
      · rfl
      · exact ih child (List.mem_of_getElem? here) state
    · rfl

end Descent

namespace Runner

/-- The runner with another stack. -/
def restack (runner : Runner) (stack : List Frame) : Runner :=
  { runner with actor := { runner.actor with stack } }

/-- The runner finds the same in both contexts; the stack is what it has in the second one. -/
structure Twins (f : Nat → Nat) (runner : Runner) (stack : List Frame) (ctx ctx' : Context) : Prop where
  state : restore stack = (restore runner.actor.stack).map (Active.rename f)
  mirrors : Mirrors runner.actor.caller f ctx ctx'

variable {f g : Nat → Nat} {caller : Nat} {runner : Runner} {stack : List Frame} {cache cache' : ExprCache}
  {log : List Call} {ctx ctx' : Context}

/-! ### What is seen of a stack -/

theorem Ready.stack_eq (ready : runner.Ready cache) :
    runner.actor.stack = ((restore runner.actor.stack).map (frames runner.tree.root)).getD [] := by
  rcases ready.restores with ⟨none, empty⟩ | ⟨state, found, -, laid⟩
  · rw [none, empty]
    rfl
  · rw [found]
    exact laid

/-- The running nodes are the same in both contexts. -/
theorem Twins.nodes_eq (twins : runner.Twins f stack ctx ctx') (ready : runner.Ready cache)
    (ready' : (runner.restack stack).Ready cache') :
    stack.map Frame.node = runner.actor.stack.map Frame.node := by
  have here := ready.stack_eq
  have there : stack = _ := ready'.stack_eq
  rw [here, there]
  have state : restore (runner.restack stack).actor.stack = _ := twins.state
  rw [state]
  rcases restore runner.actor.stack with _ | state
  · rfl
  · exact Descent.nodes_frames_rename runner.tree.root state

theorem Twins.length_eq (twins : runner.Twins f stack ctx ctx') (ready : runner.Ready cache)
    (ready' : (runner.restack stack).Ready cache') : stack.length = runner.actor.stack.length := by
  have nodes := congrArg List.length (twins.nodes_eq ready ready')
  rwa [List.length_map, List.length_map] at nodes

theorem Twins.isEmpty_eq (twins : runner.Twins f stack ctx ctx') (ready : runner.Ready cache)
    (ready' : (runner.restack stack).Ready cache') : stack.isEmpty = runner.actor.stack.isEmpty := by
  rw [Bool.eq_iff_iff, List.isEmpty_iff_length_eq_zero, List.isEmpty_iff_length_eq_zero,
    twins.length_eq ready ready']

theorem Twins.isRunning_eq (twins : runner.Twins f stack ctx ctx') (ready : runner.Ready cache)
    (ready' : (runner.restack stack).Ready cache') :
    (runner.restack stack).actor.isRunning = runner.actor.isRunning := by
  have empty := twins.isEmpty_eq ready ready'
  simp only [Actor.isRunning, restack, empty]

/-! ### Stages -/

section

variable (silent : runner.Heeds fun _ => False)

include silent

/-- Followers are told the same on both sides. -/
theorem mirrors_announce (stage : Stage) (depth : Nat) (mirrors : Mirrors caller f ctx ctx') :
    Mirrors caller f (runner.announce stage depth ctx) (runner.announce stage depth ctx') := by
  rw [announce, announce]
  have mute : ∀ follower ∈ runner.followers.filter fun follower => follower.1 = stage,
      follower.2.orders = [] := fun follower member =>
    List.eq_nil_iff_forall_not_mem.mpr (silent follower (List.mem_of_mem_filter member))
  generalize (runner.followers.filter fun follower => follower.1 = stage) = followers at mute
  induction followers generalizing ctx ctx' with
  | nil => exact mirrors
  | cons follower rest ih =>
    obtain ⟨first, later⟩ := List.forall_mem_cons.mp mute
    rw [List.foldl_cons, List.foldl_cons, first]
    exact ih (mirrors.note _) later

/-- A tree completes alike on both sides. -/
theorem mirrors_complete (verdict : Verdict) (mirrors : Mirrors runner.actor.caller f ctx ctx') :
    Mirrors runner.actor.caller f (runner.complete ctx verdict).2.2 (runner.complete ctx' verdict).2.2 := by
  have silent : (runner.setStatus verdict.treeStatus).Heeds fun _ => False := silent
  cases verdict with
  | success =>
    exact (mirrors_announce silent .afterRunSuccess 0 (mirrors_announce silent .afterRun 0 mirrors)).dropRequest
  | failure =>
    exact (mirrors_announce silent .afterRunFailure 0 (mirrors_announce silent .afterRun 0 mirrors)).dropRequest

theorem mirrors_report (fault : Fault) (mirrors : Mirrors caller f ctx ctx') :
    Mirrors caller f (runner.report ctx fault) (runner.report ctx' fault) := by
  rw [report, report]
  split
  · exact mirrors_announce silent _ _ (mirrors.note _)
  · exact mirrors.note _

/-- A running tree is given up alike on both sides. -/
theorem mirrors_abort (same : stack.length = runner.actor.stack.length)
    (mirrors : Mirrors runner.actor.caller f ctx ctx') :
    Mirrors runner.actor.caller f (runner.abort ctx).2 ((runner.restack stack).abort ctx').2 := by
  have told := mirrors_announce silent .interrupted runner.actor.stack.length
    (mirrors.note (.interrupted runner.tree.name runner.actor.stack.length))
  have noted : (runner.restack stack).announce .interrupted stack.length
      (ctx'.note (.interrupted runner.tree.name stack.length)) =
        runner.announce .interrupted runner.actor.stack.length
          (ctx'.note (.interrupted runner.tree.name runner.actor.stack.length)) := by
    rw [same]
    rfl
  have aborted : ((runner.restack stack).abort ctx').2 =
      ((runner.restack stack).announce .interrupted stack.length
        (ctx'.note (.interrupted runner.tree.name stack.length))).unsubscribeAll runner.actor.caller := rfl
  rw [aborted, noted]
  exact told.unsubscribeAll

end

/-! ### Runs -/

theorem restack_nil (idle : runner.actor.stack = []) : runner.restack [] = runner := by
  rw [← idle]
  rfl

/-- Nothing runs any more in either context. -/
theorem Twins.of_nil (idle : runner.actor.stack = []) (mirrors : Mirrors runner.actor.caller f ctx ctx') :
    runner.Twins f [] ctx ctx' := ⟨by rw [idle]; rfl, mirrors⟩

/-- What is asked of a runner comes to the same in both contexts. -/
def Agree (f : Nat → Nat) (one two : Runner × Context) : Prop :=
  ∃ later, two.1 = one.1.restack later ∧ one.1.Twins f later one.2 two.2

section

variable (silent : runner.Heeds fun _ => False)

include silent

theorem agree_complete (idle : runner.actor.stack = []) (verdict : Verdict)
    (mirrors : Mirrors runner.actor.caller f ctx ctx') :
    Agree f (runner.complete ctx verdict).2 (runner.complete ctx' verdict).2 := by
  have stacked : (runner.setStatus verdict.treeStatus).restack [] = runner.setStatus verdict.treeStatus :=
    restack_nil idle
  exact ⟨[], stacked.symm, .of_nil idle (mirrors_complete silent verdict mirrors)⟩

/-- Whatever runs is abandoned in both contexts. -/
theorem agree_abort (same : stack.length = runner.actor.stack.length)
    (mirrors : Mirrors runner.actor.caller f ctx ctx') :
    Agree f (runner.abort ctx) ((runner.restack stack).abort ctx') :=
  ⟨[], rfl, .of_nil rfl (mirrors_abort silent same mirrors)⟩

theorem agree_conclude {s t : Scene} (acting : s.actor.caller = runner.actor.caller) (same : t.actor = s.actor)
    (mirrors : Mirrors runner.actor.caller f s.context t.context) (nodup : runner.tree.root.ids.Nodup)
    {result : Except Fault Report}
    (sound : ∀ report, result = .ok report → Descent.SoundReport s.actor.completed runner.tree.root report)
    (sound' : ∀ report, result = .ok report →
      Descent.SoundReport t.actor.completed runner.tree.root (report.rename f)) :
    ((runner.restack stack).conclude ((result.map (Report.rename f)).map (Report.outcome runner.tree.root)) t).1 =
        (runner.conclude (result.map (Report.outcome runner.tree.root)) s).1 ∧
      Agree f (runner.conclude (result.map (Report.outcome runner.tree.root)) s).2
        ((runner.restack stack).conclude
          ((result.map (Report.rename f)).map (Report.outcome runner.tree.root)) t).2 := by
  obtain ⟨ctx, actor⟩ := s
  obtain ⟨ctx', actor'⟩ := t
  obtain rfl : actor' = actor := same
  -- From here on the runner has the actor that the ticks have left.
  have silent' (stack : List Frame) (status : TreeStatus) :
      Heeds (fun _ => False) { runner with actor := { actor' with stack, status } } := silent
  have mirrors : Mirrors actor'.caller f ctx ctx' := acting ▸ mirrors
  rcases result with fault | (verdict | state)
  · refine ⟨rfl, ?_⟩
    have told : Mirrors actor'.caller f (Runner.report { runner with actor := actor' } ctx fault)
        (Runner.report { runner with actor := actor' } ctx' fault) :=
      mirrors_report (silent' actor'.stack actor'.status) fault mirrors
    have unwound : Heeds (fun _ => False)
      { runner with actor := { actor'.clearTemporaries with stack := [] } } := silent
    exact agree_complete unwound rfl .failure told.unsubscribeAll
  · exact ⟨rfl, agree_complete (silent' [] actor'.status) rfl verdict mirrors⟩
  · refine ⟨rfl, frames runner.tree.root (state.rename f), rfl, ?_, mirrors⟩
    have laid : restore (frames runner.tree.root state) = some state :=
      Descent.restore_frames nodup (sound _ rfl)
    have laid' : restore (frames runner.tree.root (state.rename f)) = some (state.rename f) :=
      Descent.restore_frames nodup (sound' _ rfl)
    exact laid'.trans (congrArg (Option.map (Active.rename f)) laid).symm

/-- Twins begin a run in scenes that mirror each other. -/
theorem Twins.opening (twins : runner.Twins f stack ctx ctx') (ready : runner.Ready cache)
    (ready' : (runner.restack stack).Ready cache') :
    Mirrors runner.actor.caller f (runner.opening ctx).context ((runner.restack stack).opening ctx').context := by
  have empty : (runner.restack stack).actor.stack.isEmpty = _ := twins.isEmpty_eq ready ready'
  rw [Runner.opening, Runner.opening, empty]
  split
  · exact mirrors_announce silent .beforeRun 0 twins.mirrors
  · exact twins.mirrors

end

/-- The listeners of a runner are known to the bus. -/
theorem Held.issued (held : runner.Held log ctx) (wired : ctx.Wired) :
    ∀ l ∈ (stackHolds runner.actor.stack).map Hold.listener, l ≤ ctx.bus.issued := by
  intro l member
  obtain ⟨box, there, rfl⟩ := List.mem_map.mp (held.owned.symm.subset member)
  exact wired.opened box (Context.mem_boxes.mp there).1

/-- The ticks of a run go the same way in both contexts. -/
theorem Twins.ticks (twins : runner.Twins f stack ctx ctx') (silent : runner.Heeds fun _ => False)
    (ready : runner.Ready cache) (ready' : (runner.restack stack).Ready cache') (wired : ctx.Wired)
    (wired' : ctx'.Wired) (held : runner.Held log ctx) :
    ∃ g result s t,
      (tick runner.tree.root (restore runner.actor.stack) []).play (runner.opening ctx) = (result, s) ∧
      (tick runner.tree.root (restore stack) []).play ((runner.restack stack).opening ctx') =
        (result.map (Report.rename g), t) ∧
      s.actor.caller = runner.actor.caller ∧ t.actor = s.actor ∧
      Mirrors runner.actor.caller g s.context t.context := by
  have opening := twins.opening silent ready ready'
  have opened : ((runner.restack stack).opening ctx').context.Wired := opening_wired wired'
  have keeps := (Descent.invariant_keeps runner.actor.caller (runner.opening ctx).context).call
    (held.keeps wired) fun entry : (runner.rootCall ctx).IsEntry => entry.2.elim fun _ heard => nomatch heard
  rw [← ready.holdsBefore_restore, ← Multiset.zero_add (Descent.holdsBefore _ _)] at keeps
  have mirrored := Mirrored.begin keeps opened rfl opening
  -- The listeners that are held have been there before.
  have known := held.opening.issued (opening_wired wired)
  have state : (runner.rootCall ctx).state.map (Active.rename (renumber f (runner.opening ctx).context.bus.issued
      ((runner.restack stack).opening ctx').context.bus.issued)) = restore stack := by
    rw [twins.state]
    rcases ready.restores with ⟨none, -⟩ | ⟨state, found, sound, laid⟩
    · rw [rootCall, none]
      rfl
    · rw [laid, Descent.stackHolds_frames sound, Descent.listener_holds .due sound] at known
      rw [rootCall, found, Option.map_some, Option.map_some]
      exact congrArg some (Active.rename_congr fun l member => Descent.renumber_of_le (known l member))
  obtain ⟨result, s, t, H, log, played, played', mirrored⟩ := Descent.mirrored_tick (runner.rootCall ctx) ready.shaped
    (fun state member => (ready.sound state member).mono nofun) (List.mem_append_right _ List.mem_cons_self)
    mirrored
  rw [state] at played'
  exact ⟨_, result, s, t, played, played', mirrored.keeps.acting, mirrored.actor, mirrored.mirrors⟩

/-- A run goes the same way in both contexts, however it ends. -/
theorem Twins.run (twins : runner.Twins f stack ctx ctx') (silent : runner.Heeds fun _ => False)
    (ready : runner.Ready cache) (ready' : (runner.restack stack).Ready cache') (wired : ctx.Wired)
    (wired' : ctx'.Wired) (held : runner.Held log ctx) :
    ((runner.restack stack).run ctx').1 = (runner.run ctx).1 ∧
      ∃ g, Agree g (runner.run ctx).2 ((runner.restack stack).run ctx').2 := by
  have cancelled : (runner.restack stack).isCancelled ctx' = runner.isCancelled ctx := by
    have running := twins.isRunning_eq ready ready'
    have pending : ctx'.isPending (runner.restack stack).actor.caller = _ := twins.mirrors.pending
    rw [isCancelled, isCancelled, running, pending]
  have dropped := twins.mirrors.dropRequest
  rw [run_eq, run_eq, cancelled]
  split
  · exact ⟨rfl, f, agree_abort silent (twins.length_eq ready ready') dropped⟩
  · have twins : runner.Twins f stack (ctx.dropRequest runner.actor.caller) (ctx'.dropRequest runner.actor.caller) :=
      ⟨twins.state, dropped⟩
    obtain ⟨g, result, s, t, ticked, ticked', acting, same, mirrors⟩ := twins.ticks silent ready ready'
      (wired.congr rfl rfl) (wired'.congr rfl rfl) (held.mono (List.Subset.refl _) rfl)
    have sound := ready.gives_ticks (ctx.dropRequest runner.actor.caller)
    have sound' := ready'.gives_ticks (ctx'.dropRequest runner.actor.caller)
    have here : runner.tickNodes (ctx.dropRequest runner.actor.caller) =
        (result.map (Report.outcome runner.tree.root), s) := by
      rw [ready.tickNodes_eq, ticked]
    have there : (runner.restack stack).tickNodes (ctx'.dropRequest (runner.restack stack).actor.caller) =
        ((result.map (Report.rename g)).map (Report.outcome runner.tree.root), t) := by
      refine (ready'.tickNodes_eq _).trans ?_
      exact congrArg (fun ticked => (ticked.1.map (Report.outcome runner.tree.root), ticked.2)) ticked'
    have left (report : Report) (ended : result = .ok report) :
        Descent.SoundReport s.actor.completed runner.tree.root report :=
      (sound report s (by rw [ticked, ended])).1
    have left' (report : Report) (ended : result = .ok report) :
        Descent.SoundReport t.actor.completed runner.tree.root (report.rename g) :=
      (sound' (report.rename g) t (ticked'.trans (by rw [ended]; rfl))).1
    rw [here, there]
    exact (agree_conclude silent acting same mirrors ready.tree.nodup left left').imp id fun agree => ⟨g, agree⟩

/-! ### Interrupting and clearing -/

theorem Twins.interrupt (twins : runner.Twins f stack ctx ctx') (silent : runner.Heeds fun _ => False)
    (ready : runner.Ready cache) (ready' : (runner.restack stack).Ready cache') :
    Agree f (runner.interrupt ctx) ((runner.restack stack).interrupt ctx') := by
  rw [Runner.interrupt, Runner.interrupt, twins.isRunning_eq ready ready']
  split
  · exact agree_abort silent (twins.length_eq ready ready') twins.mirrors.dropRequest
  · exact ⟨stack, rfl, twins⟩

/-- What clearing does once nothing runs any more. -/
theorem mirrors_free (mirrors : Mirrors caller f ctx ctx') :
    Mirrors caller f (ctx.free caller) (ctx'.free caller) :=
  mirrors.unsubscribeAll.dropRequest.offCaller (Context.boxes_unsubscribeAll ctx caller)

/-- Twins are cleared alike. -/
theorem Twins.clear (twins : runner.Twins f stack ctx ctx') (silent : runner.Heeds fun _ => False)
    (ready : runner.Ready cache) (ready' : (runner.restack stack).Ready cache') :
    Agree f (runner.clear ctx) ((runner.restack stack).clear ctx') := by
  have cleared : ((runner.restack stack).clear ctx').1 = (runner.clear ctx).1.restack [] := by
    rw [actor_clear, actor_clear]
    rfl
  have caller : (runner.clear ctx).1.actor.caller = runner.actor.caller :=
    congrArg Prod.fst (runner.entry_clear ctx)
  have idle : (runner.clear ctx).1.actor.stack = [] := by rw [actor_clear]; rfl
  refine ⟨[], cleared, .of_nil idle ?_⟩
  rw [caller]
  by_cases running : runner.actor.status = .running
  · obtain ⟨later, interrupted, stopped⟩ := twins.interrupt silent ready ready'
    have own : (runner.interrupt ctx).1.actor.caller = runner.actor.caller :=
      congrArg Prod.fst (runner.entry_interrupt ctx)
    have here : (runner.clear ctx).2 = (runner.interrupt ctx).2.free (runner.interrupt ctx).1.actor.caller := by
      rw [Runner.clear, if_pos running]
      rfl
    have there : ((runner.restack stack).clear ctx').2 =
        ((runner.restack stack).interrupt ctx').2.free ((runner.restack stack).interrupt ctx').1.actor.caller := by
      rw [Runner.clear, if_pos (show (runner.restack stack).actor.status = .running from running)]
      rfl
    have own' : ((runner.restack stack).interrupt ctx').1.actor.caller = runner.actor.caller := by
      rw [interrupted]
      exact own
    rw [here, there, own, own']
    exact mirrors_free (own ▸ stopped.mirrors)
  · have here : (runner.clear ctx).2 = ctx.free runner.actor.caller := by
      rw [Runner.clear, if_neg running]
      rfl
    have there : ((runner.restack stack).clear ctx').2 = ctx'.free runner.actor.caller := by
      rw [Runner.clear, if_neg (show (runner.restack stack).actor.status ≠ .running from running)]
      rfl
    rw [here, there]
    exact mirrors_free twins.mirrors

end Runner
end BehaviorTree
