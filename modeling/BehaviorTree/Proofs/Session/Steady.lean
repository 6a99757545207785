import BehaviorTree.Proofs.Descent.Executions
import BehaviorTree.Proofs.Event.Passage
import BehaviorTree.Proofs.Session.Journal

/-!
What a run does to the mailboxes. Others keep theirs, stage by stage, and the listening nodes of the
runner itself hold exactly the mailboxes of its caller.
-/

namespace BehaviorTree

open Context (Attended Passage Spared Untouched)
open Descent (Active Call Keeps Opened Report Share Sound frames shareHolds tick)

/-! ### Runs -/

namespace Runner

namespace Steady

variable {K : Context → Prop} {runner : Runner} {ctx : Context}
  (steady : Steady runner.actor.caller runner.followers K)

include steady

theorem opening (kept : K ctx) : K (runner.opening ctx).context := by
  rw [Runner.opening]
  split
  · exact steady.announce .beforeRun 0 kept
  · exact kept

/-- A run keeps what its ticks and the orders of its followers keep. -/
theorem run (kept : K ctx)
    (same : (runner.tickNodes (ctx.dropRequest runner.actor.caller)).2.actor.caller = runner.actor.caller)
    (ticks : K (runner.opening (ctx.dropRequest runner.actor.caller)).context →
      K (runner.tickNodes (ctx.dropRequest runner.actor.caller)).2.context) : K (runner.run ctx).2.2 := by
  rw [run_eq]
  split
  · exact steady.abort (steady.dropRequest kept)
  · exact steady.conclude _ same (ticks (steady.opening (steady.dropRequest kept)))

end Steady

/-! ### Others -/

theorem steady_passage (ctx : Context) (caller : Nat) (followers : List (Stage × Reaction)) :
    Steady caller followers (Passage caller ctx) where
  note _ _ passage := passage.trans (Context.passage_of_same passage.wired rfl rfl)
  obey _ _ passage := passage.trans ((Context.stirs_obey _ _).passage passage.wired)
  dropRequest passage := passage.trans (Context.passage_of_same passage.wired rfl rfl)
  unwind passage := passage.trans (Context.passage_unsubscribeAll passage.wired _)

/-- Followers that spare an actor keep it spared. -/
theorem steady_spared (caller : Nat) {followers : List (Stage × Reaction)} {name : String}
    (spare : ∀ follower ∈ followers, follower.2.spares name) (spared : Option Nat) :
    Steady caller followers (Spared name spared) where
  note _ _ kept := kept.congr rfl rfl rfl
  obey follower member kept :=
    (Context.withstands_spared name spared).obey (sparesAll_eq_true.mp (spare follower member)) kept
  dropRequest kept := kept.congr rfl rfl rfl
  unwind kept := kept.unsubscribeAll _

/-- A caller without mailboxes gets none among events. -/
theorem steady_boxes_nil (caller : Nat) (followers : List (Stage × Reaction)) :
    Steady caller followers fun ctx => ctx.boxes caller = [] where
  note _ _ none := none
  obey {ctx} follower _ none := by
    have same := Context.map_boxes_of_posts Mailbox.emptied (fun _ => rfl)
      (Context.stirs_obey ctx follower.2.orders).posts caller
    rw [none, List.map_nil] at same
    exact List.map_eq_nil_iff.mp same
  dropRequest none := none
  unwind _ := Context.boxes_unsubscribeAll _ _

end Runner

/-! ### The mailboxes of the runner -/

/-- The hold once the run is over: its node is due to look for events in the next one. -/
def Hold.rouse (h : Hold) : Hold := { h with stance := if h.stance = .idle then .due else h.stance }

namespace Descent

mutual

/-- Rousing the idle holds of a state makes them due. -/
theorem holds_due : ∀ (node : Node) (state : Active),
    state.holds .due node = (state.holds .idle node).map Hold.rouse
  | node, .resting memory => by cases memory <;> rfl
  | node, .over memory i state => by
    have own : memory.holds node .busy = (memory.holds node .busy).map Hold.rouse := by cases memory <;> rfl
    rw [Active.holds, Active.holds, List.map_append, ← own]
    refine congrArg _ ?_
    rcases node.children[i]? with _ | child
    · rfl
    · exact holds_due child state
  | node, .beside shares => by rw [Active.holds, Active.holds, shareHolds_due node.children shares]

theorem shareHolds_due : ∀ (nodes : List Node) (shares : List Share),
    shareHolds .due nodes shares = (shareHolds .idle nodes shares).map Hold.rouse
  | [], _ => by rw [shareHolds, shareHolds, List.map_nil] <;> exact nofun
  | _ :: _, [] => by rw [shareHolds, shareHolds, List.map_nil] <;> exact nofun
  | _ :: rest, .settled _ :: shares => by
    rw [shareHolds, shareHolds, Share.holds, Share.holds, List.nil_append, List.nil_append,
      shareHolds_due rest shares]
  | node :: rest, .active state :: shares => by
    rw [shareHolds, shareHolds, Share.holds, Share.holds, List.map_append, holds_due node state,
      shareHolds_due rest shares]

end

/-- What ticking nodes does to others. -/
theorem Keeps.passage {caller : Nat} {start : Context} {H : Multiset Hold} {log : List Call} {s : Scene}
    (keeps : Keeps caller start H log s) : Passage caller start s.context where
  wired := keeps.wired
  issued := keeps.issued
  grown := keeps.grown
  others other apart := by rw [(keeps.others other apart).boxes]

/-- Ticks keep an actor spared. -/
theorem Keeps.spared {caller : Nat} {start : Context} {H : Multiset Hold} {log : List Call} {s : Scene}
    {name : String} {spared : Option Nat} (keeps : Keeps caller start H log s)
    (directory : s.context.directory = start.directory) (kept : Spared name spared start) :
    Spared name spared s.context where
  wired := keeps.wired
  heeds event target l present reaction host :=
    kept.heeds event target l ((keeps.hosts event target l (by rw [host]; exact nofun)).mp present) reaction host
  attended c member := by
    by_cases own : c = caller
    · exact own ▸ keeps.attended (own ▸ kept.attended c member)
    · exact (keeps.others c own).attended (kept.attended c member)
  known := directory ▸ kept.known

end Descent

namespace Runner

/-- The active listening nodes of a runner hold the mailboxes of its caller. -/
structure Held (log : List Call) (ctx : Context) (runner : Runner) : Prop where
  owned : ((ctx.boxes runner.actor.caller).map Mailbox.listener).Perm
    ((stackHolds runner.actor.stack).map Hold.listener)
  opened : ∀ h ∈ stackHolds runner.actor.stack, Opened runner.actor.caller log ctx h

namespace Held

variable {log more : List Call} {older newer ctx : Context} {runner : Runner}

/-- Growth of the log and filled mailboxes leave what is held. -/
theorem mono (held : runner.Held log older) (logged : log ⊆ more)
    (same : (newer.boxes runner.actor.caller).map Mailbox.emptied =
      (older.boxes runner.actor.caller).map Mailbox.emptied) : runner.Held more newer where
  owned := by
    have listed := congrArg (List.map Mailbox.listener) same
    rw [List.map_map, List.map_map] at listed
    exact listed ▸ held.owned
  opened h member := (held.opened h member).mono logged fun box there _ => by
    have there : box.emptied ∈ (older.boxes runner.actor.caller).map Mailbox.emptied :=
      List.mem_map_of_mem there
    rw [← same] at there
    exact List.mem_map.mp there

theorem of_nil (stack : runner.actor.stack = []) (none : ctx.boxes runner.actor.caller = []) :
    runner.Held log ctx where
  owned := by rw [stack, none]; exact .nil
  opened h member := by
    rw [stack] at member
    cases member

/-- After a tick that has not been cut short, what is held is what the stack tells. -/
theorem of_keeps {tree : Tree} {followers : List (Stage × Reaction)} {caller : Nat} {state : Active}
    {scene : Scene} {completed : List Nat} (sound : Sound completed tree.root state)
    (keeps : Keeps caller ctx (Report.holds tree.root (.running state)) log scene) :
    Runner.Held log scene.context
      ⟨tree, { scene.actor with stack := frames tree.root state, status := .running }, followers⟩ where
  owned := by
    have owned := keeps.owned
    rw [Report.holds, Multiset.map_coe, Multiset.coe_eq_coe, Descent.listener_holds .idle sound,
      ← Descent.listener_holds .due sound] at owned
    rw [Descent.stackHolds_frames sound]
    exact keeps.acting ▸ owned
  opened h member := by
    rw [Descent.stackHolds_frames sound, Descent.holds_due] at member
    obtain ⟨before, there, rfl⟩ := List.mem_map.mp member
    exact keeps.acting ▸ keeps.opened before (Multiset.mem_coe.mpr there)

end Held

variable {runner : Runner} {cache : ExprCache} {log : List Call} {ctx : Context}

namespace Ready

/-- What is held when the nodes of a run are ticked is what the stack tells. -/
theorem holdsBefore_restore (ready : runner.Ready cache) :
    Descent.holdsBefore runner.tree.root (restore runner.actor.stack) = ↑(stackHolds runner.actor.stack) := by
  rcases ready.restores with ⟨none, empty⟩ | ⟨state, found, sound, laid⟩
  · rw [none, empty]
    rfl
  · rw [found, laid, Descent.stackHolds_frames sound]
    rfl

/-- What every single step of a tick keeps is kept while the nodes of a run are ticked. -/
theorem invariant_ticks {I : Multiset Hold → List Call → Scene → Prop} (ready : runner.Ready cache)
    (inv : Descent.Invariant I) (kept : I ↑(stackHolds runner.actor.stack) log (runner.opening ctx)) :
    Descent.Leaves I runner.tree.root 0 (log ++ runner.rootCall ctx :: (runner.rootCall ctx).within)
      ((tick runner.tree.root (restore runner.actor.stack) []).play (runner.opening ctx)) := by
  have called := inv.call kept fun entry : (runner.rootCall ctx).IsEntry =>
    entry.2.elim fun _ heard => nomatch heard
  rw [← ready.holdsBefore_restore, ← Multiset.zero_add (Descent.holdsBefore _ _)] at called
  have ticked : Descent.Leaves I (runner.rootCall ctx).node _ _ _ :=
    inv.tick ready.shaped (fun state member => (ready.sound state member).mono nofun)
      (List.mem_append_right _ List.mem_cons_self) called
  rw [List.append_assoc] at ticked
  exact ticked

end Ready

theorem opening_wired (wired : ctx.Wired) : (runner.opening ctx).context.Wired :=
  ((steady_passage ctx runner.actor.caller runner.followers).opening (.refl wired)).wired

/-- Telling its followers closes no mailbox of a runner. -/
theorem Held.opening (held : runner.Held log ctx) : runner.Held log (runner.opening ctx).context := by
  refine held.mono (List.Subset.refl _) ?_
  rw [Runner.opening]
  split
  · exact Context.map_boxes_of_posts Mailbox.emptied (fun _ => rfl) (runner.stirs_announce ctx _ _).posts _
  · rfl

/-- At the opening of a run the stack holds what it has. -/
theorem Held.keeps (held : runner.Held log ctx) (wired : ctx.Wired) :
    Keeps runner.actor.caller (runner.opening ctx).context ↑(stackHolds runner.actor.stack) log
      (runner.opening ctx) where
  acting := rfl
  wired := opening_wired wired
  issued := Nat.le_refl _
  grown box member := .inl ⟨box, member, rfl⟩
  hosts _ _ _ _ := Iff.rfl
  owned := Multiset.coe_eq_coe.mpr held.opening.owned
  opened := held.opening.opened
  attended := id
  others _ _ := .refl _

/-- What holds of the listeners once the nodes of a run have been ticked. -/
theorem Ready.keeps_ticks (ready : runner.Ready cache) (wired : ctx.Wired) (held : runner.Held log ctx) :
    Descent.Leaves (Keeps runner.actor.caller (runner.opening ctx).context) runner.tree.root 0
      (log ++ runner.rootCall ctx :: (runner.rootCall ctx).within)
      ((tick runner.tree.root (restore runner.actor.stack) []).play (runner.opening ctx)) :=
  ready.invariant_ticks (Descent.invariant_keeps _ _) (held.keeps wired)

/-- A run that ends with nothing held leaves nothing held. -/
theorem held_complete (stack : runner.actor.stack = []) (none : ctx.boxes runner.actor.caller = [])
    (verdict : Verdict) :
    (runner.complete ctx verdict).2.1.Held log (runner.complete ctx verdict).2.2 := by
  have steady := steady_boxes_nil runner.actor.caller runner.followers
  exact .of_nil stack (steady.complete verdict none)

/-- After a run every frame that listens holds its listener. -/
theorem Ready.held_run (ready : runner.Ready cache) (wired : ctx.Wired) (held : runner.Held log ctx) :
    (runner.run ctx).2.1.Held (log ++ runner.calls ctx) (runner.run ctx).2.2 := by
  rw [run_eq, Runner.calls]
  split
  · exact .of_nil rfl (Context.boxes_unsubscribeAll _ _)
  · have dropped : (ctx.dropRequest runner.actor.caller).Wired := wired.congr rfl rfl
    have held : runner.Held log (ctx.dropRequest runner.actor.caller) := held.mono (List.Subset.refl _) rfl
    generalize ctx.dropRequest runner.actor.caller = ctx at dropped held
    have kept := ready.keeps_ticks dropped held
    have sound := ready.gives_ticks ctx
    rw [ready.tickNodes_eq]
    unfold TickM.Gives at sound
    generalize (tick runner.tree.root (restore runner.actor.stack) []).play (runner.opening ctx) = ticked
      at kept sound ⊢
    obtain ⟨fault | (verdict | state), scene⟩ := ticked
    · exact held_complete rfl (Context.boxes_unsubscribeAll _ _) .failure
    · refine held_complete rfl ?_ verdict
      have owned := kept.owned
      rw [← kept.acting] at owned
      exact List.map_eq_nil_iff.mp ((Multiset.coe_eq_zero _).mp owned)
    · exact .of_keeps (sound _ _ rfl).1 kept

/-- However the ticks of a run end, others are left alone. -/
theorem Ready.scene_ticks (ready : runner.Ready cache) (wired : ctx.Wired) (held : runner.Held log ctx) :
    ∃ H log, Keeps runner.actor.caller (runner.opening ctx).context H log (runner.tickNodes ctx).2 := by
  have kept := ready.keeps_ticks wired held
  rw [ready.tickNodes_eq]
  generalize (tick runner.tree.root (restore runner.actor.stack) []).play (runner.opening ctx) = ticked
    at kept ⊢
  obtain ⟨fault | report, scene⟩ := ticked
  · obtain ⟨more, kept⟩ := kept
    exact ⟨_, _, kept⟩
  · exact ⟨_, _, kept⟩

theorem Ready.passage_run (ready : runner.Ready cache) (wired : ctx.Wired) (held : runner.Held log ctx) :
    Passage runner.actor.caller ctx (runner.run ctx).2.2 := by
  have wired' : (ctx.dropRequest runner.actor.caller).Wired := wired.congr rfl rfl
  have held' : runner.Held log (ctx.dropRequest runner.actor.caller) := held.mono (List.Subset.refl _) rfl
  obtain ⟨H, log, kept⟩ := ready.scene_ticks wired' held'
  exact (steady_passage ctx runner.actor.caller runner.followers).run (.refl wired) kept.acting
    fun passage => passage.trans kept.passage

/-- A run keeps an actor spared that its followers spare. -/
theorem Ready.spared_run (ready : runner.Ready cache) (held : runner.Held log ctx) {name : String}
    {spared : Option Nat} (given : Context.Given ctx.callers runner.actor.caller runner.actor.target)
    (spare : ∀ follower ∈ runner.followers, follower.2.spares name) (kept : Spared name spared ctx) :
    Spared name spared (runner.run ctx).2.2 := by
  have wired' : (ctx.dropRequest runner.actor.caller).Wired := kept.wired.congr rfl rfl
  have held' : runner.Held log (ctx.dropRequest runner.actor.caller) := held.mono (List.Subset.refl _) rfl
  have given' : Context.Given (ctx.dropRequest runner.actor.caller).callers runner.actor.caller
      runner.actor.target := given
  obtain ⟨H, log, keeps⟩ := ready.scene_ticks wired' held'
  exact (steady_spared runner.actor.caller spare spared).run kept keeps.acting
    (keeps.spared (ready.tame_tickNodes given').1.directory)

theorem Held.interrupt (held : runner.Held log ctx) :
    (runner.interrupt ctx).1.Held log (runner.interrupt ctx).2 := by
  rw [Runner.interrupt]
  split
  · exact .of_nil rfl (Context.boxes_unsubscribeAll _ _)
  · exact held

/-- A cleared runner has no mailbox. -/
theorem boxes_clear (runner : Runner) (ctx : Context) :
    (runner.clear ctx).2.boxes runner.actor.caller = [] := by
  have same : (runner.interrupt ctx).1.actor.caller = runner.actor.caller :=
    congrArg Prod.fst (runner.entry_interrupt ctx)
  by_cases running : runner.actor.status = .running
  · simp only [Runner.clear, if_pos running]
    rw [← same]
    exact Context.boxes_unsubscribeAll _ _
  · simp only [Runner.clear, if_neg running]
    exact Context.boxes_unsubscribeAll _ _

theorem held_clear (runner : Runner) (ctx : Context) :
    (runner.clear ctx).1.Held log (runner.clear ctx).2 := by
  have same : (runner.clear ctx).1.actor.caller = runner.actor.caller :=
    congrArg Prod.fst (runner.entry_clear ctx)
  exact .of_nil rfl (same ▸ boxes_clear runner ctx)

theorem passage_interrupt (wired : ctx.Wired) : Passage runner.actor.caller ctx (runner.interrupt ctx).2 :=
  (steady_passage ctx runner.actor.caller runner.followers).interrupt (.refl wired)

theorem passage_clear (wired : ctx.Wired) : Passage runner.actor.caller ctx (runner.clear ctx).2 := by
  obtain ⟨before, passage, same⟩ :=
    (steady_passage ctx runner.actor.caller runner.followers).cleared (.refl wired)
  rw [same]
  exact passage.trans (Context.passage_of_without passage.wired (Bus.without_offCaller _ _))

theorem passage_discard (wired : ctx.Wired) : Passage runner.actor.caller ctx (runner.discard ctx) := by
  have closed := Context.passage_unsubscribeAll wired runner.actor.caller
  exact closed.trans (Context.passage_of_without closed.wired (Bus.without_offCaller _ _))

/-- Removing the listeners of a caller without mailboxes leaves an actor's mailboxes attended. -/
theorem spared_offCaller {name : String} {spared : Option Nat} {caller : Nat}
    (kept : Spared name spared ctx) (none : ctx.boxes caller = []) :
    Spared name spared (ctx.offCaller caller) := by
  refine kept.without (Bus.without_offCaller ctx.bus caller) fun c _ box there _ same => ?_
  have member : box ∈ ctx.boxes caller := Context.mem_boxes.mpr ⟨there, same⟩
  rw [none] at member
  cases member

theorem spared_clear {name : String} {spared : Option Nat}
    (spare : ∀ follower ∈ runner.followers, follower.2.spares name) (kept : Spared name spared ctx) :
    Spared name spared (runner.clear ctx).2 := by
  obtain ⟨before, kept, same⟩ := (steady_spared runner.actor.caller spare spared).cleared kept
  have none := boxes_clear runner ctx
  rw [same] at none ⊢
  exact spared_offCaller kept none

theorem spared_discard {name : String} {spared : Option Nat} (kept : Spared name spared ctx) :
    Spared name spared (runner.discard ctx) :=
  spared_offCaller (kept.unsubscribeAll _) (Context.boxes_unsubscribeAll _ _)

/-! ### Followers -/

theorem followers_run (runner : Runner) (ctx : Context) : (runner.run ctx).2.1.followers = runner.followers := by
  rw [run_eq]
  split
  · rfl
  · generalize runner.tickNodes (ctx.dropRequest runner.actor.caller) = ticked
    obtain ⟨fault | (verdict | frames), scene⟩ := ticked <;> rfl

theorem followers_interrupt (runner : Runner) (ctx : Context) :
    (runner.interrupt ctx).1.followers = runner.followers := by
  rw [Runner.interrupt]
  split <;> rfl

theorem followers_clear (runner : Runner) (ctx : Context) :
    (runner.clear ctx).1.followers = runner.followers := by
  by_cases running : runner.actor.status = .running
  · simp only [Runner.clear, if_pos running]
    exact runner.followers_interrupt ctx
  · simp only [Runner.clear, if_neg running]
    rfl

end Runner
end BehaviorTree
