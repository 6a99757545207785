import BehaviorTree.Proofs.Event.Silent
import BehaviorTree.Proofs.Session.Guarded

/-!
What is closed when frames are given up. An interrupt, an error and the end of a runner close all mailboxes of
its caller. In every state of a session that comes to the same as closing the mailbox of each listening node
that is given up, since these are all that the caller has.
-/

namespace BehaviorTree

open Context (Stirs Wired)
open Descent (Call Opened)

/-! ### Closing mailboxes -/

namespace Context

variable {ctx one two : Context}

/-- Two contexts with the same mailboxes and the same listeners at each place, and the same in all else. -/
structure Concurs (one two : Context) : Prop where
  mailboxes : one.mailboxes = two.mailboxes
  listeners : ∀ event target, one.bus.listeners event target = two.bus.listeners event target
  rest : { one with bus := two.bus, mailboxes := two.mailboxes } = two

/-- With a mailbox its listener is removed, and no other one. -/
theorem Wired.listeners_unsubscribe (wired : ctx.Wired) {box : Mailbox} (member : box ∈ ctx.mailboxes) (event : String)
    (target : Target) : (ctx.unsubscribe box.listener).bus.listeners event target =
      (ctx.bus.listeners event target).filter fun l => l.id ≠ box.listener := by
  rw [Context.unsubscribe, wired.mailbox?_eq member]
  simp only [Bus.listeners_offListener]
  split
  · rfl
  · rename_i elsewhere
    refine (List.filter_eq_self.mpr fun l present => ?_).symm
    rw [decide_eq_true_eq]
    intro same
    exact elsewhere ((wired.mem_ids_iff member event target).mp (same ▸ List.mem_map_of_mem present)).2

/-- With several mailboxes their listeners are removed, and no other ones. -/
theorem Wired.listeners_closing (wired : ctx.Wired) {ids : List Nat} (distinct : ids.Nodup)
    (boxed : ∀ id ∈ ids, ∃ box ∈ ctx.mailboxes, box.listener = id) (event : String) (target : Target) :
    (ctx.closing ids).bus.listeners event target = (ctx.bus.listeners event target).filter fun l => l.id ∉ ids := by
  induction ids generalizing ctx with
  | nil => simp [closing]
  | cons id rest ih =>
    obtain ⟨⟨box, member, rfl⟩, later⟩ := List.forall_mem_cons.mp boxed
    obtain ⟨apart, distinct⟩ := List.nodup_cons.mp distinct
    -- The mailboxes yet to be closed are others than this one.
    have left : ∀ id ∈ rest, ∃ other ∈ (ctx.unsubscribe box.listener).mailboxes, other.listener = id := by
      intro id inside
      obtain ⟨other, there, rfl⟩ := later id inside
      rw [mailboxes_unsubscribe]
      exact ⟨other, List.mem_filter.mpr ⟨there, decide_eq_true fun same => apart (same ▸ inside)⟩, rfl⟩
    rw [closing, List.foldl_cons, ← closing, ih (wired.unsubscribe _) distinct left, wired.listeners_unsubscribe member,
      List.filter_filter]
    refine List.filter_congr fun l _ => ?_
    simp [Bool.and_comm]

theorem closing_rest (ids : List Nat) (ctx : Context) (bus : Bus Sink) (mailboxes : List Mailbox) :
    { ctx.closing ids with bus, mailboxes } = { ctx with bus, mailboxes } := by
  induction ids generalizing ctx with
  | nil => rfl
  | cons id rest ih =>
    rw [closing, List.foldl_cons, ← closing, ih, unsubscribe]
    split <;> rfl

/-- In whichever order mailboxes are closed, it comes to the same. -/
theorem Wired.concurs_of_perm (wired : ctx.Wired) {ids other : List Nat} (perm : ids.Perm other) (distinct : ids.Nodup)
    (boxed : ∀ id ∈ ids, ∃ box ∈ ctx.mailboxes, box.listener = id) :
    (ctx.closing ids).Concurs (ctx.closing other) where
  mailboxes := by
    rw [mailboxes_closing, mailboxes_closing]
    exact List.filter_congr fun box _ => decide_eq_decide.mpr (not_congr perm.mem_iff)
  listeners event target := by
    rw [wired.listeners_closing distinct boxed, wired.listeners_closing (perm.nodup distinct)
      fun id inside => boxed id (perm.mem_iff.mpr inside)]
    exact List.filter_congr fun l _ => decide_eq_decide.mpr (not_congr perm.mem_iff)
  rest := by rw [closing_rest, ← closing_rest other]

/-- Closing all mailboxes of a caller is closing those that are known to be its own. -/
theorem Wired.concurs_unsubscribeAll (wired : ctx.Wired) {caller : Nat} {ids : List Nat}
    (own : ((ctx.boxes caller).map Mailbox.listener).Perm ids) :
    (ctx.unsubscribeAll caller).Concurs (ctx.closing ids) :=
  wired.concurs_of_perm own ((List.filter_sublist.map _).nodup wired.apart) fun id inside => by
    obtain ⟨box, there, rfl⟩ := List.mem_map.mp inside
    exact ⟨box, (mem_boxes.mp there).1, rfl⟩

end Context

/-- Whatever hosts do meanwhile, a caller has the mailboxes of the nodes that are held, and no others. -/
theorem Descent.Keeps.stirred {caller : Nat} {start told : Context} {holds : List Hold} {log : List Call} {s : Scene}
    (kept : Descent.Keeps caller start ↑holds log s) (stirs : Stirs s.context told) :
    (∀ h ∈ holds, Opened caller log told h) ∧
      ((told.boxes caller).map Mailbox.listener).Perm (holds.map Hold.listener) := by
  have posts := Context.map_boxes_of_posts Mailbox.emptied (fun _ => rfl) stirs.posts caller
  refine ⟨fun h member => (kept.opened h member).mono (List.Subset.refl _) fun box there _ => ?_, ?_⟩
  · have member : box.emptied ∈ (s.context.boxes caller).map Mailbox.emptied := List.mem_map_of_mem there
    rw [← posts] at member
    exact List.mem_map.mp member
  · rw [Context.map_boxes_of_posts Mailbox.listener (fun _ => rfl) stirs.posts caller]
    exact Multiset.coe_eq_coe.mp kept.owned

/-! ### Runners -/

namespace Runner

/-- What becomes of the mailboxes when a runner abandons what runs, or is given up itself. -/
structure Closes (log : List Call) (ctx : Context) (runner : Runner) : Prop where
  /-- Once the followers have been told about an interrupt, the mailboxes of the nodes on the stack are closed. -/
  interrupted :
    let depth := runner.actor.stack.length
    let told := runner.announce .interrupted depth (ctx.note (.interrupted runner.tree.name depth))
    (runner.abort ctx).2.Concurs (told.closing ((stackHolds runner.actor.stack).map Hold.listener))
  /-- After an error those of the nodes are closed that have been entered and were still active. -/
  failed : ∀ fault scene, runner.tickNodes ctx = (.error fault, scene) →
    let cut : Runner := { runner with actor := scene.actor }
    let told := cut.report scene.context fault
    ∃ holds : List Hold, (∀ h ∈ holds, Opened runner.actor.caller
        (log ++ runner.rootCall ctx :: (runner.rootCall ctx).within) told h) ∧
      (cut.unwind told).2.Concurs (told.closing (holds.map Hold.listener))
  /-- With the runner those of the nodes on the stack are closed. -/
  dropped : ∃ closed : Context, runner.discard ctx = closed.offCaller runner.actor.caller ∧
    closed.Concurs (ctx.closing ((stackHolds runner.actor.stack).map Hold.listener))

variable {runner : Runner} {cache : ExprCache} {log : List Call} {ctx : Context}

theorem stirs_report (runner : Runner) (ctx : Context) (fault : Fault) : Stirs ctx (runner.report ctx fault) := by
  rw [report]
  split
  · exact .head (.note ctx _) (runner.stirs_announce _ _ _)
  · exact .head (.note ctx _) .refl

theorem Ready.closes (ready : runner.Ready cache) (wired : ctx.Wired) (held : runner.Held log ctx) :
    runner.Closes log ctx where
  interrupted := by
    intro depth
    have stirs : Stirs ctx (runner.announce .interrupted depth (ctx.note (.interrupted runner.tree.name depth))) :=
      .head (.note ctx _) (runner.stirs_announce _ _ _)
    have told := held.mono (List.Subset.refl _) (Context.map_boxes_of_posts Mailbox.emptied (fun _ => rfl) stirs.posts _)
    exact (stirs.wired wired).concurs_unsubscribeAll told.owned
  failed := by
    intro fault scene raised
    have kept := ready.keeps_ticks wired held
    rw [ready.tickNodes_eq] at raised
    generalize (Descent.tick runner.tree.root (restore runner.actor.stack) []).play (runner.opening ctx) = ticked
      at kept raised
    rw [Prod.mk.injEq] at raised
    obtain ⟨failed, rfl⟩ := raised
    obtain ⟨fault' | report, scene⟩ := ticked
    · cases failed
      obtain ⟨H, kept⟩ := kept
      obtain ⟨holds, rfl⟩ := Quot.exists_rep H
      intro cut told
      have stirs := cut.stirs_report scene.context fault
      obtain ⟨opened, owned⟩ := kept.stirred stirs
      have same : cut.actor.caller = runner.actor.caller := kept.acting
      exact ⟨holds, opened, (stirs.wired kept.wired).concurs_unsubscribeAll (same ▸ owned)⟩
    · cases failed
  dropped := ⟨_, rfl, wired.concurs_unsubscribeAll held.owned⟩

end Runner

/-- In every state of a session, whatever its runners have been told: what a runner abandons is closed frame by
frame, no more and no less. -/
theorem Session.closes_frames (source : SourceInput) (commands : List Command) {name : String} {runner : Runner}
    (there : ((new Registry.builtin source).after commands).runners.at? name = some runner) :
    runner.Closes ((new Registry.builtin source).journal name commands)
      ((new Registry.builtin source).after commands).context := by
  have ready := ((ready_new source).after commands).runners name runner there
  have guarded := (guarded_new Registry.builtin source (fun _ => False) fun _ => []).after
    (tidy_new Registry.builtin source) (ready_new source) commands nofun
  have held := guarded.held name runner there
  rw [List.nil_append] at held
  exact ready.closes guarded.wired held

end BehaviorTree
