import BehaviorTree.Proofs.Session.Tidy
import BehaviorTree.Proofs.Succession.Session
import Mathlib.Data.List.Nodup

/-!
Clearing a runner, compared with giving it a new actor. A cleared actor keeps one thing from its
past: what the node that was executed last had reported. Whatever a host does from then on, it sees
what it would see of a new actor with that memory. A new actor takes a success to have been
reported last, so clearing stands for renewing if and only if that was so.
-/

namespace BehaviorTree

open Context (Given Tame)

/-! ### What a host sees -/

/-- What a host sees of one runner. -/
structure Session.Appearance where
  name : String
  status : TreeStatus
  vars : Blackboard
  /-- The running nodes and how far they are. -/
  stack : List Frame

/-- What a host sees of a command: the answer, the notes taken, and what has become of its runners. -/
structure Session.View where
  answer : Session.Answer
  notes : List Note
  runners : List Session.Appearance

namespace Session

/-- What a host is shown of all runners of a session. -/
def appearances (session : Session) : List Appearance :=
  session.runners.map fun (name, runner) =>
    ⟨name, runner.status session.context, runner.actor.vars, runner.actor.stack⟩

/-- What a host sees of a schedule of commands. -/
def views (session : Session) : List Command → List View
  | [] => []
  | command :: rest =>
    let ((answer, notes), session) := session.exchange command
    ⟨answer, notes, session.appearances⟩ :: session.views rest

/-- The session with another actor for a runner, for the caller that is given out next. -/
def reseat (session : Session) (name : String) (runner : Runner) (create : Nat → Actor) : Session :=
  let (caller, ctx) := session.context.newCaller
  let actor := create caller
  session.setRunner name { runner with actor } { ctx with directory := ctx.directory.put name actor.entry }

end Session

/-- A new actor with the same target and debug flag. -/
def Actor.renewed (actor : Actor) (caller : Nat) : Actor := .newWith caller actor.target actor.debug

/-! ### Successors are not seen -/

namespace Succession

variable (heir : Succession) {session : Session}

/-- To the host a succession does not show. -/
theorem appearances_session (session : Session) :
    (heir.session session).appearances = session.appearances := by
  have status (runner : Runner) : (heir.runner runner).status (heir.context session.context) =
      runner.status session.context := by
    rw [Runner.status, runner_caller,
      isPending_context]
    rfl
  rw [Session.appearances, session_runners, Index.relabel, List.map_map]
  refine List.map_congr_left fun entry _ => ?_
  simp only [Function.comp, session_context,
    status]
  rfl

/-- A host never sees the difference between an actor and its successor. -/
theorem views_session (ready : session.Ready) (tidy : session.Tidy) (past : heir.gone ≤ heir.count)
    (begun : heir.count ≤ session.context.callers) (schedule : List Session.Command) :
    (heir.session session).views schedule = session.views schedule := by
  induction schedule generalizing session with
  | nil => rfl
  | cons command rest ih =>
    have onward := tidy.exchange ready command
    rw [Session.views, Session.views, heir.exchange_session session ready past begun]
    simp only
    rw [appearances_session, ih (ready.exchange command) onward.tidy (Nat.le_trans begun onward.callers)]

/-! ### When no one else is touched -/

theorem owner_eq {caller : Nat} (early : caller ≤ heir.count) (other : caller ≠ heir.gone) :
    heir.owner caller = caller := by
  rw [owner, if_neg other, if_pos early]

theorem target_eq {target : Target} (within : target.Within heir.count) : heir.target target = target := by
  cases target with
  | caller id => exact congrArg Target.caller (if_pos within)
  | _ => rfl

/-- Where the predecessor has nothing, nothing changes hands. -/
theorem bus_eq {b : Bus Sink}
    (each : Bus.Each (fun caller => caller ≤ heir.count ∧ caller ≠ heir.gone)
      (Target.Within heir.count) b) : heir.bus b = b := by
  have listeners : Index.relabel id heir.targets b.byEvent = b.byEvent := by
    refine Index.relabel_eq_self fun entry member => ⟨rfl, Index.relabel_eq_self fun here inside => ?_⟩
    refine ⟨heir.target_eq (each.targets entry member here inside), ?_⟩
    refine (List.map_congr_left fun l present => ?_).trans (List.map_id _)
    have same := each.listeners entry member here inside l present
    exact congrArg (fun caller => { l with caller }) (heir.owner_eq same.1 same.2)
  have places : Index.relabel heir.owner (List.map heir.place) b.byCaller = b.byCaller := by
    refine Index.relabel_eq_self fun entry member => ?_
    have same := each.callers entry member
    refine ⟨heir.owner_eq same.1 same.2, ?_⟩
    refine (List.map_congr_left fun place inside => ?_).trans (List.map_id _)
    exact congrArg (Prod.mk place.1) (heir.target_eq (each.places entry member place inside))
  rw [bus, listeners, places]

theorem context_eq {ctx : Context}
    (each : ctx.Each (fun caller => caller ≤ heir.count ∧ caller ≠ heir.gone)
      (Target.Within heir.count)) :
    heir.context ctx =
      { ctx.newCaller.2 with directory := Index.relabel id heir.entry ctx.directory } := by
  have mailboxes : ctx.mailboxes.map heir.mailbox = ctx.mailboxes := by
    refine (List.map_congr_left fun box member => ?_).trans (List.map_id _)
    have same := (each.mailboxes box member).1
    rw [mailbox, heir.owner_eq same.1 same.2, heir.target_eq (each.mailboxes box member).2]
    rfl
  have requests : ctx.requests.map heir.owner = ctx.requests := by
    refine (List.map_congr_left fun caller member => ?_).trans (List.map_id _)
    exact heir.owner_eq (each.requests caller member).1 (each.requests caller member).2
  rw [context, heir.bus_eq each.bus, mailboxes, requests]
  rfl

/-- Where the predecessor has nothing, it has made room for a new actor. -/
theorem session_eq (tidy : session.Tidy) {name : String} {r : Runner}
    (there : session.runners.at? name = some r)
    (each : session.context.Each (fun caller => caller ≤ session.context.callers ∧ caller ≠ r.actor.caller)
      (Target.Within session.context.callers)) :
    (Succession.mk r.actor.caller session.context.callers).session session =
      session.reseat name r fun caller => { r.actor with caller } := by
  generalize next : Succession.mk r.actor.caller session.context.callers = heir
  have gone : heir.gone = r.actor.caller := by rw [← next]
  have count : heir.count = session.context.callers := by rw [← next]
  have renewed : heir.runner r =
      { r with actor := { r.actor with caller := session.context.callers + 1 } } := by
    rw [runner, actor, owner, if_pos gone.symm, count, heir.target_eq]
    rw [count]
    exact (tidy.given there).target
  have others (entry : String × Runner) (member : entry ∈ session.runners) (other : entry.1 ≠ name) :
      heir.runner entry.2 = entry.2 := by
    have found := tidy.given (Index.at?_of_mem tidy.distinct member)
    have apart : entry.2.actor.caller ≠ heir.gone := by
      rw [gone]
      intro same
      have owners := tidy.context.owners
      rw [tidy.directory, Session.entries, Index.relabel, List.map_map] at owners
      have equal := List.inj_on_of_nodup_map owners member (Index.mem_of_at? there) same
      exact other (congrArg Prod.fst equal)
    rw [runner, actor, heir.owner_eq (count ▸ found.caller) apart, heir.target_eq (count ▸ found.target)]
  have runners := Index.relabel_eq_put tidy.distinct there others
  have directory : Index.relabel id heir.entry session.context.directory =
      session.context.directory.put name (heir.runner r).actor.entry := by
    have both : Index.relabel id heir.entry (Session.entries session.runners) =
        Session.entries (Index.relabel id heir.runner session.runners) := by
      simp only [Session.entries, Index.relabel, List.map_map]
      rfl
    rw [tidy.directory, both, runners]
    exact Index.relabel_put Function.injective_id _ session.runners name (heir.runner r)
  have registered (table : Index String Registration)
      (within : ∀ entry ∈ table, entry.2.target.Within session.context.callers) :
      Index.relabel id heir.registration table = table := by
    refine Index.relabel_eq_self fun entry member => ⟨rfl, ?_⟩
    rw [registration, heir.target_eq (count ▸ within entry member)]
  rw [Succession.session, heir.context_eq (by rw [gone, count]; exact each), directory, runners, renewed,
    registered _ tidy.registrations, registered _ tidy.subscriptions]
  rfl

end Succession

/-! ### What clearing leaves -/

namespace Context

variable (ctx : Context)

theorem mem_unsubscribe {id : Nat} {box : Mailbox} (member : box ∈ (ctx.unsubscribe id).mailboxes) :
    box ∈ ctx.mailboxes ∧ box.listener ≠ id := by
  rw [unsubscribe] at member
  split at member
  · rename_i none
    refine ⟨member, fun same => ?_⟩
    exact absurd (decide_eq_true same) (List.find?_eq_none.mp none box member)
  · obtain ⟨member, other⟩ := List.mem_filter.mp member
    exact ⟨member, of_decide_eq_true other⟩

theorem mem_unsubscribes {ids : List Nat} {box : Mailbox}
    (member : box ∈ (ids.foldl unsubscribe ctx).mailboxes) : box ∈ ctx.mailboxes ∧ box.listener ∉ ids := by
  induction ids generalizing ctx with
  | nil => exact ⟨member, List.not_mem_nil⟩
  | cons id rest ih =>
    obtain ⟨member, none⟩ := ih (ctx.unsubscribe id) member
    obtain ⟨member, other⟩ := ctx.mem_unsubscribe member
    exact ⟨member, fun here => (List.mem_cons.mp here).elim other none⟩

/-- A caller that closes its mailboxes has none left. -/
theorem caller_ne_of_unsubscribeAll {caller : Nat} {box : Mailbox}
    (member : box ∈ (ctx.unsubscribeAll caller).mailboxes) : box.caller ≠ caller := by
  obtain ⟨before, closed⟩ := ctx.mem_unsubscribes member
  refine fun same => closed (List.mem_map.mpr ⟨box, ?_, rfl⟩)
  exact List.mem_filter.mpr ⟨before, decide_eq_true same⟩

/-- Closes the mailboxes of a caller, drops its requests and removes its listeners. -/
def free (caller : Nat) : Context := ((ctx.unsubscribeAll caller).dropRequest caller).offCaller caller

theorem tame_free (caller : Nat) : Tame ctx (ctx.free caller) :=
  ((ctx.tame_unsubscribeAll caller).trans (tame_dropRequest _ caller)).trans (tame_offCaller _ caller)

/-- Nothing in the context belongs to a caller that has been freed. -/
theorem Tidy.free {ctx : Context} (tidy : ctx.Tidy) (gone : Nat) :
    (ctx.free gone).Each (fun caller => caller ≤ ctx.callers ∧ caller ≠ gone)
      (Target.Within ctx.callers) := by
  have unsubscribed := ctx.tame_unsubscribeAll gone
  have left := unsubscribed.tidy tidy
  have known := unsubscribed.callers ▸ left.known
  refine ⟨known.bus.without left.indexed gone, fun box member => ?_, fun caller member => ?_⟩
  · exact ⟨⟨(known.mailboxes box member).1, ctx.caller_ne_of_unsubscribeAll member⟩,
      (known.mailboxes box member).2⟩
  · obtain ⟨member, other⟩ := List.mem_filter.mp member
    exact ⟨known.requests caller member, of_decide_eq_true other⟩

end Context

namespace Runner

variable (runner : Runner) (ctx : Context)

/-- All that is left of an actor that has been cleared is its identity, its debug flag and what was
reported last. -/
theorem actor_clear :
    (runner.clear ctx).1 =
      { runner with actor := { runner.actor.renewed runner.actor.caller with last := runner.actor.last } } := by
  by_cases running : runner.actor.status = .running
  · simp only [clear, if_pos running, interrupt]
    split <;> rfl
  · simp only [clear, if_neg running]
    rfl

/-- Clearing frees the caller, whatever an interrupted run leads to first. -/
theorem context_clear : ∃ stopped, Tame ctx stopped ∧ (runner.clear ctx).2 = stopped.free runner.actor.caller := by
  by_cases running : runner.actor.status = .running
  · have caller := congrArg Prod.fst (runner.entry_interrupt ctx)
    refine ⟨(runner.interrupt ctx).2, runner.tame_interrupt ctx, ?_⟩
    simp only [clear, if_pos running, unwind]
    exact congrArg (Context.free (runner.interrupt ctx).2) caller
  · refine ⟨ctx, .refl ctx, ?_⟩
    simp only [clear, if_neg running]
    rfl

theorem followers_follow (stage : Stage) (reaction : Reaction) :
    (runner.follow stage reaction).followers = runner.followers ++ [(stage, reaction)] := rfl

/-- The follower that hears first of a run, once one more has been added. -/
def herald : Stage × Reaction :=
  ((runner.followers.filter fun follower => follower.1 = .beforeRun).head?).getD (.beforeRun, ⟨"", []⟩)

variable {runner} {ctx}

/-- A run that begins at the root begins by telling its first follower what was reported last. -/
theorem Ready.notes_run {cache : ExprCache} (ready : runner.Ready cache)
    (given : Given ctx.callers runner.actor.caller runner.actor.target) (idle : runner.actor.stack = [])
    {first : Stage × Reaction} {others : List (Stage × Reaction)}
    (followed : (runner.followers.filter fun follower => follower.1 = .beforeRun) = first :: others) :
    ctx.notes ++ [.followed .beforeRun first.2.tag 0 runner.actor.status runner.actor.last] <+:
      (runner.run ctx).2.2.notes := by
  have still : runner.actor.isRunning = false := by simp [Actor.isRunning, idle]
  have dropped : Given (ctx.dropRequest runner.actor.caller).callers runner.actor.caller
      runner.actor.target := given
  have ticked := (ready.tame_tickNodes dropped).1
  rw [idle, List.isEmpty_nil, if_pos rfl, announce, followed, List.foldl_cons] at ticked
  have others (ctx : Context) : Tame ctx (others.foldl (fun ctx follower =>
      (ctx.note (.followed .beforeRun follower.2.tag 0 runner.actor.status runner.actor.last)).obey
        follower.2.orders) ctx) :=
    (Context.stirs_foldl (fun ctx _ => .head (.note ctx _) (Context.stirs_obey _ _)) others ctx).tame
  have told := (Context.stirs_obey ((ctx.dropRequest runner.actor.caller).note
    (.followed .beforeRun first.2.tag 0 runner.actor.status runner.actor.last)) first.2.orders).tame
  rw [run, still, Bool.and_false, if_neg Bool.false_ne_true]
  exact (((told.trans (others _)).trans ticked).trans (runner.tame_conclude _ _)).notes

end Runner

/-! ### Clearing and renewing -/

namespace Session

variable {session : Session} {name : String} {runner : Runner}

/-- Clearing gives the runner an actor that is new but for what was reported last. -/
theorem views_clear (ready : session.Ready) (tidy : session.Tidy)
    (there : session.runners.at? name = some runner) (schedule : List Command) :
    let cleared := (session.exchange (.toRunner name .clear)).2
    cleared.views schedule =
      (cleared.reseat name runner fun caller =>
        { runner.actor.renewed caller with last := runner.actor.last }).views schedule := by
  intro cleared
  have performed : session.perform (.toRunner name .clear) =
      (.nothing, session.setRunner name (runner.clear session.context).1 (runner.clear session.context).2) := by
    simp only [perform, there]
    rfl
  have same : cleared = ((session.setRunner name (runner.clear session.context).1
      (runner.clear session.context).2).takeNotes).2 := by
    simp only [cleared, exchange, performed]
  have onward := tidy.exchange ready (.toRunner name .clear)
  have found : cleared.runners.at? name = some (runner.clear session.context).1 := by
    rw [same]
    exact (Index.at?_put _ name name _).trans (if_pos rfl)
  obtain ⟨stopped, tame, freed⟩ := runner.context_clear session.context
  have callers : cleared.context.callers = stopped.callers := by
    have kept := (stopped.tame_free runner.actor.caller).callers
    rw [← freed] at kept
    rw [same]
    exact kept
  have each := (tame.tidy tidy.context).free runner.actor.caller
  have room : cleared.context.Each
      (fun caller => caller ≤ cleared.context.callers ∧ caller ≠ (runner.clear session.context).1.actor.caller)
      (Target.Within cleared.context.callers) := by
    rw [callers, runner.actor_clear, same]
    rw [← freed] at each
    exact ⟨each.bus, each.mailboxes, each.requests⟩
  have heir := Succession.session_eq onward.tidy found room
  have seen := Succession.views_session ⟨(runner.clear session.context).1.actor.caller, cleared.context.callers⟩
    (ready.exchange _) onward.tidy (onward.tidy.given found).caller (Nat.le_refl _) schedule
  rw [← seen, heir, runner.actor_clear]
  rfl

/-- Adds a follower and runs the tree. -/
def revealing (name : String) : List Command :=
  [.toRunner name (.follow Stage.beforeRun.name ⟨"", []⟩), .toRunner name .run]

/-- What the first note of the last answer in a schedule was. -/
def lastWord (views : List View) : Option Note := views.getLast?.bind fun view => view.notes.head?

theorem exchange_follow (there : session.runners.at? name = some runner) (stage : Stage)
    (reaction : Reaction) :
    (session.exchange (.toRunner name (.follow stage.name reaction))).2 =
      session.setRunner name (runner.follow stage reaction) { session.context with notes := [] } := by
  simp only [exchange, perform, there, performOn, Stage.ofName?_name]
  rfl

theorem exchange_run (there : session.runners.at? name = some runner) :
    (session.exchange (.toRunner name .run)).1.2 = (runner.run session.context).2.2.notes := by
  simp only [exchange, perform, there]
  rfl

/-- The host can make an idle actor tell what it takes to have been reported last. -/
theorem lastWord_revealing {cache : ExprCache} (there : session.runners.at? name = some runner)
    (ready : runner.Ready cache)
    (given : Given session.context.callers runner.actor.caller runner.actor.target)
    (idle : runner.actor.stack = []) :
    lastWord (session.views (revealing name)) =
      some (.followed .beforeRun runner.herald.2.tag 0 runner.actor.status runner.actor.last) := by
  let followed := runner.follow .beforeRun ⟨"", []⟩
  have answered : lastWord (session.views (revealing name)) =
      ((session.exchange (.toRunner name (.follow Stage.beforeRun.name ⟨"", []⟩))).2.exchange
        (.toRunner name .run)).1.2.head? := rfl
  have added : (session.setRunner name followed { session.context with notes := [] }).runners.at? name =
      some followed := (Index.at?_put session.runners name name followed).trans (if_pos rfl)
  have first : ∃ others, (followed.followers.filter fun follower => follower.1 = .beforeRun) =
      runner.herald :: others := by
    rw [Runner.followers_follow, Runner.herald, List.filter_append]
    generalize runner.followers.filter (fun follower => decide (follower.1 = .beforeRun)) = before
    rcases before with _ | ⟨follower, rest⟩
    · exact ⟨[], rfl⟩
    · exact ⟨_, rfl⟩
  obtain ⟨others, first⟩ := first
  have good : followed.Ready cache := ready.perform session.context (.follow .beforeRun ⟨"", []⟩)
  have known : Given { session.context with notes := [] }.callers followed.actor.caller
      followed.actor.target := given
  obtain ⟨rest, notes⟩ := good.notes_run known idle first
  rw [answered, exchange_follow there, exchange_run added]
  exact (congrArg List.head? notes).symm

theorem lastWord_reseat {cache : ExprCache} (name : String) (good : runner.tree.Ready cache)
    (within : runner.actor.target.Within session.context.callers) (last : Status) :
    lastWord ((session.reseat name runner fun caller =>
        { runner.actor.renewed caller with last }).views (revealing name)) =
      some (.followed .beforeRun runner.herald.2.tag 0 .idle last) := by
  let actor : Actor := { runner.actor.renewed (session.context.callers + 1) with last }
  have seated : (session.reseat name runner fun caller =>
      { runner.actor.renewed caller with last }).runners.at? name = some { runner with actor } :=
    (Index.at?_put session.runners name name _).trans (if_pos rfl)
  exact lastWord_revealing seated (.idle good rfl rfl _)
    ⟨Nat.le_refl _, within.mono (Nat.le_succ _)⟩ rfl

/-- Whatever a host has asked of a session with the built-in types, a runner that is cleared goes on
as one with a new actor does, but for the status that was reported last: that stays, and a new actor
takes it to have been a success. So a host may see a difference unless it was a success. -/
theorem clear_renews_iff (source : SourceInput) (commands : List Command) (name : String)
    (runner : Runner) :
    let session := (new Registry.builtin source).after commands
    let cleared := (session.exchange (.toRunner name .clear)).2
    session.runners.at? name = some runner →
      (∀ schedule, cleared.views schedule =
        (cleared.reseat name runner fun caller =>
          { runner.actor.renewed caller with last := runner.actor.last }).views schedule) ∧
      ((∀ schedule, cleared.views schedule =
        (cleared.reseat name runner runner.actor.renewed).views schedule) ↔
          runner.actor.last = .success) := by
  intro session cleared there
  have ready := (ready_new source).after commands
  have tidy := (tidy_new Registry.builtin source).after (ready_new source) commands
  have remembered := views_clear ready tidy there
  refine ⟨remembered, fun same => ?_, fun success schedule => ?_⟩
  · have told := congrArg lastWord ((remembered (revealing name)).symm.trans (same (revealing name)))
    have good := (ready.runners name runner there).tree
    have within := (tidy.given there).target.mono (tidy.exchange ready (.toRunner name .clear)).callers
    rw [lastWord_reseat name good within runner.actor.last] at told
    have fresh := lastWord_reseat name good within .success
    exact (Note.followed.inj (Option.some.inj (told.trans fresh))).2.2.2.2
  · rw [remembered schedule, success]
    rfl

/-- A tree that succeeds if what was executed last failed. -/
def contrarySource : Source :=
  [{ name := "contrary", root := { name := "IsStatus", args := [("status", .text "failure")] } }]

def contrary : Tree where
  name := "contrary"
  desc := ""
  root :=
    { id := 1, kind := .isStatus, name := "IsStatus", desc := "", args := [("status", .text "failure")]
      input := [], output := [], children := [] }

theorem load_contrary : contrarySource.load Registry.builtin [] "contrary" true = (.ok contrary, []) := by
  cbv

/-- Has the tree loaded and run once for a guard, which fails. -/
def failing : List Command :=
  [.load "contrary" "contrary" true none, .spawn "guard" "contrary" none false [], .toRunner "guard" .run]

/-- A runner of the tree as a failing first run leaves it. -/
def failed : Runner :=
  .new contrary { Actor.newWith 1 (.caller 1) false with last := .failure, status := .failure }

theorem at?_failing :
    ((new Registry.builtin (.trees contrarySource)).after failing).runners.at? "guard" = some failed := by
  simp only [failing, after, List.foldl, exchange, Session.perform, Session.load, Option.getD,
    SourceInput.read, new, Context.new, load_contrary]
  rfl

/-- Run again, the guard succeeds although it has been cleared; with a new actor it fails again. -/
theorem clear_renews_iff_failed :
    let session := (new Registry.builtin (.trees contrarySource)).after failing
    let cleared := (session.exchange (.toRunner "guard" .clear)).2
    let renewed := cleared.reseat "guard" failed failed.actor.renewed
    session.runners.at? "guard" = some failed ∧
      (∀ schedule, cleared.views schedule =
        (cleared.reseat "guard" failed fun caller =>
          { failed.actor.renewed caller with last := .failure }).views schedule) ∧
      (¬ ∀ schedule, cleared.views schedule = renewed.views schedule) ∧
      (cleared.views [.toRunner "guard" .run]).map View.answer = [.status .success] ∧
      (renewed.views [.toRunner "guard" .run]).map View.answer = [.status .failure] := by
  obtain ⟨remembered, success⟩ :=
    clear_renews_iff (.trees contrarySource) failing "guard" failed at?_failing
  refine ⟨at?_failing, remembered, fun same => absurd (success.mp same) nofun, ?_⟩
  simp only [failing, after, List.foldl, exchange, Session.perform, Session.load, Option.getD,
    SourceInput.read, new, Context.new, load_contrary]
  exact ⟨rfl, rfl⟩

end Session
end BehaviorTree
