import BehaviorTree.Proofs.Event.Tidy
import BehaviorTree.Proofs.Session.ByStage
import BehaviorTree.Proofs.Session.Ready

/-!
Tidy sessions. The directory lists exactly the runners that a host has named, each with the caller
and the target of its actor, and no two of them share a caller. Whatever a host asks for, a tidy
session stays tidy.
-/

namespace BehaviorTree

open Context (Given Tame Tidy)
open Descent (Effects Walker)

/-- What the directory holds of an actor. -/
def Actor.entry (actor : Actor) : Nat × Target := (actor.caller, actor.target)

/-! ### Runs -/

namespace Runner

variable (runner : Runner) (ctx : Context)

/-- Stage by stage a runner makes no more of its context than ticks and events do. -/
theorem steady_tame (caller : Nat) (followers : List (Stage × Reaction)) : Steady caller followers (Tame ctx) where
  note n _ tame := tame.trans (Context.tame_note _ n)
  obey follower _ tame := tame.trans (Context.stirs_obey _ follower.2.orders).tame
  dropRequest tame := tame.trans (Context.tame_dropRequest _ caller)
  unwind tame := tame.trans (Context.tame_unsubscribeAll _ caller)

theorem tame_interrupt : Tame ctx (runner.interrupt ctx).2 := (steady_tame ctx _ _).interrupt (.refl ctx)

theorem tame_discard : Tame ctx (runner.discard ctx) :=
  (ctx.tame_unsubscribeAll _).trans (Context.tame_offCaller _ _)

theorem tame_conclude (result : Except Fault Outcome) (scene : Scene) :
    Tame scene.context (runner.conclude result scene).2.2 :=
  -- The run is concluded with the actor of the scene, whatever actor the runner had before.
  (steady_tame scene.context _ _ : Steady ({ runner with actor := scene.actor } : Runner).actor.caller _ _).conclude
    result rfl (.refl scene.context)

theorem tame_clear : Tame ctx (runner.clear ctx).2 := by
  obtain ⟨before, tame, same⟩ := (steady_tame ctx runner.actor.caller runner.followers).cleared (.refl ctx)
  rw [same]
  exact tame.trans (Context.tame_offCaller _ _)

theorem entry_interrupt : (runner.interrupt ctx).1.actor.entry = runner.actor.entry := by
  rw [interrupt]
  split <;> rfl

theorem entry_clear : (runner.clear ctx).1.actor.entry = runner.actor.entry := by
  by_cases running : runner.actor.status = .running
  · simp only [clear, if_pos running]
    exact runner.entry_interrupt ctx
  · simp only [clear, if_neg running]
    rfl

theorem entry_conclude (result : Except Fault Outcome) (scene : Scene) :
    (runner.conclude result scene).2.1.actor.entry = scene.actor.entry := by
  rcases result with fault | (verdict | frames) <;> rfl

variable {runner} {ctx} {cache : ExprCache}

/-- The nodes of a run add to what is there when the run has begun. -/
theorem Ready.tame_tickNodes (ready : runner.Ready cache)
    (given : Given ctx.callers runner.actor.caller runner.actor.target) :
    Tame (if runner.actor.stack.isEmpty then runner.announce .beforeRun 0 ctx else ctx)
        (runner.tickNodes ctx).2.context ∧
      (runner.tickNodes ctx).2.actor.entry = runner.actor.entry := by
  obtain ⟨walker, valid, rfl⟩ := ready.laid
  have builtin := ready.tree.admitted.mono fun _ admitted => admitted.toShaped.builtin
  have begun : (if walker.active.isNone then walker.runner.announce .beforeRun 0 ctx else ctx).callers =
      ctx.callers := by
    split
    · exact ((steady_tame ctx _ _).announce .beforeRun 0 (.refl ctx)).callers
    · rfl
  have effects : Effects walker.runner.tree.root.ids _ (walker.tickRoot ctx).2 :=
    Descent.changes_tick walker.runner.tree.root builtin walker.active []
      ⟨_, { walker.runner.actor with stack := [] }⟩
  rw [Walker.layout_tickNodes ready.tree.built valid, Walker.layout_stack, Walker.isEmpty_stack]
  refine ⟨effects.tame ?_, Prod.ext effects.caller effects.target⟩
  rw [begun]
  exact given

/-- A run is tame, and the actor is known as it was. -/
theorem Ready.tame_run (ready : runner.Ready cache)
    (given : Given ctx.callers runner.actor.caller runner.actor.target) :
    Tame ctx (runner.run ctx).2.2 ∧ (runner.run ctx).2.1.actor.entry = runner.actor.entry := by
  have dropped := ctx.tame_dropRequest runner.actor.caller
  rw [run]
  simp only
  split
  · exact ⟨(steady_tame ctx _ _).abort dropped, rfl⟩
  · have given : Given (ctx.dropRequest runner.actor.caller).callers runner.actor.caller
        runner.actor.target := given
    obtain ⟨ticked, same⟩ := ready.tame_tickNodes given
    refine ⟨(dropped.trans ?_).trans (runner.tame_conclude _ _), (runner.entry_conclude _ _).trans same⟩
    refine Tame.trans ?_ ticked
    split
    · exact (steady_tame _ _ _).announce .beforeRun 0 (.refl _)
    · exact .refl _

end Runner

/-! ### Sessions -/

namespace Session

/-- The directory that the runners of a session come to. -/
def entries (runners : Index String Runner) : Index String (Nat × Target) :=
  Index.relabel id (fun runner => runner.actor.entry) runners

/-- The context is tidy, its directory lists the runners, and listeners point at callers that were
given out. -/
structure Tidy (session : Session) : Prop where
  context : session.context.Tidy
  directory : session.context.directory = entries session.runners
  registrations : ∀ entry ∈ session.registrations, entry.2.target.Within session.context.callers
  subscriptions : ∀ entry ∈ session.subscriptions, entry.2.target.Within session.context.callers

/-- A tidy session that comes later. -/
structure Onward (older newer : Session) : Prop where
  tidy : newer.Tidy
  callers : older.context.callers ≤ newer.context.callers

theorem tidy_new (registry : Registry) (source : SourceInput) : (new registry source).Tidy where
  context := Context.tidy_new registry
  directory := rfl
  registrations := nofun
  subscriptions := nofun

namespace Tidy

variable {session : Session}

theorem at?_directory (tidy : session.Tidy) (name : String) :
    session.context.directory.at? name =
      (session.runners.at? name).map fun runner => runner.actor.entry := by
  rw [tidy.directory]
  exact Index.at?_relabel Function.injective_id _ session.runners name

/-- Every runner stands in the directory. -/
theorem given (tidy : session.Tidy) {name : String} {runner : Runner}
    (there : session.runners.at? name = some runner) :
    Given session.context.callers runner.actor.caller runner.actor.target := by
  have listed := tidy.at?_directory name
  rw [there] at listed
  exact tidy.context.entries _ (Index.mem_of_at? listed)

theorem distinct (tidy : session.Tidy) : session.runners.Distinct := by
  have names := tidy.context.distinct
  rw [tidy.directory, Index.Distinct, entries, Index.relabel, List.map_map] at names
  exact names

theorem refl (tidy : session.Tidy) : session.Onward session := ⟨tidy, Nat.le_refl _⟩

/-- Tame changes to the context, as long as everyone else stays as they are. -/
theorem onward (tidy : session.Tidy) {later : Session} (tame : Tame session.context later.context)
    (runners : entries later.runners = entries session.runners)
    (registrations : later.registrations = session.registrations)
    (subscriptions : later.subscriptions = session.subscriptions) : session.Onward later where
  tidy :=
    { context := tame.tidy tidy.context
      directory := by rw [tame.directory, tidy.directory, runners]
      registrations := by
        rw [registrations, tame.callers]
        exact tidy.registrations
      subscriptions := by
        rw [subscriptions, tame.callers]
        exact tidy.subscriptions }
  callers := Nat.le_of_eq tame.callers.symm

theorem setRunner (tidy : session.Tidy) {name : String} {runner runner' : Runner} {ctx : Context}
    (there : session.runners.at? name = some runner) (tame : Tame session.context ctx)
    (same : runner'.actor.entry = runner.actor.entry) :
    session.Onward (session.setRunner name runner' ctx) :=
  tidy.onward tame (Index.relabel_put_of_at? _ there same) rfl rfl

/-- Dropping a runner takes it off the directory. -/
theorem dropRunner (tidy : session.Tidy) (name : String) : session.Onward (session.dropRunner name) := by
  rw [Session.dropRunner]
  split
  · exact tidy.refl
  · rename_i runner _
    have tame := runner.tame_discard
      { session.context with directory := session.context.directory.remove name }
    refine ⟨⟨tame.tidy (tidy.context.forget name), ?_, ?_, ?_⟩, Nat.le_of_eq tame.callers.symm⟩
    · rw [tame.directory, tidy.directory]
      exact (Index.relabel_remove Function.injective_id _ session.runners name).symm
    · rw [tame.callers]
      exact tidy.registrations
    · rw [tame.callers]
      exact tidy.subscriptions

/-- A runner that has been given up is no longer listed. -/
theorem directory_dropRunner (tidy : session.Tidy) (name : String) :
    (session.dropRunner name).context.directory = session.context.directory.remove name := by
  rw [Session.dropRunner]
  split
  · rename_i none
    refine (Index.remove_of_none ?_).symm
    rw [tidy.at?_directory, none]
    rfl
  · rename_i runner _
    exact (runner.tame_discard _).directory

/-- Loading leaves runners and callers as they are. -/
theorem load (tidy : session.Tidy) (label name : String) (strict : Bool) (input : SourceInput) :
    session.Onward (session.load label name strict input).2 := by
  rw [Session.load]
  split
  · exact tidy.refl
  · rename_i source _
    simp only
    rcases source.load session.context.registry session.context.cache name strict with ⟨error | tree, cache⟩
    · exact tidy.onward (session.context.tame_cache cache) rfl rfl rfl
    · exact tidy.onward (session.context.tame_cache cache) rfl rfl rfl

/-- A new caller leaves runners as they are. -/
theorem newCaller (tidy : session.Tidy) :
    session.Onward { session with context := session.context.newCaller.2 } where
  tidy :=
    { context := tidy.context.newCaller
      directory := tidy.directory
      registrations entry member := (tidy.registrations entry member).mono (Nat.le_succ _)
      subscriptions entry member := (tidy.subscriptions entry member).mono (Nat.le_succ _) }
  callers := Nat.le_succ _

/-- Starting a runner enters it with a new caller. -/
theorem spawn (tidy : session.Tidy) (label : String) (tree : Tree) (address : Option Address)
    (debug : Bool) (vars : List (String × Value)) :
    session.Onward (session.spawn label tree address debug vars) := by
  have counted := tidy.newCaller
  have dropped := counted.tidy.dropRunner label
  have listed := counted.tidy.directory_dropRunner label
  have given : Given (session.context.callers + 1) (session.spawned address debug vars).caller
      (session.spawned address debug vars).target := by
    refine ⟨Nat.le_refl _, ?_⟩
    rcases address with _ | address
    · exact Nat.le_refl _
    · exact (tidy.context.resolve address).mono (Nat.le_succ _)
  have next : (session.spawned address debug vars).caller = session.context.callers + 1 := rfl
  rw [spawn_eq]
  generalize session.spawned address debug vars = actor at given next
  simp only
  generalize Session.dropRunner { session with context := session.context.newCaller.2 } label = later
    at dropped listed
  have none : later.context.directory.at? label = none := by
    rw [listed, Index.at?_remove, if_pos rfl]
  have fresh (entry : String × Nat × Target) (member : entry ∈ later.context.directory) :
      entry.2.1 ≠ actor.caller := by
    rw [listed] at member
    have before := (tidy.context.entries entry (Index.mem_remove member).1).caller
    omega
  have entered := dropped.tidy.context.enter none (given.mono dropped.callers) fresh
  refine ⟨⟨entered, ?_, dropped.tidy.registrations, dropped.tidy.subscriptions⟩,
    Nat.le_trans counted.callers dropped.callers⟩
  simp only [Session.setRunner, dropped.tidy.directory]
  exact (Index.relabel_put Function.injective_id (fun runner : Runner => runner.actor.entry)
    later.runners label (Runner.new tree actor)).symm

/-- Giving up a label removes its listener. -/
theorem unsubscribe (tidy : session.Tidy) (label : String) : session.Onward (session.unsubscribe label) := by
  rw [Session.unsubscribe]
  split
  · exact tidy.refl
  · rename_i r _
    have tame := session.context.tame_offListener r.listener r.event r.target
    refine ⟨⟨tame.tidy tidy.context, tidy.directory, tidy.registrations, fun entry member => ?_⟩,
      Nat.le_refl _⟩
    exact tidy.subscriptions entry (Index.mem_remove member).1

theorem evalFor (tidy : session.Tidy) (runner : Runner) (code : String) :
    session.Onward (session.evalFor runner code).2 := by
  have compiled : session.Onward { session with context := (session.context.compile code).2 } :=
    tidy.onward (session.context.tame_cache _) rfl rfl rfl
  simp only [Session.evalFor]
  split
  · exact compiled
  · split <;> exact compiled

/-- A listener of a host points at a caller that was given out. -/
theorem register (tidy : session.Tidy) {name : String} {runner : Runner}
    (there : session.runners.at? name = some runner) (label event : String) (address : Address)
    (reaction : Reaction) : session.Onward (session.register runner label event address reaction).2 := by
  have reached := tidy.context.resolve address
  have tame := session.context.tame_on event reaction fun _ => ⟨(tidy.given there).caller, reached⟩
  refine ⟨⟨tame.tidy tidy.context, tidy.directory, fun entry member => ?_, tidy.subscriptions⟩,
    Nat.le_refl _⟩
  rcases Index.mem_put member with rfl | member
  · exact reached
  · exact tidy.registrations entry member

/-- Every command for a runner keeps the session tidy. -/
theorem performOn (tidy : session.Tidy) (ready : session.Ready) {name : String} {runner : Runner}
    (there : session.runners.at? name = some runner) (command : RunnerCommand) :
    session.Onward (session.performOn name runner command).2 := by
  have given := tidy.given there
  have good := (ready.runners name runner there).tame_run given
  have acted {actor : Actor} (same : actor.entry = runner.actor.entry) :
      session.Onward (session.setRunner name { runner with actor } session.context) :=
    tidy.setRunner there (.refl _) same
  cases command with
  | run => exact tidy.setRunner there good.1 good.2
  | interrupt =>
    exact tidy.setRunner there (runner.tame_interrupt session.context) (runner.entry_interrupt _)
  | clear => exact tidy.setRunner there (runner.tame_clear session.context) (runner.entry_clear _)
  | request => exact tidy.onward (session.context.tame_request fun _ => given.caller) rfl rfl rfl
  | tree => exact tidy.refl
  | get key => exact tidy.refl
  | set key v => exact acted rfl
  | remove key => exact acted rfl
  | clearVars => exact acted rfl
  | clearTemporaries => exact acted rfl
  | setDebug debug => exact acted rfl
  | eval code => exact tidy.evalFor runner code
  | on label event address reaction => exact tidy.register there label event address reaction
  | subscribe label event address reaction =>
    have registered := tidy.register there label event address reaction
    have ended := registered.tidy.unsubscribe label
    refine ⟨⟨ended.tidy.context, ended.tidy.directory, ended.tidy.registrations, fun entry member => ?_⟩,
      Nat.le_trans registered.callers ended.callers⟩
    rcases Index.mem_put member with rfl | member
    · exact (tidy.context.resolve address).mono (Nat.le_trans registered.callers ended.callers)
    · exact ended.tidy.subscriptions entry member
  | off event => exact tidy.onward (session.context.tame_off event runner.actor.caller) rfl rfl rfl
  | offCaller => exact tidy.onward (session.context.tame_offCaller runner.actor.caller) rfl rfl rfl
  | hasListeners => exact tidy.refl
  | follow stage reaction =>
    simp only [Session.performOn]
    split
    · exact tidy.setRunner there (.refl _) rfl
    · exact tidy.refl
  | unknown => exact tidy.refl

/-- Every command keeps the session tidy. -/
theorem perform (tidy : session.Tidy) (ready : session.Ready) (command : Command) :
    session.Onward (session.perform command).2 := by
  cases command with
  | load label tree strict source => exact tidy.load label tree strict _
  | spawn label name address debug vars =>
    rw [Session.perform]
    split
    · rename_i tree _
      exact tidy.spawn label tree address debug vars
    · exact tidy.refl
  | advance dt => exact tidy.onward (session.context.tame_advance dt) rfl rfl rfl
  | setTime t =>
    exact tidy.onward ⟨rfl, rfl, List.prefix_refl _, fun tidy => tidy.still _ _ _ _⟩ rfl rfl rfl
  | dispatch event args address =>
    exact tidy.onward (Context.stirs_dispatch session.context event _ args).tame rfl rfl rfl
  | compile code =>
    have compiled : session.Onward { session with context := (session.context.compile code).2 } :=
      tidy.onward (session.context.tame_cache _) rfl rfl rfl
    simp only [Session.perform]
    split <;> exact compiled
  | isTemporary name => exact tidy.refl
  | unsubscribe label => exact tidy.unsubscribe label
  | offListener label event address =>
    rw [Session.perform]
    split
    · exact tidy.refl
    · exact tidy.onward (session.context.tame_offListener _ _ _) rfl rfl rfl
  | drop name => exact tidy.dropRunner name
  | toRunner name command =>
    rw [Session.perform]
    split
    · rename_i runner found
      exact tidy.performOn ready found command
    · exact tidy.refl

theorem exchange (tidy : session.Tidy) (ready : session.Ready) (command : Command) :
    session.Onward (session.exchange command).2 := by
  have performed := tidy.perform ready command
  exact ⟨⟨performed.tidy.context.still _ _ _ _, performed.tidy.directory, performed.tidy.registrations,
    performed.tidy.subscriptions⟩, performed.callers⟩

theorem after (tidy : session.Tidy) (ready : session.Ready) (commands : List Command) :
    (session.after commands).Tidy := by
  induction commands generalizing session with
  | nil => exact tidy
  | cons command rest ih => exact ih (tidy.exchange ready command).tidy (ready.exchange command)

end Tidy
end Session
end BehaviorTree
