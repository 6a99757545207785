import BehaviorTree.Proofs.Event.Silent
import BehaviorTree.Proofs.Session.Guarded

/-!
What hosts order. As long as a host registers no reaction but such as keep to allowed orders, no other
is ever found on the bus or among the followers of a runner.
-/

namespace BehaviorTree

open Context (Heeds)
open Descent (Call)

/-! ### Runners -/

namespace Runner

variable {allowed : Order → Prop} {runner : Runner} {cache : ExprCache} {log : List Call} {ctx : Context}

/-- The followers of a runner keep to allowed orders. -/
def Heeds (allowed : Order → Prop) (runner : Runner) : Prop :=
  ∀ follower ∈ runner.followers, ∀ order ∈ follower.2.orders, allowed order

theorem Heeds.same {runner' : Runner} (heeds : runner.Heeds allowed)
    (followers : runner'.followers = runner.followers) : runner'.Heeds allowed := by
  rwa [Heeds, followers]

theorem heeds_discard (runner : Runner) (kept : ctx.Heeds allowed) : (runner.discard ctx).Heeds allowed :=
  (kept.unsubscribes _).without (Bus.without_offCaller (ctx.unsubscribeAll runner.actor.caller).bus runner.actor.caller)

variable (closed : Context.Closed allowed)

include closed

theorem steady_heeds (heeds : runner.Heeds allowed) :
    Steady runner.actor.caller runner.followers (Context.Heeds allowed) where
  note _ _ kept := kept.congr rfl
  obey follower member kept := (Context.withstands_heeds closed).obey (heeds follower member) kept
  dropRequest kept := kept.congr rfl
  unwind kept := kept.unsubscribes _

theorem Ready.heeds_run (ready : runner.Ready cache) (wired : ctx.Wired) (held : runner.Held log ctx)
    (heeds : runner.Heeds allowed) (kept : ctx.Heeds allowed) : (runner.run ctx).2.2.Heeds allowed := by
  have wired' : (ctx.dropRequest runner.actor.caller).Wired := wired.congr rfl rfl
  have held' : runner.Held log (ctx.dropRequest runner.actor.caller) := held.mono (List.Subset.refl _) rfl
  obtain ⟨H, log, keeps⟩ := ready.scene_ticks wired' held'
  refine (steady_heeds closed heeds).run kept keeps.acting fun kept event target l present reaction host => ?_
  exact kept event target l ((keeps.hosts event target l (by rw [host]; exact nofun)).mp present) reaction host

theorem heeds_clear (heeds : runner.Heeds allowed) (kept : ctx.Heeds allowed) :
    (runner.clear ctx).2.Heeds allowed := by
  obtain ⟨before, kept, same⟩ := (steady_heeds closed heeds).cleared kept
  rw [same]
  exact kept.without (Bus.without_offCaller before.bus runner.actor.caller)

end Runner

/-! ### Sessions -/

namespace Session

/-- The reaction that a command registers. -/
def RunnerCommand.reaction? : RunnerCommand → Option Reaction
  | .on _ _ _ reaction => some reaction
  | .subscribe _ _ _ reaction => some reaction
  | .follow _ reaction => some reaction
  | _ => none

/-- The reaction that a command registers, if it does. -/
def Command.reaction? : Command → Option Reaction
  | .toRunner _ command => command.reaction?
  | _ => none

/-- All orders that stand anywhere in a session are allowed ones. -/
structure Heeds (allowed : Order → Prop) (session : Session) : Prop where
  context : session.context.Heeds allowed
  runners : ∀ name runner, session.runners.at? name = some runner → runner.Heeds allowed

theorem heeds_new (registry : Registry) (source : SourceInput) (allowed : Order → Prop) :
    (new registry source).Heeds allowed := ⟨nofun, nofun⟩

namespace Heeds

variable {allowed : Order → Prop} {session : Session}

/-- A runner and a context with allowed orders keep the session so. -/
theorem setRunner (heeds : session.Heeds allowed) (name : String) {runner : Runner} {ctx : Context}
    (context : ctx.Heeds allowed) (follows : runner.Heeds allowed) :
    (session.setRunner name runner ctx).Heeds allowed where
  context := context
  runners other found there := by
    rw [setRunner_runners, Index.at?_put] at there
    split at there
    · cases there
      exact follows
    · exact heeds.runners other found there

theorem dropRunner (heeds : session.Heeds allowed) (name : String) :
    (session.dropRunner name).Heeds allowed := by
  rw [Session.dropRunner]
  split
  · exact heeds
  · rename_i runner there
    have forgotten : Context.Heeds allowed
        { session.context with directory := session.context.directory.remove name } := heeds.context.congr rfl
    refine ⟨runner.heeds_discard forgotten, fun other found there => ?_⟩
    rw [Index.at?_remove] at there
    split at there
    · cases there
    · exact heeds.runners other found there

theorem spawn (heeds : session.Heeds allowed) (label : String) (tree : Tree) (address : Option Address)
    (debug : Bool) (vars : List (String × Value)) :
    (session.spawn label tree address debug vars).Heeds allowed := by
  have counted : Heeds allowed { session with context := session.context.newCaller.2 } :=
    ⟨heeds.context, heeds.runners⟩
  have dropped := counted.dropRunner label
  rw [spawn_eq]
  exact dropped.setRunner label (dropped.context.congr rfl) nofun

theorem unsubscribe (heeds : session.Heeds allowed) (label : String) :
    (session.unsubscribe label).Heeds allowed := by
  rw [Session.unsubscribe]
  split
  · exact heeds
  · exact ⟨heeds.context.without (Bus.without_offListener session.context.bus _ _ _), heeds.runners⟩

theorem evalFor (heeds : session.Heeds allowed) (runner : Runner) (code : String) :
    (session.evalFor runner code).2.Heeds allowed := by
  have compiled : Heeds allowed { session with context := (session.context.compile code).2 } :=
    ⟨heeds.context, heeds.runners⟩
  simp only [Session.evalFor]
  split
  · exact compiled
  · split <;> exact compiled

theorem register (heeds : session.Heeds allowed) (runner : Runner) (label event : String) (address : Address)
    {reaction : Reaction} (keeps : ∀ order ∈ reaction.orders, allowed order) :
    (session.register runner label event address reaction).2.Heeds allowed :=
  ⟨heeds.context.on event _ _ keeps, heeds.runners⟩

variable {spared : String → Prop} {log : String → List Call} (heeds : session.Heeds allowed)
  (closed : Context.Closed allowed) (guarded : session.Guarded spared log) (ready : session.Ready)

include heeds closed guarded ready

/-- A command with allowed orders keeps the session so. -/
theorem performOn {name : String} {runner : Runner} (there : session.runners.at? name = some runner)
    (command : RunnerCommand)
    (keeps : ∀ reaction ∈ command.reaction?, ∀ order ∈ reaction.orders, allowed order) :
    (session.performOn name runner command).2.Heeds allowed := by
  have follows := heeds.runners name runner there
  have good := ready.runners name runner there
  have acted (actor : Actor) : (session.setRunner name { runner with actor } session.context).Heeds allowed :=
    heeds.setRunner name heeds.context follows
  have without (bus : Bus Sink) (removed : Bus.Without (fun l => l.caller = runner.actor.caller) session.context.bus bus) :
      Heeds allowed { session with context := { session.context with bus } } :=
    ⟨heeds.context.without removed, heeds.runners⟩
  cases command with
  | run =>
    change Heeds allowed (session.setRunner name (runner.run session.context).2.1 (runner.run session.context).2.2)
    exact heeds.setRunner name (good.heeds_run closed guarded.wired (guarded.held name runner there) follows
      heeds.context) (follows.same (runner.followers_run _))
  | interrupt =>
    exact heeds.setRunner name ((Runner.steady_heeds closed follows).interrupt heeds.context)
      (follows.same (runner.followers_interrupt _))
  | clear =>
    exact heeds.setRunner name (Runner.heeds_clear closed follows heeds.context)
      (follows.same (runner.followers_clear _))
  | request => exact ⟨heeds.context.congr (Context.bus_request ..), heeds.runners⟩
  | tree => exact heeds
  | get key => exact heeds
  | set key v => exact acted _
  | remove key => exact acted _
  | clearVars => exact acted _
  | clearTemporaries => exact acted _
  | setDebug debug => exact acted _
  | eval code => exact heeds.evalFor runner code
  | on label event address reaction => exact heeds.register runner label event address (keeps reaction rfl)
  | subscribe label event address reaction =>
    have ended := (heeds.register runner label event address (keeps reaction rfl)).unsubscribe label
    exact ⟨ended.context, ended.runners⟩
  | off event => exact without _ (Bus.without_off _ event _)
  | offCaller => exact without _ (Bus.without_offCaller _ _)
  | hasListeners => exact heeds
  | follow stage reaction =>
    simp only [Session.performOn]
    split
    · refine heeds.setRunner name heeds.context fun follower member => ?_
      rcases List.mem_append.mp member with old | new
      · exact follows follower old
      · rw [List.mem_singleton.mp new]
        exact keeps reaction rfl
    · exact heeds
  | unknown => exact heeds

/-- Every command with allowed orders keeps the session so. -/
theorem perform (command : Command)
    (keeps : ∀ reaction ∈ command.reaction?, ∀ order ∈ reaction.orders, allowed order) :
    (session.perform command).2.Heeds allowed := by
  cases command with
  | load label tree strict source =>
    rw [Session.perform, Session.load]
    split
    · exact heeds
    · simp only
      split <;> exact ⟨heeds.context, heeds.runners⟩
  | spawn label name address debug vars =>
    rw [Session.perform]
    split
    · exact heeds.spawn label _ address debug vars
    · exact heeds
  | advance dt => exact ⟨heeds.context, heeds.runners⟩
  | setTime t => exact ⟨heeds.context, heeds.runners⟩
  | dispatch event args address =>
    exact ⟨(Context.withstands_heeds closed).dispatch event _ args heeds.context, heeds.runners⟩
  | compile code =>
    simp only [Session.perform]
    split <;> exact ⟨heeds.context, heeds.runners⟩
  | isTemporary name => exact heeds
  | unsubscribe label => exact heeds.unsubscribe label
  | offListener label event address =>
    rw [Session.perform]
    split
    · exact heeds
    · exact ⟨heeds.context.without (Bus.without_offListener session.context.bus _ _ _), heeds.runners⟩
  | drop name => exact heeds.dropRunner name
  | toRunner name command =>
    rw [Session.perform]
    split
    · exact heeds.performOn closed guarded ready (by assumption) command keeps
    · exact heeds

end Heeds
end Session
end BehaviorTree
