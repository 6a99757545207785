import BehaviorTree.Proofs.Descent.Refinement
import BehaviorTree.Proofs.Descent.Safe
import BehaviorTree.Session.Basic

/-!
A session with the built-in node types. Whatever its host asks for, the session holds nothing but
trees that were loaded with the expressions in its cache, and runners of such trees in sound
states. So a run raises only failed assertions and errors of evaluation, and it adds nothing to
the cache.
-/

namespace BehaviorTree

open ExprCache (Kept)
open Context (Stirs)
open Descent (Active Sound Walker)

/-! ### Runs and the lexicon -/

namespace Runner

variable (runner : Runner) (ctx : Context)

theorem stirs_announce (stage : Stage) (depth : Nat) : Stirs ctx (runner.announce stage depth ctx) :=
  Context.stirs_foldl (fun ctx _ => .head (.note ctx _) (Context.stirs_obey _ _)) _ ctx

@[simp] theorem lexicon_announce (stage : Stage) (depth : Nat) :
    (runner.announce stage depth ctx).lexicon = ctx.lexicon := (runner.stirs_announce ctx stage depth).lexicon

@[simp] theorem lexicon_unwind : (runner.unwind ctx).2.lexicon = ctx.lexicon :=
  ctx.lexicon_unsubscribeAll _

@[simp] theorem lexicon_abort : (runner.abort ctx).2.lexicon = ctx.lexicon := by simp [abort]

@[simp] theorem lexicon_interrupt : (runner.interrupt ctx).2.lexicon = ctx.lexicon := by
  rw [interrupt]
  split <;> simp

@[simp] theorem lexicon_clear : (runner.clear ctx).2.lexicon = ctx.lexicon := by
  by_cases running : runner.actor.status = .running <;> simp [clear, running]

@[simp] theorem lexicon_discard : (runner.discard ctx).lexicon = ctx.lexicon := by simp [discard]

@[simp] theorem cache_discard : (runner.discard ctx).cache = ctx.cache :=
  congrArg Lexicon.cache (runner.lexicon_discard ctx)

@[simp] theorem lexicon_report (fault : Fault) : (runner.report ctx fault).lexicon = ctx.lexicon := by
  rw [report]
  split <;> simp

@[simp] theorem lexicon_complete (verdict : Verdict) :
    (runner.complete ctx verdict).2.2.lexicon = ctx.lexicon := by
  cases verdict <;> simp [complete]

theorem lexicon_conclude (result : Except Fault Outcome) (scene : Scene) :
    (runner.conclude result scene).2.2.lexicon = scene.context.lexicon := by
  rcases result with fault | (verdict | frames) <;> simp [conclude]

/-- The error that cuts a run short, if the nodes that it ticks raise one. -/
def raised? (runner : Runner) (ctx : Context) : Option RunError :=
  match (runner.tickNodes (ctx.dropRequest runner.actor.caller)).1 with
  | .error fault => some fault.error
  | .ok _ => none

end Runner

/-! ### Trees and runners -/

/-- A tree that can be run with the expressions of the cache. -/
structure Tree.Ready (cache : ExprCache) (tree : Tree) : Prop where
  admitted : tree.root.Every (Node.Admitted cache)
  nodup : tree.root.ids.Nodup

theorem Tree.Ready.built {cache : ExprCache} {tree : Tree} (ready : tree.Ready cache) : tree.Built :=
  ⟨ready.admitted.mono fun _ => Node.Admitted.toShaped, ready.nodup⟩

theorem Tree.Ready.kept {older newer : ExprCache} {tree : Tree} (ready : tree.Ready older)
    (kept : Kept older newer) : tree.Ready newer :=
  ⟨ready.admitted.mono fun _ admitted => admitted.kept kept, ready.nodup⟩

/-- A runner of such a tree, in a sound state. -/
structure Runner.Ready (cache : ExprCache) (runner : Runner) : Prop where
  tree : runner.tree.Ready cache
  laid : ∃ walker : Walker, walker.Valid ∧ walker.layout = runner

namespace Runner.Ready

variable {older newer cache : ExprCache} {runner : Runner}

theorem kept (ready : runner.Ready older) (kept : Kept older newer) : runner.Ready newer :=
  ⟨ready.tree.kept kept, ready.laid⟩

/-- What an action makes of a runner is ready as well. -/
theorem perform (ready : runner.Ready cache) (ctx : Context) (action : HostAction) :
    (runner.perform ctx action).2.1.Ready cache := by
  obtain ⟨walker, valid, rfl⟩ := ready.laid
  rw [Walker.layout_perform ready.tree.built valid]
  refine ⟨?_, _, Walker.valid_perform ready.tree.built valid ctx action, rfl⟩
  rw [Walker.layout_tree, Walker.tree_perform]
  exact ready.tree

theorem performAll (ready : runner.Ready cache) (ctx : Context) (actions : List HostAction) :
    (runner.performAll ctx actions).1.Ready cache := by
  induction actions generalizing runner ctx with
  | nil => exact ready
  | cons action rest ih => exact ih (ready.perform ctx action) (runner.perform ctx action).2.2

/-- The nodes that a run ticks raise no other errors and add nothing to the cache. -/
theorem tickNodes {ctx : Context} (ready : runner.Ready ctx.cache) :
    (runner.tickNodes ctx).2.context.lexicon = ctx.lexicon ∧
      ∀ fault, (runner.tickNodes ctx).1 = .error fault → fault.error.OfRun := by
  obtain ⟨walker, valid, rfl⟩ := ready.laid
  rw [Walker.layout_tickNodes ready.tree.built valid]
  have begun : (if walker.active.isNone then walker.runner.announce .beforeRun 0 ctx else ctx).lexicon =
      ctx.lexicon := by
    split <;> simp
  have sound (state : Active) (member : state ∈ walker.active) :
      Sound [] walker.runner.tree.root state := (valid.sound state member).mono nofun
  have admitted : walker.runner.tree.root.Every (Node.Admitted ctx.lexicon.cache) := ready.tree.admitted
  obtain ⟨kept, raised⟩ := Descent.ticksSafely walker.runner.tree.root admitted walker.active []
    ⟨_, { walker.runner.actor with stack := [] }⟩ sound begun
  refine ⟨kept, fun fault failed => raised fault ?_⟩
  rcases ticked : (walker.tickRoot ctx).1 with other | report
  · rw [ticked] at failed
    cases failed
    exact ticked
  · rw [ticked] at failed
    cases failed

/-- A run reads no expression and learns no kind. -/
theorem lexicon_run {ctx : Context} (ready : runner.Ready ctx.cache) :
    (runner.run ctx).2.2.lexicon = ctx.lexicon := by
  have ready : runner.Ready (ctx.dropRequest runner.actor.caller).cache := ready
  rw [Runner.run]
  simp only
  split
  · simp
  · rw [Runner.lexicon_conclude, ready.tickNodes.1, Context.lexicon_dropRequest]

/-- A runner of such a tree is ready as long as nothing has been run. -/
theorem idle {tree : Tree} (ready : tree.Ready cache) {actor : Actor} (stack : actor.stack = [])
    (status : actor.status = .idle) (followers : List (Stage × Reaction)) :
    Runner.Ready cache ⟨tree, actor, followers⟩ := by
  refine ⟨ready, ⟨⟨tree, actor, followers⟩, none⟩, Walker.valid_of_none rfl ?_, ?_⟩
  · rw [status]
    exact nofun
  · simp only [Walker.layout, Walker.stack, ← stack]

end Runner.Ready

/-! ### Sessions -/

namespace Session

/-- Carries out a command and hands over the notes taken meanwhile. -/
def exchange (session : Session) (command : Command) : (Answer × List Note) × Session :=
  let (answer, session) := session.perform command
  let (notes, session) := session.takeNotes
  ((answer, notes), session)

/-- The session after a host has given commands. -/
def after (session : Session) (commands : List Command) : Session :=
  commands.foldl (fun session command => (session.exchange command).2) session

/-- A session with the built-in types whose trees and runners go with its cache. -/
structure Ready (session : Session) : Prop where
  registry : session.context.registry = Registry.builtin
  trees : ∀ label tree, session.trees.at? label = some tree → tree.Ready session.context.cache
  runners : ∀ name runner, session.runners.at? name = some runner →
    runner.Ready session.context.cache

@[simp] theorem setRunner_context (session : Session) (name : String) (runner : Runner) (ctx : Context) :
    (session.setRunner name runner ctx).context = ctx := rfl

@[simp] theorem setRunner_runners (session : Session) (name : String) (runner : Runner) (ctx : Context) :
    (session.setRunner name runner ctx).runners = session.runners.put name runner := rfl

theorem ready_new (source : SourceInput) : (new Registry.builtin source).Ready where
  registry := rfl
  trees := nofun
  runners := nofun

namespace Ready

variable {session : Session}

/-- The cache may grow as long as nothing else changes. -/
theorem grow (ready : session.Ready) {later : Session}
    (registry : later.context.registry = session.context.registry)
    (kept : Kept session.context.cache later.context.cache) (trees : later.trees = session.trees)
    (runners : later.runners = session.runners) : later.Ready where
  registry := registry.trans ready.registry
  trees label tree found := by
    rw [trees] at found
    exact (ready.trees label tree found).kept kept
  runners name runner found := by
    rw [runners] at found
    exact (ready.runners name runner found).kept kept

/-- Nothing changes that trees and runners depend on. -/
theorem still (ready : session.Ready) {later : Session}
    (lexicon : later.context.lexicon = session.context.lexicon) (trees : later.trees = session.trees)
    (runners : later.runners = session.runners) : later.Ready := by
  have cached : later.context.cache = session.context.cache := congrArg Lexicon.cache lexicon
  refine ready.grow (congrArg Lexicon.registry lexicon) ?_ trees runners
  rw [cached]
  exact .refl _

/-- Keeping a runner that is ready keeps the session ready. -/
theorem setRunner (ready : session.Ready) (name : String) {runner : Runner} {ctx : Context}
    (lexicon : ctx.lexicon = session.context.lexicon) (good : runner.Ready session.context.cache) :
    (session.setRunner name runner ctx).Ready := by
  have cached : ctx.cache = session.context.cache := congrArg Lexicon.cache lexicon
  refine ⟨(congrArg Lexicon.registry lexicon).trans ready.registry, fun label tree found => ?_,
    fun other runner' found => ?_⟩
  · rw [setRunner_context, cached]
    exact ready.trees label tree found
  · rw [setRunner_context, cached]
    rw [setRunner_runners, Index.at?_put] at found
    split at found
    · cases found
      exact good
    · exact ready.runners other runner' found

/-- Dropping a runner keeps the session ready. -/
theorem dropRunner (ready : session.Ready) (name : String) : (session.dropRunner name).Ready := by
  rw [Session.dropRunner]
  split
  · exact ready
  · rename_i runner _
    refine ⟨?_, fun label tree found => ?_, fun other runner' found => ?_⟩
    · exact (congrArg Lexicon.registry (runner.lexicon_discard _)).trans ready.registry
    · rw [Runner.cache_discard]
      exact ready.trees label tree found
    · rw [Runner.cache_discard]
      rw [Index.at?_remove] at found
      split at found
      · cases found
      · exact ready.runners other runner' found

/-- Loading keeps the session ready, whether or not it succeeds. -/
theorem load (ready : session.Ready) (label name : String) (strict : Bool) (input : SourceInput) :
    (session.load label name strict input).2.Ready := by
  rw [Session.load]
  split
  · exact ready
  · rename_i source _
    have kept := source.kept_load session.context.cache name strict
    have admitted (tree : Tree)
        (loaded : (source.load Registry.builtin session.context.cache name strict).1 = .ok tree) :=
      source.admitted_load session.context.cache name strict loaded
    simp only [ready.registry]
    rcases result : source.load Registry.builtin session.context.cache name strict with
      ⟨error | tree, cache⟩ <;> rw [result] at kept admitted
    · exact ready.grow ready.registry.symm kept rfl rfl
    · refine ⟨rfl, fun other tree' found => ?_, fun name runner found => ?_⟩
      · rw [Index.at?_put] at found
        split at found
        · cases found
          exact ⟨(admitted tree rfl).1, (admitted tree rfl).2⟩
        · exact (ready.trees other tree' found).kept kept
      · exact (ready.runners name runner found).kept kept

end Ready

theorem foldl_set (vars : List (String × Value)) (actor : Actor) :
    vars.foldl (fun actor (name, v) => actor.set name v) actor =
      { actor with vars := vars.foldl (fun fields (name, v) => fields.set name v) actor.vars } := by
  induction vars generalizing actor with
  | nil => rfl
  | cons entry rest ih => exact ih (actor.set entry.1 entry.2)

/-- The actor that is created on command. -/
def spawned (session : Session) (address : Option Address) (debug : Bool)
    (vars : List (String × Value)) : Actor :=
  let caller := session.context.callers + 1
  { Actor.newWith caller ((address.map session.context.resolve).getD (.caller caller)) debug with
    vars := vars.foldl (fun fields (name, v) => fields.set name v) [] }

theorem spawn_eq (session : Session) (label : String) (tree : Tree) (address : Option Address)
    (debug : Bool) (vars : List (String × Value)) :
    session.spawn label tree address debug vars =
      let actor := session.spawned address debug vars
      let session := dropRunner { session with context := session.context.newCaller.2 } label
      session.setRunner label (Runner.new tree actor)
        { session.context with
          directory := session.context.directory.put label (actor.caller, actor.target) } := by
  simp only [spawn]
  rw [foldl_set]
  rfl

/-- Starting a tree that is ready keeps the session ready. -/
theorem Ready.spawn {session : Session} (ready : session.Ready) (label : String) {tree : Tree}
    (good : tree.Ready session.context.cache) (address : Option Address) (debug : Bool)
    (vars : List (String × Value)) : (session.spawn label tree address debug vars).Ready := by
  have counted : { session with context := session.context.newCaller.2 }.Ready := ready.still rfl rfl rfl
  rw [spawn_eq]
  refine (counted.dropRunner label).setRunner label rfl (.idle (good.kept ?_) rfl rfl [])
  rw [Session.dropRunner]
  split
  · exact .refl _
  · rename_i runner _
    rw [Runner.cache_discard]
    exact .refl _

namespace Ready

variable {session : Session}

theorem compile (ready : session.Ready) (code : String) :
    { session with context := (session.context.compile code).2 }.Ready :=
  ready.grow rfl (ExprCache.kept_compile session.context.cache code) rfl rfl

theorem evalFor (ready : session.Ready) (runner : Runner) (code : String) :
    (session.evalFor runner code).2.Ready := by
  have compiled := ready.compile code
  simp only [Session.evalFor]
  split
  · exact compiled
  · split <;> exact compiled

theorem unsubscribe (ready : session.Ready) (label : String) : (session.unsubscribe label).Ready := by
  rw [Session.unsubscribe]
  split
  · exact ready
  · exact ready.still rfl rfl rfl

/-- Every command for a runner keeps the session ready. -/
theorem performOn (ready : session.Ready) {name : String} {runner : Runner}
    (there : session.runners.at? name = some runner) (command : RunnerCommand) :
    (session.performOn name runner command).2.Ready := by
  have good := ready.runners name runner there
  have acted (action : HostAction) {ctx : Context} (lexicon : ctx.lexicon = session.context.lexicon) :
      (session.setRunner name (runner.perform session.context action).2.1 ctx).Ready :=
    ready.setRunner name lexicon (good.perform session.context action)
  cases command with
  | run => exact acted .run good.lexicon_run
  | interrupt => exact acted .interrupt (runner.lexicon_interrupt _)
  | clear => exact acted .clear (runner.lexicon_clear _)
  | request => exact ready.still (Context.lexicon_request _ _) rfl rfl
  | tree => exact ready
  | get key => exact ready
  | set key v => exact acted (.vars (·.set key v)) rfl
  | remove key => exact acted (.vars (·.erase key)) rfl
  | clearVars => exact acted (.vars fun _ => []) rfl
  | clearTemporaries => exact acted (.vars (·.filter fun entry => !isTemporary entry.1)) rfl
  | setDebug debug => exact acted (.setDebug debug) rfl
  | eval code => exact ready.evalFor runner code
  | on label event address reaction => exact ready.still rfl rfl rfl
  | subscribe label event address reaction =>
    have registered : (session.register runner label event address reaction).2.Ready :=
      ready.still rfl rfl rfl
    exact (registered.unsubscribe label).still rfl rfl rfl
  | off event => exact ready.still rfl rfl rfl
  | offCaller => exact ready.still rfl rfl rfl
  | hasListeners => exact ready
  | follow stage reaction =>
    simp only [Session.performOn]
    split
    · exact acted (.follow _ reaction) rfl
    · exact ready
  | unknown => exact ready

/-- Every command keeps the session ready. -/
theorem perform (ready : session.Ready) (command : Command) : (session.perform command).2.Ready := by
  cases command with
  | load label tree strict source => exact ready.load label tree strict _
  | spawn label name address debug vars =>
    rw [Session.perform]
    split
    · rename_i tree found
      exact ready.spawn label (ready.trees name tree found) address debug vars
    · exact ready
  | advance dt => exact ready.still rfl rfl rfl
  | setTime t => exact ready.still rfl rfl rfl
  | dispatch event args address =>
    exact ready.still (Context.stirs_dispatch session.context event _ args).lexicon rfl rfl
  | compile code =>
    have compiled := ready.compile code
    simp only [Session.perform]
    split <;> exact compiled
  | isTemporary name => exact ready
  | unsubscribe label => exact ready.unsubscribe label
  | offListener label event address =>
    rw [Session.perform]
    split
    · exact ready
    · exact ready.still rfl rfl rfl
  | drop name => exact ready.dropRunner name
  | toRunner name command =>
    rw [Session.perform]
    split
    · rename_i runner found
      exact ready.performOn found command
    · exact ready

theorem exchange (ready : session.Ready) (command : Command) : (session.exchange command).2.Ready :=
  (ready.perform command).still rfl rfl rfl

theorem after (ready : session.Ready) (commands : List Command) : (session.after commands).Ready := by
  induction commands generalizing session with
  | nil => exact ready
  | cons command rest ih => exact ih (ready.exchange command)

end Ready

/-- Whatever a host has asked of a session with the built-in types, running any of its runners
raises nothing but failed assertions and errors of evaluation, and reads no expression anew. -/
theorem run_after_safe (source : SourceInput) (commands : List Command) (name : String)
    (runner : Runner) :
    let session := (new Registry.builtin source).after commands
    session.runners.at? name = some runner →
      (∀ error, runner.raised? session.context = some error → error.OfRun) ∧
        (runner.run session.context).2.2.cache = session.context.cache := by
  intro session there
  have ready : runner.Ready session.context.cache :=
    ((ready_new source).after commands).runners name runner there
  refine ⟨fun error raised => ?_, congrArg Lexicon.cache ready.lexicon_run⟩
  have dropped : runner.Ready (session.context.dropRequest runner.actor.caller).cache := ready
  rw [Runner.raised?] at raised
  split at raised
  · rename_i fault failed
    cases raised
    exact dropped.tickNodes.2 fault failed
  · cases raised

/-- Has the sentry loaded and run once for a guard, and the bell rung by nobody. -/
def standing : List Command :=
  [.load "sentry" "sentry" true none, .spawn "guard" "sentry" none false [], .toRunner "guard" .run,
    .dispatch "bell" [.null] none]

/-- The guard that listens for the bell. -/
def guard : Runner :=
  .new sentry { Actor.newWith 1 (.caller 1) false with
    stack := [.mk sentry.root (.listening 1 false) none], last := .running, status := .running }

theorem at?_standing :
    ((new Registry.builtin (.trees sentrySource)).after standing).runners.at? "guard" = some guard := by
  simp only [standing, after, List.foldl, exchange, Session.perform, Session.load, Option.getD,
    SourceInput.read, new, Context.new, load_sentry]
  rfl

/-- In the next run the rank of nobody is asked for. -/
theorem raised_standing :
    guard.raised? ((new Registry.builtin (.trees sentrySource)).after standing).context =
      some (.expr "Check" 2 (.nullAccess "rank")) := by
  simp only [standing, after, List.foldl, exchange, Session.perform, Session.load, Option.getD,
    SourceInput.read, new, Context.new, load_sentry]
  rfl

/-- A run that goes on from the listening node is cut short by an error of evaluation. -/
theorem run_after_safe_guard :
    let session := (new Registry.builtin (.trees sentrySource)).after standing
    session.runners.at? "guard" = some guard ∧
      guard.raised? session.context = some (.expr "Check" 2 (.nullAccess "rank")) ∧
        (∀ error, guard.raised? session.context = some error → error.OfRun) ∧
          (guard.run session.context).2.2.cache = session.context.cache :=
  ⟨at?_standing, raised_standing, run_after_safe (.trees sentrySource) standing "guard" guard at?_standing⟩

/-- Has the watch loaded and run once for a guard, which listens from then on. -/
def watching : List Command :=
  [.load "watch" "watch" true none, .spawn "guard" "watch" none false [], .toRunner "guard" .run]

/-- The watch while it listens. -/
def watcher : Runner :=
  .new watch { Actor.newWith 1 (.caller 1) false with
    stack := [.mk watch.root (.listening 1 false) none], last := .running, status := .running }

theorem at?_watching :
    ((new Registry.builtin (.trees watchSource)).after watching).runners.at? "guard" = some watcher := by
  simp only [watching, after, List.foldl, exchange, Session.perform, Session.load, Option.getD,
    SourceInput.read, new, Context.new, load_watch]
  rfl

end Session
end BehaviorTree
