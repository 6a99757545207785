import BehaviorTree.Proofs.Session.Ready
import BehaviorTree.Proofs.Succession.Tick

/-!
A session in which an actor has been succeeded. Hosts know actors by the names of their runners, so
whatever a host asks for, it is answered and shown the same; and the session goes on to be what it
would have been, with the successor in its predecessor's place.
-/

namespace BehaviorTree.Succession

open Descent (Walker IsBuiltin)

variable (heir : Succession)

/-- A runner once the actor has been succeeded. -/
def runner (runner : Runner) : Runner := { runner with actor := heir.actor runner.actor }

section

variable (r : Runner)

@[simp] theorem runner_caller : (heir.runner r).actor.caller = heir.owner r.actor.caller := rfl

@[simp] theorem runner_stack : (heir.runner r).actor.stack = r.actor.stack := rfl

@[simp] theorem runner_status : (heir.runner r).actor.status = r.actor.status := rfl

@[simp] theorem runner_isRunning : (heir.runner r).actor.isRunning = r.actor.isRunning := rfl

@[simp] theorem runner_get? : (heir.runner r).actor.get? = r.actor.get? := rfl

@[simp] theorem runner_tree : (heir.runner r).tree = r.tree := rfl

@[simp] theorem runner_followers : (heir.runner r).followers = r.followers := rfl

end

/-- A runner together with its context. -/
def both (state : Runner × Context) : Runner × Context := (heir.runner state.1, heir.context state.2)

/-! ### Runs -/

section

variable (r : Runner) (ctx : Context)

/-- Followers are told the same after a succession. -/
theorem announce_runner (stage : Stage) (depth : Nat) :
    (heir.runner r).announce stage depth (heir.context ctx) = heir.context (r.announce stage depth ctx) := by
  rw [Runner.announce, Runner.announce, runner_followers]
  generalize (r.followers.filter fun follower => follower.1 = stage) = followers
  induction followers generalizing ctx with
  | nil => rfl
  | cons follower rest ih =>
    rw [List.foldl_cons, List.foldl_cons, ← ih]
    exact congrArg (List.foldl _ · rest) (heir.obey_context
      (ctx.note (.followed stage follower.2.tag depth r.actor.status r.actor.last)) follower.2.orders)

theorem unwind_runner : (heir.runner r).unwind (heir.context ctx) = heir.both (r.unwind ctx) :=
  Prod.ext rfl (heir.unsubscribeAll_context ctx r.actor.caller)

theorem abort_runner : (heir.runner r).abort (heir.context ctx) = heir.both (r.abort ctx) := by
  have announced := heir.announce_runner r
    (ctx.note (.interrupted r.tree.name r.actor.stack.length)) .interrupted r.actor.stack.length
  rw [Runner.abort, Runner.abort]
  simp only [runner_stack, runner_tree, note_context, announced, unwind_runner]
  rfl

theorem complete_runner (verdict : Verdict) :
    (heir.runner r).complete (heir.context ctx) verdict =
      ((r.complete ctx verdict).1, heir.both (r.complete ctx verdict).2) := by
  have ended (status : TreeStatus) : (heir.runner r).setStatus status = heir.runner (r.setStatus status) := rfl
  cases verdict <;> simp only [Runner.complete, ended, announce_runner] <;>
    exact Prod.ext rfl (Prod.ext rfl (heir.dropRequest_context _ r.actor.caller))

theorem report_runner (fault : Fault) :
    (heir.runner r).report (heir.context ctx) fault = heir.context (r.report ctx fault) := by
  rw [Runner.report, Runner.report]
  split
  · exact heir.announce_runner r (ctx.note (.assertionFailed r.tree.name fault.error.message))
      .assertFailed fault.depth
  · rfl

/-- A run ends alike after a succession. -/
theorem conclude_runner (result : Except Fault Outcome) (s : Scene) :
    (heir.runner r).conclude result (heir.scene s) =
      ((r.conclude result s).1, heir.both (r.conclude result s).2) := by
  rcases result with fault | (verdict | frames)
  · have reported := heir.report_runner { r with actor := s.actor } s.context fault
    have unwound := heir.unwind_runner { r with actor := s.actor }
      (Runner.report { r with actor := s.actor } s.context fault)
    simp only [Runner.conclude]
    rw [show ({ heir.runner r with actor := (heir.scene s).actor } : Runner) =
        heir.runner { r with actor := s.actor } from rfl,
      scene_context, reported, unwound]
    exact heir.complete_runner _ _ .failure
  · exact heir.complete_runner { r with actor := { s.actor with stack := [] } } s.context verdict
  · rfl

theorem interrupt_runner : (heir.runner r).interrupt (heir.context ctx) = heir.both (r.interrupt ctx) := by
  rw [Runner.interrupt, Runner.interrupt, runner_isRunning]
  split
  · rw [runner_caller, dropRequest_context,
      abort_runner]
  · rfl

/-- A runner is cleared alike after a succession. -/
theorem clear_runner : (heir.runner r).clear (heir.context ctx) = heir.both (r.clear ctx) := by
  have stopped : (if (heir.runner r).actor.status = .running then
        (heir.runner r).interrupt (heir.context ctx) else (heir.runner r, heir.context ctx)) =
      heir.both (if r.actor.status = .running then r.interrupt ctx else (r, ctx)) := by
    rw [runner_status, interrupt_runner]
    split <;> rfl
  have freed (ctx : Context) (caller : Nat) :
      ((heir.context ctx).dropRequest (heir.owner caller)).offCaller (heir.owner caller) =
        heir.context ((ctx.dropRequest caller).offCaller caller) := by
    rw [dropRequest_context, offCaller_context]
  rw [Runner.clear, Runner.clear]
  simp only [stopped]
  generalize (if r.actor.status = .running then r.interrupt ctx else (r, ctx)) = state
  have unwound := heir.unwind_runner state.1 state.2
  simp only [both] at unwound ⊢
  rw [unwound]
  exact Prod.ext rfl (freed (state.1.unwind state.2).2 _)

theorem discard_runner : (heir.runner r).discard (heir.context ctx) = heir.context (r.discard ctx) := by
  rw [Runner.discard, Runner.discard, runner_caller,
    unsubscribeAll_context, offCaller_context]

end

/-- The walker of the successor. -/
def walker (w : Walker) : Walker := { w with runner := heir.runner w.runner }

@[simp] theorem walker_runner (w : Walker) : (heir.walker w).runner = heir.runner w.runner := rfl

theorem tickRoot_walker (w : Walker) (builtin : w.runner.tree.root.Every IsBuiltin) (ctx : Context) :
    (heir.walker w).tickRoot (heir.context ctx) =
      ((w.tickRoot ctx).1, heir.scene (w.tickRoot ctx).2) := by
  have begun : (if (heir.walker w).active.isNone then
        (heir.walker w).runner.announce .beforeRun 0 (heir.context ctx) else heir.context ctx) =
      heir.context (if w.active.isNone then w.runner.announce .beforeRun 0 ctx else ctx) := by
    rw [walker_runner, announce_runner,
      ← apply_ite heir.context]
    rfl
  rw [Walker.tickRoot, Walker.tickRoot]
  simp only
  rw [begun]
  exact blind_tick w.runner.tree.root builtin w.active [] ⟨_, { w.runner.actor with stack := [] }⟩

/-- The nodes of a run come to the same for the successor. -/
theorem tickNodes_runner {r : Runner} {cache : ExprCache} (ready : r.Ready cache) (ctx : Context) :
    (heir.runner r).tickNodes (heir.context ctx) =
      ((r.tickNodes ctx).1, heir.scene (r.tickNodes ctx).2) := by
  obtain ⟨w, valid, rfl⟩ := ready.laid
  have built : w.runner.tree.Built := ready.tree.built
  have validHeir : (heir.walker w).Valid := ⟨valid.sound, valid.running⟩
  have builtHeir : (heir.walker w).runner.tree.Built := built
  rw [show heir.runner w.layout = (heir.walker w).layout from rfl,
    Walker.layout_tickNodes builtHeir validHeir, Walker.layout_tickNodes built valid,
    tickRoot_walker heir w (built.shaped.mono fun _ => Node.Shaped.builtin)]
  rfl

/-- A run is the same after a succession. -/
theorem run_runner {r : Runner} {cache : ExprCache} (ready : r.Ready cache) (ctx : Context) :
    (heir.runner r).run (heir.context ctx) = ((r.run ctx).1, heir.both (r.run ctx).2) := by
  rw [Runner.run, Runner.run, runner_caller,
    runner_isRunning]
  simp only [isPending_context, dropRequest_context]
  split
  · rw [abort_runner]
  · rw [tickNodes_runner heir ready]
    exact heir.conclude_runner r _ _

/-! ### Sessions -/

/-- A registration once the actor has been succeeded. -/
def registration (r : Registration) : Registration := { r with target := heir.target r.target }

/-- The session once the successor has taken its predecessor's place. -/
def session (session : Session) : Session :=
  { session with
    context := heir.context session.context
    runners := Index.relabel id heir.runner session.runners
    registrations := Index.relabel id heir.registration session.registrations
    subscriptions := Index.relabel id heir.registration session.subscriptions }

variable (s : Session)

@[simp] theorem session_context : (heir.session s).context = heir.context s.context := rfl

@[simp] theorem session_trees : (heir.session s).trees = s.trees := rfl

@[simp] theorem session_runners :
    (heir.session s).runners = Index.relabel id heir.runner s.runners := rfl

theorem at?_runners (name : String) :
    (heir.session s).runners.at? name = (s.runners.at? name).map heir.runner :=
  Index.at?_relabel Function.injective_id _ s.runners name

theorem at?_registrations (label : String) :
    (heir.session s).registrations.at? label = (s.registrations.at? label).map heir.registration :=
  Index.at?_relabel Function.injective_id _ s.registrations label

theorem at?_subscriptions (label : String) :
    (heir.session s).subscriptions.at? label = (s.subscriptions.at? label).map heir.registration :=
  Index.at?_relabel Function.injective_id _ s.subscriptions label

theorem setRunner_session (name : String) (r : Runner) (ctx : Context) :
    (heir.session s).setRunner name (heir.runner r) (heir.context ctx) =
      heir.session (s.setRunner name r ctx) := by
  simp only [Session.setRunner, session, Index.relabel_put Function.injective_id, id]

/-- Loading is the same after a succession. -/
theorem load_session (label name : String) (strict : Bool) (input : SourceInput) :
    (heir.session s).load label name strict input =
      ((s.load label name strict input).1, heir.session (s.load label name strict input).2) := by
  rw [Session.load, Session.load]
  split
  · rfl
  · rename_i source _
    simp only [session_context, context_registry, context_cache]
    rcases source.load s.context.registry s.context.cache name strict with ⟨error | tree, cache⟩ <;> rfl

theorem dropRunner_session (name : String) :
    (heir.session s).dropRunner name = heir.session (s.dropRunner name) := by
  rw [Session.dropRunner, Session.dropRunner, at?_runners]
  rcases s.runners.at? name with _ | r
  · rfl
  · have left : { (heir.session s).context with
        directory := (heir.session s).context.directory.remove name } =
          heir.context { s.context with directory := s.context.directory.remove name } := by
      simp only [session, context, Index.relabel_remove Function.injective_id, id]
    simp only [Option.map_some, left, discard_runner]
    simp only [session, Index.relabel_remove Function.injective_id, id]

theorem unsubscribe_session (label : String) :
    (heir.session s).unsubscribe label = heir.session (s.unsubscribe label) := by
  rw [Session.unsubscribe, Session.unsubscribe, at?_subscriptions]
  rcases s.subscriptions.at? label with _ | r
  · rfl
  · simp only [Option.map_some, registration, session_context,
      offListener_context]
    simp only [session, Index.relabel_remove Function.injective_id, id]

/-- A host registers the same listener after a succession. -/
theorem register_session (r : Runner) (label event : String) (address : Address) (reaction : Reaction) :
    (heir.session s).register (heir.runner r) label event address reaction =
      (heir.registration (s.register r label event address reaction).1,
        heir.session (s.register r label event address reaction).2) := by
  simp only [Session.register, session_context,
    resolve_context, runner_caller, on_context]
  simp only [session, Index.relabel_put Function.injective_id, id]
  rfl

theorem evalFor_session (r : Runner) (code : String) :
    (heir.session s).evalFor (heir.runner r) code =
      ((s.evalFor r code).1, heir.session (s.evalFor r code).2) := by
  have compiled : (heir.session s).context.compile code =
      ((s.context.compile code).1, heir.context (s.context.compile code).2) := rfl
  simp only [Session.evalFor, compiled]
  rcases (s.context.compile code).1 with error | e
  · rfl
  · simp only [runner_get?]
    rcases e.eval r.actor.get? with error | v <;> rfl

/-- Every command for a runner is answered alike after a succession. -/
theorem performOn_session {name : String} {r : Runner} {cache : ExprCache} (ready : r.Ready cache)
    (command : Session.RunnerCommand) :
    (heir.session s).performOn name (heir.runner r) command =
      ((s.performOn name r command).1, heir.session (s.performOn name r command).2) := by
  have acted (actor : Actor) : (heir.session s).setRunner name { heir.runner r with actor := heir.actor actor }
      (heir.context s.context) = heir.session (s.setRunner name { r with actor } s.context) :=
    heir.setRunner_session s name { r with actor } s.context
  cases command with
  | run =>
    simp only [Session.performOn, session_context,
      run_runner heir ready]
    exact Prod.ext rfl (heir.setRunner_session s name _ _)
  | interrupt =>
    simp only [Session.performOn, session_context,
      interrupt_runner]
    exact Prod.ext rfl (heir.setRunner_session s name _ _)
  | clear =>
    simp only [Session.performOn, session_context,
      clear_runner]
    exact Prod.ext rfl (heir.setRunner_session s name _ _)
  | request =>
    simp only [Session.performOn, session_context,
      runner_caller, request_context,
      isPending_context]
    rfl
  | tree => rfl
  | get key => rfl
  | hasListeners =>
    exact Prod.ext (congrArg Session.Answer.flag (heir.hasCaller_bus s.context.bus r.actor.caller)) rfl
  | unknown => rfl
  | set key v => exact Prod.ext rfl (acted (r.actor.set key v))
  | remove key => exact Prod.ext rfl (acted (r.actor.remove key))
  | clearVars => exact Prod.ext rfl (acted r.actor.clearVars)
  | clearTemporaries => exact Prod.ext rfl (acted r.actor.clearTemporaries)
  | setDebug debug => exact Prod.ext rfl (acted { r.actor with debug })
  | eval code => exact heir.evalFor_session s r code
  | on label event address reaction =>
    simp only [Session.performOn, register_session]
  | subscribe label event address reaction =>
    simp only [Session.performOn, register_session, unsubscribe_session]
    simp only [session, Index.relabel_put Function.injective_id, id]
  | off event =>
    exact Prod.ext rfl (congrArg (fun ctx => { heir.session s with context := ctx })
      (heir.off_context s.context event r.actor.caller))
  | offCaller =>
    exact Prod.ext rfl (congrArg (fun ctx => { heir.session s with context := ctx })
      (heir.offCaller_context s.context r.actor.caller))
  | follow stage reaction =>
    simp only [Session.performOn]
    split
    · exact Prod.ext rfl (heir.setRunner_session s name (r.follow _ reaction) s.context)
    · rfl

/-- Whoever comes later comes after the successor. -/
theorem spawn_session (past : heir.gone ≤ heir.count) (begun : heir.count ≤ s.context.callers)
    (label : String) (tree : Tree) (address : Option Address) (debug : Bool)
    (vars : List (String × Value)) :
    (heir.session s).spawn label tree address debug vars =
      heir.session (s.spawn label tree address debug vars) := by
  have later : s.context.callers + 1 + 1 = heir.owner (s.context.callers + 1) := by
    rw [owner, if_neg (by omega), if_neg (by omega)]
  have reached : s.context.callers + 1 + 1 = heir.address (s.context.callers + 1) := by
    rw [Succession.address, if_neg (by omega)]
  have actor : (heir.session s).spawned address debug vars = heir.actor (s.spawned address debug vars) := by
    simp only [Session.spawned, session_context,
      context_callers]
    rcases address with _ | address
    · simp only [Succession.actor, Actor.newWith, Actor.new, Option.map_none, Option.getD_none, target,
        ← later, ← reached]
    · simp only [Succession.actor, Actor.newWith, Actor.new, Option.map_some, Option.getD_some,
        resolve_context, ← later]
  have counted : { heir.session s with context := (heir.session s).context.newCaller.2 } =
      heir.session { s with context := s.context.newCaller.2 } := rfl
  rw [Session.spawn_eq, Session.spawn_eq]
  simp only [actor, counted, dropRunner_session]
  generalize Session.dropRunner { s with context := s.context.newCaller.2 } label = s
  generalize Session.spawned _ address debug vars = actor
  rw [← setRunner_session]
  simp only [session_context, context,
    Index.relabel_put Function.injective_id, id]
  rfl

/-- Hosts know no callers: a command is answered the same, and comes to the same. -/
theorem perform_session (ready : s.Ready) (past : heir.gone ≤ heir.count)
    (begun : heir.count ≤ s.context.callers) (command : Session.Command) :
    (heir.session s).perform command = ((s.perform command).1, heir.session (s.perform command).2) := by
  cases command with
  | load label tree strict source => exact heir.load_session s label tree strict _
  | spawn label tree address debug vars =>
    simp only [Session.perform, session_trees]
    rcases s.trees.at? tree with _ | tree
    · rfl
    · exact Prod.ext rfl (heir.spawn_session s past begun label tree address debug vars)
  | advance dt => rfl
  | setTime t => rfl
  | dispatch event args address =>
    have target : ((address.map (heir.context s.context).resolve).getD .everyone) =
        heir.target ((address.map s.context.resolve).getD .everyone) := by
      rcases address with _ | address
      · rfl
      · exact heir.resolve_context s.context address
    simp only [Session.perform, session_context, target,
      dispatch_context]
    rfl
  | compile code =>
    have compiled : (heir.session s).context.compile code =
        ((s.context.compile code).1, heir.context (s.context.compile code).2) := rfl
    simp only [Session.perform, compiled]
    rcases (s.context.compile code).1 with error | e <;> rfl
  | isTemporary name => rfl
  | unsubscribe label =>
    simp only [Session.perform, at?_subscriptions, Option.isSome_map, unsubscribe_session]
  | offListener label event address =>
    simp only [Session.perform, at?_registrations]
    rcases s.registrations.at? label with _ | r
    · rfl
    · have target : ((address.map (heir.context s.context).resolve).getD (heir.registration r).target) =
          heir.target ((address.map s.context.resolve).getD r.target) := by
        rcases address with _ | address
        · rfl
        · exact heir.resolve_context s.context address
      simp only [Option.map_some, Session.updateContext,
        session_context, target]
      exact Prod.ext rfl (congrArg (fun ctx => { heir.session s with context := ctx })
        (heir.offListener_context s.context (event.getD r.event) _ r.listener))
  | drop name =>
    simp only [Session.perform, at?_runners, Option.isSome_map, dropRunner_session]
  | toRunner name command =>
    simp only [Session.perform, at?_runners]
    rcases found : s.runners.at? name with _ | r
    · rfl
    · exact heir.performOn_session s (ready.runners name r found) command

theorem exchange_session (ready : s.Ready) (past : heir.gone ≤ heir.count)
    (begun : heir.count ≤ s.context.callers) (command : Session.Command) :
    (heir.session s).exchange command =
      ((s.exchange command).1, heir.session (s.exchange command).2) := by
  simp only [Session.exchange, heir.perform_session s ready past begun]
  rfl

end BehaviorTree.Succession
