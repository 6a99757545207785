import BehaviorTree.Session.Command

/-!
A session: one context with the trees, runners and listeners that a host has named in it. Commands
are carried out one after another, and the notes taken meanwhile are handed over with each answer.
-/

namespace BehaviorTree

/-- Where a listener was registered. -/
structure Registration where
  listener : Nat
  event : String
  target : Target

/-- A host with its trees and runners, all in one context. -/
structure Session where
  context : Context
  /-- The source that trees are loaded from unless another is given. -/
  source : SourceInput
  trees : Index String Tree
  runners : Index String Runner
  /-- Every listener that was named, by its last name. -/
  registrations : Index String Registration
  /-- Listeners that are removed when their label is given up. -/
  subscriptions : Index String Registration

namespace Session

/-- A session in which nothing has happened. -/
def new (registry : Registry) (source : SourceInput) : Session :=
  { context := .new registry, source, trees := [], runners := [], registrations := []
    subscriptions := [] }

def updateContext (session : Session) (f : Context → Context) : Session :=
  { session with context := f session.context }

/-- Keeps a runner after it has acted, with the context that it left. -/
def setRunner (session : Session) (name : String) (runner : Runner) (ctx : Context) : Session :=
  { session with context := ctx, runners := session.runners.put name runner }

/-! ### Commands to the session -/

/-- Loads a tree and keeps it under a label; the cache grows also when loading fails. -/
def load (session : Session) (label tree : String) (strict : Bool) (input : SourceInput) :
    Answer × Session :=
  match input.read with
  | .error error => (.sourceError error, session)
  | .ok source =>
    let ctx := session.context
    let (result, cache) := source.load ctx.registry ctx.cache tree strict
    let session := { session with context := { ctx with cache } }
    match result with
    | .error error => (.loadError error, session)
    | .ok tree => (.count tree.nodes.length, { session with trees := session.trees.put label tree })

/-- Gives a runner up. -/
def dropRunner (session : Session) (name : String) : Session :=
  match session.runners.at? name with
  | none => session
  | some runner =>
    { session with
      context := runner.discard { session.context with directory := session.context.directory.remove name }
      runners := session.runners.remove name }

/-- Creates an actor for a tree. A runner of that name is given up. -/
def spawn (session : Session) (label : String) (tree : Tree) (address : Option Address)
    (debug : Bool) (vars : List (String × Value)) : Session :=
  let (caller, ctx) := session.context.newCaller
  let actor := Actor.new caller
  let target := (address.map ctx.resolve).getD actor.target
  let actor := vars.foldl (fun actor (name, v) => actor.set name v) { actor with target, debug }
  let session := dropRunner { session with context := ctx } label
  let ctx := session.context
  session.setRunner label (Runner.new tree actor)
    { ctx with directory := ctx.directory.put label (caller, target) }

/-- Ends the subscription kept under a label, if there is one. -/
def unsubscribe (session : Session) (label : String) : Session :=
  match session.subscriptions.at? label with
  | none => session
  | some r =>
    { session with
      context := session.context.offListener r.listener r.event r.target
      subscriptions := session.subscriptions.remove label }

/-! ### Commands to a runner -/

/-- Evaluates an expression over the variables of a runner. -/
def evalFor (session : Session) (runner : Runner) (code : String) : Answer × Session :=
  let (result, ctx) := session.context.compile code
  let session := { session with context := ctx }
  match result with
  | .error error => (.exprError error, session)
  | .ok e =>
    match e.eval runner.actor.get? with
    | .ok v => (.value v, session)
    | .error error => (.exprError error, session)

/-- Registers a host's listener for a runner and keeps its place under the label. -/
def register (session : Session) (runner : Runner) (label event : String) (address : Address)
    (reaction : Reaction) : Registration × Session :=
  let target := session.context.resolve address
  let (listener, ctx) := session.context.on event target runner.actor.caller reaction
  let r : Registration := ⟨listener, event, target⟩
  (r, { session with context := ctx, registrations := session.registrations.put label r })

/-- Carries out a command that is for one runner. -/
def performOn (session : Session) (name : String) (runner : Runner) :
    RunnerCommand → Answer × Session
  | .run =>
    let (status, runner, ctx) := runner.run session.context
    (.status status, session.setRunner name runner ctx)
  | .interrupt =>
    let (runner, ctx) := runner.interrupt session.context
    (.nothing, session.setRunner name runner ctx)
  | .clear =>
    let (runner, ctx) := runner.clear session.context
    (.nothing, session.setRunner name runner ctx)
  | .request =>
    let ctx := session.context.request runner.actor.caller
    (.flag (ctx.isPending runner.actor.caller), { session with context := ctx })
  | .tree => (.text runner.tree.name, session)
  | .get key =>
    (((runner.actor.get? key).map Answer.value).getD .unset, session)
  | .set key v => (.nothing, withActor (runner.actor.set key v))
  | .remove key =>
    (((runner.actor.get? key).map Answer.value).getD .unset, withActor (runner.actor.remove key))
  | .clearVars => (.nothing, withActor runner.actor.clearVars)
  | .clearTemporaries => (.nothing, withActor runner.actor.clearTemporaries)
  | .setDebug debug => (.flag debug, withActor { runner.actor with debug })
  | .eval code => session.evalFor runner code
  | .on label event address reaction =>
    (.nothing, (session.register runner label event address reaction).2)
  | .subscribe label event address reaction =>
    let (r, session) := session.register runner label event address reaction
    let session := session.unsubscribe label
    (.nothing, { session with subscriptions := session.subscriptions.put label r })
  | .off event => (.nothing, session.updateContext (·.off event runner.actor.caller))
  | .offCaller => (.nothing, session.updateContext (·.offCaller runner.actor.caller))
  | .hasListeners => (.flag (session.context.bus.hasCaller runner.actor.caller), session)
  | .follow stage reaction =>
    match Stage.ofName? stage with
    | some stage => (.nothing, session.setRunner name (runner.follow stage reaction) session.context)
    | none => (.noSuch, session)
  | .unknown => (.badStep, session)
where
  /-- The session with the runner's actor changed. -/
  withActor (actor : Actor) : Session :=
    session.setRunner name { runner with actor } session.context

/-- Carries out a command and answers it. -/
def perform (session : Session) : Command → Answer × Session
  | .load label tree strict input => session.load label tree strict (input.getD session.source)
  | .spawn label tree address debug vars =>
    match session.trees.at? tree with
    | some tree => (.nothing, session.spawn label tree address debug vars)
    | none => (.noSuch, session)
  | .advance dt =>
    let session := session.updateContext (·.advance dt)
    (.number session.context.clock, session)
  | .setTime t => (.number t, session.updateContext fun ctx => { ctx with clock := t })
  | .dispatch event args address =>
    let target := (address.map session.context.resolve).getD .everyone
    let (called, ctx) := session.context.dispatch event target args
    (.count called, { session with context := ctx })
  | .compile code =>
    let (result, ctx) := session.context.compile code
    let cached := ctx.cache.length
    match result with
    | .ok e => (.expr e cached, { session with context := ctx })
    | .error error => (.notCompiled error cached, { session with context := ctx })
  | .isTemporary name => (.flag (BehaviorTree.isTemporary name), session)
  | .unsubscribe label =>
    (.flag (session.subscriptions.at? label).isSome, session.unsubscribe label)
  | .offListener label event address =>
    match session.registrations.at? label with
    | none => (.noSuch, session)
    | some r =>
      let target := (address.map session.context.resolve).getD r.target
      (.nothing, session.updateContext (·.offListener r.listener (event.getD r.event) target))
  | .drop name => (.flag (session.runners.at? name).isSome, session.dropRunner name)
  | .toRunner name command =>
    match session.runners.at? name with
    | some runner => session.performOn name runner command
    | none => (.noSuch, session)

/-- The notes taken so far, which are handed over. -/
def takeNotes (session : Session) : List Note × Session :=
  (session.context.notes, session.updateContext fun ctx => { ctx with notes := [] })

end Session
end BehaviorTree
