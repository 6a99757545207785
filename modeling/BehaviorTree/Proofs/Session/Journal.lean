import BehaviorTree.Proofs.Descent.Keeping
import BehaviorTree.Proofs.Session.Tidy

/-!
The journal of a runner. Between two runs the saved state of the root is the one that the stack lays
out, and a run is one tick of the root from there on, with all the ticks within it; the journal of a
runner lists the ticks of all its runs, in order.
-/

namespace BehaviorTree

open Descent (Active Call Report Sound frames tick)

namespace Runner

variable (runner : Runner) (ctx : Context)

/-- A request for an interrupt is about to take effect. -/
def isCancelled : Bool := ctx.isPending runner.actor.caller && runner.actor.isRunning

/-- The scene in which a run begins to tick nodes. -/
def opening : Scene :=
  ⟨if runner.actor.stack.isEmpty then runner.announce .beforeRun 0 ctx else ctx,
    { runner.actor with stack := [] }⟩

/-- The tick of the root in a run. -/
def rootCall : Call :=
  ⟨0, runner.tree.root, restore runner.actor.stack, [], .nothing, runner.opening ctx, runner.opening ctx⟩

/-- All the ticks of a run: that of the root and those within it. -/
def calls : List Call :=
  if runner.isCancelled ctx then []
  else
    let root := runner.rootCall (ctx.dropRequest runner.actor.caller)
    root :: root.within

variable {runner} {cache : ExprCache}

/-- What runs is in a sound state, and the stack is its layout. -/
theorem Ready.restores (ready : runner.Ready cache) :
    (restore runner.actor.stack = none ∧ runner.actor.stack = []) ∨
      ∃ state, restore runner.actor.stack = some state ∧
        Sound runner.actor.completed runner.tree.root state ∧
          runner.actor.stack = frames runner.tree.root state := by
  obtain ⟨walker, valid, rfl⟩ := ready.laid
  rcases active : walker.active with _ | state
  · have empty : walker.stack = [] := by rw [Descent.Walker.stack, active]
    rw [Descent.Walker.layout_stack, empty]
    exact .inl ⟨rfl, rfl⟩
  · have laid : walker.stack = frames walker.runner.tree.root state := by
      rw [Descent.Walker.stack, active]
    have sound := valid.sound state active
    rw [Descent.Walker.layout_stack, laid]
    exact .inr ⟨state, Descent.restore_frames ready.tree.nodup sound, sound, rfl⟩

/-- What a run goes on from is sound. -/
theorem Ready.sound (ready : runner.Ready cache) :
    ∀ state ∈ restore runner.actor.stack, Sound runner.actor.completed runner.tree.root state := by
  intro state member
  rcases ready.restores with ⟨none, -⟩ | ⟨other, found, sound, -⟩
  · rw [none] at member
    cases member
  · rw [found, Option.mem_some] at member
    exact member ▸ sound

theorem Ready.stack_eq_frames (ready : runner.Ready cache) {state : Active}
    (there : restore runner.actor.stack = some state) : runner.actor.stack = frames runner.tree.root state := by
  rcases ready.restores with ⟨none, -⟩ | ⟨other, found, -, laid⟩
  · cases none.symm.trans there
  · cases found.symm.trans there
    exact laid

theorem Ready.shaped (ready : runner.Ready cache) : runner.tree.root.Every Node.Shaped :=
  ready.tree.admitted.mono fun _ => Node.Admitted.toShaped

/-- The nodes of a run are ticked by descending from the root. -/
theorem Ready.tickNodes_eq (ready : runner.Ready cache) (ctx : Context) :
    runner.tickNodes ctx =
      (((tick runner.tree.root (restore runner.actor.stack) []).play (runner.opening ctx)).1.map
          (Report.outcome runner.tree.root),
        ((tick runner.tree.root (restore runner.actor.stack) []).play (runner.opening ctx)).2) := by
  obtain ⟨walker, valid, rfl⟩ := ready.laid
  have active : restore walker.layout.actor.stack = walker.active := by
    rcases active : walker.active with _ | state
    · rw [Descent.Walker.layout_stack, Descent.Walker.stack, active]
      rfl
    · rw [Descent.Walker.layout_stack, Descent.Walker.stack, active]
      exact Descent.restore_frames ready.tree.nodup (valid.sound state active)
  rw [Descent.Walker.layout_tickNodes ready.tree.built valid, active, Descent.Walker.tickRoot, opening,
    Descent.Walker.layout_stack, Descent.Walker.isEmpty_stack]
  rfl

/-- The nodes of a run are left in a sound state. -/
theorem Ready.gives_ticks (ready : runner.Ready cache) (ctx : Context) :
    TickM.Gives (tick runner.tree.root (restore runner.actor.stack) []) (runner.opening ctx)
      fun report t => Descent.SoundReport t.actor.completed runner.tree.root report ∧
        Descent.Effects runner.tree.root.ids (runner.opening ctx) t := by
  have builtin := ready.shaped.mono fun _ shaped => shaped.builtin
  exact Descent.keepsSound runner.tree.root builtin ready.tree.nodup _ [] _ ready.sound

theorem run_eq (runner : Runner) (ctx : Context) :
    runner.run ctx =
      if runner.isCancelled ctx then
        (.interrupted, runner.abort (ctx.dropRequest runner.actor.caller))
      else
        let ticked := runner.tickNodes (ctx.dropRequest runner.actor.caller)
        runner.conclude ticked.1 ticked.2 := rfl

end Runner

namespace Session

/-- The ticks of a runner's nodes that a command leads to. -/
def calls (session : Session) (name : String) : Command → List Call
  | .toRunner other .run =>
    if other = name then
      match session.runners.at? name with
      | some runner => runner.calls session.context
      | none => []
    else []
  | _ => []

/-- What a run comes to for the session. -/
theorem exchange_run_eq (session : Session) {name : String} {runner : Runner}
    (there : session.runners.at? name = some runner) :
    session.exchange (.toRunner name .run) =
      ((.status (runner.run session.context).1, (runner.run session.context).2.2.notes),
        session.setRunner name (runner.run session.context).2.1
          { (runner.run session.context).2.2 with notes := [] }) := by
  rw [exchange, perform, there]
  rfl

/-- All ticks of a runner's nodes while commands are carried out. -/
def journal (name : String) : Session → List Command → List Call
  | _, [] => []
  | session, command :: rest =>
    session.calls name command ++ journal name (session.exchange command).2 rest

theorem after_append (session : Session) (commands more : List Command) :
    session.after (commands ++ more) = (session.after commands).after more := List.foldl_append

end Session
end BehaviorTree
