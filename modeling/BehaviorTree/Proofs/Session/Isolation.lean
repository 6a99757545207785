import BehaviorTree.Proofs.Session.Twins

/-!
Runners on one context do not get in each other's way. Whatever is done with other runners in
between, be it that they fail, are cleared or are given up, a host sees the same of a runner as if it
had never been done. Hosts follow the runs and listen to events, but their reactions give no orders.
-/

namespace BehaviorTree

open Context (Aside Mirrors)
open Descent (Active Call)

/-! ### What is done with other runners -/

namespace Runner

variable {caller : Nat} {runner : Runner} {cache : ExprCache} {log : List Call} {start ctx : Context}

/-- What a runner does is of no consequence for another caller. -/
theorem steady_aside (apart : runner.actor.caller ≠ caller) (silent : runner.Heeds fun _ => False) :
    Steady runner.actor.caller runner.followers fun ctx => ctx.Wired ∧ Aside caller start ctx where
  note _ _ kept := ⟨kept.1.congr rfl rfl, kept.2.trans ⟨⟨rfl, fun _ _ => rfl⟩, rfl, rfl, rfl⟩⟩
  obey follower member kept := by
    rw [List.eq_nil_iff_forall_not_mem.mpr (silent follower member)]
    exact kept
  dropRequest kept := ⟨kept.1.congr rfl rfl, kept.2.trans (.dropRequest _ apart)⟩
  unwind kept := ⟨(Context.passage_unsubscribeAll kept.1 _).wired, kept.2.trans (.unsubscribeAll kept.1 apart)⟩

variable (apart : runner.actor.caller ≠ caller)

include apart

/-- A run without orders is no concern of another caller. -/
theorem Ready.aside_run (ready : runner.Ready ctx.cache) (wired : ctx.Wired) (held : runner.Held log ctx)
    (silent : runner.Heeds fun _ => False) : Aside caller ctx (runner.run ctx).2.2 := by
  have wired' : (ctx.dropRequest runner.actor.caller).Wired := wired.congr rfl rfl
  have held' : runner.Held log (ctx.dropRequest runner.actor.caller) := held.mono (List.Subset.refl _) rfl
  obtain ⟨H, log, keeps⟩ := ready.scene_ticks wired' held'
  have ready' : runner.Ready (ctx.dropRequest runner.actor.caller).cache := ready
  have builtin := ready.shaped.mono fun _ shaped => shaped.builtin
  have effects := Descent.changes_tick runner.tree.root builtin (restore runner.actor.stack) []
    (runner.opening (ctx.dropRequest runner.actor.caller))
  have scene : (runner.tickNodes (ctx.dropRequest runner.actor.caller)).2 = _ := congrArg Prod.snd
    (ready.tickNodes_eq (ctx.dropRequest runner.actor.caller))
  refine ((steady_aside apart silent).run ⟨wired, .refl ctx⟩ keeps.acting fun kept => ⟨keeps.wired, ?_⟩).2
  refine ⟨kept.2.untouched.trans (keeps.others caller apart.symm), ?_, ?_, ?_⟩
  · refine Eq.trans ?_ kept.2.pending
    rw [Context.isPending, scene, effects.requests]
    rfl
  · exact (congrArg (fun s : Scene => s.context.clock) scene).trans (effects.clock.trans kept.2.clock)
  · exact congrArg Lexicon.cache ready'.tickNodes.1

theorem aside_interrupt (wired : ctx.Wired) (silent : runner.Heeds fun _ => False) :
    Aside caller ctx (runner.interrupt ctx).2 := ((steady_aside apart silent).interrupt ⟨wired, .refl ctx⟩).2

theorem aside_clear (wired : ctx.Wired) (silent : runner.Heeds fun _ => False) :
    Aside caller ctx (runner.clear ctx).2 := by
  obtain ⟨before, ⟨-, aside⟩, same⟩ := (steady_aside apart silent).cleared ⟨wired, .refl ctx⟩
  rw [same]
  exact aside.trans (.offCaller _ apart)

theorem aside_discard (wired : ctx.Wired) : Aside caller ctx (runner.discard ctx) :=
  (Aside.unsubscribeAll wired apart).trans (.offCaller _ apart)

end Runner

namespace Session

/-! ### Deeds -/

/-- What a host does once its runners are set up. -/
inductive Deed where
  | toRunner (name : String) (command : RunnerCommand)
  | drop (name : String)
  | advance (dt : Float)
  | setTime (t : Float)
  | dispatch (event : String) (target : Target) (args : List Value)

/-- Operations of a runner; they leave alone who listens and who follows, apart from the runner
itself. -/
def RunnerCommand.isOperation : RunnerCommand → Bool
  | .run | .interrupt | .clear | .request | .tree | .get _ | .set _ _ | .remove _ | .clearVars
  | .clearTemporaries | .setDebug _ => true
  | _ => false

/-- Operations register no reactions. -/
theorem RunnerCommand.reaction?_eq_none {command : RunnerCommand} (plain : command.isOperation) :
    command.reaction? = none := by
  cases command <;> first | rfl | exact absurd plain Bool.false_ne_true

namespace Deed

/-- The runner that something is done with. -/
def runner? : Deed → Option String
  | toRunner name _ => some name
  | drop name => some name
  | _ => none

/-- Operations of a runner, and all that is done without one. -/
def isOperation : Deed → Bool
  | toRunner _ command => command.isOperation
  | _ => true

end Deed

/-- Carries out a deed and answers it. -/
def act (session : Session) : Deed → Answer × Session
  | .toRunner name command => session.perform (.toRunner name command)
  | .drop name => session.perform (.drop name)
  | .advance dt => session.perform (.advance dt)
  | .setTime t => session.perform (.setTime t)
  | .dispatch event target args =>
    let (called, ctx) := session.context.dispatch event target args
    (.count called, { session with context := ctx })

/-- Does something and hands over the notes taken meanwhile. -/
def enact (session : Session) (deed : Deed) : (Answer × List Note) × Session :=
  let (answer, session) := session.act deed
  let (notes, session) := session.takeNotes
  ((answer, notes), session)

/-- A session after deeds, one after another. -/
def afterDeeds (session : Session) (deeds : List Deed) : Session :=
  deeds.foldl (fun session deed => (session.enact deed).2) session

/-- What a host sees of a runner between two deeds. -/
structure Sight where
  status : TreeStatus
  /-- The status apart from a pending interrupt. -/
  outcome : TreeStatus
  last : Status
  vars : Blackboard
  /-- The running nodes, from the root inwards. -/
  path : List Node
  isPending : Bool

/-- What a host sees of the runner of a name, if there is one. -/
def sight (session : Session) (name : String) : Option Sight :=
  (session.runners.at? name).map fun runner =>
    { status := runner.status session.context, outcome := runner.actor.status, last := runner.actor.last
      vars := runner.actor.vars, path := runner.actor.stack.map Frame.node
      isPending := session.context.isPending runner.actor.caller }

/-- What the runner of a name answers to what is done with it, and the notes that it takes. -/
def replies (name : String) : Session → List Deed → List (Answer × List Note)
  | _, [] => []
  | session, deed :: rest =>
    (if deed.runner? = some name then [(session.enact deed).1] else []) ++ replies name (session.enact deed).2 rest

/-! ### Quiet sessions -/

/-- A session whose hosts give no orders. -/
structure Quiet (session : Session) : Prop where
  ready : session.Ready
  tidy : session.Tidy
  guarded : ∃ log, session.Guarded (fun _ => False) log
  silent : session.Heeds fun _ => False
  noted : session.context.notes = []

namespace Quiet

variable {session : Session}

/-- Taking the notes keeps a session quiet. -/
theorem takeNotes {log : String → List Call} (ready : session.Ready) (tidy : session.Tidy)
    (guarded : session.Guarded (fun _ => False) log) (silent : session.Heeds fun _ => False) :
    session.takeNotes.2.Quiet where
  ready := ready.still rfl rfl rfl
  tidy := ⟨tidy.context.still _ _ _ _, tidy.directory, tidy.registrations, tidy.subscriptions⟩
  guarded := ⟨log, guarded.same rfl rfl rfl rfl rfl rfl⟩
  silent := ⟨silent.context.congr rfl, silent.runners⟩
  noted := rfl

/-- A command that registers no orders keeps a session quiet. -/
theorem exchange (quiet : session.Quiet) (command : Command)
    (mute : ∀ reaction ∈ command.reaction?, reaction.orders = []) : (session.exchange command).2.Quiet := by
  obtain ⟨ready, tidy, ⟨log, guarded⟩, silent, -⟩ := quiet
  exact .takeNotes (ready.perform command) (tidy.perform ready command).tidy
    (guarded.perform tidy ready command fun _ never => never.elim)
    (silent.perform Context.closed_none guarded ready command fun reaction member order inside => by
      rw [mute reaction member] at inside
      cases inside)

/-- Commands that register no orders keep a session quiet. -/
theorem after (quiet : session.Quiet) (commands : List Command)
    (mute : ∀ command ∈ commands, ∀ reaction ∈ command.reaction?, reaction.orders = []) :
    (session.after commands).Quiet := by
  induction commands generalizing session with
  | nil => exact quiet
  | cons command rest ih =>
    obtain ⟨first, later⟩ := List.forall_mem_cons.mp mute
    exact ih (quiet.exchange command first) later

/-- An operation keeps a session quiet. -/
theorem enact (quiet : session.Quiet) {deed : Deed} (plain : deed.isOperation) : (session.enact deed).2.Quiet := by
  cases deed with
  | toRunner name command =>
    refine quiet.exchange (.toRunner name command) fun reaction member => ?_
    rw [Command.reaction?, RunnerCommand.reaction?_eq_none plain] at member
    cases member
  | drop name => exact quiet.exchange (.drop name) nofun
  | advance dt => exact quiet.exchange (.advance dt) nofun
  | setTime t => exact quiet.exchange (.setTime t) nofun
  | dispatch event target args =>
    obtain ⟨ready, tidy, ⟨log, guarded⟩, silent, -⟩ := quiet
    have stirs := Context.stirs_dispatch session.context event target args
    have ready' : (session.act (.dispatch event target args)).2.Ready := ready.still stirs.lexicon rfl rfl
    have tidy' : session.Onward (session.act (.dispatch event target args)).2 := tidy.onward stirs.tame rfl rfl rfl
    have guarded' : (session.act (.dispatch event target args)).2.Guarded (fun _ => False) log :=
      guarded.still (stirs.wired guarded.wired) stirs.issued stirs.posts rfl (fun _ member => .inl member)
        (fun _ member => .inl member) fun _ never => never.elim
    have silent' := (Context.withstands_heeds Context.closed_none).dispatch event target args silent.context
    exact .takeNotes ready' tidy'.tidy guarded' ⟨silent', silent.runners⟩

end Quiet

theorem quiet_new (source : SourceInput) : (new Registry.builtin source).Quiet where
  ready := ready_new source
  tidy := tidy_new Registry.builtin source
  guarded := ⟨fun _ => [], guarded_new Registry.builtin source _ _⟩
  silent := heeds_new Registry.builtin source _
  noted := rfl

end Session
end BehaviorTree
