import BehaviorTree.Proofs.Session.Guarded

/-!
Who is listening. The listeners that fill the mailboxes of a runner's caller belong one to one to the
listening nodes on its stack, those in the branches of Parallel nodes included. So none of them
outlives its frame, however that is given up.
-/

namespace BehaviorTree

open Context (Attended Wired)
open Descent (Active Call Listens Memory RestsWith Share Sound SoundShares WaitsWith frames progressAt
  progressOver)

/-! ### Listeners on the bus -/

/-- No host has registered a listener with this sink. -/
def Sink.isMailbox : Sink → Bool
  | .mailbox => true
  | .host _ => false

theorem Sink.isMailbox_iff {sink : Sink} : sink.isMailbox = true ↔ sink = .mailbox := by
  cases sink <;> simp [isMailbox]

namespace Bus

/-- All listeners that fill mailboxes of a caller, wherever they listen. -/
def ears (bus : Bus Sink) (caller : Nat) : List (Listener Sink) :=
  bus.all.filter fun l => l.caller = caller && l.sink.isMailbox

theorem Indexed.mem_ears {bus : Bus Sink} (indexed : bus.Indexed) {caller : Nat} {l : Listener Sink} :
    l ∈ bus.ears caller ↔
      (∃ event target, l ∈ bus.listeners event target) ∧ l.caller = caller ∧ l.sink = .mailbox := by
  rw [ears, List.mem_filter, indexed.mem_all, Bool.and_eq_true, decide_eq_true_eq, Sink.isMailbox_iff]

end Bus

namespace Context

variable {ctx : Context}

/-- Where two listeners that fill a mailbox are one, they listen to the same. -/
theorem Wired.same_place (wired : ctx.Wired) {event event' : String} {target target' : Target}
    {l l' : Listener Sink} (present : l ∈ ctx.bus.listeners event target) (fills : l.sink = .mailbox)
    (present' : l' ∈ ctx.bus.listeners event' target') (fills' : l'.sink = .mailbox) (same : l.id = l'.id) :
    event = event' ∧ target = target' := by
  obtain ⟨box, member, rfl, rfl, rfl⟩ := wired.boxed event target l present fills
  obtain ⟨box', member', rfl, rfl, rfl⟩ := wired.boxed event' target' l' present' fills'
  rw [wired.eq_of_listener member member' same]
  exact ⟨rfl, rfl⟩

/-- The listeners at one place that fill mailboxes of a caller. -/
def own (caller : Nat) (here : List (Listener Sink)) : List Nat :=
  (here.filter fun l => l.caller = caller && l.sink.isMailbox).map Listener.id

/-- No listener of a caller comes twice on the bus. -/
theorem Wired.nodup_ears (wired : ctx.Wired) (indexed : ctx.bus.Indexed) (caller : Nat) :
    ((ctx.bus.ears caller).map Listener.id).Nodup := by
  have listed : (ctx.bus.ears caller).map Listener.id =
      ctx.bus.byEvent.flatMap fun entry => entry.2.flatMap fun entry => own caller entry.2 := by
    simp only [Bus.ears, Bus.all, List.filter_flatMap, List.map_flatMap, own]
  have filled {event : String} {targets : Index Target (List (Listener Sink))} {target : Target}
      {here : List (Listener Sink)} {id : Nat} (inEvents : (event, targets) ∈ ctx.bus.byEvent)
      (inTargets : (target, here) ∈ targets) (member : id ∈ own caller here) :
      ∃ l ∈ ctx.bus.listeners event target, l.sink = .mailbox ∧ l.id = id := by
    obtain ⟨l, inside, rfl⟩ := List.mem_map.mp member
    obtain ⟨inside, fills⟩ := List.mem_filter.mp inside
    refine ⟨l, indexed.listeners_eq inEvents inTargets ▸ inside, ?_, rfl⟩
    exact Sink.isMailbox_iff.mp (Bool.and_eq_true_iff.mp fills).2
  rw [listed]
  refine Index.nodup_flatMap indexed.events (fun entry inEvents => ?_)
    fun entry inEvents other inEvents' id there there' => ?_
  · refine Index.nodup_flatMap (indexed.targets entry inEvents) (fun place inTargets => ?_)
      fun place inTargets place' inTargets' id there there' => ?_
    · have distinct := wired.distinct entry.1 place.1
      rw [indexed.listeners_eq inEvents inTargets] at distinct
      exact (List.filter_sublist.map _).nodup distinct
    · obtain ⟨l, present, fills, rfl⟩ := filled inEvents inTargets there
      obtain ⟨l', present', fills', same⟩ := filled inEvents inTargets' there'
      exact (wired.same_place present fills present' fills' same.symm).2
  · obtain ⟨place, inTargets, there⟩ := List.mem_flatMap.mp there
    obtain ⟨place', inTargets', there'⟩ := List.mem_flatMap.mp there'
    obtain ⟨l, present, fills, rfl⟩ := filled inEvents inTargets there
    obtain ⟨l', present', fills', same⟩ := filled inEvents' inTargets' there'
    exact (wired.same_place present fills present' fills' same.symm).1

/-- As long as the mailboxes of a caller are attended, they are filled one to one. -/
theorem Attended.ears_perm {caller : Nat} (attended : Attended caller ctx) (wired : ctx.Wired)
    (indexed : ctx.bus.Indexed) :
    ((ctx.bus.ears caller).map Listener.id).Perm ((ctx.boxes caller).map Mailbox.listener) := by
  refine (List.perm_ext_iff_of_nodup (wired.nodup_ears indexed caller)
    ((List.filter_sublist.map _).nodup wired.apart)).mpr fun id => ?_
  constructor
  · intro member
    obtain ⟨l, ear, rfl⟩ := List.mem_map.mp member
    obtain ⟨⟨event, target, present⟩, own, fills⟩ := indexed.mem_ears.mp ear
    obtain ⟨box, there, rfl, -, -⟩ := wired.boxed event target l present fills
    exact List.mem_map.mpr ⟨box, mem_boxes.mpr ⟨there, own⟩, rfl⟩
  · intro member
    obtain ⟨box, there, rfl⟩ := List.mem_map.mp member
    obtain ⟨there, own⟩ := mem_boxes.mp there
    exact List.mem_map.mpr ⟨box.ear, indexed.mem_ears.mpr ⟨⟨_, _, attended box there own⟩, own, rfl⟩, rfl⟩

/-- An attended mailbox is filled from its place and from nowhere else. -/
theorem Attended.fills_iff {caller : Nat} (attended : Attended caller ctx) (wired : ctx.Wired)
    {box : Mailbox} (there : box ∈ ctx.boxes caller) (event : String) (target : Target) :
    (∃ l ∈ ctx.bus.listeners event target, l.sink = .mailbox ∧ l.id = box.listener) ↔
      event = box.event ∧ target = box.target := by
  obtain ⟨there, own⟩ := mem_boxes.mp there
  have present := attended box there own
  constructor
  · rintro ⟨l, present', fills, same⟩
    exact wired.same_place present' fills present rfl same
  · rintro ⟨rfl, rfl⟩
    exact ⟨box.ear, present, rfl, rfl⟩

end Context

/-! ### Listening nodes on a stack -/

mutual

/-- The Listen and ListenTree nodes on a stack, those in branches included. -/
def listeningNodes : List Frame → List Node
  | [] => []
  | .mk node progress _ :: above =>
    (if node.kind = .listen ∨ node.kind = .listenTree then [node] else []) ++ nodesInside progress ++
      listeningNodes above

/-- Listening nodes within the progress of a node. -/
def nodesInside : Progress → List Node
  | .branches branches => nodesBeside branches
  | _ => []

/-- Listening nodes of the branches that are still active. -/
def nodesBeside : List Branch → List Node
  | [] => []
  | .settled _ :: rest => nodesBeside rest
  | .active stack :: rest => listeningNodes stack ++ nodesBeside rest

end

namespace Descent

theorem nodesInside_eq_nil {progress : Progress} (plain : ∀ branches, progress ≠ .branches branches) :
    nodesInside progress = [] := by
  cases progress <;> first | rfl | exact absurd rfl (plain _)

/-- A node that rests remembers a listener if it listens, and only then. -/
theorem node_holds_of_restsWith {node : Node} {memory : Memory} (rests : RestsWith node.kind memory)
    (stance : Stance) :
    (memory.holds node stance).map Hold.node =
      if node.kind = .listen ∨ node.kind = .listenTree then [node] else [] := by
  generalize same : node.kind = kind at rests
  cases kind <;> cases memory <;> first | exact rests.elim | simp [Memory.holds]

theorem node_holds_of_waitsWith {node : Node} {memory : Memory} {i : Nat}
    (waits : WaitsWith node.kind memory i) (stance : Stance) :
    (memory.holds node stance).map Hold.node =
      if node.kind = .listen ∨ node.kind = .listenTree then [node] else [] := by
  generalize same : node.kind = kind at waits
  cases kind <;> cases memory <;> first | exact waits.elim | simp [Memory.holds]

mutual

/-- In a sound state every listening node holds a listener, and no other node does. -/
theorem listeningNodes_frames {completed : List Nat} (resting : Stance) : ∀ {node : Node} {state : Active},
    Sound completed node state → listeningNodes (frames node state) = (state.holds resting node).map Hold.node
  | node, .resting memory, rests => by
    rw [frames, listeningNodes, listeningNodes, nodesInside_eq_nil (progressAt_ne_branches _ _),
      Active.holds, node_holds_of_restsWith rests, List.append_nil, List.append_nil]
  | node, .over memory i state, ⟨waits, _, child, here, sound⟩ => by
    simp only [frames, here]
    rw [listeningNodes, nodesInside_eq_nil (progressOver_ne_branches _ _ _), Active.holds, here,
      List.map_append, node_holds_of_waitsWith waits, listeningNodes_frames resting sound, List.append_nil]
  | node, .beside shares, ⟨parallel, sound⟩ => by
    rw [frames, listeningNodes, listeningNodes, nodesInside, parallel, Active.holds,
      nodesBeside_branches resting sound, List.append_nil]
    rfl

/-- The branches have the listening nodes that the shares hold. -/
theorem nodesBeside_branches {completed : List Nat} (resting : Stance) :
    ∀ {nodes : List Node} {shares : List Share}, SoundShares completed nodes shares →
      nodesBeside (branches nodes shares) = (shareHolds resting nodes shares).map Hold.node
  | [], [], _ => rfl
  | _ :: _, .settled _ :: _, ⟨_, rest⟩ => by
    rw [branches, branch, nodesBeside, shareHolds, Share.holds, List.nil_append,
      nodesBeside_branches resting rest]
  | _ :: _, .active _ :: _, ⟨first, rest⟩ => by
    rw [branches, branch, nodesBeside, shareHolds, Share.holds, List.map_append,
      listeningNodes_frames resting first, nodesBeside_branches resting rest]

end

end Descent

/-! ### Runners -/

namespace Runner

/-- The listeners that fill mailboxes of a runner's caller belong one to one to the listening nodes on
its stack. -/
structure Listening (log : List Call) (ctx : Context) (runner : Runner) : Prop where
  /-- Every listening node on the stack holds a listener. -/
  nodes : (stackHolds runner.actor.stack).map Hold.node = listeningNodes runner.actor.stack
  paired : ((ctx.bus.ears runner.actor.caller).map Listener.id).Perm
    ((stackHolds runner.actor.stack).map Hold.listener)
  distinct : ((stackHolds runner.actor.stack).map Hold.listener).Nodup
  /-- It listens to the event of the node, for the target that the node had when it was entered. -/
  placed : ∀ h ∈ stackHolds runner.actor.stack, ∃ call ∈ log, call.state = none ∧ call.node = h.node ∧
    h.listener = call.scene.context.bus.issued + 1 ∧ ∀ event target,
      (∃ l ∈ ctx.bus.listeners event target, l.sink = .mailbox ∧ l.id = h.listener) ↔
        event = h.node.event ∧ target = h.node.audience call.scene.actor

variable {runner : Runner} {cache : ExprCache} {log : List Call} {ctx : Context}

theorem Ready.nodes_stackHolds (ready : runner.Ready cache) :
    (stackHolds runner.actor.stack).map Hold.node = listeningNodes runner.actor.stack := by
  rcases ready.restores with ⟨-, empty⟩ | ⟨state, -, sound, laid⟩
  · rw [empty]
    rfl
  · rw [laid, Descent.stackHolds_frames sound, Descent.listeningNodes_frames .due sound]

/-- The listeners on the bus are those of the frames. -/
theorem Held.listening (held : runner.Held log ctx) (ready : runner.Ready cache) (wired : ctx.Wired)
    (indexed : ctx.bus.Indexed) (attended : Attended runner.actor.caller ctx) :
    runner.Listening log ctx where
  nodes := ready.nodes_stackHolds
  paired := (attended.ears_perm wired indexed).trans held.owned
  distinct := held.owned.nodup ((List.filter_sublist.map _).nodup wired.apart)
  placed h member := by
    obtain ⟨call, logged, fresh, same, -, subscribed, box, there, named, event, target⟩ := held.opened h member
    refine ⟨call, logged, fresh, same, subscribed, ?_⟩
    rw [← named, ← event, ← target]
    exact attended.fills_iff wired there

/-- Where nothing is on the stack nobody listens. -/
theorem Listening.ears_eq_nil (listening : runner.Listening log ctx) (empty : runner.actor.stack = []) :
    ctx.bus.ears runner.actor.caller = [] := by
  have paired := listening.paired
  rw [empty] at paired
  exact List.map_eq_nil_iff.mp paired.eq_nil

/-- A run that does not leave the tree running leaves nothing on the stack. -/
theorem stack_run (ended : (runner.run ctx).1 ≠ .running) : (runner.run ctx).2.1.actor.stack = [] := by
  rw [run_eq] at ended ⊢
  split at ended
  · rename_i cancelled
    rw [if_pos cancelled]
    rfl
  · rename_i going
    rw [if_neg going]
    generalize runner.tickNodes (ctx.dropRequest runner.actor.caller) = ticked at ended ⊢
    obtain ⟨fault | (verdict | frames), scene⟩ := ticked
    · rfl
    · rfl
    · exact absurd rfl ended

/-- An error that nodes raise ends the run, unless it has been interrupted before. -/
theorem run_of_raised (raised : (runner.raised? ctx).isSome) : (runner.run ctx).1 ≠ .running := by
  rw [run_eq]
  rw [raised?] at raised
  split
  · rintro ⟨⟩
  · generalize runner.tickNodes (ctx.dropRequest runner.actor.caller) = ticked at raised ⊢
    obtain ⟨fault | outcome, scene⟩ := ticked
    · rintro ⟨⟩
    · cases raised

theorem Ready.stack_interrupt (ready : runner.Ready cache) : (runner.interrupt ctx).1.actor.stack = [] := by
  rw [Runner.interrupt]
  split
  · rfl
  · rename_i still
    obtain ⟨walker, valid, rfl⟩ := ready.laid
    have both : walker.layout.actor.isRunning = walker.active.isSome := by
      rw [Actor.isRunning, Descent.Walker.layout_stack, Descent.Walker.isEmpty_stack,
        Descent.Walker.layout_status]
      rcases active : walker.active with _ | state
      · exact Bool.and_false _
      · rw [valid.running.mpr (by rw [active]; rfl)]
        rfl
    rw [both, Bool.not_eq_true, Option.isSome_eq_false_iff, Option.isNone_iff_eq_none] at still
    rw [Descent.Walker.layout_stack, Descent.Walker.stack, still]

/-- Nothing on the bus belongs to a runner that has been cleared. -/
theorem not_mem_listeners_clear (tidy : ctx.Tidy) {event : String} {target : Target} {l : Listener Sink}
    (present : l ∈ (runner.clear ctx).2.bus.listeners event target) : l.caller ≠ runner.actor.caller := by
  obtain ⟨before, tame, same⟩ := (steady_tame ctx runner.actor.caller runner.followers).cleared (.refl ctx)
  have tidy := tame.tidy tidy
  rw [same] at present
  simp only [Context.offCaller, tidy.indexed.listeners_offCaller, List.mem_filter, decide_eq_true_eq] at present
  exact present.2

/-- Nor does anything belong to one that has been given up. -/
theorem not_mem_listeners_discard (tidy : ctx.Tidy) {event : String} {target : Target} {l : Listener Sink}
    (present : l ∈ (runner.discard ctx).bus.listeners event target) : l.caller ≠ runner.actor.caller := by
  have tidy := (ctx.tame_unsubscribeAll runner.actor.caller).tidy tidy
  simp only [Runner.discard, Context.offCaller, tidy.indexed.listeners_offCaller, List.mem_filter,
    decide_eq_true_eq] at present
  exact present.2

end Runner

/-! ### Sessions -/

namespace Session

/-- What becomes of a runner's listeners when its frames, or the runner itself, are given up. -/
structure Releases (session : Session) (name : String) (runner : Runner) : Prop where
  /-- The tree has completed, or the run was interrupted or cut short. -/
  finished : ∀ status, (session.exchange (.toRunner name .run)).1.1 = .status status → status ≠ .running →
    (session.exchange (.toRunner name .run)).2.context.bus.ears runner.actor.caller = []
  /-- A node has raised an error. -/
  failed : ∀ error, runner.raised? session.context = some error →
    (session.exchange (.toRunner name .run)).2.context.bus.ears runner.actor.caller = []
  /-- The run goes on without a frame that was on the stack, above an expired deadline for instance. -/
  expired : ∀ h ∈ stackHolds runner.actor.stack, ∀ runner',
    (session.exchange (.toRunner name .run)).2.runners.at? name = some runner' →
      h.listener ∉ (stackHolds runner'.actor.stack).map Hold.listener →
        ∀ l ∈ (session.exchange (.toRunner name .run)).2.context.bus.ears runner.actor.caller,
          l.id ≠ h.listener
  interrupted :
    (session.exchange (.toRunner name .interrupt)).2.context.bus.ears runner.actor.caller = []
  /-- Not even listeners of hosts are left. -/
  cleared : ∀ event target,
    ∀ l ∈ (session.exchange (.toRunner name .clear)).2.context.bus.listeners event target,
      l.caller ≠ runner.actor.caller
  dropped : ∀ event target, ∀ l ∈ (session.exchange (.drop name)).2.context.bus.listeners event target,
    l.caller ≠ runner.actor.caller

variable (source : SourceInput) {name : String} {runner : Runner}

/-- In every state of a session the listeners of a runner are those of its frames. -/
theorem listening_after {commands : List Command} (spares : ∀ command ∈ commands, command.spares name)
    (there : ((new Registry.builtin source).after commands).runners.at? name = some runner) :
    runner.Listening ((new Registry.builtin source).journal name commands)
      ((new Registry.builtin source).after commands).context := by
  have tidy := (tidy_new Registry.builtin source).after (ready_new source) commands
  have ready := (ready_new source).after commands
  have guarded := (guarded_new Registry.builtin source (· = name) fun _ => []).after
    (tidy_new Registry.builtin source) (ready_new source) commands fun other same => same ▸ spares
  have held := guarded.held name runner there
  rw [List.nil_append] at held
  refine held.listening (ready.runners name runner there) guarded.wired tidy.context.indexed ?_
  refine (guarded.spares name rfl).attended _ ?_
  rw [caller?, there]
  rfl

/-- As long as the hosts do not end the listening of a runner themselves, the listeners of its caller
that they have not registered belong one to one to the listening nodes on its stack, and none is
left behind when these are given up. -/
theorem listeners_match_frames (commands : List Command) (spares : ∀ command ∈ commands, command.spares name)
    (there : ((new Registry.builtin source).after commands).runners.at? name = some runner) :
    runner.Listening ((new Registry.builtin source).journal name commands)
        ((new Registry.builtin source).after commands).context ∧
      ((new Registry.builtin source).after commands).Releases name runner := by
  have tidy := (tidy_new Registry.builtin source).after (ready_new source) commands
  have ready := (ready_new source).after commands
  refine ⟨listening_after source spares there, ?_⟩
  -- Whatever the runner is told next, its listeners match its frames again.
  have next (command : RunnerCommand) (keeps : command.spares name true) (runner' : Runner)
      (there' : (((new Registry.builtin source).after commands).exchange
        (.toRunner name command)).2.runners.at? name = some runner') :
      ∃ log, runner'.Listening log (((new Registry.builtin source).after commands).exchange
        (.toRunner name command)).2.context := by
    have later : (new Registry.builtin source).after (commands ++ [.toRunner name command]) =
        (((new Registry.builtin source).after commands).exchange (.toRunner name command)).2 :=
      after_append _ _ _
    rw [← later] at there' ⊢
    refine ⟨_, listening_after source (fun other member => ?_) there'⟩
    rcases List.mem_append.mp member with before | last
    · exact spares other before
    · rw [List.mem_singleton.mp last, Command.spares, decide_eq_true rfl]
      exact keeps
  generalize (new Registry.builtin source).after commands = session at *
  have good := ready.runners name runner there
  have ran := session.exchange_run_eq there
  have same : (runner.run session.context).2.1.actor.caller = runner.actor.caller :=
    congrArg Prod.fst (good.tame_run (tidy.given there)).2
  have finished (ended : (runner.run session.context).1 ≠ .running) :
      (session.exchange (.toRunner name .run)).2.context.bus.ears runner.actor.caller = [] := by
    obtain ⟨log, listening⟩ := next .run rfl (runner.run session.context).2.1 (by
      rw [ran, setRunner_runners, Index.at?_put, if_pos rfl])
    exact same ▸ listening.ears_eq_nil (Runner.stack_run ended)
  constructor
  case finished =>
    intro status answered ended
    rw [ran] at answered
    cases answered
    exact finished ended
  case failed => exact fun error raised => finished (Runner.run_of_raised (by rw [raised]; rfl))
  case expired =>
    intro h member runner' there' gone l ear named
    obtain ⟨log, listening⟩ := next .run rfl runner' there'
    rw [ran, setRunner_runners, Index.at?_put, if_pos rfl] at there'
    cases there'
    rw [← same] at ear
    exact gone (listening.paired.subset (List.mem_map.mpr ⟨l, ear, named⟩))
  case interrupted =>
    have interrupted : (session.exchange (.toRunner name .interrupt)).2 =
        session.setRunner name (runner.interrupt session.context).1
          { (runner.interrupt session.context).2 with notes := [] } := by
      rw [exchange, perform, there]
      rfl
    obtain ⟨log, listening⟩ := next .interrupt rfl (runner.interrupt session.context).1 (by
      rw [interrupted, setRunner_runners, Index.at?_put, if_pos rfl])
    have same : (runner.interrupt session.context).1.actor.caller = runner.actor.caller :=
      congrArg Prod.fst (runner.entry_interrupt session.context)
    exact same ▸ listening.ears_eq_nil good.stack_interrupt
  case cleared =>
    intro event target l present
    rw [exchange, perform, there] at present
    exact Runner.not_mem_listeners_clear tidy.context present
  case dropped =>
    intro event target l present
    rw [exchange, perform, dropRunner, there] at present
    exact Runner.not_mem_listeners_discard (tidy.context.forget name) present

theorem listeners_match_frames_watcher :
    let session := (new Registry.builtin (.trees watchSource)).after watching
    (∀ command ∈ watching, command.spares "guard") ∧ session.runners.at? "guard" = some watcher ∧
      watcher.Listening ((new Registry.builtin (.trees watchSource)).journal "guard" watching)
        session.context ∧ session.Releases "guard" watcher :=
  ⟨by decide, at?_watching, listeners_match_frames (.trees watchSource) watching (by decide) at?_watching⟩

end Session
end BehaviorTree
