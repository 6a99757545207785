import BehaviorTree.Proofs.Descent.Listening
import BehaviorTree.Proofs.Event.Sent
import BehaviorTree.Proofs.Lifecycle.Requests
import BehaviorTree.Proofs.Session.Listeners

/-!
What becomes of the events that are dispatched to a listening node, whenever that happens. The chronicle of
a runner tells all ticks of its nodes and all orders that hosts carry out, between its runs or as followers
within them. From the tick by which a listening node is entered, what it handles is a beginning of what is
dispatched to it, and what it has not handled waits as long as it runs. A run leaves no events waiting unless
the child of the node is running.
-/

namespace BehaviorTree

open Context (Given Passage Posted Receives Spared)
open Descent

/-! ### Openings -/

namespace Descent

/-- The place that a listening node opens its listener for. -/
def Call.place (call : Call) : String × Target := (call.node.event, call.node.audience call.scene.actor)

namespace Serving

variable {offered : Nat → List (List Value)} {log : List Call} {ctx : Context}

/-- The run is over; the nodes are due to look for events in the next one. -/
theorem rouse {holds : List Hold} (serving : Serving offered ↑holds log ctx) :
    Serving offered ↑(holds.map Hold.rouse) log ctx := by
  have roused {h : Hold} (member : h ∈ (↑(holds.map Hold.rouse) : Multiset Hold)) :
      ∃ before ∈ (↑holds : Multiset Hold), before.rouse = h := List.mem_map.mp (Multiset.mem_coe.mp member)
  refine ⟨fun h member => ?_, serving.ahead, serving.known, fun h member rests => ?_, fun h member isOnce free => ?_,
    fun h member => ?_, serving.tended⟩
  · obtain ⟨before, there, rfl⟩ := roused member
    exact serving.whole before there
  · obtain ⟨before, there, rfl⟩ := roused member
    rw [Hold.rouse] at rests
    simp only at rests
    split at rests
    · cases rests
    · rename_i other
      exact absurd rests other
  · obtain ⟨before, there, rfl⟩ := roused member
    refine serving.spare before there isOnce fun busy => free ?_
    rw [Hold.rouse, busy]
    rfl
  · obtain ⟨before, there, rfl⟩ := roused member
    exact serving.tends before there

/-- Where no child runs, no event waits. -/
theorem settled {node : Node} {state : Active} (serving : Serving offered ↑(state.holds .idle node) log ctx) :
    ∀ h ∈ (state.holds .idle node).map Hold.rouse, h.stance = .busy ∨ ctx.queue h.listener = [] := by
  intro h member
  obtain ⟨before, there, rfl⟩ := List.mem_map.mp member
  rcases stance_holds .idle node state before there with idle | busy
  · exact .inr (serving.idle before (Multiset.mem_coe.mpr there) idle)
  · exact .inl (by rw [Hold.rouse, busy]; rfl)

end Serving
end Descent

/-! ### Chronicles -/

/-- What happens to a runner. -/
inductive Occurrence where
  | ticked (call : Call)
  | obeyed (charge : Charge)

namespace Occurrence

/-- The tick of a node, if it is one. -/
def call? : Occurrence → Option Call
  | .ticked call => some call
  | .obeyed _ => none

/-- What is dispatched to a place; events that hosts dispatch in answer to others are counted when the turn
comes to the listener. -/
def sent (place : String × Target) (listener : Nat) : Occurrence → List (List Value)
  | .ticked _ => []
  | .obeyed charge => charge.1.sentObeying place listener charge.2

end Occurrence

/-- The ticks among what has come about. -/
def ticks (past : List Occurrence) : List Call := past.filterMap Occurrence.call?

/-- The arguments of all events that are dispatched to a place, in order. -/
def sentTo (place : String × Target) (listener : Nat) (past : List Occurrence) : List (List Value) :=
  past.flatMap (Occurrence.sent place listener)

open Classical in
/-- What has been dispatched to the place of a listener since the tick by which it was opened. -/
noncomputable def sentSince : List Occurrence → Nat → List (List Value)
  | [], _ => []
  | .obeyed _ :: rest, listener => sentSince rest listener
  | .ticked call :: rest, listener =>
    if call.Opens ∧ call.listener = listener then sentTo call.place listener rest else sentSince rest listener

/-- Nothing that the host does ends the listening of an actor, save that it may clear the runner. -/
def Doing.spares (name : String) : Doing → Bool
  | .obey orders => sparesAll name orders
  | .follow _ reaction => reaction.spares name
  | _ => true

namespace Runner

/-- What comes about by what a host does. -/
def occurrences (runner : Runner) (ctx : Context) : Doing → List Occurrence
  | .run =>
    (runner.chargesBefore ctx).map .obeyed ++ (runner.calls ctx).map .ticked ++ (runner.chargesAfter ctx).map .obeyed
  | .interrupt | .clear => (runner.chargesInterrupting ctx).map .obeyed
  | .obey orders => [.obeyed (ctx, orders)]
  | .request | .write _ | .follow _ _ => []

/-- All that comes about by what a host does, one thing after another. -/
def chronicle (runner : Runner) (ctx : Context) : List Doing → List Occurrence
  | [] => []
  | doing :: rest =>
    let (_, next, ctx') := runner.act ctx doing
    runner.occurrences ctx doing ++ next.chronicle ctx' rest

end Runner

variable {caller : Nat} {place : String × Target} {listener : Nat} {past more : List Occurrence} {log : List Call}
  {charges : List Charge} {offered grown : Nat → List (List Value)} {name : String} {ctx newer : Context}
  {runner : Runner} {cache : ExprCache}

theorem ticks_append : ticks (past ++ more) = ticks past ++ ticks more := List.filterMap_append

theorem ticks_ticked : ticks (log.map .ticked) = log := by
  rw [ticks, List.filterMap_map]
  exact List.filterMap_some

theorem ticks_obeyed : ticks (charges.map .obeyed) = [] := by
  rw [ticks, List.filterMap_map]
  exact List.filterMap_eq_nil_iff.mpr fun _ _ => rfl

theorem sentTo_append : sentTo place listener (past ++ more) = sentTo place listener past ++ sentTo place listener more :=
  List.flatMap_append

theorem sentTo_ticked : sentTo place listener (log.map .ticked) = [] := by
  rw [sentTo, List.flatMap_eq_nil_iff]
  intro occurrence member
  obtain ⟨call, -, rfl⟩ := List.mem_map.mp member
  rfl

/-! ### What is dispatched since an opening -/

theorem mem_ticks_of_split {before after : List Occurrence} {opening : Call}
    (split : past = before ++ .ticked opening :: after) : opening ∈ ticks past := by
  rw [split]
  exact List.mem_filterMap.mpr ⟨_, List.mem_append_right _ List.mem_cons_self, rfl⟩

/-- Nothing counts for a listener that has not been opened. -/
theorem sentSince_eq_nil (none : ∀ call ∈ ticks past, call.Opens → call.listener ≠ listener) :
    sentSince past listener = [] := by
  induction past with
  | nil => rfl
  | cons occurrence rest ih =>
    cases occurrence with
    | obeyed charge => exact ih none
    | ticked call =>
      obtain ⟨other, later⟩ := List.forall_mem_cons.mp none
      rw [sentSince, if_neg fun opening => other opening.1 opening.2]
      exact ih later

/-- Nothing counts for a listener that is yet to be opened. -/
theorem sentSince_of_lt {hi : Nat} (rising : Rising 0 (ticks past) hi) (fresh : hi < listener) :
    sentSince past listener = [] := by
  refine sentSince_eq_nil fun call member opens same => ?_
  obtain ⟨-, -, le⟩ := rising.scene_le call member
  exact absurd (same ▸ le opens) (Nat.not_le.mpr fresh)

/-- From its opening on, all that is dispatched to the place of a listener counts. -/
theorem sentSince_eq {hi : Nat} (rising : Rising 0 (ticks past) hi) {before after : List Occurrence} {opening : Call}
    (split : past = before ++ .ticked opening :: after) (opens : opening.Opens) :
    sentSince past opening.listener = sentTo opening.place opening.listener after := by
  induction before generalizing past with
  | nil =>
    rw [split, List.nil_append, sentSince, if_pos ⟨opens, rfl⟩]
  | cons occurrence rest ih =>
    subst split
    cases occurrence with
    | obeyed charge =>
      rw [List.cons_append, sentSince]
      exact ih rising rfl
    | ticked call =>
      have later := ih (by cases rising with | cons le later _ => exact later.down (Nat.zero_le _)) rfl
      rw [List.cons_append, sentSince, if_neg ?_, later]
      rintro ⟨opens', same⟩
      -- Listeners that are opened later have higher numbers.
      cases rising with
      | cons _ _ opened =>
        obtain ⟨le, -, -⟩ := (opened opens').scene_le opening (mem_ticks_of_split rfl)
        exact absurd (Nat.lt_succ_of_le (same ▸ le)) (Nat.lt_irrefl _)

/-- Ticks dispatch nothing. -/
theorem sentSince_ticked (past : List Occurrence) (log : List Call) :
    sentSince (past ++ log.map .ticked) = sentSince past := by
  funext listener
  induction past with
  | nil =>
    rw [List.nil_append, sentSince]
    induction log with
    | nil => rfl
    | cons call rest ih => rw [List.map_cons, sentSince, sentTo_ticked, ih, ite_self]
  | cons occurrence rest ih =>
    cases occurrence with
    | obeyed charge => exact ih
    | ticked call => rw [List.cons_append, sentSince, sentSince, sentTo_append, sentTo_ticked, List.append_nil, ih]

/-- What has been dispatched stays so. -/
theorem sentSince_prefix (listener : Nat) (past more : List Occurrence) :
    sentSince past listener <+: sentSince (past ++ more) listener := by
  induction past with
  | nil => exact List.nil_prefix
  | cons occurrence rest ih =>
    cases occurrence with
    | obeyed charge => exact ih
    | ticked call =>
      rw [List.cons_append, sentSince, sentSince]
      split
      · rw [sentTo_append]
        exact List.prefix_append _ _
      · exact ih

/-- What is dispatched later is added for those who have been listening. -/
theorem sentSince_append {hi : Nat} (rising : Rising 0 (ticks past) hi) (calm : ticks more = []) {opening : Call}
    (there : opening ∈ ticks past) (opens : opening.Opens) :
    sentSince (past ++ more) opening.listener =
      sentSince past opening.listener ++ sentTo opening.place opening.listener more := by
  have rising' : Rising 0 (ticks (past ++ more)) hi := by rwa [ticks_append, calm, List.append_nil]
  obtain ⟨occurrence, member, same⟩ := List.mem_filterMap.mp there
  obtain ⟨before, after, rfl⟩ := List.append_of_mem member
  cases occurrence with
  | obeyed charge => cases same
  | ticked call =>
    cases same
    rw [sentSince_eq rising rfl opens, ← sentTo_append]
    exact sentSince_eq rising' (List.append_assoc before _ more) opens

/-! ### Orders -/

namespace Descent.Serving

variable {H : Multiset Hold}

/-- More may have been offered to those who do not listen any more. -/
theorem grow (serving : Serving offered 0 log ctx) (grows : ∀ listener, offered listener <+: grown listener) :
    Serving grown 0 log ctx where
  whole _ member := absurd member (Multiset.notMem_zero _)
  ahead listener := (serving.ahead listener).trans (grows listener)
  known := serving.known
  idle := serving.idle
  spare := serving.spare
  tends := serving.tends
  tended := serving.tended

/-- Whatever orders offer waits in the mailboxes. -/
theorem obey (serving : Serving offered H log ctx) {orders : List Order}
    (grows : ∀ listener, offered listener <+: grown listener)
    (boxed : ∀ h ∈ H, ∃ box ∈ ctx.boxes caller, box.listener = h.listener ∧
      grown h.listener = offered h.listener ++ ctx.sentObeying (box.event, box.target) h.listener orders)
    (awake : ∀ h ∈ H, h.stance ≠ .idle) (spared : Spared name (some caller) ctx)
    (spares : ∀ order ∈ orders, order.spares name) : Serving grown H log (ctx.obey orders) where
  whole h member := by
    obtain ⟨box, there, named, more⟩ := boxed h member
    have posted : Posted name caller (box.event, box.target) h.listener ctx := ⟨spared, box, there, named, rfl⟩
    rw [(Receives.obey spares posted).queue, ← List.append_assoc, serving.whole h member, more]
  ahead listener := (serving.ahead listener).trans (grows listener)
  known call member listener enters :=
    Nat.le_trans (serving.known call member listener enters) (Context.stirs_obey ctx orders).issued
  idle h member rests := absurd rests (awake h member)
  spare := serving.spare
  tends := serving.tends
  tended := serving.tended

end Descent.Serving

/-! ### Runners -/

namespace Runner

/-- What holds of a runner and of its listening nodes after what has come about. -/
structure Hearing (name : String) (cache : ExprCache) (past : List Occurrence) (runner : Runner) (ctx : Context) :
    Prop where
  ready : runner.Ready cache
  held : runner.Held (ticks past) ctx
  given : Given ctx.callers runner.actor.caller runner.actor.target
  followers : ∀ follower ∈ runner.followers, follower.2.spares name
  spared : Spared name (some runner.actor.caller) ctx
  rising : Rising 0 (ticks past) ctx.bus.issued
  sound : ∀ call ∈ ticks past, ∀ state ∈ call.state, Sound [] call.node state
  closed : ∀ call ∈ ticks past, ∀ made ∈ call.made, made ∈ ticks past
  serving : Serving (sentSince past) ↑(stackHolds runner.actor.stack) (ticks past) ctx

theorem Ready.passage_conclude (ready : runner.Ready cache) (wired : ctx.Wired) (held : runner.Held log ctx) :
    Passage runner.actor.caller (runner.tickNodes ctx).2.context
      (runner.conclude (runner.tickNodes ctx).1 (runner.tickNodes ctx).2).2.2 := by
  obtain ⟨H, more, kept⟩ := ready.scene_ticks wired held
  exact (steady_passage _ runner.actor.caller runner.followers).conclude _ kept.acting (.refl kept.wired)

theorem issued_opening (wired : ctx.Wired) : ctx.bus.issued ≤ (runner.opening ctx).issued :=
  ((steady_passage ctx runner.actor.caller runner.followers).opening (.refl wired)).issued

/-- The listeners that a run opens are numbered as they come. -/
theorem Ready.rising_ticks (ready : runner.Ready cache) (ctx : Context) :
    Rising (runner.opening ctx).issued (runner.rootCall ctx :: (runner.rootCall ctx).within)
      (runner.tickNodes ctx).2.issued := by
  have builtin := ready.shaped.mono fun _ shaped => shaped.builtin
  have last (hi : Nat) : Rising hi [] hi := .nil (Nat.le_refl hi)
  have ticked := (climbs runner.tree.root builtin).call 0 (restore runner.actor.stack) [] .nothing
    (runner.opening ctx) (runner.opening ctx) (last _)
  rw [List.append_nil] at ticked
  rw [ready.tickNodes_eq]
  exact ticked

/-- The same for a run with all that its followers are told. -/
theorem Ready.rising_run (ready : runner.Ready cache) (wired : ctx.Wired) (held : runner.Held log ctx) :
    Rising ctx.bus.issued (runner.calls ctx) (runner.run ctx).2.2.bus.issued := by
  have dropped : (ctx.dropRequest runner.actor.caller).Wired := wired.congr rfl rfl
  have held : runner.Held log (ctx.dropRequest runner.actor.caller) := held.mono (List.Subset.refl _) rfl
  rw [run_eq, Runner.calls]
  split
  · exact .nil ((steady_passage _ runner.actor.caller runner.followers).abort (.refl dropped)).issued
  · exact ((ready.rising_ticks _).down (issued_opening dropped)).up (ready.passage_conclude dropped held).issued

/-- Followers are only told that a run begins if no node listens. -/
theorem serving_opening (wired : ctx.Wired) (serving : Serving offered ↑(stackHolds runner.actor.stack) log ctx) :
    Serving offered ↑(stackHolds runner.actor.stack) log (runner.opening ctx).context := by
  refine serving.congr (fun h member => ?_) (issued_opening wired)
  rw [Runner.opening]
  split
  · rename_i empty
    rw [List.isEmpty_iff.mp empty] at member
    cases member
  · rfl

/-- Once a run is over, what has not been handled waits in mailboxes, for nodes whose child is running. -/
theorem Ready.serving_run (ready : runner.Ready cache) (wired : ctx.Wired) (held : runner.Held log ctx)
    (serving : Serving offered ↑(stackHolds runner.actor.stack) log ctx)
    (later : ∀ listener, ctx.bus.issued < listener → offered listener = []) :
    Serving offered ↑(stackHolds (runner.run ctx).2.1.actor.stack) (log ++ runner.calls ctx) (runner.run ctx).2.2 ∧
      ∀ h ∈ stackHolds (runner.run ctx).2.1.actor.stack,
        h.stance = .busy ∨ (runner.run ctx).2.2.queue h.listener = [] := by
  have dropped : (ctx.dropRequest runner.actor.caller).Wired := wired.congr rfl rfl
  have held : runner.Held log (ctx.dropRequest runner.actor.caller) := held.mono (List.Subset.refl _) rfl
  have serving : Serving offered ↑(stackHolds runner.actor.stack) log (ctx.dropRequest runner.actor.caller) :=
    serving.congr (fun _ _ => rfl) (Nat.le_refl _)
  have later : ∀ listener, (ctx.dropRequest runner.actor.caller).bus.issued < listener → offered listener = [] := later
  rw [run_eq, Runner.calls]
  split
  · rw [List.append_nil]
    have aborted := (steady_passage _ runner.actor.caller runner.followers).abort (.refl dropped)
    refine ⟨serving.closed aborted.issued, ?_⟩
    rintro h ⟨⟩
  · generalize ctx.dropRequest runner.actor.caller = ctx at dropped held serving later
    have kept := ready.invariant_ticks (invariant_serving fun listener fresh =>
        later listener (Nat.lt_of_le_of_lt (issued_opening dropped) fresh))
      ⟨held.keeps dropped, serving_opening dropped serving⟩
    have sound := ready.gives_ticks ctx
    have ended := ready.passage_conclude dropped held
    rw [ready.tickNodes_eq] at ended ⊢
    unfold TickM.Gives at sound
    generalize (tick runner.tree.root (restore runner.actor.stack) []).play (runner.opening ctx) = ticked
      at kept sound ended ⊢
    obtain ⟨fault | (verdict | state), scene⟩ := ticked
    · obtain ⟨left, -, serving⟩ := kept
      refine ⟨serving.closed ended.issued, ?_⟩
      rintro h ⟨⟩
    · refine ⟨kept.2.closed ended.issued, ?_⟩
      rintro h ⟨⟩
    · have laid : stackHolds (frames runner.tree.root state) = (state.holds .idle runner.tree.root).map Hold.rouse := by
        rw [stackHolds_frames (sound _ _ rfl).1, holds_due]
      have waits : Serving offered ↑(state.holds .idle runner.tree.root) _ scene.context := kept.2
      have rests := waits.settled
      rw [← laid] at rests
      have left := waits.rouse
      rw [← laid] at left
      exact ⟨left, rests⟩

/-- Every node is ticked in a sound state. -/
theorem Ready.sound_run (ready : runner.Ready cache) (ctx : Context) :
    ∀ call ∈ runner.calls ctx, ∀ state ∈ call.state, Sound [] call.node state := by
  intro call member
  rw [Runner.calls] at member
  split at member
  · cases member
  · have sound : ∀ state ∈ restore runner.actor.stack, Sound [] runner.tree.root state :=
      fun state active => (ready.sound state active).mono (by rintro id - ⟨⟩)
    rcases List.mem_cons.mp member with rfl | within
    · exact sound
    · exact sound_calls runner.tree.root sound call within

/-- What a call of a run makes is a call of the run. -/
theorem made_mem_calls (runner : Runner) (ctx : Context) :
    ∀ call ∈ runner.calls ctx, ∀ made ∈ call.made, made ∈ runner.calls ctx := by
  intro call member made makes
  rw [Runner.calls] at member ⊢
  split at member
  · cases member
  · rename_i going
    rw [if_neg going]
    rcases List.mem_cons.mp member with rfl | within
    · exact List.mem_cons_of_mem _ (Call.made_subset_within _ makes)
    · exact List.mem_cons_of_mem _ (Descent.made_mem_calls _ call within made makes)

/-- What is on a stack between two runs does not rest idle. -/
theorem Ready.awake (ready : runner.Ready cache) : ∀ h ∈ stackHolds runner.actor.stack, h.stance ≠ .idle := by
  intro h member
  rcases ready.restores with ⟨-, empty⟩ | ⟨state, -, sound, laid⟩
  · rw [empty] at member
    cases member
  · rw [laid, stackHolds_frames sound] at member
    rcases stance_holds .due _ _ h member with due | busy
    · rw [due]
      decide
    · rw [busy]
      decide

/-- What is held on the stack has been opened in the chronicle, and its mailbox is at the place that it has been
opened for. -/
theorem Held.exists_opening (held : runner.Held log ctx) {h : Hold} (holds : h ∈ stackHolds runner.actor.stack) :
    ∃ opening ∈ log, opening.Opens ∧ opening.node = h.node ∧ opening.listener = h.listener ∧
      ∃ box ∈ ctx.boxes runner.actor.caller, box.listener = h.listener ∧ (box.event, box.target) = opening.place := by
  obtain ⟨call, there, fresh, node, listens, given, box, member, named, event, target⟩ := held.opened h holds
  refine ⟨call, there, ⟨fresh, node ▸ listens⟩, node, given.symm, box, member, named, ?_⟩
  rw [event, target, ← node]
  rfl

namespace Hearing

/-- Nothing but the mailboxes and what the runner runs matters. -/
theorem still (hearing : Hearing name cache past runner ctx) {later : Runner} (ready : later.Ready cache)
    (entry : later.actor.entry = runner.actor.entry) (stack : later.actor.stack = runner.actor.stack)
    (followers : ∀ follower ∈ later.followers, follower.2.spares name) (bus : newer.bus = ctx.bus)
    (mailboxes : newer.mailboxes = ctx.mailboxes) (directory : newer.directory = ctx.directory)
    (callers : newer.callers = ctx.callers) : Hearing name cache past later newer := by
  have caller : later.actor.caller = runner.actor.caller := congrArg Prod.fst entry
  have target : later.actor.target = runner.actor.target := congrArg Prod.snd entry
  have boxes (caller : Nat) : newer.boxes caller = ctx.boxes caller := by rw [Context.boxes, mailboxes]; rfl
  have held : runner.Held (ticks past) newer := hearing.held.mono (List.Subset.refl _) (by rw [boxes])
  refine ⟨ready, ⟨?_, ?_⟩, ?_, followers, ?_, ?_, hearing.sound, hearing.closed, ?_⟩
  · rw [caller, stack]
    exact held.owned
  · rw [caller, stack]
    exact held.opened
  · rw [caller, target, callers]
    exact hearing.given
  · rw [caller]
    exact hearing.spared.congr bus mailboxes directory
  · rw [bus]
    exact hearing.rising
  · rw [stack]
    exact hearing.serving.congr (fun h _ => Context.queue_congr mailboxes h.listener) (Nat.le_of_eq (by rw [bus]))

/-- Nothing runs any more, whatever the followers dispatch in the end. -/
theorem ended (hearing : Hearing name cache past runner ctx) {later : Runner} (calm : ticks more = [])
    (ready : later.Ready cache) (entry : later.actor.entry = runner.actor.entry) (stack : later.actor.stack = [])
    (followers : later.followers = runner.followers) (held : later.Held (ticks past) newer)
    (spared : Spared name (some runner.actor.caller) newer) (issued : ctx.bus.issued ≤ newer.bus.issued)
    (callers : newer.callers = ctx.callers) : Hearing name cache (past ++ more) later newer := by
  have caller : later.actor.caller = runner.actor.caller := congrArg Prod.fst entry
  have target : later.actor.target = runner.actor.target := congrArg Prod.snd entry
  have logged : ticks (past ++ more) = ticks past := by rw [ticks_append, calm, List.append_nil]
  constructor <;> try rw [logged]
  case ready => exact ready
  case held => exact held
  case given =>
    rw [caller, target, callers]
    exact hearing.given
  case followers =>
    rw [followers]
    exact hearing.followers
  case spared =>
    rw [caller]
    exact spared
  case rising => exact hearing.rising.up issued
  case sound => exact hearing.sound
  case closed => exact hearing.closed
  case serving =>
    rw [stack]
    exact (hearing.serving.closed issued).grow fun _ => sentSince_prefix ..

/-- What the host does on its own is heard and changes nothing else. -/
theorem obey (hearing : Hearing name cache past runner ctx) {orders : List Order}
    (spares : ∀ order ∈ orders, order.spares name) :
    Hearing name cache (past ++ [.obeyed (ctx, orders)]) runner (ctx.obey orders) := by
  have stirs := Context.stirs_obey ctx orders
  have calm : ticks [.obeyed (ctx, orders)] = [] := rfl
  have logged : ticks (past ++ [.obeyed (ctx, orders)]) = ticks past := by rw [ticks_append, calm, List.append_nil]
  constructor <;> try rw [logged]
  case ready => exact hearing.ready
  case held =>
    exact hearing.held.mono (List.Subset.refl _)
      (Context.map_boxes_of_posts Mailbox.emptied (fun _ => rfl) stirs.posts _)
  case given =>
    rw [stirs.tame.callers]
    exact hearing.given
  case followers => exact hearing.followers
  case spared => exact (Context.withstands_spared name (some runner.actor.caller)).obey spares hearing.spared
  case rising => exact hearing.rising.up stirs.issued
  case sound => exact hearing.sound
  case closed => exact hearing.closed
  case serving =>
    refine hearing.serving.obey (fun _ => sentSince_prefix ..) (fun h member => ?_) hearing.ready.awake hearing.spared
      spares
    obtain ⟨opening, there, opens, -, same, box, inside, named, here⟩ :=
      hearing.held.exists_opening (Multiset.mem_coe.mp member)
    refine ⟨box, inside, named, ?_⟩
    rw [here, ← same, sentSince_append hearing.rising calm there opens, sentTo, List.flatMap_singleton]
    rfl

/-- A run handles what waits, unless the child of the node is running. What its followers dispatch reaches
nobody: they are told when nothing is on the stack yet, or when what is there is given up. -/
theorem serving_run (hearing : Hearing name cache past runner ctx) :
    Serving (sentSince (past ++ runner.occurrences ctx .run)) ↑(stackHolds (runner.run ctx).2.1.actor.stack)
        (ticks past ++ runner.calls ctx) (runner.run ctx).2.2 ∧
      ∀ h ∈ stackHolds (runner.run ctx).2.1.actor.stack,
        h.stance = .busy ∨ (runner.run ctx).2.2.queue h.listener = [] := by
  set begun := past ++ (runner.chargesBefore ctx).map Occurrence.obeyed with opening
  have rising : Rising 0 (ticks begun) ctx.bus.issued := by
    rw [opening, ticks_append, ticks_obeyed, List.append_nil]
    exact hearing.rising
  have serving : Serving (sentSince begun) ↑(stackHolds runner.actor.stack) (ticks past) ctx := by
    have before := hearing.serving
    -- Only an empty stack has followers told of the beginning, and there nobody listens yet.
    rcases eq_or_ne runner.actor.stack [] with empty | suspended
    · rw [empty] at before ⊢
      exact before.grow fun _ => sentSince_prefix ..
    · rw [opening, chargesBefore_eq_nil suspended, List.map_nil, List.append_nil]
      exact before
  obtain ⟨served, rests⟩ := hearing.ready.serving_run hearing.spared.wired hearing.held serving
    fun _ fresh => sentSince_of_lt rising fresh
  refine ⟨?_, rests⟩
  rw [← sentSince_ticked begun (runner.calls ctx)] at served
  rw [Runner.occurrences, ← List.append_assoc, ← List.append_assoc, ← opening]
  -- Those who are told of the end are told when the stack has been given up.
  by_cases running : (runner.run ctx).1 = .running
  · rw [chargesAfter_eq_nil running, List.map_nil, List.append_nil]
    exact served
  · rw [stack_run running] at served ⊢
    exact served.grow fun _ => sentSince_prefix ..

/-- A run is heard as its calls and what its followers dispatch. -/
theorem run (hearing : Hearing name cache past runner ctx) :
    Hearing name cache (past ++ runner.occurrences ctx .run) (runner.run ctx).2.1 (runner.run ctx).2.2 := by
  have ready := hearing.ready
  have wired := hearing.spared.wired
  have logged : ticks (past ++ runner.occurrences ctx .run) = ticks past ++ runner.calls ctx := by
    simp only [Runner.occurrences, ticks_append, ticks_obeyed, ticks_ticked, List.nil_append, List.append_nil]
  obtain ⟨tame, entry⟩ := ready.tame_run hearing.given
  have caller : (runner.run ctx).2.1.actor.caller = runner.actor.caller := congrArg Prod.fst entry
  have target : (runner.run ctx).2.1.actor.target = runner.actor.target := congrArg Prod.snd entry
  constructor <;> try rw [logged]
  case ready => exact ready.perform ctx .run
  case held => exact ready.held_run wired hearing.held
  case given =>
    rw [caller, target, tame.callers]
    exact hearing.given
  case followers =>
    rw [followers_run]
    exact hearing.followers
  case spared =>
    rw [caller]
    exact ready.spared_run hearing.held hearing.given hearing.followers hearing.spared
  case rising => exact hearing.rising.append (ready.rising_run wired hearing.held)
  case sound => exact List.forall_mem_append.mpr ⟨hearing.sound, ready.sound_run ctx⟩
  case closed =>
    intro call member made makes
    rcases List.mem_append.mp member with before | new
    · exact List.mem_append_left _ (hearing.closed call before made makes)
    · exact List.mem_append_right _ (runner.made_mem_calls ctx call new made makes)
  case serving => exact (hearing.serving_run).1

/-- Everything that is done is heard. -/
theorem act (hearing : Hearing name cache past runner ctx) {doing : Doing} (spares : doing.spares name) :
    Hearing name cache (past ++ runner.occurrences ctx doing) (runner.act ctx doing).2.1
      (runner.act ctx doing).2.2 := by
  have ready := hearing.ready.perform ctx (doing.action runner.actor.caller)
  have wired := hearing.spared.wired
  cases doing with
  | run => exact hearing.run
  | obey orders => exact hearing.obey (sparesAll_eq_true.mp spares)
  | interrupt =>
    exact hearing.ended ticks_obeyed ready (runner.entry_interrupt ctx) hearing.ready.stack_interrupt
      (runner.followers_interrupt ctx) hearing.held.interrupt
      ((steady_spared runner.actor.caller hearing.followers (some runner.actor.caller)).interrupt hearing.spared)
      (passage_interrupt wired).issued (runner.tame_interrupt ctx).callers
  | clear =>
    exact hearing.ended ticks_obeyed ready (runner.entry_clear ctx) rfl (runner.followers_clear ctx) (held_clear runner ctx)
      (spared_clear hearing.followers hearing.spared) (passage_clear wired).issued (runner.tame_clear ctx).callers
  | request =>
    rw [show runner.occurrences ctx _ = [] from rfl, List.append_nil]
    have tame := ctx.tame_request fun _ => hearing.given.caller
    exact hearing.still ready rfl rfl hearing.followers (Context.bus_request ..) (Context.mailboxes_request ..)
      tame.directory tame.callers
  | write change =>
    rw [show runner.occurrences ctx _ = [] from rfl, List.append_nil]
    exact hearing.still ready rfl rfl hearing.followers rfl rfl rfl rfl
  | follow stage reaction =>
    rw [show runner.occurrences ctx _ = [] from rfl, List.append_nil]
    refine hearing.still ready rfl rfl (fun follower member => ?_) rfl rfl rfl rfl
    rcases List.mem_append.mp member with before | new
    · exact hearing.followers follower before
    · rw [List.mem_singleton.mp new]
      exact spares

theorem caller_act (hearing : Hearing name cache past runner ctx) (doing : Doing) :
    (runner.act ctx doing).2.1.actor.caller = runner.actor.caller := by
  cases doing with
  | run => exact congrArg Prod.fst (hearing.ready.tame_run hearing.given).2
  | interrupt => exact congrArg Prod.fst (runner.entry_interrupt ctx)
  | clear => exact congrArg Prod.fst (runner.entry_clear ctx)
  | request | obey | write | follow => rfl

/-- Whatever a host does that spares the actor, its listening nodes hear what is dispatched to them. -/
theorem actAll (hearing : Hearing name cache past runner ctx) {doings : List Doing}
    (spares : ∀ doing ∈ doings, doing.spares name) :
    Hearing name cache (past ++ runner.chronicle ctx doings) (runner.actAll ctx doings).2.1
        (runner.actAll ctx doings).2.2 ∧
      (runner.actAll ctx doings).2.1.actor.caller = runner.actor.caller := by
  induction doings generalizing past runner ctx with
  | nil =>
    rw [chronicle, List.append_nil]
    exact ⟨hearing, rfl⟩
  | cons doing rest ih =>
    obtain ⟨first, later⟩ := List.forall_mem_cons.mp spares
    obtain ⟨all, same⟩ := ih (hearing.act first) later
    rw [List.append_assoc] at all
    exact ⟨all, same.trans (hearing.caller_act doing)⟩

/-- A runner that has not done anything. -/
theorem new {tree : Tree} {caller : Nat} {target : Target} {debug : Bool}
    (ready : (Runner.new tree (.newWith caller target debug)).Ready cache) (given : Given ctx.callers caller target)
    (spared : Spared name (some caller) ctx) (none : ctx.boxes caller = []) :
    Hearing name cache [] (Runner.new tree (.newWith caller target debug)) ctx where
  ready := ready
  held := .of_nil rfl none
  given := given
  followers := by rintro follower ⟨⟩
  spared := spared
  rising := .nil (Nat.zero_le _)
  sound := by rintro call ⟨⟩
  closed := by rintro call ⟨⟩
  serving := by
    refine ⟨?_, fun _ => List.nil_prefix, ?_, ?_, ?_, ?_, ?_⟩
    · rintro h ⟨⟩
    · rintro call ⟨⟩
    · rintro h ⟨⟩
    · rintro h ⟨⟩
    · rintro h ⟨⟩
    · rintro call ⟨⟩

end Hearing

end Runner

/-! ### Events of listening nodes -/

namespace Descent

/-- What comes of the events that are dispatched to a listening node from its opening on. -/
structure Call.Handles (opening : Call) (sent : List (List Value)) (log : List Call) (runner : Runner) (ctx : Context) :
    Prop where
  /-- The first ones are handled, in order. -/
  ahead : served opening.listener log <+: sent
  /-- As long as the node runs, it has its mailbox, and the others wait there. -/
  whole : ∀ h ∈ stackHolds runner.actor.stack, h.listener = opening.listener → h.node = opening.node ∧
    (∃ box ∈ ctx.boxes runner.actor.caller, box.listener = opening.listener ∧
      (box.event, box.target) = opening.place) ∧
      served opening.listener log ++ ctx.queue opening.listener = sent
  /-- The child of the node is entered when the arguments have been written. -/
  entries : ∀ entry ∈ log, entry.Enters opening.listener → opening.node.children = [entry.node] ∧
    ∃ args, entry.event? opening.listener = some args ∧ entry.Writes opening.node args
  once : opening.node.isOnce → (served opening.listener log).length ≤ 1

/-- A listening node turns to its child for the events of one listener. -/
structure Call.Attends (call : Call) (listener : Nat) (log : List Call) : Prop where
  heard : call.heard? = some listener
  /-- The listener has been opened when the node was entered. -/
  opened : ∀ made ∈ call.made, made.state = none →
    made.Enters listener ∧ ∃ opening ∈ log, opening.Opens ∧ opening.listener = listener
  /-- A node that listens once completes as its child does. -/
  completes : call.node.isOnce → ∀ made ∈ call.made, ∀ verdict,
    made.result = .ok (.done verdict) → call.result = .ok (.done verdict)

end Descent

namespace Runner.Hearing

/-- A listening node handles what has been sent since its opening. -/
theorem handles (hearing : Hearing name cache past runner ctx) {before after : List Occurrence} {opening : Call}
    (split : past = before ++ .ticked opening :: after) (opens : opening.Opens) :
    opening.Handles (sentTo opening.place opening.listener after) (ticks past) runner ctx := by
  have there := mem_ticks_of_split split
  have tends : Tends opening.node opening.listener (ticks past) := by
    by_cases entered : ∃ entry ∈ ticks past, entry.Enters opening.listener
    · obtain ⟨entry, member, enters⟩ := entered
      obtain ⟨first, there', opens', same, tends⟩ := hearing.serving.tended entry member _ enters
      rwa [hearing.rising.unique there opens there' opens' same] at tends
    · exact .of_none fun entry member enters => entered ⟨entry, member, enters⟩
  rw [← sentSince_eq hearing.rising split opens]
  refine ⟨hearing.serving.ahead _, fun h member same => ?_, fun entry member enters => ?_, tends.once⟩
  · obtain ⟨first, there', opens', node, same', boxed⟩ := hearing.held.exists_opening member
    obtain rfl := hearing.rising.unique there opens there' opens' (same'.trans same)
    rw [← same]
    exact ⟨node.symm, boxed, hearing.serving.whole h member⟩
  · have serves := tends.serves entry member enters
    exact ⟨serves.child, serves.writes enters⟩

/-- Every call of a listening node attends to one listener. -/
theorem attends (hearing : Hearing name cache past runner ctx) {call : Call} (member : call ∈ ticks past)
    (listens : Listens call.node) : ∃ listener, call.Attends listener (ticks past) := by
  have sound := hearing.sound call member
  obtain ⟨listener, heard, makes⟩ := heard_of_listens listens sound
  refine ⟨listener, heard, fun made there fresh => ?_, fun isOnce made there verdict ended => ?_⟩
  · have enters : made.Enters listener := ⟨fresh, makes made there⟩
    obtain ⟨opening, inside, opens, same, -⟩ := hearing.serving.tended made (hearing.closed call member made there) _ enters
    exact ⟨enters, opening, inside, opens, same⟩
  · exact result_of_once listens isOnce sound there ended

end Runner.Hearing

namespace Runner

/-- Whatever a host does with a runner of a loaded tree, and whenever it, a follower or what it has ordered
dispatches events: a listening node handles the first events that are dispatched to it from its opening on, one
by one and in order, and the others wait as long as it runs. Every listening node on the stack has been opened
so, and a run leaves none of its events waiting unless the child of the node is running. -/
theorem events_handled_in_order (source : Source) (cache : ExprCache) (label : String) (strict : Bool) (tree : Tree)
    (loaded : (source.load Registry.builtin cache label strict).1 = .ok tree) (caller : Nat) (target : Target)
    (debug : Bool) (ctx : Context) (name : String) (spared : Spared name (some caller) ctx)
    (given : Given ctx.callers caller target) (none : ctx.boxes caller = []) (doings : List Doing)
    (spares : ∀ doing ∈ doings, doing.spares name) :
    let start := Runner.new tree (.newWith caller target debug)
    let past := start.chronicle ctx doings
    let last := (start.actAll ctx doings).2
    let next := (last.1.run last.2).2
    (∀ before opening after, past = before ++ .ticked opening :: after → opening.Opens →
        opening.Handles (sentTo opening.place opening.listener after) (ticks past) last.1 last.2) ∧
      (∀ call ∈ ticks past, Listens call.node → ∃ listener, call.Attends listener (ticks past)) ∧
        (stackHolds last.1.actor.stack).map Hold.node = listeningNodes last.1.actor.stack ∧
          (∀ h ∈ stackHolds last.1.actor.stack, ∃ opening ∈ ticks past, opening.Opens ∧ opening.node = h.node ∧
            opening.listener = h.listener) ∧
            (stackHolds next.1.actor.stack).map Hold.node = listeningNodes next.1.actor.stack ∧
              ∀ h ∈ stackHolds next.1.actor.stack, h.stance = .busy ∨ next.2.queue h.listener = [] := by
  intro start past last next
  obtain ⟨admitted, nodup⟩ := source.admitted_load cache label strict loaded
  have fresh : start.Ready _ := ⟨⟨admitted, nodup⟩, _, Descent.Walker.valid_new tree caller target debug, rfl⟩
  obtain ⟨hearing, same⟩ := (Hearing.new fresh given spared none).actAll spares
  rw [List.nil_append] at hearing
  refine ⟨fun before opening after => hearing.handles, fun call => hearing.attends, hearing.ready.nodes_stackHolds,
    fun h member => ?_, (hearing.ready.perform last.2 .run).nodes_stackHolds, hearing.serving_run.2⟩
  obtain ⟨opening, there, opens, node, listener, -⟩ := hearing.held.exists_opening member
  exact ⟨opening, there, opens, node, listener⟩

/-- A bell is rung when the watch begins, while it is listened to, and once more before the next run. -/
theorem events_handled_in_order_watch :
    (watchSource.load Registry.builtin [] "watch" true).1 = .ok watch ∧
      let start := Runner.new watch (.newWith 1 .everyone false)
      let ctx : Context := { Context.new Registry.builtin with callers := 1, directory := [("guard", (1, .everyone))] }
      let bell : Order := .dispatch "bell" [.text "tower"] .everyone
      let doings : List Doing :=
        [.follow .beforeRun ⟨"ring", [bell]⟩, .run, .obey [bell], .obey [.advance 1.0, bell], .run, .obey [bell]]
      let past := start.chronicle ctx doings
      let last := (start.actAll ctx doings).2
      let next := (last.1.run last.2).2
      Spared "guard" (some 1) ctx ∧ Given ctx.callers 1 .everyone ∧ ctx.boxes 1 = [] ∧
        (∀ doing ∈ doings, doing.spares "guard") ∧
        (∀ before opening after, past = before ++ .ticked opening :: after → opening.Opens →
            opening.Handles (sentTo opening.place opening.listener after) (ticks past) last.1 last.2) ∧
          (∀ call ∈ ticks past, Listens call.node → ∃ listener, call.Attends listener (ticks past)) ∧
            (stackHolds last.1.actor.stack).map Hold.node = listeningNodes last.1.actor.stack ∧
              (∀ h ∈ stackHolds last.1.actor.stack, ∃ opening ∈ ticks past, opening.Opens ∧ opening.node = h.node ∧
                opening.listener = h.listener) ∧
                (stackHolds next.1.actor.stack).map Hold.node = listeningNodes next.1.actor.stack ∧
                  ∀ h ∈ stackHolds next.1.actor.stack, h.stance = .busy ∨ next.2.queue h.listener = [] := by
  have loaded := congrArg Prod.fst load_watch
  have wired : Context.Wired
      { Context.new Registry.builtin with callers := 1, directory := [("guard", (1, .everyone))] } :=
    (Context.wired_new Registry.builtin).congr rfl rfl
  have spared : Spared "guard" (some 1)
      { Context.new Registry.builtin with callers := 1, directory := [("guard", (1, .everyone))] } := by
    refine ⟨wired, ?_, ?_, ?_⟩
    · rintro event target l ⟨⟩
    · rintro c - box ⟨⟩
    · rintro c - actor target found
      by_cases named : "guard" = actor
      · exact named.symm
      · rw [Index.at?, if_neg named] at found
        cases found
  have given : Given 1 1 .everyone := ⟨Nat.le_refl 1, trivial⟩
  refine ⟨loaded, spared, given, rfl, by decide, ?_⟩
  exact events_handled_in_order watchSource [] "watch" true watch loaded 1 .everyone false _ "guard" spared given rfl _
    (by decide)

end Runner
end BehaviorTree
