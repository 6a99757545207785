import BehaviorTree.Proofs.Descent.Pairing
import BehaviorTree.Proofs.Event.Orders
import Mathlib.Data.Multiset.Filter

/-!
What one tick keeps. An invariant that every single step keeps is kept by the tick, whichever way it
ends. The first one is about listeners: the listening nodes that are active hold exactly the
mailboxes of their actor's caller, each for the node's event and for the target that the node heard
on when it was entered; and nobody else's mailboxes and listeners are touched.
-/

namespace BehaviorTree.Descent

open TickM
open Context (Attended Untouched Wired)

/-! ### Invariants -/

/-- What every single step of a tick keeps, given what the active listening nodes hold and the calls
made so far. -/
structure Invariant (I : Multiset Hold → List Call → Scene → Prop) : Prop where
  recast {H log s} (vars completed last) : I H log s →
    I H log (s.updateActor (·.recast vars completed last))
  note {H log s} (n : Note) : I H log s → I H log (s.note n)
  noteDebug {H log s} (n : Note) : I H log s → I H log (s.noteDebug n)
  compile {H log s} (code : String) : I H log s →
    I H log (s.updateContext fun ctx => (ctx.compile code).2)
  call {H log s} {call : Call} : I H log s → ¬ call.IsEntry → I H (log ++ [call]) s
  unheard {H log s} : I H log s → s.context.queue (s.context.bus.issued + 1) = []
  subscribe {H log s} {call : Call} : I H log s → call ∈ log → call.state = none →
    Listens call.node → s.actor = call.scene.actor → s.context.bus = call.scene.context.bus →
    I (⟨call.node, s.context.bus.issued + 1, .due⟩ ::ₘ H) log
      (s.subscribe call.node.event (call.node.audience s.actor))
  accept {node listener stance H log s} {args : List Value} {rest : List (List Value)} {call : Call} :
    I (⟨node, listener, stance⟩ ::ₘ H) log s → (stance = .busy → node.isOnce = false) →
    s.context.queue listener = args :: rest → call.state = none → call.memory = .mailbox listener →
    call.before = s → node.children = [call.node] ∧ call.scene = handed node listener args rest s →
    I (⟨node, listener, .busy⟩ ::ₘ H) (log ++ [call]) (handed node listener args rest s)
  settle {node listener stance H log s} : I (⟨node, listener, stance⟩ ::ₘ H) log s →
    (stance = .busy → node.isOnce = false) → s.context.queue listener = [] →
    I (⟨node, listener, .idle⟩ ::ₘ H) log s
  unsubscribe {h H log s} : I (h ::ₘ H) log s → I H log (s.unsubscribe h.listener)

mutual

theorem Active.rename_id : ∀ state : Active, state.rename id = state
  | .resting memory => by cases memory <;> rfl
  | .over memory i state => by
    rw [Active.rename, Active.rename_id state]
    cases memory <;> rfl
  | .beside shares => by rw [Active.rename, renameAll_id shares]

theorem renameAll_id : ∀ shares : List Share, renameAll id shares = shares
  | [] => rfl
  | .settled _ :: rest => by rw [renameAll, Share.rename, renameAll_id rest]
  | .active state :: rest => by rw [renameAll, Share.rename, Active.rename_id state, renameAll_id rest]

end

/-- An invariant relates a tick to itself. -/
theorem Invariant.pairing {I : Multiset Hold → List Call → Scene → Prop} (inv : Invariant I) :
    Pairing id fun H log s t => t = s ∧ I H log s where
  alike := by
    rintro H log s t ⟨rfl, -⟩
    exact ⟨rfl, rfl, rfl, rfl, rfl, rfl⟩
  queue := by
    rintro h H log s t ⟨rfl, -⟩
    rfl
  next := by
    rintro H log s t ⟨rfl, -⟩
    rfl
  recast vars completed last := by
    rintro ⟨rfl, kept⟩
    exact ⟨rfl, inv.recast vars completed last kept⟩
  note n := by
    rintro ⟨rfl, kept⟩
    exact ⟨rfl, inv.note n kept⟩
  noteDebug n := by
    rintro ⟨rfl, kept⟩
    exact ⟨rfl, inv.noteDebug n kept⟩
  compile code := by
    rintro ⟨rfl, kept⟩
    exact ⟨rfl, inv.compile code kept⟩
  call := by
    rintro H log s t call ⟨rfl, kept⟩ other
    exact ⟨rfl, inv.call kept other⟩
  unheard kept := inv.unheard kept.2
  subscribe := by
    rintro H log s t call ⟨rfl, kept⟩ logged fresh listens actor bus
    exact ⟨rfl, inv.subscribe kept logged fresh listens actor bus⟩
  accept := by
    rintro node listener stance H log s t args rest call ⟨rfl, kept⟩ again waiting fresh heard before entered
    exact ⟨rfl, inv.accept kept again waiting fresh heard before entered⟩
  settle := by
    rintro node listener stance H log s t ⟨rfl, kept⟩ again nothing
    exact ⟨rfl, inv.settle kept again nothing⟩
  unsubscribe := by
    rintro h H log s t ⟨rfl, kept⟩
    exact ⟨rfl, inv.unsubscribe kept⟩

/-- What an invariant comes to when a tick ends. -/
def Leaves (I : Multiset Hold → List Call → Scene → Prop) (node : Node) (H : Multiset Hold)
    (log : List Call) : Except Fault Report × Scene → Prop
  | (.ok report, s) => I (H + report.holds node) log s
  | (.error _, s) => ∃ more, I (H + more) log s

/-- What every single step of a tick keeps is kept by the tick. -/
theorem Invariant.tick {I : Multiset Hold → List Call → Scene → Prop} (inv : Invariant I) {call : Call}
    (shaped : call.node.Every Node.Shaped) (sound : ∀ state ∈ call.state, Sound [] call.node state)
    {H : Multiset Hold} {log : List Call} (logged : call ∈ log)
    (kept : I (H + holdsBefore call.node call.state) log call.scene) :
    Leaves I call.node H (log ++ call.within)
      ((Descent.tick call.node call.state call.path).play call.scene) := by
  have ticked := paired_tick inv.pairing call.node shaped call H log call.scene rfl sound logged
    ⟨rfl, kept⟩
  rw [show call.state.map (Active.rename id) = call.state from by
    rw [show Active.rename id = id from funext Active.rename_id, Option.map_id]; rfl] at ticked
  unfold Abreast at ticked
  generalize (Descent.tick call.node call.state call.path).play call.scene = result at ticked ⊢
  cases ticked with
  | values related => exact related.2.2
  | faults fault related =>
    obtain ⟨more, -, kept⟩ := related
    exact ⟨more, kept⟩

/-! ### Listeners -/

/-- A listening node was entered, and subscribed to its event for the audience that it had then. -/
def Opened (caller : Nat) (log : List Call) (ctx : Context) (h : Hold) : Prop :=
  ∃ call ∈ log, call.state = none ∧ call.node = h.node ∧ Listens h.node ∧
    h.listener = call.scene.context.bus.issued + 1 ∧
      ∃ box ∈ ctx.boxes caller, box.listener = h.listener ∧ box.event = h.node.event ∧
        box.target = h.node.audience call.scene.actor

/-- What holds of the listeners while the nodes of an actor are ticked. -/
structure Keeps (caller : Nat) (start : Context) (H : Multiset Hold) (log : List Call) (s : Scene) :
    Prop where
  acting : s.actor.caller = caller
  wired : s.context.Wired
  issued : start.bus.issued ≤ s.context.bus.issued
  /-- Mailboxes are only opened for new listeners. -/
  grown : ∀ box ∈ s.context.mailboxes,
    (∃ before ∈ start.mailboxes, before.listener = box.listener) ∨ start.bus.issued < box.listener
  /-- Listeners of hosts are neither registered nor removed. -/
  hosts : ∀ event target, ∀ l : Listener Sink, l.sink ≠ .mailbox →
    (l ∈ s.context.bus.listeners event target ↔ l ∈ start.bus.listeners event target)
  /-- The active nodes hold the mailboxes of the caller. -/
  owned : ((s.context.boxes caller).map Mailbox.listener : Multiset Nat) = H.map Hold.listener
  opened : ∀ h ∈ H, Opened caller log s.context h
  attended : Attended caller start → Attended caller s.context
  others : ∀ other, other ≠ caller → Untouched other start s.context

/-- An opening stays one while the log grows and the mailbox remains. -/
theorem Opened.mono {caller : Nat} {log more : List Call} {older newer : Context} {h : Hold}
    (opened : Opened caller log older h) (logged : log ⊆ more)
    (still : ∀ box ∈ older.boxes caller, box.listener = h.listener →
      ∃ later ∈ newer.boxes caller, later.emptied = box.emptied) : Opened caller more newer h := by
  obtain ⟨call, member, fresh, same, listens, subscribed, box, there, named, event, target⟩ := opened
  obtain ⟨later, there, alike⟩ := still box there named
  refine ⟨call, logged member, fresh, same, listens, subscribed, later, there, ?_, ?_, ?_⟩
  · exact (show later.emptied.listener = box.emptied.listener by rw [alike]).trans named
  · exact (show later.emptied.event = box.emptied.event by rw [alike]).trans event
  · exact (show later.emptied.target = box.emptied.target by rw [alike]).trans target

namespace Keeps

variable {caller : Nat} {start : Context} {H : Multiset Hold} {log : List Call} {s t : Scene}

/-- Whatever changes besides the mailboxes and the bus. -/
theorem still (keeps : Keeps caller start H log s) (acting : t.actor.caller = s.actor.caller)
    (bus : t.context.bus = s.context.bus) (mailboxes : t.context.mailboxes = s.context.mailboxes) :
    Keeps caller start H log t where
  acting := acting.trans keeps.acting
  wired := keeps.wired.congr bus mailboxes
  issued := bus ▸ keeps.issued
  grown := mailboxes ▸ keeps.grown
  hosts := bus ▸ keeps.hosts
  owned := by
    rw [Context.boxes, mailboxes]
    exact keeps.owned
  opened h member := (keeps.opened h member).mono (List.Subset.refl _) fun box there _ =>
    ⟨box, by rwa [Context.boxes, mailboxes], rfl⟩
  attended still := by
    rw [Attended, bus, mailboxes]
    exact keeps.attended still
  others other apart := by
    obtain ⟨boxes, listeners⟩ := keeps.others other apart
    refine ⟨?_, ?_⟩
    · rw [← boxes, Context.boxes, Context.boxes, mailboxes]
    · rw [bus]
      exact listeners

/-- The mailbox of a listener that is held. -/
theorem box_of_held {h : Hold} (keeps : Keeps caller start (h ::ₘ H) log s) :
    ∃ box ∈ s.context.mailboxes, box.listener = h.listener ∧ box.caller = caller := by
  have held : h.listener ∈ ((s.context.boxes caller).map Mailbox.listener : Multiset Nat) := by
    rw [keeps.owned]
    exact Multiset.mem_map_of_mem _ (Multiset.mem_cons_self h H)
  obtain ⟨box, member, named⟩ := List.mem_map.mp (Multiset.mem_coe.mp held)
  obtain ⟨there, own⟩ := Context.mem_boxes.mp member
  exact ⟨box, there, named, own⟩

/-- A node that subscribes holds its listener from then on. -/
theorem subscribe {call : Call} (keeps : Keeps caller start H log s) (logged : call ∈ log)
    (fresh : call.state = none) (listens : Listens call.node) (actor : s.actor = call.scene.actor)
    (bus : s.context.bus = call.scene.context.bus) :
    Keeps caller start (⟨call.node, s.context.bus.issued + 1, .due⟩ ::ₘ H) log
      (s.subscribe call.node.event (call.node.audience s.actor)) := by
  obtain ⟨acting, wired, issued, grown, hosts, owned, opened, attended, others⟩ := keeps
  refine ⟨acting, wired.subscribe _ _ _, Nat.le_succ_of_le issued, ?_, ?_, ?_, ?_, ?_, ?_⟩
  · intro box member
    rcases List.mem_append.mp member with before | new
    · exact grown box before
    · rw [List.mem_singleton.mp new]
      exact .inr (Nat.lt_succ_of_le issued)
  · intro event target l host
    rw [← hosts event target l host]
    refine Context.mem_listeners_on.trans (or_iff_left ?_)
    rintro ⟨-, rfl⟩
    exact host rfl
  · rw [Scene.subscribe, Scene.updateContext, Context.boxes_subscribe, if_pos acting, List.map_append,
      ← Multiset.coe_add, owned, Multiset.map_cons, Multiset.add_comm]
    rfl
  · intro h member
    rcases Multiset.mem_cons.mp member with rfl | before
    · refine ⟨call, logged, fresh, rfl, listens, by rw [bus], _,
        Context.mem_boxes.mpr ⟨List.mem_append_right _ List.mem_cons_self, acting⟩, rfl, rfl, ?_⟩
      rw [actor]
    · refine (opened h before).mono (List.Subset.refl _) fun box there _ => ⟨box, ?_, rfl⟩
      rw [Scene.subscribe, Scene.updateContext, Context.boxes_subscribe]
      exact List.mem_append_left _ there
  · intro still box member own
    rcases List.mem_append.mp member with before | new
    · exact Context.mem_listeners_on.mpr (.inl (attended still box before own))
    · rw [List.mem_singleton.mp new]
      exact Context.mem_listeners_on.mpr (.inr ⟨⟨rfl, rfl⟩, rfl⟩)
  · intro other apart
    exact (others other apart).trans (Context.untouched_subscribe _ _ _ (acting ▸ apart.symm))

/-- Changing a queue leaves what is held. -/
theorem updateMailbox {h : Hold} (keeps : Keeps caller start (h ::ₘ H) log s)
    (update : List (List Value) → List (List Value)) :
    Keeps caller start (h ::ₘ H) log (s.updateContext (·.updateMailbox h.listener update)) := by
  obtain ⟨box, there, named, own⟩ := keeps.box_of_held
  obtain ⟨acting, wired, issued, grown, hosts, owned, opened, attended, others⟩ := keeps
  refine ⟨acting, wired.updateMailbox _ _, issued, ?_, hosts, ?_, ?_,
    fun still => (attended still).updateMailbox _ _, ?_⟩
  · intro box member
    obtain ⟨older, before, rfl⟩ := List.mem_map.mp member
    exact (older.listener_fill _ _).symm ▸ grown older before
  · rw [Scene.updateContext, Context.boxes_updateMailbox, List.map_map, ← owned]
    exact congrArg _ (List.map_congr_left fun box _ => box.listener_fill _ _)
  · refine fun h' member => (opened h' member).mono (List.Subset.refl _) fun box there _ =>
      ⟨box.fill h.listener update, ?_, box.emptied_fill _ _⟩
    rw [Scene.updateContext, Context.boxes_updateMailbox]
    exact List.mem_map_of_mem there
  · intro other apart
    refine (others other apart).trans ?_
    rw [← named]
    exact Context.untouched_updateMailbox wired there (own ▸ apart.symm) update

/-- The stance of a node does not matter. -/
theorem turn {more : List Call} {node : Node} {listener : Nat} {stance : Stance} (other : Stance)
    (keeps : Keeps caller start (⟨node, listener, stance⟩ ::ₘ H) log s) (logged : log ⊆ more) :
    Keeps caller start (⟨node, listener, other⟩ ::ₘ H) more s := by
  obtain ⟨acting, wired, issued, grown, hosts, owned, opened, attended, others⟩ := keeps
  refine ⟨acting, wired, issued, grown, hosts, ?_, fun h member => ?_, attended, others⟩
  · rw [owned, Multiset.map_cons, Multiset.map_cons]
  · rcases Multiset.mem_cons.mp member with rfl | before
    · exact (opened ⟨node, listener, stance⟩ (Multiset.mem_cons_self _ _)).mono logged
        fun box there _ => ⟨box, there, rfl⟩
    · exact (opened h (Multiset.mem_cons_of_mem before)).mono logged fun box there _ => ⟨box, there, rfl⟩

/-- A node that unsubscribes holds its listener no longer. -/
theorem unsubscribe {h : Hold} (keeps : Keeps caller start (h ::ₘ H) log s) :
    Keeps caller start H log (s.unsubscribe h.listener) := by
  obtain ⟨box, there, named, own⟩ := keeps.box_of_held
  obtain ⟨acting, wired, issued, grown, hosts, owned, opened, attended, others⟩ := keeps
  have without := wired.without_unsubscribe there
  rw [named] at without
  rw [Multiset.map_cons] at owned
  have distinct : (h.listener ::ₘ H.map Hold.listener).Nodup := by
    rw [← owned, Multiset.coe_nodup]
    exact (List.filter_sublist.map _).nodup wired.apart
  have apart := (Multiset.nodup_cons.mp distinct).1
  have closed : (s.context.unsubscribe h.listener).mailboxes =
      s.context.mailboxes.filter fun box => box.listener ≠ h.listener := by
    rw [← named, Context.unsubscribe, wired.mailbox?_eq there]
  refine ⟨acting, wired.unsubscribe _, ?_, ?_, ?_, ?_, ?_, ?_, ?_⟩
  · exact Nat.le_trans issued (Nat.le_of_eq without.issued.symm)
  · intro other member
    rw [Scene.unsubscribe, Scene.updateContext, closed] at member
    exact grown other (List.mem_of_mem_filter member)
  · intro event target l host
    rw [← hosts event target l host]
    refine ⟨fun present => (without.sublist event target).subset present, fun present => ?_⟩
    rw [Scene.unsubscribe, Scene.updateContext, Context.unsubscribe, ← named, wired.mailbox?_eq there]
    refine (Bus.without_offListener s.context.bus box.listener box.event box.target).mem present fun same => ?_
    exact wired.hosted event target l present host box there same.symm
  · have left : (((s.context.boxes caller).filter fun box => box.listener ≠ h.listener).map
        Mailbox.listener : Multiset Nat) =
          Multiset.filter (· ≠ h.listener) (h.listener ::ₘ H.map Hold.listener) := by
      rw [← owned, Multiset.filter_coe, List.filter_map]
      rfl
    rw [Scene.unsubscribe, Scene.updateContext, Context.boxes_unsubscribe, left,
      Multiset.filter_cons_of_neg (p := (· ≠ h.listener)) _ (not_not.mpr rfl), Multiset.filter_eq_self]
    exact fun id member same => apart (same ▸ member)
  · intro other member
    refine (opened other (Multiset.mem_cons_of_mem member)).mono (List.Subset.refl _) fun box' there' named' => ?_
    refine ⟨box', ?_, rfl⟩
    rw [Scene.unsubscribe, Scene.updateContext, Context.boxes_unsubscribe]
    refine List.mem_filter.mpr ⟨there', decide_eq_true ?_⟩
    rw [named']
    exact fun same => apart (same ▸ Multiset.mem_map_of_mem _ member)
  · intro still box' member own'
    rw [Scene.unsubscribe, Scene.updateContext, closed] at member
    obtain ⟨there', other⟩ := List.mem_filter.mp member
    have listed := attended still box' there' own'
    rw [Scene.unsubscribe, Scene.updateContext, Context.unsubscribe, ← named, wired.mailbox?_eq there]
    exact (Bus.without_offListener s.context.bus box.listener box.event box.target).mem listed
      (named.symm ▸ of_decide_eq_true other)
  · intro other apart'
    refine (others other apart').trans ?_
    rw [← named]
    exact Context.untouched_unsubscribe wired there (own ▸ apart'.symm)

end Keeps

/-- What holds of the listeners is kept by every step. -/
theorem invariant_keeps (caller : Nat) (start : Context) : Invariant (Keeps caller start) where
  recast _ _ _ keeps := keeps.still rfl rfl rfl
  note _ keeps := keeps.still rfl rfl rfl
  noteDebug n keeps := by
    rw [Scene.noteDebug]
    split
    · exact keeps.still rfl rfl rfl
    · exact keeps
  compile _ keeps := keeps.still rfl rfl rfl
  call keeps _ := { keeps with
    opened := fun h member => (keeps.opened h member).mono (List.subset_append_left _ _) fun box there _ =>
      ⟨box, there, rfl⟩ }
  unheard keeps := keeps.wired.queue_fresh (Nat.lt_succ_self _)
  subscribe keeps logged fresh listens actor bus := keeps.subscribe logged fresh listens actor bus
  accept {node _ _ _ _ s args _ _} keeps _ _ _ _ _ _ := by
    obtain ⟨vars, written⟩ := Actor.writeArguments_eq node args
    have caller : (s.actor.writeArguments node args).caller = s.actor.caller := by
      rw [written]
      rfl
    exact ((keeps.updateMailbox _).turn .busy (List.subset_append_left _ _)).still caller rfl rfl
  settle keeps _ _ := keeps.turn .idle (List.Subset.refl _)
  unsubscribe keeps := keeps.unsubscribe

end BehaviorTree.Descent
