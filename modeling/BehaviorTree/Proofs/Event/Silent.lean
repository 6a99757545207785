import BehaviorTree.Proofs.Event.Orders

/-!
Hosts that give no orders. An event among them is a letter to each mailbox whose listener stands
where it is dispatched, and a note for every host that hears it; nothing else comes of it. Such
hosts stay silent whatever else happens, as long as none with orders is registered.
-/

namespace BehaviorTree.Context

variable {allowed : Order → Prop} {ctx newer : Context}

/-! ### Reactions that keep to allowed orders -/

theorem Heeds.congr (heeds : ctx.Heeds allowed) (bus : newer.bus = ctx.bus) : newer.Heeds allowed := by
  rwa [Heeds, bus]

theorem without_bus_unsubscribe (ctx : Context) (id : Nat) :
    Bus.Without (fun l => l.id = id) ctx.bus (ctx.unsubscribe id).bus := by
  rw [unsubscribe]
  split
  · exact Bus.without_refl _
  · exact Bus.without_offListener _ _ _ _

theorem Heeds.unsubscribes (ids : List Nat) (heeds : ctx.Heeds allowed) :
    (ids.foldl unsubscribe ctx).Heeds allowed := by
  induction ids generalizing ctx with
  | nil => exact heeds
  | cons id rest ih => exact ih (heeds.without (ctx.without_bus_unsubscribe id))

/-- What comes of allowed orders registers none but allowed ones. -/
def Closed (allowed : Order → Prop) : Prop := ∀ actor event address tag orders,
  allowed (.on actor event address tag orders) → ∀ order ∈ orders, allowed order

theorem closed_none : Closed fun _ => False := fun _ _ _ _ _ never => never.elim

theorem withstands_heeds (closed : Closed allowed) :
    Withstands allowed (Heeds allowed) where
  heeds heeds := heeds
  heard _ _ heeds := heeds.congr rfl
  deliver _ _ heeds := heeds.congr rfl
  request _ _ heeds := heeds.congr (bus_request ..)
  on allows _ heeds := heeds.on _ _ _ (closed _ _ _ _ _ allows)
  off {ctx _ event caller _} _ _ heeds := heeds.without (Bus.without_off ctx.bus event caller)
  offCaller {ctx _ caller _} _ _ heeds := heeds.without (Bus.without_offCaller ctx.bus caller)
  advance _ _ heeds := heeds.congr rfl

/-! ### Hosts without orders -/

/-- No reaction on the bus has any orders. -/
def Silent (ctx : Context) : Prop := ctx.Heeds fun _ => False

theorem Silent.orders_eq_nil (silent : ctx.Silent) {event : String} {target : Target} {l : Listener Sink}
    (present : l ∈ ctx.bus.listeners event target) {reaction : Reaction} (host : l.sink = .host reaction) :
    reaction.orders = [] :=
  List.eq_nil_iff_forall_not_mem.mpr fun order member => silent event target l present reaction host order member

/-- The mailbox once an event has been handed to some listeners. -/
def handedTo (listeners : List (Listener Sink)) (args : List Value) (box : Mailbox) : Mailbox :=
  if box.listener ∈ listeners.map Listener.id then { box with queue := box.queue ++ [args] } else box

section

variable (listeners : List (Listener Sink)) (args : List Value) (box : Mailbox)

@[simp] theorem listener_handedTo : (handedTo listeners args box).listener = box.listener := by
  unfold handedTo
  split <;> rfl

@[simp] theorem caller_handedTo : (handedTo listeners args box).caller = box.caller := by
  unfold handedTo
  split <;> rfl

@[simp] theorem event_handedTo : (handedTo listeners args box).event = box.event := by
  unfold handedTo
  split <;> rfl

@[simp] theorem target_handedTo : (handedTo listeners args box).target = box.target := by
  unfold handedTo
  split <;> rfl

@[simp] theorem ear_handedTo : (handedTo listeners args box).ear = box.ear := by simp [Mailbox.ear]

end

/-- Handing an event to listeners fills their mailboxes and adds to the notes. -/
theorem deliver_silent (again : Dispatch) (args : List Value) {listeners : List (Listener Sink)}
    (distinct : (listeners.map Listener.id).Nodup)
    (silent : ∀ l ∈ listeners, ∀ reaction, l.sink = .host reaction → reaction.orders = [])
    (hosted : ∀ l ∈ listeners, l.sink ≠ .mailbox → ∀ box ∈ ctx.mailboxes, box.listener ≠ l.id) :
    ∃ notes, listeners.foldl (deliver again args) ctx =
      { ctx with mailboxes := ctx.mailboxes.map (handedTo listeners args), notes } := by
  induction listeners generalizing ctx with
  | nil => exact ⟨ctx.notes, congrArg (fun mailboxes => { ctx with mailboxes }) (List.map_id _).symm⟩
  | cons l rest ih =>
    obtain ⟨apart, distinct⟩ := List.nodup_cons.mp distinct
    obtain ⟨quiet, others⟩ := List.forall_mem_cons.mp silent
    obtain ⟨host, hosts⟩ := List.forall_mem_cons.mp hosted
    rw [List.foldl_cons]
    rcases sink : l.sink with _ | reaction
    · have delivered : deliver again args ctx l = ctx.updateMailbox l.id (· ++ [args]) := by
        rw [deliver, sink]
      have apart' : ∀ l' ∈ rest, l'.sink ≠ .mailbox →
          ∀ box ∈ (ctx.updateMailbox l.id (· ++ [args])).mailboxes, box.listener ≠ l'.id := by
        intro l' member foreign box there
        rw [mailboxes_updateMailbox] at there
        obtain ⟨before, known, rfl⟩ := List.mem_map.mp there
        rw [Mailbox.listener_fill]
        exact hosts l' member foreign before known
      obtain ⟨notes, handed⟩ := ih distinct others apart'
      refine ⟨notes, ?_⟩
      rw [delivered, handed, mailboxes_updateMailbox, List.map_map]
      refine congrArg (fun mailboxes => { ctx with mailboxes, notes }) (List.map_congr_left fun box _ => ?_)
      by_cases same : box.listener = l.id
      · simp [handedTo, Mailbox.fill, same, apart]
      · simp [handedTo, Mailbox.fill, same]
    · have delivered : deliver again args ctx l = ctx.note (.heard reaction.tag args) := by
        simp only [deliver, sink, quiet reaction sink]
        rfl
      have hosts' : ∀ l' ∈ rest, l'.sink ≠ .mailbox →
          ∀ box ∈ (ctx.note (.heard reaction.tag args)).mailboxes, box.listener ≠ l'.id := hosts
      obtain ⟨notes, handed⟩ := ih distinct others hosts'
      refine ⟨notes, ?_⟩
      rw [delivered, handed]
      refine congrArg (fun mailboxes => { ctx with mailboxes, notes }) (List.map_congr_left fun box there => ?_)
      have foreign := host (by rw [sink]; rintro ⟨⟩) box there
      simp [handedTo, foreign]

/-- Dispatching an event fills the mailboxes of those who listen where it is dispatched. -/
theorem dispatch_silent (wired : ctx.Wired) (silent : ctx.Silent) (event : String) (target : Target)
    (args : List Value) :
    ∃ notes, (ctx.dispatch event target args).2 =
      { ctx with
        mailboxes := ctx.mailboxes.map (handedTo (ctx.bus.listeners event target) args), notes } :=
  deliver_silent _ args (wired.distinct event target)
    (fun _ present _ host => silent.orders_eq_nil present host)
    (fun l present => wired.hosted event target l present)

/-- A mailbox is reached if and only if its listener stands where the event is dispatched. -/
theorem Wired.mem_ids_iff (wired : ctx.Wired) {box : Mailbox} (member : box ∈ ctx.mailboxes) (event : String)
    (target : Target) :
    box.listener ∈ (ctx.bus.listeners event target).map Listener.id ↔
      box.ear ∈ ctx.bus.listeners box.event box.target ∧ box.event = event ∧ box.target = target := by
  constructor
  · intro named
    obtain ⟨l, present, same⟩ := List.mem_map.mp named
    by_cases fills : l.sink = .mailbox
    · obtain ⟨other, there, rfl, rfl, rfl⟩ := wired.boxed event target l present fills
      obtain rfl := wired.eq_of_listener there member same
      exact ⟨present, rfl, rfl⟩
    · exact absurd same.symm (wired.hosted event target l present fills box member)
  · rintro ⟨present, rfl, rfl⟩
    exact List.mem_map.mpr ⟨box.ear, present, rfl⟩

end BehaviorTree.Context
