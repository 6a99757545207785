import BehaviorTree.Proofs.Event.Orders

/-!
Hosts that make no requests. Leaving the requests for a caller out of what hosts have ordered changes
nothing but whether a request for that caller is pending: whatever is dispatched and whatever is ordered
leaves the same behind otherwise.
-/

namespace BehaviorTree

/-! ### Orders -/

/-- The order asks for an interrupt of one of the caller's own actors. -/
def Order.asks (own : String → Bool) : Order → Bool
  | .interrupt actor => own actor
  | _ => false

mutual

/-- The order without the requests that may come of it. -/
def Order.hushed (own : String → Bool) : Order → Order
  | .on actor event address tag orders => .on actor event address tag (hushedAll own orders)
  | order => order

/-- The orders without those that ask for an interrupt. -/
def hushedAll (own : String → Bool) : List Order → List Order
  | [] => []
  | order :: rest => if order.asks own then hushedAll own rest else order.hushed own :: hushedAll own rest

end

/-- The reaction without the requests that may come of it. -/
def Reaction.hushed (own : String → Bool) (reaction : Reaction) : Reaction :=
  { reaction with orders := hushedAll own reaction.orders }

/-- The sink without the requests that may come of its calls. -/
def Sink.hushed (own : String → Bool) : Sink → Sink
  | .mailbox => .mailbox
  | .host reaction => .host (reaction.hushed own)

/-- The listener without the requests that may come of its calls. -/
def Listener.hushed (own : String → Bool) (l : Listener Sink) : Listener Sink := { l with sink := l.sink.hushed own }

/-! ### Buses -/

namespace Bus

variable {own : String → Bool} {bus bus' : Bus Sink}

/-- The second bus has the same listeners, whose hosts make no requests. -/
structure Hushed (own : String → Bool) (bus bus' : Bus Sink) : Prop where
  issued : bus'.issued = bus.issued
  byCaller : bus'.byCaller = bus.byCaller
  listeners : ∀ event target, bus'.listeners event target = (bus.listeners event target).map (Listener.hushed own)

/-- The bus with its listeners hushed. -/
def hushed (own : String → Bool) (bus : Bus Sink) : Bus Sink :=
  { bus with byEvent := Index.relabel id (Index.relabel id (List.map (Listener.hushed own))) bus.byEvent }

theorem hushed_self (own : String → Bool) (bus : Bus Sink) : bus.Hushed own (bus.hushed own) where
  issued := rfl
  byCaller := rfl
  listeners event target := by
    have events := Index.at?_relabel Function.injective_id
      (Index.relabel id (List.map (Listener.hushed own))) bus.byEvent event
    rw [Bus.listeners, Bus.listeners, show (bus.hushed own).byEvent.at? event = _ from events]
    rcases bus.byEvent.at? event with _ | targets
    · rfl
    · have here := Index.at?_relabel Function.injective_id (List.map (Listener.hushed own)) targets target
      rw [Option.map_some, Option.bind_some, Option.bind_some, show Index.at? _ target = _ from here]
      rcases Index.at? targets target with _ | found <;> rfl

namespace Hushed

variable (hush : bus.Hushed own bus')

include hush

/-- A new listener is hushed on the second bus. -/
theorem on (event : String) (target : Target) (caller : Nat) (sink : Sink) :
    Hushed own (bus.on event target caller sink).2 (bus'.on event target caller (sink.hushed own)).2 where
  issued := congrArg (· + 1) hush.issued
  byCaller := by
    have places : bus'.places caller = bus.places caller := by rw [Bus.places, Bus.places, hush.byCaller]
    simp only [Bus.on]
    rw [places, hush.byCaller]
  listeners e t := by
    rw [listeners_on, listeners_on, hush.listeners, hush.issued, List.map_append]
    split <;> rfl

/-- Listeners are removed alike if it does not matter what their hosts do. -/
theorem retain (event : String) (target : Target) {keep : Listener Sink → Bool}
    (blind : ∀ l : Listener Sink, keep (l.hushed own) = keep l) :
    Hushed own (bus.retain event target keep) (bus'.retain event target keep) where
  issued := by rw [issued_retain, issued_retain, hush.issued]
  byCaller := by rw [byCaller_retain, byCaller_retain, hush.byCaller]
  listeners e t := by
    rw [listeners_retain, listeners_retain, hush.listeners, List.filter_map, show keep ∘ Listener.hushed own = keep from
      funext blind]
    split <;> rfl

theorem retainOthers (caller : Nat) (places : List (String × Target)) :
    Hushed own (bus.retainOthers caller places) (bus'.retainOthers caller places) := by
  induction places generalizing bus bus' with
  | nil => exact hush
  | cons first rest ih => exact ih (hush.retain first.1 first.2 fun _ => rfl)

theorem setPlaces (caller : Nat) (places : List (String × Target)) :
    Hushed own (bus.setPlaces caller places) (bus'.setPlaces caller places) where
  issued := hush.issued
  byCaller := by simp only [Bus.setPlaces, hush.byCaller]
  listeners := hush.listeners

theorem off (event : String) (caller : Nat) : Hushed own (bus.off event caller) (bus'.off event caller) := by
  rw [Bus.off, Bus.off, hush.byCaller]
  split
  · exact hush
  · exact (hush.setPlaces caller _).retainOthers caller _

theorem offCaller (caller : Nat) : Hushed own (bus.offCaller caller) (bus'.offCaller caller) := by
  rw [Bus.offCaller, Bus.offCaller, hush.byCaller]
  split
  · exact hush
  · have gone : Hushed own { bus with byCaller := bus.byCaller.remove caller }
        { bus' with byCaller := bus.byCaller.remove caller } := ⟨hush.issued, rfl, hush.listeners⟩
    exact gone.retainOthers caller _

theorem offListener (listener : Nat) (event : String) (target : Target) :
    Hushed own (bus.offListener listener event target) (bus'.offListener listener event target) := by
  have kept : Hushed own (bus.retain event target fun l => l.id ≠ listener)
      (bus'.retain event target fun l => l.id ≠ listener) := hush.retain event target fun _ => rfl
  have owner : ((bus'.listeners event target).find? fun l => l.id = listener).map Listener.caller =
      ((bus.listeners event target).find? fun l => l.id = listener).map Listener.caller := by
    rw [hush.listeners, List.find?_map, Option.map_map]
    rfl
  simp only [Bus.offListener]
  rw [owner]
  split
  · exact kept
  · rename_i caller _
    have others : ((bus'.retain event target fun l => l.id ≠ listener).listeners event target).any
        (fun l => l.caller = caller) =
          ((bus.retain event target fun l => l.id ≠ listener).listeners event target).any
            (fun l => l.caller = caller) := by
      rw [kept.listeners, List.any_map]
      rfl
    rw [others, kept.byCaller]
    split
    · exact kept
    · split
      · exact kept
      · exact kept.setPlaces caller _

end Hushed
end Bus

/-! ### Contexts -/

namespace Context

variable {own : String → Bool} {caller : Nat} {ctx ctx' : Context}

/-- The actors that hosts know the caller by. -/
def Named (own : String → Bool) (caller : Nat) (ctx : Context) : Prop :=
  ∀ actor, own actor = true ↔ (ctx.directory.at? actor).map Prod.fst = some caller

/-- The second context is the first one without any request for the caller, made or yet to be made. -/
inductive Hushed (own : String → Bool) (caller : Nat) : Context → Context → Prop where
  | mk {ctx : Context} {bus' : Bus Sink} (bus : ctx.bus.Hushed own bus') (named : ctx.Named own caller) :
      Hushed own caller ctx { ctx with bus := bus', requests := ctx.requests.filter (· ≠ caller) }

/-- The context without any request for the caller. -/
def hushed (own : String → Bool) (caller : Nat) (ctx : Context) : Context :=
  { ctx with bus := ctx.bus.hushed own, requests := ctx.requests.filter (· ≠ caller) }

theorem hushed_self (named : ctx.Named own caller) : Hushed own caller ctx (ctx.hushed own caller) :=
  .mk (ctx.bus.hushed_self own) named

namespace Hushed

variable (hush : Hushed own caller ctx ctx')

include hush

theorem named : ctx.Named own caller := by
  obtain ⟨-, named⟩ := hush
  exact named

/-- No request is pending without any. -/
theorem isPending_eq_false : ctx'.isPending caller = false := by
  obtain ⟨-, -⟩ := hush
  simp [isPending]

theorem note (n : Note) : Hushed own caller (ctx.note n) (ctx'.note n) := by
  obtain ⟨bus, named⟩ := hush
  exact .mk bus named

theorem advance (dt : Float) : Hushed own caller (ctx.advance dt) (ctx'.advance dt) := by
  obtain ⟨bus, named⟩ := hush
  exact .mk bus named

theorem compile (code : String) : Hushed own caller (ctx.compile code).2 (ctx'.compile code).2 := by
  obtain ⟨bus, named⟩ := hush
  exact .mk bus named

theorem updateMailbox (listener : Nat) (update : List (List Value) → List (List Value)) :
    Hushed own caller (ctx.updateMailbox listener update) (ctx'.updateMailbox listener update) := by
  obtain ⟨bus, named⟩ := hush
  exact .mk bus named

theorem off (event : String) (other : Nat) : Hushed own caller (ctx.off event other) (ctx'.off event other) := by
  obtain ⟨bus, named⟩ := hush
  exact .mk (bus.off event other) named

theorem offCaller (other : Nat) : Hushed own caller (ctx.offCaller other) (ctx'.offCaller other) := by
  obtain ⟨bus, named⟩ := hush
  exact .mk (bus.offCaller other) named

theorem on (event : String) (target : Target) (other : Nat) (reaction : Reaction) :
    Hushed own caller (ctx.on event target other reaction).2 (ctx'.on event target other (reaction.hushed own)).2 := by
  obtain ⟨bus, named⟩ := hush
  exact .mk (bus.on event target other (.host reaction)) named

theorem subscribe (event : String) (target : Target) (other : Nat) :
    Hushed own caller (ctx.subscribe event target other).2 (ctx'.subscribe event target other).2 := by
  obtain ⟨bus, named⟩ := hush
  have opened := bus.on event target other .mailbox
  have next := bus.issued
  simp only [Context.subscribe, Bus.on, Sink.hushed] at opened ⊢
  rw [next] at opened ⊢
  exact .mk opened named

theorem unsubscribe (listener : Nat) : Hushed own caller (ctx.unsubscribe listener) (ctx'.unsubscribe listener) := by
  obtain ⟨bus, named⟩ := hush
  rename_i bus'
  have found : ({ ctx with bus := bus', requests := ctx.requests.filter (· ≠ caller) } : Context).mailbox? listener =
      ctx.mailbox? listener := rfl
  rw [Context.unsubscribe, Context.unsubscribe, found]
  split
  · exact .mk bus named
  · exact .mk (bus.offListener listener _ _) named

theorem unsubscribeAll (other : Nat) : Hushed own caller (ctx.unsubscribeAll other) (ctx'.unsubscribeAll other) := by
  have boxes : ctx'.mailboxes = ctx.mailboxes := by
    obtain ⟨-, -⟩ := hush
    rfl
  rw [Context.unsubscribeAll, Context.unsubscribeAll, boxes]
  clear boxes
  generalize ((ctx.mailboxes.filter fun box => box.caller = other).map Mailbox.listener) = listeners
  induction listeners generalizing ctx ctx' with
  | nil => exact hush
  | cons listener rest ih => exact ih (hush.unsubscribe listener)

/-! ### Requests -/

/-- A request for the caller is of no consequence otherwise. -/
theorem request : Hushed own caller (ctx.request caller) ctx' := by
  obtain ⟨bus, named⟩ := hush
  rw [Context.request]
  split
  · exact .mk bus named
  · have same : (caller :: ctx.requests).filter (· ≠ caller) = ctx.requests.filter (· ≠ caller) := by simp
    rw [← same]
    exact .mk bus named

/-- Somebody else's request is made on both sides. -/
theorem request_other {other : Nat} (apart : other ≠ caller) :
    Hushed own caller (ctx.request other) (ctx'.request other) := by
  obtain ⟨bus, named⟩ := hush
  have known : other ∈ ctx.requests.filter (· ≠ caller) ↔ other ∈ ctx.requests := by simp [apart]
  rw [Context.request, Context.request]
  by_cases made : other ∈ ctx.requests
  · rw [if_pos made, if_pos (known.mpr made)]
    exact .mk bus named
  · rw [if_neg made, if_neg (mt known.mp made)]
    have same : other :: ctx.requests.filter (· ≠ caller) = (other :: ctx.requests).filter (· ≠ caller) := by
      simp [apart]
    rw [same]
    exact .mk bus named

theorem dropRequest : Hushed own caller (ctx.dropRequest caller) (ctx'.dropRequest caller) := by
  obtain ⟨bus, named⟩ := hush
  exact .mk bus named

/-- A single request that is dropped again. -/
theorem dropRequest_request :
    Hushed own caller (ctx.dropRequest caller) ((ctx'.request caller).dropRequest caller) := by
  have dropped : (ctx'.request caller).dropRequest caller = ctx'.dropRequest caller := by
    rw [Context.request]
    split
    · rfl
    · simp [Context.dropRequest]
  rw [dropped]
  exact hush.dropRequest

/-! ### Orders and events -/

variable {again : Dispatch} (nested : ∀ {ctx ctx' : Context} event target args, Hushed own caller ctx ctx' →
  Hushed own caller (again ctx event target args) (again ctx' event target args))

include nested

/-- An order that does not ask for an interrupt of the caller is carried out on both sides. -/
theorem follow {order : Order} (other : order.asks own = false) :
    Hushed own caller (follow again ctx order) (follow again ctx' (order.hushed own)) := by
  have listed : ctx'.directory = ctx.directory := by
    obtain ⟨-, -⟩ := hush
    rfl
  have resolved (address : Address) : ctx'.resolve address = ctx.resolve address := by
    cases address <;> simp only [Context.resolve, listed]
  cases order with
  | interrupt actor =>
    simp only [Context.follow, Order.hushed, listed]
    rcases known : ctx.directory.at? actor with _ | ⟨someone, target⟩
    · exact hush
    · refine hush.request_other fun same => ?_
      have denoted := (hush.named actor).mpr (by rw [known, ← same]; rfl)
      exact Bool.false_ne_true (other.symm.trans denoted)
  | offCaller actor =>
    simp only [Context.follow, Order.hushed, listed]
    rcases ctx.directory.at? actor with _ | ⟨someone, target⟩
    · exact hush
    · exact hush.offCaller someone
  | off actor event =>
    simp only [Context.follow, Order.hushed, listed]
    rcases ctx.directory.at? actor with _ | ⟨someone, target⟩
    · exact hush
    · exact hush.off event someone
  | on actor event address tag orders =>
    simp only [Context.follow, Order.hushed, listed, resolved]
    rcases ctx.directory.at? actor with _ | ⟨someone, target⟩
    · exact hush
    · exact hush.on event _ someone ⟨tag, orders⟩
  | dispatch event args address =>
    simp only [Context.follow, Order.hushed, resolved]
    exact nested event _ args hush
  | advance dt => exact hush.advance dt

/-- Orders are carried out on both sides without the caller's requests. -/
theorem followAll (orders : List Order) :
    Hushed own caller (followAll again ctx orders) (followAll again ctx' (hushedAll own orders)) := by
  induction orders generalizing ctx ctx' with
  | nil => exact hush
  | cons order rest ih =>
    rw [hushedAll]
    rcases asks : order.asks own with _ | _
    · exact ih (hush.follow nested asks)
    · refine ih ?_
      cases order with
      | interrupt actor =>
        have known := (hush.named actor).mp asks
        rw [Context.follow]
        rcases found : ctx.directory.at? actor with _ | ⟨someone, target⟩
        · exact hush
        · rw [found] at known
          cases known
          exact hush.request
      | _ => cases asks

/-- Handing an event to a listener. -/
theorem deliver (args : List Value) (l : Listener Sink) :
    Hushed own caller (deliver again args ctx l) (deliver again args ctx' (l.hushed own)) := by
  obtain ⟨id, owner, _ | reaction⟩ := l
  · exact hush.updateMailbox id (· ++ [args])
  · exact (hush.note (.heard reaction.tag args)).followAll nested reaction.orders

end Hushed

/-- An event reaches the same listeners on both sides. -/
theorem Hushed.within (depth : Nat) : ∀ {ctx ctx' : Context} event target args, Hushed own caller ctx ctx' →
    Hushed own caller (dispatchWithin depth ctx event target args) (dispatchWithin depth ctx' event target args) := by
  induction depth with
  | zero => exact fun _ _ _ hush => hush
  | succ depth ih =>
    intro ctx ctx' event target args hush
    have heard : ctx'.bus.listeners event target = (ctx.bus.listeners event target).map (Listener.hushed own) := by
      obtain ⟨bus, -⟩ := hush
      exact bus.listeners event target
    rw [dispatchWithin, dispatchWithin, heard]
    generalize ctx.bus.listeners event target = listeners
    clear heard
    induction listeners generalizing ctx ctx' with
    | nil => exact hush
    | cons l rest step => exact step (hush.deliver ih args l)

/-- Hosts leave the same behind when they carry out their orders without the requests. -/
theorem Hushed.obey (hush : Hushed own caller ctx ctx') (orders : List Order) :
    Hushed own caller (ctx.obey orders) (ctx'.obey (hushedAll own orders)) :=
  hush.followAll (Hushed.within _) orders

end Context
end BehaviorTree
