import BehaviorTree.Event.Reaction
import BehaviorTree.Expression.Cache
import BehaviorTree.Note
import BehaviorTree.Registry

/-!
What all actors share: the node types, the expressions read so far, the event bus, the clock, the
requests for interrupts, and the notes taken. Events for a listening node wait in its mailbox;
events for a host are reacted to at once, and a reaction may dispatch further events.
-/

namespace BehaviorTree

/-- The subscription of a listening node and the events it has not handled yet, oldest first. -/
structure Mailbox where
  listener : Nat
  caller : Nat
  event : String
  target : Target
  queue : List (List Value)

/-- What all actors share: the registry, the expressions read so far, the bus with its mailboxes,
the clock. -/
structure Context where
  registry : Registry
  cache : ExprCache
  bus : Bus Sink
  mailboxes : List Mailbox
  clock : Float
  /-- Number of callers that have been given out. -/
  callers : Nat
  /-- Callers whose run is to be interrupted. -/
  requests : List Nat
  /-- Caller and target of every actor that hosts know by name. -/
  directory : Index String (Nat × Target)
  notes : List Note

namespace Context

/-- A context in which nothing has happened. -/
def new (registry : Registry) : Context :=
  { registry, cache := [], bus := .empty, mailboxes := [], clock := 0.0, callers := 0
    requests := [], directory := [], notes := [] }

/-- Adds a note to the journal. -/
def note (ctx : Context) (n : Note) : Context := { ctx with notes := ctx.notes ++ [n] }

/-- Callers are numbered from one. -/
def newCaller (ctx : Context) : Nat × Context :=
  (ctx.callers + 1, { ctx with callers := ctx.callers + 1 })

/-- The expression of a source text, read once. -/
def compile (ctx : Context) (code : String) : Except ExprError Expr × Context :=
  let (result, cache) := ctx.cache.compile code
  (result, { ctx with cache })

/-- Moves the clock. -/
def advance (ctx : Context) (dt : Float) : Context := { ctx with clock := ctx.clock + dt }

/-! ### Interrupt requests -/

/-- Whether an interrupt has been asked for. -/
def isPending (ctx : Context) (caller : Nat) : Bool := caller ∈ ctx.requests

/-- Asks for an interrupt; asking twice is asking once. -/
def request (ctx : Context) (caller : Nat) : Context :=
  if caller ∈ ctx.requests then ctx else { ctx with requests := caller :: ctx.requests }

/-- Forgets that an interrupt was asked for. -/
def dropRequest (ctx : Context) (caller : Nat) : Context :=
  { ctx with requests := ctx.requests.filter (· ≠ caller) }

/-! ### Subscriptions -/

/-- The target that an address stands for; an actor nobody knows stands for everyone. -/
def resolve (ctx : Context) : Address → Target
  | .everyone => .everyone
  | .named name => .named name
  | .ofActor actor => ((ctx.directory.at? actor).map Prod.snd).getD .everyone

/-- Registers a host's listener; gives its id. -/
def on (ctx : Context) (event : String) (target : Target) (caller : Nat) (reaction : Reaction) :
    Nat × Context :=
  let (id, bus) := ctx.bus.on event target caller (.host reaction)
  (id, { ctx with bus })

/-- Removes the listeners of a caller to an event. -/
def off (ctx : Context) (event : String) (caller : Nat) : Context :=
  { ctx with bus := ctx.bus.off event caller }

/-- Removes all listeners of a caller. -/
def offCaller (ctx : Context) (caller : Nat) : Context :=
  { ctx with bus := ctx.bus.offCaller caller }

/-- Removes one listener from its place. -/
def offListener (ctx : Context) (id : Nat) (event : String) (target : Target) : Context :=
  { ctx with bus := ctx.bus.offListener id event target }

/-- Opens a mailbox for a listening node; gives the id of its listener. -/
def subscribe (ctx : Context) (event : String) (target : Target) (caller : Nat) : Nat × Context :=
  let (id, bus) := ctx.bus.on event target caller .mailbox
  (id, { ctx with bus, mailboxes := ctx.mailboxes ++ [⟨id, caller, event, target, []⟩] })

/-- The mailbox that a listener fills. -/
def mailbox? (ctx : Context) (id : Nat) : Option Mailbox :=
  ctx.mailboxes.find? fun box => box.listener = id

/-- Events waiting in a mailbox. -/
def queue (ctx : Context) (id : Nat) : List (List Value) :=
  ((ctx.mailbox? id).map Mailbox.queue).getD []

/-- Changes the queue of one mailbox. -/
def updateMailbox (ctx : Context) (id : Nat) (update : List (List Value) → List (List Value)) :
    Context :=
  { ctx with
    mailboxes := ctx.mailboxes.map fun box =>
      if box.listener = id then { box with queue := update box.queue } else box }

/-- Closes a mailbox and ends its subscription. -/
def unsubscribe (ctx : Context) (id : Nat) : Context :=
  match ctx.mailbox? id with
  | none => ctx
  | some box =>
    { ctx with
      bus := ctx.bus.offListener id box.event box.target
      mailboxes := ctx.mailboxes.filter fun b => b.listener ≠ id }

/-- Closes all mailboxes of a caller. -/
def unsubscribeAll (ctx : Context) (caller : Nat) : Context :=
  ((ctx.mailboxes.filter fun box => box.caller = caller).map Mailbox.listener).foldl unsubscribe ctx

/-! ### Events -/

/-- Dispatching as it is open to orders. -/
abbrev Dispatch := Context → String → Target → List Value → Context

/-- Carries out one order of a host; further dispatches go by `again`. -/
def follow (again : Dispatch) (ctx : Context) : Order → Context
  | .interrupt actor =>
    match ctx.directory.at? actor with
    | some (caller, _) => ctx.request caller
    | none => ctx
  | .offCaller actor =>
    match ctx.directory.at? actor with
    | some (caller, _) => ctx.offCaller caller
    | none => ctx
  | .off actor event =>
    match ctx.directory.at? actor with
    | some (caller, _) => ctx.off event caller
    | none => ctx
  | .on actor event address tag orders =>
    match ctx.directory.at? actor with
    | some (caller, _) => (ctx.on event (ctx.resolve address) caller ⟨tag, orders⟩).2
    | none => ctx
  | .dispatch event args address => again ctx event (ctx.resolve address) args
  | .advance dt => ctx.advance dt

/-- Carries out the orders of a host in turn. -/
def followAll (again : Dispatch) (ctx : Context) (orders : List Order) : Context :=
  orders.foldl (follow again) ctx

/-- Hands an event to one listener. -/
def deliver (again : Dispatch) (args : List Value) (ctx : Context) (l : Listener Sink) : Context :=
  match l.sink with
  | .mailbox => ctx.updateMailbox l.id (· ++ [args])
  | .host reaction => followAll again (ctx.note (.heard reaction.tag args)) reaction.orders

/-- Dispatches an event to those who are listening when it begins. Events dispatched by reactions
are nested in it, up to a depth. -/
def dispatchWithin : Nat → Dispatch
  | 0, ctx, _, _, _ => ctx
  | depth + 1, ctx, event, target, args =>
    (ctx.bus.listeners event target).foldl (deliver (dispatchWithin depth) args) ctx

/-- How deep dispatched events may be nested. -/
def dispatchDepth : Nat := 10000

/-- Dispatches an event; gives the number of listeners that were called. -/
def dispatch (ctx : Context) (event : String) (target : Target) (args : List Value) :
    Nat × Context :=
  ((ctx.bus.listeners event target).length, dispatchWithin dispatchDepth ctx event target args)

/-- Follows orders outside of any event. -/
def obey (ctx : Context) (orders : List Order) : Context :=
  followAll (dispatchWithin dispatchDepth) ctx orders

end Context
end BehaviorTree
