import BehaviorTree.Index

/-!
Who listens to what. A listener is registered for the events of one name that are addressed to one
target, and belongs to a caller. Listeners are found by event and target; a second table from
callers to the places of their listeners makes it cheap to remove all that a caller owns. Neither
table keeps an empty entry.
-/

namespace BehaviorTree

/-- Whom an event is addressed to. -/
inductive Target where
  /-- Everyone; what is not addressed to anyone in particular. -/
  | everyone
  | named (name : String)
  /-- An actor without a name of its own. -/
  | caller (id : Nat)
deriving DecidableEq, Repr

/-- One subscription: what to do with an event, and whose it is. -/
structure Listener (σ : Type) where
  id : Nat
  caller : Nat
  sink : σ
deriving DecidableEq

/-- The listeners by event and target, and where each caller has some. -/
structure Bus (σ : Type) where
  byEvent : Index String (Index Target (List (Listener σ)))
  byCaller : Index Nat (List (String × Target))
  /-- Number of subscriptions made so far; a listener's id is its number among them. -/
  issued : Nat

namespace Bus

variable {σ : Type}

/-- A bus that nobody listens on. -/
def empty : Bus σ := ⟨[], [], 0⟩

/-- Listeners for an event at a target, in the order of their subscription. -/
def listeners (bus : Bus σ) (event : String) (target : Target) : List (Listener σ) :=
  ((bus.byEvent.at? event).bind fun targets => Index.at? targets target).getD []

/-- Where a caller has listeners. -/
def places (bus : Bus σ) (caller : Nat) : List (String × Target) :=
  (bus.byCaller.at? caller).getD []

/-- Subscribes; gives the id of the new listener. -/
def on (bus : Bus σ) (event : String) (target : Target) (caller : Nat) (sink : σ) : Nat × Bus σ :=
  let id := bus.issued + 1
  let targets := (bus.byEvent.at? event).getD []
  let here := (Index.at? targets target).getD []
  let places := bus.places caller
  (id,
    { byEvent := bus.byEvent.put event (Index.put targets target (here ++ [⟨id, caller, sink⟩]))
      byCaller := bus.byCaller.put caller
        (if (event, target) ∈ places then places else places ++ [(event, target)])
      issued := id })

/-- Keeps only some of the listeners at one place. -/
def retain (bus : Bus σ) (event : String) (target : Target) (keep : Listener σ → Bool) : Bus σ :=
  match bus.byEvent.at? event with
  | none => bus
  | some targets =>
    let targets :=
      match Index.at? targets target with
      | none => targets
      | some here =>
        if (here.filter keep).isEmpty then Index.remove targets target
        else Index.put targets target (here.filter keep)
    { bus with
      byEvent := if targets.isEmpty then bus.byEvent.remove event else bus.byEvent.put event targets }

/-- Records where a caller still has listeners. -/
def setPlaces (bus : Bus σ) (caller : Nat) (places : List (String × Target)) : Bus σ :=
  { bus with
    byCaller := if places.isEmpty then bus.byCaller.remove caller else bus.byCaller.put caller places }

/-- Removes all listeners of a caller at the given places. -/
def retainOthers (bus : Bus σ) (caller : Nat) (places : List (String × Target)) : Bus σ :=
  places.foldl (fun bus place => bus.retain place.1 place.2 fun l => l.caller ≠ caller) bus

/-- Removes the caller's listeners to an event, whatever their targets. -/
def off (bus : Bus σ) (event : String) (caller : Nat) : Bus σ :=
  match bus.byCaller.at? caller with
  | none => bus
  | some places =>
    (bus.setPlaces caller (places.filter fun place => place.1 ≠ event)).retainOthers caller
      (places.filter fun place => place.1 = event)

/-- Removes all listeners of a caller. -/
def offCaller (bus : Bus σ) (caller : Nat) : Bus σ :=
  match bus.byCaller.at? caller with
  | none => bus
  | some places =>
    { bus with byCaller := bus.byCaller.remove caller }.retainOthers caller places

/-- Removes one listener at the given place, if it is there. -/
def offListener (bus : Bus σ) (id : Nat) (event : String) (target : Target) : Bus σ :=
  let owner := ((bus.listeners event target).find? fun l => l.id = id).map Listener.caller
  let bus := bus.retain event target fun l => l.id ≠ id
  match owner with
  | none => bus
  | some caller =>
    if (bus.listeners event target).any fun l => l.caller = caller then bus
    else
      match bus.byCaller.at? caller with
      | none => bus
      | some places => bus.setPlaces caller (places.filter fun place => place ≠ (event, target))

/-- All listeners, whatever they listen to. -/
def all (bus : Bus σ) : List (Listener σ) :=
  bus.byEvent.flatMap fun entry => entry.2.flatMap Prod.snd

/-- How many listeners there are. -/
def count (bus : Bus σ) : Nat := bus.all.length

/-- Whether a caller has a listener. -/
def hasCaller (bus : Bus σ) (caller : Nat) : Bool := (bus.byCaller.at? caller).isSome

end Bus
end BehaviorTree
