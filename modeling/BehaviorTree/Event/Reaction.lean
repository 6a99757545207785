import BehaviorTree.Event.Bus
import BehaviorTree.Value.Basic

/-!
What a host does when an event reaches one of its listeners. A reaction is noted under its tag and
then carries out its orders, which may reach the bus, the clock and the actors themselves.
-/

namespace BehaviorTree

/-- A target as a host writes it down; the target of an actor is looked up when it is needed. -/
inductive Address where
  | everyone
  | named (name : String)
  | ofActor (actor : String)
deriving DecidableEq, Repr

/-- What a host can have its listener do when it is called. -/
inductive Order where
  /-- Asks for an interrupt of the actor's run. -/
  | interrupt (actor : String)
  /-- Removes all listeners of the actor. -/
  | offCaller (actor : String)
  /-- Removes the actor's listeners to an event. -/
  | off (actor event : String)
  /-- Subscribes on behalf of the actor. -/
  | on (actor event : String) (address : Address) (tag : String) (orders : List Order)
  | dispatch (event : String) (args : List Value) (address : Address)
  /-- Moves the clock. -/
  | advance (dt : Float)

/-- What a listener of a host does: it notes the call under its tag and carries out its orders. -/
structure Reaction where
  tag : String
  orders : List Order

/-- Where an event goes: into the mailbox of a listening node, or to a host. -/
inductive Sink where
  | mailbox
  | host (reaction : Reaction)

end BehaviorTree
