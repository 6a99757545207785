import BehaviorTree.Declaration

/-!
The types of nodes. The built-in ones are listed first; a host may register extensions beside
them or in their place. A kind only says what a node does: whatever a running node has to remember
lies with the actor that runs it.
-/

namespace BehaviorTree

/-- Types that a host adds. -/
inductive Extension where
  /-- Reports a listed result per tick and counts the ticks. -/
  | ticks
  /-- Runs for a number of ticks, then succeeds. -/
  | busy
  /-- Dispatches an event. -/
  | shout
  /-- Notes that it was reached; the name tells several apart. -/
  | probe (name : String)
  /-- Raises an error. -/
  | raise
  /-- Evaluates an argument that need not be an expression. -/
  | eval
  /-- Runs for one tick without keeping anything to resume with. -/
  | hold
  /-- Keeps something it does not understand when it is resumed. -/
  | confused
  /-- Limits the time of its child but asks for the child's outcome all the same. -/
  | guarded
  /-- Notes the running nodes and the state of the actor. -/
  | peek
  /-- Writes a scaled input. -/
  | sendToArg
  /-- Refuses to be loaded when it has a message. -/
  | fussy
  /-- Takes the place of the built-in clock reader. -/
  | fakeNow
  /-- Only known by its declaration; its argument `returns` names what it reports. -/
  | declared (d : Declaration)
deriving DecidableEq, Repr

/-- The kinds of nodes there are; the behaviour of each is given by its tick. -/
inductive Kind where
  | sequence
  | selector
  | parallel
  | ifElse
  | loop
  | foreach
  | inverter
  | alwaysSuccess
  | alwaysFail
  | alwaysRunning
  | assert
  | repeatUntil (wanted : Verdict)
  | timeout
  | delay
  | once
  | listen
  | listenTree
  | check
  | isNull
  | notNull
  | isStatus
  | calculate
  | constant
  | push
  | clear
  | log
  | now
  | wait
  | extension (e : Extension)
deriving DecidableEq, Repr

namespace Kind

/-- The built-in types. -/
def builtins : List Kind := [
  sequence, selector, parallel, ifElse, loop, foreach, inverter, repeatUntil .success,
  repeatUntil .failure, timeout, delay, once, assert, alwaysSuccess, alwaysFail, alwaysRunning,
  listen, listenTree, check, isNull, notNull, isStatus, calculate, constant, push, clear, log,
  now, wait]

theorem mem_builtins_iff (k : Kind) : k ∈ builtins ↔ ∀ e, k ≠ extension e := by
  cases k with
  | repeatUntil wanted => cases wanted <;> simp [builtins]
  | _ => simp [builtins]

end Kind

/-- The extensions that a host can ask for by name, besides those it declares. -/
def Extension.ofName? (name : String) : Option Extension :=
  match name with
  | "Ticks" => some .ticks
  | "Busy" => some .busy
  | "Shout" => some .shout
  | "ProbeA" => some (.probe "ProbeA")
  | "ProbeB" => some (.probe "ProbeB")
  | "Raise" => some .raise
  | "Eval" => some .eval
  | "Hold" => some .hold
  | "Confused" => some .confused
  | "Guarded" => some .guarded
  | "Peek" => some .peek
  | "SendToArg" => some .sendToArg
  | "Fussy" => some .fussy
  | "FakeNow" => some .fakeNow
  | _ => none

/-- The extensions that stand beside the built-in types unless a host says otherwise. -/
def Extension.usual : List Extension := [
  .ticks, .busy, .shout, .probe "ProbeA", .probe "ProbeB", .raise, .eval, .hold, .confused,
  .guarded, .peek, .sendToArg, .fussy]

end BehaviorTree
