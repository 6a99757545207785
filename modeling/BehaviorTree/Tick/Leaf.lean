import BehaviorTree.Tick.Basic

/-!
Conditions and actions: nodes without children. They look at the variables of the actor, at the
clock and at what the node before them reported, and write variables. Only Wait takes more than
one tick.
-/

namespace BehaviorTree.Visit

/-- A step that completes as a test says. -/
def verdictOf (pass : Bool) : Step := .finish (.ofBool pass)

/-! ### Conditions -/

/-- Succeeds when the expression is truthy. -/
def check (visit : Visit) : TickM Step := do return verdictOf (← visit.evaluate "value").truthy

/-- Succeeds when the variable is unset or null. -/
def isNull (visit : Visit) : TickM Step := do
  return verdictOf (((← visit.input? 0).map Value.isNull).getD true)

/-- Succeeds when the variable holds something other than null. -/
def notNull (visit : Visit) : TickM Step := do
  return verdictOf (((← visit.input? 0).map fun v => !v.isNull).getD false)

/-- Succeeds when the node that was executed last reported the given status. -/
def isStatus (visit : Visit) : TickM Step := do
  let expected := (visit.node.text? "status").bind Status.ofName?
  return verdictOf (expected == some (← TickM.actor).last)

/-! ### Actions -/

/-- Stores the value of an expression. -/
def calculate (visit : Visit) : TickM Step := do
  visit.setOutput 0 (← visit.evaluate "value")
  return .success

/-- Stores a constant. -/
def constant (visit : Visit) : TickM Step := do
  visit.setOutput 0 ((visit.node.arg? "value").getD .null)
  return .success

/-- The array to append to; an unset variable counts as an empty one, and there is none in a
variable that holds something else. -/
def appendable? : Option Value → Option (List Value)
  | none => some []
  | some .null => some []
  | some (.array items) => some items
  | some _ => none

/-- Appends the input to the array in the output variable. -/
def push (visit : Visit) : TickM Step := do
  let v := (← visit.input? 0).getD .null
  match appendable? (← visit.output? 0) with
  | some items =>
    visit.setOutput 0 (.array (items ++ [v]))
    return .success
  | none => return .failure

/-- Removes the wired variables, and all temporary ones if it is told to. -/
def clear (visit : Visit) : TickM Step := do
  TickM.updateActor fun actor => (visit.node.output.filterMap id).foldl Actor.remove actor
  if (visit.node.flag? "temp").getD false then TickM.updateActor Actor.clearTemporaries
  return .success

/-- The message followed by the inputs, an unset one as null. -/
def logText (message : String) (inputs : List (Option Value)) : String :=
  inputs.foldl (fun text v => text ++ " " ++ (v.getD .null).display) message

/-- Logs a message. -/
def log (visit : Visit) : TickM Step := do
  let node := visit.node
  let actor ← TickM.actor
  let inputs := (List.range node.input.length).map (actor.input? node)
  let level := ((node.text? "level").bind Level.ofName?).getD .info
  TickM.note (.logged level node.id (logText ((node.text? "message").getD "") inputs))
  return .success

/-- Stores the time. -/
def now (visit : Visit) : TickM Step := do
  visit.setOutput 0 (.number (← TickM.now))
  return .success

/-- Runs until a time has passed. A number in the input variable counts before the argument. -/
def wait (visit : Visit) : TickM Step := do
  let now ← TickM.now
  let deadline ←
    match visit.progress with
    | some (.deadline time) => pure time
    | some _ => visit.badResume
    | none =>
      let given := (← visit.input? 0).bind Value.number?
      pure (now + (given.or (visit.node.number? "time")).getD 0.0)
  return if deadline ≤ now then .success else .keep (.deadline deadline)

end BehaviorTree.Visit
