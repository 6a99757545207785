import BehaviorTree.Tick.Leaf
import BehaviorTree.Tick.Decorator

/-!
The nodes that hosts add. Several of them misuse what a node may keep between ticks, which shows
how a run deals with it.
-/

namespace BehaviorTree.Visit

/-- Whole number to go on from; other progress is not understood. -/
def resumedCount? (visit : Visit) : TickM (Option Int) := do
  match visit.progress with
  | none => return none
  | some (.count n) => return some n
  | some _ => visit.badResume

/-- The listed result for a tick, the last one counting from then on. -/
def listedResult (results : Option Value) (count : Int) : Status :=
  let items := ((results.bind Value.array?).getD [])
  let item := if 0 ≤ count then (items[count.toNat]?).or items.getLast? else items.getLast?
  ((item.bind Value.text?).bind Status.ofName?).getD .success

/-- Reports the listed results one after another, counting the ticks in the output variable or, if
none is wired, in its progress. -/
def ticks (visit : Visit) : TickM Step := do
  let resumed ← visit.resumedCount?
  let count ←
    if (visit.node.outputVar? 0).isSome then do
      pure (((← visit.output? 0).bind Value.int?).getD 0)
    else pure (resumed.getD 0)
  visit.setOutput 0 (.ofInt (count + 1))
  match (listedResult (visit.node.arg? "results") count).verdict? with
  | some verdict => return .finish verdict
  | none => return .keep (.count (count + 1))

/-- Runs for a number of ticks. -/
def busy (visit : Visit) : TickM Step := do
  let spent := (← visit.resumedCount?).getD 0
  return if spent < (visit.node.int? "ticks").getD 0 then .keep (.count (spent + 1)) else .success

/-- Dispatches an event to the target named by the first input. -/
def shout (visit : Visit) : TickM Step := do
  match (← visit.input? 0).bind Value.text? with
  | none => return .failure
  | some name =>
    let args := (← visit.input? 1).toList
    let scene ← get
    let event := (visit.node.text? "event").getD ""
    let (called, context) := scene.context.dispatch event (.named name) args
    set { scene with context }
    visit.setOutput 0 (.ofNat called)
    return .success

/-- Goes on only if it is told to look at its progress as a number, and there is none yet. -/
def hold (visit : Visit) : TickM Step := do
  if (visit.node.flag? "typed").getD false then
    match ← visit.resumedCount? with
    | some _ => return .success
    | none => return .keep .entered
  else
    match visit.progress with
    | some _ => return .success
    | none => return .keep .entered

/-- Keeps a remark where it will look for a number. -/
def confused (visit : Visit) : TickM Step := do
  match ← visit.resumedCount? with
  | some _ => return .success
  | none => return .keep (.remark "confused")

/-- Limits the time of its child, and asks for its verdict even when the time is over. -/
def guarded (visit : Visit) : TickM Step := do
  match visit.progress with
  | some _ => return .finish (← visit.childVerdict)
  | none =>
    let deadline := (← TickM.now) + (visit.node.number? "time").getD 0.0
    match ← visit.tickChild 0 with
    | .running above => return .suspend .entered (some deadline) above
    | .done verdict => return .finish verdict

/-- Notes the status of the last node, that of the tree and the path. -/
def peek (visit : Visit) : TickM Step := do
  let actor ← TickM.actor
  TickM.note (.peek visit.node.id visit.node.desc actor.last actor.status visit.path)
  return .success

/-- Notes that it was ticked. -/
def probe (visit : Visit) : TickM Step := do
  TickM.note (.probe visit.node.name visit.node.id)
  return .success

/-- Writes its input, scaled by an argument. -/
def sendToArg (visit : Visit) : TickM Step := do
  let x := ((← visit.input? 0).bind Value.number?).getD 0.0
  visit.setOutput 0 (.number (x * (visit.node.number? "scale").getD 1.0))
  return .success

/-- Reports what its argument names. -/
def declared (visit : Visit) : TickM Step := do
  match (visit.node.text? "returns").bind Status.ofName? with
  | some .running => return .keep .entered
  | some .failure => return .failure
  | _ => return .success

/-- Stores the value of an argument that is taken for an expression. -/
def eval (visit : Visit) : TickM Step := do
  visit.setOutput 0 (← visit.evaluate "code")
  return .success

/-- The ticks of the kinds of a host. -/
def extension (visit : Visit) : Extension → TickM Step
  | .ticks => visit.ticks
  | .busy => visit.busy
  | .shout => visit.shout
  | .probe _ => visit.probe
  | .raise => visit.fail (.custom ((visit.node.text? "message").getD "raised"))
  | .eval => visit.eval
  | .hold => visit.hold
  | .confused => visit.confused
  | .guarded => visit.guarded
  | .peek => visit.peek
  | .sendToArg => visit.sendToArg
  | .fussy => return .success
  | .fakeNow => do
    visit.setOutput 0 (.text "fake")
    return .success
  | .declared _ => visit.declared

end BehaviorTree.Visit
