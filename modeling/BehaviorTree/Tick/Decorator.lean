import BehaviorTree.Tick.Composite

/-!
Nodes with one child. They change its verdict, decide when and how often it runs, or run it for
every event that reaches them.
-/

namespace BehaviorTree.Visit

/-- Ticks the only child, or takes up its verdict when it has completed. -/
def onlyChild (visit : Visit) : TickM Outcome := do
  match visit.progress with
  | some _ => return .done (← visit.childVerdict)
  | none =>
    match visit.children with
    | tick :: _ => tick visit.path
    | [] => return .done .failure

/-! ### Verdicts -/

/-- Maps the verdict of the child. -/
def mapVerdict (visit : Visit) (f : Verdict → Verdict) : TickM Step := do
  match ← visit.onlyChild with
  | .running above => return .await .entered above
  | .done verdict => return .finish (f verdict)

/-- Answers the opposite of its child. -/
def inverter (visit : Visit) : TickM Step := visit.mapVerdict Verdict.invert

/-- Succeeds however its child completes. -/
def alwaysSuccess (visit : Visit) : TickM Step := visit.mapVerdict fun _ => .success

/-- Fails however its child completes. -/
def alwaysFail (visit : Visit) : TickM Step := visit.mapVerdict fun _ => .failure

/-- Why an assertion cuts the run short. Without a message of its own it names the child. -/
def assertionError (node : Node) : RunError :=
  match node.text? "message", node.children with
  | some message, _ => .assertion node.id message
  | none, child :: _ => .assertion node.id (child.name ++ " failed")
  | none, [] => .noChild node.name node.id

/-- Cuts the run short when the child fails. -/
def assert (visit : Visit) : TickM Step := do
  match ← visit.onlyChild with
  | .running above => return .await .entered above
  | .done .success => return .success
  | .done .failure => visit.fail (assertionError visit.node)

/-! ### Repetition -/

/-- Never completes; the child is started again in the tick after the one in which it completed. -/
def alwaysRunning (visit : Visit) : TickM Step := do
  let start : TickM Step := do
    match ← visit.tickChild 0 with
    | .running above => return .await (.restarting true) above
    | .done _ => return .keep (.restarting false)
  match visit.progress with
  | none => start
  | some (.restarting false) => start
  | some (.restarting true) =>
    let _ ← visit.childVerdict
    return .keep (.restarting false)
  | some _ => visit.badResume

/-- What follows an attempt that ended after `count` others. -/
def afterAttempt (visit : Visit) (wanted : Verdict) (count : Nat) (verdict : Verdict) : Step :=
  let limit := (visit.node.int? "maxLoop").bind limit?
  if verdict = wanted then .success
  else if limit.any (· ≤ count + 1) then .failure
  else .keep (.attempt (count + 1) false)

/-- Makes an attempt per tick until one ends as wanted, or all have been made. -/
def repeatUntil (visit : Visit) (wanted : Verdict) : TickM Step := do
  let start := fun (count : Nat) => (do
    match ← visit.tickChild 0 with
    | .running above => return .await (.attempt count true) above
    | .done verdict => return visit.afterAttempt wanted count verdict : TickM Step)
  match visit.progress with
  | none => start 0
  | some (.attempt count false) => start count
  | some (.attempt count true) => return visit.afterAttempt wanted count (← visit.childVerdict)
  | some _ => visit.badResume

/-- Lets the child complete once in the life of the actor; later ticks fail. -/
def once (visit : Visit) : TickM Step := do
  if visit.node.id ∈ (← TickM.actor).completed then return .failure
  match ← visit.onlyChild with
  | .running above => return .await .entered above
  | .done verdict =>
    TickM.updateActor fun actor => { actor with completed := visit.node.id :: actor.completed }
    return .finish verdict

/-! ### Time -/

/-- Fails if the child has not completed by its deadline. -/
def timeout (visit : Visit) : TickM Step := do
  match visit.progress with
  | some (.deadline deadline) =>
    if deadline ≤ (← TickM.now) then
      TickM.note (.timedOut visit.node.name visit.node.id)
      return .failure
    else return .finish (← visit.childVerdict)
  | some _ => visit.badResume
  | none =>
    let deadline := (← TickM.now) + (visit.node.number? "time").getD 0.0
    match ← visit.tickChild 0 with
    | .running above => return .suspend (.deadline deadline) (some deadline) above
    | .done verdict => return .finish verdict

/-- Runs the child after some time. -/
def delay (visit : Visit) : TickM Step := do
  let now ← TickM.now
  let start : TickM Step := do
    match ← visit.tickChild 0 with
    | .running above => return .await .delayed above
    | .done verdict => return .finish verdict
  match visit.progress with
  | some .delayed => return .finish (← visit.childVerdict)
  | some (.delaying deadline) =>
    if now < deadline then return .keep (.delaying deadline) else start
  | some _ => visit.badResume
  | none =>
    let deadline := now + (visit.node.number? "time").getD 0.0
    if now < deadline then return .keep (.delaying deadline) else start

/-! ### Events -/

/-- The next event of a mailbox, which is taken out of it. -/
def takeEvent (listener : Nat) : TickM (Option (List Value)) := do
  let ctx ← TickM.context
  match ctx.queue listener with
  | [] => return none
  | event :: rest =>
    TickM.updateContext (·.updateMailbox listener fun _ => rest)
    return some event

/-- Ends the subscription of a listening node that completes. -/
def unsubscribe (listener : Nat) : TickM Unit := TickM.updateContext (·.unsubscribe listener)

/-- Writes the arguments of an event to the outputs. -/
def writeArguments (visit : Visit) (args : List Value) : TickM Unit :=
  TickM.updateActor fun actor =>
    args.zipIdx.foldl (fun actor (v, i) => actor.setOutput visit.node i v) actor

/-- Runs the child for the waiting events, one after another, until it stays running or no event
is left. At most `budget` events are handled in one tick. -/
def handleEvents (visit : Visit) (isOnce : Bool) (listener : Nat) : Nat → TickM Step
  | 0 => return .keep (.listening listener false)
  | budget + 1 => do
    match ← takeEvent listener with
    | none => return .keep (.listening listener false)
    | some args =>
      visit.writeArguments args
      match ← visit.tickChild 0 with
      | .running above => return .await (.listening listener true) above
      | .done verdict =>
        if isOnce then
          unsubscribe listener
          return .finish verdict
        else handleEvents visit isOnce listener budget

/-- How many events beyond those that wait at its beginning one tick of a listening node handles;
only a child that dispatches events to its own listener brings any. -/
def furtherEvents : Nat := 1000000

/-- Runs the child for every event dispatched to the target since the node was entered. -/
def listenOn (visit : Visit) (target : Target) : TickM Step := do
  let isOnce := (visit.node.flag? "once").getD false
  let handle := fun (listener : Nat) => (do
    let waiting := ((← TickM.context).queue listener).length
    visit.handleEvents isOnce listener (waiting + furtherEvents) : TickM Step)
  match visit.progress with
  | none =>
    let scene ← get
    let event := (visit.node.text? "event").getD ""
    let (listener, context) := scene.context.subscribe event target scene.actor.caller
    set { scene with context }
    handle listener
  | some (.listening listener false) => handle listener
  | some (.listening listener true) =>
    let verdict ← visit.childVerdict
    if isOnce then
      unsubscribe listener
      return .finish verdict
    else handle listener
  | some _ => visit.badResume

/-- Listens to what is addressed to the target named by the input variable, or to everyone. -/
def listen (visit : Visit) : TickM Step := do
  match (← visit.input? 0).bind Value.text? with
  | some name => visit.listenOn (.named name)
  | none => visit.listenOn .everyone

/-- Listens to what is addressed to the actor. -/
def listenTree (visit : Visit) : TickM Step := do visit.listenOn (← TickM.actor).target

end BehaviorTree.Visit
