import BehaviorTree.Tick.Node

/-!
Ticking a tree by descending from its root every time. What is saved between two ticks is a tree
of its own: an active node remembers what it needs, and which child is active with what that child
remembers. A node that is met on the way down first looks at the deadline it armed, then has its
active child ticked, and acts on the verdict by the same rule, `heed`, by which it acts on the
verdict of a child that it has just ticked afresh. A Parallel node does so for every child that
has not completed.
-/

namespace BehaviorTree.Descent

open Visit (Iteration limit?)

/-- What an active node remembers besides the state of its child. -/
inductive Memory where
  | nothing
  /-- The iteration under way. -/
  | round (it : Iteration)
  /-- Attempts that have ended. -/
  | attempts (count : Nat)
  /-- Time at which something is over. -/
  | until (time : Float)
  /-- The listener whose events are handled. -/
  | mailbox (listener : Nat)

mutual

/-- The saved state of an active node. -/
inductive Active where
  /-- No child is active. -/
  | resting (memory : Memory)
  /-- One child is active. -/
  | over (memory : Memory) (child : Nat) (state : Active)
  /-- The children of a Parallel node. -/
  | beside (shares : List Share)

/-- A child of a Parallel node. -/
inductive Share where
  | settled (verdict : Verdict)
  | active (state : Active)

end

mutual

/-- Listeners of the listening nodes in a saved state. -/
def Active.listeners : Active → List Nat
  | .resting memory => memoryListeners memory
  | .over memory _ state => memoryListeners memory ++ state.listeners
  | .beside shares => shareListeners shares
where
  memoryListeners : Memory → List Nat
    | .mailbox listener => [listener]
    | _ => []

/-- Listeners held by the share of a child. -/
def Share.listeners : Share → List Nat
  | .settled _ => []
  | .active state => state.listeners

/-- Listeners held by the shares of the children. -/
def shareListeners : List Share → List Nat
  | [] => []
  | share :: rest => share.listeners ++ shareListeners rest

end

/-- How deep the active nodes are nested, those beside each other not counted. -/
def Active.depth : Active → Nat
  | .resting _ => 1
  | .over _ _ state => state.depth + 1
  | .beside _ => 1

/-- What ticking a node led to. -/
inductive Report where
  | done (verdict : Verdict)
  | running (state : Active)

/-- The status that a report stands for. -/
def Report.status : Report → Status
  | done verdict => verdict.status
  | running _ => .running

/-- What the parent keeps of a child that has reported. -/
def Report.share : Report → Share
  | done verdict => .settled verdict
  | running state => .active state

/-- Ticks a node afresh or on from a saved state, below the nodes of a path. -/
abbrev Ticker := Option Active → Path → TickM Report

/-- What a node does next. -/
inductive Move where
  | finish (verdict : Verdict)
  /-- Enters a child afresh. -/
  | enter (child : Nat) (memory : Memory)
  /-- Runs on with no child active. -/
  | rest (memory : Memory)

/-! ### The rules of the nodes -/

section

variable (visit : Visit)

/-- Sequence and Selector enter their children one after another. -/
def nextChild (stop : Verdict) (i : Nat) : Move :=
  if i < visit.node.children.length then .enter i .nothing else .finish stop.invert

/-- The child that the condition of an IfElse node chooses; a missing one counts as success. -/
def chosenChild (condition : Verdict) : Move :=
  let i := match condition with
    | .success => 1
    | .failure => 2
  if i < visit.node.children.length then .enter i .nothing else .finish .success

/-- The next child of an iteration. After the last one, the next iteration is due in the next
tick, if there is one. -/
def nextInRound (it : Iteration) (i : Nat) : Move :=
  let next := { it with index := it.index + 1 }
  if i < visit.node.children.length then .enter i (.round it)
  else if next.isOver then .finish .success
  else .rest (.round next)

/-- The first iteration. The elements to go through are those that the input has now. -/
def firstRound : TickM Iteration :=
  match visit.node.kind with
  | .loop => do
    let given := (← visit.input? 0).bind Value.int?
    return ⟨0, (given.or (visit.node.int? "count")).bind limit?, []⟩
  | _ => do
    let items := ((← visit.input? 0).bind Value.array?).getD []
    return ⟨0, some items.length, items⟩

/-- What is written when an iteration begins. -/
def writeRound (it : Iteration) : TickM Unit :=
  match visit.node.kind with
  | .loop => visit.setOutput 0 (.ofNat it.index)
  | _ => do
    match it.items[it.index]? with
    | some item =>
      visit.setOutput 0 item
      visit.setOutput 1 (.ofNat it.index)
    | none => pure ()

/-- Begins an iteration, unless all have been made. -/
def startRound (it : Iteration) : TickM Move := do
  if it.isOver then return .finish .success
  writeRound visit it
  return nextInRound visit it 0

/-- Enters the child for the next event, if one waits. -/
def nextEvent (listener : Nat) : TickM Move := do
  match ← Visit.takeEvent listener with
  | none => return .rest (.mailbox listener)
  | some args =>
    visit.writeArguments args
    return .enter 0 (.mailbox listener)

/-- Whom the events must be addressed to that a node listens to. -/
def whom : TickM Target :=
  match visit.node.kind with
  | .listen => do
    match (← visit.input? 0).bind Value.text? with
    | some name => return .named name
    | none => return .everyone
  | _ => do return (← TickM.actor).target

/-- Begins to listen. -/
def startListening (target : Target) : TickM Move := do
  let scene ← get
  let event := (visit.node.text? "event").getD ""
  let (listener, context) := scene.context.subscribe event target scene.actor.caller
  set { scene with context }
  nextEvent visit listener

/-- Waits for a time. -/
def waitUntil (time : Float) : TickM Move := do
  return if time ≤ (← TickM.now) then .finish .success else .rest (.until time)

/-- Runs the child once a time has come. -/
def delayUntil (time : Float) : TickM Move := do
  return if (← TickM.now) < time then .rest (.until time) else .enter 0 .nothing

/-- What a node without children decided. -/
def leafMove : Step → Move
  | .finish verdict => .finish verdict
  | .suspend .. => .rest .nothing

/-- How a node of a kind begins on a fresh tick. -/
def start : Kind → TickM Move
  | .sequence => return nextChild visit .failure 0
  | .selector => return nextChild visit .success 0
  | .loop => do startRound visit (← firstRound visit)
  | .foreach => do startRound visit (← firstRound visit)
  | .once => do
    if visit.node.id ∈ (← TickM.actor).completed then return .finish .failure
    return .enter 0 .nothing
  | .repeatUntil _ => return .enter 0 (.attempts 0)
  | .timeout => do
    return .enter 0 (.until ((← TickM.now) + (visit.node.number? "time").getD 0.0))
  | .delay => do delayUntil ((← TickM.now) + (visit.node.number? "time").getD 0.0)
  | .listen => do startListening visit (← whom visit)
  | .listenTree => do startListening visit (← whom visit)
  | .wait => do
    let given := (← visit.input? 0).bind Value.number?
    waitUntil ((← TickM.now) + (given.or (visit.node.number? "time")).getD 0.0)
  | .check => leafMove <$> visit.check
  | .isNull => leafMove <$> visit.isNull
  | .notNull => leafMove <$> visit.notNull
  | .isStatus => leafMove <$> visit.isStatus
  | .calculate => leafMove <$> visit.calculate
  | .constant => leafMove <$> visit.constant
  | .push => leafMove <$> visit.push
  | .clear => leafMove <$> visit.clear
  | .log => leafMove <$> visit.log
  | .now => leafMove <$> visit.now
  | .extension e => leafMove <$> visit.extension e
  | _ => return .enter 0 .nothing

/-- How an active node goes on when no child is active. -/
def goOn (kind : Kind) : Memory → TickM Move
  | .round it => startRound visit it
  | .attempts count => return .enter 0 (.attempts count)
  | .mailbox listener => nextEvent visit listener
  | .until time => if kind = .wait then waitUntil time else delayUntil time
  | .nothing => return .enter 0 .nothing

/-- A failed child ends all iterations. -/
def heedInRound : Memory → Nat → Verdict → Move
  | .round it, child, .success => nextInRound visit it (child + 1)
  | _, _, verdict => .finish verdict

/-- An attempt that did not end as wanted is followed by another in the next tick, up to the
limit. -/
def heedAttempt (wanted : Verdict) : Memory → Verdict → Move
  | .attempts count, verdict =>
    let limit := (visit.node.int? "maxLoop").bind limit?
    if verdict = wanted then .finish .success
    else if limit.any (· ≤ count + 1) then .finish .failure
    else .rest (.attempts (count + 1))
  | _, verdict => .finish verdict

/-- A node that listens once ends with its child; any other turns to the next event. -/
def heedEvent : Memory → Verdict → TickM Move
  | .mailbox listener, verdict => do
    if (visit.node.flag? "once").getD false then
      Visit.unsubscribe listener
      return .finish verdict
    nextEvent visit listener
  | _, verdict => return .finish verdict

/-- An assertion cuts the run short when the child fails. -/
def heedAssertion : Verdict → TickM Move
  | .success => return .finish .success
  | .failure => visit.fail (Visit.assertionError visit.node)

/-- How a node of a kind acts on the verdict of a child, whether it has just ticked that child
afresh or the child was active before. -/
def heed (kind : Kind) (memory : Memory) (child : Nat) (verdict : Verdict) : TickM Move :=
  match kind with
  | .sequence =>
    return if verdict = .failure then .finish .failure else nextChild visit .failure (child + 1)
  | .selector =>
    return if verdict = .success then .finish .success else nextChild visit .success (child + 1)
  | .ifElse => return if child = 0 then chosenChild visit verdict else .finish verdict
  | .loop => return heedInRound visit memory child verdict
  | .foreach => return heedInRound visit memory child verdict
  | .inverter => return .finish verdict.invert
  | .alwaysSuccess => return .finish .success
  | .alwaysFail => return .finish .failure
  | .alwaysRunning => return .rest .nothing
  | .assert => heedAssertion visit verdict
  | .repeatUntil wanted => return heedAttempt visit wanted memory verdict
  | .once => do
    TickM.updateActor fun actor =>
      { actor with completed := visit.node.id :: actor.completed }
    return .finish verdict
  | .listen => heedEvent visit memory verdict
  | .listenTree => heedEvent visit memory verdict
  | _ => return .finish verdict

/-! ### The descent -/

/-- How often a node can enter a child in one tick: each child once, or once for every event that
waits. -/
def turns (ctx : Context) : Move → Nat
  | .enter _ (.mailbox listener) => visit.node.children.length + (ctx.queue listener).length
  | _ => visit.node.children.length

/-- Carries out a move: a child that is entered is ticked, and its verdict heeded. A node would fail
if its turns ran out, but it has as many as it can use. -/
def drive (children : List Ticker) : Nat → Move → TickM Report
  | _, .finish verdict => return .done verdict
  | _, .rest memory => return .running (.resting memory)
  | 0, .enter _ _ => return .done .failure
  | turns + 1, .enter i memory => do
    match children[i]? with
    | none => visit.fail (.noChild visit.node.name visit.node.id)
    | some tick =>
      match ← tick none visit.path with
      | .running state => return .running (.over memory i state)
      | .done verdict => drive children turns (← heed visit visit.node.kind memory i verdict)

/-- Carries out a move within the turns that the node has for it. -/
def carryOut (children : List Ticker) (move : Move) : TickM Report := do
  drive visit children (turns visit (← TickM.context) move) move

/-- Ticks a child of a Parallel node, which has a path of its own; a fault is raised where the
Parallel node stands. -/
def tickBeside (tick : Ticker) (state : Option Active) : TickM Share := do
  let report ← tryCatch (tick state []) fun fault => throw ⟨fault.error, visit.path.length⟩
  return report.share

/-- Ticks a child of a Parallel node unless it has completed. -/
def tickShare (tick : Ticker) : Option Share → TickM Share
  | none => tickBeside visit tick none
  | some (.settled verdict) => return .settled verdict
  | some (.active state) => tickBeside visit tick (some state)

/-- Ticks every child of a Parallel node that has not completed, in order. -/
def tickShares : List Ticker → List (Option Share) → TickM (List Share)
  | tick :: ticks, share :: shares => do
    let share ← tickShare visit tick share
    return share :: (← tickShares ticks shares)
  | _, _ => return []

/-- Whether a share is that of a child that has completed. -/
def isSettled : Share → Bool
  | .settled _ => true
  | .active _ => false

/-- A Parallel node succeeds when all its children have completed. -/
def tickAllBeside (children : List Ticker) (shares : List (Option Share)) : TickM Report := do
  let shares ← tickShares visit children shares
  return if shares.all isSettled then .done .success else .running (.beside shares)

/-- One execution of a node, which records what it reports. -/
def act (x : TickM Report) : TickM Report := do
  let node := visit.node
  TickM.noteDebug (.entered node.name node.id (visit.path.length - 1))
  let report ← x
  TickM.noteDebug (.left node.name node.id report.status)
  TickM.updateActor fun actor => { actor with last := report.status }
  return report

/-- The deadline that an active node armed. -/
def armed? (kind : Kind) : Memory → Option Float
  | .until time => if kind = .timeout then some time else none
  | _ => none

/-- A node whose deadline has come gives up its child and fails. -/
def expire (state : Active) : TickM Report := do
  let node := visit.node
  TickM.noteDebug (.deadlineExpired node.name (← TickM.now))
  release state.listeners
  act visit do
    TickM.note (.timedOut node.name node.id)
    return .done .failure

/-- Ticks a node: afresh, or on from its saved state. -/
def visitNode (children : List Ticker) : Option Active → TickM Report
  | none =>
    if visit.node.kind = .parallel then
      act visit (tickAllBeside visit children (children.map fun _ => none))
    else act visit do carryOut visit children (← start visit visit.node.kind)
  | some (.resting memory) => act visit do carryOut visit children (← goOn visit visit.node.kind memory)
  | some (.beside shares) => act visit (tickAllBeside visit children (shares.map some))
  | some (.over memory i state) => do
    let now ← TickM.now
    if (armed? visit.node.kind memory).any (· ≤ now) then expire visit state
    else
      match children[i]? with
      | none => visit.fail (.noChild visit.node.name visit.node.id)
      | some tick =>
        match ← tick (some state) visit.path with
        | .running state =>
          TickM.updateActor fun actor => { actor with last := .running }
          return .running (.over memory i state)
        | .done verdict =>
          act visit do
            carryOut visit children (← heed visit visit.node.kind memory i verdict)

end

mutual

/-- Ticks a node by descending from it. -/
def tick : Node → Ticker
  | ⟨id, kind, name, desc, args, input, output, children⟩, state, path =>
    let visit : Visit :=
      { node := ⟨id, kind, name, desc, args, input, output, children⟩
        progress := none, children := [], tasks := [], path := path ++ [id] }
    visitNode visit (tickAll children) state

/-- The tickers of the children, each by descent. -/
def tickAll : List Node → List Ticker
  | [] => []
  | child :: rest => tick child :: tickAll rest

end

end BehaviorTree.Descent
