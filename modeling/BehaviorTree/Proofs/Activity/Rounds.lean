import BehaviorTree.Proofs.Activity.Sweep

/-!
Sweeps in the ticks of an activation. A sweep goes on for as long as a child runs, in the ticks that go on with this
child. A node that is through with its children can run on, and then goes through them once more from its next tick
on; the ticks of an activation fall into rounds so, in each of which the node makes one sweep.
-/

namespace BehaviorTree.Descent

/-- The children that are entered in these ticks of a node. -/
def enteredIn (ticks : List Call) : List Call := (ticks.flatMap Call.made).filter fun call => call.state.isNone

/-- What ticks of a node make of a sweep, from a child on that is fresh or goes on. -/
inductive Sweeping (node : Node) (sweep : Sweep) : Nat → Option Active → List Call → Prop
  | last {i : Nat} {state : Option Active} {tick : Call} (stretch : Stretch node sweep i state tick.made tick.result) :
      Sweeping node sweep i state [tick]
  /-- A child runs, and the next tick goes on with it. -/
  | onward {i j : Nat} {state : Option Active} {saved : Active} {tick next : Call} {rest : List Call}
      (stretch : Stretch node sweep i state tick.made tick.result)
      (left : tick.result = .ok (.running (.over sweep.memory j saved)))
      (goesOn : next.state = some (.over sweep.memory j saved))
      (handed : Handed next.scene.actor.vars next.made next.left.actor.vars)
      (later : Sweeping node sweep j (some saved) (next :: rest)) : Sweeping node sweep i state (tick :: next :: rest)

/-- Ticks in which a node goes through its children once, with these variables at first. -/
structure Swept (node : Node) (sweep : Sweep) (vars : Blackboard) (ticks : List Call) : Prop where
  leg : ∀ tick ∈ ticks, Leg node sweep tick
  /-- The children are entered from the first one on, in order, and none of them twice. -/
  entered : ∃ n ≤ node.children.length, (enteredIn ticks).map Call.child = List.range n
  begins : ∀ tick ∈ ticks.head?, node.children ≠ [] → ∃ call ∈ tick.made.head?, call.child = 0 ∧ call.state = none
  /-- Every tick but the last one leaves a child running, and the next tick goes on with that child. -/
  goesOn : ticks.IsChain fun tick next => ∃ i saved, tick.result = .ok (.running (.over sweep.memory i saved)) ∧
    next.state = some (.over sweep.memory i saved) ∧ ∃ call ∈ next.made.head?, call.child = i ∧ call.state = some saved
  handed : ∀ tick ∈ ticks.head?, Handed vars tick.made tick.left.actor.vars
  handedOn : ∀ tick ∈ ticks.tail, Handed tick.scene.actor.vars tick.made tick.left.actor.vars

/-- A tick goes on with a child that runs. -/
def Call.goesOver (call : Call) : Bool :=
  match call.state with
  | some (.over ..) => true
  | _ => false

theorem Call.goesOver_iff {call : Call} :
    call.goesOver = true ↔ ∃ memory i saved, call.state = some (.over memory i saved) := by
  rw [goesOver]
  rcases call.state with _ | (memory | ⟨memory, i, saved⟩ | shares)
  · exact ⟨nofun, nofun⟩
  · exact ⟨nofun, nofun⟩
  · exact ⟨fun _ => ⟨_, _, _, rfl⟩, fun _ => rfl⟩
  · exact ⟨nofun, nofun⟩

/-- The ticks of an activation, split where the node goes on with no child running. -/
def rounds (ticks : List Call) : List (List Call) := ticks.splitBy fun _ next => next.goesOver

section

variable {node : Node} {sweep : Sweep} {i : Nat} {state : Option Active} {tick : Call} {ticks later : List Call}

/-- Ticks that go on with a child that runs make up a sweep. -/
theorem sweeping_of_chain (rules : sweep.Rules node) (own : ∀ next ∈ later, next.node = node)
    (goes : ∀ next ∈ later, next.goesOver = true) (chain : (tick :: later).IsChain Call.GoesOn)
    (stretch : Stretch node sweep i state tick.made tick.result) : Sweeping node sweep i state (tick :: later) := by
  induction later generalizing i state tick with
  | nil => exact .last stretch
  | cons next rest ih =>
    obtain ⟨⟨active, left, saved⟩, chain⟩ := List.isChain_cons_cons.mp chain
    obtain ⟨rfl, own⟩ := List.forall_mem_cons.mp own
    obtain ⟨onto, goes⟩ := List.forall_mem_cons.mp goes
    obtain ⟨memory, j, inner, same⟩ := Call.goesOver_iff.mp onto
    obtain rfl := Option.some.inj (saved.symm.trans same)
    obtain ⟨rfl, lt⟩ := stretch.left left
    obtain ⟨onward, handed⟩ := Call.sweeps_on rules saved lt
    exact .onward stretch left saved handed (ih own goes chain onward)

namespace Sweeping

/-- Every tick of a sweep is a leg of it. -/
theorem leg (rules : sweep.Rules node) (own : ∀ tick ∈ ticks, tick.node = node) (begins : state = none → i = 0)
    (sweeping : Sweeping node sweep i state ticks) : ∀ tick ∈ ticks, Leg node sweep tick := by
  induction sweeping with
  | last stretch =>
    exact List.forall_mem_singleton.mpr (stretch.leg rules (own _ (List.mem_singleton_self _)) begins)
  | onward stretch _ _ _ _ ih =>
    obtain ⟨mine, others⟩ := List.forall_mem_cons.mp own
    exact List.forall_mem_cons.mpr ⟨stretch.leg rules mine begins, ih others nofun⟩

/-- The children entered in a sweep are consecutive ones. -/
theorem entered (sweeping : Sweeping node sweep i state ticks) :
    ∃ n, (enteredIn ticks).map Call.child = List.range' (entering i state) n ∧
      entering i state + n ≤ node.children.length := by
  induction sweeping with
  | @last i state tick stretch =>
    obtain ⟨n, order, count⟩ := stretch.map_child_filter
    obtain ⟨-, -, -, -, -, -, -, fits⟩ := stretch.entered
    refine ⟨n, ?_, count ▸ fits⟩
    rw [enteredIn, List.flatMap_singleton, order]
  | @onward i j state saved tick next rest stretch left goesOn handed later ih =>
    obtain ⟨n, order, count⟩ := stretch.map_child_filter
    obtain ⟨m, onward, fits⟩ := ih
    have reached : entering j (some saved) = entering i state + n := by
      rw [← count, stretch.length_of_left left, entering]
    rw [reached] at onward fits
    refine ⟨n + m, ?_, by omega⟩
    rw [enteredIn, List.flatMap_cons, List.filter_append, List.map_append, order, ← enteredIn, onward,
      List.range'_append_1]

/-- From one tick to the next a sweep goes on where it was. -/
theorem goesOn (sweeping : Sweeping node sweep i state ticks) :
    ticks.IsChain fun tick next => ∃ i saved, tick.result = .ok (.running (.over sweep.memory i saved)) ∧
      next.state = some (.over sweep.memory i saved) ∧
        ∃ call ∈ next.made.head?, call.child = i ∧ call.state = some saved := by
  induction sweeping with
  | last => exact .singleton _
  | @onward i j state saved tick next rest stretch left goesOn handed later ih =>
    refine .cons_cons ⟨j, saved, left, goesOn, ?_⟩ ih
    obtain ⟨first, others, made, own, from_⟩ : ∃ first others, next.made = first :: others ∧ first.child = j ∧
        first.state = some saved := by
      cases later with
      | last stretch | onward stretch =>
        obtain ⟨first, others, made, own, saved, -⟩ := stretch.entered
        exact ⟨first, others, made, own, saved⟩
    rw [made]
    exact ⟨first, rfl, own, from_⟩

theorem handedOn (sweeping : Sweeping node sweep i state ticks) :
    ∀ tick ∈ ticks.tail, Handed tick.scene.actor.vars tick.made tick.left.actor.vars := by
  induction sweeping with
  | last => exact fun _ member => absurd member List.not_mem_nil
  | onward _ _ _ handed _ ih => exact List.forall_mem_cons.mpr ⟨handed, ih⟩

end Sweeping

variable {vars : Blackboard}

/-- The tick in which a node without children is through. -/
theorem Begins.leg_of_childless (rules : sweep.Rules node) (begins : Begins node sweep vars tick)
    (childless : node.children = []) : Leg node sweep tick := by
  obtain ⟨made, result⟩ := begins.passes (List.length_eq_zero_iff.mpr childless)
  have never {P : Call → Prop} : ¬ ∃ call ∈ tick.made, P call := by
    rw [made]
    exact fun ⟨_, member, _⟩ => List.not_mem_nil member
  have none {P : Call → Prop} : ∀ call ∈ [], P call := fun _ member => absurd member List.not_mem_nil
  refine ⟨made ▸ none, fun k lt => ?_, made ▸ none, made ▸ none, ?_, ?_, fun i saved => ?_, fun fault => ?_,
    .inr (.inl result)⟩
  · rw [childless] at lt
    cases lt
  · rw [result, Except.ok.injEq, iff_false_right never]
    exact rules.apart.symm
  · exact ⟨fun _ => .inl childless, fun _ => result⟩
  · rw [result, Except.ok.injEq, iff_false_right never]
    exact Conclusion.report_ne _ _ _ _
  · rw [result, iff_false_right never]
    exact nofun

/-- A sweep that is begun is gone on with for as long as a child runs. -/
theorem Begins.swept (rules : sweep.Rules node) (own : ∀ call ∈ tick :: later, call.node = node)
    (goes : ∀ next ∈ later, next.goesOver = true) (chain : (tick :: later).IsChain Call.GoesOn)
    (begins : Begins node sweep vars tick) : Swept node sweep vars (tick :: later) := by
  obtain ⟨mine, others⟩ := List.forall_mem_cons.mp own
  by_cases childless : node.children = []
  · -- Nothing can go on with a child.
    obtain ⟨made, result⟩ := begins.passes (List.length_eq_zero_iff.mpr childless)
    obtain rfl : later = [] := by
      rcases later with _ | ⟨next, rest⟩
      · rfl
      obtain ⟨active, left, saved⟩ := (List.isChain_cons_cons.mp chain).1
      obtain ⟨memory, i, inner, onto⟩ := Call.goesOver_iff.mp (goes next List.mem_cons_self)
      obtain rfl := Option.some.inj (saved.symm.trans onto)
      exact absurd (Except.ok.inj (result.symm.trans left)) (Conclusion.report_ne _ _ _ _)
    refine ⟨List.forall_mem_singleton.mpr (begins.leg_of_childless rules childless), ⟨0, Nat.zero_le _, ?_⟩,
      fun _ _ some => absurd childless some, .singleton _, ?_, fun _ member => absurd member List.not_mem_nil⟩
    · rw [enteredIn, List.flatMap_singleton, made]
      rfl
    · rintro _ ⟨⟩
      exact begins.handed
  · have sweeping := sweeping_of_chain rules others goes chain (begins.sweeps (List.length_pos_of_ne_nil childless))
    obtain ⟨n, order, fits⟩ := sweeping.entered
    rw [entering, Nat.zero_add] at fits
    refine ⟨sweeping.leg rules own fun _ => rfl, ⟨n, fits, order.trans List.range_eq_range'.symm⟩, ?_, sweeping.goesOn, ?_,
      sweeping.handedOn⟩
    · rintro _ ⟨⟩ -
      obtain ⟨first, rest, made, child, fresh, -⟩ := (begins.sweeps (List.length_pos_of_ne_nil childless)).entered
      rw [made]
      exact ⟨first, rfl, child, fresh⟩
    · rintro _ ⟨⟩
      exact begins.handed

end

/-! ### Rounds -/

/-- A node goes through its children in rounds, each of which it opens with these variables. -/
structure Recurs (node : Node) (sweep : Nat → Sweep) (opening : Nat → Blackboard → Blackboard) : Prop where
  rules : ∀ k, (sweep k).Rules node
  halts : ∀ k memory, (sweep k).halted ≠ .rest memory
  again : ∀ k memory, (sweep k).through = .rest memory → ∀ tick, tick.node = node → tick.state = some (.resting memory) →
    Begins node (sweep (k + 1)) (opening (k + 1) tick.scene.actor.vars) tick

/-- What is counted up to, if to anything, has been reached, or there is more to come. -/
theorem reached_or_more (limit : Option Nat) (k : Nat) :
    (∃ n, limit = some n ∧ n ≤ k) ∧ limit.any (· ≤ k) = true ∨
      (∀ n, limit = some n → k < n) ∧ limit.any (· ≤ k) = false := by
  rcases limit with _ | n
  · exact .inr ⟨fun _ => nofun, rfl⟩
  by_cases reached : n ≤ k
  · exact .inl ⟨⟨n, rfl, reached⟩, decide_eq_true reached⟩
  · refine .inr ⟨fun _ same => ?_, decide_eq_false reached⟩
    cases same
    omega

/-- What the rounds of an activation are. -/
structure Recurring (node : Node) (sweep : Nat → Sweep) (opening : Nat → Blackboard → Blackboard)
    (rounds : List (List Call)) : Prop where
  swept : ∀ k round, rounds[k]? = some round → ∃ first later, round = first :: later ∧
    Swept node (sweep k) (opening k first.scene.actor.vars) round
  /-- The node runs on when a round is over that another one follows, and opens this in its next tick. -/
  again : ∀ k round next, rounds[k]? = some round → rounds[k + 1]? = some next →
    ∃ memory, (sweep k).through = .rest memory ∧ ∃ last ∈ round.getLast?, ∃ first ∈ next.head?,
      last.result = .ok (.running (.resting memory)) ∧ first.state = some (.resting memory)

/-- A round goes on with children that run. -/
structure IsRound (node : Node) (round : List Call) : Prop where
  opens : ∃ first later, round = first :: later ∧ ∀ next ∈ later, next.goesOver = true
  own : ∀ tick ∈ round, tick.node = node
  chain : round.IsChain Call.GoesOn

/-- A round follows another one, with a tick that does not go on with a child. -/
def Successive (round next : List Call) : Prop :=
  ∀ last ∈ round.getLast?, ∀ first ∈ next.head?, last.GoesOn first ∧ first.goesOver = false

section

variable {node : Node} {ticks round next : List Call} {k : Nat}

theorem flatten_rounds (ticks : List Call) : (rounds ticks).flatten = ticks := List.flatten_splitBy _ _

/-- Every tick stands in a round. -/
theorem exists_round {tick : Call} (member : tick ∈ ticks) : ∃ (k : Nat) (round : List Call),
    (rounds ticks)[k]? = some round ∧ tick ∈ round := by
  rw [← flatten_rounds ticks] at member
  obtain ⟨round, inside, member⟩ := List.mem_flatten.mp member
  obtain ⟨k, here⟩ := List.mem_iff_getElem?.mp inside
  exact ⟨k, round, here, member⟩

theorem nil_notMem_rounds (ticks : List Call) : [] ∉ rounds ticks := List.nil_notMem_splitBy _ _

/-- The first round begins with the first tick. -/
theorem head?_rounds (opens : round ∈ (rounds ticks).head?) : round.head? = ticks.head? := by
  rcases split : rounds ticks with _ | ⟨first, rest⟩
  · rw [split] at opens
    cases opens
  · rw [split] at opens
    cases opens
    have whole := flatten_rounds ticks
    rw [split, List.flatten_cons] at whole
    rw [← whole, List.head?_append_of_ne_nil]
    exact List.ne_nil_of_mem_splitBy (show round ∈ rounds ticks from split ▸ List.mem_cons_self)

namespace Activation

variable (activation : Activation node ticks)

include activation

theorem isRound (member : round ∈ rounds ticks) : IsRound node round := by
  have goesOn := activation.goesOn
  rw [← flatten_rounds ticks, List.isChain_flatten (nil_notMem_rounds ticks)] at goesOn
  refine ⟨?_, fun tick inside => ?_, goesOn.1 round member⟩
  · obtain ⟨first, later, rfl⟩ := List.exists_cons_of_ne_nil (List.ne_nil_of_mem_splitBy member)
    exact ⟨first, later, rfl, forall_mem_tail (List.isChain_of_mem_splitBy member)⟩
  · exact activation.own tick (flatten_rounds ticks ▸ List.mem_flatten.mpr ⟨round, member, inside⟩)

/-- A round is followed by one that begins without going on with a child. -/
theorem successive (here : (rounds ticks)[k]? = some round) (there : (rounds ticks)[k + 1]? = some next) :
    Successive round next := by
  obtain ⟨lt, rfl⟩ := List.getElem?_eq_some_iff.mp there
  obtain ⟨_, rfl⟩ := List.getElem?_eq_some_iff.mp here
  intro last ends first starts
  have goesOn := activation.goesOn
  rw [← flatten_rounds ticks, List.isChain_flatten (nil_notMem_rounds ticks)] at goesOn
  have apart := List.isChain_getLast_head_splitBy (fun _ next : Call => next.goesOver) ticks
  obtain ⟨_, nonempty, still⟩ := List.isChain_iff_getElem.mp apart k lt
  refine ⟨List.isChain_iff_getElem.mp goesOn.2 k lt last ends first starts, ?_⟩
  cases (List.head?_eq_some_head nonempty).symm.trans starts
  exact still

end Activation

end

section

variable {node : Node} {sweep : Nat → Sweep} {opening : Nat → Blackboard → Blackboard} {k : Nat} {round next : List Call}
  {vars : Blackboard}

/-- A round follows another one only if the node runs on for it. -/
theorem Swept.rests (recurs : Recurs node sweep opening) (swept : Swept node (sweep k) vars round)
    (follows : Successive round next) {last first : Call} (ends : last ∈ round.getLast?) (starts : first ∈ next.head?) :
    ∃ memory, (sweep k).through = .rest memory ∧
      last.result = .ok (.running (.resting memory)) ∧ first.state = some (.resting memory) := by
  obtain ⟨⟨state, left, saved⟩, apart⟩ := follows last ends first starts
  rcases (swept.leg last (List.mem_of_getLast? ends)).outcome with halted | through | ⟨i, inner, runs⟩ | ⟨fault, failed⟩
  · have same := Except.ok.inj (halted.symm.trans left)
    rcases conclusion : (sweep k).halted with verdict | memory <;> rw [conclusion] at same
    · cases same
    · exact absurd conclusion (recurs.halts k memory)
  · have same := Except.ok.inj (through.symm.trans left)
    rcases conclusion : (sweep k).through with verdict | memory <;> rw [conclusion] at same
    · cases same
    · cases same
      exact ⟨memory, rfl, left, saved⟩
  · cases runs.symm.trans left
    rw [Call.goesOver_iff.mpr ⟨_, _, _, saved⟩] at apart
    cases apart
  · cases failed.symm.trans left

theorem IsRound.swept (isRound : IsRound node round) (rules : (sweep k).Rules node)
    (begins : ∀ first ∈ round.head?, Begins node (sweep k) (opening k first.scene.actor.vars) first) :
    ∃ first later, round = first :: later ∧ Swept node (sweep k) (opening k first.scene.actor.vars) round := by
  obtain ⟨⟨first, later, rfl, goes⟩, own, chain⟩ := isRound
  exact ⟨first, later, rfl, (begins first rfl).swept rules own goes chain⟩

/-- Every round is begun, and another one only when the one before it is over: by induction on the rounds. -/
theorem Recurs.recurring (recurs : Recurs node sweep opening) {ticks : List Call} (activation : Activation node ticks)
    (begins : ∀ first ∈ ticks.head?, Begins node (sweep 0) (opening 0 first.scene.actor.vars) first) :
    Recurring node sweep opening (rounds ticks) := by
  have between {k : Nat} {round next : List Call} (here : (rounds ticks)[k]? = some round)
      (there : (rounds ticks)[k + 1]? = some next) {vars : Blackboard} (swept : Swept node (sweep k) vars round) :
      ∃ memory, (sweep k).through = .rest memory ∧ ∃ last ∈ round.getLast?, ∃ first ∈ next.head?,
        last.result = .ok (.running (.resting memory)) ∧ first.state = some (.resting memory) := by
    obtain ⟨⟨first, later, rfl, -⟩, -⟩ := activation.isRound (List.mem_of_getElem? here)
    obtain ⟨⟨first', later', rfl, -⟩, -⟩ := activation.isRound (List.mem_of_getElem? there)
    obtain ⟨memory, rests, left, saved⟩ :=
      swept.rests recurs (activation.successive here there) (List.getLast?_eq_some_getLast (List.cons_ne_nil _ _)) rfl
    exact ⟨memory, rests, _, List.getLast?_eq_some_getLast (List.cons_ne_nil _ _), first', rfl, left, saved⟩
  have swept (k : Nat) (round : List Call) (here : (rounds ticks)[k]? = some round) :
      ∃ first later, round = first :: later ∧ Swept node (sweep k) (opening k first.scene.actor.vars) round := by
    have isRound := activation.isRound (List.mem_of_getElem? here)
    induction k generalizing round with
    | zero =>
      rw [← List.head?_eq_getElem?] at here
      exact isRound.swept (recurs.rules 0) fun first starts => begins first (head?_rounds here ▸ starts)
    | succ k ih =>
      have lt := (List.getElem?_eq_some_iff.mp here).1
      have before := List.getElem?_eq_getElem (Nat.lt_of_succ_lt lt)
      obtain ⟨_, _, -, swept⟩ := ih _ before (activation.isRound (List.mem_of_getElem? before))
      obtain ⟨memory, rests, -, -, first, starts, -, saved⟩ := between before here swept
      refine isRound.swept (recurs.rules (k + 1)) fun first' starts' => ?_
      cases starts.symm.trans starts'
      exact recurs.again k memory rests first (isRound.own first (List.mem_of_mem_head? starts)) saved
  refine ⟨swept, fun k round next here there => ?_⟩
  obtain ⟨_, _, -, once⟩ := swept k round here
  exact between here there once

/-- There are no more rounds after one with which the node is through for good. -/
theorem Recurring.length_le {rounds : List (List Call)} (recurring : Recurring node sweep opening rounds) {n : Nat}
    (last : ∀ memory, (sweep n).through ≠ .rest memory) : rounds.length ≤ n + 1 := by
  by_contra more
  have lt : n + 1 < rounds.length := by omega
  obtain ⟨memory, rests, -⟩ :=
    recurring.again n _ _ (List.getElem?_eq_getElem (Nat.lt_of_succ_lt lt)) (List.getElem?_eq_getElem lt)
  exact last memory rests

/-- If the node is never through but with its activation, this is one round. -/
theorem Recurring.swept_of_once {ticks : List Call} (recurring : Recurring node sweep opening (rounds ticks))
    (some : ticks ≠ [])
    (once : ∀ memory, (sweep 0).through ≠ .rest memory) :
    ∃ first later, ticks = first :: later ∧ Swept node (sweep 0) (opening 0 first.scene.actor.vars) ticks := by
  have whole := flatten_rounds ticks
  rcases split : rounds ticks with _ | ⟨round, _ | ⟨next, rest⟩⟩
  · rw [split] at whole
    exact absurd whole.symm some
  · rw [split, List.flatten_singleton] at whole
    subst whole
    exact recurring.swept 0 round (by rw [split]; rfl)
  · obtain ⟨memory, rests, -⟩ := recurring.again 0 round next (by rw [split]; rfl) (by rw [split]; rfl)
    exact absurd rests (once memory)

end

end BehaviorTree.Descent
