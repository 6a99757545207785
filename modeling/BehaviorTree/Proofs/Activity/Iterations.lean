import BehaviorTree.Proofs.Activity.Rounds

/-!
Loop and Foreach nodes go through their children once for every iteration. How many there are to make is settled when
the node is entered, and so is what there is to go through; whatever the children write, the iterations are counted
up to there. Each begins by writing the outputs of the node, in the tick after the one in which the iteration before
it has ended.
-/

namespace BehaviorTree

open Descent TickM
open Visit (Iteration limit?)

/-- The same iterations, at another one of them. -/
def Visit.Iteration.nth (it : Iteration) (k : Nat) : Iteration := { it with index := k }

namespace Descent

variable {node : Node} {it : Iteration}

/-- The value of the variable that is wired to an input slot. -/
def readIn (node : Node) (i : Nat) (vars : Blackboard) : Option Value := (node.inputVar? i).bind vars.get?

/-- The variables once the one has been written that is wired to an output slot, if there is one. -/
def writeOut (node : Node) (i : Nat) (v : Value) (vars : Blackboard) : Blackboard :=
  match node.outputVar? i with
  | some name => vars.set name v
  | none => vars

/-- What a node is set for that is entered with these variables. A Loop node counts by a whole number in its input, or
else by its argument, and has no limit if that is negative or there is none; a Foreach node goes through the array in
its input. -/
def iterations (node : Node) (vars : Blackboard) : Iteration :=
  match node.kind with
  | .loop => ⟨0, (((readIn node 0 vars).bind Value.int?).or (node.int? "count")).bind limit?, []⟩
  | _ =>
    let items := ((readIn node 0 vars).bind Value.array?).getD []
    ⟨0, some items.length, items⟩

/-- The variables with which an iteration begins. -/
def opened (node : Node) (it : Iteration) (vars : Blackboard) : Blackboard :=
  match node.kind with
  | .loop => writeOut node 0 (.ofNat it.index) vars
  | _ =>
    match it.items[it.index]? with
    | some item => writeOut node 1 (.ofNat it.index) (writeOut node 0 item vars)
    | none => vars

/-- An iteration goes through all children unless one fails. The last one completes the node. -/
def iteration (it : Iteration) : Sweep where
  memory := .round it
  stop := .failure
  halted := .finish .failure
  through := if (it.nth (it.index + 1)).isOver then .finish .success else .rest (.round (it.nth (it.index + 1)))

theorem Iterates.alone (iterates : Iterates node) : node.kind ≠ .parallel := by
  rcases iterates with kind | kind <;> rw [kind] <;> exact nofun

/-- After each child the next one is due, and after the last the iteration is through. -/
theorem next_iteration (visit : Visit) (i : Nat) :
    nextInRound visit it i =
      if i < visit.node.children.length then .enter i (.round it) else (iteration it).through.move := by
  rw [nextInRound, iteration]
  by_cases last : (it.nth (it.index + 1)).isOver = true
  · rw [if_pos last]
    exact congrArg _ (if_pos last)
  · rw [if_neg last]
    exact congrArg _ (if_neg last)

/-- An iteration is a sweep over all children. -/
theorem Iterates.rules (iterates : Iterates node) (it : Iteration) : (iteration it).Rules node where
  alone := iterates.alone
  apart := by
    rw [iteration]
    split <;> exact nofun
  timeless := rfl
  heeds path i verdict _ := by
    rw [iteration, heed_of_iterates iterates, Sweep.next]
    cases verdict with
    | failure => rfl
    | success => exact congrArg pure (next_iteration _ _)

/-! ### How an iteration begins -/

theorem play_firstRound (visit : Visit) (s : Scene) :
    (firstRound visit).play s = (.ok (iterations visit.node s.actor.vars), s) := by
  rw [firstRound, iterations]
  cases visit.node.kind <;> rfl

theorem vars_setOutput (actor : Actor) (node : Node) (i : Nat) (v : Value) :
    (actor.setOutput node i v).vars = writeOut node i v actor.vars := by
  rw [Actor.setOutput, writeOut]
  cases node.outputVar? i <;> rfl

/-- At the beginning of an iteration the round's variables are written. -/
theorem play_writeRound (visit : Visit) (it : Iteration) (s : Scene) :
    ∃ t, (writeRound visit it).play s = (.ok (), t) ∧ t.actor.vars = opened visit.node it s.actor.vars := by
  rw [writeRound, opened]
  generalize visit.node.kind = kind
  by_cases loop : kind = .loop
  · subst loop
    exact ⟨_, play_updateActor _ s, vars_setOutput _ _ _ _⟩
  · simp only
    rcases it.items[it.index]? with _ | item
    · exact ⟨s, rfl, rfl⟩
    · refine ⟨_, (play_bind_ok (play_updateActor _ s) _).trans (play_updateActor _ _), ?_⟩
      exact (vars_setOutput _ _ _ _).trans (congrArg (writeOut _ _ _) (vars_setOutput _ _ _ _))

/-- An iteration that is due writes its variables and enters the first child. -/
theorem play_startRound (visit : Visit) (s : Scene) (due : it.isOver = false) :
    ∃ t, (startRound visit it).play s = (.ok ((iteration it).first visit.node), t) ∧
      t.actor.vars = opened visit.node it s.actor.vars := by
  obtain ⟨t, writes, vars⟩ := play_writeRound visit it s
  refine ⟨t, ?_, vars⟩
  rw [startRound, due]
  refine (play_bind_ok writes _).trans ?_
  rw [next_iteration]
  rfl

variable {tick : Call}

/-- An iteration begins in a tick that goes on with no child active. -/
theorem Iterates.begins_rested (iterates : Iterates tick.node) (due : it.isOver = false)
    (rested : tick.state = some (.resting (.round it))) :
    Begins tick.node (iteration it) (opened tick.node it tick.scene.actor.vars) tick := by
  obtain ⟨t, starts, vars⟩ := play_startRound tick.visit (begun tick.visit tick.scene) due
  rw [vars_begun] at vars
  exact vars ▸ Call.begins_rested (iterates.rules it) rested starts

theorem Iterates.start_eq (iterates : Iterates node) (visit : Visit) :
    start visit node.kind = firstRound visit >>= startRound visit := by
  rcases iterates with kind | kind <;> rw [kind] <;> rfl

/-- The first iteration begins when the node is entered. -/
theorem Iterates.begins_entered (iterates : Iterates tick.node) (fresh : tick.state = none)
    (due : (iterations tick.node tick.scene.actor.vars).isOver = false) :
    Begins tick.node (iteration (iterations tick.node tick.scene.actor.vars))
      (opened tick.node (iterations tick.node tick.scene.actor.vars) tick.scene.actor.vars) tick := by
  have first := play_firstRound tick.visit (begun tick.visit tick.scene)
  rw [vars_begun] at first
  obtain ⟨t, starts, vars⟩ := play_startRound tick.visit (begun tick.visit tick.scene) due
  rw [vars_begun] at vars
  refine vars ▸ Call.begins_entered (iterates.rules _) fresh ?_
  rw [iterates.start_eq]
  exact (play_bind_ok first _).trans starts

/-- With no iterations to make, the node succeeds at once. -/
theorem Iterates.succeeds_entered (iterates : Iterates tick.node) (fresh : tick.state = none)
    (none : (iterations tick.node tick.scene.actor.vars).isOver = true) :
    tick.made = [] ∧ tick.result = .ok (.done .success) ∧ tick.left.actor.vars = tick.scene.actor.vars := by
  have first := play_firstRound tick.visit (begun tick.visit tick.scene)
  rw [vars_begun] at first
  have starts : (start tick.visit tick.node.kind).play (begun tick.visit tick.scene) =
      (.ok (Conclusion.finish .success).move, begun tick.visit tick.scene) := by
    rw [iterates.start_eq, play_bind_ok first, startRound, Call.visit_node, none]
    rfl
  obtain ⟨made, came⟩ := Call.concludes_entered (.finish .success) iterates.alone fresh starts
  have vars := congrArg (·.2.actor.vars) came
  exact ⟨made, congrArg Prod.fst came, vars.trans ((vars_concluded _ _).trans (vars_begun _ _))⟩

/-- After an iteration that is through the next one is due. -/
theorem Iterates.recurs (iterates : Iterates node) (it : Iteration) :
    Recurs node (fun k => iteration (it.nth k)) fun k => opened node (it.nth k) where
  rules k := iterates.rules _
  halts _ _ := nofun
  again k memory rests tick own rested := by
    subst own
    simp only [iteration] at rests
    split at rests
    · cases rests
    · cases rests
      exact iterates.begins_rested (Bool.eq_false_iff.mpr ‹_›) rested

/-- A tick ends an iteration, in which no child has failed. -/
def Ends (node : Node) (tick : Call) : Prop :=
  node.children = [] ∨
    ∃ call ∈ tick.made, call.child + 1 = node.children.length ∧ call.result = .ok (.done .success)

/-- The ticks of an activation, the first of which sets the node for these iterations. -/
structure Iterated (node : Node) (it : Iteration) (first : Call) (later : List Call) : Prop where
  /-- If there are no iterations to make, the node succeeds at once, without entering a child or writing an output. -/
  none : it.count = some 0 → later = [] ∧ first.made = [] ∧ first.result = .ok (.done .success) ∧
    first.left.actor.vars = first.scene.actor.vars
  /-- Otherwise they are made one after the other, each from the next tick of the node on. -/
  rounds : it.count ≠ some 0 →
    Recurring node (fun k => iteration (it.nth k)) (fun k => opened node (it.nth k)) (rounds (first :: later))
  /-- And there are no more of them. -/
  bounded : ∀ n, it.count = some (n + 1) → (Descent.rounds (first :: later)).length ≤ n + 1
  /-- The node fails with a child. -/
  fails : ∀ tick ∈ first :: later,
    tick.result = .ok (.done .failure) ↔ ∃ call ∈ tick.made, call.result = .ok (.done .failure)
  /-- It succeeds when the last iteration that there is to be has ended, and not before. -/
  succeeds : it.count ≠ some 0 → ∀ (k : Nat) round, (Descent.rounds (first :: later))[k]? = some round → ∀ tick ∈ round,
    tick.result = .ok (.done .success) ↔ it.count = some (k + 1) ∧ Ends node tick
  /-- It rests for a tick when another iteration has ended. -/
  rests : it.count ≠ some 0 → ∀ (k : Nat) round, (Descent.rounds (first :: later))[k]? = some round → ∀ tick ∈ round,
    tick.result = .ok (.running (.resting (.round (it.nth (k + 1))))) ↔
      (∀ n, it.count = some n → k + 1 < n) ∧ Ends node tick

/-- After an iteration the node succeeds or rests as the count says. -/
theorem through_iteration (it : Iteration) (k : Nat) :
    (∃ n, it.count = some n ∧ n ≤ k + 1) ∧ (iteration (it.nth k)).through = .finish .success ∨
      (∀ n, it.count = some n → k + 1 < n) ∧ (iteration (it.nth k)).through = .rest (.round (it.nth (k + 1))) := by
  rw [iteration]
  rcases reached_or_more it.count (k + 1) with ⟨over', yes⟩ | ⟨left, no⟩
  · exact .inl ⟨over', if_pos yes⟩
  · exact .inr ⟨left, if_neg (Bool.eq_false_iff.mp no)⟩

theorem isOver_of_count {n : Nat} (count : it.count = some n) (k : Nat) : (it.nth k).isOver = decide (n ≤ k) := by
  rw [Iteration.isOver, Iteration.nth, count]
  rfl

/-- There are iterations to make unless their number is zero. -/
theorem isOver_zero (some : it.count ≠ some 0) : (it.nth 0).isOver = false := by
  rcases count : it.count with _ | n
  · rw [Iteration.isOver, Iteration.nth, count]
    rfl
  · rw [isOver_of_count count, decide_eq_false_iff_not, Nat.le_zero]
    rintro rfl
    exact some count

theorem iterations_nth (node : Node) (vars : Blackboard) : (iterations node vars).nth 0 = iterations node vars := by
  rw [iterations]
  cases node.kind <;> rfl

section

variable {ticks round : List Call}
  (recurring : Recurring node (fun k => iteration (it.nth k)) (fun k => opened node (it.nth k)) (rounds ticks))

include recurring

theorem Recurring.length_le_count {n : Nat} (count : it.count = some (n + 1)) : (rounds ticks).length ≤ n + 1 := by
  refine recurring.length_le fun memory rests => ?_
  rcases through_iteration it n with ⟨-, succeeds⟩ | ⟨left, -⟩
  · cases succeeds.symm.trans rests
  · exact absurd (left (n + 1) count) (Nat.lt_irrefl _)

/-- What a tick comes to in which an iteration ends. -/
theorem Recurring.iteration_iff {k : Nat} (here : (rounds ticks)[k]? = some round) (member : tick ∈ round) (report : Report)
    (other : report ≠ .done .failure) (still : ∀ memory i saved, report ≠ .running (.over memory i saved)) :
    tick.result = .ok report ↔ (iteration (it.nth k)).through.report = report ∧ Ends node tick := by
  obtain ⟨first, later, -, swept⟩ := recurring.swept k round here
  have leg := swept.leg tick member
  rw [leg.result_iff report other still]
  exact and_congr_right fun _ => leg.passes

/-- The node succeeds with the end of the last iteration and at no other time. -/
theorem Recurring.succeeds_iff (nonzero : it.count ≠ some 0) {k : Nat} (here : (rounds ticks)[k]? = some round)
    (member : tick ∈ round) : tick.result = .ok (.done .success) ↔ it.count = some (k + 1) ∧ Ends node tick := by
  have lt := (List.getElem?_eq_some_iff.mp here).1
  rw [recurring.iteration_iff here member (.done .success) nofun nofun]
  refine and_congr_left fun _ => ?_
  rcases through_iteration it k with ⟨⟨n, count, reached⟩, through⟩ | ⟨left, through⟩ <;> rw [through]
  · obtain ⟨m, rfl⟩ := Nat.exists_eq_succ_of_ne_zero fun zero => nonzero (zero ▸ count)
    have fits := recurring.length_le_count count
    refine ⟨fun _ => ?_, fun _ => rfl⟩
    rw [count]
    exact congrArg some (by omega)
  · exact ⟨nofun, fun count => absurd (left _ count) (Nat.lt_irrefl _)⟩

/-- The node rests after every iteration but the last. -/
theorem Recurring.rests_iff {k : Nat} (here : (rounds ticks)[k]? = some round) (member : tick ∈ round) :
    tick.result = .ok (.running (.resting (.round (it.nth (k + 1))))) ↔
      (∀ n, it.count = some n → k + 1 < n) ∧ Ends node tick := by
  rw [recurring.iteration_iff here member (.running (.resting _)) nofun nofun]
  refine and_congr_left fun _ => ?_
  rcases through_iteration it k with ⟨⟨n, count, reached⟩, through⟩ | ⟨left, through⟩ <;> rw [through]
  · exact ⟨nofun, fun left => absurd (left n count) (Nat.not_lt.mpr reached)⟩
  · exact ⟨fun _ => left, fun _ => rfl⟩

theorem Recurring.fails_iff (member : tick ∈ ticks) :
    tick.result = .ok (.done .failure) ↔ ∃ call ∈ tick.made, call.result = .ok (.done .failure) := by
  obtain ⟨k, round, here, member⟩ := exists_round member
  obtain ⟨first, later, -, swept⟩ := recurring.swept k round here
  exact (swept.leg tick member).halts

end

/-- The first iteration begins in the tick in which the node is entered, if there is one to make. -/
theorem Iterates.recurring (iterates : Iterates node) {first : Call} {later : List Call}
    (activation : Activation node (first :: later)) (fresh : first.state = none)
    (some : (iterations node first.scene.actor.vars).count ≠ some 0) :
    Recurring node (fun k => iteration ((iterations node first.scene.actor.vars).nth k))
      (fun k => opened node ((iterations node first.scene.actor.vars).nth k)) (rounds (first :: later)) := by
  have own := activation.own first List.mem_cons_self
  subst own
  refine (iterates.recurs _).recurring activation fun tick head => ?_
  cases head
  have begins := iterates.begins_entered fresh (iterations_nth first.node _ ▸ isOver_zero some)
  rwa [← iterations_nth] at begins

/-- With none to make, the activation is over with this tick. -/
theorem Iterates.idle (iterates : Iterates node) {first : Call} {later : List Call}
    (activation : Activation node (first :: later)) (fresh : first.state = none)
    (none : (iterations node first.scene.actor.vars).count = some 0) :
    later = [] ∧ first.made = [] ∧ first.result = .ok (.done .success) ∧
      first.left.actor.vars = first.scene.actor.vars := by
  have own := activation.own first List.mem_cons_self
  subst own
  have passed := isOver_of_count none 0
  rw [iterations_nth] at passed
  obtain ⟨made, result, vars⟩ := iterates.succeeds_entered fresh passed
  refine ⟨?_, made, result, vars⟩
  rcases later with _ | ⟨next, rest⟩
  · rfl
  · obtain ⟨state, left, -⟩ := (List.isChain_cons_cons.mp activation.goesOn).1
    cases result.symm.trans left

/-- What is made of an activation is settled when the node is entered. -/
theorem Iterates.iterated (iterates : Iterates node) {first : Call} {later : List Call}
    (activation : Activation node (first :: later)) (fresh : first.state = none) :
    Iterated node (iterations node first.scene.actor.vars) first later where
  none := iterates.idle activation fresh
  rounds := iterates.recurring activation fresh
  bounded n count := (iterates.recurring activation fresh (by rw [count]; exact nofun)).length_le_count count
  fails tick member := by
    by_cases none : (iterations node first.scene.actor.vars).count = some 0
    · obtain ⟨rfl, made, result, -⟩ := iterates.idle activation fresh none
      obtain rfl := List.mem_singleton.mp member
      rw [made, result]
      exact ⟨nofun, fun ⟨_, member, _⟩ => absurd member List.not_mem_nil⟩
    · exact (iterates.recurring activation fresh none).fails_iff member
  succeeds some k round here tick member := (iterates.recurring activation fresh some).succeeds_iff some here member
  rests some k round here tick member := (iterates.recurring activation fresh some).rests_iff here member

end Descent

/-- In every activation of a Loop or Foreach node of a loaded tree, whatever its host does and whatever is written to
variables meanwhile: the iterations are made that the node has been set for when it was entered, in order and each in
the ticks after those of the one before. Each begins by writing the outputs and goes through all children, unless one
fails and with it the node, and the last one completes the node. -/
theorem Runner.iterations_in_order (source : Source) (cache : ExprCache) (name : String) (strict : Bool) (tree : Tree)
    (loaded : (source.load Registry.builtin cache name strict).1 = .ok tree) (caller : Nat) (target : Target)
    (debug : Bool) (before : Context) (actions : List HostAction) :
    let start := Runner.new tree (.newWith caller target debug)
    let runner := (start.performAll before actions).1
    let journal := start.journal before actions
    ∀ node ∈ tree.root.preorder, Iterates node →
      runner.Activates journal node ∧ ∀ ticks ∈ activations node journal, ∃ first later, ticks = first :: later ∧
        Iterated node (iterations node first.scene.actor.vars) first later := by
  intro start runner journal node inside iterates
  have activates := Source.activates_load loaded caller target debug before actions inside
  refine ⟨activates, fun ticks member => ?_⟩
  have activation := activates.activation ticks member
  obtain ⟨first, later, rfl, fresh, -⟩ := activation.entered
  exact ⟨first, later, rfl, iterates.iterated activation fresh⟩

/-! ### Deliveries -/

/-- Goes through the places where there is something to do. -/
def deliveriesSource : Source :=
  [{ name := "deliveries"
     root := { name := "Foreach", input := ["places"], output := ["place"], children := [{ name := "Clear" }] } }]

def deliveries : Tree where
  name := "deliveries"
  desc := ""
  root :=
    { id := 1, kind := .foreach, name := "Foreach", desc := "", args := [], input := [some "places"]
      output := [some "place"], children := [clearLeaf 2] }

theorem load_deliveries : deliveriesSource.load Registry.builtin [] "deliveries" true = (.ok deliveries, []) := by
  cbv

/-- There are two places when the first run begins, and none any more when the second one does. -/
def deliveries.actions : List HostAction :=
  [.vars fun _ => [("places", .array [.text "mill", .text "harbour"])], .run, .vars fun _ => [], .run, .run]

/-- Both places are gone to, and a third run finds that there are none. -/
theorem Runner.iterations_in_order_deliveries :
    (deliveriesSource.load Registry.builtin [] "deliveries" true).1 = .ok deliveries ∧
      let journal := (Runner.new deliveries (.newWith 1 .everyone false)).journal (.new Registry.builtin) deliveries.actions
      (activations deliveries.root journal).map (·.map fun tick => (iterations deliveries.root tick.scene.actor.vars).count) =
          [[some 2, some 0], [some 0]] ∧
        ∀ ticks ∈ activations deliveries.root journal, ∃ first later, ticks = first :: later ∧
          Iterated deliveries.root (iterations deliveries.root first.scene.actor.vars) first later := by
  have loaded := congrArg Prod.fst load_deliveries
  obtain ⟨-, iterated⟩ := Runner.iterations_in_order deliveriesSource [] "deliveries" true deliveries loaded 1 .everyone false
    (.new Registry.builtin) deliveries.actions deliveries.root deliveries.root.self_mem_preorder (.inr rfl)
  exact ⟨loaded, by decide +kernel, iterated⟩

end BehaviorTree
