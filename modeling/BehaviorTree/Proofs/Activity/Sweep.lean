import BehaviorTree.Proofs.Activity.Activation

/-!
Sweeps: a node goes through its children from the first one on. It stops at a child with a certain verdict; otherwise
it enters the next child, and after the last one it is through. A sweep goes on in later ticks of the node when a child
runs, with that child. Sequence and Selector nodes make one sweep, iterations are sweeps each, and so are attempts, in
which there is one child only.
-/

namespace BehaviorTree

theorem Verdict.eq_invert_of_ne {verdict stop : Verdict} (other : verdict ≠ stop) : verdict = stop.invert := by
  cases verdict <;> cases stop <;> first | rfl | exact absurd rfl other

theorem Verdict.invert_ne (verdict : Verdict) : verdict.invert ≠ verdict := by
  cases verdict <;> exact nofun

namespace Descent

open TickM

/-! ### Rules -/

/-- How a node ends what it does in a tick, with no child active: it completes, or it runs on. -/
inductive Conclusion where
  | finish (verdict : Verdict)
  | rest (memory : Memory)

/-- A conclusion as the last move of a node. -/
def Conclusion.move : Conclusion → Move
  | finish verdict => .finish verdict
  | rest memory => .rest memory

/-- A conclusion as what the node reports. -/
def Conclusion.report : Conclusion → Report
  | finish verdict => .done verdict
  | rest memory => .running (.resting memory)

theorem Conclusion.report_ne (conclusion : Conclusion) (memory : Memory) (i : Nat) (saved : Active) :
    conclusion.report ≠ .running (.over memory i saved) := by
  cases conclusion <;> exact nofun

/-- How a node goes through its children. -/
structure Sweep where
  /-- What the node remembers meanwhile. -/
  memory : Memory
  /-- The verdict at which it stops. -/
  stop : Verdict
  halted : Conclusion
  through : Conclusion

/-- What follows from the verdict of a child. -/
def Sweep.next (sweep : Sweep) (node : Node) (i : Nat) (verdict : Verdict) : Move :=
  if verdict = sweep.stop then sweep.halted.move
  else if i + 1 < node.children.length then .enter (i + 1) sweep.memory
  else sweep.through.move

/-- The rules of a node make it go through its children so. -/
structure Sweep.Rules (sweep : Sweep) (node : Node) : Prop where
  alone : node.kind ≠ .parallel
  apart : sweep.halted.report ≠ sweep.through.report
  timeless : armed? node.kind sweep.memory = none
  heeds : ∀ path i verdict, i < node.children.length →
    heed (visitAt node path) node.kind sweep.memory i verdict = pure (sweep.next node i verdict)

/-! ### What one tick makes of a sweep -/

/-- Ticks of children from the `i`-th on, the first of which goes on from a saved state or is fresh, and what comes of
the tick in which the node makes them. -/
inductive Stretch (node : Node) (sweep : Sweep) : Nat → Option Active → List Call → Except Fault Report → Prop
  /-- The child stops the node. -/
  | halted {call : Call} (lt : call.child < node.children.length) (came : call.result = .ok (.done sweep.stop)) :
      Stretch node sweep call.child call.state [call] (.ok sweep.halted.report)
  /-- The last child has been passed. -/
  | through {call : Call} (lt : call.child < node.children.length) (last : call.child + 1 = node.children.length)
      (came : call.result = .ok (.done sweep.stop.invert)) :
      Stretch node sweep call.child call.state [call] (.ok sweep.through.report)
  /-- The child runs. -/
  | runs {call : Call} {saved : Active} (lt : call.child < node.children.length)
      (came : call.result = .ok (.running saved)) :
      Stretch node sweep call.child call.state [call] (.ok (.running (.over sweep.memory call.child saved)))
  /-- The child cuts the run short. -/
  | cut {call : Call} {fault : Fault} (lt : call.child < node.children.length) (came : call.result = .error fault) :
      Stretch node sweep call.child call.state [call] (.error fault)
  /-- The child has been passed, and the next one is entered. -/
  | onward {call : Call} {more : List Call} {result : Except Fault Report}
      (lt : call.child < node.children.length) (came : call.result = .ok (.done sweep.stop.invert))
      (later : Stretch node sweep (call.child + 1) none more result) :
      Stretch node sweep call.child call.state (call :: more) result

/-- The variables go from child to child; the node itself writes none. -/
inductive Handed : Blackboard → List Call → Blackboard → Prop
  | nil (vars : Blackboard) : Handed vars [] vars
  | cons {call : Call} {more : List Call} {after : Blackboard} (later : Handed call.left.actor.vars more after) :
      Handed call.scene.actor.vars (call :: more) after

theorem Handed.single {call : Call} {result : Except Fault Report} {t : Scene} (came : call.upshot = (result, t)) :
    Handed call.scene.actor.vars [call] t.actor.vars := by
  rw [← upshot_snd came]
  exact .cons (.nil _)

section

variable {node : Node} {sweep : Sweep} {path : Path} {s : Scene} {made : List Call} {upshot : Upshot Report}

theorem length_le_turns (visit : Visit) (ctx : Context) (move : Move) :
    visit.node.children.length ≤ turns visit ctx move := by
  unfold turns
  split
  · exact Nat.le_add_right _ _
  · exact Nat.le_refl _

theorem Course.of_move {visit : Visit} {conclusion : Conclusion} {turns : Nat} {before : Scene}
    (course : Course visit turns conclusion.move before s made upshot) :
    made = [] ∧ upshot = (.ok conclusion.report, s) := by
  cases conclusion <;> cases course <;> exact ⟨rfl, rfl⟩

/-- A rule that concludes makes no calls. -/
theorem Ruled.of_move {visit : Visit} {rule : TickM Move} {conclusion : Conclusion} {t : Scene}
    (ruled : Ruled visit rule s made upshot) (decided : rule.play s = (.ok conclusion.move, t)) :
    made = [] ∧ upshot = (.ok conclusion.report, t) := by
  cases ruled with
  | raised other => cases other.symm.trans decided
  | carried other course =>
    cases other.symm.trans decided
    exact course.of_move

/-- What follows from the verdict of a child, if the sweep is made right from the next child on. -/
theorem Course.follows {call : Call} {verdict : Verdict} {turns : Nat} {before : Scene}
    (course : Course (visitAt node path) turns (sweep.next node call.child verdict) before s made upshot)
    (lt : call.child < node.children.length) (came : call.result = .ok (.done verdict))
    (onward : sweep.next node call.child verdict = .enter (call.child + 1) sweep.memory →
      call.child + 1 < node.children.length →
        Stretch node sweep (call.child + 1) none made upshot.1 ∧ Handed s.actor.vars made upshot.2.actor.vars) :
    Stretch node sweep call.child call.state (call :: made) upshot.1 ∧ Handed s.actor.vars made upshot.2.actor.vars := by
  by_cases stops : verdict = sweep.stop
  · rw [Sweep.next, if_pos stops] at course
    obtain ⟨rfl, rfl⟩ := course.of_move
    exact ⟨.halted lt (stops ▸ came), .nil _⟩
  have passed := Verdict.eq_invert_of_ne stops
  by_cases more : call.child + 1 < node.children.length
  · obtain ⟨later, handed⟩ := onward (by rw [Sweep.next, if_neg stops, if_pos more]) more
    exact ⟨.onward lt (passed ▸ came) later, handed⟩
  · rw [Sweep.next, if_neg stops, if_neg more] at course
    obtain ⟨rfl, rfl⟩ := course.of_move
    exact ⟨.through lt (by omega) (passed ▸ came), .nil _⟩

/-- A child that is entered is ticked, and the sweep goes on from there. -/
theorem Course.sweeps (rules : sweep.Rules node) {turns i : Nat} {move : Move} {before : Scene}
    (course : Course (visitAt node path) turns move before s made upshot) (enters : move = .enter i sweep.memory)
    (lt : i < node.children.length) (enough : node.children.length ≤ turns + i) :
    Stretch node sweep i none made upshot.1 ∧ Handed s.actor.vars made upshot.2.actor.vars := by
  induction course generalizing i with
  | finish | rest => cases enters
  | spent =>
    cases enters
    omega
  | missing fault none =>
    cases enters
    exact absurd lt (Nat.not_lt.mpr (List.getElem?_eq_none_iff.mp none))
  | faulty here came =>
    cases enters
    exact ⟨.cut lt (upshot_fst came), .single came⟩
  | runs here came =>
    cases enters
    exact ⟨.runs lt (upshot_fst came), .single came⟩
  | raised here came heeded =>
    cases enters
    rw [visitAt_node, rules.heeds path _ _ lt] at heeded
    cases heeded
  | @onward turns k _ before s t u child verdict move more upshot here came heeded course ih =>
    cases enters
    rw [visitAt_node, rules.heeds path k verdict lt] at heeded
    cases heeded
    obtain ⟨stretch, handed⟩ := course.follows lt (upshot_fst came) fun enters more => ih enters more (by simp only; omega)
    exact ⟨stretch, .cons (upshot_snd came ▸ handed)⟩

/-- A sweep is made right from the child on that a rule enters. -/
theorem Ruled.sweeps (rules : sweep.Rules node) {rule : TickM Move} {i : Nat} {t : Scene}
    (ruled : Ruled (visitAt node path) rule s made upshot) (decided : rule.play s = (.ok (.enter i sweep.memory), t))
    (lt : i < node.children.length) :
    Stretch node sweep i none made upshot.1 ∧ Handed t.actor.vars made upshot.2.actor.vars := by
  cases ruled with
  | raised other => cases other.symm.trans decided
  | carried other course =>
    cases other.symm.trans decided
    exact course.sweeps rules rfl lt (Nat.le_add_right_of_le (length_le_turns (visitAt node path) _ _))

theorem vars_begun (visit : Visit) (s : Scene) : (begun visit s).actor.vars = s.actor.vars := by
  rw [begun, noteDebug_actor]

theorem vars_concluded (visit : Visit) (upshot : Upshot Report) :
    (concluded visit upshot).2.actor.vars = upshot.2.actor.vars := by
  obtain ⟨fault | report, t⟩ := upshot
  · rfl
  · rw [concluded, recorded, Scene.updateActor, noteDebug_actor]

end

/-! ### Ticks that begin a sweep, and ticks that go on with it -/

/-- The first move of a sweep. -/
def Sweep.first (sweep : Sweep) (node : Node) : Move :=
  if 0 < node.children.length then .enter 0 sweep.memory else sweep.through.move

/-- A tick begins a sweep, with these variables. -/
structure Begins (node : Node) (sweep : Sweep) (vars : Blackboard) (tick : Call) : Prop where
  sweeps : 0 < node.children.length → Stretch node sweep 0 none tick.made tick.result
  /-- A node without children is through at once. -/
  passes : node.children.length = 0 → tick.made = [] ∧ tick.result = .ok sweep.through.report
  handed : Handed vars tick.made tick.left.actor.vars

section

variable {sweep : Sweep} {tick : Call} (rules : sweep.Rules tick.node)

include rules

/-- A rule that decides for the first child begins the sweep. -/
theorem Ruled.begins {rule : TickM Move} {t : Scene} {upshot : Upshot Report}
    (ruled : Ruled tick.visit rule (begun tick.visit tick.scene) tick.made upshot)
    (decided : rule.play (begun tick.visit tick.scene) = (.ok (sweep.first tick.node), t))
    (same : tick.upshot = concluded tick.visit upshot) : Begins tick.node sweep t.actor.vars tick := by
  have result : tick.result = upshot.1 := (congrArg Prod.fst same).trans (concluded_fst _ _)
  have left : tick.left.actor.vars = upshot.2.actor.vars :=
    (congrArg (·.2.actor.vars) same).trans (vars_concluded _ _)
  rw [Sweep.first] at decided
  by_cases some : 0 < tick.node.children.length
  · rw [if_pos some] at decided
    obtain ⟨stretch, handed⟩ := ruled.sweeps rules decided some
    exact ⟨fun _ => result ▸ stretch, fun none => absurd some (by omega), left ▸ handed⟩
  · rw [if_neg some] at decided
    obtain ⟨none, rfl⟩ := ruled.of_move decided
    refine ⟨fun more => absurd more some, fun _ => ⟨none, result⟩, ?_⟩
    rw [none, left]
    exact .nil _

/-- A node whose start decides for the first child begins the sweep when it is entered. -/
theorem Call.begins_entered (fresh : tick.state = none) {t : Scene}
    (starts : (start tick.visit tick.node.kind).play (begun tick.visit tick.scene) = (.ok (sweep.first tick.node), t)) :
    Begins tick.node sweep t.actor.vars tick := by
  have ticked := tick.ticked
  generalize same : tick.upshot = upshot at ticked
  rw [fresh] at ticked
  generalize made : tick.made = calls at ticked
  cases ticked with
  | entered alone ruled => exact (made ▸ ruled).begins rules starts same
  | enteredBeside kind => exact absurd kind rules.alone

/-- A node that decides so after a rest begins the sweep when it goes on. -/
theorem Call.begins_rested {memory : Memory} (rested : tick.state = some (.resting memory)) {t : Scene}
    (goes : (goOn tick.visit tick.node.kind memory).play (begun tick.visit tick.scene) =
      (.ok (sweep.first tick.node), t)) : Begins tick.node sweep t.actor.vars tick := by
  have ticked := tick.ticked
  generalize same : tick.upshot = upshot at ticked
  rw [rested] at ticked
  generalize made : tick.made = calls at ticked
  cases ticked with
  | rested ruled => exact (made ▸ ruled).begins rules goes same

omit rules in
/-- A node that concludes at once when it is entered makes no ticks. -/
theorem Call.concludes_entered (conclusion : Conclusion) {t : Scene} (alone : tick.node.kind ≠ .parallel)
    (fresh : tick.state = none)
    (starts : (start tick.visit tick.node.kind).play (begun tick.visit tick.scene) = (.ok conclusion.move, t)) :
    tick.made = [] ∧ tick.upshot = concluded tick.visit (.ok conclusion.report, t) := by
  have ticked := tick.ticked
  generalize tick.upshot = upshot at ticked ⊢
  rw [fresh] at ticked
  generalize tick.made = made at ticked ⊢
  cases ticked with
  | entered _ ruled =>
    obtain ⟨none, rfl⟩ := ruled.of_move starts
    exact ⟨none, rfl⟩
  | enteredBeside kind => exact absurd kind alone

/-- A tick that goes on from a child that runs goes on with the sweep there. -/
theorem Call.sweeps_on {i : Nat} {saved : Active} (goesOn : tick.state = some (.over sweep.memory i saved))
    (lt : i < tick.node.children.length) :
    Stretch tick.node sweep i (some saved) tick.made tick.result ∧
      Handed tick.scene.actor.vars tick.made tick.left.actor.vars := by
  have ticked := tick.ticked
  have result : tick.result = tick.upshot.1 := rfl
  have left : tick.left.actor.vars = tick.upshot.2.actor.vars := rfl
  rw [result, left]
  generalize tick.upshot = upshot at ticked
  rw [goesOn] at ticked
  generalize tick.made = made at ticked ⊢
  cases ticked with
  | expired late =>
    rw [Lapsed, Call.visit_node, rules.timeless] at late
    cases late
  | missing fault early none => exact absurd lt (Nat.not_lt.mpr (List.getElem?_eq_none_iff.mp none))
  | faulty early here came => exact ⟨.cut lt (upshot_fst came), .single came⟩
  | runs early here came => exact ⟨.runs lt (upshot_fst came), .single came⟩
  | @back _ _ _ _ t child verdict made upshot early here came ruled =>
    rw [concluded_fst, vars_concluded]
    rw [Call.visit_node, Call.visit, rules.heeds _ i verdict lt] at ruled
    cases ruled with
    | raised other => cases other
    | carried other course =>
      cases other
      obtain ⟨stretch, handed⟩ := course.follows lt (upshot_fst came) fun enters more =>
        course.sweeps rules enters more (Nat.le_add_right_of_le (length_le_turns tick.visit _ _))
      rw [← visit, vars_begun, ← upshot_snd came] at handed
      exact ⟨stretch, .cons handed⟩

end

/-! ### What a tick comes to -/

/-- How the last child that a tick turns to decides what comes of the tick. -/
inductive Decides (node : Node) (sweep : Sweep) (last : Call) : Except Fault Report → Prop
  | halted (came : last.result = .ok (.done sweep.stop)) : Decides node sweep last (.ok sweep.halted.report)
  | through (passed : last.child + 1 = node.children.length) (came : last.result = .ok (.done sweep.stop.invert)) :
      Decides node sweep last (.ok sweep.through.report)
  | runs {saved : Active} (came : last.result = .ok (.running saved)) :
      Decides node sweep last (.ok (.running (.over sweep.memory last.child saved)))
  | cut {fault : Fault} (came : last.result = .error fault) : Decides node sweep last (.error fault)

namespace Decides

variable {node : Node} {sweep : Sweep} {last : Call} {result : Except Fault Report}

/-- A stretch ends with the halting conclusion just when its last child has reported the stop. -/
theorem halts (rules : sweep.Rules node) (decides : Decides node sweep last result) :
    result = .ok sweep.halted.report ↔ last.result = .ok (.done sweep.stop) := by
  cases decides with
  | halted came => exact ⟨fun _ => came, fun _ => rfl⟩
  | through _ came =>
    rw [came, Except.ok.injEq, Except.ok.injEq, Report.done.injEq]
    exact ⟨fun same => absurd same.symm rules.apart, fun same => absurd same sweep.stop.invert_ne⟩
  | runs came =>
    rw [came, Except.ok.injEq, Except.ok.injEq]
    exact ⟨fun same => absurd same.symm (Conclusion.report_ne _ _ _ _), nofun⟩
  | cut came =>
    rw [came]
    exact ⟨nofun, nofun⟩

/-- A stretch is through just when the last child of all has reported the other verdict. -/
theorem passes (rules : sweep.Rules node) (decides : Decides node sweep last result) :
    result = .ok sweep.through.report ↔
      last.child + 1 = node.children.length ∧ last.result = .ok (.done sweep.stop.invert) := by
  cases decides with
  | halted came =>
    rw [came, Except.ok.injEq, Except.ok.injEq, Report.done.injEq]
    exact ⟨fun same => absurd same rules.apart, fun ⟨_, same⟩ => absurd same.symm sweep.stop.invert_ne⟩
  | through passed came => exact ⟨fun _ => ⟨passed, came⟩, fun _ => rfl⟩
  | runs came =>
    rw [came, Except.ok.injEq, Except.ok.injEq]
    exact ⟨fun same => absurd same.symm (Conclusion.report_ne _ _ _ _), fun ⟨_, other⟩ => nomatch other⟩
  | cut came =>
    rw [came]
    exact ⟨nofun, fun ⟨_, other⟩ => nomatch other⟩

/-- A stretch goes on just when its last child is running. -/
theorem runs_iff (decides : Decides node sweep last result) (i : Nat) (saved : Active) :
    result = .ok (.running (.over sweep.memory i saved)) ↔ last.child = i ∧ last.result = .ok (.running saved) := by
  cases decides with
  | halted came | through _ came =>
    rw [came, Except.ok.injEq, Except.ok.injEq]
    exact ⟨fun same => absurd same (Conclusion.report_ne _ _ _ _), fun ⟨_, other⟩ => nomatch other⟩
  | runs came =>
    rw [came]
    exact ⟨fun same => by cases same; exact ⟨rfl, rfl⟩, fun ⟨own, same⟩ => by cases own; cases same; rfl⟩
  | cut came =>
    rw [came]
    exact ⟨nofun, fun ⟨_, other⟩ => nomatch other⟩

theorem cut_iff (decides : Decides node sweep last result) (fault : Fault) :
    result = .error fault ↔ last.result = .error fault := by
  cases decides with
  | halted came | through _ came | runs came =>
    rw [came]
    exact ⟨nofun, nofun⟩
  | cut came => rw [came]

/-- A stretch halts, is through, goes on or ends in a fault. -/
theorem outcome (decides : Decides node sweep last result) :
    result = .ok sweep.halted.report ∨ result = .ok sweep.through.report ∨
      (∃ i saved, result = .ok (.running (.over sweep.memory i saved))) ∨ ∃ fault, result = .error fault := by
  cases decides with
  | halted => exact .inl rfl
  | through => exact .inr (.inl rfl)
  | runs => exact .inr (.inr (.inl ⟨_, _, rfl⟩))
  | cut => exact .inr (.inr (.inr ⟨_, rfl⟩))

end Decides

/-- The first child to be entered, from a child on that is fresh or goes on. -/
def entering (i : Nat) : Option Active → Nat
  | none => i
  | some _ => i + 1

namespace Stretch

variable {node : Node} {sweep : Sweep} {i : Nat} {state : Option Active} {made : List Call} {result : Except Fault Report}

theorem lt (stretch : Stretch node sweep i state made result) : i < node.children.length := by
  cases stretch <;> assumption

/-- All calls of a stretch but the last pass, and the last decides. -/
theorem decides (stretch : Stretch node sweep i state made result) :
    ∃ passed last, made = passed ++ [last] ∧ last.child < node.children.length ∧ Decides node sweep last result ∧
      ∀ call ∈ passed, call.result = .ok (.done sweep.stop.invert) ∧ call.child + 1 < node.children.length := by
  have none {P : Call → Prop} : ∀ call ∈ [], P call := fun _ member => absurd member List.not_mem_nil
  induction stretch with
  | @halted call lt came => exact ⟨[], call, rfl, lt, .halted came, none⟩
  | @through call lt last came => exact ⟨[], call, rfl, lt, .through last came, none⟩
  | @runs call _ lt came => exact ⟨[], call, rfl, lt, .runs came, none⟩
  | @cut call _ lt came => exact ⟨[], call, rfl, lt, .cut came, none⟩
  | @onward call _ _ _ came later ih =>
    obtain ⟨passed, last, rfl, lt, decides, before⟩ := ih
    exact ⟨call :: passed, last, rfl, lt, decides, List.forall_mem_cons.mpr ⟨⟨came, later.lt⟩, before⟩⟩

/-- The first child goes on from the saved state, and the others are entered afresh, in order. -/
theorem entered (stretch : Stretch node sweep i state made result) :
    ∃ first later, made = first :: later ∧ first.child = i ∧ first.state = state ∧ (∀ call ∈ later, call.state = none) ∧
      made.map Call.child = List.range' i made.length ∧ i + made.length ≤ node.children.length := by
  have none {P : Call → Prop} : ∀ call ∈ [], P call := fun _ member => absurd member List.not_mem_nil
  induction stretch with
  | halted lt | through lt | runs lt | cut lt => exact ⟨_, _, rfl, rfl, rfl, none, rfl, lt⟩
  | onward lt came _ ih =>
    obtain ⟨first, later, rfl, own, fresh, others, order, fits⟩ := ih
    refine ⟨_, _, rfl, rfl, rfl, List.forall_mem_cons.mpr ⟨fresh, others⟩, ?_, ?_⟩
    · rw [List.map_cons, order, List.length_cons, List.length_cons, List.range'_succ]
      rfl
    · simp only [List.length_cons] at fits ⊢
      omega

/-- The children entered in a stretch are consecutive ones. -/
theorem map_child_filter (stretch : Stretch node sweep i state made result) :
    ∃ n, (made.filter fun call => call.state.isNone).map Call.child = List.range' (entering i state) n ∧
      i + made.length = entering i state + n := by
  obtain ⟨first, later, rfl, own, rfl, fresh, order, -⟩ := stretch.entered
  have all : later.filter (fun call => call.state.isNone) = later :=
    List.filter_eq_self.mpr fun call member => by rw [fresh call member]; rfl
  rw [List.map_cons, List.length_cons, List.range'_succ, List.cons.injEq] at order
  rcases saved : first.state with _ | active
  · refine ⟨later.length + 1, ?_, rfl⟩
    rw [List.filter_cons_of_pos (by rw [saved]; rfl), all, List.map_cons, order.1, order.2]
    rfl
  · refine ⟨later.length, ?_, ?_⟩
    · rw [List.filter_cons_of_neg (by rw [saved]; exact nofun), all, order.2]
      rfl
    · rw [List.length_cons]
      exact (Nat.add_right_comm i 1 later.length).symm

/-- A child is entered right after the one before it has been passed. -/
theorem enters_iff (stretch : Stretch node sweep i state made result) (k : Nat) :
    (∃ call ∈ made, call.child = k + 1 ∧ call.state = none) ↔
      (state = none ∧ k + 1 = i) ∨
        ((∃ call ∈ made, call.child = k ∧ call.result = .ok (.done sweep.stop.invert)) ∧
          k + 1 < node.children.length) := by
  induction stretch with
  | @halted call lt came =>
    simp only [List.mem_singleton, exists_eq_left, came, Except.ok.injEq, Report.done.injEq]
    have other := (Verdict.invert_ne sweep.stop).symm
    constructor
    · rintro ⟨own, fresh⟩
      exact .inl ⟨fresh, own.symm⟩
    · rintro (⟨fresh, own⟩ | ⟨⟨-, same⟩, -⟩)
      · exact ⟨own.symm, fresh⟩
      · exact absurd same other
  | @through call lt last came =>
    simp only [List.mem_singleton, exists_eq_left]
    constructor
    · rintro ⟨own, fresh⟩
      exact .inl ⟨fresh, own.symm⟩
    · rintro (⟨fresh, own⟩ | ⟨⟨own, -⟩, more⟩)
      · exact ⟨own.symm, fresh⟩
      · omega
  | @runs call saved lt came =>
    simp only [List.mem_singleton, exists_eq_left, came, Except.ok.injEq, reduceCtorEq, and_false, false_and, or_false]
    exact ⟨fun ⟨own, fresh⟩ => ⟨fresh, own.symm⟩, fun ⟨fresh, own⟩ => ⟨own.symm, fresh⟩⟩
  | @cut call fault lt came =>
    simp only [List.mem_singleton, exists_eq_left, came, reduceCtorEq, and_false, false_and, or_false]
    exact ⟨fun ⟨own, fresh⟩ => ⟨fresh, own.symm⟩, fun ⟨fresh, own⟩ => ⟨own.symm, fresh⟩⟩
  | @onward call more result lt came later ih =>
    have next := later.lt
    simp only [List.mem_cons, exists_eq_or_imp, ih]
    constructor
    · rintro (⟨own, fresh⟩ | ⟨-, own⟩ | ⟨passed, lt⟩)
      · exact .inl ⟨fresh, own.symm⟩
      · exact .inr ⟨.inl ⟨by omega, came⟩, by omega⟩
      · exact .inr ⟨.inr passed, lt⟩
    · rintro (⟨fresh, own⟩ | ⟨⟨own, -⟩ | passed, lt⟩)
      · exact .inl ⟨own.symm, fresh⟩
      · exact .inr (.inl ⟨trivial, by omega⟩)
      · exact .inr (.inr ⟨passed, lt⟩)

/-- A child that runs is the last one that the tick turns to. -/
theorem length_of_left {j : Nat} {saved : Active} (stretch : Stretch node sweep i state made result)
    (left : result = .ok (.running (.over sweep.memory j saved))) : i + made.length = j + 1 := by
  induction stretch with
  | halted | through => cases (Conclusion.report_ne _ _ _ _) (Except.ok.inj left)
  | runs =>
    cases left
    rfl
  | cut => cases left
  | onward _ _ _ ih =>
    rw [List.length_cons]
    have later := ih left
    omega

/-- A tick leaves a child running of those that are gone through. -/
theorem left {memory : Memory} {j : Nat} {saved : Active} (stretch : Stretch node sweep i state made result)
    (left : result = .ok (.running (.over memory j saved))) : memory = sweep.memory ∧ j < node.children.length := by
  obtain ⟨passed, last, -, lt, decides, -⟩ := stretch.decides
  cases decides with
  | halted | through => cases (Conclusion.report_ne _ _ _ _) (Except.ok.inj left)
  | runs =>
    cases left
    exact ⟨rfl, lt⟩
  | cut => cases left

end Stretch

/-- What a tick comes to in which a node goes through its children. -/
structure Leg (node : Node) (sweep : Sweep) (tick : Call) : Prop where
  own : ∀ call ∈ tick.made, node.children[call.child]? = some call.node
  /-- A child is entered in the tick in which the one before it has been passed, and in no other. -/
  onward : ∀ k, k + 1 < node.children.length →
    ((∃ call ∈ tick.made, call.child = k + 1 ∧ call.state = none) ↔
      ∃ call ∈ tick.made, call.child = k ∧ call.result = .ok (.done sweep.stop.invert))
  /-- It can go on only from the first child that it turns to. -/
  fresh : ∀ call ∈ tick.made.tail, call.state = none
  /-- Every child that the tick turns to has been passed, but for the last one. -/
  passed : ∀ call ∈ tick.made.dropLast, call.result = .ok (.done sweep.stop.invert)
  halts : tick.result = .ok sweep.halted.report ↔ ∃ call ∈ tick.made, call.result = .ok (.done sweep.stop)
  passes : tick.result = .ok sweep.through.report ↔ node.children = [] ∨
    ∃ call ∈ tick.made, call.child + 1 = node.children.length ∧ call.result = .ok (.done sweep.stop.invert)
  runs : ∀ i saved, tick.result = .ok (.running (.over sweep.memory i saved)) ↔
    ∃ call ∈ tick.made, call.child = i ∧ call.result = .ok (.running saved)
  cut : ∀ fault, tick.result = .error fault ↔ ∃ call ∈ tick.made, call.result = .error fault
  outcome : tick.result = .ok sweep.halted.report ∨ tick.result = .ok sweep.through.report ∨
    (∃ i saved, tick.result = .ok (.running (.over sweep.memory i saved))) ∨ ∃ fault, tick.result = .error fault

/-- Whatever else a tick comes to, it is because the last child has been passed. -/
theorem Leg.result_iff {node : Node} {sweep : Sweep} {tick : Call} (leg : Leg node sweep tick) (report : Report)
    (other : report ≠ sweep.halted.report) (still : ∀ memory i saved, report ≠ .running (.over memory i saved)) :
    tick.result = .ok report ↔ sweep.through.report = report ∧ tick.result = .ok sweep.through.report := by
  refine ⟨fun came => ?_, fun ⟨same, came⟩ => same ▸ came⟩
  rcases leg.outcome with halted | through | ⟨i, saved, runs⟩ | ⟨fault, failed⟩
  · exact absurd (Except.ok.inj (came.symm.trans halted)) other
  · exact ⟨Except.ok.inj (through.symm.trans came), through⟩
  · exact absurd (Except.ok.inj (came.symm.trans runs)) (still _ _ _)
  · cases came.symm.trans failed

section

variable {node : Node} {sweep : Sweep} {i : Nat} {state : Option Active} {tick : Call}

/-- A tick that makes a stretch is a leg of the sweep. -/
theorem Stretch.leg (rules : sweep.Rules node) (own : tick.node = node) (begins : state = none → i = 0)
    (stretch : Stretch node sweep i state tick.made tick.result) : Leg node sweep tick := by
  have some := stretch.lt
  obtain ⟨passed, last, made, -, decides, before⟩ := stretch.decides
  -- Whatever a child reports that has not been passed, it is the last one.
  have at_last {P : Call → Prop} (other : ∀ call ∈ passed, ¬ P call) : (∃ call ∈ tick.made, P call) ↔ P last := by
    rw [made]
    refine ⟨fun ⟨call, member, holds⟩ => ?_,
      fun holds => ⟨last, List.mem_append_right _ (List.mem_singleton_self _), holds⟩⟩
    rcases List.mem_append.mp member with inside | inside
    · exact absurd holds (other call inside)
    · exact List.mem_singleton.mp inside ▸ holds
  refine ⟨fun call member => own ▸ Call.child_made member, fun k lt => ?_, ?_, ?_, ?_, ?_, fun i saved => ?_,
    fun fault => ?_,
    decides.outcome⟩
  · have enters := stretch.enters_iff k
    rwa [and_iff_left lt, or_iff_right fun ⟨fresh, same⟩ => absurd (begins fresh) (by omega)] at enters
  · obtain ⟨first, later, split, -, -, fresh, -⟩ := stretch.entered
    rw [split]
    exact fresh
  · rw [made, List.dropLast_concat]
    exact fun call member => (before call member).1
  · rw [decides.halts rules, at_last fun call member same => ?_]
    rw [(before call member).1, Except.ok.injEq, Report.done.injEq] at same
    exact sweep.stop.invert_ne same
  · rw [decides.passes rules, at_last fun call member passed => ?_, or_iff_right fun none => ?_]
    · rw [none] at some
      cases some
    · exact absurd (before call member).2 (by omega)
  · rw [decides.runs_iff, at_last fun call member goes => ?_]
    cases (before call member).1.symm.trans goes.2
  · rw [decides.cut_iff, at_last fun call member failed => ?_]
    cases (before call member).1.symm.trans failed

end

end Descent
end BehaviorTree
