import BehaviorTree.Proofs.Descent.Decision

/-!
Nodes with any number of children decide on a stack what the rules of the descent say: on a fresh
tick, when they go on with no child active, and when the child that they waited for has completed.
The loops over the children are followed from any child on, with enough turns for those left.
-/

namespace BehaviorTree.Descent

open Visit (Iteration limit?)

variable {node : Node} {path : Path} {progress : Option Progress} {tasks : List Task}

/-! ### Sequence and Selector -/

/-- Sequence and Selector, which stop at a verdict. -/
def StopsAt (node : Node) (stop : Verdict) : Prop :=
  node.kind = .sequence ∧ stop = .failure ∨ node.kind = .selector ∧ stop = .success

theorem decision_nextChild (stop : Verdict) (i : Nat) :
    decision node path (nextChild (visitAt node path) stop i) =
      decisionWithin node path node.children.length (nextChild (visitAt node path) stop i) := by
  refine decision_of_turns fun ctx => ?_
  unfold nextChild
  split <;> rfl

theorem heed_of_stopsAt {stop : Verdict} (stops : StopsAt node stop) (memory : Memory) (i : Nat)
    (verdict : Verdict) :
    heed (visitAt node path) node.kind memory i verdict =
      pure (if verdict = stop then .finish stop else nextChild (visitAt node path) stop (i + 1)) := by
  rcases stops with ⟨kind, rfl⟩ | ⟨kind, rfl⟩ <;> rw [kind] <;> rfl

/-- Running the rest of the children comes to deciding for the next of them. -/
theorem runFrom_eq (agree : Agree node.children) {stop : Verdict} (stops : StopsAt node stop)
    (rest : List Node) (i turns : Nat) (h : node.children.drop i = rest)
    (enough : rest.length ≤ turns) :
    (onStack node progress tasks path).runFrom stop i (rest.map Node.tick) =
      decisionWithin node path turns (nextChild (visitAt node path) stop i) := by
  induction rest generalizing i turns with
  | nil =>
    have past : ¬ i < node.children.length := by simpa using h
    rw [nextChild, if_neg (by exact past), decisionWithin_finish]
    rfl
  | cons child rest ih =>
    have here : node.children[i]? = some child := by
      rw [← List.head?_drop, h]
      rfl
    have inside : i < node.children.length := (List.getElem?_eq_some_iff.mp here).1
    obtain ⟨turns, rfl⟩ := Nat.exists_eq_add_of_le' (Nat.le_trans (Nat.succ_pos _) enough)
    have later := ih (i + 1) turns (by rw [← List.drop_drop, h]; rfl) (Nat.le_of_succ_le_succ enough)
    rw [nextChild, if_pos (by exact inside)]
    refine (decisionWithin_enter agree turns i .nothing here (fun above => ?_) fun verdict => ?_).symm
    · rcases stops with ⟨kind, _⟩ | ⟨kind, _⟩ <;> rw [kind] <;> rfl
    · rw [heed_of_stopsAt stops, pure_bind]
      by_cases stopped : verdict = stop
      · simp only [if_pos stopped, decisionWithin_finish]
      · simp only [if_neg stopped]
        exact later

theorem runUntil_start (agree : Agree node.children) {stop : Verdict} (stops : StopsAt node stop) :
    (onStack node none tasks path).runUntil stop =
      decision node path (nextChild (visitAt node path) stop 0) := by
  rw [decision_nextChild, ← runFrom_eq agree stops node.children 0 _ rfl (Nat.le_refl _)]
  rfl

/-- A Sequence or Selector that is resumed heeds its child's verdict. -/
theorem runUntil_heed (agree : Agree node.children) {stop : Verdict} (stops : StopsAt node stop)
    (i : Nat) {s : Scene} {verdict : Verdict} (reported : s.actor.last = verdict.status) :
    ((onStack node (some (.child i)) tasks path).runUntil stop).play s =
      (heed (visitAt node path) node.kind .nothing i verdict >>= decision node path).play s := by
  rw [Visit.runUntil, heed_of_stopsAt stops, pure_bind]
  simp only [onStack]
  rw [TickM.play_bind_ok (Visit.play_childVerdict _ reported)]
  by_cases stopped : verdict = stop
  · rw [if_pos stopped, if_pos stopped, decision_finish]
  · rw [if_neg stopped, if_neg stopped, decision_nextChild,
      ← runFrom_eq agree stops _ (i + 1) _ rfl (by simp)]
    rw [onStack, List.map_drop]

/-! ### IfElse -/

/-- A child that the condition can choose, or nothing in its place. -/
theorem branch_eq (agree : Agree node.children) (kind : node.kind = .ifElse) (turns i : Nat)
    (chosen : i ≠ 0) :
    (match (node.children.map Node.tick)[i]? with
      | none => return .success
      | some tick => do
        match ← tick path with
        | .running above => return .await .branching above
        | .done verdict => return .finish verdict : TickM Step) =
      decisionWithin node path (turns + 1)
        (if i < node.children.length then .enter i .nothing else .finish .success) := by
  rcases here : node.children[i]? with _ | child
  · have past : ¬ i < node.children.length := by simpa using here
    rw [if_neg past, decisionWithin_finish, List.getElem?_map, here]
    rfl
  · have inside : i < node.children.length := (List.getElem?_eq_some_iff.mp here).1
    rw [if_pos inside, List.getElem?_map, here]
    refine (decisionWithin_enter agree turns i .nothing here (fun above => ?_) fun verdict => ?_).symm
    · simp only [kind, progressOver, if_neg chosen]
      rfl
    · simp only [kind, heed, if_neg chosen, pure_bind, decisionWithin_finish]

variable (node path) in
theorem decision_chosenChild (condition : Verdict) :
    decision node path (chosenChild (visitAt node path) condition) =
      decisionWithin node path node.children.length (chosenChild (visitAt node path) condition) := by
  refine decision_of_turns fun ctx => ?_
  cases condition <;> simp only [chosenChild] <;> split <;> rfl

variable (progress tasks) in
theorem runBranch_eq (agree : Agree node.children) (kind : node.kind = .ifElse) (turns : Nat)
    (condition : Verdict) :
    (onStack node progress tasks path).runBranch condition =
      decisionWithin node path (turns + 1) (chosenChild (visitAt node path) condition) := by
  cases condition with
  | success => exact branch_eq agree kind turns 1 (by decide)
  | failure => exact branch_eq agree kind turns 2 (by decide)

/-- An IfElse node begins with its test. -/
theorem ifElse_start (agree : Agree node.children) (kind : node.kind = .ifElse)
    (shaped : node.Shaped) :
    (onStack node none tasks path).ifElse = decision node path (.enter 0 .nothing) := by
  obtain ⟨enough, _⟩ := shaped.ifElse_length kind
  obtain ⟨turns, count⟩ := Nat.exists_eq_add_of_le' enough
  have here : node.children[0]? = some node.children[0] := List.getElem?_eq_getElem _
  rw [decision_enter .nothing nofun, count, decisionWithin_enter agree (turns + 1) 0 .nothing here]
  · simp only [Visit.ifElse, Visit.tickChild, onStack, List.getElem?_map, here]
    rfl
  · simp only [kind]
    exact fun above => rfl
  · intro verdict
    simp only [kind, heed, if_pos, pure_bind]
    exact runBranch_eq none tasks agree kind turns verdict

/-- An IfElse node that is resumed heeds its child's verdict, the test's or the branch's. -/
theorem ifElse_heed (agree : Agree node.children) (kind : node.kind = .ifElse)
    (shaped : node.Shaped) (i : Nat) {s : Scene} {verdict : Verdict}
    (reported : s.actor.last = verdict.status) :
    ((onStack node (some (if i = 0 then .testing else .branching)) tasks path).ifElse).play s =
      (heed (visitAt node path) node.kind .nothing i verdict >>= decision node path).play s := by
  obtain ⟨enough, _⟩ := shaped.ifElse_length kind
  obtain ⟨turns, count⟩ := Nat.exists_eq_add_of_le' enough
  have chosen := decision_chosenChild node path verdict
  rw [count, ← runBranch_eq (some .testing) tasks agree kind (turns + 1)] at chosen
  simp only [kind, heed, pure_bind]
  by_cases first : i = 0
  · rw [if_pos first, if_pos first, chosen]
    exact TickM.play_bind_ok (Visit.play_childVerdict _ reported) _
  · rw [if_neg first, if_neg first, decision_finish]
    exact TickM.play_bind_ok (Visit.play_childVerdict _ reported) _

/-! ### Loop and Foreach -/

/-- Loop and Foreach. -/
def Iterates (node : Node) : Prop := node.kind = .loop ∨ node.kind = .foreach

theorem Iterates.rests (iterates : Iterates node) {memory : Memory} (rests : RestsWith node.kind memory) :
    ∃ it, memory = .round it ∧ progressAt node.kind memory = it.progress 0 false := by
  rcases iterates with kind | kind <;> rw [kind] at rests ⊢ <;> cases memory
  all_goals first | exact ⟨_, rfl, rfl⟩ | exact rests.elim

theorem Iterates.waits (iterates : Iterates node) {memory : Memory} {i : Nat}
    (waits : WaitsWith node.kind memory i) :
    ∃ it, memory = .round it ∧ it.isOver = false ∧ progressOver node.kind memory i = it.progress i true := by
  rcases iterates with kind | kind <;> rw [kind] at waits ⊢ <;> cases memory
  all_goals first | exact ⟨_, rfl, waits, rfl⟩ | exact waits.elim

theorem decision_nextInRound (it : Iteration) (i : Nat) :
    decision node path (nextInRound (visitAt node path) it i) =
      decisionWithin node path node.children.length (nextInRound (visitAt node path) it i) := by
  refine decision_of_turns fun ctx => ?_
  simp only [nextInRound]
  split
  · rfl
  · split <;> rfl

theorem heed_of_iterates (iterates : Iterates node) (memory : Memory) (i : Nat) (verdict : Verdict) :
    heed (visitAt node path) node.kind memory i verdict =
      pure (heedInRound (visitAt node path) memory i verdict) := by
  rcases iterates with kind | kind <;> rw [kind] <;> rfl

@[simp] theorem heedInRound_failure (visit : Visit) (memory : Memory) (i : Nat) :
    heedInRound visit memory i .failure = .finish .failure := by
  cases memory <;> rfl

variable (path progress tasks) in
/-- Running the rest of an iteration comes to deciding for the next child in it. -/
theorem runIteration_eq (agree : Agree node.children) (iterates : Iterates node) (it : Iteration)
    (rest : List Node) (i turns : Nat) (h : node.children.drop i = rest)
    (enough : rest.length ≤ turns) :
    (onStack node progress tasks path).runIteration it i (rest.map Node.tick) =
      decisionWithin node path turns (nextInRound (visitAt node path) it i) := by
  induction rest generalizing i turns with
  | nil =>
    have past : ¬ i < node.children.length := by simpa using h
    simp only [nextInRound]
    rw [if_neg (by exact past), List.map_nil, Visit.runIteration]
    by_cases last : ({ it with index := it.index + 1 } : Iteration).isOver = true
    · simp only [if_pos last, decisionWithin_finish]
      rfl
    · simp only [if_neg last, decisionWithin_rest]
      rcases iterates with kind | kind <;> rw [kind] <;> rfl
  | cons child rest ih =>
    have here : node.children[i]? = some child := by
      rw [← List.head?_drop, h]
      rfl
    have inside : i < node.children.length := (List.getElem?_eq_some_iff.mp here).1
    obtain ⟨turns, rfl⟩ := Nat.exists_eq_add_of_le' (Nat.le_trans (Nat.succ_pos _) enough)
    have later := ih (i + 1) turns (by rw [← List.drop_drop, h]; rfl) (Nat.le_of_succ_le_succ enough)
    rw [nextInRound, if_pos (by exact inside)]
    refine (decisionWithin_enter agree turns i (.round it) here (fun above => ?_)
      fun verdict => ?_).symm
    · rcases iterates with kind | kind <;> rw [kind] <;> rfl
    · rw [heed_of_iterates iterates, pure_bind]
      cases verdict with
      | success => exact later
      | failure =>
        rw [heedInRound_failure, decisionWithin_finish]
        rfl

variable (progress tasks) in
/-- An iteration that begins. -/
theorem enterIteration_zero (agree : Agree node.children) (iterates : Iterates node)
    (it : Iteration) :
    (onStack node progress tasks path).enterIteration (writeRound (visitAt node path)) it 0 =
      startRound (visitAt node path) it >>= decision node path := by
  have children := runIteration_eq path progress tasks agree iterates it node.children 0 _
    rfl (Nat.le_refl _)
  simp only [Visit.enterIteration, startRound]
  by_cases last : it.isOver = true
  · simp only [if_pos last, pure_bind, decision_finish]
    rfl
  · simp only [if_neg last, if_true, pure_bind, bind_assoc, decision_nextInRound, ← children]
    rfl

/-- An iteration that goes on with a later child. -/
theorem enterIteration_succ (agree : Agree node.children) (iterates : Iterates node)
    (it : Iteration) (underWay : it.isOver = false) (i : Nat) :
    (onStack node progress tasks path).enterIteration (writeRound (visitAt node path)) it (i + 1) =
      decision node path (nextInRound (visitAt node path) it (i + 1)) := by
  have children := runIteration_eq path progress tasks agree iterates it
    (node.children.drop (i + 1)) (i + 1) node.children.length rfl (by simp)
  rw [decision_nextInRound, ← children]
  simp [Visit.enterIteration, underWay, onStack]

theorem run_of_iterates (iterates : Iterates node) :
    (onStack node progress tasks path).run =
      (onStack node progress tasks path).iterate (firstRound (visitAt node path))
        (writeRound (visitAt node path)) := by
  have writes : writeRound (visitAt node path) = fun it => writeRound (visitAt node path) it := rfl
  rcases iterates with kind | kind <;> rw [writes] <;>
    simp only [Visit.run, firstRound, writeRound, visitAt, onStack, kind] <;> rfl

/-- An iterating node begins by its rule. -/
theorem iterate_start (agree : Agree node.children) (iterates : Iterates node) :
    (onStack node none tasks path).run =
      start (visitAt node path) node.kind >>= decision node path := by
  have begins : start (visitAt node path) node.kind =
      firstRound (visitAt node path) >>= startRound (visitAt node path) := by
    rcases iterates with kind | kind <;> rw [kind] <;> rfl
  simp only [run_of_iterates iterates, begins, bind_assoc,
    ← enterIteration_zero none tasks agree iterates]
  rfl

theorem iterate_goOn (agree : Agree node.children) (iterates : Iterates node) (it : Iteration) :
    (onStack node (some (it.progress 0 false)) tasks path).run =
      startRound (visitAt node path) it >>= decision node path := by
  rw [run_of_iterates iterates,
    ← enterIteration_zero (some (it.progress 0 false)) tasks agree iterates]
  rfl

variable (tasks) in
/-- An iterating node that is resumed heeds its child's verdict. -/
theorem iterate_heed (agree : Agree node.children) (iterates : Iterates node) (it : Iteration)
    (underWay : it.isOver = false) (i : Nat) {s : Scene} {verdict : Verdict}
    (reported : s.actor.last = verdict.status) :
    (onStack node (some (it.progress i true)) tasks path).run.play s =
      (heed (visitAt node path) node.kind (.round it) i verdict >>= decision node path).play s := by
  rw [run_of_iterates iterates, heed_of_iterates iterates, pure_bind]
  simp only [Visit.iterate, onStack, Iteration.progress]
  rw [TickM.play_bind_ok (Visit.play_childVerdict _ reported)]
  cases verdict with
  | success =>
    rw [heedInRound, ← enterIteration_succ agree iterates it underWay i]
    rfl
  | failure =>
    rw [heedInRound_failure, decision_finish]
    rfl

end BehaviorTree.Descent
