import BehaviorTree.Proofs.Descent.Decision

/-!
Nodes without children decide on a stack what the rules of the descent say. Except for Wait, they
complete in the tick in which they are entered.
-/

namespace BehaviorTree.Descent

variable {node : Node} {path : Path} {progress : Option Progress} {tasks : List Task}

/-- What the nodes without children do that complete at once. -/
def leaf? (visit : Visit) : Kind → Option (TickM Step)
  | .check => some visit.check
  | .isNull => some visit.isNull
  | .notNull => some visit.notNull
  | .isStatus => some visit.isStatus
  | .calculate => some visit.calculate
  | .constant => some visit.constant
  | .push => some visit.push
  | .clear => some visit.clear
  | .log => some visit.log
  | .now => some visit.now
  | _ => none

open TickM (Yields yields_pure yields_bind)

/-- A leaf completes at once. -/
theorem leaf?_yields {visit : Visit} {kind : Kind} {x : TickM Step} (leaf : leaf? visit kind = some x) :
    Yields x fun step => ∃ verdict, step = .finish verdict := by
  have finishes (verdict : Verdict) : Yields (pure (.finish verdict) : TickM Step)
      fun step => ∃ verdict, step = .finish verdict := yields_pure ⟨verdict, rfl⟩
  cases kind with
  | check => cases leaf; exact yields_bind fun _ => finishes _
  | isNull => cases leaf; exact yields_bind fun _ => finishes _
  | notNull => cases leaf; exact yields_bind fun _ => finishes _
  | isStatus => cases leaf; exact yields_bind fun _ => finishes _
  | calculate => cases leaf; exact yields_bind fun _ => yields_bind fun _ => finishes _
  | constant => cases leaf; exact yields_bind fun _ => finishes _
  | push =>
    cases leaf
    refine yields_bind fun _ => yields_bind fun v => ?_
    split
    · exact yields_bind fun _ => finishes _
    · exact finishes _
  | clear =>
    cases leaf
    refine yields_bind fun _ => ?_
    split
    · exact yields_bind fun _ => finishes _
    · exact finishes _
  | log => cases leaf; exact yields_bind fun _ => yields_bind fun _ => finishes _
  | now => cases leaf; exact yields_bind fun _ => yields_bind fun _ => finishes _
  | _ => cases leaf

/-- A verdict that a node came to at once is all that it decides. -/
theorem decision_leafMove {x : TickM Step} (finishes : Yields x fun step => ∃ v, step = .finish v) :
    leafMove <$> x >>= decision node path = x := by
  refine TickM.ext fun s => ?_
  rw [bind_map_left, TickM.play_bind]
  rcases played : x.play s with ⟨fault | step, t⟩
  · rfl
  · obtain ⟨verdict, rfl⟩ := finishes s step t played
    simp only [leafMove, decision_finish, TickM.play_pure]

theorem start_of_leaf {visit : Visit} {kind : Kind} {x : TickM Step}
    (leaf : leaf? visit kind = some x) : start visit kind = leafMove <$> x := by
  cases kind <;> cases leaf <;> rfl

theorem leaf_start {x : TickM Step} (leaf : leaf? (visitAt node path) node.kind = some x) :
    (onStack node progress tasks path).run =
      start (visitAt node path) node.kind >>= decision node path := by
  have runs : (onStack node progress tasks path).run = x := by
    rw [Visit.run]
    rcases kind : node.kind <;> rw [kind] at leaf <;> cases leaf <;> simp only [onStack, kind] <;> rfl
  rw [start_of_leaf leaf, runs, decision_leafMove (leaf?_yields leaf)]

/-! ### Wait -/

theorem wait_until (kind : node.kind = .wait) (now time : Float) :
    (return if time ≤ now then .success else .keep (.deadline time) : TickM Step) =
      decision node path (if time ≤ now then .finish .success else .rest (.until time)) := by
  by_cases come : time ≤ now
  · rw [if_pos come, if_pos come, decision_finish]
    rfl
  · rw [if_neg come, if_neg come, decision_rest, kind]
    rfl

theorem wait_start (kind : node.kind = .wait) :
    (onStack node none tasks path).wait =
      start (visitAt node path) node.kind >>= decision node path := by
  refine TickM.ext fun s => ?_
  simp only [kind, start, Visit.wait, waitUntil, onStack, visitAt, bind_assoc, Visit.input?, pure_bind]
  simp only [TickM.play_bind_ok (TickM.play_now s), TickM.play_bind_ok (TickM.play_actor s)]
  exact congrArg (TickM.play · s) (wait_until kind _ _)

theorem wait_goOn (kind : node.kind = .wait) (time : Float) :
    (onStack node (some (.deadline time)) tasks path).wait = waitUntil time >>= decision node path := by
  refine TickM.ext fun s => ?_
  rw [Visit.wait, TickM.play_bind_ok (TickM.play_now s), waitUntil, bind_assoc,
    TickM.play_bind_ok (TickM.play_now s), pure_bind]
  exact congrArg (TickM.play · s) (wait_until kind s.context.clock time)

end BehaviorTree.Descent
