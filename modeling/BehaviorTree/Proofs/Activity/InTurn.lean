import BehaviorTree.Proofs.Activity.Rounds

/-!
Sequence and Selector nodes tick their children in turn. In every activation, however many runs it takes, a child is
entered when the one before it has completed and has not decided for the node, and in that very tick; the first child
that decides, or the last one, completes the node in the tick in which it completes itself.
-/

namespace BehaviorTree

open Descent

namespace Descent

variable {node : Node} {stop : Verdict}

/-- Sequence and Selector nodes go through their children up to the first one with a verdict. -/
def inTurn (stop : Verdict) : Sweep where
  memory := .nothing
  stop := stop
  halted := .finish stop
  through := .finish stop.invert

theorem StopsAt.alone (stops : StopsAt node stop) : node.kind ≠ .parallel := by
  rcases stops with ⟨kind, -⟩ | ⟨kind, -⟩ <;> rw [kind] <;> exact nofun

theorem StopsAt.rules (stops : StopsAt node stop) : (inTurn stop).Rules node where
  alone := stops.alone
  apart same := stop.invert_ne (Report.done.inj same).symm
  timeless := rfl
  heeds path i verdict _ := by
    rw [inTurn, heed_of_stopsAt stops, Sweep.next, nextChild]
    rfl

theorem StopsAt.start_eq (stops : StopsAt node stop) (visit : Visit) (same : visit.node = node) :
    start visit node.kind = pure ((inTurn stop).first node) := by
  subst same
  rcases stops with ⟨kind, rfl⟩ | ⟨kind, rfl⟩ <;> rw [kind] <;> rfl

theorem StopsAt.recurs (stops : StopsAt node stop) : Recurs node (fun _ => inTurn stop) fun _ vars => vars where
  rules _ := stops.rules
  halts _ _ := nofun
  again _ _ := nofun

theorem StopsAt.begins (stops : StopsAt node stop) {tick : Call} (own : tick.node = node) (fresh : tick.state = none) :
    Begins node (inTurn stop) tick.scene.actor.vars tick := by
  subst own
  refine vars_begun tick.visit tick.scene ▸ Call.begins_entered stops.rules fresh ?_
  rw [stops.start_eq tick.visit rfl]
  rfl

end Descent

/-- In every activation of a Sequence or Selector node of a loaded tree, whatever its host does: the children are
entered from the first one on, each in the tick in which the one before it has completed with the verdict that does
not decide. The node completes with a child that decides, or with the last one, and waits for one child until then,
unless the activation is given up. -/
theorem Runner.children_in_turn (source : Source) (cache : ExprCache) (name : String) (strict : Bool) (tree : Tree)
    (loaded : (source.load Registry.builtin cache name strict).1 = .ok tree) (caller : Nat) (target : Target)
    (debug : Bool) (before : Context) (actions : List HostAction) :
    let start := Runner.new tree (.newWith caller target debug)
    let runner := (start.performAll before actions).1
    let journal := start.journal before actions
    ∀ node ∈ tree.root.preorder, ∀ stop, StopsAt node stop →
      runner.Activates journal node ∧ ∀ ticks ∈ activations node journal, ∃ first later, ticks = first :: later ∧
        Swept node (inTurn stop) first.scene.actor.vars ticks := by
  intro start runner journal node inside stop stops
  have activates := Source.activates_load loaded caller target debug before actions inside
  refine ⟨activates, fun ticks member => ?_⟩
  have activation := activates.activation ticks member
  obtain ⟨first, later, rfl, fresh, -⟩ := activation.entered
  have recurring := stops.recurs.recurring activation fun tick head => by
    cases head
    exact stops.begins (activation.own first List.mem_cons_self) fresh
  exact recurring.swept_of_once (List.cons_ne_nil _ _) nofun

/-- Two ticks of the patrol make one activation, in which the children have been entered in turn. -/
theorem Runner.children_in_turn_patrol :
    (patrolSource.load Registry.builtin [] "patrol" true).1 = .ok patrol ∧
      let journal := (Runner.new patrol (.newWith 1 .everyone false)).journal (.new Registry.builtin) [.run, .run]
      (activations patrol.root journal).map List.length = [2] ∧
        ∀ ticks ∈ activations patrol.root journal, ∃ first later, ticks = first :: later ∧
          Swept patrol.root (inTurn .failure) first.scene.actor.vars ticks := by
  have loaded := congrArg Prod.fst load_patrol
  obtain ⟨-, swept⟩ := Runner.children_in_turn patrolSource [] "patrol" true patrol loaded 1 .everyone false
    (.new Registry.builtin) [.run, .run] patrol.root patrol.root.self_mem_preorder .failure (.inl ⟨rfl, rfl⟩)
  exact ⟨loaded, rfl, swept⟩

end BehaviorTree
