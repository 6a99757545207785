import BehaviorTree.Proofs.Tree.Preorder
import BehaviorTree.Tree.Check

/-!
The shape of a node of a built-in kind. The checks that a node passes when its tree is loaded fix
how many children it has: a decorator has exactly one, a condition or an action has none, and an
IfElse node has two or three.
-/

namespace BehaviorTree.Node

/-- A node of a built-in kind with as many children as its kind asks for. -/
structure Shaped (node : Node) : Prop where
  builtin : ∀ e, node.kind ≠ .extension e
  counted : checkChildCount node.children.length node.kind.declaration.role.childBounds.1
    node.kind.declaration.role.childBounds.2 = .ok ()
  ifElse : node.kind = .ifElse → checkChildCount node.children.length 2 (some 3) = .ok ()

/-- The number of children passes just when it is within the bounds. -/
theorem checkChildCount_eq_ok_iff {found least : Nat} {greatest : Option Nat} :
    checkChildCount found least greatest = .ok () ↔
      least ≤ found ∧ ∀ most ∈ greatest, found ≤ most := by
  unfold checkChildCount
  rcases greatest with _ | most
  · simp
  · by_cases few : found < least
    · exact iff_of_false (by simp [few]) fun bounded => absurd bounded.1 (Nat.not_le.mpr few)
    · by_cases many : most < found
      · refine iff_of_false (by simp [few, many]) fun bounded => ?_
        exact absurd (bounded.2 most rfl) (Nat.not_le.mpr many)
      · refine iff_of_true (by simp [few, many]) ⟨Nat.le_of_not_lt few, fun limit same => ?_⟩
        cases same
        exact Nat.le_of_not_lt many

variable {node : Node}

/-- A decorator has one child. -/
theorem Shaped.only_child (h : node.Shaped) (role : node.kind.declaration.role = .decorator) :
    ∃ child, node.children = [child] := by
  have counted := checkChildCount_eq_ok_iff.mp h.counted
  rw [role] at counted
  have one : node.children.length = 1 := Nat.le_antisymm (counted.2 1 rfl) counted.1
  exact List.length_eq_one_iff.mp one

theorem Shaped.ifElse_length (h : node.Shaped) (kind : node.kind = .ifElse) :
    2 ≤ node.children.length ∧ node.children.length ≤ 3 := by
  have counted := checkChildCount_eq_ok_iff.mp (h.ifElse kind)
  exact ⟨counted.1, counted.2 3 rfl⟩

end BehaviorTree.Node
