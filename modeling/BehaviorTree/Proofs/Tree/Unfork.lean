import BehaviorTree.Proofs.Tree.Shape
import Mathlib.Data.List.Basic

/-!
A Parallel node with one child has nothing to run side by side. In its place an AlwaysSuccess node can stand over
the same child, in as many places of a tree as one likes; the ids of the nodes stay as they are.
-/

namespace BehaviorTree

namespace Node

variable (chosen : Nat → Bool)

/-- A chosen Parallel node with one child. -/
def IsUnforked (node : Node) : Prop :=
  chosen node.id = true ∧ node.kind = .parallel ∧ node.children.length = 1

instance (node : Node) : Decidable (node.IsUnforked chosen) := inferInstanceAs (Decidable (_ ∧ _ ∧ _))

mutual

/-- The node with AlwaysSuccess in the place of every chosen Parallel node that has one child. -/
def unfork : Node → Node
  | ⟨id, kind, name, desc, args, input, output, children⟩ =>
    if IsUnforked chosen ⟨id, kind, name, desc, args, input, output, children⟩ then
      ⟨id, .alwaysSuccess, Kind.alwaysSuccess.declaration.name, desc, args, input, output, unforkAll children⟩
    else ⟨id, kind, name, desc, args, input, output, unforkAll children⟩

/-- The nodes of a list without their chosen forks. -/
def unforkAll : List Node → List Node
  | [] => []
  | child :: rest => unfork child :: unforkAll rest

end

variable {chosen} {node : Node}

theorem unforkAll_eq : ∀ nodes : List Node, unforkAll chosen nodes = nodes.map (unfork chosen)
  | [] => rfl
  | _ :: rest => by rw [unforkAll, unforkAll_eq rest, List.map_cons]

/-- The node with its children replaced. -/
abbrev unforkBelow (chosen : Nat → Bool) (node : Node) : Node :=
  { node with children := node.children.map (unfork chosen) }

theorem unfork_of_unforked (unforked : node.IsUnforked chosen) :
    node.unfork chosen =
      { node.unforkBelow chosen with kind := .alwaysSuccess, name := Kind.alwaysSuccess.declaration.name } := by
  obtain ⟨id, kind, name, desc, args, input, output, children⟩ := node
  rw [unfork, if_pos unforked, unforkAll_eq]

theorem unfork_of_not (other : ¬ node.IsUnforked chosen) :
    node.unfork chosen = node.unforkBelow chosen := by
  obtain ⟨id, kind, name, desc, args, input, output, children⟩ := node
  rw [unfork, if_neg other, unforkAll_eq]

theorem IsUnforked.only_child (unforked : node.IsUnforked chosen) : ∃ child, node.children = [child] :=
  List.length_eq_one_iff.mp unforked.2.2

theorem id_unfork (node : Node) : (node.unfork chosen).id = node.id := by
  by_cases unforked : node.IsUnforked chosen
  · rw [unfork_of_unforked unforked]
  · rw [unfork_of_not unforked]

theorem children_unfork (node : Node) : (node.unfork chosen).children = node.children.map (unfork chosen) := by
  by_cases unforked : node.IsUnforked chosen
  · rw [unfork_of_unforked unforked]
  · rw [unfork_of_not unforked]

theorem ids_unfork (node : Node) : (node.unfork chosen).ids = node.ids := by
  induction node using Node.induct with
  | step node ih =>
    rw [ids_eq, ids_eq, id_unfork, children_unfork, idsAll, idsAll, List.flatMap_map]
    exact congrArg (node.id :: ·) (List.flatMap_congr ih)

/-- The nodes still have the shape of their kinds. -/
theorem Every.unfork (shaped : node.Every Shaped) : (node.unfork chosen).Every Shaped := by
  induction node using Node.induct with
  | step node ih =>
    have length : (node.children.map (Node.unfork chosen)).length = node.children.length := List.length_map _
    refine Every.intro ?_ fun child member => ?_
    · by_cases unforked : node.IsUnforked chosen
      · rw [unfork_of_unforked unforked]
        refine ⟨nofun, ?_, nofun⟩
        rw [length, unforked.2.2]
        rfl
      · rw [unfork_of_not unforked]
        refine ⟨shaped.self.builtin, ?_, fun kind => ?_⟩
        · rw [length]
          exact shaped.self.counted
        · rw [length]
          exact shaped.self.ifElse kind
    · rw [children_unfork] at member
      obtain ⟨child, below, rfl⟩ := List.mem_map.mp member
      exact ih child below (shaped.child below)

end Node

/-- The tree with AlwaysSuccess in the place of every chosen Parallel node that has one child. -/
def Tree.unfork (chosen : Nat → Bool) (tree : Tree) : Tree := { tree with root := tree.root.unfork chosen }

end BehaviorTree
