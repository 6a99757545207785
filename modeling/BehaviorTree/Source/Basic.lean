import BehaviorTree.Value.Basic

/-!
Trees as an editor writes them: nodes by the name of their type, with arguments and the variables
wired to their slots. A source holds any number of trees, which may name one another in place of a
node type.
-/

namespace BehaviorTree

/-- A node as its source gives it. -/
structure NodeSource where
  /-- Kept for the editor; loaded nodes are numbered anew. -/
  id : Option Nat := none
  name : String
  desc : String := ""
  args : Fields Value := []
  /-- Variables wired to the input slots, the empty name for none. -/
  input : List String := []
  output : List String := []
  children : List NodeSource := []
  /-- A disabled child is left out of the loaded tree. -/
  disabled : Bool := false

/-- A tree as its source gives it. -/
structure TreeSource where
  name : String
  desc : String := ""
  root : NodeSource

/-- All trees of one source. -/
abbrev Source := List TreeSource

namespace NodeSource

mutual

/-- Equality of nodes; arguments compare as values. -/
def same : NodeSource → NodeSource → Bool
  | ⟨id, name, desc, args, input, output, children, disabled⟩,
    ⟨id', name', desc', args', input', output', children', disabled'⟩ =>
    id == id' && name == name' && desc == desc' && Value.sameFields args args' &&
      input == input' && output == output' && sameAll children children' && disabled == disabled'

def sameAll : List NodeSource → List NodeSource → Bool
  | [], [] => true
  | a :: as, b :: bs => same a b && sameAll as bs
  | _, _ => false

end

mutual

/-- Number of nodes written in the source. -/
def size : NodeSource → Nat
  | ⟨_, _, _, _, _, _, children, _⟩ => sizeAll children + 1

def sizeAll : List NodeSource → Nat
  | [] => 0
  | n :: rest => size n + sizeAll rest

end

end NodeSource

def TreeSource.same (a b : TreeSource) : Bool :=
  a.name == b.name && a.desc == b.desc && a.root.same b.root

namespace Source

/-- The first tree of that name. -/
def find? (source : Source) (name : String) : Option TreeSource :=
  List.find? (fun tree => tree.name = name) source

def same : Source → Source → Bool
  | [], [] => true
  | a :: as, b :: bs => a.same b && same as bs
  | _, _ => false

end Source
end BehaviorTree
