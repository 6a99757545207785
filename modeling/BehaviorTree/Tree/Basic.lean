import BehaviorTree.Kind.Basic
import BehaviorTree.Value.Text

/-!
Loaded trees. A node knows its kind, its arguments and the variables wired to its slots; it is
never changed, so any number of actors can run the same tree.
-/

namespace BehaviorTree

/-- A node of a loaded tree. -/
structure Node where
  /-- Place in the order in which a node comes before its children, counted from one. -/
  id : Nat
  kind : Kind
  name : String
  desc : String
  args : Fields Value
  input : List (Option String)
  output : List (Option String)
  children : List Node

/-- A loaded tree. -/
structure Tree where
  name : String
  desc : String
  root : Node

namespace Node

/-- The value of an argument. -/
def arg? (node : Node) (name : String) : Option Value := node.args.get? name

/-- An argument that is a number. -/
def number? (node : Node) (name : String) : Option Float := (node.arg? name).bind Value.number?

/-- An argument that is an integer. -/
def int? (node : Node) (name : String) : Option Int := (node.arg? name).bind Value.int?

/-- An argument that is a flag. -/
def flag? (node : Node) (name : String) : Option Bool := (node.arg? name).bind Value.bool?

/-- An argument that is a text. -/
def text? (node : Node) (name : String) : Option String := (node.arg? name).bind Value.text?

/-- The variable wired to an input slot. -/
def inputVar? (node : Node) (i : Nat) : Option String := (node.input[i]?).join

/-- The variable wired to an output slot. -/
def outputVar? (node : Node) (i : Nat) : Option String := (node.output[i]?).join

mutual

/-- The node and all below it, every node before its children. -/
def preorder : Node → List Node
  | ⟨id, kind, name, desc, args, input, output, children⟩ =>
    ⟨id, kind, name, desc, args, input, output, children⟩ :: preorderAll children

def preorderAll : List Node → List Node
  | [] => []
  | n :: rest => preorder n ++ preorderAll rest

end

mutual

/-- The node with all that is below it, on one line. -/
def inspect : Node → String
  | ⟨id, _, name, _, args, _, _, children⟩ =>
    "Node \x7b id: " ++ toString id ++ ", name: " ++ Text.quoted name ++ ", args: \x7b" ++
      ", ".intercalate (Value.inspectFields args) ++ "\x7d, children: [" ++
      ", ".intercalate (inspectAll children) ++ "] \x7d"

def inspectAll : List Node → List String
  | [] => []
  | n :: rest => inspect n :: inspectAll rest

end

end Node

namespace Tree

/-- The nodes of a tree, each before its children. -/
def nodes (tree : Tree) : List Node := tree.root.preorder

/-- The node of a number. -/
def find? (tree : Tree) (id : Nat) : Option Node := tree.nodes.find? fun node => node.id = id

/-- The text of a tree with all it holds. -/
def inspect (tree : Tree) : String :=
  "Tree \x7b name: " ++ Text.quoted tree.name ++ ", desc: " ++ Text.quoted tree.desc ++
    ", root: " ++ tree.root.inspect ++ " \x7d"

end Tree
end BehaviorTree
