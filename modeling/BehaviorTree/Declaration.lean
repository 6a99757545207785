import BehaviorTree.Status
import BehaviorTree.Value.Basic

/-!
Declarations of node types: what a type is for, which variables may be wired to it and which
arguments it takes. Nodes are checked against them when a tree is loaded, and editors read them.
-/

namespace BehaviorTree

/-- A place to wire a variable to. A variadic slot stands for any number of further places. -/
structure Slot where
  name : String
  optional : Bool
  variadic : Bool
deriving DecidableEq, Repr

namespace Slot

/-- Removes an ending, if the text has it. -/
def dropEnding? (text ending : String) : Option String :=
  let (t, e) := (text.toList, ending.toList)
  if e.isSuffixOf t then some (String.ofList (t.take (t.length - e.length))) else none

/-- A slot is written as its name, followed by a question mark if it is optional, or by three
points if it is variadic. -/
def read (text : String) : Slot :=
  match dropEnding? text "..." with
  | some name => ⟨name, true, true⟩
  | none =>
    match dropEnding? text "?" with
    | some name => ⟨name, true, false⟩
    | none => ⟨text, false, false⟩

end Slot

/-- Kinds of arguments. -/
inductive ArgType where
  | bool
  | int
  | float
  | string
  /-- The source text of an expression, read when the tree is loaded. -/
  | expr
  /-- Any value. -/
  | json
  /-- The name of a status. -/
  | status
deriving DecidableEq, Repr

namespace ArgType

def name : ArgType → String
  | bool => "bool"
  | int => "int"
  | float => "float"
  | string => "string"
  | expr => "expr"
  | json => "json"
  | status => "status"

/-- Name in exported declarations. -/
def title : ArgType → String
  | bool => "Bool"
  | int => "Int"
  | float => "Float"
  | string => "String"
  | expr => "Expr"
  | json => "Json"
  | status => "Status"

/-- Whether an argument of this kind may hold the value. -/
def accepts (type : ArgType) (v : Value) : Bool :=
  match type with
  | bool => v.bool?.isSome
  | int => v.int?.isSome
  | float => v.number?.isSome
  | string => v.text?.isSome
  | expr => v.text?.isSome
  | json => true
  | status => (v.text?.bind Status.ofName?).isSome

end ArgType

/-- An argument that nodes of a kind take. -/
structure Arg where
  name : String
  type : ArgType
  desc : String
  optional : Bool
deriving DecidableEq, Repr

/-- What nodes of a type are; it decides how many children they have. -/
inductive Role where
  | composite
  | decorator
  | condition
  | action
deriving DecidableEq, Repr

namespace Role

def title : Role → String
  | composite => "Composite"
  | decorator => "Decorator"
  | condition => "Condition"
  | action => "Action"

/-- Least and greatest number of children. -/
def childBounds : Role → Nat × Option Nat
  | composite => (1, none)
  | decorator => (1, some 1)
  | condition => (0, some 0)
  | action => (0, some 0)

end Role

/-- What nodes of a kind are called, and what they take. -/
structure Declaration where
  name : String
  role : Role
  desc : String
  doc : String := ""
  input : List Slot := []
  output : List Slot := []
  args : List Arg := []
deriving DecidableEq, Repr

namespace Declaration

/-- The declared argument of a name. -/
def arg? (d : Declaration) (name : String) : Option Arg := d.args.find? fun a => a.name = name

end Declaration
end BehaviorTree
