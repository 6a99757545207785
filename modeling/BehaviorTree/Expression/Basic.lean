import BehaviorTree.Value.Basic
import BehaviorTree.Text.Quoted

/-!
Expressions over blackboard variables, as conditions and calculations hold them: the tree, the
variables it reads, and what can go wrong with a source text or an evaluation.
-/

namespace BehaviorTree

/-- Operators in front of their operand. -/
inductive UnaryOp where
  | not
  | neg
deriving DecidableEq, Repr

/-- Operators between two operands. -/
inductive BinaryOp where
  | add
  | sub
  | mul
  | div
  | rem
  | lt
  | le
  | gt
  | ge
  | eq
  | ne
  | and
  | or
deriving DecidableEq, Repr

def BinaryOp.symbol : BinaryOp → String
  | .add => "+"
  | .sub => "-"
  | .mul => "*"
  | .div => "/"
  | .rem => "%"
  | .lt => "<"
  | .le => "<="
  | .gt => ">"
  | .ge => ">="
  | .eq => "=="
  | .ne => "!="
  | .and => "&&"
  | .or => "||"

/-- The tree of an expression. -/
inductive Expr where
  | literal (v : Value)
  | var (name : String)
  | array (items : List Expr)
  | member (object : Expr) (field : String)
  | index (object : Expr) (key : Expr)
  | unary (op : UnaryOp) (operand : Expr)
  | binary (op : BinaryOp) (lhs rhs : Expr)
  | conditional (test yes no : Expr)
deriving Inhabited

namespace Expr

mutual

/-- The variables of the expression from left to right, repeated ones included. -/
def occurrences : Expr → List String
  | literal _ => []
  | var name => [name]
  | array items => occurrencesAll items
  | member object _ => occurrences object
  | index object key => occurrences object ++ occurrences key
  | unary _ operand => occurrences operand
  | binary _ lhs rhs => occurrences lhs ++ occurrences rhs
  | conditional test yes no => occurrences test ++ occurrences yes ++ occurrences no

def occurrencesAll : List Expr → List String
  | [] => []
  | e :: rest => occurrences e ++ occurrencesAll rest

end

mutual

/-- Appends the variables that are not yet in the list, each at its first occurrence. -/
def collectVars : Expr → List String → List String
  | literal _, seen => seen
  | var name, seen => if name ∈ seen then seen else seen ++ [name]
  | array items, seen => collectVarsAll items seen
  | member object _, seen => collectVars object seen
  | index object key, seen => collectVars key (collectVars object seen)
  | unary _ operand, seen => collectVars operand seen
  | binary _ lhs rhs, seen => collectVars rhs (collectVars lhs seen)
  | conditional test yes no, seen => collectVars no (collectVars yes (collectVars test seen))

/-- Adds the variables of the items that have not been seen. -/
def collectVarsAll : List Expr → List String → List String
  | [], seen => seen
  | e :: rest, seen => collectVarsAll rest (collectVars e seen)

end

/-- The variables an expression reads, without repetition. -/
def vars (e : Expr) : List String := collectVars e []

end Expr

/-- What is wrong with a source text or an evaluation. -/
inductive ExprError where
  /-- The text is no expression; the offset counts bytes up to where reading stopped. -/
  | malformed (code : String) (offset : Nat)
  /-- A member or an element of null was asked for. -/
  | nullAccess (field : String)
  /-- An operator met operands of kinds it is not defined for. -/
  | undefinedOperator (op : String) (lhs : String) (rhs : Option String)
deriving DecidableEq, Repr

def ExprError.message : ExprError → String
  | .malformed code offset =>
    "Syntax error at " ++ toString offset ++ " in expression " ++ Text.quoted code
  | .nullAccess field => "Cannot read " ++ Text.quoted field ++ " of null"
  | .undefinedOperator op lhs (some rhs) =>
    "Operator " ++ op ++ " is not defined for " ++ lhs ++ " and " ++ rhs
  | .undefinedOperator op lhs none => "Operator " ++ op ++ " is not defined for " ++ lhs

end BehaviorTree
