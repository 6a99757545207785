import BehaviorTree.Expression.Basic
import BehaviorTree.Value.Text

/-!
The value of an expression. Evaluation only reads variables; an unset one is null. The logical
operators give the operand that decided, and only evaluate the right one when the left one has
not decided.
-/

namespace BehaviorTree

/-- Read access to variables. -/
abbrev Scope := String → Option Value

namespace Expr

/-- A field of an object. Arrays and strings only have a length, counted in characters. -/
def readMember (v : Value) (field : String) : Except ExprError Value :=
  match v with
  | .null => .error (.nullAccess field)
  | .object fields => .ok ((Fields.get? fields field).getD .null)
  | .array items => .ok (if field = "length" then .ofNat items.length else .null)
  | .text s => .ok (if field = "length" then .ofNat s.length else .null)
  | _ => .ok .null

/-- An element of an array by its number from zero, or of an object by the text of the key. -/
def readIndex (v key : Value) : Except ExprError Value :=
  match v with
  | .null => .error (.nullAccess key.display)
  | .array items =>
    match key.int? with
    | some i => .ok (if 0 ≤ i then (items[i.toNat]?).getD .null else .null)
    | none => .ok .null
  | .object fields => .ok ((Fields.get? fields key.display).getD .null)
  | _ => .ok .null

/-- What an operator makes of its operand; every value can be negated in logic, only numbers in
arithmetic. -/
def applyUnary (op : UnaryOp) (v : Value) : Except ExprError Value :=
  match op, v with
  | .not, v => .ok (.bool (!v.truthy))
  | .neg, .number x => .ok (.number (-x))
  | .neg, v => .error (.undefinedOperator "-" v.typeName none)

/-- What the operators make of two numbers. -/
def arithmetic? (op : BinaryOp) (a b : Float) : Option Value :=
  match op with
  | .add => some (.number (a + b))
  | .sub => some (.number (a - b))
  | .mul => some (.number (a * b))
  | .div => some (.number (a / b))
  | .rem => some (.number (Number.rem a b))
  | .lt => some (.bool (a < b))
  | .le => some (.bool (a ≤ b))
  | .gt => some (.bool (b < a))
  | .ge => some (.bool (b ≤ a))
  | _ => none

/-- Strings are ordered by the code points of their characters. -/
def compareTexts? (op : BinaryOp) (a b : String) : Option Value :=
  match op with
  | .lt => some (.bool (a < b))
  | .le => some (.bool (¬ b < a))
  | .gt => some (.bool (b < a))
  | .ge => some (.bool (¬ a < b))
  | _ => none

/-- Result of a binary operator on operands of these kinds, if it has one. Addition with a string
on either side joins the texts of the operands. -/
def combine? (op : BinaryOp) (a b : Value) : Option Value :=
  match op, a, b with
  | .eq, a, b => some (.bool (a.same b))
  | .ne, a, b => some (.bool (!a.same b))
  | .add, .text s, b => some (.text (s ++ b.display))
  | .add, a, .text s => some (.text (a.display ++ s))
  | op, .number x, .number y => arithmetic? op x y
  | op, .text s, .text t => compareTexts? op s t
  | _, _, _ => none

/-- What an operator makes of its operands, or an error that names their types. -/
def applyBinary (op : BinaryOp) (a b : Value) : Except ExprError Value :=
  match combine? op a b with
  | some v => .ok v
  | none => .error (.undefinedOperator op.symbol a.typeName (some b.typeName))

mutual

/-- Value of an expression in a scope; a variable that is not set is null. -/
def eval (scope : Scope) : Expr → Except ExprError Value
  | literal v => .ok v
  | var name => .ok ((scope name).getD .null)
  | array items => do return .array (← evalAll scope items)
  | member object field => do readMember (← eval scope object) field
  | index object key => do
    let k ← eval scope key
    readIndex (← eval scope object) k
  | unary op operand => do applyUnary op (← eval scope operand)
  | binary .and lhs rhs => do
    let a ← eval scope lhs
    if a.truthy then eval scope rhs else return a
  | binary .or lhs rhs => do
    let a ← eval scope lhs
    if a.truthy then return a else eval scope rhs
  | binary op lhs rhs => do
    let a ← eval scope lhs
    applyBinary op a (← eval scope rhs)
  | conditional test yes no => do
    if (← eval scope test).truthy then eval scope yes else eval scope no

/-- Values of the items from left to right, up to the first error. -/
def evalAll (scope : Scope) : List Expr → Except ExprError (List Value)
  | [] => .ok []
  | e :: rest => do
    let v ← eval scope e
    return v :: (← evalAll scope rest)

end

end Expr
end BehaviorTree
