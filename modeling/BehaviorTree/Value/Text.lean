import BehaviorTree.Value.Basic
import BehaviorTree.Number.Notation
import BehaviorTree.Text.Quoted

/-!
The two texts of a value. `display` is what expressions concatenate and log messages show;
`inspect` is the form inside a dumped tree, which names the kind of every value.
-/

namespace BehaviorTree.Value

/-- Whole numbers below `10 ^ 15` have no sign on zero; all others are written plainly. -/
def displayNumber (x : Float) : String :=
  match Number.whole? x with
  | some n => if n.natAbs < Number.tenTo 15 then toString n else Number.plain x
  | none => Number.plain x

mutual

/-- The text of a value as a user sees it. -/
def display : Value → String
  | null => "null"
  | bool b => if b then "true" else "false"
  | number x => displayNumber x
  | text s => s
  | array items => "[" ++ ", ".intercalate (displayItems items) ++ "]"
  | object fields => "\x7b" ++ ", ".intercalate (displayFields fields) ++ "\x7d"

def displayItems : List Value → List String
  | [] => []
  | v :: rest => display v :: displayItems rest

def displayFields : List (String × Value) → List String
  | [] => []
  | (name, v) :: rest => (name ++ ": " ++ display v) :: displayFields rest

end

mutual

/-- The text of a value that tells its type. -/
def inspect : Value → String
  | null => "Null"
  | bool b => if b then "Bool(true)" else "Bool(false)"
  | number x => "Number(" ++ Number.detailed x ++ ")"
  | text s => "String(" ++ Text.quoted s ++ ")"
  | array items => "Array([" ++ ", ".intercalate (inspectItems items) ++ "])"
  | object fields => "Object(\x7b" ++ ", ".intercalate (inspectFields fields) ++ "\x7d)"

def inspectItems : List Value → List String
  | [] => []
  | v :: rest => inspect v :: inspectItems rest

def inspectFields : List (String × Value) → List String
  | [] => []
  | (name, v) :: rest => (Text.quoted name ++ ": " ++ inspect v) :: inspectFields rest

end

end BehaviorTree.Value
