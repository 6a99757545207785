import BehaviorTree.Fields
import BehaviorTree.Number.Binary

/-!
The dynamic values of a blackboard. Variables, node arguments, results of expressions and the
payloads of events are all of this type.
-/

namespace BehaviorTree

/-- The values of variables, arguments and expressions. -/
inductive Value where
  | null
  | bool (b : Bool)
  | number (x : Float)
  | text (s : String)
  | array (items : List Value)
  | object (fields : List (String × Value))
deriving Inhabited

namespace Value

/-- Name of the kind of value, as messages give it. -/
def typeName : Value → String
  | null => "null"
  | bool _ => "bool"
  | number _ => "number"
  | text _ => "string"
  | array _ => "array"
  | object _ => "object"

def isNull : Value → Bool
  | null => true
  | _ => false

/-- What counts as true for conditions and the logical operators. -/
def truthy : Value → Bool
  | null => false
  | bool b => b
  | number x => x != 0.0 && !x.isNaN
  | text s => s ≠ ""
  | array _ => true
  | object _ => true

def number? : Value → Option Float
  | number x => some x
  | _ => none

/-- A number without fraction, as a signed 64-bit whole number. -/
def int? : Value → Option Int
  | number x => (Number.whole? x).map Number.clamp64
  | _ => none

def bool? : Value → Option Bool
  | bool b => some b
  | _ => none

def text? : Value → Option String
  | text s => some s
  | _ => none

def array? : Value → Option (List Value)
  | array items => some items
  | _ => none

def object? : Value → Option (Fields Value)
  | object fields => some fields
  | _ => none

/-- The number for a whole number. -/
def ofInt (n : Int) : Value := number (Number.ofInt n)

/-- A natural number as a value. -/
def ofNat (n : Nat) : Value := number (Number.ofNat n)

mutual

/-- Equality of values; numbers compare as numbers, so the one that is not a number differs from
itself and the two zeros are equal. -/
def same : Value → Value → Bool
  | null, null => true
  | bool a, bool b => a == b
  | number a, number b => a == b
  | text a, text b => a == b
  | array as, array bs => sameItems as bs
  | object as, object bs => sameFields as bs
  | _, _ => false

/-- Whether two lists of items are the same. -/
def sameItems : List Value → List Value → Bool
  | [], [] => true
  | a :: as, b :: bs => same a b && sameItems as bs
  | _, _ => false

/-- Whether two lists of fields are the same, names and order included. -/
def sameFields : List (String × Value) → List (String × Value) → Bool
  | [], [] => true
  | (j, a) :: as, (k, b) :: bs => j == k && same a b && sameFields as bs
  | _, _ => false

end

end Value
end BehaviorTree
