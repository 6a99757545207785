import BehaviorTree.Document.Scalar
import BehaviorTree.Value.Basic

/-!
Values from texts of a stated type, as a host that reads its settings gives them.
-/

namespace BehaviorTree.Value

open Number (twoTo)

/-- Types of text that a host converts. -/
inductive TextType where
  | bool
  /-- A whole number from the first bound to the second. -/
  | int (least greatest : Int)
  | text
  /-- Whole numbers between commas; other parts are passed over. -/
  | ints
  /-- A whole number, or null for any other text. -/
  | optionalInt
deriving DecidableEq, Repr

/-- Integers of 64 bits. -/
def TextType.int64 : TextType := .int (-twoTo 63) (twoTo 63 - 1)

/-- The type of a name. -/
def TextType.ofName? (name : String) : Option TextType :=
  match name with
  | "bool" => some .bool
  | "i32" => some (.int (-twoTo 31) (twoTo 31 - 1))
  | "i64" => some .int64
  | "usize" => some (.int 0 (twoTo 64 - 1))
  | "str" => some .text
  | "string" => some .text
  | "vec_i64" => some .ints
  | "option_i64" => some .optionalInt
  | _ => none

/-- A whole number within the bounds: decimal digits after an optional sign. A minus sign is only
read where negative numbers are possible. -/
def wholeNumber? (least greatest : Int) (s : List Char) : Option Int := do
  let (negative, digits) := Document.dropSign s
  if negative ∧ 0 ≤ least then none
  let n ← if digits.all Char.isDigit then Document.natOf? 10 digits else none
  let n : Int := if negative then -(n : Int) else n
  if least ≤ n ∧ n ≤ greatest then some n else none

/-- Reads an integer of 64 bits. -/
def int64? (s : List Char) : Option Int := wholeNumber? (-twoTo 63) (twoTo 63 - 1) s

/-- The parts of a text between commas. -/
def parts (s : List Char) : List (List Char) :=
  match s with
  | [] => [[]]
  | c :: t =>
    if c = ',' then [] :: parts t
    else
      match parts t with
      | first :: rest => (c :: first) :: rest
      | [] => [[c]]

/-- The value that a text of the given type stands for. -/
def ofText? (type : TextType) (s : String) : Option Value :=
  match type with
  | .bool => if s = "true" then some (bool true) else if s = "false" then some (bool false) else none
  | .int least greatest => (wholeNumber? least greatest s.toList).map ofInt
  | .text => some (text s)
  | .ints => some (array ((parts s.toList).filterMap fun part => (int64? part).map ofInt))
  | .optionalInt => some (((int64? s.toList).map ofInt).getD null)

end BehaviorTree.Value
