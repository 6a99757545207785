/-!
What a document holds, before it is given a meaning: whole numbers are told apart from other
numbers, and the entries of a mapping keep their order and their repetitions.
-/

namespace BehaviorTree.Document

/-- A whole number as it is written, with or without a minus sign. Minus zero has the value of zero
and is told apart from it all the same. -/
structure Whole where
  minus : Bool
  size : Nat
deriving DecidableEq, Repr, Inhabited

namespace Whole

/-- A natural number without a sign. -/
def ofNat (n : Nat) : Whole := ⟨false, n⟩

/-- The integer that is spelt. -/
def toInt (n : Whole) : Int := if n.minus then -(n.size : Int) else n.size

/-- The number as a position in a list, which never has a minus sign. -/
def position? (n : Whole) : Option Nat := if n.minus then none else some n.size

/-- The spelling of a whole number in decimal. -/
def text (n : Whole) : String := (if n.minus then "-" else "") ++ toString n.size

end Whole

/-- What a document says, before anything is made of it. -/
inductive Datum where
  | null
  | bool (b : Bool)
  | int (n : Whole)
  | float (x : Float)
  | text (s : String)
  | list (items : List Datum)
  | map (entries : List (Datum × Datum))
deriving Inhabited

/-- A mapping whose keys are texts. -/
def Datum.record (entries : List (String × Datum)) : Datum :=
  .map (entries.map fun (key, d) => (.text key, d))

mutual

/-- Number of data in a datum, itself included; keys do not count. -/
def Datum.size : Datum → Nat
  | .list items => sizeAll items + 1
  | .map entries => sizeEntries entries + 1
  | _ => 1

def Datum.sizeAll : List Datum → Nat
  | [] => 0
  | d :: rest => d.size + sizeAll rest

/-- Size of the entries of a mapping; keys do not count. -/
def Datum.sizeEntries : List (Datum × Datum) → Nat
  | [] => 0
  | (_, d) :: rest => d.size + sizeEntries rest

end

end BehaviorTree.Document
