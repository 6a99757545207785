import BehaviorTree.Document.Datum
import BehaviorTree.Number.Decimal

/-!
The meaning of an unquoted scalar. Null, booleans and numbers have the spellings listed here;
every other scalar is the text it is written as.
-/

namespace BehaviorTree.Document

/-- Removes a beginning, if the text has it. -/
def dropStart? (start : List Char) (s : List Char) : Option (List Char) :=
  if start.isPrefixOf s then some (s.drop start.length) else none

/-- Value of a digit in a base of at most sixteen. -/
def digitValue? (base : Nat) (c : Char) : Option Nat :=
  let d :=
    if c.isDigit then some (c.toNat - '0'.toNat)
    else if 'a' ≤ c ∧ c ≤ 'f' then some (c.toNat - 'a'.toNat + 10)
    else if 'A' ≤ c ∧ c ≤ 'F' then some (c.toNat - 'A'.toNat + 10)
    else none
  d.filter (· < base)

/-- Value of a nonempty text of digits. -/
def natOf? (base : Nat) (s : List Char) : Option Nat :=
  if s = [] then none
  else s.foldlM (fun n c => (digitValue? base c).map (base * n + ·)) 0

/-- A sign in front, if there is one, and the rest. -/
def dropSign (s : List Char) : Bool × List Char :=
  match s with
  | '-' :: t => (true, t)
  | '+' :: t => (false, t)
  | t => (false, t)

/-- Two or more digits beginning with zero are a text and no number. -/
def isPadded (digits : List Char) : Bool :=
  match digits with
  | '0' :: d :: t => (d :: t).all Char.isDigit
  | _ => false

/-- Least and greatest whole number that a document can hold. -/
def intRange : Int × Int := (-Number.twoTo 63, Number.twoTo 64 - 1)

/-- Whether a whole number is kept as one. -/
def inIntRange (n : Whole) : Bool := intRange.1 ≤ n.toInt && n.toInt ≤ intRange.2

/-- The base that a mark stands for, and the digits after the mark. -/
def marked? (s : List Char) : Option (Nat × List Char) :=
  match s with
  | '0' :: 'x' :: t => some (16, t)
  | '0' :: 'o' :: t => some (8, t)
  | '0' :: 'b' :: t => some (2, t)
  | _ => none

/-- The whole number a scalar spells in base 16, 8 or 2. A plus sign may stand after the mark as
well, unless a minus sign stands before it. -/
def markedInt? (s : List Char) : Option Whole := do
  let (negative, s) := dropSign s
  let (base, digits) ← marked? s
  let digits :=
    match digits with
    | '+' :: t => if negative then digits else t
    | _ => digits
  let n : Whole := ⟨negative, ← natOf? base digits⟩
  if inIntRange n then some n else none

/-- The whole number a scalar spells in base 10. -/
def int? (s : List Char) : Option Whole :=
  let (negative, digits) := dropSign s
  if isPadded digits then none else (natOf? 10 digits).map (Whole.mk negative)

/-- A decimal numeral with optional sign, point and exponent. The point may stand at either end of
the digits, but one digit is required. -/
def numeral? (s : List Char) : Option Number.Numeral := do
  let (negative, s) := dropSign s
  let whole := s.takeWhile Char.isDigit
  let s := s.dropWhile Char.isDigit
  let (fraction, s) :=
    match s with
    | '.' :: t => (t.takeWhile Char.isDigit, t.dropWhile Char.isDigit)
    | s => ([], s)
  if whole = [] ∧ fraction = [] then none
  match s with
  | [] => some ⟨negative, whole, fraction, false, []⟩
  | c :: t =>
    if c = 'e' ∨ c = 'E' then
      let (exponentNegative, exponent) := dropSign t
      if exponent ≠ [] ∧ exponent.all Char.isDigit then
        some ⟨negative, whole, fraction, exponentNegative, exponent⟩
      else none
    else none

/-- The number a scalar spells that is not written as a whole one. A numeral too large for a
number is a text. -/
def float? (s : String) : Option Float :=
  let unsigned := String.ofList (s.toList.dropWhile (· = '+'))
  if unsigned = ".inf" ∨ unsigned = ".Inf" ∨ unsigned = ".INF" then some (1.0 / 0.0)
  else if s = "-.inf" ∨ s = "-.Inf" ∨ s = "-.INF" then some (-1.0 / 0.0)
  else if s = ".nan" ∨ s = ".NaN" ∨ s = ".NAN" then some (0.0 / 0.0)
  else if isPadded (dropSign s.toList).2 then none
  else ((numeral? s.toList).map Number.Numeral.toFloat).filter Float.isFinite

/-- Whole numbers of base 10 up to these bounds are refused, and beyond them read as other
numbers. -/
def wideRange : Int × Int := (-Number.twoTo 127, Number.twoTo 128 - 1)

/-- The datum of a number; there is none for a whole number just out of range. Any other scalar is
a text. -/
def numberOrText? (s : String) : Option Datum :=
  let other :=
    match float? s with
    | some x => some (.float x)
    | none => some (.text s)
  match (markedInt? s.toList).or (int? s.toList) with
  | some n =>
    if inIntRange n then some (.int n)
    else if wideRange.1 ≤ n.toInt ∧ n.toInt ≤ wideRange.2 then none
    else other
  | none => other

/-- The datum of an unquoted scalar, if it has one. -/
def scalar? (s : String) : Option Datum :=
  if s = "~" ∨ s = "null" then some .null
  else if s = "true" then some (.bool true)
  else if s = "false" then some (.bool false)
  else numberOrText? s

end BehaviorTree.Document
