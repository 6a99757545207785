import BehaviorTree.Number.Binary

/-!
Reading decimal numerals: the number nearest to `d · 10 ^ p`. Powers far outside the range are
settled before any large natural is built.
-/

namespace BehaviorTree.Number

/-- Value of a string of decimal digits. -/
def digitsValue (cs : List Char) : Nat :=
  cs.foldl (fun n c => 10 * n + (c.toNat - '0'.toNat)) 0

/-- Number nearest to `± d · 10 ^ p`. The largest finite number has 309 digits before the point
and the smallest positive one begins 324 places after it. -/
def ofDecimal (negative : Bool) (d : Nat) (p : Int) : Float :=
  if d = 0 then nearest negative 0 1
  else
    let size : Int := (Nat.log2 d / 4 : Nat) + p
    if 310 < size then nearest negative (twoTo 1100) 1
    else if p + (Nat.log2 d : Int) < -400 then nearest negative 0 1
    else if 0 ≤ p then nearest negative (d * tenTo p.toNat) 1
    else nearest negative d (tenTo (-p).toNat)

/-- A numeral read so far: digits before and after the point, and the exponent. -/
structure Numeral where
  negative : Bool
  whole : List Char
  fraction : List Char
  exponentNegative : Bool
  exponent : List Char
deriving DecidableEq, Repr

/-- The number nearest to what a numeral spells. -/
def Numeral.toFloat (n : Numeral) : Float :=
  let e : Int := digitsValue n.exponent
  ofDecimal n.negative (digitsValue (n.whole ++ n.fraction))
    ((if n.exponentNegative then -e else e) - n.fraction.length)

end BehaviorTree.Number
