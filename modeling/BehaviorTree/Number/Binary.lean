import BehaviorTree.Number.Power

/-!
The exact value of a binary number. A finite 64-bit number is `± m · 2 ^ e` with natural `m` and
whole `e`; `Binary.ofFloat` reads the three parts off the bits, and whatever has to be exact
(whole numbers, remainders, decimal digits) is computed on them. The way back is `nearest`, the
number that lies closest to a quotient of naturals, a tie going to the even mantissa.
-/

namespace BehaviorTree.Number

/-- A 64-bit number taken apart. -/
inductive Binary where
  | nan
  | infinite (negative : Bool)
  | finite (negative : Bool) (mantissa : Nat) (exponent : Int)
deriving DecidableEq, Repr

/-- Bits 52 and up hold sign and exponent; exponent zero marks the numbers without a leading one. -/
def Binary.ofBits (bits : Nat) : Binary :=
  let negative := twoTo 63 ≤ bits
  let exponent : Nat := bits / twoTo 52 % twoTo 11
  let fraction : Nat := bits % twoTo 52
  if exponent = 2047 then
    if fraction = 0 then .infinite negative else .nan
  else if exponent = 0 then
    .finite negative fraction (-1074)
  else
    .finite negative (fraction + twoTo 52) ((exponent : Int) - 1075)

/-- Sign, exponent and fraction of a number. -/
def Binary.ofFloat (x : Float) : Binary := .ofBits x.toBits.toNat

/-- Magnitude `m · 2 ^ e` as a numerator and a denominator. -/
def ratio (m : Nat) (e : Int) : Nat × Nat :=
  if 0 ≤ e then (m * twoTo e.toNat, 1) else (m, twoTo (-e).toNat)

/-- Quotient rounded to the nearest natural, a tie to the even one. -/
def roundDiv (num den : Nat) : Nat :=
  let q := num / den
  let r := num % den
  if 2 * r > den ∨ (2 * r = den ∧ q % 2 = 1) then q + 1 else q

/-- Exponent of the last mantissa bit for a magnitude near `num / den`: 53 bits are kept, and
fewer at the lower end of the range, where -1074 is the smallest exponent. -/
def lastBit (num den : Nat) : Int :=
  let guess : Int := (num.log2 : Int) - den.log2 - 53
  let (n, d) :=
    if 0 ≤ guess then (num, den * twoTo guess.toNat) else (num * twoTo (-guess).toNat, den)
  max (-1074) (if n / d < twoTo 53 then guess else guess + 1)

/-- Bits of the positive number nearest to `num / den`. The mantissa is added onto the exponent
field, so rounding up to the next power of two carries into it; what is too large is infinite. -/
def nearestBits (num den : Nat) : Nat :=
  if num = 0 then 0 else
  let e := lastBit num den
  let m :=
    if 0 ≤ e then roundDiv num (den * twoTo e.toNat) else roundDiv (num * twoTo (-e).toNat) den
  min ((e + 1074).toNat * twoTo 52 + m) (2047 * twoTo 52)

/-- The number nearest to a fraction. -/
def nearest (negative : Bool) (num den : Nat) : Float :=
  Float.ofBits (UInt64.ofNat (nearestBits num den + if negative then twoTo 63 else 0))

/-- The whole number that a finite number without fraction stands for. -/
def Binary.whole? : Binary → Option Int
  | .finite negative m e =>
    let (num, den) := ratio m e
    if num % den = 0 then
      let n : Int := (num / den : Nat)
      some (if negative then -n else n)
    else none
  | _ => none

/-- The whole number that `x` is, if it has no fraction and is finite. -/
def whole? (x : Float) : Option Int := (Binary.ofFloat x).whole?

/-- Whole numbers outside the signed 64-bit range become its nearer end. -/
def clamp64 (n : Int) : Int := max (-twoTo 63) (min n (twoTo 63 - 1))

/-- Nearest number to a whole number. -/
def ofInt (n : Int) : Float := nearest (n < 0) n.natAbs 1

/-- The number nearest to a natural one. -/
def ofNat (n : Nat) : Float := nearest false n 1

/-- Remainder of the division that rounds toward zero; it has the sign of the dividend and is
exact, because both operands are multiples of the smaller of their last bits. -/
def Binary.rem (x y : Binary) : Option (Bool × Nat × Int) :=
  match x, y with
  | .finite negative m e, .finite _ n f =>
    if n = 0 then none
    else
      let last := min e f
      some (negative, (m * twoTo (e - last).toNat) % (n * twoTo (f - last).toNat), last)
  | .finite negative m e, .infinite _ => some (negative, m, e)
  | _, _ => none

/-- Remainder of numbers; there is none for an infinite dividend or a divisor of zero. -/
def rem (x y : Float) : Float :=
  match (Binary.ofFloat x).rem (Binary.ofFloat y) with
  | some (negative, m, e) => let (num, den) := ratio m e; nearest negative num den
  | none => 0.0 / 0.0

end BehaviorTree.Number
