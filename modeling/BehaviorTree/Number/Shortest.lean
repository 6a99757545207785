import BehaviorTree.Number.Binary

/-!
The fewest decimal digits that read back. Every number owns the interval of reals that round to
it. On the grid of decimals with `n` significant digits the two neighbours of the number are
tried, for `n = 1, 2, …`: the first grid with a neighbour inside the interval decides how many
digits are written, and of two neighbours inside it the nearer is taken, a tie going up.
-/

namespace BehaviorTree.Number

/-- Decimal digits of a positive natural, counted; zero has none. -/
def digitCount (n : Nat) : Nat :=
  if n = 0 then 0 else digitCount (n / 10) + 1
termination_by n

/-- A magnitude together with the ends of its interval, over one denominator. -/
structure Interval where
  low : Nat
  value : Nat
  high : Nat
  den : Nat
  /-- The ends themselves round to the number. -/
  closed : Bool

/-- Half the distance to the neighbour on either side. The neighbour below a power of two is
nearer than the one above, except at the lower end of the range. -/
def interval (m : Nat) (e : Int) : Interval :=
  let below := if m = twoTo 52 ∧ -1074 < e then 1 else 2
  let scale := fun k => ratio k (e - 2)
  { low := (scale (4 * m - below)).1
    value := (scale (4 * m)).1
    high := (scale (4 * m + 2)).1
    den := (scale 1).2
    closed := m % 2 = 0 }

/-- `num / den < 10 ^ magnitude num den`, and no smaller power will do. -/
def magnitude (num den : Nat) : Int :=
  if den ≤ num then digitCount (num / den)
  else 1 - digitCount ((den + num - 1) / num - 1)

/-- Whether the decimal `d · 10 ^ p` lies in the interval. -/
def Interval.holds (i : Interval) (d : Nat) (p : Int) : Bool :=
  let (x, t) := if 0 ≤ p then (d * tenTo p.toNat * i.den, 1) else (d * i.den, tenTo (-p).toNat)
  if i.closed then i.low * t ≤ x && x ≤ i.high * t else i.low * t < x && x < i.high * t

/-- The neighbour on the grid of multiples of `10 ^ p` that the interval holds, if any. -/
def Interval.onGrid (i : Interval) (p : Int) : Option Nat :=
  let (num, den) :=
    if 0 ≤ p then (i.value, i.den * tenTo p.toNat) else (i.value * tenTo (-p).toNat, i.den)
  let d := num / den
  match i.holds d p, i.holds (d + 1) p with
  | true, true => some (if den ≤ 2 * (num % den) then d + 1 else d)
  | true, false => some d
  | false, true => some (d + 1)
  | false, false => none

/-- Drops final zeros of the digits and raises the power of ten for each. -/
def stripZeros : Nat → Nat → Int → Nat × Int
  | 0, d, p => (d, p)
  | fuel + 1, d, p => if d ≠ 0 ∧ d % 10 = 0 then stripZeros fuel (d / 10) (p + 1) else (d, p)

/-- Digits `d` and power `p` such that `d · 10 ^ p` is the shortest decimal for the positive
magnitude `m · 2 ^ e`. Seventeen digits always suffice. -/
def shortest (m : Nat) (e : Int) : Nat × Int :=
  let i := interval m e
  let top := magnitude i.value i.den
  let attempt := fun (k : Nat) => (i.onGrid (top - (k + 1))).map (fun d => (d, top - ((k + 1 : Nat) : Int)))
  match (List.range 17).findSome? attempt with
  | some (d, p) => stripZeros 20 d p
  | none => (0, 0)

end BehaviorTree.Number
