import BehaviorTree.Number.Shortest

/-!
How numbers are written. `plain` never uses an exponent: it is the text of a value. `detailed` is
the text inside a dumped tree: it always shows a point or an exponent, so that a number is told
apart from a whole one.
-/

namespace BehaviorTree.Number

def digits (n : Nat) : String := toString n

def zeros (n : Nat) : String := String.ofList (List.replicate n '0')

/-- Positional text of `d · 10 ^ p`, with at least `places` digits after the point. -/
def positional (d : Nat) (p : Int) (places : Nat) : String :=
  if 0 ≤ p then
    let whole := digits d ++ zeros p.toNat
    if places = 0 then whole else whole ++ "." ++ zeros places
  else
    let k := (-p).toNat
    let text := digits d
    let text := zeros (k + 1 - text.length) ++ text
    let cut := text.length - k
    String.ofList (text.toList.take cut) ++ "." ++ String.ofList (text.toList.drop cut)

/-- One digit before the point, the others after it, then the exponent. -/
def scientific (d : Nat) (p : Int) : String :=
  let text := digits d
  let head := String.ofList (text.toList.take 1)
  let tail := String.ofList (text.toList.drop 1)
  let exponent := p + (text.length - 1 : Nat)
  head ++ (if tail = "" then "" else "." ++ tail) ++ "e" ++ toString exponent

/-- Puts a sign in front of a text. -/
def signed (negative : Bool) (text : String) : String := if negative then "-" ++ text else text

/-- Shortest digits without exponent; whole numbers have no point. -/
def plain (x : Float) : String :=
  match Binary.ofFloat x with
  | .nan => "NaN"
  | .infinite negative => signed negative "inf"
  | .finite negative 0 _ => signed negative "0"
  | .finite negative m e => let (d, p) := shortest m e; signed negative (positional d p 0)

/-- Shortest digits with at least one place after the point. From `10 ^ 16` up and below
`10 ^ -4` the exponent is written instead. -/
def detailed (x : Float) : String :=
  match Binary.ofFloat x with
  | .nan => "NaN"
  | .infinite negative => signed negative "inf"
  | .finite negative 0 _ => signed negative "0.0"
  | .finite negative m e =>
    let (d, p) := shortest m e
    let exponent := p + (digits d).length - 1
    signed negative (if -4 ≤ exponent ∧ exponent < 16 then positional d p 1 else scientific d p)

end BehaviorTree.Number
