/-!
Powers of the two bases that numbers are held and written in. A power is applied by name; no
operator is overloaded for it here.
-/

namespace BehaviorTree.Number

/-- `2 ^ n`. -/
def twoTo (n : Nat) : Nat := Nat.pow 2 n

/-- `10 ^ n`. -/
def tenTo (n : Nat) : Nat := Nat.pow 10 n

end BehaviorTree.Number
