import BehaviorTree.Proofs.Expression.Pattern
import BehaviorTree.Proofs.Expression.Sound

/-!
The grammar of expressions as rules for scanning, each alternative in the order in which it is tried. A rule has no
other way to fail than its pattern: the digits of a number always have a value, and every name stands for something.
The rules from the arrays and the primaries, which hold expressions in brackets, up to the expressions call each other
in a circle; `Rule.grounded` says why a scan comes to an end all the same.
-/

namespace BehaviorTree

namespace Pattern

variable {ρ : Type}

/-- The blanks that there are. -/
def blanks : Pattern ρ := .optional (.run Expr.isBlank)

/-- With any blanks around it. -/
def spaced (p : Pattern ρ) : Pattern ρ := .pair blanks (.pair p blanks)

/-- One of some characters. -/
def among : Char → List Char → Pattern ρ
  | c, [] => .word [c]
  | c, d :: others => .either (.word [c]) (among d others)

end Pattern

namespace Expr

open Grammar Pattern

/-- What a text is scanned for, from the tokens up. -/
inductive Rule where
  | identifier
  | number
  | text
  | name
  | array
  | primary
  | selection
  | unary
  | level (l : OperatorLevel)
  | expression

namespace Rule

/-- What the operators of a level join. -/
def operands : OperatorLevel → Rule
  | .or => level .and
  | .and => level .equality
  | .equality => level .comparison
  | .comparison => level .additive
  | .additive => level .term
  | .term => unary

/-- The operators of a level, a longer spelling before one that it begins with. -/
def operator : OperatorLevel → Pattern Rule
  | .or => .word ['|', '|']
  | .and => .word ['&', '&']
  | .equality => .either (.either (.word ['=', '=', '=']) (.word ['=', '='])) (.either (.word ['!', '=', '=']) (.word ['!', '=']))
  | .comparison => .either (.word ['<', '=']) (.either (.word ['>', '=']) (among '<' ['>']))
  | .additive => among '+' ['-']
  | .term => among '*' ['/', '%']

/-- The characters of a string and the closing quote. -/
def quoted (quote : Char) : Pattern Rule :=
  .pair (.many (.either (.run fun c => c != quote && c != '\\')
    (.pair (.word ['\\']) (among 'n' ['t', '\\', '"', '\'']))))
    (.word [quote])

/-- A number, a string, a name or an array. -/
def atom : Pattern Rule := .either (.rule number) (.either (.rule text) (.either (.rule name) (.rule array)))

/-- A member or an element that is taken. -/
def selector : Pattern Rule := .either (.pair (spaced (.word ['.'])) (.rule identifier))
  (.pair (spaced (.word ['['])) (.pair (.rule expression) (spaced (.word [']']))))

/-- The pattern that a rule stands for. -/
def pattern : Rule → Pattern Rule
  | identifier => .pair (.either (.run Char.isAlpha) (among '_' ['$']))
      (.many (.either (.run Char.isAlphanum) (among '_' ['$'])))
  | number => .pair (.run Char.isDigit) (.pair (.optional (.pair (.word ['.']) (.run Char.isDigit)))
      (.optional (.pair (among 'e' ['E']) (.pair (.optional (among '+' ['-'])) (.run Char.isDigit)))))
  | text => .either (.pair (.word ['"']) (quoted '"')) (.pair (.word ['\'']) (quoted '\''))
  | name => .rule identifier
  | array => .pair (spaced (.word ['['])) (.pair (.list (spaced (.word [','])) (.rule expression)) (spaced (.word [']'])))
  | primary => spaced (.either atom (.pair (spaced (.word ['('])) (.pair (.rule expression) (spaced (.word [')'])))))
  | selection => .pair (.rule primary) (.many selector)
  | unary => .either (.pair (spaced (.word ['!'])) (.rule unary)) (.either (.pair (spaced (.word ['-'])) (.rule unary))
      (.rule selection))
  | level l => .pair (.rule (operands l)) (.loop (.pair (spaced (operator l)) (.rule (operands l))))
  | expression => .pair (.rule (level .or)) (.optional (.pair (.pair (spaced (.word ['?'])) (.rule expression))
      (.pair (spaced (.word [':'])) (.rule expression))))

/-- A whole text. -/
def whole : Pattern Rule := .pair (spaced (.rule expression)) .ending

/-- How far a rule stands above the tokens. -/
def rank : Rule → Nat
  | identifier | number | text | array => 0
  | name => 1
  | primary => 2
  | selection => 3
  | unary => 4
  | level l => 10 - l.place
  | expression => 11

/-- No rule calls itself before it has taken something, and every repetition takes something. -/
theorem grounded : Grounded pattern rank 12 where
  takes r := by
    rcases r with _ | _ | _ | _ | _ | _ | _ | _ | l | _
    case level => rfl
    all_goals decide
  grounded r := by
    rcases r with _ | _ | _ | _ | _ | _ | _ | _ | l | _
    case level => cases l <;> decide
    all_goals decide
  rank_lt r := by
    rcases r with _ | _ | _ | _ | _ | _ | _ | _ | l | _
    case level => cases l <;> decide
    all_goals decide

end Rule
end Expr
end BehaviorTree
