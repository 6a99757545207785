import BehaviorTree.Expression.Reader
import Mathlib.Data.List.Basic

/-!
The grammar of expressions, as a relation between texts and what they stand for.

    expression = or [ "?" expression ":" expression ]
    or         = and { "||" and }
    and        = equality { "&&" equality }
    equality   = comparison { ( "==" | "===" | "!=" | "!==" ) comparison }
    comparison = additive { ( "<=" | ">=" | "<" | ">" ) additive }
    additive   = term { ( "+" | "-" ) term }
    term       = unary { ( "*" | "/" | "%" ) unary }
    unary      = ( "!" | "-" ) unary | selection
    selection  = primary { "." name | "[" expression "]" }
    primary    = number | text | "true" | "false" | "null" | "undefined" | name
               | "(" expression ")" | "[" [ expression { "," expression } ] "]"

Blanks may stand around every token. Repeated operators of a level join their operands from the left.
Nothing here mentions how a text is read.
-/

namespace BehaviorTree.Expr

namespace Grammar

/-! ### Tokens -/

/-- The characters that may stand between tokens. -/
def Blank (c : Char) : Prop := c ∈ [' ', '\t', '\r', '\n']

/-- The text is that of a token with blanks around it. -/
def Around (token s : List Char) : Prop :=
  ∃ before after, (∀ c ∈ before, Blank c) ∧ (∀ c ∈ after, Blank c) ∧ s = before ++ token ++ after

/-- One digit or more. -/
def Digits (s : List Char) : Prop := s ≠ [] ∧ ∀ c ∈ s, c.isDigit

/-- What may follow the digits of a whole number: a point and more digits. -/
inductive Fraction : List Char → List Char → Prop where
  | none : Fraction [] []
  | some {digits : List Char} : Digits digits → Fraction ('.' :: digits) digits

/-- What may end a number: a mark, perhaps a sign, and digits. -/
inductive Exponent : List Char → Bool → List Char → Prop where
  | none : Exponent [] false []
  | bare {mark : Char} {digits : List Char} : mark ∈ ['e', 'E'] → Digits digits →
      Exponent (mark :: digits) false digits
  | plus {mark : Char} {digits : List Char} : mark ∈ ['e', 'E'] → Digits digits →
      Exponent (mark :: '+' :: digits) false digits
  | minus {mark : Char} {digits : List Char} : mark ∈ ['e', 'E'] → Digits digits →
      Exponent (mark :: '-' :: digits) true digits

/-- How a number is spelt, and the numeral that the spelling stands for. -/
inductive Numeral : List Char → Number.Numeral → Prop where
  | mk {whole fraction digits exponent ending : List Char} {negative : Bool} : Digits whole →
      Fraction fraction digits → Exponent exponent negative ending →
      Numeral (whole ++ fraction ++ exponent) ⟨false, whole, digits, negative, ending⟩

/-- The characters that may follow a backslash, and what they stand for. -/
def escapes : List (Char × Char) := [('n', '\n'), ('t', '\t'), ('\\', '\\'), ('"', '"'), ('\'', '\'')]

/-- How characters are written between quotes. -/
inductive Written (quote : Char) : List Char → List Char → Prop where
  | nil : Written quote [] []
  | plain {c : Char} {s body : List Char} : c ≠ quote → c ≠ '\\' → Written quote s body →
      Written quote (c :: s) (c :: body)
  | escape {c d : Char} {s body : List Char} : (c, d) ∈ escapes → Written quote s body →
      Written quote ('\\' :: c :: s) (d :: body)

/-- A name begins with a letter, an underscore or a dollar sign. -/
def NameStart (c : Char) : Prop := c.isAlpha ∨ c = '_' ∨ c = '$'

/-- A name goes on with digits as well. -/
def NamePart (c : Char) : Prop := c.isAlpha ∨ c.isDigit ∨ c = '_' ∨ c = '$'

/-- How a name is spelt. -/
inductive Name : List Char → Prop where
  | mk {c : Char} {s : List Char} : NameStart c → (∀ d ∈ s, NamePart d) → Name (c :: s)

/-- The reserved names and the literals that they are. -/
def constants : List (String × Value) :=
  [("true", .bool true), ("false", .bool false), ("null", .null), ("undefined", .null)]

/-! ### Categories -/

/-- The levels of binary operators, from the loosest to the tightest. -/
inductive OperatorLevel where
  | or
  | and
  | equality
  | comparison
  | additive
  | term
deriving DecidableEq

/-- What the grammar has rules for. -/
inductive Category where
  | expression
  | level (l : OperatorLevel)
  | unary
  | selection
  | primary
  | items

/-- What the operators of a level join. -/
def OperatorLevel.operands : OperatorLevel → Category
  | or => .level and
  | and => .level equality
  | equality => .level comparison
  | comparison => .level additive
  | additive => .level term
  | term => .unary

/-- Spellings of the operators of a level, the longer ones first. -/
def OperatorLevel.operators : OperatorLevel → List (List Char × BinaryOp)
  | or => [(['|', '|'], .or)]
  | and => [(['&', '&'], .and)]
  | equality => [(['=', '='], .eq), (['=', '=', '='], .eq), (['!', '='], .ne), (['!', '=', '='], .ne)]
  | comparison => [(['<', '='], .le), (['>', '='], .ge), (['<'], .lt), (['>'], .gt)]
  | additive => [(['+'], .add), (['-'], .sub)]
  | term => [(['*'], .mul), (['/'], .div), (['%'], .rem)]

/-- Spellings of the operators in front of an operand. -/
def signs : List (Char × UnaryOp) := [('!', .not), ('-', .neg)]

/-- The text derives the expression in a category. Items derive the array of them. -/
inductive Derives : Category → List Char → Expr → Prop where
  | test {s : List Char} {e : Expr} : Derives (.level .or) s e → Derives .expression s e
  | conditional {s t u query colon : List Char} {test yes no : Expr} : Derives (.level .or) s test →
      Around ['?'] query → Derives .expression t yes → Around [':'] colon → Derives .expression u no →
      Derives .expression (s ++ query ++ t ++ colon ++ u) (.conditional test yes no)
  | operand {l : OperatorLevel} {s : List Char} {e : Expr} : Derives l.operands s e → Derives (.level l) s e
  | joined {l : OperatorLevel} {s t o spelling : List Char} {op : BinaryOp} {lhs rhs : Expr} :
      Derives (.level l) s lhs → (spelling, op) ∈ l.operators → Around spelling o → Derives l.operands t rhs →
      Derives (.level l) (s ++ o ++ t) (.binary op lhs rhs)
  | signed {s o : List Char} {sign : Char} {op : UnaryOp} {e : Expr} : (sign, op) ∈ signs → Around [sign] o →
      Derives .unary s e → Derives .unary (o ++ s) (.unary op e)
  | unsigned {s : List Char} {e : Expr} : Derives .selection s e → Derives .unary s e
  | plain {s : List Char} {e : Expr} : Derives .primary s e → Derives .selection s e
  | member {s t point name : List Char} {e : Expr} : Derives .selection s e → Around ['.'] point → Name name →
      Around name t → Derives .selection (s ++ point ++ t) (.member e (String.ofList name))
  | index {s t o c : List Char} {e key : Expr} : Derives .selection s e → Around ['['] o →
      Derives .expression t key → Around [']'] c → Derives .selection (s ++ o ++ t ++ c) (.index e key)
  | number {s token : List Char} {n : Number.Numeral} : Numeral token n → Around token s →
      Derives .primary s (.literal (.number n.toFloat))
  | text {s token body : List Char} {quote : Char} : quote ∈ ['"', '\''] → Written quote token body →
      Around (quote :: token ++ [quote]) s → Derives .primary s (.literal (.text (String.ofList body)))
  | constant {s name : List Char} {v : Value} : Name name → (String.ofList name, v) ∈ constants → Around name s →
      Derives .primary s (.literal v)
  | var {s name : List Char} : Name name → String.ofList name ∉ constants.map Prod.fst → Around name s →
      Derives .primary s (.var (String.ofList name))
  | parentheses {s o c : List Char} {e : Expr} : Around ['('] o → Derives .expression s e → Around [')'] c →
      Derives .primary (o ++ s ++ c) e
  | empty {o c : List Char} : Around ['['] o → Around [']'] c → Derives .primary (o ++ c) (.array [])
  | array {s o c : List Char} {items : List Expr} : Around ['['] o → Derives .items s (.array items) →
      Around [']'] c → Derives .primary (o ++ s ++ c) (.array items)
  | last {s : List Char} {e : Expr} : Derives .expression s e → Derives .items s (.array [e])
  | more {s t comma : List Char} {e : Expr} {items : List Expr} : Derives .expression s e → Around [','] comma →
      Derives .items t (.array items) → Derives .items (s ++ comma ++ t) (.array (e :: items))

/-! ### Blanks around a whole text -/

/-- Any number of blanks. -/
def Blanks (s : List Char) : Prop := ∀ c ∈ s, Blank c

theorem blanks_nil : Blanks [] := nofun

theorem Blanks.append {s t : List Char} (one : Blanks s) (two : Blanks t) : Blanks (s ++ t) :=
  List.forall_mem_append.mpr ⟨one, two⟩

theorem Around.pad {token s before after : List Char} (around : Around token s) (one : Blanks before)
    (two : Blanks after) : Around token (before ++ s ++ after) := by
  obtain ⟨b, a, left, right, rfl⟩ := around
  exact ⟨before ++ b, a ++ after, one.append left, Blanks.append right two, by simp only [List.append_assoc]⟩

/-- Blanks may stand around whatever derives an expression. -/
theorem Derives.pad {c : Category} {s : List Char} {e : Expr} (derives : Derives c s e) {before after : List Char}
    (one : Blanks before) (two : Blanks after) : Derives c (before ++ s ++ after) e := by
  induction derives generalizing before after with
  | test _ ih => exact .test (ih one two)
  | conditional _ query _ colon _ ihTest ihYes ihNo =>
    simpa using Derives.conditional (ihTest one blanks_nil) query (ihYes blanks_nil blanks_nil) colon
      (ihNo blanks_nil two)
  | operand _ ih => exact .operand (ih one two)
  | joined _ member spelled _ ihLeft ihRight =>
    simpa using Derives.joined (ihLeft one blanks_nil) member spelled (ihRight blanks_nil two)
  | signed member sign _ ih => simpa using Derives.signed member (sign.pad one blanks_nil) (ih blanks_nil two)
  | unsigned _ ih => exact .unsigned (ih one two)
  | plain _ ih => exact .plain (ih one two)
  | member _ point name spelled ih =>
    simpa using Derives.member (ih one blanks_nil) point name (spelled.pad blanks_nil two)
  | index _ opening _ closing ih ihKey =>
    simpa using Derives.index (ih one blanks_nil) opening (ihKey blanks_nil blanks_nil) (closing.pad blanks_nil two)
  | number numeral spelled => exact .number numeral (spelled.pad one two)
  | text quote written spelled => exact .text quote written (spelled.pad one two)
  | constant name known spelled => exact .constant name known (spelled.pad one two)
  | var name free spelled => exact .var name free (spelled.pad one two)
  | parentheses opening _ closing ih =>
    simpa using Derives.parentheses (opening.pad one blanks_nil) (ih blanks_nil blanks_nil)
      (closing.pad blanks_nil two)
  | empty opening closing => simpa using Derives.empty (opening.pad one blanks_nil) (closing.pad blanks_nil two)
  | array opening _ closing ih =>
    simpa using Derives.array (opening.pad one blanks_nil) (ih blanks_nil blanks_nil) (closing.pad blanks_nil two)
  | last _ ih => exact .last (ih one two)
  | more _ comma _ ih ihRest =>
    simpa using Derives.more (ih one blanks_nil) comma (ihRest blanks_nil two)

/-! ### How texts begin -/

/-- A character that a primary may begin with. -/
def Opens (c : Char) : Prop := c.isDigit ∨ NameStart c ∨ c ∈ ['"', '\'', '(', '[']

/-- A character that a derivation in a category may begin with. -/
def Category.Begins : Category → Char → Prop
  | .primary, c | .selection, c => Opens c
  | _, c => Opens c ∨ c ∈ ['!', '-']

/-- The text begins with blanks and then such a character. -/
def Heads (p : Char → Prop) (s : List Char) : Prop := ∃ before c rest, Blanks before ∧ p c ∧ s = before ++ c :: rest

theorem Heads.mono {p q : Char → Prop} {s : List Char} (heads : Heads p s) (le : ∀ c, p c → q c) : Heads q s := by
  obtain ⟨before, c, rest, blanks, first, rfl⟩ := heads
  exact ⟨before, c, rest, blanks, le c first, rfl⟩

theorem Heads.append {p : Char → Prop} {s : List Char} (heads : Heads p s) (t : List Char) : Heads p (s ++ t) := by
  obtain ⟨before, c, rest, blanks, first, rfl⟩ := heads
  exact ⟨before, c, rest ++ t, blanks, first, by simp⟩

theorem Around.heads {c : Char} {token s : List Char} {p : Char → Prop} (around : Around (c :: token) s) (first : p c) :
    Heads p s := by
  obtain ⟨before, after, left, -, rfl⟩ := around
  exact ⟨before, c, token ++ after, left, first, by simp⟩

theorem OperatorLevel.begins_operands (l : OperatorLevel) {c : Char} (begins : l.operands.Begins c) :
    (Category.level l).Begins c := by
  cases l <;> exact begins

/-- What is derived begins with what its category begins with. -/
theorem Derives.heads {c : Category} {s : List Char} {e : Expr} (derives : Derives c s e) : Heads c.Begins s := by
  induction derives with
  | test _ ih => exact ih
  | conditional _ _ _ _ _ ih => exact (((ih.append _).append _).append _).append _
  | @operand l _ _ _ ih => exact ih.mono fun _ => l.begins_operands
  | joined _ _ _ _ ih => exact (ih.append _).append _
  | signed member sign _ _ =>
    refine (sign.heads (.inr ?_)).append _
    simp only [signs, List.mem_cons, Prod.mk.injEq, List.not_mem_nil, or_false] at member
    rcases member with ⟨rfl, -⟩ | ⟨rfl, -⟩ <;> simp
  | unsigned _ ih => exact ih.mono fun _ => .inl
  | plain _ ih => exact ih
  | member _ _ _ _ ih => exact (ih.append _).append _
  | index _ _ _ _ ih => exact ((ih.append _).append _).append _
  | number numeral spelled =>
    obtain ⟨digits, -, -⟩ := numeral
    obtain ⟨some, all⟩ := digits
    obtain ⟨c, whole, rfl⟩ := List.exists_cons_of_ne_nil some
    exact spelled.heads (.inl (all c List.mem_cons_self))
  | text quote _ spelled =>
    refine spelled.heads (.inr (.inr ?_))
    simp only [List.mem_cons, List.not_mem_nil, or_false] at quote ⊢
    tauto
  | constant name _ spelled =>
    obtain ⟨start, -⟩ := name
    exact spelled.heads (.inr (.inl start))
  | var name _ spelled =>
    obtain ⟨start, -⟩ := name
    exact spelled.heads (.inr (.inl start))
  | parentheses opening => exact ((opening.heads (.inr (.inr (by simp)))).append _).append _
  | empty opening => exact (opening.heads (.inr (.inr (by simp)))).append _
  | array opening => exact ((opening.heads (.inr (.inr (by simp)))).append _).append _
  | last _ ih => exact ih
  | more _ _ _ ih => exact (ih.append _).append _

theorem Derives.ne_nil {c : Category} {s : List Char} {e : Expr} (derives : Derives c s e) : s ≠ [] := by
  obtain ⟨before, first, rest, -, -, rfl⟩ := derives.heads
  simp

end Grammar
end BehaviorTree.Expr
