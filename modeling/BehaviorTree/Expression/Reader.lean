import BehaviorTree.Expression.Basic
import BehaviorTree.Number.Decimal

/-!
Reading expressions. The grammar, from the loosest binding to the tightest:

    expression = level [ "?" expression ":" expression ]
    level      = next { operator next }          one level per row of the operator table
    unary      = ( "!" | "-" ) unary | postfix
    postfix    = primary { "." name | "[" expression "]" }
    primary    = number | string | name | "(" expression ")"
               | "[" [ expression { "," expression } ] "]"

Blanks may stand between any two tokens. A reading either yields a value and the text after it,
or the text from where it could not go on. An optional part that cannot be read to its end is
left unread, so a misplaced operator is reported where the complete expression before it ends.
Every reader is given the reader for the expressions inside its own, which is only applied to
shorter text.
-/

namespace BehaviorTree

/-- Result of reading the start of a text. -/
inductive Reading (α : Type) where
  | done (value : α) (rest : List Char)
  | stuck (stop : List Char)
deriving DecidableEq, Repr

namespace Expr

/-- Reads an expression off the front of a text. -/
abbrev Reader := List Char → Reading Expr

/-- Blanks are skipped before every token. -/
def isBlank (c : Char) : Bool := c == ' ' || c == '\t' || c == '\r' || c == '\n'

/-- The text from its first token on. -/
def skipBlanks (s : List Char) : List Char := s.dropWhile isBlank

/-- Digits after a point, if at least one follows it. -/
def readFraction (s : List Char) : List Char × List Char :=
  match s with
  | '.' :: t => if t.takeWhile Char.isDigit = [] then ([], s) else t.span Char.isDigit
  | _ => ([], s)

/-- Sign and digits of an exponent, if at least one digit follows its mark and sign. -/
def readExponent (s : List Char) : (Bool × List Char) × List Char :=
  let unread := ((false, []), s)
  let digits := fun (negative : Bool) (t : List Char) =>
    if t.takeWhile Char.isDigit = [] then unread
    else ((negative, t.takeWhile Char.isDigit), t.dropWhile Char.isDigit)
  match s with
  | c :: t =>
    if c = 'e' ∨ c = 'E' then
      match t with
      | '+' :: u => digits false u
      | '-' :: u => digits true u
      | t => digits false t
    else unread
  | [] => unread

/-- Reads a numeral without a sign: digits, a fraction and an exponent, each but the first if it is
there. -/
def readNumeral (s : List Char) : Option (Number.Numeral × List Char) :=
  let whole := s.takeWhile Char.isDigit
  if whole = [] then none
  else
    let (fraction, t) := readFraction (s.dropWhile Char.isDigit)
    let ((negative, exponent), u) := readExponent t
    some (⟨false, whole, fraction, negative, exponent⟩, u)

/-- The character that a backslash and `c` stand for. -/
def unescape? (c : Char) : Option Char :=
  match c with
  | 'n' => some '\n'
  | 't' => some '\t'
  | '\\' => some '\\'
  | '"' => some '"'
  | '\'' => some '\''
  | _ => none

/-- Characters up to the closing quote. -/
def readQuoted (quote : Char) : List Char → Option (List Char × List Char)
  | [] => none
  | '\\' :: c :: rest => do
    let d ← unescape? c
    let (body, after) ← readQuoted quote rest
    return (d :: body, after)
  | c :: rest =>
    if c = quote then some ([], rest)
    else if c = '\\' then none
    else do
      let (body, after) ← readQuoted quote rest
      return (c :: body, after)

/-- What a name can begin with. -/
def isNameStart (c : Char) : Bool := c.isAlpha || c == '_' || c == '$'

/-- What a name can go on with. -/
def isNamePart (c : Char) : Bool := c.isAlphanum || c == '_' || c == '$'

/-- Reads a name off the front. -/
def readName (s : List Char) : Option (String × List Char) :=
  match s with
  | c :: t =>
    if isNameStart c then some (String.ofList (c :: t.takeWhile isNamePart), t.dropWhile isNamePart)
    else none
  | [] => none

/-- Four names stand for literals, every other one for a variable. -/
def ofName (name : String) : Expr :=
  if name = "true" then literal (.bool true)
  else if name = "false" then literal (.bool false)
  else if name = "null" ∨ name = "undefined" then literal .null
  else var name

/-- The operators from the loosest level to the tightest; of two spellings with a common start the
longer one comes first. -/
def operatorTable : List (List (List Char × BinaryOp)) := [
  [(['|', '|'], .or)],
  [(['&', '&'], .and)],
  [(['=', '=', '='], .eq), (['=', '='], .eq), (['!', '=', '='], .ne), (['!', '='], .ne)],
  [(['<', '='], .le), (['>', '='], .ge), (['<'], .lt), (['>'], .gt)],
  [(['+'], .add), (['-'], .sub)],
  [(['*'], .mul), (['/'], .div), (['%'], .rem)]]

/-- The first operator of the level that the text starts with. -/
def readOperator (ops : List (List Char × BinaryOp)) (s : List Char) :
    Option (BinaryOp × List Char) :=
  match ops with
  | [] => none
  | (spelling, op) :: others =>
    if spelling.isPrefixOf s then some (op, s.drop spelling.length) else readOperator others s

/-- Further items of an array, each after a comma. -/
def readItems (inner : Reader) (s : List Char) : List Expr × List Char :=
  match skipBlanks s with
  | ',' :: t =>
    match inner t with
    | .done e rest =>
      if rest.length < s.length then
        let (items, after) := readItems inner rest
        (e :: items, after)
      else ([], s)
    | .stuck _ => ([], s)
  | _ => ([], s)
termination_by s.length

/-- The part of an array after its opening bracket. -/
def readArray (inner : Reader) (s : List Char) : Option (Expr × List Char) :=
  let (items, rest) :=
    match inner s with
    | .done e t => let (items, after) := readItems inner t; (e :: items, after)
    | .stuck _ => ([], s)
  match skipBlanks rest with
  | ']' :: t => some (array items, t)
  | _ => none

/-- A number, a string, a name or an array at the start of the text. -/
def readAtom (inner : Reader) (s : List Char) : Option (Expr × List Char) :=
  match s with
  | '"' :: t => (readQuoted '"' t).map fun (body, rest) => (literal (.text (String.ofList body)), rest)
  | '\'' :: t => (readQuoted '\'' t).map fun (body, rest) => (literal (.text (String.ofList body)), rest)
  | '[' :: t => readArray inner t
  | s =>
    match readNumeral s with
    | some (n, rest) => some (literal (.number n.toFloat), rest)
    | none => (readName s).map fun (name, rest) => (ofName name, rest)

/-- An atom or an expression in parentheses, with the blanks around it. -/
def primary (inner : Reader) (s : List Char) : Reading Expr :=
  let start := skipBlanks s
  match start with
  | '(' :: t =>
    match inner t with
    | .done e rest =>
      match skipBlanks rest with
      | ')' :: u => .done e (skipBlanks u)
      | stop => .stuck stop
    | .stuck stop => .stuck stop
  | _ =>
    match readAtom inner start with
    | some (e, rest) => .done e (skipBlanks rest)
    | none => .stuck start

/-- The members and elements taken of `e`, as many as can be read. -/
def readSelections (inner : Reader) (e : Expr) (s : List Char) : Expr × List Char :=
  match skipBlanks s with
  | '.' :: t =>
    match readName (skipBlanks t) with
    | some (name, rest) =>
      if rest.length < s.length then readSelections inner (member e name) rest else (e, s)
    | none => (e, s)
  | '[' :: t =>
    match inner t with
    | .done key rest =>
      match skipBlanks rest with
      | ']' :: u =>
        if (skipBlanks u).length < s.length then readSelections inner (index e key) (skipBlanks u)
        else (e, s)
      | _ => (e, s)
    | .stuck _ => (e, s)
  | _ => (e, s)
termination_by s.length

/-- A primary with the selections behind it. -/
def postfixed (inner : Reader) (s : List Char) : Reading Expr :=
  match primary inner s with
  | .done e rest => let (e, rest) := readSelections inner e rest; .done e rest
  | .stuck stop => .stuck stop

/-- A sign applies to the sign or postfix expression after it; if that cannot be read, the
reading is stuck at the sign. -/
def unaryLevel (inner : Reader) : List Char → Reading Expr
  | [] => postfixed inner []
  | c :: t =>
    if isBlank c then unaryLevel inner t
    else if c = '!' then
      match unaryLevel inner t with
      | .done e rest => .done (unary .not e) rest
      | .stuck _ => .stuck (c :: t)
    else if c = '-' then
      match unaryLevel inner t with
      | .done e rest => .done (unary .neg e) rest
      | .stuck _ => .stuck (c :: t)
    else postfixed inner (c :: t)

/-- Operands joined from the left by operators of one level. -/
def readChain (operand : Reader) (ops : List (List Char × BinaryOp)) (lhs : Expr)
    (s : List Char) : Expr × List Char :=
  match readOperator ops (skipBlanks s) with
  | some (op, t) =>
    match operand t with
    | .done rhs rest =>
      if rest.length < s.length then readChain operand ops (binary op lhs rhs) rest else (lhs, s)
    | .stuck _ => (lhs, s)
  | none => (lhs, s)
termination_by s.length

/-- A level of binary operators and all levels below it. -/
def binaryLevel (inner : Reader) : List (List (List Char × BinaryOp)) → Reader
  | [], s => unaryLevel inner s
  | ops :: tighter, s =>
    match binaryLevel inner tighter s with
    | .done lhs rest =>
      let (e, after) := readChain (binaryLevel inner tighter) ops lhs rest
      .done e after
    | .stuck stop => .stuck stop

/-- The two branches after a test. -/
def readBranches (inner : Reader) (s : List Char) : Option ((Expr × Expr) × List Char) :=
  match skipBlanks s with
  | '?' :: t =>
    match inner t with
    | .done yes rest =>
      match skipBlanks rest with
      | ':' :: u =>
        match inner u with
        | .done no after => some ((yes, no), after)
        | .stuck _ => none
      | _ => none
    | .stuck _ => none
  | _ => none

/-- A test with its two branches, or the test alone. -/
def ternary (inner : Reader) (s : List Char) : Reading Expr :=
  match binaryLevel inner operatorTable s with
  | .done test rest =>
    match readBranches inner rest with
    | some ((yes, no), after) => .done (conditional test yes no) after
    | none => .done test rest
  | .stuck stop => .stuck stop

/-- Reads an expression at the start of the text; the expressions inside it lie in shorter text. -/
def expression (s : List Char) : Reading Expr :=
  ternary (fun t => if t.length < s.length then expression t else .stuck t) s
termination_by s.length

/-- The expression that the whole text is. -/
def read (code : String) : Except ExprError Expr :=
  let fail := fun stop : List Char =>
    .error (.malformed code (code.utf8ByteSize - (String.ofList stop).utf8ByteSize))
  match expression code.toList with
  | .done e rest =>
    match skipBlanks rest with
    | [] => .ok e
    | stop => fail stop
  | .stuck stop => fail stop

end Expr
end BehaviorTree
