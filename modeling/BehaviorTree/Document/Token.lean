import BehaviorTree.Document.ScalarText

/-!
The tokens of a document. Marks and scalars become tokens as they stand; that a scalar or a
collection is a key shows only at the colon after it, so its place is kept until then. Block
collections have no marks around them: they begin where a column goes beyond the indentation, and
end where it falls behind.
-/

namespace BehaviorTree.Document

/-- What the lexer makes of the characters. -/
inductive Token where
  | documentStart
  | documentEnd
  /-- Beginning of a block sequence. -/
  | blockSequence
  /-- Beginning of a block mapping. -/
  | blockMapping
  /-- End of a block collection. -/
  | blockEnd
  | openBracket
  | closeBracket
  | openBrace
  | closeBrace
  | comma
  /-- A dash before an item of a block sequence. -/
  | item
  | key
  | value
  | plain (text : String)
  | quoted (text : String)
deriving DecidableEq, Repr, Inhabited

/-- A token that a later colon may turn into a key: its number among the tokens and where it
begins. A flow collection goes on beyond the indentation around it, so what stands in the very
column of the enclosing block collection is required to be a key. -/
structure KeyStart where
  token : Nat
  place : Place
  required : Bool
deriving Repr, Inhabited

/-- A text in the course of being cut into tokens. -/
structure Lexer where
  rest : List Char
  place : Place := .start
  tokens : Array Token := #[]
  /-- Whether a key may begin here. -/
  keyAllowed : Bool := true
  /-- The possible key of the innermost flow collection, or of the text outside of them. -/
  key : Option KeyStart := none
  /-- The possible keys around each open flow collection, the innermost first. -/
  outerKeys : List (Option KeyStart) := []
  /-- Columns of the open block collections, the innermost first. -/
  indents : List Nat := []
  /-- Where the last quoted scalar ended: a colon right there makes it a key. -/
  quoteEnd : Nat := 0
deriving Inhabited

namespace Lexer

/-- Whether the place is inside a flow collection. -/
def inFlow (l : Lexer) : Bool := !l.outerKeys.isEmpty

/-- Puts a token out. -/
def add (l : Lexer) (token : Token) : Lexer := { l with tokens := l.tokens.push token }

/-- Goes over a number of characters. -/
def skip (n : Nat) (l : Lexer) : Lexer :=
  { l with rest := l.rest.drop n, place := (l.rest.take n).foldl Place.after l.place }

/-- A possible key does not become one; there is no result if it had to. -/
def dropKey? (l : Lexer) : Option Lexer :=
  if l.key.any KeyStart.required then none else some { l with key := none }

/-- The next token may become a key, if keys are allowed. -/
def startKey? (l : Lexer) : Option Lexer :=
  if l.keyAllowed then do
    let l' ← l.dropKey?
    let required := l.inFlow && l.indents.head? == some l.place.column
    some { l' with key := some ⟨l.tokens.size, l.place, required⟩ }
  else some l

/-- Keys end on the line where they begin, within 1024 characters. -/
def isStale (place : Place) (key : KeyStart) : Bool :=
  key.place.line < place.line || key.place.index + 1024 < place.index

/-- Drops every possible key that is too far away; there is no result if one of them is
required. -/
def dropStaleKeys? (l : Lexer) : Option Lexer :=
  let stale := isStale l.place
  if (l.key :: l.outerKeys).any (·.any fun key => stale key && key.required) then none
  else
    let fresh := fun (key : Option KeyStart) => key.filter fun key => !stale key
    some { l with key := fresh l.key, outerKeys := l.outerKeys.map fresh }

/-- A column beyond the indentation opens a block collection, whose first token gets the given
number. -/
def openBlock (l : Lexer) (column number : Nat) (token : Token) : Lexer :=
  if l.inFlow || l.indents.head?.any (column ≤ ·) then l
  else
    { l with
      indents := column :: l.indents
      tokens := l.tokens.insertIdxIfInBounds number token }

/-- Closes the block collections whose columns are beyond the given indentation. -/
def closeBlocks (l : Lexer) (isBeyond : Nat → Bool) : Lexer :=
  if l.inFlow then l
  else
    let closed := l.indents.takeWhile isBeyond
    { l with
      indents := l.indents.dropWhile isBeyond
      tokens := l.tokens ++ Array.replicate closed.length .blockEnd }

/-- Closes every block collection that is open. -/
def closeAll (l : Lexer) : Lexer := l.closeBlocks fun _ => true

/-- Goes to the next token. -/
def toToken? (l : Lexer) : Option Lexer := do
  let gap := gap l.inFlow l.rest l.place l.keyAllowed false
  let l := { l with rest := gap.rest, place := gap.place, keyAllowed := gap.keyAllowed }
  let l ← l.dropStaleKeys?
  some (l.closeBlocks (l.place.column < ·))

end Lexer

end BehaviorTree.Document
