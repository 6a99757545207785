/-!
Places in a text, and what lies between its tokens. Indentation is told by columns, so a place
counts lines and columns besides characters.
-/

namespace BehaviorTree.Document

/-- A place in a text: how many characters stand before it, on how many lines, and how many of
them on its own line. -/
structure Place where
  index : Nat
  line : Nat
  column : Nat
deriving DecidableEq, Repr, Inhabited

namespace Place

/-- The beginning of a document. -/
def start : Place := ⟨0, 0, 0⟩

/-- The place after a character. Only a line feed begins a new line. -/
def after (place : Place) (c : Char) : Place :=
  if c = '\n' then ⟨place.index + 1, place.line + 1, 0⟩
  else ⟨place.index + 1, place.line, place.column + 1⟩

end Place

/-- Blanks separate tokens on a line. -/
def isBlank (c : Char) : Bool := c == ' ' || c == '\t'

/-- A carriage return ends a token and a comment like a line feed does. -/
def isBreak (c : Char) : Bool := c == '\n' || c == '\r'

/-- The marks that structure a flow collection. -/
def isFlowMark (c : Char) : Bool :=
  c == ',' || c == '[' || c == ']' || c == '\x7b' || c == '\x7d'

/-- Whether a text goes on with a blank, a line break or not at all. -/
def endsToken : List Char → Bool
  | [] => true
  | c :: _ => isBlank c || isBreak c

/-- Whether a text goes on with a line that opens or closes a document. -/
def startsMarker : List Char → Bool
  | '-' :: '-' :: '-' :: t => endsToken t
  | '.' :: '.' :: '.' :: t => endsToken t
  | _ => false

/-- What follows a gap between two tokens, and whether a key may begin there. -/
structure Gap where
  rest : List Char
  place : Place
  keyAllowed : Bool
deriving Inhabited

/-- Goes over blanks, line breaks and comments. Outside flow collections a line break lets a key
begin, and where a key may begin a tab is no blank. -/
def gap (inFlow : Bool) : List Char → Place → (keyAllowed inComment : Bool) → Gap
  | [], place, keyAllowed, _ => ⟨[], place, keyAllowed⟩
  | c :: t, place, keyAllowed, inComment =>
    if isBreak c then gap inFlow t (place.after c) (keyAllowed || !inFlow) false
    else if inComment || c == ' ' || (c == '\t' && (inFlow || !keyAllowed)) then
      gap inFlow t (place.after c) keyAllowed inComment
    else if c = '#' then gap inFlow t (place.after c) keyAllowed true
    else ⟨c :: t, place, keyAllowed⟩

end BehaviorTree.Document
