import BehaviorTree.Document.Token

/-!
Cutting a text into tokens. Each kind of token says what becomes of a possible key before it, and
whether a key may begin after it.
-/

namespace BehaviorTree.Document

namespace Lexer

/-- A line that opens or closes a document. -/
def marker? (l : Lexer) (token : Token) : Option Lexer := do
  let l ← l.closeAll.dropKey?
  some (({ l with keyAllowed := false }.skip 3).add token)

/-- The opening mark of a flow collection, which may be a key itself. -/
def openFlow? (l : Lexer) (token : Token) : Option Lexer := do
  let l ← l.startKey?
  let inner := { l with key := none, outerKeys := l.key :: l.outerKeys, keyAllowed := true }
  some ((inner.skip 1).add token)

/-- The closing mark of a flow collection. -/
def closeFlow? (l : Lexer) (token : Token) : Option Lexer := do
  let l ← l.dropKey?
  let outer :=
    match l.outerKeys with
    | [] => l
    | key :: keys => { l with key := key, outerKeys := keys }
  some (({ outer with keyAllowed := false }.skip 1).add token)

/-- A comma between the items of a flow collection; a key may follow. -/
def comma? (l : Lexer) : Option Lexer := do
  let l ← l.dropKey?
  some (({ l with keyAllowed := true }.skip 1).add .comma)

/-- The mark of an item, a key or a value. Outside flow collections it opens a block collection if
it is indented further, and it must stand where a key may begin. -/
def mark? (l : Lexer) (opening token : Token) : Option Lexer := do
  if !l.inFlow ∧ !l.keyAllowed then none
  let l ← (l.openBlock l.place.column l.tokens.size opening).dropKey?
  some (({ l with keyAllowed := !l.inFlow }.skip 1).add token)

/-- A dash that begins an item, which none can inside a flow collection. -/
def item? (l : Lexer) : Option Lexer := if l.inFlow then none else l.mark? .blockSequence .item

/-- A colon. It makes the possible key before it a key, and the column of that key may open a
block mapping. -/
def value? (l : Lexer) : Option Lexer :=
  match l.key with
  | none => l.mark? .blockMapping .value
  | some key =>
    let keyed :=
      { l with
        tokens := l.tokens.insertIdxIfInBounds key.token .key
        key := none
        keyAllowed := false }
    some (((keyed.openBlock key.place.column key.token .blockMapping).skip 1).add .value)

/-- A quoted scalar, which may be a key. -/
def quoted? (l : Lexer) (quote : Char) (s : List Char) : Option Lexer := do
  let l ← l.startKey?
  let scalar ← Document.quoted? quote s l.place
  let after :=
    { l with
      rest := scalar.rest
      place := scalar.place
      keyAllowed := false
      quoteEnd := scalar.place.index }
  some (after.add (.quoted scalar.text))

/-- An unquoted scalar. After one that ends with its line a key may begin. -/
def plain? (l : Lexer) : Option Lexer := do
  let l ← l.startKey?
  let least := l.indents.head?.elim 0 (· + 1)
  let scalar ← Document.plain? l.inFlow least l.rest l.place
  let after :=
    { l with rest := scalar.rest, place := scalar.place, keyAllowed := scalar.lineEnded }
  some (after.add (.plain scalar.text))

/-- Whether a colon stands before a value: before a blank, and in flow collections also before one
of their marks or right after a quoted scalar. -/
def startsValue (l : Lexer) (t : List Char) : Bool :=
  endsToken t || (l.inFlow && (t.head?.any isFlowMark || l.place.index == l.quoteEnd))

/-- Characters that may not begin a scalar: the marks of anchors, tags and directives, which
documents do not have, and two without a meaning. -/
def isReserved (c : Char) : Bool := "&*!%@\x60".toList.contains c

/-- The marks of a scalar whose lines are taken as they stand; documents do not have these either.
In flow collections they are characters like others. -/
def startsLiteral (l : Lexer) (c : Char) : Bool := !l.inFlow && (c == '|' || c == '>')

/-- The token that begins with a character. -/
def token? (l : Lexer) (c : Char) (t : List Char) : Option Lexer :=
  if l.place.column = 0 ∧ startsMarker (c :: t) then
    l.marker? (if c = '-' then .documentStart else .documentEnd)
  else
    match c with
    | '[' => l.openFlow? .openBracket
    | ']' => l.closeFlow? .closeBracket
    | '\x7b' => l.openFlow? .openBrace
    | '\x7d' => l.closeFlow? .closeBrace
    | ',' => l.comma?
    | '"' => l.quoted? '"' t
    | '\'' => l.quoted? '\'' t
    | c =>
      if c = '-' ∧ endsToken t then l.item?
      else if c = '?' ∧ endsToken t then l.mark? .blockMapping .key
      else if c = ':' ∧ l.startsValue t then l.value?
      else if isReserved c || l.startsLiteral c then none
      else l.plain?

/-- All tokens from here on. Each of them takes a character at least, so a step for every
character and one for the end are enough. -/
def run : Nat → Lexer → Option (Array Token)
  | 0, _ => none
  | steps + 1, l => do
    let l ← l.toToken?
    match l.rest with
    | [] => (l.closeAll.dropKey?).map Lexer.tokens
    | c :: t => (l.token? c t).bind (run steps)

end Lexer

/-- A carriage return before a line feed does not count, and a text ends at its first null
character. -/
def wholeText : List Char → List Char
  | [] => []
  | '\x00' :: _ => []
  | '\r' :: '\n' :: t => '\n' :: wholeText t
  | c :: t => c :: wholeText t

/-- The tokens of a text. -/
def tokens? (text : String) : Option (List Token) :=
  let s := wholeText text.toList
  (Lexer.run (s.length + 1) { rest := s }).map Array.toList

end BehaviorTree.Document
