import BehaviorTree.Document.Place
import BehaviorTree.Document.Scalar

/-!
The texts of scalars. A scalar may go on over several lines: a single line break inside it stands
for a space, and of several breaks all but the first are kept. Blanks next to a break are dropped,
and so is everything after the last character of an unquoted scalar.
-/

namespace BehaviorTree.Document

/-- Blanks and line breaks since the last character of a scalar. They belong to it only if it
goes on. -/
inductive Pending where
  /-- Blanks on the same line. -/
  | blanks (s : List Char)
  /-- A line break and further ones. -/
  | folded (further : Nat)
  /-- A line break that is taken back by a backslash, and further ones. -/
  | joined (further : Nat)
deriving Repr, Inhabited

namespace Pending

/-- Nothing is kept back. -/
def nothing : Pending := .blanks []

/-- Whether nothing is kept back. -/
def isNothing : Pending → Bool
  | .blanks s => s.isEmpty
  | _ => false

/-- Whether a line has ended. -/
def isBroken : Pending → Bool
  | .blanks _ => false
  | _ => true

/-- Keeps back one more blank, unless the line has ended. -/
def addBlank (c : Char) : Pending → Pending
  | .blanks s => .blanks (s ++ [c])
  | p => p

/-- Keeps back one more line break; blanks in front of it are dropped. -/
def addBreak : Pending → Pending
  | .blanks _ => .folded 0
  | .folded n => .folded (n + 1)
  | .joined n => .joined (n + 1)

/-- What it contributes to the scalar. -/
def text : Pending → List Char
  | .blanks s => s
  | .folded 0 => [' ']
  | .folded n => List.replicate n '\n'
  | .joined n => List.replicate n '\n'

end Pending

/-- An unquoted scalar, what follows it, and whether a line has ended since its last
character. -/
structure Plain where
  text : String
  rest : List Char
  place : Place
  lineEnded : Bool
deriving Inhabited

/-- Whether an unquoted scalar ends before this character: at a colon that makes it a key, and in
flow collections at their marks. -/
def endsPlain (inFlow : Bool) (c : Char) (t : List Char) : Bool :=
  (c == ':' && (endsToken t || (inFlow && t.head?.any isFlowMark))) || (inFlow && isFlowMark c)

/-- Reads an unquoted scalar. Outside flow collections its further lines must be indented to the
least column, and nowhere may a tab stand before that column. -/
def plainFrom (inFlow : Bool) (least : Nat) :
    List Char → Place → (reversed : List Char) → Pending → Option Plain
  | [], place, reversed, pending =>
    some ⟨String.ofList reversed.reverse, [], place, pending.isBroken⟩
  | c :: t, place, reversed, pending =>
    if isBlank c then
      if c = '\t' ∧ pending.isBroken ∧ place.column < least then none
      else plainFrom inFlow least t (place.after c) reversed (pending.addBlank c)
    else if isBreak c then plainFrom inFlow least t (place.after c) reversed pending.addBreak
    else if !pending.isNothing &&
        (c == '#' || (!inFlow && place.column < least) ||
          (place.column == 0 && startsMarker (c :: t))) || endsPlain inFlow c t then
      some ⟨String.ofList reversed.reverse, c :: t, place, pending.isBroken⟩
    else plainFrom inFlow least t (place.after c) (c :: (pending.text.reverse ++ reversed)) .nothing

/-- The unquoted scalar that begins here. -/
def plain? (inFlow : Bool) (least : Nat) (s : List Char) (place : Place) : Option Plain :=
  plainFrom inFlow least s place [] .nothing

/-- The character of an escape that is a single letter. -/
def escape? (c : Char) : Option Char :=
  match c with
  | '0' => some '\x00'
  | 'a' => some '\x07'
  | 'b' => some '\x08'
  | 't' => some '\t'
  | '\t' => some '\t'
  | 'n' => some '\n'
  | 'v' => some '\x0b'
  | 'f' => some '\x0c'
  | 'r' => some '\r'
  | 'e' => some '\x1b'
  | ' ' => some ' '
  | '"' => some '"'
  | '\'' => some '\''
  | '\\' => some '\\'
  | 'N' => some '\u0085'
  | '_' => some '\u00a0'
  | 'L' => some '\u2028'
  | 'P' => some '\u2029'
  | _ => none

/-- How many digits of a code follow an escape letter. -/
def codeLength? (c : Char) : Option Nat :=
  match c with
  | 'x' => some 2
  | 'u' => some 4
  | 'U' => some 8
  | _ => none

/-- The character with a code. -/
def codeChar? (n : Nat) : Option Char :=
  if n < 0xd800 ∨ (0xdfff < n ∧ n < 0x110000) then some (Char.ofNat n) else none

/-- What the next character of a quoted scalar belongs to. -/
inductive Quoting where
  | text
  /-- An escape after its backslash. -/
  | escape
  /-- A code with so many digits to come, and its value so far. -/
  | code (missing value : Nat)
deriving Repr, Inhabited

/-- A quoted scalar and what follows it. -/
structure Quoted where
  text : String
  rest : List Char
  place : Place
deriving Inhabited

/-- Reads a quoted scalar up to its closing quote. Only double quotes have escapes; between single
quotes a doubled quote stands for one. -/
def quotedFrom (quote : Char) :
    List Char → Place → (reversed : List Char) → Pending → Quoting → Option Quoted
  | [], _, _, _, _ => none
  | c :: t, place, reversed, pending, .escape =>
    if isBreak c then quotedFrom quote t (place.after c) reversed (.joined 0) .text
    else
      match codeLength? c with
      | some n => quotedFrom quote t (place.after c) reversed pending (.code n 0)
      | none => do
        let d ← escape? c
        quotedFrom quote t (place.after c) (d :: reversed) pending .text
  | c :: t, place, reversed, pending, .code missing value => do
    let digit ← digitValue? 16 c
    let value := 16 * value + digit
    if missing ≤ 1 then
      let d ← codeChar? value
      quotedFrom quote t (place.after c) (d :: reversed) pending .text
    else quotedFrom quote t (place.after c) reversed pending (.code (missing - 1) value)
  | c :: t, place, reversed, pending, .text =>
    if isBlank c then quotedFrom quote t (place.after c) reversed (pending.addBlank c) .text
    else if isBreak c then quotedFrom quote t (place.after c) reversed pending.addBreak .text
    else if place.column = 0 ∧ startsMarker (c :: t) then none
    else
      let reversed := pending.text.reverse ++ reversed
      if c = '\\' ∧ quote = '"' then
        quotedFrom quote t (place.after c) reversed .nothing .escape
      else if c = quote then
        match quote, t with
        | '\'', '\'' :: u =>
          quotedFrom quote u ((place.after c).after c) ('\'' :: reversed) .nothing .text
        | _, t => some ⟨String.ofList reversed.reverse, t, place.after c⟩
      else quotedFrom quote t (place.after c) (c :: reversed) .nothing .text

/-- The quoted scalar whose opening quote stands at this place. -/
def quoted? (quote : Char) (s : List Char) (place : Place) : Option Quoted :=
  quotedFrom quote s (place.after quote) [] .nothing .text

end BehaviorTree.Document
