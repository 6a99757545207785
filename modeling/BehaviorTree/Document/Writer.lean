import BehaviorTree.Document.Scalar
import BehaviorTree.Number.Notation
import BehaviorTree.Text.Quoted

/-!
Writing documents in block style: one entry on a line, nested collections indented by two, and
an empty collection as a pair of brackets. A text is quoted when it could be taken for something
else.
-/

namespace BehaviorTree.Document

/-- Words that read as booleans or null somewhere. -/
def reservedWords : List String := [
  "yes", "Yes", "YES", "no", "No", "NO", "True", "TRUE", "true", "False", "FALSE", "false",
  "on", "On", "ON", "off", "Off", "OFF", "null", "Null", "NULL", "~"]

/-- Characters that an unquoted text must not begin with. -/
def isLeadingMark (c : Char) : Bool := "&*?|-<>=!%@".toList.contains c

/-- Characters that an unquoted text must not hold. -/
def isInnerMark (c : Char) : Bool :=
  let n := c.toNat
  ":,[]#'\"\\\x7b\x7d\x60".toList.contains c || n ≤ 6 || n == 9 || n == 10 || n == 13 ||
    (0x0e ≤ n && n ≤ 0x1a) || (0x1c ≤ n && n ≤ 0x1f)

/-- Whether the text spells a 64-bit whole number. -/
def spellsInt (s : List Char) : Bool :=
  let (negative, digits) := dropSign s
  match natOf? 10 digits with
  | some n => if negative then n ≤ Number.twoTo 63 else n < Number.twoTo 63
  | none => false

/-- Whether the text spells a number, finite or not. -/
def spellsNumber (s : List Char) : Bool :=
  let word := String.ofList ((dropSign s).2.map Char.toLower)
  (numeral? s).isSome || word == "inf" || word == "infinity" || word == "nan"

/-- Whether a text would be read as something else if it stood bare. -/
def needsQuotes (text : String) : Bool :=
  let s := text.toList
  s.isEmpty || s.head? == some ' ' || s.getLast? == some ' ' || s.head?.any isLeadingMark ||
    s.any isInnerMark || reservedWords.contains text || s.head? == some '.' ||
    (dropStart? ['0', 'x'] s).isSome || spellsInt s || spellsNumber s

/-- A character between double quotes. -/
def escaped (c : Char) : List Char :=
  match c with
  | '"' => ['\\', '"']
  | '\\' => ['\\', '\\']
  | '\x08' => ['\\', 'b']
  | '\t' => ['\\', 't']
  | '\n' => ['\\', 'n']
  | '\x0c' => ['\\', 'f']
  | '\r' => ['\\', 'r']
  | c =>
    if c.toNat < 0x20 ∨ c.toNat = 0x7f then
      let hex := Text.hexDigits c.toNat
      ['\\', 'u'] ++ List.replicate (4 - hex.length) '0' ++ hex
    else [c]

/-- A text, with quotes where it needs them. -/
def writeText (text : String) : String :=
  if needsQuotes text then String.ofList ('"' :: text.toList.flatMap escaped ++ ['"']) else text

/-- A number as the reader takes it back. -/
def writeFloat (x : Float) : String :=
  if x.isNaN then ".nan"
  else if x.isInf then (if x < 0.0 then "-.inf" else ".inf")
  else Number.detailed x

/-- Two blanks for every level. -/
def indentation (level : Nat) : String := String.ofList (List.replicate (2 * level) ' ')

mutual

/-- A datum at a nesting level; what it adds to the current line comes first, without the blank
before it. -/
def writeNode (level : Nat) : Datum → String
  | .null => "~"
  | .bool b => if b then "true" else "false"
  | .int n => n.text
  | .float x => writeFloat x
  | .text s => writeText s
  | .list [] => "[]"
  | .list (d :: items) => writeItems level false (d :: items)
  | .map [] => "\x7b\x7d"
  | .map (e :: entries) => writeEntries level false (e :: entries)

/-- Items on lines of their own; the first one may go on with the current line. -/
def writeItems (level : Nat) (onNewLine : Bool) : List Datum → String
  | [] => ""
  | d :: rest =>
    (if onNewLine then "\n" ++ indentation level else "") ++ "- " ++ writeNode (level + 1) d ++
      writeItems level true rest

/-- Entries on lines of their own; the value of a key that is a collection begins on the next
line. -/
def writeEntries (level : Nat) (onNewLine : Bool) : List (Datum × Datum) → String
  | [] => ""
  | (key, value) :: rest =>
    (if onNewLine then "\n" ++ indentation level else "") ++ writeNode level key ++ ":" ++
      writeValue (level + 1) value ++ writeEntries level true rest

/-- The value after a key. -/
def writeValue (level : Nat) : Datum → String
  | .list (d :: items) => writeItems level true (d :: items)
  | .map (e :: entries) => writeEntries level true (e :: entries)
  | .list [] => " []"
  | .map [] => " \x7b\x7d"
  | .null => " ~"
  | .bool b => if b then " true" else " false"
  | .int n => " " ++ n.text
  | .float x => " " ++ writeFloat x
  | .text s => " " ++ writeText s

end

/-- A whole document with its opening mark. -/
def write (d : Datum) : String := "---\n" ++ writeNode 0 d ++ "\n"

end BehaviorTree.Document
