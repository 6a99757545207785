import BehaviorTree.Text.CodePoint

/-!
Quoted text, as names and source texts appear in messages: between double quotes, with a
backslash before a quote or a backslash, letters for the common controls, and the code of every
other character that has no glyph of its own.
-/

namespace BehaviorTree.Text

/-- The digits of a natural number in base sixteen. -/
def hexDigits (n : Nat) : List Char := Nat.toDigits 16 n

/-- One character of quoted text. A single quote stands for itself. -/
def quoteChar (c : Char) : List Char :=
  match c with
  | '"' => ['\\', '"']
  | '\\' => ['\\', '\\']
  | '\n' => ['\\', 'n']
  | '\r' => ['\\', 'r']
  | '\t' => ['\\', 't']
  | '\x00' => ['\\', '0']
  | c =>
    if isGlyphless c then ['\\', 'u', '\x7b'] ++ hexDigits c.toNat ++ ['\x7d'] else [c]

/-- A text in quotes, its special characters escaped. -/
def quoted (s : String) : String :=
  String.ofList ('"' :: s.toList.flatMap quoteChar ++ ['"'])

end BehaviorTree.Text
