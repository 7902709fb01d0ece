import NullCheck.Text.Invisible

/-!
# Text shown in messages

A text quoted in a message is written so that it can be told apart from the message: quotes and backslashes are
escaped, and characters without a visible form are written by their number.
-/

namespace NullCheck

namespace Shown

/-- How a character is written between quotes. -/
def char (c : Char) : String :=
  match c with
  | '"' => "\\\""
  | '\\' => "\\\\"
  | '\n' => "\\n"
  | '\r' => "\\r"
  | '\t' => "\\t"
  | '\x00' => "\\0"
  | c =>
    if isInvisible c then "\\u\x7b" ++ String.ofList (Nat.toDigits 16 c.toNat) ++ "\x7d" else c.toString

/-- A text in double quotes. -/
def quoted (s : String) : String := s.foldl (fun t c => t ++ char c) "\"" ++ "\""

/-- A name between backquotes. -/
def name (s : String) : String := "`" ++ s ++ "`"

end Shown

end NullCheck
