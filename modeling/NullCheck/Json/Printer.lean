import NullCheck.Decimal.Shortest
import NullCheck.Json.Basic

/-!
# From tree to text

A tree is written on one line, or over several lines with an indentation of two blanks for each open container.
Only quotes, backslashes and control characters are escaped. A place where a text broke off is written as `null`.
-/

namespace NullCheck

namespace Json

/-- A hexadecimal digit, in lower case. -/
def hexDigit (n : Nat) : Char := "0123456789abcdef".toList.getD n '0'

/-- The lowest `width` hexadecimal digits of a number. -/
def hex (width n : Nat) : String :=
  String.ofList ((List.range width).reverse.map fun i => hexDigit (n / Nat.pow 16 i % 16))

def escape (c : Char) : String :=
  match c with
  | '"' => "\\\""
  | '\\' => "\\\\"
  | '\x08' => "\\b"
  | '\x0c' => "\\f"
  | '\n' => "\\n"
  | '\r' => "\\r"
  | '\t' => "\\t"
  | c => if c.toNat < 0x20 then "\\u" ++ hex 4 c.toNat else c.toString

def quote (s : String) : String := s.foldl (fun t c => t ++ escape c) "\"" ++ "\""

def leaf : Json → String
  | .bool b => if b then "true" else "false"
  | .int i => toString i
  | .float bits =>
    if (BinaryFormat.double.decode bits.toNat).isFinite then DecimalLayout.message.ofDouble bits else "null"
  | .str s => quote s
  | _ => "null"

mutual

/-- Writes a value on one line, behind `acc`. -/
def compactOnto (acc : String) : Json → String
  | .arr items _ => compactItems (acc ++ "[") true items ++ "]"
  | .obj members _ => compactMembers (acc ++ "\x7b") true members ++ "\x7d"
  | j => acc ++ leaf j

/-- Writes items, a comma before all but the first. -/
def compactItems (acc : String) (first : Bool) : List Json → String
  | [] => acc
  | j :: js => compactItems (compactOnto (if first then acc else acc ++ ",") j) false js

/-- Writes members, a comma before all but the first. -/
def compactMembers (acc : String) (first : Bool) : List (Option String × Json) → String
  | [] => acc
  | (name, j) :: ms =>
    let acc := (if first then acc else acc ++ ",") ++ quote (name.getD "") ++ ":"
    compactMembers (compactOnto acc j) false ms

end

def compact (j : Json) : String := compactOnto "" j

/-- The start of a line inside `depth` open containers. -/
def newline (depth : Nat) : String := "\n" ++ String.ofList (List.replicate (2 * depth) ' ')

mutual

/-- Writes a value over several lines, behind `acc` and inside `depth` open containers. -/
def prettyOnto (acc : String) (depth : Nat) : Json → String
  | .arr [] _ => acc ++ "[]"
  | .arr (i :: items) _ => prettyItems (acc ++ "[") (depth + 1) true (i :: items) ++ newline depth ++ "]"
  | .obj [] _ => acc ++ "\x7b\x7d"
  | .obj (m :: members) _ =>
    prettyMembers (acc ++ "\x7b") (depth + 1) true (m :: members) ++ newline depth ++ "\x7d"
  | j => acc ++ leaf j

/-- Writes items, each on a line of its own. -/
def prettyItems (acc : String) (depth : Nat) (first : Bool) : List Json → String
  | [] => acc
  | j :: js =>
    let acc := (if first then acc else acc ++ ",") ++ newline depth
    prettyItems (prettyOnto acc depth j) depth false js

/-- Writes members, each on a line of its own. -/
def prettyMembers (acc : String) (depth : Nat) (first : Bool) : List (Option String × Json) → String
  | [] => acc
  | (name, j) :: ms =>
    let acc := (if first then acc else acc ++ ",") ++ newline depth ++ quote (name.getD "") ++ ": "
    prettyMembers (prettyOnto acc depth j) depth false ms

end

def pretty (j : Json) : String := prettyOnto "" 0 j

end Json

end NullCheck
