import NullCheck.Json.Numeral

/-!
# Lexemes

A text is cut into brackets, separators, strings and scalars. Cutting always goes on to the end of the text or to
the first lexeme that breaks off; what a string or number denotes, if anything, is settled here.
-/

namespace NullCheck

/-- A piece of text between blanks. -/
inductive Lexeme where
  | openArray
  | closeArray
  | openObject
  | closeObject
  | comma
  | colon
  /-- A string; `none` when it has an unpaired surrogate. -/
  | text (s : Option String)
  /-- A number, `null`, `true` or `false`. -/
  | scalar (j : Json)
  /-- A string that breaks off. -/
  | brokenText (b : Break)
  /-- Anything else that breaks off. -/
  | brokenScalar (b : Break)
deriving Inhabited, Repr

namespace Lexeme

/-! ## Strings -/

/-- A character of a string: written as itself, or as a UTF-16 code unit. -/
inductive Piece where
  | char (c : Char)
  | unit (u : Nat)
deriving DecidableEq, Repr

/-- A string up to its closing quote or its break. -/
structure Scan where
  pieces : List Piece
  fault : Option Fault
  rest : List Char

def hexDigit? (c : Char) : Option Nat :=
  if '0' ≤ c ∧ c ≤ '9' then some (c.toNat - '0'.toNat)
  else if 'a' ≤ c ∧ c ≤ 'f' then some (c.toNat - 'a'.toNat + 10)
  else if 'A' ≤ c ∧ c ≤ 'F' then some (c.toNat - 'A'.toNat + 10)
  else none

def codeUnit? (a b c d : Char) : Option Nat := do
  let a ← hexDigit? a
  let b ← hexDigit? b
  let c ← hexDigit? c
  let d ← hexDigit? d
  return ((a * 16 + b) * 16 + c) * 16 + d

/-- The character that a backslash and one letter stand for. -/
def escaped? : Char → Option Char
  | '"' => some '"'
  | '\\' => some '\\'
  | '/' => some '/'
  | 'b' => some '\x08'
  | 'f' => some '\x0c'
  | 'n' => some '\n'
  | 'r' => some '\r'
  | 't' => some '\t'
  | _ => none

/-- Why the text behind `\u` is no code unit, given that it is less than four characters long. It ends too early
only if it is also less than four bytes long. -/
def shortUnit (cs : List Char) : Fault := if 4 ≤ (String.ofList cs).utf8ByteSize then .malformed else .truncated

/-- Scans a string behind its opening quote, `done` being the pieces passed, last first. -/
def scan (done : List Piece) : List Char → Scan
  | [] => ⟨done.reverse, some .truncated, []⟩
  | '"' :: rest => ⟨done.reverse, none, rest⟩
  | '\\' :: 'u' :: a :: b :: c :: d :: rest =>
    match codeUnit? a b c d with
    | some u => scan (.unit u :: done) rest
    | none => ⟨done.reverse, some .malformed, []⟩
  | '\\' :: 'u' :: cs => ⟨done.reverse, some (shortUnit cs), []⟩
  | ['\\'] => ⟨done.reverse, some .truncated, []⟩
  | '\\' :: e :: rest =>
    match escaped? e with
    | some c => scan (.char c :: done) rest
    | none => ⟨done.reverse, some .malformed, []⟩
  | c :: rest => if c.toNat < 0x20 then ⟨done.reverse, some .malformed, []⟩ else scan (.char c :: done) rest

/-- Scanning never lengthens the text. -/
theorem length_rest_scan_le (done : List Piece) (cs : List Char) : (scan done cs).rest.length ≤ cs.length := by
  fun_induction scan done cs <;> simp_all <;> omega

/-- Whether a code unit is the first of a pair. -/
def isHigh (u : Nat) : Bool := 0xD800 ≤ u ∧ u < 0xDC00

/-- Whether a code unit is the second of a pair. -/
def isLow (u : Nat) : Bool := 0xDC00 ≤ u ∧ u < 0xE000

/-- The characters of a string: code units in pairs, or alone outside the range of pairs. -/
def join : List Piece → Option (List Char)
  | [] => some []
  | .char c :: ps => (join ps).map (c :: ·)
  | [.unit u] => if isHigh u ∨ isLow u then none else some [Char.ofNat u]
  | .unit u :: .unit v :: ps =>
    if isHigh u then
      if isLow v then (join ps).map (Char.ofNat (0x10000 + (u - 0xD800) * 0x400 + (v - 0xDC00)) :: ·) else none
    else if isLow u then none
    else (join (.unit v :: ps)).map (Char.ofNat u :: ·)
  | .unit u :: .char c :: ps =>
    if isHigh u ∨ isLow u then none else (join (.char c :: ps)).map (Char.ofNat u :: ·)

/-- Whether the pieces may yet be continued to a string that can be read. -/
def joinable : List Piece → Bool
  | [] => true
  | .char _ :: ps => joinable ps
  | [.unit u] => !isLow u
  | .unit u :: .unit v :: ps =>
    if isHigh u then isLow v && joinable ps else !isLow u && joinable (.unit v :: ps)
  | .unit u :: .char c :: ps => !isHigh u && !isLow u && joinable (.char c :: ps)

/-- The lexeme of a scanned string. A reader notices an unpaired surrogate before a break behind it. -/
def ofScan (s : Scan) : Lexeme :=
  match s.fault with
  | none => .text ((join s.pieces).map String.ofList)
  | some f => .brokenText ⟨if joinable s.pieces then f else .malformed, f⟩

/-! ## Numbers and words -/

def digit? (c : Char) : Option Nat :=
  if '0' ≤ c ∧ c ≤ '9' then some (c.toNat - '0'.toNat) else none

/-- The digits a text begins with, and what follows. -/
def digits : List Char → List Nat × List Char
  | [] => ([], [])
  | c :: cs =>
    match digit? c with
    | some d =>
      let (ds, rest) := digits cs
      (d :: ds, rest)
    | none => ([], c :: cs)

/-- A lexeme is taken from the front, so what is left is no longer than the text was. -/
theorem length_digits_le (cs : List Char) : (digits cs).2.length ≤ cs.length := by
  induction cs with
  | nil => simp [digits]
  | cons c cs ih =>
    rw [digits]
    split
    · simp only [List.length_cons]; omega
    · simp

/-- A number that lacks a digit: to one who skims it is malformed even where the text ends. -/
def lacksDigit (rest : List Char) : Lexeme :=
  .brokenScalar ⟨if rest.isEmpty then .truncated else .malformed, .malformed⟩

/-- The exponent of a number whose mantissa is read. -/
def exponent (negative : Bool) (whole : List Nat) (fraction : Option (List Nat)) (cs : List Char) :
    Lexeme × List Char :=
  match cs with
  | [] => (.scalar (Numeral.value ⟨negative, whole, fraction, none⟩), [])
  | e :: rest =>
    if e = 'e' ∨ e = 'E' then
      let (down, rest) : Bool × List Char :=
        match rest with
        | '+' :: rest => (false, rest)
        | '-' :: rest => (true, rest)
        | rest => (false, rest)
      match digits rest with
      | ([], rest) => (lacksDigit rest, [])
      | (ds, rest) => (.scalar (Numeral.value ⟨negative, whole, fraction, some (down, ds)⟩), rest)
    else (.scalar (Numeral.value ⟨negative, whole, fraction, none⟩), e :: rest)

/-- A number behind its sign and first digit. A leading zero stands alone. -/
def number (negative : Bool) (first : Nat) (cs : List Char) : Lexeme × List Char :=
  match digits cs with
  | ([], '.' :: rest) => fraction [first] rest
  | ([], rest) => exponent negative [first] none rest
  | (ds, rest) =>
    if first = 0 then (.brokenScalar .malformed, [])
    else
      match rest with
      | '.' :: rest => fraction (first :: ds) rest
      | rest => exponent negative (first :: ds) none rest
where
  /-- The part behind the point. -/
  fraction (whole : List Nat) (cs : List Char) : Lexeme × List Char :=
    match digits cs with
    | ([], rest) => (lacksDigit rest, [])
    | (ds, rest) => exponent negative whole (some ds) rest

/-- A number behind its sign. -/
def unsigned (negative : Bool) (cs : List Char) : Lexeme × List Char :=
  match cs with
  | [] => (lacksDigit [], [])
  | c :: cs =>
    match digit? c with
    | some d => number negative d cs
    | none => (lacksDigit (c :: cs), [])

/-- The rest of a word of which one character has been seen. -/
def word (j : Json) : List Char → List Char → Lexeme × List Char
  | [], rest => (.scalar j, rest)
  | _ :: _, [] => (.brokenScalar .truncated, [])
  | w :: ws, c :: cs => if w = c then word j ws cs else (.brokenScalar .malformed, [])

theorem length_exponent_le (n : Bool) (w : List Nat) (f : Option (List Nat)) (cs : List Char) :
    (exponent n w f cs).2.length ≤ cs.length := by
  unfold exponent
  have h := length_digits_le
  grind

theorem length_fraction_le (n : Bool) (w : List Nat) (cs : List Char) :
    (number.fraction n w cs).2.length ≤ cs.length := by
  unfold number.fraction
  have h := length_digits_le
  have h' := length_exponent_le
  grind

theorem length_number_le (n : Bool) (d : Nat) (cs : List Char) : (number n d cs).2.length ≤ cs.length := by
  unfold number
  have h := length_digits_le
  have h' := length_exponent_le
  have h'' := length_fraction_le
  grind

theorem length_unsigned_le (n : Bool) (cs : List Char) : (unsigned n cs).2.length ≤ cs.length := by
  unfold unsigned
  have h := length_number_le
  grind

theorem length_word_le (j : Json) (ws cs : List Char) : (word j ws cs).2.length ≤ cs.length := by
  fun_induction word j ws cs <;> grind

/-! ## Cutting a text -/

/-- The lexeme that begins with `c`, and the text behind it. -/
def startingWith (c : Char) (rest : List Char) : Lexeme × List Char :=
  match c with
  | '[' => (.openArray, rest)
  | ']' => (.closeArray, rest)
  | '\x7b' => (.openObject, rest)
  | '\x7d' => (.closeObject, rest)
  | ',' => (.comma, rest)
  | ':' => (.colon, rest)
  | '"' => (ofScan (scan [] rest), (scan [] rest).rest)
  | '-' => unsigned true rest
  | 'n' => word .null ['u', 'l', 'l'] rest
  | 't' => word (.bool true) ['r', 'u', 'e'] rest
  | 'f' => word (.bool false) ['a', 'l', 's', 'e'] rest
  | c =>
    match digit? c with
    | some d => number false d rest
    | none => (.brokenScalar .malformed, [])

/-- Whether a character may stand between lexemes. -/
def isBlank (c : Char) : Bool := c = ' ' ∨ c = '\n' ∨ c = '\t' ∨ c = '\r'

/-- Each kind of lexeme leaves no more than it was given. -/
theorem length_startingWith_le (c : Char) (rest : List Char) :
    (startingWith c rest).2.length ≤ rest.length := by
  have h1 := length_rest_scan_le [] rest
  have h2 := length_number_le
  have h3 := length_word_le
  have h4 := length_unsigned_le
  unfold startingWith
  grind

def all : List Char → List Lexeme
  | [] => []
  | c :: rest =>
    if isBlank c then all rest
    else
      have := length_startingWith_le c rest
      let p := startingWith c rest
      p.1 :: all p.2
termination_by cs => cs.length
decreasing_by all_goals (simp only [List.length_cons]; omega)

end Lexeme

end NullCheck
