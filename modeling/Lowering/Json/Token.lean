import Lowering.Json.Value

/-!
# JSON tokens

A JSON text as a row of tokens. The scanner goes through the text one character at a time; its state is what it has seen
of the current token. Blanks (space, tab, line feed, carriage return) stand between tokens only.
-/

namespace Lowering

/-- A token of a JSON text. A string that holds half of a surrogate pair has no value. -/
inductive JsonToken where
  | openBrace
  | closeBrace
  | openBracket
  | closeBracket
  | comma
  | colon
  | null
  | bool (value : Bool)
  | number (value : JsonNumber)
  | string (value : Option String)
deriving DecidableEq, Repr

namespace JsonToken

-- ---------------------------------------------------------------------------
-- Strings
-- ---------------------------------------------------------------------------

/-- A piece of a string: a character that stands for itself or for which an escape stands, or a UTF-16 unit by number. -/
inductive Piece where
  | char (c : Char)
  | unit (code : Nat)
deriving DecidableEq, Repr

/-- Whether a UTF-16 unit is the first half of a surrogate pair. -/
def isHighSurrogate (code : Nat) : Bool :=
  0xd800 ≤ code && code < 0xdc00

/-- Whether a UTF-16 unit is the second half of a surrogate pair. -/
def isLowSurrogate (code : Nat) : Bool :=
  0xdc00 ≤ code && code < 0xe000

/-- The character of a surrogate pair. -/
def surrogatePair (high low : Nat) : Char :=
  Char.ofNat (0x10000 + (high - 0xd800) * 0x400 + (low - 0xdc00))

/-- The characters of a string. A high surrogate takes the low one after it; neither stands alone. -/
def joinPieces : List Piece → Option (List Char)
  | [] => some []
  | .char c :: rest => (joinPieces rest).map (c :: ·)
  | .unit u :: .unit v :: rest =>
    if isHighSurrogate u then
      if isLowSurrogate v then (joinPieces rest).map (surrogatePair u v :: ·) else none
    else if isLowSurrogate u then none
    else (joinPieces (.unit v :: rest)).map (Char.ofNat u :: ·)
  | .unit u :: rest =>
    if isHighSurrogate u || isLowSurrogate u then none else (joinPieces rest).map (Char.ofNat u :: ·)

/-- The character that a one-letter escape stands for. -/
def simpleEscape? : Char → Option Char
  | '"' => some '"'
  | '\\' => some '\\'
  | '/' => some '/'
  | 'b' => some '\x08'
  | 'f' => some '\x0c'
  | 'n' => some '\n'
  | 'r' => some '\r'
  | 't' => some '\t'
  | _ => none

/-- The value of a hexadecimal digit. -/
def hexDigit? (c : Char) : Option Nat :=
  if '0' ≤ c ∧ c ≤ '9' then some (c.toNat - '0'.toNat)
  else if 'a' ≤ c ∧ c ≤ 'f' then some (c.toNat - 'a'.toNat + 10)
  else if 'A' ≤ c ∧ c ≤ 'F' then some (c.toNat - 'A'.toNat + 10)
  else none

-- ---------------------------------------------------------------------------
-- Numbers
-- ---------------------------------------------------------------------------

/-- Where in a number the scanner stands. -/
inductive Place where
  /-- After a minus sign. -/
  | sign
  /-- After a zero that starts the number. -/
  | zero
  | whole
  /-- After the point. -/
  | point
  | fraction
  /-- After the exponent mark. -/
  | mark
  /-- After the sign of the exponent. -/
  | markSign
  | exponent
deriving DecidableEq, Repr

/-- A number as far as it has been seen, digits in reverse. -/
structure PartialNumber where
  place : Place
  negative : Bool
  whole : List Char := []
  fraction : List Char := []
  exponentNegative : Bool := false
  exponent : List Char := []
deriving DecidableEq, Repr

namespace PartialNumber

/-- The number, if it may end here. -/
def finish? (n : PartialNumber) : Option JsonNumber :=
  let value : Option Int → JsonNumber := fun e => ⟨n.negative, n.whole.reverse, n.fraction.reverse, e⟩
  match n.place with
  | .zero | .whole | .fraction => some (value none)
  | .exponent =>
    let size : Int := JsonNumber.digitsValue n.exponent.reverse
    some (value (some (if n.exponentNegative then -size else size)))
  | .sign | .point | .mark | .markSign => none

/-- Goes on after an exponent mark. -/
def afterMark (n : PartialNumber) (c : Char) : Option PartialNumber :=
  if c.isDigit then some { n with place := .exponent, exponent := c :: n.exponent } else none

/-- Takes in the point or the exponent mark. -/
def afterDigits (n : PartialNumber) (c : Char) : Option PartialNumber :=
  if c = '.' && n.place ≠ .fraction then some { n with place := .point }
  else if c = 'e' || c = 'E' then some { n with place := .mark }
  else none

/-- Takes in one more character, if it belongs to the number. -/
def push? (n : PartialNumber) (c : Char) : Option PartialNumber :=
  match n.place with
  | .sign =>
    if c = '0' then some { n with place := .zero, whole := [c] }
    else if c.isDigit then some { n with place := .whole, whole := [c] }
    else none
  | .zero => n.afterDigits c
  | .whole => if c.isDigit then some { n with whole := c :: n.whole } else n.afterDigits c
  | .point => if c.isDigit then some { n with place := .fraction, fraction := [c] } else none
  | .fraction => if c.isDigit then some { n with fraction := c :: n.fraction } else n.afterDigits c
  | .mark =>
    if c = '+' then some { n with place := .markSign }
    else if c = '-' then some { n with place := .markSign, exponentNegative := true }
    else n.afterMark c
  | .markSign => n.afterMark c
  | .exponent => n.afterMark c

end PartialNumber

-- ---------------------------------------------------------------------------
-- The scanner
-- ---------------------------------------------------------------------------

/-- What the scanner has seen of the current token, in reverse. -/
inductive Scan where
  /-- Between tokens. -/
  | idle
  /-- In a word. -/
  | word (letters : List Char)
  | number (n : PartialNumber)
  /-- In a string. -/
  | string (pieces : List Piece)
  /-- After a backslash in a string. -/
  | escape (pieces : List Piece)
  /-- In a string, in an escape by number: digits still to come, and the value so far. -/
  | hex (pieces : List Piece) (missing : Nat) (code : Nat)
deriving DecidableEq, Repr

/-- Whether a character may stand between tokens. -/
def isBlank (c : Char) : Bool :=
  c = ' ' || c = '\t' || c = '\n' || c = '\r'

/-- The token of a word. -/
def ofWord? (letters : List Char) : Option JsonToken :=
  if letters = ['n', 'u', 'l', 'l'] then some .null
  else if letters = ['t', 'r', 'u', 'e'] then some (.bool true)
  else if letters = ['f', 'a', 'l', 's', 'e'] then some (.bool false)
  else none

/-- The token of a single character. -/
def ofChar? : Char → Option JsonToken
  | '{' => some .openBrace
  | '}' => some .closeBrace
  | '[' => some .openBracket
  | ']' => some .closeBracket
  | ',' => some .comma
  | ':' => some .colon
  | _ => none

/-- The first character of a token, or a blank. -/
def start (c : Char) : Option (Scan × List JsonToken) :=
  match ofChar? c with
  | some t => some (.idle, [t])
  | none =>
    if isBlank c then some (.idle, [])
    else if c = '"' then some (.string [], [])
    else if c = '-' then some (.number { place := .sign, negative := true }, [])
    else if c.isDigit then
      ((PartialNumber.mk .sign false [] [] false []).push? c).map (fun n => (.number n, []))
    else if c.isLower then some (.word [c], [])
    else none

/-- One character of the text: the state after it, and the tokens that it completes. -/
def step (s : Scan) (c : Char) : Option (Scan × List JsonToken) :=
  match s with
  | .idle => start c
  | .word letters =>
    if c.isLower then some (.word (c :: letters), [])
    else do
      let t ← ofWord? letters.reverse
      let (s, ts) ← start c
      return (s, t :: ts)
  | .number n =>
    match n.push? c with
    | some n => some (.number n, [])
    | none => do
      let v ← n.finish?
      let (s, ts) ← start c
      return (s, .number v :: ts)
  | .string pieces =>
    if c = '"' then some (.idle, [.string ((joinPieces pieces.reverse).map String.ofList)])
    else if c = '\\' then some (.escape pieces, [])
    else if c.toNat < 0x20 then none
    else some (.string (.char c :: pieces), [])
  | .escape pieces =>
    if c = 'u' then some (.hex pieces 3 0, [])
    else (simpleEscape? c).map (fun e => (.string (.char e :: pieces), []))
  | .hex pieces missing code => do
    let d ← hexDigit? c
    let code := 16 * code + d
    match missing with
    | 0 => return (.string (.unit code :: pieces), [])
    | m + 1 => return (.hex pieces m code, [])

/-- The tokens that the end of the text completes. -/
def finish : Scan → Option (List JsonToken)
  | .idle => some []
  | .word letters => (ofWord? letters.reverse).map (fun t => [t])
  | .number n => n.finish?.map (fun v => [.number v])
  | .string _ | .escape _ | .hex _ _ _ => none

/-- One more character for a scanner that has already found some tokens, kept in reverse. -/
def push (p : Scan × List JsonToken) (c : Char) : Option (Scan × List JsonToken) :=
  (step p.1 c).map (fun r => (r.1, r.2.reverse ++ p.2))

/-- The tokens of a text. -/
def scan (text : String) : Option (List JsonToken) :=
  match text.foldl (fun p c => p.bind (push · c)) (some (.idle, [])) with
  | none => none
  | some (s, found) => (finish s).map (fun last => found.reverse ++ last)

end JsonToken

end Lowering
