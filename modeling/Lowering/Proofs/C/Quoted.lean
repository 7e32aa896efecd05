import Lowering.Proofs.C.Token

/-!
# C string literals

The text between the quotes of a string literal, read by the rules of C. A character stands for its own bytes, unless it is
a backslash, which starts an escape: one of the simple ones, up to three octal digits, or as many hexadecimal digits as
follow. Each escape stands for one byte. Universal character names are not read, and there are no trigraphs.

A literal cannot hold a quote or a line break that is not escaped; the first such quote is its end.

* `literal?` — the bytes of a literal, and what follows it.
-/

namespace Lowering.C

-- ---------------------------------------------------------------------------
-- Escapes
-- ---------------------------------------------------------------------------

/-- The value of a hexadecimal digit; sixteen for any other character. -/
def digitValue (c : Char) : Nat :=
  "0123456789abcdef".toList.idxOf c.toLower

/-- Whether a character is a digit in a base. -/
def isDigitIn (base : Nat) (c : Char) : Bool :=
  digitValue c < base

/-- The byte that digits in a base stand for, if it is one. -/
def byte? (base : Nat) (digits : List Char) : Option UInt8 :=
  let value := digits.foldl (fun v c => base * v + digitValue c) 0
  if value < UInt8.size then some (UInt8.ofNat value) else none

/-- The characters that stand for a byte after a backslash. -/
def simpleEscapes : List (Char × UInt8) :=
  [('\'', 39), ('"', 34), ('?', 63), ('\\', 92), ('a', 7), ('b', 8), ('f', 12), ('n', 10), ('r', 13), ('t', 9), ('v', 11)]

/-- The byte of the escape whose backslash stands before a text, and the number of characters that the escape takes of the
text. -/
def escape? (r : List Char) : Option (UInt8 × Nat) :=
  let octal := (r.take 3).takeWhile (isDigitIn 8)
  if octal ≠ [] then (byte? 8 octal).map (·, octal.length)
  else
    match r with
    | [] => none
    | c :: r =>
      let hex := r.takeWhile (isDigitIn 16)
      if c = 'x' ∧ hex ≠ [] then (byte? 16 hex).map (·, hex.length + 1)
      else (simpleEscapes.lookup c).map (·, 1)

-- ---------------------------------------------------------------------------
-- Literals
-- ---------------------------------------------------------------------------

/-- What a literal goes on with: the bytes of a character or of an escape, and the number of its characters after the
first. -/
def element? : List Char → Option (List UInt8 × Nat)
  | [] => none
  | c :: r =>
    if c = '"' ∨ c = '\n' then none
    else if c = '\\' then (escape? r).map (fun e => ([e.1], e.2))
    else some (String.utf8EncodeChar c, 0)

/-- The bytes of the literal whose opening quote stands before a text, and what follows its closing quote. -/
def literal? (s : List Char) : Option (List UInt8 × List Char) :=
  match s with
  | [] => none
  | c :: r =>
    if c = '"' then some ([], r)
    else
      match element? (c :: r) with
      | none => none
      | some (bytes, n) => (literal? (r.drop n)).map (fun rest => (bytes ++ rest.1, rest.2))
termination_by s.length

theorem literal?_quote (r : List Char) : literal? ('"' :: r) = some ([], r) := by
  rw [literal?, if_pos rfl]

/-- One element after another. -/
theorem literal?_append {c : Char} {s r : List Char} {bytes : List UInt8}
    (h : element? (c :: s ++ r) = some (bytes, s.length)) :
    literal? (c :: s ++ r) = (literal? r).map (fun rest => (bytes ++ rest.1, rest.2)) := by
  have hQuote : c ≠ '"' := by
    rintro rfl
    cases h
  rw [List.cons_append] at h ⊢
  rw [literal?, if_neg hQuote, h]
  dsimp only
  rw [List.drop_left]

/-- An octal escape takes no fourth digit, and a hexadecimal one takes what it can get. -/
example : literal? "\\0017\\x7g\" b".toList = some ([1, 55, 7, 103], " b".toList) := by
  decide +kernel

end Lowering.C
