/-!
# C string literals

The text between the quotes of a C string literal. A source string is a sequence of bytes (its UTF-8 form); each byte is
written on its own, so nothing depends on the character set of the C compiler. A byte that is not printable ASCII becomes
an octal escape of exactly three digits: an octal escape never takes more, so a digit that follows is not swallowed.
-/

namespace Lowering.Target

/-- One octal digit. -/
def octalDigit (n : Nat) : Char :=
  Char.ofNat ('0'.toNat + n % 8)

/-- The escape of a byte by its number: a backslash and three octal digits. -/
def octalEscape (b : UInt8) : List Char :=
  ['\\', octalDigit (b.toNat / 64), octalDigit (b.toNat / 8), octalDigit b.toNat]

/-- How one byte is written inside a string literal. -/
def escapeByte (b : UInt8) : List Char :=
  if b = 0x5c then ['\\', '\\']
  else if b = 0x22 then ['\\', '"']
  else if b = 0x0a then ['\\', 'n']
  else if b = 0x09 then ['\\', 't']
  else if b = 0x0d then ['\\', 'r']
  else if 0x20 ≤ b ∧ b ≤ 0x7e then [Char.ofNat b.toNat]
  else octalEscape b

/-- How a sequence of bytes is written inside a string literal. -/
def escapeBytes (bytes : List UInt8) : List Char :=
  bytes.flatMap escapeByte

/-- The bytes of a source string. -/
def bytesOf (s : String) : List UInt8 :=
  s.toList.flatMap String.utf8EncodeChar

/-- A source string as it is written inside a C string literal. -/
def escapeText (s : String) : String :=
  String.ofList (escapeBytes (bytesOf s))

end Lowering.Target
