import Lowering.Fault
import Lowering.Tree.Node
import Lowering.Vocabulary.Numeric

/-!
# Number literals in C

A number literal has a type, given by its suffix or else by its form, and a spelling in C. C has no binary literals (in
the dialect that is written here), so these are written in decimal; hexadecimal and binary literals are unsigned.
-/

namespace Lowering

namespace Target

/-- The value of a binary digit. -/
def binaryDigit? : Char → Option Nat
  | '0' => some 0
  | '1' => some 1
  | _ => none

/-- The value of binary digits read on from a value, as long as it stays below 2^64. -/
def binaryValueFrom (acc : Nat) : List Char → Option Nat
  | [] => some acc
  | c :: rest =>
    match binaryDigit? c with
    | none => none
    | some d => if 2 * acc + d < UInt64.size then binaryValueFrom (2 * acc + d) rest else none

/-- The value of a 64-bit binary numeral: digits after at most one plus sign. -/
def binaryValue? : List Char → Option Nat
  | [] => none
  | ['+'] => none
  | '+' :: digits => binaryValueFrom 0 digits
  | digits => binaryValueFrom 0 digits

end Target

namespace NumberForm

/-- The type that a literal without a suffix has. -/
def type : NumberForm → Numeric
  | .integer _ => .signed .pointer
  | .decimal _ | .scientific _ _ => .real .standard
  | .hex _ | .binary _ => .unsigned .pointer

/-- The literal as its author wrote it. -/
def text : NumberForm → String
  | .integer digits | .decimal digits => digits
  | .scientific mantissa exponent => mantissa ++ "e" ++ exponent
  | .hex digits => "0x" ++ digits
  | .binary digits => "0b" ++ digits

/-- The literal as a C constant. -/
def spelling : NumberForm → Except Cause String
  | .integer digits | .decimal digits => .ok digits
  | .scientific mantissa exponent => .ok (mantissa ++ "e" ++ exponent)
  | .hex digits => .ok ("0x" ++ digits ++ "u")
  | .binary digits =>
    match Target.binaryValue? digits.toList with
    | some value => .ok (toString value ++ "u")
    | none => .error (.invalidBinary digits)

end NumberForm

/-- What C lowering knows of a number literal: its type, its spelling, and whether a suffix asked for the type. -/
structure ResolvedNumber where
  type : Numeric
  spelling : String
  explicit : Bool
deriving DecidableEq, Repr

/-- The type and spelling of a number literal. Bad digits are reported before a bad suffix. -/
def resolveNumber (form : NumberForm) (suffix : Option String) : Except Cause ResolvedNumber := do
  let spelling ← form.spelling
  match suffix with
  | none => return ⟨form.type, spelling, false⟩
  | some suffix =>
    match Numeric.ofSuffix? suffix with
    | some type => return ⟨type, spelling, true⟩
    | none => throw (.unknownSuffix suffix form.text)

end Lowering
