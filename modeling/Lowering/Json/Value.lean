/-!
# JSON values

A JSON text has a grammar and, beyond it, limits on what its values may be: a number must not lie beyond the range of
double precision, a string must not hold half of a surrogate pair. A value that follows the grammar and breaks such a
limit is kept as `unreadable`, so that the grammar and the limits can be checked apart.
-/

namespace Lowering

/-- A JSON number as it is spelled: sign, digits before and after the point, exponent. -/
structure JsonNumber where
  negative : Bool
  whole : List Char
  fraction : List Char
  exponent : Option Int
deriving DecidableEq, Repr

/-- A JSON value. An object keeps its members in the order of the text, repeated names included. -/
inductive Json where
  | null
  | bool (value : Bool)
  | number (value : JsonNumber)
  | string (value : String)
  | array (items : List Json)
  | object (members : List (String × Json))
  | unreadable

namespace JsonNumber

/-- The value of a decimal digit. -/
def digitValue (c : Char) : Nat :=
  c.toNat - '0'.toNat

/-- The value of a row of decimal digits. -/
def digitsValue (cs : List Char) : Nat :=
  cs.foldl (fun acc c => 10 * acc + digitValue c) 0

/-- A number spelled as a plain row of digits. -/
def ofNat (n : Nat) : JsonNumber :=
  ⟨false, (toString n).toList, [], none⟩

/-- The value of a number spelled without sign, fraction and exponent. -/
def natural? (n : JsonNumber) : Option Nat :=
  if !n.negative && n.fraction.isEmpty && n.exponent.isNone then some (digitsValue n.whole) else none

-- ---------------------------------------------------------------------------
-- Range
-- ---------------------------------------------------------------------------

/-- Takes digits into a 64-bit significand for as long as it holds them, and counts those taken and those left over. -/
def takeDigits (significand : Nat) : List Char → Nat × Nat × Nat
  | [] => (significand, 0, 0)
  | c :: rest =>
    let next := 10 * significand + digitValue c
    if next < UInt64.size then
      let (s, taken, left) := takeDigits next rest
      (s, taken + 1, left)
    else (significand, 0, rest.length + 1)

/-- A number rounded to the 53 bits of double precision, a tie going to the even neighbour. -/
def round53 (n : Nat) : Nat :=
  let drop := n.log2 - 52
  let unit := 1 <<< drop
  let low := n / unit
  let rest := n % unit
  let up := 2 * rest > unit || (2 * rest = unit && low % 2 = 1)
  (if up then low + 1 else low) * unit

/-- The least number that double precision rounds to infinity. -/
def infinityBound : Nat :=
  1 <<< 1024 - 1 <<< 970

/-- Whether a number lies beyond double precision. It is computed as a significand of 64 bits, made from the leading
digits, times a power of ten, each factor rounded first. -/
def overflows (n : JsonNumber) : Bool :=
  let (significand, _, left) := takeDigits 0 n.whole
  let (significand, taken, _) := takeDigits significand n.fraction
  let scale : Int := (left : Int) - taken + n.exponent.getD 0
  if significand = 0 ∨ scale < 0 then false
  else if scale > 308 then true
  else decide (infinityBound ≤ round53 significand * round53 (Nat.pow 10 scale.toNat))

end JsonNumber

namespace Json

/-- A number as a value, if it is in range. -/
def ofNumber (n : JsonNumber) : Json :=
  if n.overflows then .unreadable else .number n

/-- The number of a natural number. -/
def ofNat (n : Nat) : Json :=
  .number (.ofNat n)

mutual

/-- How deep arrays and objects nest in a value. -/
def depth : Json → Nat
  | .array items => depthItems items + 1
  | .object members => depthMembers members + 1
  | _ => 0

/-- How deep arrays and objects nest in some values. -/
def depthItems : List Json → Nat
  | [] => 0
  | j :: rest => max (depth j) (depthItems rest)

/-- How deep arrays and objects nest in the values of some members. -/
def depthMembers : List (String × Json) → Nat
  | [] => 0
  | (_, j) :: rest => max (depth j) (depthMembers rest)

end

mutual

/-- Whether a value, and all within it, keeps to the limits. -/
def readable : Json → Bool
  | .unreadable => false
  | .array items => readableItems items
  | .object members => readableMembers members
  | _ => true

/-- Whether some values keep to the limits. -/
def readableItems : List Json → Bool
  | [] => true
  | j :: rest => readable j && readableItems rest

/-- Whether the values of some members keep to the limits. -/
def readableMembers : List (String × Json) → Bool
  | [] => true
  | (_, j) :: rest => readable j && readableMembers rest

end

end Json

end Lowering
