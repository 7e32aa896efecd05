import Lowering.Json.Value

/-!
# Writing JSON

A value as a JSON text without blanks. Within a string only the quote, the backslash and the control characters are
escaped; all other characters stand for themselves.
-/

namespace Lowering

namespace Json

/-- A hexadecimal digit, in lower case. -/
def hexChar (n : Nat) : Char :=
  if n < 10 then Char.ofNat ('0'.toNat + n) else Char.ofNat ('a'.toNat + (n - 10))

/-- A character as it is written within a string. -/
def escapeChar (c : Char) : List Char :=
  if c = '"' then ['\\', '"']
  else if c = '\\' then ['\\', '\\']
  else if c = '\x08' then ['\\', 'b']
  else if c = '\x0c' then ['\\', 'f']
  else if c = '\n' then ['\\', 'n']
  else if c = '\r' then ['\\', 'r']
  else if c = '\t' then ['\\', 't']
  else if c.toNat < 0x20 then ['\\', 'u', '0', '0', hexChar (c.toNat / 16), hexChar (c.toNat % 16)]
  else [c]

/-- A string in its quotes. -/
def quote (s : String) : List Char :=
  '"' :: s.toList.flatMap escapeChar ++ ['"']

/-- A number as it is spelled. -/
def numberChars (n : JsonNumber) : List Char :=
  (if n.negative then ['-'] else []) ++ n.whole
    ++ (if n.fraction.isEmpty then [] else '.' :: n.fraction)
    ++ (match n.exponent with
        | none => []
        | some e => 'e' :: (toString e).toList)

mutual

/-- A value as text. A value that cannot be read is written as null. -/
def chars : Json → List Char
  | .null => ['n', 'u', 'l', 'l']
  | .bool true => ['t', 'r', 'u', 'e']
  | .bool false => ['f', 'a', 'l', 's', 'e']
  | .number n => numberChars n
  | .string s => quote s
  | .array [] => ['[', ']']
  | .array (j :: rest) => '[' :: chars j ++ itemsChars rest ++ [']']
  | .object [] => ['{', '}']
  | .object ((name, j) :: rest) => '{' :: quote name ++ ':' :: chars j ++ membersChars rest ++ ['}']
  | .unreadable => ['n', 'u', 'l', 'l']

/-- Further items, each after a comma. -/
def itemsChars : List Json → List Char
  | [] => []
  | j :: rest => ',' :: chars j ++ itemsChars rest

/-- Further members, each after a comma. -/
def membersChars : List (String × Json) → List Char
  | [] => []
  | (name, j) :: rest => ',' :: quote name ++ ':' :: chars j ++ membersChars rest

end

/-- A value as text. -/
def render (j : Json) : String :=
  String.ofList (chars j)

end Json

end Lowering
