/-!
# Columns

How far to the right the characters of a line stand. A tab reaches to the next column that is a multiple of four, a
control character takes no room, and neither does an escape sequence, from the escape character to the letter `m`. Every
other character takes one column, as it does in an ASCII text.
-/

namespace Lowering

/-- The distance between the columns to which tabs reach. -/
def tabWidth : Nat := 4

/-- A place in a line. -/
structure Cursor where
  column : Nat := 0
  /-- The place is inside an escape sequence. -/
  escaped : Bool := false
deriving DecidableEq, Repr

namespace Cursor

/-- The character that starts an escape sequence. -/
def escape : Char := '\x1b'

/-- Whether a character is a control character. -/
def isControl (c : Char) : Bool :=
  c.toNat < 32 || c.toNat = 127

/-- The room that a character takes. -/
def room (k : Cursor) (c : Char) : Nat :=
  if k.escaped then 0
  else if c = '\t' then tabWidth - k.column % tabWidth
  else if isControl c then 0
  else 1

/-- The place after a character. -/
def advance (k : Cursor) (c : Char) : Cursor :=
  { column := k.column + k.room c
    escaped := if k.escaped then c ≠ 'm' else c = escape }

/-- The place after a text. -/
def after (text : List Char) : Cursor :=
  text.foldl advance {}

/-- A text with blanks in place of its tabs. -/
def expandTabs (k : Cursor) : List Char → List Char
  | [] => []
  | c :: rest =>
    (if c = '\t' then List.replicate (k.room c) ' ' else [c]) ++ expandTabs (k.advance c) rest

end Cursor

/-- The characters of a text that lie within its first bytes. -/
def takeBytes : Nat → List Char → List Char
  | _, [] => []
  | n, c :: rest => if c.utf8Size ≤ n then c :: takeBytes (n - c.utf8Size) rest else []

end Lowering
