import Lowering.Diagnostic.Basic
import Lowering.Diagnostic.Column
import Lowering.Diagnostic.Paragraph

/-!
# Drawings

A diagnostic drawn against its source: the line it is about, the lines around it, and a mark under the span with the
kind of the fault. The drawing is made for a span that lies within one line of an ASCII text.

Lines end with a newline, alone or after a carriage return. A carriage return alone ends a line as well where lines are
counted and picked, but the text that was picked is not broken there when it is shown.
-/

namespace Lowering.Drawing

-- ---------------------------------------------------------------------------
-- Lines
-- ---------------------------------------------------------------------------

/-- A line of a source text: its number from one, the offset of its first byte, and its text with what ends it. -/
structure Line where
  number : Nat
  offset : Nat
  text : List Char
deriving DecidableEq, Repr

/-- The number of bytes of a text. -/
def byteSize (text : List Char) : Nat :=
  (String.ofList text).utf8ByteSize

/-- Splits a text into lines, each with what ends it. A carriage return alone ends a line only if `alone` says so. -/
def splitLines (alone : Bool) : List Char → List (List Char)
  | [] => []
  | '\r' :: '\n' :: rest => ['\r', '\n'] :: splitLines alone rest
  | c :: rest =>
    if c = '\n' || (alone && c = '\r') then [c] :: splitLines alone rest
    else
      match splitLines alone rest with
      | [] => [[c]]
      | line :: lines => (c :: line) :: lines

/-- The lines of a text with their numbers and offsets, counted on from a given number and offset. -/
def numberLines (number offset : Nat) : List (List Char) → List Line
  | [] => []
  | text :: rest => ⟨number, offset, text⟩ :: numberLines (number + 1) (offset + byteSize text) rest

/-- The lines of a source text. -/
def lines (source : String) : List Line :=
  numberLines 1 0 (splitLines true source.toList)

/-- The line that holds an offset, with the line before and the line after it. -/
def around (offset : Nat) : Option Line → List Line → Option (Option Line × Line × Option Line)
  | _, [] => none
  | before, line :: rest =>
    match rest with
    | [] => some (before, line, none)
    | next :: _ => if offset < next.offset then some (before, line, some next) else around offset (some line) rest

/-- Numbers the lines to be shown. A line that ends with the text is not counted if a carriage return stands there. -/
def numberShown (number offset : Nat) : List (List Char) → List Line
  | [] => []
  | text :: rest =>
    let own := if text.getLast? = some '\r' then number - 1 else number
    ⟨own, offset, text⟩ :: numberShown (number + 1) (offset + byteSize text) rest

/-- The lines that are shown for picked ones. -/
def shownLines (picked : List Line) : List Line :=
  match picked with
  | [] => []
  | line :: _ => numberShown line.number line.offset (splitLines false (picked.flatMap Line.text))

namespace Line

/-- A line without what ends it. -/
def dropEnd : List Char → List Char
  | [] | ['\n'] | ['\r', '\n'] => []
  | c :: rest => c :: dropEnd rest

/-- The text of a line as it is shown. -/
def shown (line : Line) : String :=
  String.ofList (Cursor.expandTabs {} (dropEnd line.text))

/-- Whether the byte at an offset lies in a line. -/
def holds (line : Line) (offset : Nat) : Bool :=
  line.offset ≤ offset && offset < line.offset + byteSize line.text

/-- The column at which the byte at an offset stands. -/
def columnAt (line : Line) (offset : Nat) : Nat :=
  (Cursor.after (takeBytes (offset - line.offset) (dropEnd line.text))).column

end Line

-- ---------------------------------------------------------------------------
-- Parts of a drawing
-- ---------------------------------------------------------------------------

/-- A number of blanks. -/
def blanks (n : Nat) : String :=
  String.ofList (List.replicate n ' ')

/-- A text made wider on its left, up to a given width. -/
def padLeft (width : Nat) (s : String) : String :=
  blanks (width - s.length) ++ s

/-- A source line in a drawing, its number set right in the given width. -/
def sourceLine (width : Nat) (line : Line) : String :=
  " " ++ padLeft width (toString line.number) ++ " │ " ++ line.shown

/-- The mark under a span: a bar with a branch in its middle. -/
def bar (length : Nat) : String :=
  String.ofList ((List.range length).map (fun i => if i = length / 2 then '┬' else '─'))

/-- The two lines below a marked line: the bar, and the label hanging from its branch. -/
def marks (margin : String) (line : Line) (label : Label) : List String :=
  let start := line.columnAt label.offset
  let length := max 1 (line.columnAt (label.offset + label.length) - start)
  [margin ++ "· " ++ blanks start ++ bar length,
   margin ++ "· " ++ blanks (start + length / 2) ++ "╰── " ++ label.text]

/-- A source line with the marks that belong below it. -/
def markedLine (width : Nat) (margin : String) (label : Label) (line : Line) : List String :=
  sourceLine width line :: (if line.holds label.offset then marks margin line label else [])

/-- The framed part of a drawing: heading, source lines, marks and closing line. -/
def frame (file : String) (label : Label) (before : Option Line) (line : Line) (after : Option Line) : List String :=
  let shown := shownLines (before.toList ++ line :: after.toList)
  let width := (toString ((shown.getLast?.getD line).number)).length
  let margin := blanks (width + 2)
  [margin ++ s!"╭─[{file}:{line.number}:{label.offset - line.offset + 1}]"]
    ++ shown.flatMap (markedLine width margin label)
    ++ [margin ++ "╰────"]

/-- All lines of a drawing. A source without lines leaves only the heading and the help. -/
def drawLines (file source : String) (report : Report) : List String :=
  let body :=
    match around report.label.offset none (lines source) with
    | none => []
    | some (before, line, after) => frame file report.label before line after
  [report.code, ""]
    ++ Paragraph.lines "  × " "  │ " report.message
    ++ body
    ++ report.help.toList.flatMap (Paragraph.lines "  help: " "        ")

end Lowering.Drawing

namespace Lowering

/-- A diagnostic drawn against the source text of a file, every line ended by a newline. -/
def Diagnostic.draw (d : Diagnostic) (file source : String) : String :=
  String.join ((Drawing.drawLines file source d.report).map (· ++ "\n"))

end Lowering
