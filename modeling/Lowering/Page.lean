/-!
# Pages

A page is text under construction: what has been written so far, and how deep the next line is indented. Text is only
ever added at the end.
-/

namespace Lowering

/-- Text under construction, with its indentation level and the blanks that a level is worth. -/
structure Page where
  text : String := ""
  level : Nat := 0
  width : Nat := 4
deriving DecidableEq, Repr

namespace Page

/-- A page with nothing on it. -/
def blank (width : Nat) : Page :=
  { width }

/-- Whether nothing has been written. -/
def isEmpty (p : Page) : Bool :=
  p.text.isEmpty

/-- Adds text. -/
def write (p : Page) (s : String) : Page :=
  { p with text := p.text ++ s }

/-- Adds text and ends the line. -/
def writeLine (p : Page) (s : String) : Page :=
  p.write (s ++ "\n")

/-- The blanks at the start of a line, for a level and a width. -/
def indentation (level width : Nat) : String :=
  String.ofList (List.replicate (level * width) ' ')

/-- Adds the blanks that start a line. -/
def writeIndent (p : Page) : Page :=
  p.write (indentation p.level p.width)

/-- Adds a whole line, indented. -/
def writeIndentedLine (p : Page) (s : String) : Page :=
  p.writeIndent.writeLine s

/-- Indents the following lines one level more. -/
def indent (p : Page) : Page :=
  { p with level := p.level + 1 }

/-- Indents the following lines one level less, if they are indented at all. -/
def dedent (p : Page) : Page :=
  { p with level := p.level - 1 }

/-- A few lines one level further in than the line before and the line after them. -/
def framed (width : Nat) (head : String) (body : List String) (foot : String) : String :=
  head ++ "\n" ++ String.join (body.map (fun l => indentation 1 width ++ l ++ "\n")) ++ foot ++ "\n"

/-- Adds what is written on another page. -/
def append (p other : Page) : Page :=
  p.write other.text

end Page

end Lowering
