/-!
# Paragraphs

A text set in lines of bounded width. A newline of the text always starts a line; otherwise a line is filled word by
word, and what would not fit goes on the next line. Something stands before the first line and something else, as wide,
before every other line.
-/

namespace Lowering.Paragraph

/-- The widest line of a paragraph. -/
def width : Nat := 78

/-- A word and the number of blanks that follow it. -/
structure Word where
  text : List Char := []
  blanks : Nat := 0
deriving DecidableEq, Repr

/-- Puts a character in front of some words. -/
def prepend (c : Char) : List Word → List Word
  | [] => if c = ' ' then [⟨[], 1⟩] else [⟨[c], 0⟩]
  | w :: rest =>
    if c ≠ ' ' then ⟨c :: w.text, w.blanks⟩ :: rest
    else if w.text.isEmpty then ⟨[], w.blanks + 1⟩ :: rest
    else ⟨[], 1⟩ :: w :: rest

/-- The words of a line. Blanks at its start follow an empty word. -/
def words (line : List Char) : List Word :=
  line.foldr prepend []

/-- Cuts a text into pieces of at most the given width, the first one into at most `room`. -/
def chop (width : Nat) : Nat → List Char → List (List Char)
  | _, [] => [[]]
  | 0, c :: rest =>
    match chop width (width - 1) rest with
    | [] => [[], [c]]
    | piece :: pieces => [] :: (c :: piece) :: pieces
  | room + 1, c :: rest =>
    match chop width room rest with
    | [] => [[c]]
    | piece :: pieces => (c :: piece) :: pieces

/-- Lets blanks follow the last of some pieces. -/
def withBlanks (blanks : Nat) : List (List Char) → List Word
  | [] => []
  | [piece] => [⟨piece, blanks⟩]
  | piece :: pieces => ⟨piece, 0⟩ :: withBlanks blanks pieces

/-- A word cut into words that fit in a line. -/
def breakWord (width : Nat) (w : Word) : List Word :=
  withBlanks w.blanks (chop width width w.text)

/-- Fills lines with words, going on with a line that has been begun. Blanks at the end of a line are left out. -/
def fill (width : Nat) (line : Word) : List Word → List (List Char)
  | [] => [line.text]
  | w :: rest =>
    if width < line.text.length + line.blanks + w.text.length then line.text :: fill width w rest
    else fill width ⟨line.text ++ List.replicate line.blanks ' ' ++ w.text, w.blanks⟩ rest

/-- The lines of one line of text. -/
def fillLine (width : Nat) (line : String) : List String :=
  (fill width {} ((words line.toList).flatMap (breakWord width))).map String.ofList

/-- The lines of a text, the first after `first` and the others after `next`. -/
def lines (first next text : String) : List String :=
  match (text.splitOn "\n").flatMap (fillLine (width - first.length)) with
  | [] => [first]
  | line :: rest => (first ++ line) :: rest.map (next ++ ·)

end Lowering.Paragraph
