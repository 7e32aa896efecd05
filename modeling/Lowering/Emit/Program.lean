import Lowering.Emit.Visit

/-!
# Programs

From the root of a tree to the text of a C file.
-/

namespace Lowering

/-- How programs are written: the indentation width, and the ways of writing nodes. -/
structure Style where
  width : Nat := 4
  registry : Registry := .standard

/-- A file or a fault, with the events on the way, oldest first. -/
structure Outcome where
  result : Except Fault String
  events : List Event

/-- Writes the program below a root into a new file. Only a block is a program. -/
def generate (style : Style) (root : Node) : Outcome :=
  if root.tag ≠ .block then
    ⟨.error ⟨root.span, .rootNotBlock root.tag⟩, []⟩
  else
    match visit style.registry root (Draft.blank style.width) with
    | .error fault draft => ⟨.error fault, draft.events.reverse⟩
    | .ok _ draft =>
      let text := draft.finish
      ⟨.ok text, (draft.note (.generated text.utf8ByteSize)).events.reverse⟩

end Lowering
