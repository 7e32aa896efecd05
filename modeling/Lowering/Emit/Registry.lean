import Lowering.Draft.Basic
import Lowering.Fault

/-!
# Registries

Which way of writing is used for which kind of nodes. The standard registry has one for every kind. A registry may leave
kinds out, use the way of one kind for another, or write nodes of a kind by a rule of its own.
-/

namespace Lowering

/-- A way to write nodes. -/
inductive Handler where
  /-- The way in which nodes of a kind are written by default. -/
  | standard (tag : Tag)
  /-- A rule of its own. It sees the node and the draft, gives the page to go on with, and may refuse the node. It changes
  nothing but the page. -/
  | rule (act : Node → Draft → Page × Option Fault)

/-- Writes a text made from the node and the place where it stands. -/
def Handler.custom (render : Node → Site → String) : Handler :=
  .rule (fun node d => (d.page.write (render node d.site), none))

/-- Ways of writing by kind of node, each kind at most once. -/
structure Registry where
  entries : List (Tag × Handler)

namespace Registry

/-- A registry that knows no kind of node. -/
def empty : Registry :=
  ⟨[]⟩

/-- Every kind of node written in its own way. -/
def standard : Registry :=
  ⟨Tag.all.map (fun t => (t, .standard t))⟩

/-- The way to write nodes of a kind. -/
def find? (r : Registry) (tag : Tag) : Option Handler :=
  r.entries.lookup tag

/-- Whether there is a way to write nodes of a kind. -/
def contains (r : Registry) (tag : Tag) : Bool :=
  (r.find? tag).isSome

/-- Uses a way of writing for a kind, in place of the one used before. -/
def insert (r : Registry) (tag : Tag) (h : Handler) : Registry :=
  ⟨(tag, h) :: r.entries.filter (fun e => e.1 ≠ tag)⟩

/-- The number of kinds that can be written. -/
def size (r : Registry) : Nat :=
  r.entries.length

/-- Whether no kind can be written. -/
def isEmpty (r : Registry) : Bool :=
  r.entries.isEmpty

/-- The kinds that can be written, as a text with their words in alphabetical order. -/
def describe (r : Registry) : String :=
  let words := (r.entries.map (fun e => e.1.name)).mergeSort (fun a b => decide (a ≤ b))
  "Traverser \x7b tags: [" ++ ", ".intercalate (words.map (fun w => "\"" ++ w ++ "\"")) ++ "] \x7d"

end Registry

end Lowering
