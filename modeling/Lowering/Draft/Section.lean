/-!
# Sections of a C file

A generated file consists of six sections in a fixed order. Text goes to any of them at any time, which lets a statement
deep in the program put a declaration before everything that uses it.
-/

namespace Lowering

/-- A part of a generated file. -/
inductive Section where
  | includes
  | supportDeclarations
  | supportDefinitions
  | forwardDeclarations
  | definitions
  | entryPoint
deriving DecidableEq, Repr

/-- The sections in the order of the file. -/
def Section.all : List Section :=
  [.includes, .supportDeclarations, .supportDefinitions, .forwardDeclarations, .definitions, .entryPoint]

/-- The texts of the six sections. -/
structure Sections where
  includes : String := ""
  supportDeclarations : String := ""
  supportDefinitions : String := ""
  forwardDeclarations : String := ""
  definitions : String := ""
  entryPoint : String := ""
deriving DecidableEq, Repr

namespace Sections

/-- The text of one section. -/
def get (t : Sections) : Section → String
  | .includes => t.includes
  | .supportDeclarations => t.supportDeclarations
  | .supportDefinitions => t.supportDefinitions
  | .forwardDeclarations => t.forwardDeclarations
  | .definitions => t.definitions
  | .entryPoint => t.entryPoint

/-- Adds text at the end of one section. -/
def add (t : Sections) : Section → String → Sections
  | .includes, s => { t with includes := t.includes ++ s }
  | .supportDeclarations, s => { t with supportDeclarations := t.supportDeclarations ++ s }
  | .supportDefinitions, s => { t with supportDefinitions := t.supportDefinitions ++ s }
  | .forwardDeclarations, s => { t with forwardDeclarations := t.forwardDeclarations ++ s }
  | .definitions, s => { t with definitions := t.definitions ++ s }
  | .entryPoint, s => { t with entryPoint := t.entryPoint ++ s }

/-- Adds a definition, with an empty line between it and the one before. -/
def addDefinition (t : Sections) (text : String) : Sections :=
  t.add .definitions (if t.definitions.isEmpty then text else "\n" ++ text)

/-- The texts of all sections in the order of the file. -/
def texts (t : Sections) : List String :=
  Section.all.map t.get

/-- The file: the sections that are not empty, an empty line between one and the next. -/
def join (t : Sections) : String :=
  "\n".intercalate (t.texts.filter (fun s => !s.isEmpty))

@[simp]
theorem get_add_self (t : Sections) (x : Section) (s : String) : (t.add x s).get x = t.get x ++ s := by
  cases x <;> rfl

theorem get_add_of_ne (t : Sections) {x y : Section} (s : String) (h : y ≠ x) : (t.add x s).get y = t.get y := by
  cases x <;> cases y <;> simp_all [add, get]

end Sections

end Lowering
