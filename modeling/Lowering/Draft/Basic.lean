import Lowering.Target.TypeTable
import Lowering.Draft.Event
import Lowering.Draft.Section
import Lowering.Page

/-!
# Drafts

A draft is a C file in the making: the sections written so far, the page being written now, what has been asked for
already (headers, support code, generated names), the types in use, and the place in the program.

Headers and support code are asked for any number of times and given once; a generated name is given to one node only.
-/

namespace Lowering

/-- The pieces of support code. -/
inductive Support where
  /-- The string record. -/
  | string
  /-- The function that prints a string record. -/
  | stringPrint
deriving DecidableEq, Repr

/-- The name of a piece of support code, which is also the name it defines. -/
def Support.name : Support → String
  | .string => "nlstring"
  | .stringPrint => "nlstring_print"

/-- The piece of support code of a given name. -/
def Support.ofName? (name : String) : Option Support :=
  [Support.string, Support.stringPrint].find? (fun s => s.name == name)

/-- A C file in the making. Headers stand in the order of their first request; the newest event stands first. -/
structure Draft where
  width : Nat := 4
  types : Target.TypeTable := Target.primitiveTypes
  headers : List String := []
  support : List Support := []
  symbols : List (String × Span) := []
  sections : Sections := {}
  site : Site := {}
  page : Page := Page.blank 4
  events : List Event := []

namespace Draft

/-- A draft with nothing in it, for a given indentation width. -/
def blank (width : Nat) : Draft :=
  { width, page := Page.blank width }

/-- Notes an event. -/
def note (d : Draft) (e : Event) : Draft :=
  { d with events := e :: d.events }

/-- Adds text to a section. -/
def addTo (d : Draft) (x : Section) (text : String) : Draft :=
  { d with sections := d.sections.add x text }

/-- Adds a definition. -/
def addDefinition (d : Draft) (text : String) : Draft :=
  { d with sections := d.sections.addDefinition text }

/-- The line that includes a header. -/
def includeLine (header : String) : String :=
  "#include <" ++ header ++ ">\n"

/-- Asks for a header; only the first request writes its line. -/
def addHeader (d : Draft) (header : String) : Draft :=
  if d.headers.contains header then d
  else ({ d with headers := d.headers ++ [header] }.note (.included header)).addTo .includes (includeLine header)

/-- The C type of string records. -/
def stringRecord (width : Nat) : String :=
  Page.framed width "typedef struct nlstring \x7b" ["uintptr_t len;", "uintptr_t res;", "char data[];"] "\x7d nlstring;"

/-- The C function that prints a string record, as many bytes as it has. -/
def stringPrinter (width : Nat) : String :=
  Page.framed width "static inline void nlstring_print(const nlstring* s) \x7b" ["fwrite(s->data, 1, s->len, stdout);"]
    "\x7d"

/-- Notes that a piece of support code is there, before its text is written. -/
def markSupport (d : Draft) (s : Support) : Draft :=
  { d with support := d.support ++ [s] }.note (.materializing s.name)

/-- Asks for the string record. -/
def addStringRecord (d : Draft) : Draft :=
  if d.support.contains .string then d
  else ((d.markSupport .string).addHeader "stdint.h").addTo .supportDeclarations (stringRecord d.width)

/-- Asks for the printer of string records, and so for the record itself. -/
def addStringPrinter (d : Draft) : Draft :=
  if d.support.contains .stringPrint then d
  else
    (((d.markSupport .stringPrint).addStringRecord).addHeader "stdio.h").addTo .supportDefinitions
      (stringPrinter d.width)

/-- Asks for a piece of support code; only the first request writes it. -/
def addSupport (d : Draft) : Support → Draft
  | .string => d.addStringRecord
  | .stringPrint => d.addStringPrinter

/-- The file: all sections, with the current page as the end of the entry point. -/
def finish (d : Draft) : String :=
  (d.sections.add .entryPoint d.page.text).join

end Draft

end Lowering
