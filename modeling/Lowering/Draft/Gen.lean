import Lowering.Draft.Basic
import Lowering.Fault

/-!
# Steps on a draft

A step changes a draft and gives a value or a fault. A fault does not undo what was written before it: the draft that it
leaves behind is part of the outcome.
-/

namespace Lowering

/-- A step on a draft. -/
abbrev Gen := EStateM Fault Draft

namespace Gen

-- ---------------------------------------------------------------------------
-- Text
-- ---------------------------------------------------------------------------

/-- Changes the current page. -/
def onPage (f : Page → Page) : Gen Unit :=
  modify (fun d => { d with page := f d.page })

/-- Writes text on the current page. -/
def write (s : String) : Gen Unit :=
  onPage (·.write s)

/-- Writes text on the current page and ends the line. -/
def writeLine (s : String) : Gen Unit :=
  onPage (·.writeLine s)

/-- Writes the blanks that start a line. -/
def writeIndent : Gen Unit :=
  onPage Page.writeIndent

/-- Writes an indented line. -/
def writeIndentedLine (s : String) : Gen Unit :=
  onPage (·.writeIndentedLine s)

-- ---------------------------------------------------------------------------
-- Faults and frames
-- ---------------------------------------------------------------------------

/-- Stops with a fault. -/
def fail {α : Type} (span : Span) (cause : Cause) : Gen α :=
  throw ⟨span, cause⟩

/-- Gives the value, or stops with a fault if there is none. -/
def orFail {α : Type} (o : Option α) (span : Span) (cause : Cause) : Gen α :=
  match o with
  | some a => pure a
  | none => fail span cause

/-- Notes an event. -/
def note (e : Event) : Gen Unit :=
  modify (·.note e)

/-- Runs a step between two changes of the draft. The second is made after a fault, too. -/
def between {α : Type} (before after : Draft → Draft) (act : Gen α) : Gen α := fun d =>
  match act (before d) with
  | .ok a e => .ok a (after e)
  | .error f e => .error f (after e)

/-- Runs a step with its lines one level further in. -/
def indented (act : Gen Unit) : Gen Unit :=
  between (fun d => { d with page := d.page.indent }) (fun d => { d with page := d.page.dedent }) act

/-- Runs a step at a node of the given kind. -/
def below (tag : Tag) (act : Gen Unit) : Gen Unit :=
  between (fun d => { d with site := d.site.descend tag }) (fun d => { d with site := d.site.ascend }) act

/-- Runs a step on a page of its own and gives that page. The page before it is current again afterwards. -/
def onOwnPage (act : Gen Unit) : Gen Page := fun d =>
  match act { d with page := Page.blank d.width } with
  | .ok _ e => .ok e.page { e with page := d.page }
  | .error f e => .error f { e with page := d.page }

-- ---------------------------------------------------------------------------
-- Scopes
-- ---------------------------------------------------------------------------

/-- The place in the program. -/
def site : Gen Site := do
  return (← get).site

/-- Opens a scope. -/
def openScope (c : Scope) : Gen Unit :=
  modify (fun d => { d with site := d.site.enter c })

/-- Closes the innermost scope and gives it. -/
def closeScope (span : Span) : Gen Scope := do
  match (← site).scope? with
  | none => fail span .unpairedScope
  | some c =>
    modify (fun d => { d with site := d.site.leave })
    return c

/-- Notes that a return has been written in the innermost scope. -/
def markReturn : Gen Unit :=
  modify (fun d => { d with site := d.site.markReturn })

/-- Runs a step and then another one, which is run after a fault of the first, too. Of two faults the later counts. -/
def andFinally {α β : Type} (act : Gen α) (last : Gen β) : Gen α := fun d =>
  match act d with
  | .ok a e =>
    match last e with
    | .ok _ e => .ok a e
    | .error f e => .error f e
  | .error f e =>
    match last e with
    | .ok _ e => .error f e
    | .error g e => .error g e

/-- Runs a step inside a scope. The innermost scope is closed after it, even if the step stopped with a fault. -/
def inScope (c : Scope) (span : Span) (act : Gen Unit) : Gen Unit := do
  openScope c
  andFinally act (closeScope span)

-- ---------------------------------------------------------------------------
-- Requests
-- ---------------------------------------------------------------------------

/-- Asks for a header and tells whether this was the first request for it. -/
def requireHeader (header : String) : Gen Bool := do
  let first := !(← get).headers.contains header
  modify (·.addHeader header)
  return first

/-- Asks for a header. -/
def needHeader (header : String) : Gen Unit :=
  modify (·.addHeader header)

/-- Asks for a piece of support code. -/
def needSupport (s : Support) : Gen Unit :=
  modify (·.addSupport s)

/-- Asks for a piece of support code by its name, on behalf of the node at `span`. -/
def needSupportNamed (name : String) (span : Span) : Gen Unit := do
  let s ← orFail (Support.ofName? name) span (.unknownSupport name)
  needSupport s

/-- Gives a generated name to the node at `span`. A name is given only once. -/
def reserveSymbol (symbol : String) (span : Span) : Gen Unit := do
  match (← get).symbols.lookup symbol with
  | some owner => fail span (.symbolTaken symbol owner)
  | none => modify (fun d => { d with symbols := (symbol, span) :: d.symbols })

/-- The C type of a source type, for the node at `span`. What the type needs is asked for. -/
def cType (name : String) (span : Span) : Gen String := do
  let t ← orFail ((← get).types.find? name) span (.unknownType name)
  match t.header with
  | some header => needHeader header
  | none => pure ()
  match t.support with
  | some support => needSupportNamed support span
  | none => pure ()
  return t.spelling

/-- Lets a source type name stand for a C type, and gives what it stood for before. -/
def setType (name : String) (type : Target.CType) : Gen (Option Target.CType) := do
  let previous := (← get).types.find? name
  modify (fun d => { d with types := d.types.insert name type })
  return previous

/-- Adds text to a section of the file. -/
def addTo (x : Section) (text : String) : Gen Unit :=
  modify (·.addTo x text)

/-- Adds a definition to the file. -/
def addDefinition (text : String) : Gen Unit :=
  modify (·.addDefinition text)

end Gen

end Lowering
