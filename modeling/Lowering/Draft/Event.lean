import Lowering.Draft.Site
import Lowering.Tree.Node

/-!
# Events

What happens on the way from a tree to a C file, as data. A log is a list of events; how much of it is shown, and how, is
decided when it is printed.
-/

namespace Lowering

/-- How much detail an event is. -/
inductive EventLevel where
  | debug
  | trace
deriving DecidableEq, Repr

/-- Something that happened while a file was made. -/
inductive Event where
  | loaded (file : String)
  /-- A node is about to be written, at the given site. -/
  | dispatch (node : Node) (site : Site)
  /-- A call to an intrinsic function gets code of its own. -/
  | specializing (intrinsic : String) (span : Span)
  | materializing (support : String)
  | included (header : String)
  | function (name : String)
  | generated (bytes : Nat)

namespace Event

/-- The level of an event. -/
def level : Event → EventLevel
  | .dispatch .. | .specializing .. => .trace
  | _ => .debug

/-- An event as a line of the log, without its level. -/
def text : Event → String
  | .loaded file => s!"loaded syntax tree file={file}"
  | .dispatch node _ => s!"dispatch tag={node.tag.name} span={node.span.text}"
  | .specializing intrinsic span => s!"specializing call builtin={intrinsic} span={span.text}"
  | .materializing support => s!"materializing builtin builtin=\"{support}\""
  | .included header => s!"registered include include=\"{header}\""
  | .function name => s!"emitting local function function={name}"
  | .generated bytes => s!"generated C source bytes={bytes}"

end Event

end Lowering
