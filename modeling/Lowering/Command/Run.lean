import Lowering.Command.Arguments
import Lowering.Command.Files
import Lowering.Diagnostic.Drawing
import Lowering.Emit.Program
import Lowering.Tree.Reader

/-!
# Commands

What an invocation does with the files it is given: the text it prints or the reason why it fails, and the log of the
way there.
-/

namespace Lowering

/-- Why a command fails. -/
inductive Failure where
  | inaccessible (path : String) (error : AccessError)
  | tooLarge (path : String) (size : Nat)
  | unreadable (path : String) (error : AccessError)
  /-- The bytes of a file are not UTF-8. -/
  | notText (path : String)
  | invalidTree (origin : String)
  /-- The program cannot be written in C; the text tells why. -/
  | refused (text : String)
deriving DecidableEq, Repr

/-- The largest file that is read, in bytes. -/
def maxInputSize : Nat :=
  100 * 1024 * 1024

namespace Failure

/-- The message for a failure. -/
def message : Failure → String
  | .inaccessible path e => s!"Cannot access file '{path}': {e.text}"
  | .tooLarge path size => s!"Input file '{path}' is too large ({size} bytes, max {maxInputSize} bytes)"
  | .unreadable path e => s!"Error reading file '{path}': {e.text}"
  | .notText path => s!"Error reading file '{path}': stream did not contain valid UTF-8"
  | .invalidTree origin => s!"Invalid syntax tree in '{origin}'"
  | .refused text => text

/-- The exit code of every failure. -/
def exitCode : Nat := 1

end Failure

/-- Reads a text file, unless it is too large. -/
def Files.text (files : Files) (path : String) : Except Failure String :=
  match files.size path with
  | .error e => .error (.inaccessible path e)
  | .ok size =>
    if size > maxInputSize then .error (.tooLarge path size)
    else
      match files.bytes path with
      | .error e => .error (.unreadable path e)
      | .ok bytes =>
        match String.fromUTF8? bytes with
        | none => .error (.notText path)
        | some text => .ok text

/-- Reads a tree from a text that came from somewhere. -/
def readTree (text origin : String) : Except Failure Node :=
  match Node.parse? text with
  | some node => .ok node
  | none => .error (.invalidTree origin)

/-- A text without the newlines at its end. -/
def trimNewlines (s : String) : String :=
  String.ofList (s.toList.reverse.dropWhile (· = '\n')).reverse

/-- The failure for a fault: drawn against the source if there is one, else in plain words. -/
def refusal (files : Files) (source : Option String) (fault : Fault) : Failure :=
  match source with
  | none => .refused fault.diagnostic.plain
  | some path =>
    match files.text path with
    | .error failure => failure
    | .ok text => .refused (trimNewlines (fault.diagnostic.draw path text))

/-- What a command comes to: the text it prints or its failure, and the events, oldest first. -/
structure Completion where
  result : Except Failure String
  events : List Event

/-- Makes the C file of the tree in a file. -/
def compile (files : Files) (file : String) (source : Option String) (style : Style) : Completion :=
  match (files.text file).bind (readTree · file) with
  | .error failure => ⟨.error failure, []⟩
  | .ok root =>
    let outcome := generate style root
    ⟨outcome.result.mapError (refusal files source), .loaded file :: outcome.events⟩

/-- Runs an invocation. -/
def run (files : Files) (inv : Invocation) : Completion :=
  match inv.command with
  | .emitC indent => compile files inv.file inv.source { width := indent }
  | .check =>
    let c := compile files inv.file inv.source {}
    { c with result := c.result.map (fun _ => s!"✓ {inv.file} lowers to C\n") }

-- ---------------------------------------------------------------------------
-- Logs
-- ---------------------------------------------------------------------------

/-- The name of the log filter for a number of verbosity flags. -/
def logFilter : Nat → String
  | 0 => "warn"
  | 1 => "debug"
  | _ => "trace"

/-- Whether an event is shown. -/
def Event.isShown (verbose : Nat) (e : Event) : Bool :=
  match e.level with
  | .debug => verbose ≥ 1
  | .trace => verbose ≥ 2

/-- The word for a level. -/
def EventLevel.word : EventLevel → String
  | .debug => "DEBUG"
  | .trace => "TRACE"

/-- An event as a line of the log. -/
def Event.line (e : Event) : String :=
  e.level.word ++ " " ++ e.text

/-- The log that is shown. -/
def logLines (verbose : Nat) (events : List Event) : List String :=
  (events.filter (Event.isShown verbose)).map Event.line

end Lowering
