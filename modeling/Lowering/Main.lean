import Lowering.Command.Run

/-!
# The program

Asks for the files that an invocation names, runs it on them, and prints what comes of it. Messages and the log go to
the standard error stream, the C file to the standard output.
-/

namespace Lowering.Shell

/-- What can be learned of one file: its size, and its bytes. -/
structure Answer where
  size : Except AccessError Nat
  bytes : Except AccessError ByteArray

/-- The answer for a file that was not read. A directory can be reached and not read. -/
def refused : IO.Error → Answer
  | .noFileOrDirectory _ _ _ => ⟨.error .notFound, .error .notFound⟩
  | .inappropriateType _ 20 _ => ⟨.error .notDirectory, .error .notDirectory⟩
  | .inappropriateType _ 21 _ => ⟨.ok 0, .error .isDirectory⟩
  | .invalidArgument _ 36 _ => ⟨.error .nameTooLong, .error .nameTooLong⟩
  | e => ⟨.ok 0, .error (.other e.toString)⟩

/-- Asks for a file. -/
def ask (path : String) : IO Answer := do
  try
    let bytes ← IO.FS.readBinFile path
    return ⟨.ok bytes.size, .ok bytes⟩
  catch e =>
    return refused e

/-- The files of an invocation. -/
def filesOf (inv : Invocation) : IO Files := do
  let paths := inv.file :: inv.source.toList
  let answers ← paths.mapM (fun p => do return (p, ← ask p))
  let find := fun (path : String) => (answers.lookup path).getD ⟨.error .notFound, .error .notFound⟩
  return ⟨fun path => (find path).size, fun path => (find path).bytes⟩

/-- How the program is called. -/
def synopsis : String :=
  "Usage: kiln [-v]... emit-c [--source FILE] [--indent N] AST\n       kiln [-v]... check [--source FILE] AST\n"

/-- Answers a command line that is not run. -/
def explain (u : Usage) : IO UInt32 := do
  match u with
  | .version => IO.print versionText
  | .help => IO.print synopsis
  | _ => IO.eprint synopsis
  return u.exitCode.toUInt32

/-- Runs an invocation. -/
def execute (inv : Invocation) : IO UInt32 := do
  let c := run (← filesOf inv) inv
  for line in logLines inv.verbose c.events do
    IO.eprintln line
  match c.result with
  | .ok text =>
    IO.print text
    return 0
  | .error failure =>
    IO.eprintln failure.message
    return Failure.exitCode.toUInt32

end Lowering.Shell

def main (args : List String) : IO UInt32 :=
  match Lowering.Arguments.parse args with
  | .error usage => Lowering.Shell.explain usage
  | .ok inv => Lowering.Shell.execute inv
