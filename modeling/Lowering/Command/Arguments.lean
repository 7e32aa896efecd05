/-!
# Command-line arguments

What a command line asks for. The program has two commands, `emit-c` and `check`; both take the file of a tree, and the
flag `-v` stands before or after the command and may be repeated.

Arguments are taken from left to right, and the first thing wrong is what is reported. The value of an option or of the
file is looked at only when the next flag or value arrives, or the end; an argument that is not known is reported without
looking at the value before it.
-/

namespace Lowering

/-- The commands. -/
inductive Command where
  /-- Print the C file, with the given indentation width. -/
  | emitC (indent : Nat)
  /-- Only tell whether there is a C file. -/
  | check
deriving DecidableEq, Repr

/-- What a command line asks for. -/
structure Invocation where
  command : Command
  file : String
  source : Option String
  verbose : Nat
deriving DecidableEq, Repr

/-- Why a command line is not an invocation. Asking for help or for the version is no mistake. -/
inductive Usage where
  | help
  | version
  | helpOnNothing
  | missingCommand
  | unknownCommand
  | unknownArgument
  | tooManyValues
  | missingFile
  | invalidValue
  | malformedValue
  | repeatedOption
deriving DecidableEq, Repr

/-- The exit code of a command line that is not run. -/
def Usage.exitCode : Usage → Nat
  | .help | .version => 0
  | _ => 2

/-- What is printed for the version. -/
def versionText : String :=
  "kiln 0.1.0-alpha.1\n"

namespace Arguments

-- ---------------------------------------------------------------------------
-- Words
-- ---------------------------------------------------------------------------

/-- An argument by its form. -/
inductive Word where
  /-- `--`, after which no argument is a flag. -/
  | escape
  /-- `--name` or `--name=value`. -/
  | long (name : List Char) (value : Option String)
  /-- One or more flags of one letter. -/
  | short (letters : List Char)
  /-- Anything else. -/
  | plain

/-- Splits a long flag at its first equals sign. -/
def splitLong (cs : List Char) : Word :=
  match cs.dropWhile (· ≠ '=') with
  | [] => .long cs none
  | _ :: value => .long (cs.takeWhile (· ≠ '=')) (some (String.ofList value))

/-- The form of an argument. A dash alone is not a flag. -/
def classify (arg : String) : Word :=
  match arg.toList with
  | ['-', '-'] => .escape
  | '-' :: '-' :: cs => splitLong cs
  | ['-'] => .plain
  | '-' :: cs => .short cs
  | _ => .plain

/-- A number of 64 bits: decimal digits after at most one plus sign. -/
def number? (s : String) : Option Nat :=
  let digits :=
    match s.toList with
    | '+' :: rest => rest
    | cs => cs
  if digits.isEmpty || !digits.all Char.isDigit then none
  else
    let value := digits.foldl (fun acc c => 10 * acc + (c.toNat - '0'.toNat)) 0
    if value < UInt64.size then some value else none

/-- The count of a flag stops at what one byte holds. -/
def count (n : Nat) : Nat :=
  min (n + 1) 255

-- ---------------------------------------------------------------------------
-- After the command
-- ---------------------------------------------------------------------------

/-- The options with a value. -/
inductive Opt where
  | source
  | indent
deriving DecidableEq, Repr

/-- A value that has not been looked at yet. -/
inductive Pending where
  | nothing
  | file (value : String)
  /-- An option, with its value once that has come. -/
  | option (opt : Opt) (value : Option String)
deriving DecidableEq, Repr

/-- The arguments of a command as far as they have been taken. -/
structure State where
  hasIndent : Bool
  file : Option String := none
  source : Option String := none
  indent : Option Nat := none
  verbose : Nat := 0
  pending : Pending := .nothing
  /-- The place of the file is taken, by a value looked at or not. -/
  fileTaken : Bool := false
  /-- `--` has been seen. -/
  escaped : Bool := false
deriving DecidableEq, Repr

namespace State

/-- Looks at the value of an option. -/
def setOption (s : State) (opt : Opt) (value : String) : Except Usage State :=
  match opt with
  | .source =>
    if s.source.isSome then .error .repeatedOption
    else if value.isEmpty then .error .invalidValue
    else .ok { s with source := some value }
  | .indent =>
    if s.indent.isSome then .error .repeatedOption
    else
      match number? value with
      | some n => .ok { s with indent := some n }
      | none => .error .malformedValue

/-- Looks at the value that has not been looked at yet. -/
def settle (s : State) : Except Usage State :=
  let s' := { s with pending := .nothing }
  match s.pending with
  | .nothing => .ok s'
  | .file value => if value.isEmpty then .error .invalidValue else .ok { s' with file := some value }
  | .option _ none => .error .invalidValue
  | .option opt (some value) => s'.setOption opt value

/-- A flag of one letter. -/
def letter (s : State) (c : Char) : Except Usage State :=
  match c with
  | 'v' => do
    let s ← s.settle
    return { s with verbose := count s.verbose }
  | 'h' => do
    let _ ← s.settle
    throw .help
  | _ => .error .unknownArgument

/-- The option of a long flag. -/
def option? (s : State) (name : List Char) : Option Opt :=
  if name = "source".toList then some .source
  else if name = "indent".toList && s.hasIndent then some .indent
  else none

/-- A long flag. -/
def long (s : State) (name : List Char) (value : Option String) : Except Usage State :=
  if name = "verbose".toList || name = "help".toList then
    match value with
    | some _ => .error .tooManyValues
    | none => s.letter (if name = "help".toList then 'h' else 'v')
  else
    match s.option? name with
    | none => .error .unknownArgument
    | some opt => do
      let s ← s.settle
      match value with
      | some v => s.setOption opt v
      | none => return { s with pending := .option opt none }

/-- A value: that of the option before it, or the file. -/
def value (s : State) (v : String) : Except Usage State :=
  match s.pending, s.escaped with
  | .option opt none, false => .ok { s with pending := .option opt (some v) }
  | _, _ =>
    if s.fileTaken then .error .unknownArgument
    else do
      let s ← s.settle
      return { s with pending := .file v, fileTaken := true }

/-- The next argument. -/
def next (s : State) (arg : String) : Except Usage State :=
  if s.escaped then s.value arg
  else
    match classify arg with
    | .escape => .ok { s with escaped := true }
    | .long name value => s.long name value
    | .short letters => letters.foldlM letter s
    | .plain => s.value arg

/-- The end of the arguments. Flags after the command replace those before it. -/
def finish (s : State) (verboseBefore : Nat) : Except Usage Invocation := do
  let s ← s.settle
  match s.file with
  | none => throw .missingFile
  | some file =>
    return {
      command := if s.hasIndent then .emitC (s.indent.getD 4) else .check
      file
      source := s.source
      verbose := if s.verbose = 0 then verboseBefore else s.verbose }

end State

/-- The arguments of a command. -/
def afterCommand (hasIndent : Bool) (verboseBefore : Nat) (args : List String) : Except Usage Invocation := do
  let s ← args.foldlM State.next { hasIndent }
  s.finish verboseBefore

-- ---------------------------------------------------------------------------
-- Before the command
-- ---------------------------------------------------------------------------

/-- A flag of one letter before the command. -/
def letterBefore (verbose : Nat) : Char → Except Usage Nat
  | 'v' => .ok (count verbose)
  | 'h' => .error .help
  | 'V' => .error .version
  | _ => .error .unknownArgument

/-- The letter that says the same as a long flag. -/
def letterOf? (name : List Char) : Option Char :=
  if name = "verbose".toList then some 'v'
  else if name = "help".toList then some 'h'
  else if name = "version".toList then some 'V'
  else none

/-- A long flag before the command. -/
def longBefore (verbose : Nat) (name : List Char) (value : Option String) : Except Usage Nat :=
  match letterOf? name, value with
  | none, _ => .error .unknownArgument
  | some _, some _ => .error .tooManyValues
  | some c, none => letterBefore verbose c

/-- Whether an argument is the name of a command, of which `help` is one. -/
def isCommand (name : String) : Bool :=
  ["emit-c", "check", "help"].contains name

/-- The arguments of `help`: at most one command, known or not. -/
def helpCommand : List String → Usage
  | [] => .help
  | [name] => if isCommand name then .help else .unknownCommand
  | _ => .unknownCommand

/-- What is reported if no command comes. -/
def noCommand (verbose : Nat) : Usage :=
  if verbose = 0 then .helpOnNothing else .missingCommand

/-- The arguments after `--`, where no command can stand: even the name of one is an argument too many. -/
def afterEscape (verbose : Nat) : List String → Usage
  | [] => noCommand verbose
  | name :: _ => if isCommand name then .unknownArgument else .unknownCommand

/-- The arguments from the start, with the count of the flags before. -/
def fromStart (verbose : Nat) : List String → Except Usage Invocation
  | [] => .error (noCommand verbose)
  | arg :: rest =>
    match classify arg with
    | .escape => .error (afterEscape verbose rest)
    | .long name value => do
      let verbose ← longBefore verbose name value
      fromStart verbose rest
    | .short letters => do
      let verbose ← letters.foldlM letterBefore verbose
      fromStart verbose rest
    | .plain =>
      if arg = "emit-c" then afterCommand true verbose rest
      else if arg = "check" then afterCommand false verbose rest
      else if arg = "help" then .error (helpCommand rest)
      else .error .unknownCommand

/-- What a command line asks for. -/
def parse (args : List String) : Except Usage Invocation :=
  fromStart 0 args

end Arguments

end Lowering
