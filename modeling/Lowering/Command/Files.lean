/-!
# Files

What a program can learn of the files it is given: how large a file is, and its bytes. `Files.ofTree` has these answers
for a directory tree that is held in memory.
-/

namespace Lowering

/-- Why a file cannot be reached or read. -/
inductive AccessError where
  | notFound
  | notDirectory
  | isDirectory
  | nameTooLong
  | other (text : String)
deriving DecidableEq, Repr

/-- The words of the operating system. -/
def AccessError.text : AccessError → String
  | .notFound => "No such file or directory (os error 2)"
  | .notDirectory => "Not a directory (os error 20)"
  | .isDirectory => "Is a directory (os error 21)"
  | .nameTooLong => "File name too long (os error 36)"
  | .other text => text

/-- The files a program can read: their sizes and their bytes, by path. -/
structure Files where
  size : String → Except AccessError Nat
  bytes : String → Except AccessError ByteArray

namespace Files

/-- What stands at a path of a directory tree. The bytes of a file are made only when they are asked for. -/
inductive Entry where
  | file (size : Nat) (bytes : Unit → ByteArray)
  | directory

/-- A directory tree, each entry under the names on the way to it. A directory that has entries need not be listed. -/
abbrev Tree := List (List String × Entry)

/-- Splits a path into its names; a slash at the end leaves an empty last name. -/
def components : List Char → List (List Char)
  | [] => [[]]
  | '/' :: rest => [] :: components rest
  | c :: rest =>
    match components rest with
    | [] => [[c]]
    | name :: names => (c :: name) :: names

/-- The entry at the given names, which is a directory if there are entries below it. -/
def Tree.at? (tree : Tree) (names : List String) : Option Entry :=
  match List.lookup names tree with
  | some e => some e
  | none =>
    if names.isEmpty || tree.any (fun e => names.isPrefixOf e.1) then some .directory else none

/-- The longest name of a directory entry, in bytes. -/
def maxName : Nat := 255

/-- The longest path, in bytes. -/
def maxPath : Nat := 4095

/-- What stands at a way through the directories around the tree, of whose other entries nothing is known. -/
def outside (names : List String) : Except AccessError Entry :=
  match names.find? (fun n => !(n = "" || n = "." || n = "..")) with
  | none => .ok .directory
  | some name => .error (if name.utf8ByteSize > maxName then .nameTooLong else .notFound)

/-- Goes down a tree from the names already gone. Only from a directory can one go on, and only there is the length of
the next name looked at. -/
def Tree.walk (tree : Tree) (gone : List String) : List String → Except AccessError Entry
  | [] => (tree.at? gone).elim (.error .notFound) .ok
  | name :: rest =>
    match tree.at? gone with
    | none => .error .notFound
    | some (.file _ _) => .error .notDirectory
    | some .directory =>
      if name = "" || name = "." then tree.walk gone rest
      else if name = ".." then
        if gone.isEmpty then outside rest else tree.walk gone.dropLast rest
      else if name.utf8ByteSize > maxName then .error .nameTooLong
      else tree.walk (gone ++ [name]) rest

/-- The entry at a path. A path that starts with a slash does not start at the tree. -/
def Tree.entry (tree : Tree) (path : String) : Except AccessError Entry :=
  if path.utf8ByteSize > maxPath then .error .nameTooLong
  else
    match (components path.toList).map String.ofList with
    | "" :: names => outside names
    | names => tree.walk [] names

/-- The files of a directory tree. A directory has a size, too, but no bytes. -/
def ofTree (tree : Tree) : Files where
  size path := do
    match ← tree.entry path with
    | .file size _ => return size
    | .directory => return 0
  bytes path := do
    match ← tree.entry path with
    | .file _ bytes => return bytes ()
    | .directory => throw .isDirectory

end Files

end Lowering
