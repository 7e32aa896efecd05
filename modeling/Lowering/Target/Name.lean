/-!
# C names

A source name can be a word that means something else in the generated file: a C keyword, a name of the runtime support,
the spelling of a C type, or a name from the space (two leading underscores) in which generated names live. Such a name
is escaped by one trailing underscore; every other name stands as it is.
-/

namespace Lowering.Target

/-- The words that C, or one of the headers in use, keeps for itself. -/
def keywords : List String :=
  ["auto", "break", "case", "char", "const", "continue", "default", "do", "double", "else", "enum", "extern", "float",
   "for", "goto", "if", "inline", "int", "long", "register", "restrict", "return", "short", "signed", "sizeof",
   "static", "struct", "switch", "typedef", "union", "unsigned", "void", "volatile", "while", "_Alignas", "_Alignof",
   "_Atomic", "_Bool", "_Complex", "_Generic", "_Imaginary", "_Noreturn", "_Static_assert", "_Thread_local", "bool",
   "true", "false", "NULL", "main"]

/-- The names that the support code and the print helpers use. -/
def runtimeNames : List String :=
  ["nlstring", "nlstring_print", "printf", "fputc", "fflush", "fwrite", "stdout", "stderr", "stdin"]

/-- The words that spell the C types of the type table, without their pointer stars. -/
def typeWords : List String :=
  ["intptr_t", "int8_t", "int16_t", "int32_t", "int64_t", "uintptr_t", "uint8_t", "uint16_t", "uint32_t", "uint64_t",
   "double", "float", "bool", "nlstring", "void", "char"]

/-- Whether a word is kept by C. -/
def isKeyword (name : String) : Bool :=
  keywords.contains name

/-- Names that begin with two underscores belong to the generator. -/
def isGeneratorSpace (name : String) : Bool :=
  match name.toList with
  | '_' :: '_' :: _ => true
  | _ => false

/-- Whether a source name must not stand in C as it is. -/
def isReserved (name : String) : Bool :=
  isKeyword name || isGeneratorSpace name || runtimeNames.contains name || typeWords.contains name

/-- The C name of a source name: itself, or with a trailing underscore if it is reserved. -/
def escapeName (name : String) : String :=
  if isReserved name then name ++ "_" else name

end Lowering.Target
