import Lowering.Json.Value

/-!
# Reading records from JSON

A record is a value with named fields. In JSON it is written as an object, with its members in any order and members of
other names in between, or as an array of the fields in their declared order. Decoders give nothing for a value of
another shape.
-/

namespace Lowering.Json

/-- The members of an object. -/
abbrev Members := List (String × Json)

/-- The value of a member that may be left out but not repeated. Nothing if it is repeated. -/
def Members.once (members : Members) (name : String) : Option (Option Json) :=
  match members.filter (fun m => m.1 == name) with
  | [] => some none
  | [m] => some (some m.2)
  | _ => none

/-- A member that must be there. -/
def Members.required {α : Type} (members : Members) (name : String) (decode : Json → Option α) : Option α :=
  match members.once name with
  | some (some j) => decode j
  | _ => none

/-- Decodes a value that may be null. -/
def nullable {α : Type} (decode : Json → Option α) : Json → Option (Option α)
  | .null => some none
  | j => (decode j).map some

/-- A member that may be left out, or be null. -/
def Members.optional {α : Type} (members : Members) (name : String) (decode : Json → Option α) : Option (Option α) :=
  match members.once name with
  | some none => some none
  | some (some j) => nullable decode j
  | none => none

/-- A member that stands for a default if it is left out. -/
def Members.withDefault {α : Type} (members : Members) (name : String) (default : α) (decode : Json → Option α) :
    Option α :=
  match members.once name with
  | some none => some default
  | some (some j) => decode j
  | none => none

/-- The fields of a record, as far as they are there, in their declared order. -/
def fields? (names : List String) : Json → Option (List (Option Json))
  | .object members => names.mapM (Members.once members)
  | .array items =>
    if items.length ≤ names.length then
      some (items.map some ++ List.replicate (names.length - items.length) none)
    else none
  | _ => none

/-- A string. -/
def string? : Json → Option String
  | .string s => some s
  | _ => none

/-- A truth value. -/
def bool? : Json → Option Bool
  | .bool b => some b
  | _ => none

/-- A natural number of 64 bits, spelled with digits only. -/
def word? : Json → Option Nat
  | .number n => n.natural?.filter (fun v => v < UInt64.size)
  | _ => none

/-- An array of values that all decode. -/
def list? {α : Type} (decode : Json → Option α) : Json → Option (List α)
  | .array items => items.mapM decode
  | _ => none

end Lowering.Json
