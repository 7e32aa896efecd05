import Lowering.Json.Token

/-!
# Reading JSON

From tokens to a value. The reader takes one token at a time; its state is a stack of the arrays and objects that are
still open, and what may come next. Nothing may stand after the value, and no comma before a closing bracket.
-/

namespace Lowering

namespace Json

/-- An array or object that is still open, its members so far in reverse. -/
inductive Frame where
  | array (done : List Json)
  /-- An object, and the name of the member whose value is being read. -/
  | member (done : List (Option String × Json)) (name : Option String)

/-- What the reader is waiting for, inside the open arrays and objects. -/
inductive Pending where
  | value (outer : List Frame)
  /-- The first item of an array, or its end. -/
  | firstItem (outer : List Frame)
  /-- A comma or the end of an array. -/
  | nextItem (done : List Json) (outer : List Frame)
  /-- The first member name of an object, or its end. -/
  | firstName (outer : List Frame)
  | name (done : List (Option String × Json)) (outer : List Frame)
  | colon (done : List (Option String × Json)) (name : Option String) (outer : List Frame)
  /-- A comma or the end of an object. -/
  | nextMember (done : List (Option String × Json)) (outer : List Frame)
  /-- Nothing more. -/
  | done (value : Json)

/-- An object with its members. An object with a name that cannot be read cannot be read either. -/
def ofMembers (members : List (Option String × Json)) : Json :=
  match members.mapM (fun m => m.1.map (fun name => (name, m.2))) with
  | some members => .object members
  | none => .unreadable

/-- Hands a complete value to what is open around it. -/
def deliver (j : Json) : List Frame → Pending
  | [] => .done j
  | .array items :: outer => .nextItem (j :: items) outer
  | .member members name :: outer => .nextMember ((name, j) :: members) outer

/-- The token that starts a value. -/
def startValue (outer : List Frame) : JsonToken → Option Pending
  | .openBrace => some (.firstName outer)
  | .openBracket => some (.firstItem outer)
  | .null => some (deliver .null outer)
  | .bool b => some (deliver (.bool b) outer)
  | .number n => some (deliver (ofNumber n) outer)
  | .string (some s) => some (deliver (.string s) outer)
  | .string none => some (deliver .unreadable outer)
  | _ => none

/-- One token of the text. -/
def readToken (p : Pending) (t : JsonToken) : Option Pending :=
  match p, t with
  | .value outer, t => startValue outer t
  | .firstItem outer, .closeBracket => some (deliver (.array []) outer)
  | .firstItem outer, t => startValue (.array [] :: outer) t
  | .nextItem done outer, .comma => some (.value (.array done :: outer))
  | .nextItem done outer, .closeBracket => some (deliver (.array done.reverse) outer)
  | .firstName outer, .closeBrace => some (deliver (.object []) outer)
  | .firstName outer, .string name => some (.colon [] name outer)
  | .name done outer, .string name => some (.colon done name outer)
  | .colon done name outer, .colon => some (.value (.member done name :: outer))
  | .nextMember done outer, .comma => some (.name done outer)
  | .nextMember done outer, .closeBrace => some (deliver (ofMembers done.reverse) outer)
  | _, _ => none

/-- A row of tokens. -/
def readTokens (p : Pending) : List JsonToken → Option Pending
  | [] => some p
  | t :: rest =>
    match readToken p t with
    | none => none
    | some p => readTokens p rest

/-- The value that a row of tokens spells. -/
def ofTokens? (tokens : List JsonToken) : Option Json :=
  match readTokens (.value []) tokens with
  | some (.done j) => some j
  | _ => none

/-- The value of a JSON text. -/
def parse? (text : String) : Option Json :=
  (JsonToken.scan text).bind ofTokens?

end Json

end Lowering
