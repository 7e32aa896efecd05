import Lowering.Proofs.Json.Record
import Lowering.Tree.Reader

/-!
# Shapes of values

What the values in the text of a tree stand for: nodes and other records, lists of them, words and names. A record has
fields, and which fields a node has is up to its tag. What is read from the members of an object is a matter of these
fields alone.

* `RecordShape`, `Shape` — what a value stands for; `Shape.decode` reads it.
* `Tag.fields`, `RecordShape.fields` — the fields of a record, each with its shape and its default.
* `RecordShape.decode_congr`, `RecordShape.decode_eq_none` — a record is read from its fields, and needs all of them.
-/

namespace Lowering

open Json

-- ---------------------------------------------------------------------------
-- Shapes
-- ---------------------------------------------------------------------------

/-- What an object with named fields stands for. -/
inductive RecordShape where
  | node
  | span
  | typedName
  /-- A guarded part of a conditional. -/
  | branch
  /-- A guarded part of a switch. -/
  | case
  | scientific
deriving DecidableEq

/-- What a value stands for. -/
inductive Shape where
  | record (r : RecordShape)
  | form
  | word
  | text
  | truth
  | tag
  | visibility
  | mutability
  | nullable (s : Shape)
  | list (s : Shape)

namespace RecordShape

/-- What is read from an object. -/
@[reducible]
def Value : RecordShape → Type
  | .node => Node
  | .span => Span
  | .typedName => TypedName
  | .branch | .case => Arm Node
  | .scientific => NumberForm

/-- Reads a record with at most the given number of nodes on any way down. -/
def decode (levels : Nat) : (r : RecordShape) → Json → Option r.Value
  | .node => Node.ofJson? levels
  | .span => Span.ofJson?
  | .typedName => TypedName.ofJson?
  | .branch => Arm.ofJson? "cond" (Node.ofJson? levels)
  | .case => Arm.ofJson? "value" (Node.ofJson? levels)
  | .scientific => fun j => NumberForm.ofJson? (.object [("scientific", j)])

end RecordShape

namespace Shape

/-- What is read from a value. -/
@[reducible]
def Value : Shape → Type
  | .record r => r.Value
  | .form => NumberForm
  | .word => Nat
  | .text => String
  | .truth => Bool
  | .tag => Tag
  | .visibility => Visibility
  | .mutability => Mutability
  | .nullable s => Option s.Value
  | .list s => List s.Value

/-- Reads a value with at most the given number of nodes on any way down. -/
def decode (levels : Nat) : (s : Shape) → Json → Option s.Value
  | .record r => r.decode levels
  | .form => NumberForm.ofJson?
  | .word => word?
  | .text => string?
  | .truth => bool?
  | .tag => fun j => j.string?.bind Tag.ofName?
  | .visibility => Visibility.ofJson?
  | .mutability => Mutability.ofJson?
  | .nullable s => Json.nullable (s.decode levels)
  | .list s => list? (s.decode levels)

end Shape

-- ---------------------------------------------------------------------------
-- Fields
-- ---------------------------------------------------------------------------

/-- A field of a record: its name, what it stands for, and how it would be written if it may be left out. -/
structure Field where
  name : String
  shape : Shape
  default : Option Json := none

namespace Field

/-- A field that may be left out, or be null. -/
def optional (name : String) (shape : Shape) : Field :=
  ⟨name, .nullable shape, some .null⟩

/-- A field of several values, which may be left out if there are none. -/
def several (name : String) (shape : Shape) : Field :=
  ⟨name, .list shape, some (.array [])⟩

/-- Reads the field from the members of an object. What is left out is read as if it were written. -/
def read (levels : Nat) (f : Field) (members : Members) : Option f.shape.Value :=
  match members.once f.name with
  | some (some j) => f.shape.decode levels j
  | some none => f.default.bind (f.shape.decode levels)
  | none => none

variable (levels : Nat) (name : String) (members : Members)

theorem read_required (shape : Shape) :
    read levels ⟨name, shape, none⟩ members = members.required name (shape.decode levels) := by
  unfold read Members.required
  split <;> simp_all

/-- A field that may be left out stands for its default then. -/
theorem read_withDefault {f : Field} {j : Json} {value : f.shape.Value} (hDefault : f.default = some j)
    (hValue : f.shape.decode levels j = some value) :
    f.read levels members = members.withDefault f.name value (f.shape.decode levels) := by
  unfold read Members.withDefault
  rcases members.once f.name with _ | _ | i
  · rfl
  · simp only [hDefault, Option.bind_some, hValue]
  · rfl

theorem read_optional (shape : Shape) :
    read levels (.optional name shape) members = members.optional name (shape.decode levels) := by
  refine (read_withDefault levels members rfl rfl).trans ?_
  unfold Members.withDefault Members.optional
  rcases hOnce : members.once name with _ | _ | i <;> simp only [optional, hOnce]
  rfl

theorem read_several (shape : Shape) :
    read levels (.several name shape) members = members.withDefault name [] (list? (shape.decode levels)) :=
  read_withDefault levels members rfl rfl

theorem read_visibility :
    read levels ⟨name, .visibility, some (.string "local")⟩ members =
      members.withDefault name .scoped Visibility.ofJson? :=
  read_withDefault levels members rfl rfl

theorem read_mutability :
    read levels ⟨name, .mutability, some (.string "var")⟩ members =
      members.withDefault name .mutable Mutability.ofJson? :=
  read_withDefault levels members rfl rfl

end Field

/-- The fields of a node with the given tag, apart from its tag and its span. -/
def Tag.fields : Tag → List Field
  | .number => [⟨"form", .form, none⟩, .optional "suffix" .text]
  | .string => [⟨"value", .text, none⟩]
  | .boolean => [⟨"value", .truth, none⟩]
  | .nil | .varargs | .breakLoop | .continueLoop => []
  | .id | .label => [⟨"name", .text, none⟩]
  | .paren => [⟨"expr", .record .node, none⟩]
  | .dotIndex => [⟨"expr", .record .node, none⟩, ⟨"name", .text, none⟩]
  | .arrayIndex => [⟨"expr", .record .node, none⟩, ⟨"index", .record .node, none⟩]
  | .call => [⟨"callee", .record .node, none⟩, .several "args" (.record .node)]
  | .unaryOp => [⟨"op", .text, none⟩, ⟨"expr", .record .node, none⟩]
  | .binaryOp => [⟨"op", .text, none⟩, ⟨"lhs", .record .node, none⟩, ⟨"rhs", .record .node, none⟩]
  | .ternaryOp =>
    [⟨"op", .text, none⟩, ⟨"first", .record .node, none⟩, ⟨"second", .record .node, none⟩,
      ⟨"third", .record .node, none⟩]
  | .block => [.several "statements" (.record .node)]
  | .ret => [.several "values" (.record .node)]
  | .cond => [⟨"branches", .list (.record .branch), none⟩, .optional "else_block" (.record .node)]
  | .switch =>
    [⟨"value", .record .node, none⟩, .several "cases" (.record .case), .optional "default" (.record .node)]
  | .scoped => [⟨"block", .record .node, none⟩]
  | .whileLoop | .repeatLoop => [⟨"cond", .record .node, none⟩, ⟨"block", .record .node, none⟩]
  | .forNum =>
    [⟨"var", .record .typedName, none⟩, ⟨"begin", .record .node, none⟩, .optional "comparator" .text,
      ⟨"end", .record .node, none⟩, .optional "step" (.record .node), ⟨"block", .record .node, none⟩]
  | .forIn =>
    [⟨"vars", .list (.record .typedName), none⟩, ⟨"exprs", .list (.record .node), none⟩,
      ⟨"block", .record .node, none⟩]
  | .goto => [⟨"label", .text, none⟩]
  | .varDecl =>
    [⟨"scope", .visibility, some (.string "local")⟩, ⟨"mutability", .mutability, some (.string "var")⟩,
      ⟨"vars", .list (.record .typedName), none⟩, .several "values" (.record .node)]
  | .assign => [⟨"targets", .list (.record .node), none⟩, ⟨"values", .list (.record .node), none⟩]
  | .funcDef =>
    [⟨"scope", .visibility, some (.string "local")⟩, ⟨"name", .text, none⟩,
      .several "params" (.record .typedName), .several "returns" .text, ⟨"block", .record .node, none⟩]

namespace Node

section Members

variable {levels : Nat} {members members' : Members} {tag : Tag} {span : Span}

/-- A node is read from the fields of its tag. -/
theorem ofMembers?_congr (h : ∀ f ∈ tag.fields, f.read levels members = f.read levels members') :
    ofMembers? (ofJson? levels) members tag span = ofMembers? (ofJson? levels) members' tag span := by
  cases tag <;>
    simp only [Tag.fields, List.forall_mem_cons, Field.read_required, Field.read_optional, Field.read_several,
      Field.read_visibility, Field.read_mutability, Shape.decode, RecordShape.decode] at h <;>
    simp only [ofMembers?, h]

/-- All of these fields have to be read. -/
theorem read_of_ofMembers? {n : Node} (h : ofMembers? (ofJson? levels) members tag span = some n) :
    ∀ f ∈ tag.fields, (f.read levels members).isSome = true := by
  cases tag <;>
    simp only [ofMembers?, Option.bind_eq_bind, Option.bind_eq_some_iff] at h <;>
    simp only [Tag.fields, List.forall_mem_cons, Field.read_required, Field.read_optional, Field.read_several,
      Field.read_visibility, Field.read_mutability, Shape.decode, RecordShape.decode] <;>
    simp only [Field.optional, Field.several, Shape.Value, RecordShape.Value, List.not_mem_nil, false_implies,
      implies_true, and_true] <;>
    grind

end Members

end Node

-- ---------------------------------------------------------------------------
-- Records
-- ---------------------------------------------------------------------------

/-- The fields of a record. Those of a node are up to the tag among its members. -/
def RecordShape.fields : RecordShape → Members → List Field
  | .node, members =>
    ⟨"tag", .tag, none⟩ :: ⟨"span", .record .span, none⟩
      :: (Field.read 0 ⟨"tag", .tag, none⟩ members).elim [] Tag.fields
  | .span, _ => [⟨"start", .word, none⟩, ⟨"end", .word, none⟩]
  | .typedName, _ => [⟨"name", .text, none⟩, .optional "ty" .text]
  | .branch, _ => [⟨"cond", .record .node, none⟩, ⟨"block", .record .node, none⟩]
  | .case, _ => [⟨"value", .record .node, none⟩, ⟨"block", .record .node, none⟩]
  | .scientific, _ => [⟨"mantissa", .text, none⟩, ⟨"exponent", .text, none⟩]

section Objects

variable (members : Members)

/-- Two fields of an object are its members of these names. -/
theorem fields?_pair (a b : String) :
    fields? [a, b] (.object members) = (members.once a).bind fun x => (members.once b).map fun y => [x, y] := by
  rw [fields?, List.mapM_cons, List.mapM_cons, List.mapM_nil]
  cases members.once a with
  | none => rfl
  | some x => cases members.once b <;> rfl

theorem Span.ofJson?_object :
    Span.ofJson? (.object members) = (do
      let start ← members.required "start" word?
      let stop ← members.required "end" word?
      return ⟨start, stop⟩) := by
  rw [Span.ofJson?, fields?_pair, Members.required, Members.required]
  rcases members.once "start" with _ | _ | start <;> rcases members.once "end" with _ | _ | stop <;>
    first | rfl | exact (Option.bind_fun_none _).symm

theorem TypedName.ofJson?_object :
    TypedName.ofJson? (.object members) = (do
      let name ← members.required "name" string?
      let type ← members.optional "ty" string?
      return ⟨name, type⟩) := by
  rw [TypedName.ofJson?, fields?_pair, Members.required, Members.optional]
  rcases members.once "name" with _ | _ | name <;> rcases members.once "ty" with _ | _ | type <;>
    first | rfl | exact (Option.bind_fun_none _).symm

theorem Arm.ofJson?_object (guardName : String) (node : Json → Option Node) :
    Arm.ofJson? guardName node (.object members) = (do
      let guard ← members.required guardName node
      let body ← members.required "block" node
      return ⟨guard, body⟩) := by
  rw [Arm.ofJson?, fields?_pair, Members.required, Members.required]
  rcases members.once guardName with _ | _ | guard <;> rcases members.once "block" with _ | _ | body <;>
    first | rfl | exact (Option.bind_fun_none _).symm

theorem NumberForm.ofJson?_scientific :
    NumberForm.ofJson? (.object [("scientific", .object members)]) = (do
      let mantissa ← members.required "mantissa" string?
      let exponent ← members.required "exponent" string?
      return .scientific mantissa exponent) := by
  show (fields? ["mantissa", "exponent"] (.object members)).bind _ = _
  rw [fields?_pair, Members.required, Members.required]
  rcases members.once "mantissa" with _ | _ | mantissa <;> rcases members.once "exponent" with _ | _ | exponent <;>
    first | rfl | exact (Option.bind_fun_none _).symm

/-- A form has one member. -/
theorem NumberForm.ofJson?_of_length_ne (h : members.length ≠ 1) : NumberForm.ofJson? (.object members) = none := by
  rcases members with _ | ⟨m, _ | ⟨m₂, rest⟩⟩
  · rfl
  · exact absurd rfl h
  · simp [NumberForm.ofJson?]

end Objects

namespace RecordShape

variable {r : RecordShape} {levels : Nat} {members members' : Members}

theorem ofJson?_object (levels : Nat) (members : Members) :
    Node.ofJson? (levels + 1) (.object members) = (do
      let tag ← Field.read 0 ⟨"tag", .tag, none⟩ members
      let span ← members.required "span" Span.ofJson?
      Node.ofMembers? (Node.ofJson? levels) members tag span) := by
  rw [Node.ofJson?, Field.read_required]
  rfl

theorem node_congr (h : ∀ f ∈ node.fields members, ∀ levels, f.read levels members = f.read levels members') :
    Node.ofJson? levels (.object members) = Node.ofJson? levels (.object members') := by
  cases levels with
  | zero => rfl
  | succ levels =>
    obtain ⟨hTag, hSpan, hFields⟩ := by simpa only [fields, List.forall_mem_cons] using h
    have hSpan : members.required "span" Span.ofJson? = members'.required "span" Span.ofJson? := by
      have hRead := hSpan 0
      rwa [Field.read_required, Field.read_required] at hRead
    rw [ofJson?_object, ofJson?_object, ← hTag 0, hSpan]
    cases hTagOf : Field.read 0 ⟨"tag", .tag, none⟩ members with
    | none => rfl
    | some tag =>
      rw [hTagOf] at hFields
      cases members'.required "span" Span.ofJson? with
      | none => rfl
      | some span => exact Node.ofMembers?_congr fun f hf => hFields f hf levels

theorem isSome_read_of_node {n : Node} (h : Node.ofJson? levels (.object members) = some n) :
    ∀ f ∈ node.fields members, ∃ levels, (f.read levels members).isSome = true := by
  cases levels with
  | zero => simp [Node.ofJson?] at h
  | succ levels =>
    rw [ofJson?_object] at h
    obtain ⟨tag, hTag, h⟩ := Option.bind_eq_some_iff.mp h
    obtain ⟨span, hSpan, h⟩ := Option.bind_eq_some_iff.mp h
    rw [fields, hTag, List.forall_mem_cons, List.forall_mem_cons]
    refine ⟨⟨0, by rw [hTag]; rfl⟩, ⟨0, ?_⟩, fun f hf => ⟨levels, Node.read_of_ofMembers? h f hf⟩⟩
    rw [Field.read_required]
    exact Option.isSome_of_eq_some hSpan

/-- A record other than a node has two fields, and is read from them. -/
theorem exists_decode_object (hr : r ≠ .node) :
    ∃ (f g : Field) (make : f.shape.Value → g.shape.Value → r.Value), (∀ members, r.fields members = [f, g]) ∧
      ∀ levels members, r.decode levels (.object members) =
        (f.read levels members).bind fun a => (g.read levels members).bind fun b => some (make a b) := by
  cases r with
  | node => exact absurd rfl hr
  | span =>
    refine ⟨_, _, Span.mk, fun _ => rfl, fun levels members => ?_⟩
    rw [Field.read_required, Field.read_required]
    exact Span.ofJson?_object members
  | typedName =>
    refine ⟨_, _, TypedName.mk, fun _ => rfl, fun levels members => ?_⟩
    rw [Field.read_required, Field.read_optional]
    exact TypedName.ofJson?_object members
  | branch =>
    refine ⟨_, _, Arm.mk, fun _ => rfl, fun levels members => ?_⟩
    rw [Field.read_required, Field.read_required]
    exact Arm.ofJson?_object members "cond" _
  | case =>
    refine ⟨_, _, Arm.mk, fun _ => rfl, fun levels members => ?_⟩
    rw [Field.read_required, Field.read_required]
    exact Arm.ofJson?_object members "value" _
  | scientific =>
    refine ⟨_, _, NumberForm.scientific, fun _ => rfl, fun levels members => ?_⟩
    rw [Field.read_required, Field.read_required]
    exact NumberForm.ofJson?_scientific members

/-- A record is read from its fields. -/
theorem decode_congr (h : ∀ f ∈ r.fields members, ∀ levels, f.read levels members = f.read levels members') :
    r.decode levels (.object members) = r.decode levels (.object members') := by
  by_cases hr : r = .node
  · subst hr
    exact node_congr h
  · obtain ⟨f, g, make, hFields, hDecode⟩ := exists_decode_object hr
    rw [hFields, List.forall_mem_cons, List.forall_mem_cons] at h
    rw [hDecode, hDecode, h.1 levels, h.2.1 levels]

/-- All fields of a record have to be read. -/
theorem isSome_read {value : r.Value} (h : r.decode levels (.object members) = some value) :
    ∀ f ∈ r.fields members, ∃ levels, (f.read levels members).isSome = true := by
  by_cases hr : r = .node
  · subst hr
    exact isSome_read_of_node h
  · obtain ⟨f, g, make, hFields, hDecode⟩ := exists_decode_object hr
    rw [hDecode] at h
    obtain ⟨a, hFirst, h⟩ := Option.bind_eq_some_iff.mp h
    obtain ⟨b, hSecond, -⟩ := Option.bind_eq_some_iff.mp h
    rw [hFields, List.forall_mem_cons, List.forall_mem_cons]
    exact ⟨⟨levels, Option.isSome_of_eq_some hFirst⟩, ⟨levels, Option.isSome_of_eq_some hSecond⟩, by simp⟩

theorem decode_eq_none {f : Field} (hf : f ∈ r.fields members) (h : ∀ levels, f.read levels members = none) :
    r.decode levels (.object members) = none := by
  rw [Option.eq_none_iff_forall_ne_some]
  intro value hValue
  obtain ⟨levels, hSome⟩ := isSome_read hValue f hf
  rw [h levels] at hSome
  cases hSome

end RecordShape

end Lowering
