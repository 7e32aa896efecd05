import Lowering.Emit.Assignment
import Lowering.Proofs.Target.BinaryNumeral
import Lowering.Proofs.Tree.Census
import Lowering.Target.Operator
import Lowering.Target.TypeTable

/-!
# Trees that can be written in C

A tree can be written if its root is a block, if each of its nodes is sound by itself, and if no two strings and no two
print calls start at the same place. Nothing here runs anything: the conditions speak of the nodes, the vocabulary and
the type table only. What a node needs to know of its surroundings is the number of blocks and functions around it.

* `Node.Sound` — what is asked of one node.
* `Lowerable` — what is asked of a tree.
-/

namespace Lowering

-- ---------------------------------------------------------------------------
-- Words
-- ---------------------------------------------------------------------------

/-- The type table that every program starts with has this name. -/
def KnownType (name : String) : Prop :=
  (Target.primitiveTypes.find? name).isSome

instance (name : String) : Decidable (KnownType name) :=
  inferInstanceAs (Decidable (_ = true))

/-- The name is a unary operator and can be written in C. -/
def WritableUnary (op : String) : Prop :=
  ∃ known, UnaryOp.ofName? op = some known ∧ known.spelling?.isSome

/-- The name is a binary operator and can be written in C. -/
def WritableBinary (op : String) : Prop :=
  ∃ known, BinaryOp.ofName? op = some known ∧ known.spelling?.isSome

/-- The name is a ternary operator and can be written in C. -/
def WritableTernary (op : String) : Prop :=
  ∃ known, TernaryOp.ofName? op = some known ∧ known.spelling?.isSome

namespace NumberForm

/-- Only binary digits can be wrong: they must be bits, with a value of 64 bits. -/
def Spellable : NumberForm → Prop
  | .binary digits => ∃ bits, Target.IsBinaryNumeral digits.toList bits ∧ Target.bitsValue bits < UInt64.size
  | _ => True

end NumberForm

namespace Node

-- ---------------------------------------------------------------------------
-- Literals, names, print calls
-- ---------------------------------------------------------------------------

/-- A number, a truth value or a string, in any number of parentheses. -/
def isLiteral : Node → Bool
  | .number .. | .boolean .. | .string .. => true
  | .paren inner _ => isLiteral inner
  | _ => false

/-- A name stands in an expression, reached through expressions only. -/
inductive Mentions (name : String) : Node → Prop where
  | here (span : Span) : Mentions name (.id name span)
  | deeper {e c : Node} : e.tag.isExpression → c ∈ e.children → Mentions name c → Mentions name e

/-- The arguments of a call whose callee is the name `print`. -/
def printArgs? : Node → Option (List Node)
  | .call (.id name _) args _ => if name = "print" then some args else none
  | _ => none

/-- Where a string starts. -/
def stringStart? : Node → Option Nat
  | .string _ span => some span.start
  | _ => none

/-- Where a print call starts. -/
def printStart? (n : Node) : Option Nat :=
  n.printArgs?.map (fun _ => n.span.start)

-- ---------------------------------------------------------------------------
-- Soundness
-- ---------------------------------------------------------------------------

/-- A variable has a type of the table, or no type and a literal to show it. -/
def Typeable (var : TypedName) (value : Option Node) : Prop :=
  match var.type with
  | some type => KnownType type
  | none => ∃ v, value = some v ∧ v.isLiteral

/-- Every variable of a declaration can be given a type, by itself or by the value at its place. -/
def AllTypeable (vars : List TypedName) (values : List Node) : Prop :=
  ∀ i (h : i < vars.length), Typeable vars[i] values[i]?

/-- Of the pairs of targets and values, no later one mentions the variable that an earlier one stores to. -/
def SequentialStores (targets values : List Node) : Prop :=
  (targets.zip values).Pairwise (fun earlier later =>
    ∀ root, Assignment.root? earlier.1 = some root → ¬ Mentions root later.1 ∧ ¬ Mentions root later.2)

/-- What is asked of a node by itself, inside `depth` blocks and functions. -/
def Sound (depth : Nat) : Node → Prop
  | .number form suffix _ => form.Spellable ∧ ∀ s, suffix = some s → (Numeric.ofSuffix? s).isSome
  | .unaryOp op _ _ => WritableUnary op
  | .binaryOp op _ _ _ => WritableBinary op
  | .ternaryOp op _ _ _ _ => WritableTernary op
  | .varargs _ => False
  | .forIn .. => False
  | .call callee args span =>
    ∀ as, printArgs? (.call callee args span) = some as → ∀ a ∈ as, a.tag = .string ∨ a.tag = .number
  | .cond branches _ _ => branches ≠ []
  | .forNum var first comparator _ _ _ _ => (∀ c, comparator = some c → c = "le") ∧ Typeable var (some first)
  | .ret values _ => values.length ≤ 1
  | .varDecl visibility mutability vars values _ =>
    visibility = .scoped ∧ mutability ≠ .immutable ∧ (values = [] ∨ values.length = vars.length) ∧
      AllTypeable vars values
  | .assign targets values _ => targets.length = values.length ∧ SequentialStores targets values
  | .funcDef visibility _ params returns _ _ =>
    visibility = .scoped ∧ depth = 1 ∧ returns.length ≤ 1 ∧ (∀ type ∈ returns, KnownType type) ∧
      ∀ p ∈ params, ∃ type, p.type = some type ∧ KnownType type
  | _ => True

end Node

/-- What is asked of a tree. -/
structure Lowerable (root : Node) : Prop where
  /-- Only a block is a program. -/
  block : root.tag = .block
  /-- Every node is sound where it stands. -/
  sound : ∀ e ∈ root.census 0, e.2.Sound e.1
  /-- No two strings start at the same place. -/
  strings : ((root.census 0).filterMap (fun e => e.2.stringStart?)).Nodup
  /-- No two print calls start at the same place. -/
  prints : ((root.census 0).filterMap (fun e => e.2.printStart?)).Nodup

-- ---------------------------------------------------------------------------
-- The checks of the generator
-- ---------------------------------------------------------------------------

namespace NumberForm

/-- A number form has a spelling exactly if it is spellable. -/
theorem spelling_ok_iff (form : NumberForm) : (∃ text, form.spelling = .ok text) ↔ form.Spellable := by
  cases form with
  | binary digits =>
    simp only [spelling, Spellable]
    cases hValue : Target.binaryValue? digits.toList with
    | none =>
      simp only [reduceCtorEq, exists_false, false_iff]
      rintro ⟨bits, hNumeral, hLt⟩
      have hSome := Target.binaryValue?_eq_some_iff.mpr ⟨bits, hNumeral, rfl, hLt⟩
      rw [hValue] at hSome
      exact absurd hSome (by simp)
    | some v =>
      obtain ⟨bits, hNumeral, hBits, hLt⟩ := Target.binaryValue?_eq_some_iff.mp hValue
      simp only [Except.ok.injEq, exists_eq', true_iff]
      exact ⟨bits, hNumeral, by omega⟩
  | integer | decimal | scientific | hex => simp [spelling, Spellable]

end NumberForm

namespace Node

theorem anyReads_iff {name : String} {ns : List Node} :
    Assignment.anyReads name ns = true ↔ ∃ n ∈ ns, Assignment.reads name n = true := by
  induction ns with
  | nil => simp [Assignment.anyReads]
  | cons n rest ih => simp [Assignment.anyReads, ih]

/-- An expression mentions a name if the name stands directly there or below. -/
theorem mentions_iff {name : String} {n : Node} :
    Mentions name n ↔
      (∃ span, n = .id name span) ∨ n.tag.isExpression = true ∧ ∃ c ∈ n.children, Mentions name c := by
  constructor
  · intro h
    cases h with
    | here span => exact Or.inl ⟨span, rfl⟩
    | deeper hExpr hChild hBelow => exact Or.inr ⟨hExpr, _, hChild, hBelow⟩
  · rintro (⟨span, rfl⟩ | ⟨hExpr, c, hChild, hBelow⟩)
    · exact .here span
    · exact .deeper hExpr hChild hBelow

/-- The search for a name finds exactly the names that are mentioned. -/
theorem reads_iff_mentions {name : String} (n : Node) : Assignment.reads name n = true ↔ Mentions name n := by
  induction n using childInduction with
  | step n ih =>
    rw [mentions_iff]
    cases n <;>
      simp only [children, List.mem_cons, List.not_mem_nil, or_false, forall_eq_or_imp, forall_eq] at ih <;>
      simp only [Assignment.reads, children, tag, Tag.isExpression, Bool.or_eq_true, anyReads_iff, id.injEq,
        exists_and_left, exists_eq', and_true, List.mem_cons, List.not_mem_nil, or_false, exists_eq_or_imp,
        exists_eq_left, reduceCtorEq, exists_false, false_or, true_and, false_and, decide_eq_true_eq,
        Bool.false_eq_true, and_false]
    case paren | dotIndex | unaryOp => exact ih
    case arrayIndex | binaryOp => rw [ih.1, ih.2]
    case ternaryOp => rw [ih.1, ih.2.1, ih.2.2]; tauto
    case call callee args span =>
      rw [ih.1]
      constructor
      · rintro (h | ⟨a, ha, h⟩)
        · exact Or.inl h
        · exact Or.inr ⟨a, ha, (ih.2 a ha).mp h⟩
      · rintro (h | ⟨a, ha, h⟩)
        · exact Or.inl h
        · exact Or.inr ⟨a, ha, (ih.2 a ha).mpr h⟩

/-- Of two lists of the same length, the pairs have all members. -/
theorem forall_mem_zip {α β : Type} {as : List α} {bs : List β} {P : α → Prop} {Q : β → Prop}
    (h : as.length = bs.length) : (∀ e ∈ as.zip bs, P e.1 ∧ Q e.2) ↔ (∀ a ∈ as, P a) ∧ ∀ b ∈ bs, Q b := by
  induction as generalizing bs with
  | nil =>
    obtain rfl := List.length_eq_zero_iff.mp h.symm
    simp
  | cons a as ih =>
    cases bs with
    | nil => simp at h
    | cons b bs =>
      simp only [List.zip_cons_cons, List.forall_mem_cons, ih (Nat.succ.inj h)]
      tauto

/-- The check on stores finds nothing exactly if they can be made one after the other. -/
theorem readAfterStore?_eq_none_iff {targets values : List Node} (h : targets.length = values.length) :
    Assignment.readAfterStore? targets values = none ↔ SequentialStores targets values := by
  induction targets generalizing values with
  | nil => simp [Assignment.readAfterStore?, SequentialStores]
  | cons t ts ih =>
    cases values with
    | nil => simp at h
    | cons v vs =>
      have hLength : ts.length = vs.length := Nat.succ.inj h
      have hUnread : ∀ root, Assignment.anyReads root (ts ++ vs) = false ↔
          ∀ e ∈ ts.zip vs, ¬ Mentions root e.1 ∧ ¬ Mentions root e.2 := by
        intro root
        rw [forall_mem_zip (P := fun n => ¬ Mentions root n) (Q := fun n => ¬ Mentions root n) hLength,
          ← List.forall_mem_append, ← Bool.not_eq_true, anyReads_iff]
        simp only [reads_iff_mentions, not_exists, not_and]
      have hFilter : (Assignment.root? t).filter (fun root => Assignment.anyReads root (ts ++ vs)) = none ↔
          ∀ root, Assignment.root? t = some root → ∀ e ∈ ts.zip vs, ¬ Mentions root e.1 ∧ ¬ Mentions root e.2 := by
        rw [Option.filter_eq_none_iff]
        simp only [Bool.not_eq_true, hUnread]
      rw [SequentialStores, List.zip_cons_cons, List.pairwise_cons, ← SequentialStores, ← ih hLength,
        Assignment.readAfterStore?]
      have hSwap : (∀ e ∈ ts.zip vs, ∀ root, Assignment.root? t = some root → ¬ Mentions root e.1 ∧ ¬ Mentions root e.2) ↔
          ∀ root, Assignment.root? t = some root → ∀ e ∈ ts.zip vs, ¬ Mentions root e.1 ∧ ¬ Mentions root e.2 :=
        ⟨fun h root hRoot e he => h e he root hRoot, fun h e he root hRoot => h root hRoot e he⟩
      rw [hSwap, ← hFilter]
      cases (Assignment.root? t).filter (fun root => Assignment.anyReads root (ts ++ vs)) <;> simp

end Node

end Lowering
