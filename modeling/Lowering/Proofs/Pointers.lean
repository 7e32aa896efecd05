import Lowering.Main
import Lowering.Proofs.Simultaneous

/-!
# Stores through pointers

An assignment stands for all of its stores at once and is written as one store after the other. It is refused if a variable
that is stored is mentioned further on, but a target such as `*p` stores to no variable, and nothing looks at what is read
through `p` after it. The two ways still agree as long as nothing further on reads through the same pointer, and not in
general beyond that.

What expressions are worth is left open again, and so is what is stored. All that is known of a value is what it is computed
from, and of a store where it goes. Pointers that are not the same expression are taken to point to different things.

* `Node.ReadsStored` — a value or an index reads through a pointer that has been stored through.
* `MemoryEvaluation.inOrder`, `MemoryEvaluation.atOnce` — the stores, each computed after those before it or all at first.
* `pointer_stores_in_order_iff` — when they are the same; `generate_reads_stored_pointee` is a program where they are not.
-/

namespace Lowering

open Gen

-- ---------------------------------------------------------------------------
-- Pointers
-- ---------------------------------------------------------------------------

namespace Node

/-- The pointer that a node reads through, if it reads through one. -/
def pointer? : Node → Option Node
  | .unaryOp op operand _ => if op = "deref" then some operand else none
  | _ => none

/-- The pointers that are read through in a tree. -/
def pointers (n : Node) : List Node :=
  n.nodes.filterMap pointer?

mutual

/-- An expression without parentheses and spans. -/
def core : Node → Node
  | .number form suffix _ => .number form suffix ⟨0, 0⟩
  | .string value _ => .string value ⟨0, 0⟩
  | .boolean value _ => .boolean value ⟨0, 0⟩
  | .nil _ => .nil ⟨0, 0⟩
  | .varargs _ => .varargs ⟨0, 0⟩
  | .id name _ => .id name ⟨0, 0⟩
  | .paren inner _ => core inner
  | .dotIndex base field _ => .dotIndex (core base) field ⟨0, 0⟩
  | .arrayIndex base index _ => .arrayIndex (core base) (core index) ⟨0, 0⟩
  | .call callee args _ => .call (core callee) (cores args) ⟨0, 0⟩
  | .unaryOp op operand _ => .unaryOp op (core operand) ⟨0, 0⟩
  | .binaryOp op lhs rhs _ => .binaryOp op (core lhs) (core rhs) ⟨0, 0⟩
  | .ternaryOp op first second third _ => .ternaryOp op (core first) (core second) (core third) ⟨0, 0⟩
  | n => n

/-- Expressions without parentheses and spans. -/
def cores : List Node → List Node
  | [] => []
  | n :: rest => core n :: cores rest

end

theorem cores_eq (ns : List Node) : cores ns = ns.map core := by
  induction ns with
  | nil => rfl
  | cons n rest ih => rw [cores, ih, List.map_cons]

/-- The tree is an expression, and so is all that is below it. -/
def IsExpression (n : Node) : Prop :=
  ∀ m ∈ n.nodes, m.tag.isExpression = true

theorem isExpression_iff {n : Node} :
    n.IsExpression ↔ n.tag.isExpression = true ∧ ∀ c ∈ n.children, c.IsExpression :=
  forall_mem_nodes

theorem IsExpression.mono {m n : Node} (h : n.IsExpression) (hm : m ∈ n.nodes) : m.IsExpression :=
  fun k hk => h k (nodes_subset hm hk)

theorem vars_eq (n : Node) : n.vars = n.name?.toList ++ n.children.flatMap vars := by
  rw [vars, nodes_eq, List.filterMap_cons, List.filterMap_flatMap]
  cases n.name? <;> rfl

theorem pointers_eq (n : Node) : n.pointers = n.pointer?.toList ++ n.children.flatMap pointers := by
  rw [pointers, nodes_eq, List.filterMap_cons, List.filterMap_flatMap]
  cases n.pointer? <;> rfl

theorem pointers_deref_id (name : String) (span span' : Span) :
    pointers (.unaryOp "deref" (.id name span) span') = [.id name span] := by
  rw [pointers_eq]
  simp [children, pointer?, pointers_eq (.id name span)]

/-- A pointer is right below the node that reads through it. -/
theorem children_of_pointer? {n p : Node} (h : n.pointer? = some p) : n.children = [p] := by
  cases n <;> simp only [pointer?, reduceCtorEq] at h
  split at h
  · rw [children, Option.some.inj h]
  · cases h

theorem pointers_subset {m n : Node} (h : m ∈ n.nodes) : m.pointers ⊆ n.pointers :=
  List.filterMap_subset _ (nodes_subset h)

theorem vars_subset {m n : Node} (h : m ∈ n.nodes) : m.vars ⊆ n.vars :=
  List.filterMap_subset _ (nodes_subset h)

/-- The core of an expression has the same variables. -/
theorem vars_core {n : Node} (h : n.IsExpression) : n.core.vars = n.vars := by
  induction n using childInduction with
  | step n ih =>
    obtain ⟨hTag, hBelow⟩ := isExpression_iff.mp h
    have hChild : ∀ c ∈ n.children, c.core.vars = c.vars := fun c hc => ih c hc (hBelow c hc)
    cases n <;> simp only [tag, Tag.isExpression, Bool.false_eq_true] at hTag <;>
      simp only [children, List.forall_mem_cons] at hChild
    case paren inner span => rw [core, hChild.1, vars_eq (.paren inner span)]; simp [name?, children]
    case call callee args span =>
      have hArgs : args.flatMap (fun a => a.core.vars) = args.flatMap vars := List.flatMap_congr hChild.2
      rw [core, vars_eq, vars_eq (.call callee args span)]
      simp [children, name?, cores_eq, List.flatMap_map, hChild.1, hArgs]
    all_goals rw [core, vars_eq, vars_eq (_ : Node)]; simp [children, name?, hChild]

/-- The core of an expression reads through the cores of its pointers. -/
theorem pointers_core {n : Node} (h : n.IsExpression) : n.core.pointers = n.pointers.map core := by
  induction n using childInduction with
  | step n ih =>
    obtain ⟨hTag, hBelow⟩ := isExpression_iff.mp h
    have hChild : ∀ c ∈ n.children, c.core.pointers = c.pointers.map core := fun c hc => ih c hc (hBelow c hc)
    cases n <;> simp only [tag, Tag.isExpression, Bool.false_eq_true] at hTag <;>
      simp only [children, List.forall_mem_cons] at hChild
    case paren inner span => rw [core, hChild.1, pointers_eq (.paren inner span)]; simp [pointer?, children]
    case call callee args span =>
      have hArgs : args.flatMap (fun a => a.core.pointers) = args.flatMap (fun a => a.pointers.map core) :=
        List.flatMap_congr hChild.2
      rw [core, pointers_eq, pointers_eq (.call callee args span)]
      simp [children, pointer?, cores_eq, List.flatMap_map, List.map_flatMap, hChild.1, hArgs]
    case unaryOp op operand span =>
      rw [core, pointers_eq, pointers_eq (.unaryOp op operand span)]
      by_cases hOp : op = "deref" <;> simp [children, pointer?, hOp, hChild]
    all_goals rw [core, pointers_eq, pointers_eq (_ : Node)]; simp [children, pointer?, hChild]

-- ---------------------------------------------------------------------------
-- Targets
-- ---------------------------------------------------------------------------

/-- The pointer that a store to a target goes through, if it goes through one. -/
def storedPointer? : Node → Option Node
  | .paren inner _ => storedPointer? inner
  | .dotIndex base _ _ => storedPointer? base
  | .arrayIndex base _ _ => storedPointer? base
  | .unaryOp op operand span => pointer? (.unaryOp op operand span)
  | _ => none

/-- What has to be computed to know where a target is: pointers, indices, and all of a target that is no path. The thing
that is stored to is not read. -/
def computed : Node → List Node
  | .id _ _ => []
  | .paren inner _ => computed inner
  | .dotIndex base _ _ => computed base
  | .arrayIndex base index _ => computed base ++ [index]
  | .unaryOp op operand span => [(pointer? (.unaryOp op operand span)).getD (.unaryOp op operand span)]
  | n => [n]

theorem mem_nodes_of_mem_computed {t e : Node} (h : e ∈ t.computed) : e ∈ t.nodes := by
  induction t using childInduction with
  | step t ih =>
    have hBelow : ∀ c ∈ t.children, e ∈ c.computed → e ∈ t.nodes := fun c hc he =>
      nodes_subset (mem_nodes_of_mem_children hc) (ih c hc he)
    cases t
    case paren inner span => exact hBelow inner (by simp [children]) h
    case dotIndex base field span => exact hBelow base (by simp [children]) h
    case arrayIndex base index span =>
      rcases List.mem_append.mp h with h | h
      · exact hBelow base (by simp [children]) h
      · rw [List.mem_singleton] at h
        exact mem_nodes_of_mem_children (by simp [h, children])
    case unaryOp op operand span =>
      rw [computed, List.mem_singleton] at h
      cases hPointer : pointer? (.unaryOp op operand span) with
      | none =>
        rw [h, hPointer]
        exact self_mem_nodes _
      | some p =>
        rw [h, hPointer, Option.getD_some]
        exact mem_nodes_of_mem_children (by simp [children_of_pointer? hPointer])
    case id name span => simp [computed] at h
    all_goals
      obtain rfl := List.mem_singleton.mp h
      exact self_mem_nodes _

theorem mem_pointers_of_storedPointer? {t p : Node} (h : t.storedPointer? = some p) : p ∈ t.pointers := by
  induction t using childInduction with
  | step t ih =>
    have hBelow : ∀ c ∈ t.children, c.storedPointer? = some p → p ∈ t.pointers := fun c hc hp =>
      pointers_subset (mem_nodes_of_mem_children hc) (ih c hc hp)
    cases t <;> simp only [storedPointer?, reduceCtorEq] at h
    case paren inner span => exact hBelow inner (by simp [children]) h
    case dotIndex base field span => exact hBelow base (by simp [children]) h
    case arrayIndex base index span => exact hBelow base (by simp [children]) h
    case unaryOp op operand span => exact List.mem_filterMap.mpr ⟨_, self_mem_nodes _, h⟩

/-- What has to be computed for an assignment of one value to one target. -/
def inputs (a : Node × Node) : List Node :=
  a.1.computed ++ [a.2]

/-- A later assignment reads through the pointer that an earlier one stores through. -/
def ReadsStored (a b : Node × Node) : Prop :=
  ∃ p, a.1.storedPointer? = some p ∧ ∃ e ∈ inputs b, ∃ q ∈ e.pointers, q.core = p.core

end Node

-- ---------------------------------------------------------------------------
-- Memory
-- ---------------------------------------------------------------------------

/-- The variables of a program, and what its pointers point to. -/
structure Memory (V : Type) where
  vars : String → V
  cells : V → V

/-- What a store goes to, or to a part of which. A value that is stored nowhere is temporary. -/
inductive Holder (V : Type) where
  | variable (name : String)
  | cell (address : V)
  | temporary (value : V)

/-- Where a store goes: a holder, and the way from there, last step first. -/
structure Destination (V : Type) where
  holder : Holder V
  path : List (Access V) := []

/-- The destination that a further step leads to. -/
def Destination.step {V : Type} (l : Destination V) (a : Access V) : Destination V :=
  { l with path := a :: l.path }

/-- What expressions are worth and what stores do. The value of an expression depends only on the variables in it and on
what it reads through pointers, and parentheses do not change it; a store changes only what it goes to. -/
structure MemoryEvaluation (V : Type) where
  value : Memory V → Node → V
  store : Destination V → V → Memory V → Memory V
  value_congr : ∀ {s s' : Memory V} {e : Node}, e.IsExpression → (∀ name ∈ e.vars, s.vars name = s'.vars name) →
    (∀ p ∈ e.pointers, s.cells (value s p) = s'.cells (value s p)) → value s e = value s' e
  value_core : ∀ (s : Memory V) {e e' : Node}, e.IsExpression → e'.IsExpression → e.core = e'.core →
    value s e = value s e'
  vars_store : ∀ (l : Destination V) (v : V) (s : Memory V) {name : String}, l.holder ≠ .variable name →
    (store l v s).vars name = s.vars name
  cells_store : ∀ (l : Destination V) (v : V) (s : Memory V) {address : V}, l.holder ≠ .cell address →
    (store l v s).cells address = s.cells address

namespace MemoryEvaluation

variable {V : Type} (E : MemoryEvaluation V)

/-- Where a target is. -/
def destination (s : Memory V) : Node → Destination V
  | .id name _ => ⟨.variable name, []⟩
  | .paren inner _ => destination s inner
  | .dotIndex base field _ => (destination s base).step (.field field)
  | .arrayIndex base index _ => (destination s base).step (.element (E.value s index))
  | .unaryOp op operand span =>
    ⟨(Node.pointer? (.unaryOp op operand span)).elim (.temporary (E.value s (.unaryOp op operand span)))
      fun p => .cell (E.value s p), []⟩
  | n => ⟨.temporary (E.value s n), []⟩

/-- The store that an assignment of one value to one target makes, computed in a memory. -/
def stored (s : Memory V) (a : Node × Node) : Destination V × V :=
  (E.destination s a.1, E.value s a.2)

/-- The stores of several assignments, each computed in the memory that the one before it leaves. -/
def inOrder : List (Node × Node) → Memory V → List (Destination V × V)
  | [], _ => []
  | a :: as, s => E.stored s a :: inOrder as (E.store (E.stored s a).1 (E.stored s a).2 s)

/-- The stores of several assignments, all computed in the first memory. -/
def atOnce (as : List (Node × Node)) (s : Memory V) : List (Destination V × V) :=
  as.map (E.stored s)

/-- Pointers that are not the same expression point to different things. -/
def Separates (s : Memory V) (ns : List Node) : Prop :=
  ∀ p ∈ ns.flatMap Node.pointers, ∀ q ∈ ns.flatMap Node.pointers, p.core ≠ q.core → E.value s p ≠ E.value s q

-- ---------------------------------------------------------------------------
-- Destinations
-- ---------------------------------------------------------------------------

/-- A store to a variable is one that is looked at. -/
theorem root?_of_holder {s : Memory V} {t : Node} {name : String} (h : (E.destination s t).holder = .variable name) :
    Assignment.root? t = some name := by
  induction t using Node.childInduction with
  | step t ih =>
    cases t
    case id => exact congrArg some (Holder.variable.inj h)
    case paren inner span => exact ih inner (by simp [Node.children]) h
    case dotIndex base field span => exact ih base (by simp [Node.children]) h
    case arrayIndex base index span => exact ih base (by simp [Node.children]) h
    case unaryOp op operand span =>
      rw [destination] at h
      cases hPointer : Node.pointer? (.unaryOp op operand span) <;> simp [hPointer] at h
    all_goals cases h

/-- A store to a cell goes through a pointer. -/
theorem storedPointer?_of_holder {s : Memory V} {t : Node} {address : V}
    (h : (E.destination s t).holder = .cell address) : ∃ p, t.storedPointer? = some p ∧ E.value s p = address := by
  induction t using Node.childInduction with
  | step t ih =>
    cases t
    case paren inner span => exact ih inner (by simp [Node.children]) h
    case dotIndex base field span => exact ih base (by simp [Node.children]) h
    case arrayIndex base index span => exact ih base (by simp [Node.children]) h
    case unaryOp op operand span =>
      rw [destination] at h
      cases hPointer : Node.pointer? (.unaryOp op operand span) with
      | none => simp [hPointer] at h
      | some p =>
        rw [hPointer] at h
        exact ⟨p, hPointer, Holder.cell.inj h⟩
    all_goals cases h

theorem holder_of_storedPointer? (s : Memory V) {t p : Node} (h : t.storedPointer? = some p) :
    (E.destination s t).holder = .cell (E.value s p) := by
  induction t using Node.childInduction with
  | step t ih =>
    cases t <;> simp only [Node.storedPointer?, reduceCtorEq] at h
    case paren inner span => exact ih inner (by simp [Node.children]) h
    case dotIndex base field span => exact ih base (by simp [Node.children]) h
    case arrayIndex base index span => exact ih base (by simp [Node.children]) h
    case unaryOp op operand span => rw [destination, h]; rfl

/-- Where a target is, is known exactly if all is known that has to be computed for it. -/
theorem destination_eq_iff {s s' : Memory V} {t : Node} :
    E.destination s t = E.destination s' t ↔ ∀ e ∈ t.computed, E.value s e = E.value s' e := by
  have hStep : ∀ {l l' : Destination V} {a a' : Access V}, l.step a = l'.step a' ↔ l = l' ∧ a = a' := by
    rintro ⟨holder, path⟩ ⟨holder', path'⟩ a a'
    simp only [Destination.step, Destination.mk.injEq, List.cons.injEq]
    tauto
  induction t using Node.childInduction with
  | step t ih =>
    cases t
    case paren inner span => exact ih inner (by simp [Node.children])
    case dotIndex base field span =>
      exact (hStep.trans (and_congr_left' (ih base (by simp [Node.children])))).trans (by simp [Node.computed])
    case arrayIndex base index span =>
      exact (hStep.trans (and_congr_left' (ih base (by simp [Node.children])))).trans
        (by simp [Node.computed, or_imp, forall_and])
    case unaryOp op operand span =>
      rw [destination, destination, Node.computed]
      cases Node.pointer? (.unaryOp op operand span) <;> simp
    all_goals simp [destination, Node.computed]

theorem stored_eq_iff {s s' : Memory V} {a : Node × Node} :
    E.stored s a = E.stored s' a ↔ ∀ e ∈ Node.inputs a, E.value s e = E.value s' e := by
  rw [stored, stored, Prod.mk.injEq, destination_eq_iff, Node.inputs, List.forall_mem_append, List.forall_mem_singleton]

-- ---------------------------------------------------------------------------
-- Reading nothing that was stored
-- ---------------------------------------------------------------------------

/-- Two memories have the same at all places that an expression reads. -/
def Agrees (s s' : Memory V) (e : Node) : Prop :=
  (∀ name ∈ e.vars, s.vars name = s'.vars name) ∧ ∀ p ∈ e.pointers, s.cells (E.value s p) = s'.cells (E.value s p)

/-- A store is not seen by an assignment further on: not if it goes to a variable, because such assignments are refused, and
not if it goes through a pointer, because other pointers point elsewhere. -/
theorem Agrees.store {E : MemoryEvaluation V} {s s' : Memory V} {a b : Node × Node} {ns : List Node} {e : Node}
    (h : E.Agrees s s' e) (he : e ∈ Node.inputs b) (hExpression : b.1.IsExpression ∧ b.2.IsExpression)
    (hSeparates : E.Separates s ns) (ha : a.1 ∈ ns) (hb : b.1 ∈ ns ∧ b.2 ∈ ns)
    (hVariable : ∀ root, Assignment.root? a.1 = some root → ¬ Node.Mentions root b.1 ∧ ¬ Node.Mentions root b.2)
    (hPointer : ¬ Node.ReadsStored a b) :
    E.Agrees s (E.store (E.stored s a).1 (E.stored s a).2 s') e := by
  have hMem : (e ∈ b.1.nodes ∨ e ∈ b.2.nodes) := by
    rcases List.mem_append.mp he with he | he
    · exact Or.inl (Node.mem_nodes_of_mem_computed he)
    · exact Or.inr (List.mem_singleton.mp he ▸ Node.self_mem_nodes _)
  refine ⟨fun name hName => ?_, fun q hq => ?_⟩
  · have hOther : (E.stored s a).1.holder ≠ .variable name := by
      intro hHolder
      obtain ⟨hTarget, hValue⟩ := hVariable name (E.root?_of_holder hHolder)
      rcases hMem with hMem | hMem
      · exact hTarget (Node.mentions_of_mem_vars hExpression.1 (Node.vars_subset hMem hName))
      · exact hValue (Node.mentions_of_mem_vars hExpression.2 (Node.vars_subset hMem hName))
    rw [E.vars_store _ _ _ hOther]
    exact h.1 name hName
  · have hOther : (E.stored s a).1.holder ≠ .cell (E.value s q) := by
      intro hHolder
      obtain ⟨p, hStored, hAddress⟩ := E.storedPointer?_of_holder hHolder
      have hp : p ∈ ns.flatMap Node.pointers :=
        List.mem_flatMap.mpr ⟨a.1, ha, Node.mem_pointers_of_storedPointer? hStored⟩
      have hqs : q ∈ ns.flatMap Node.pointers := by
        rcases hMem with hMem | hMem
        · exact List.mem_flatMap.mpr ⟨b.1, hb.1, Node.pointers_subset hMem hq⟩
        · exact List.mem_flatMap.mpr ⟨b.2, hb.2, Node.pointers_subset hMem hq⟩
      refine hSeparates p hp q hqs ?_ hAddress
      intro hSame
      exact hPointer ⟨p, hStored, e, he, q, hq, hSame.symm⟩
    rw [E.cells_store _ _ _ hOther]
    exact h.2 q hq

/-- Stores that are not seen further on can be made in order. The memory differs from the first one, but not where anything
is read. -/
theorem inOrder_eq_atOnce {as : List (Node × Node)} {ns : List Node} {s : Memory V} (hSeparates : E.Separates s ns)
    (hVariables : as.Pairwise fun a b => ∀ root, Assignment.root? a.1 = some root →
      ¬ Node.Mentions root b.1 ∧ ¬ Node.Mentions root b.2)
    (hPointers : as.Pairwise fun a b => ¬ Node.ReadsStored a b)
    (hExpression : ∀ a ∈ as, a.1.IsExpression ∧ a.2.IsExpression) (hMem : ∀ a ∈ as, a.1 ∈ ns ∧ a.2 ∈ ns)
    {s' : Memory V} (hAgrees : ∀ a ∈ as, ∀ e ∈ Node.inputs a, E.Agrees s s' e) :
    E.inOrder as s' = E.atOnce as s := by
  induction as generalizing s' with
  | nil => rfl
  | cons a as ih =>
    obtain ⟨hVariable, hVariables⟩ := List.pairwise_cons.mp hVariables
    obtain ⟨hPointer, hPointers⟩ := List.pairwise_cons.mp hPointers
    obtain ⟨hFirst, hExpression⟩ := List.forall_mem_cons.mp hExpression
    obtain ⟨ha, hMem⟩ := List.forall_mem_cons.mp hMem
    obtain ⟨hNow, hAgrees⟩ := List.forall_mem_cons.mp hAgrees
    have hSame : E.stored s' a = E.stored s a := by
      refine (E.stored_eq_iff.mpr fun e he => ?_).symm
      have hPart : e.IsExpression := by
        rcases List.mem_append.mp he with he | he
        · exact hFirst.1.mono (Node.mem_nodes_of_mem_computed he)
        · exact List.mem_singleton.mp he ▸ hFirst.2
      exact E.value_congr hPart (hNow e he).1 (hNow e he).2
    have hRest := ih hVariables hPointers hExpression hMem fun b hb e he =>
      (hAgrees b hb e he).store he (hExpression b hb) hSeparates ha.1 (hMem b hb) (hVariable b hb) (hPointer b hb)
    rw [inOrder, hSame, hRest]
    rfl

-- ---------------------------------------------------------------------------
-- Reading what was stored
-- ---------------------------------------------------------------------------

/-- Nothing that an expression reads has been stored to. -/
def Untouched (s : Memory (Option Node)) (e : Node) : Prop :=
  (∀ name ∈ e.vars, s.vars name = none) ∧ ∀ p ∈ e.pointers, s.cells (some p.core) = none

theorem untouched_iff {s : Memory (Option Node)} {e : Node} :
    Untouched s e ↔ (∀ name, e.name? = some name → s.vars name = none) ∧
      (∀ p, e.pointer? = some p → s.cells (some p.core) = none) ∧ ∀ c ∈ e.children, Untouched s c := by
  simp only [Untouched, Node.vars_eq e, Node.pointers_eq e, List.forall_mem_append, List.forall_mem_flatMap,
    Option.mem_toList]
  constructor
  · rintro ⟨⟨hName, hVars⟩, hPointer, hPointers⟩
    exact ⟨hName, hPointer, fun c hc => ⟨hVars c hc, hPointers c hc⟩⟩
  · rintro ⟨hName, hPointer, hBelow⟩
    exact ⟨⟨hName, fun c hc => (hBelow c hc).1⟩, hPointer, fun c hc => (hBelow c hc).2⟩

theorem Untouched.mono {s : Memory (Option Node)} {m e : Node} (h : Untouched s e) (hm : m ∈ e.nodes) : Untouched s m :=
  ⟨fun name hName => h.1 name (Node.vars_subset hm hName), fun p hp => h.2 p (Node.pointers_subset hm hp)⟩

open Classical in
/-- An expression is worth itself, or nothing if it reads what has been stored to. -/
noncomputable def traced (s : Memory (Option Node)) (e : Node) : Option Node :=
  if Untouched s e then some e.core else none

/-- Agreement where things are read, as far as it is known from one memory, goes both ways. -/
theorem untouched_congr {s s' : Memory (Option Node)} {e : Node} (hVars : ∀ name ∈ e.vars, s.vars name = s'.vars name)
    (hCells : ∀ p ∈ e.pointers, s.cells (traced s p) = s'.cells (traced s p)) : Untouched s e ↔ Untouched s' e := by
  induction e using Node.childInduction with
  | step e ih =>
    have hBelow : ∀ c ∈ e.children, (Untouched s c ↔ Untouched s' c) := fun c hc =>
      ih c hc (fun name hName => hVars name (Node.mem_vars_of_child hc hName))
        fun p hp => hCells p (Node.pointers_subset (Node.mem_nodes_of_mem_children hc) hp)
    have hName : ∀ name, e.name? = some name → s.vars name = s'.vars name := fun name h =>
      hVars name (List.mem_filterMap.mpr ⟨e, e.self_mem_nodes, h⟩)
    have hCell : ∀ p, e.pointer? = some p → Untouched s p → s.cells (some p.core) = s'.cells (some p.core) := by
      intro p h hUntouched
      have hSame := hCells p (List.mem_filterMap.mpr ⟨e, e.self_mem_nodes, h⟩)
      rwa [traced, if_pos hUntouched] at hSame
    -- The pointer itself is below the node, so it is worth itself in both memories or in none.
    have hPointer : ∀ p, e.pointer? = some p → p ∈ e.children := fun p h => by
      rw [Node.children_of_pointer? h]
      exact List.mem_singleton_self p
    rw [untouched_iff, untouched_iff]
    constructor
    · rintro ⟨hOwn, hThrough, hChildren⟩
      refine ⟨fun name h => hName name h ▸ hOwn name h, fun p h => ?_, fun c hc => (hBelow c hc).mp (hChildren c hc)⟩
      rw [← hCell p h (hChildren p (hPointer p h))]
      exact hThrough p h
    · rintro ⟨hOwn, hThrough, hChildren⟩
      have hChildren' : ∀ c ∈ e.children, Untouched s c := fun c hc => (hBelow c hc).mpr (hChildren c hc)
      refine ⟨fun name h => (hName name h).trans (hOwn name h), fun p h => ?_, hChildren'⟩
      rw [hCell p h (hChildren' p (hPointer p h))]
      exact hThrough p h

open Classical in
/-- The evaluation that tells what has been stored to: a store leaves a mark, and what reads a mark is worth nothing. -/
noncomputable def tracing : MemoryEvaluation (Option Node) where
  value := traced
  store l _ s :=
    match l.holder with
    | .variable stored => { s with vars := fun name => if name = stored then some (.nil ⟨0, 0⟩) else s.vars name }
    | .cell stored => { s with cells := fun address => if address = stored then some (.nil ⟨0, 0⟩) else s.cells address }
    | .temporary _ => s
  value_congr _ hVars hCells := by
    unfold traced
    rw [untouched_congr hVars hCells]
  value_core s e e' he he' hCore := by
    have hCells : ∀ ps : List Node, (∀ p ∈ ps, s.cells (some p.core) = none) ↔
        ∀ c ∈ ps.map Node.core, s.cells (some c) = none := fun ps => by simp
    have hSame : Untouched s e ↔ Untouched s e' := by
      rw [Untouched, Untouched, ← Node.vars_core he, ← Node.vars_core he', hCells, hCells, ← Node.pointers_core he,
        ← Node.pointers_core he', hCore]
    unfold traced
    rw [hSame, hCore]
  vars_store l v s name h := by
    split
    · rename_i stored hHolder
      refine if_neg ?_
      rintro rfl
      exact h hHolder
    · rfl
    · rfl
  cells_store l v s address h := by
    split
    · rfl
    · rename_i stored hHolder
      refine if_neg ?_
      rintro rfl
      exact h hHolder
    · rfl

/-- The memory in which nothing has been stored to. -/
def unmarked : Memory (Option Node) :=
  ⟨fun _ => none, fun _ => none⟩

theorem traced_unmarked (e : Node) : traced unmarked e = some e.core :=
  if_pos ⟨fun _ _ => rfl, fun _ _ => rfl⟩

/-- What is worth the same as at first reads no mark. -/
theorem untouched_of_traced {s : Memory (Option Node)} {e : Node} (h : traced s e = traced unmarked e) : Untouched s e := by
  by_contra hTouched
  rw [traced, if_neg hTouched, traced_unmarked] at h
  cases h

/-- Marks are there to stay. -/
theorem cells_of_tracing_store {s : Memory (Option Node)} {l : Destination (Option Node)} {v address : Option Node}
    (h : (tracing.store l v s).cells address = none) : s.cells address = none ∧ l.holder ≠ .cell address := by
  rcases l with ⟨name | stored | value, path⟩
  · exact ⟨h, by simp⟩
  · by_cases hAddress : address = stored
    · exact absurd h (by simp [tracing, hAddress])
    · exact ⟨by simpa [tracing, hAddress] using h, by simpa using Ne.symm hAddress⟩
  · exact ⟨h, by simp⟩

/-- Where the stores in order are those that were computed at first, nothing has read a mark. -/
theorem not_readsStored_of_inOrder {as : List (Node × Node)} {s : Memory (Option Node)}
    (h : tracing.inOrder as s = tracing.atOnce as unmarked) :
    as.Pairwise (fun a b => ¬ Node.ReadsStored a b) ∧
      ∀ a ∈ as, ∀ e ∈ Node.inputs a, ∀ q ∈ e.pointers, s.cells (some q.core) = none := by
  induction as generalizing s with
  | nil => exact ⟨.nil, by simp⟩
  | cons a as ih =>
    obtain ⟨hFirst, hRest⟩ := List.cons.inj h
    obtain ⟨hPairwise, hUnmarked⟩ := ih hRest
    have hInputs := tracing.stored_eq_iff.mp hFirst
    refine ⟨List.pairwise_cons.mpr ⟨fun b hb => ?_, hPairwise⟩,
      List.forall_mem_cons.mpr ⟨fun e he => ?_, fun b hb e he q hq => ?_⟩⟩
    · rintro ⟨p, hStored, e, he, q, hq, hSame⟩
      have hHolder := tracing.holder_of_storedPointer? unmarked hStored
      rw [show tracing.value = traced from rfl, traced_unmarked, ← hSame] at hHolder
      refine (cells_of_tracing_store (hUnmarked b hb e he q hq)).2 ?_
      rw [hFirst]
      exact hHolder
    · exact (untouched_of_traced (hInputs e he)).2
    · exact (cells_of_tracing_store (hUnmarked b hb e he q hq)).1

theorem separates_unmarked (ns : List Node) : tracing.Separates unmarked ns := by
  intro p _ q _ hNe
  rw [show tracing.value = traced from rfl, traced_unmarked, traced_unmarked]
  exact fun h => hNe (Option.some.inj h)

end MemoryEvaluation

-- ---------------------------------------------------------------------------
-- Assignments
-- ---------------------------------------------------------------------------

/-- The parts of an assignment that is accepted. -/
theorem Assignment.sequential_of_emit_visitAll {r : Registry} {targets values : List Node} {span : Span} {d e : Draft}
    (h : Assignment.emit (visitAll r targets) (visitAll r values) span d = .ok () e) :
    targets.length = values.length ∧ Node.SequentialStores targets values := by
  have hNodes : ∀ ns : List Node, (visitAll r ns).map Part.node = ns := by
    intro ns
    rw [Node.visitAll_eq_map, List.map_map]
    exact List.map_id ns
  obtain ⟨hLength, hSequential⟩ := Assignment.sequential_of_emit h
  rw [hNodes, hNodes] at hSequential
  refine ⟨?_, hSequential⟩
  rw [← hNodes targets, ← hNodes values, List.length_map, List.length_map, hLength]

/-- **Stores through pointers.** An assignment that is accepted makes the same stores in order as at once, whatever
expressions are worth, exactly if no value and no index reads through a pointer that an earlier target stores through. What
is written in the standard way is one line for each store, in either case. -/
theorem pointer_stores_in_order_iff {r : Registry} {targets values : List Node} {span : Span} {d e : Draft}
    (hEmit : Assignment.emit (visitAll r targets) (visitAll r values) span d = .ok () e)
    (hTargets : ∀ t ∈ targets, t.IsExpression) (hValues : ∀ v ∈ values, v.IsExpression) :
    ((∀ {V : Type} (E : MemoryEvaluation V) (s : Memory V), E.Separates s (targets ++ values) →
      E.inOrder (targets.zip values) s = E.atOnce (targets.zip values) s) ↔
        (targets.zip values).Pairwise fun a b => ¬ Node.ReadsStored a b) ∧
    (r = .standard → d.types = Target.primitiveTypes →
      e.page = d.page.write (String.join ((Node.storeTexts d.place targets values).map fun text =>
        Page.indentation d.page.level d.page.width ++ text ++ "\n"))) := by
  obtain ⟨hLength, hSequential⟩ := Assignment.sequential_of_emit_visitAll hEmit
  refine ⟨⟨fun h => ?_, fun hPointers V E s hSeparates => ?_⟩, ?_⟩
  · exact (MemoryEvaluation.not_readsStored_of_inOrder
      (h MemoryEvaluation.tracing MemoryEvaluation.unmarked (MemoryEvaluation.separates_unmarked _))).1
  · refine E.inOrder_eq_atOnce hSeparates hSequential hPointers ((Node.forall_mem_zip hLength).mpr ⟨hTargets, hValues⟩)
      ?_ fun _ _ _ _ => ⟨fun _ _ => rfl, fun _ _ => rfl⟩
    exact (Node.forall_mem_zip hLength).mpr
      ⟨fun t ht => List.mem_append_left _ ht, fun v hv => List.mem_append_right _ hv⟩
  · rintro rfl hTypes
    exact Assignment.page_of_emit hTypes hEmit

/-- The value that is stored second is read through another pointer. -/
theorem pointer_stores_in_order_iff_other :
    let targets : List Node := [.unaryOp "deref" (.id "p" ⟨1, 2⟩) ⟨0, 2⟩, .id "b" ⟨4, 5⟩]
    let values : List Node := [.number (.integer "1") none ⟨8, 9⟩, .unaryOp "deref" (.id "q" ⟨12, 13⟩) ⟨11, 13⟩]
    (∃ e, Assignment.emit (visitAll .standard targets) (visitAll .standard values) ⟨0, 13⟩ (Draft.blank 4) = .ok () e ∧
      e.page = (Draft.blank 4).page.write (String.join ((Node.storeTexts (Draft.blank 4).place targets values).map
        fun text => Page.indentation 0 4 ++ text ++ "\n"))) ∧
      (∀ t ∈ targets, t.IsExpression) ∧ (∀ v ∈ values, v.IsExpression) ∧
      ∀ {V : Type} (E : MemoryEvaluation V) (s : Memory V), E.Separates s (targets ++ values) →
        E.inOrder (targets.zip values) s = E.atOnce (targets.zip values) s := by
  intro targets values
  obtain ⟨e, hEmit⟩ : ∃ e,
      Assignment.emit (visitAll .standard targets) (visitAll .standard values) ⟨0, 13⟩ (Draft.blank 4) = .ok () e := ⟨_, rfl⟩
  have hTargets : ∀ t ∈ targets, t.IsExpression := by
    refine List.forall_mem_cons.mpr ⟨?_, List.forall_mem_singleton.mpr ?_⟩ <;>
      simp [Node.IsExpression, Node.nodes_eq, Node.children, Node.tag, Tag.isExpression]
  have hValues : ∀ v ∈ values, v.IsExpression := by
    refine List.forall_mem_cons.mpr ⟨?_, List.forall_mem_singleton.mpr ?_⟩ <;>
      simp [Node.IsExpression, Node.nodes_eq, Node.children, Node.tag, Tag.isExpression]
  have hUnread : (targets.zip values).Pairwise fun a b => ¬ Node.ReadsStored a b := by
    refine List.pairwise_pair.mpr ?_
    rintro ⟨p, hStored, e, he, q, hq, hSame⟩
    obtain rfl := Option.some.inj hStored
    obtain rfl := List.mem_singleton.mp he
    rw [Node.pointers_deref_id, List.mem_singleton] at hq
    rw [hq] at hSame
    exact absurd hSame (by simp [Node.core])
  obtain ⟨hIff, hPage⟩ := pointer_stores_in_order_iff hEmit hTargets hValues
  exact ⟨⟨e, hEmit, hPage rfl rfl⟩, hTargets, hValues, hIff.mpr hUnread⟩

/-- The value that is stored second is read through the pointer that the first store goes through. Nothing refuses this, and
the store is seen. -/
theorem generate_reads_stored_pointee :
    let targets : List Node := [.unaryOp "deref" (.id "p" ⟨1, 2⟩) ⟨0, 2⟩, .id "b" ⟨4, 5⟩]
    let values : List Node := [.number (.integer "1") none ⟨8, 9⟩, .unaryOp "deref" (.id "p" ⟨12, 13⟩) ⟨11, 13⟩]
    (generate ⟨4, .standard⟩ (.block [.assign targets values ⟨0, 13⟩] ⟨0, 13⟩)).result =
      .ok "#include <stdint.h>\n\nint main() \x7b\n    *p = 1;\n    b = *p;\n    return 0;\n\x7d\n" ∧
    ∃ (E : MemoryEvaluation (Option Node)) (s : Memory (Option Node)), E.Separates s (targets ++ values) ∧
      E.inOrder (targets.zip values) s ≠ E.atOnce (targets.zip values) s := by
  intro targets values
  refine ⟨by decide +kernel, MemoryEvaluation.tracing, MemoryEvaluation.unmarked,
    MemoryEvaluation.separates_unmarked _, fun hSame => ?_⟩
  have hUnread := List.pairwise_pair.mp (MemoryEvaluation.not_readsStored_of_inOrder hSame).1
  refine hUnread ⟨.id "p" ⟨1, 2⟩, rfl, _, List.mem_singleton_self _, .id "p" ⟨12, 13⟩, ?_, rfl⟩
  rw [Node.pointers_deref_id]
  exact List.mem_singleton_self _

end Lowering
