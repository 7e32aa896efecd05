import Mathlib.Data.List.Basic
import Mathlib.Tactic.Common
import Lowering.Tree.Node

/-!
# The nodes of a tree

A tree is a list of nodes once every node is put down with what it needs to know about its surroundings. The census of
a tree does that: all nodes, a node before the nodes below it and otherwise in the order in which they are written, each
with the number of blocks and functions around it.

* `Node.childInduction` — what holds of a node as soon as it holds of the nodes below it holds of every node. All
  inductions over trees in this library go through it.
* `Node.census_eq` — the census of a node is the node itself and then the census of each node below it.
-/

namespace Lowering

namespace Node

-- ---------------------------------------------------------------------------
-- Induction
-- ---------------------------------------------------------------------------

theorem mem_alternate {α : Type} {a : α} : ∀ {as bs : List α}, a ∈ alternate as bs ↔ a ∈ as ∨ a ∈ bs
  | [], bs => by simp [alternate]
  | x :: as, [] => by simp [alternate]
  | x :: as, y :: bs => by
    simp only [alternate, List.mem_cons, @mem_alternate _ a as bs]
    tauto

/-- Guards and bodies are smaller than the list of arms they stand in. -/
theorem sizeOf_lt_of_mem_arms {c : Node} {arms : List (Arm Node)}
    (h : c ∈ arms.flatMap (fun a => [a.guard, a.body])) : sizeOf c < sizeOf arms := by
  obtain ⟨⟨guard, body⟩, hArm, hc⟩ := List.mem_flatMap.mp h
  have hLt := List.sizeOf_lt_of_mem hArm
  simp only [Arm.mk.sizeOf_spec] at hLt
  simp only [List.mem_cons, List.not_mem_nil, or_false] at hc
  rcases hc with rfl | rfl <;> omega

theorem sizeOf_lt_of_mem_option {c : Node} {o : Option Node} (h : c ∈ o.toList) : sizeOf c < sizeOf o := by
  cases o with
  | none => simp at h
  | some n =>
    rw [Option.toList_some, List.mem_singleton] at h
    subst h
    simp

/-- A node is larger than the nodes directly below it. -/
theorem sizeOf_lt_of_mem_children {c n : Node} (h : c ∈ n.children) : sizeOf c < sizeOf n := by
  cases n <;>
    simp only [children, List.mem_cons, List.mem_append, mem_alternate, List.not_mem_nil, or_false, or_assoc] at h
  case call =>
    rcases h with rfl | h
    · simp; omega
    · have hLt := List.sizeOf_lt_of_mem h
      simp; omega
  case cond =>
    rcases h with h | h
    · have hLt := sizeOf_lt_of_mem_arms h
      simp; omega
    · have hLt := sizeOf_lt_of_mem_option h
      simp; omega
  case switch =>
    rcases h with rfl | h | h
    · simp; omega
    · have hLt := sizeOf_lt_of_mem_arms h
      simp; omega
    · have hLt := sizeOf_lt_of_mem_option h
      simp; omega
  case forNum =>
    rcases h with rfl | rfl | h | rfl
    · simp; omega
    · simp; omega
    · have hLt := sizeOf_lt_of_mem_option h
      simp; omega
    · simp; omega
  case forIn =>
    rcases h with h | rfl
    · have hLt := List.sizeOf_lt_of_mem h
      simp; omega
    · simp; omega
  case assign =>
    rcases h with h | h
    all_goals
      have hLt := List.sizeOf_lt_of_mem h
      simp; omega
  case block | ret | varDecl =>
    all_goals
      have hLt := List.sizeOf_lt_of_mem h
      simp; omega
  case ternaryOp => rcases h with rfl | rfl | rfl <;> simp <;> omega
  case arrayIndex | binaryOp | whileLoop | repeatLoop =>
    all_goals rcases h with rfl | rfl <;> simp <;> omega
  all_goals
    subst h
    simp; omega

/-- What holds of a node as soon as it holds of the nodes directly below it holds of every node. -/
@[elab_as_elim]
theorem childInduction {motive : Node → Prop} (step : ∀ n, (∀ c ∈ n.children, motive c) → motive n) (n : Node) :
    motive n :=
  step n (fun c hc =>
    have := sizeOf_lt_of_mem_children hc
    childInduction step c)
termination_by sizeOf n

/-- What holds of the nodes below a list of arms holds of guards and bodies. -/
theorem forall_mem_arms {P : Node → Prop} {arms : List (Arm Node)} :
    (∀ c ∈ arms.flatMap (fun a => [a.guard, a.body]), P c) ↔ ∀ a ∈ arms, P a.guard ∧ P a.body := by
  simp only [List.mem_flatMap, List.mem_cons, List.not_mem_nil, or_false]
  constructor
  · intro h a ha
    exact ⟨h _ ⟨a, ha, Or.inl rfl⟩, h _ ⟨a, ha, Or.inr rfl⟩⟩
  · rintro h c ⟨a, ha, rfl | rfl⟩
    · exact (h a ha).1
    · exact (h a ha).2

theorem forall_mem_arms_append {P : Node → Prop} {arms : List (Arm Node)} {otherwise : Option Node} :
    (∀ c ∈ arms.flatMap (fun a => [a.guard, a.body]) ++ otherwise.toList, P c) ↔
      (∀ a ∈ arms, P a.guard ∧ P a.body) ∧ ∀ c ∈ otherwise, P c := by
  rw [List.forall_mem_append, forall_mem_arms]
  simp

-- ---------------------------------------------------------------------------
-- The census
-- ---------------------------------------------------------------------------

/-- The number of scopes that a node puts around the nodes below it: one for a block or a function. -/
def ownScopes : Node → Nat
  | .block .. | .funcDef .. => 1
  | _ => 0

/-- All nodes of a tree that stands inside `depth` blocks and functions, each with the number of those around it. -/
def census (depth : Nat) (n : Node) : List (Nat × Node) :=
  (depth, n) :: n.children.attach.flatMap (fun c => census (depth + n.ownScopes) c.1)
termination_by sizeOf n
decreasing_by exact sizeOf_lt_of_mem_children c.2

theorem census_eq (depth : Nat) (n : Node) :
    n.census depth = (depth, n) :: n.children.flatMap (census (depth + n.ownScopes)) := by
  rw [census]
  congr 1
  rw [List.flatMap_subtype (g := census (depth + n.ownScopes)) (fun _ _ => rfl), List.unattach_attach]

/-- A property of all nodes of a tree, node by node. -/
theorem forall_mem_census {P : Nat × Node → Prop} {depth : Nat} {n : Node} :
    (∀ e ∈ n.census depth, P e) ↔
      P (depth, n) ∧ ∀ c ∈ n.children, ∀ e ∈ c.census (depth + n.ownScopes), P e := by
  rw [census_eq]
  simp only [List.mem_cons, List.mem_flatMap, forall_eq_or_imp]
  constructor
  · rintro ⟨hSelf, hBelow⟩
    exact ⟨hSelf, fun c hc e he => hBelow e ⟨c, hc, he⟩⟩
  · rintro ⟨hSelf, hBelow⟩
    exact ⟨hSelf, fun e ⟨c, hc, he⟩ => hBelow c hc e he⟩

/-- All nodes of a tree, a node before the nodes below it. -/
def nodes (n : Node) : List Node :=
  (n.census 0).map Prod.snd

/-- Which nodes a tree has does not depend on what is around it. -/
theorem map_snd_census (depth : Nat) (n : Node) : (n.census depth).map Prod.snd = n.nodes := by
  have hSame : ∀ depth depth', (n.census depth).map Prod.snd = (n.census depth').map Prod.snd := by
    induction n using childInduction with
    | step n ih =>
      intro depth depth'
      rw [census_eq, census_eq, List.map_cons, List.map_cons, List.map_flatMap, List.map_flatMap]
      congr 1
      exact List.flatMap_congr fun c hc => ih c hc _ _
  exact hSame depth 0

theorem nodes_eq (n : Node) : n.nodes = n :: n.children.flatMap nodes := by
  rw [nodes, census_eq, List.map_cons, List.map_flatMap]
  congr 1
  exact List.flatMap_congr fun c _ => map_snd_census _ c

theorem forall_mem_nodes {P : Node → Prop} {n : Node} :
    (∀ m ∈ n.nodes, P m) ↔ P n ∧ ∀ c ∈ n.children, ∀ m ∈ c.nodes, P m := by
  rw [nodes_eq]
  simp only [List.mem_cons, List.mem_flatMap, forall_eq_or_imp]
  constructor
  · rintro ⟨hSelf, hBelow⟩
    exact ⟨hSelf, fun c hc m hm => hBelow m ⟨c, hc, hm⟩⟩
  · rintro ⟨hSelf, hBelow⟩
    exact ⟨hSelf, fun m ⟨c, hc, hm⟩ => hBelow c hc m hm⟩

/-- The nodes below a node of a tree are nodes of the tree. -/
theorem nodes_subset {m n : Node} (h : m ∈ n.nodes) : m.nodes ⊆ n.nodes := by
  induction n using childInduction with
  | step n ih =>
    rw [nodes_eq, List.mem_cons] at h
    rcases h with rfl | h
    · exact List.Subset.refl _
    · obtain ⟨c, hc, hm⟩ := List.mem_flatMap.mp h
      intro k hk
      rw [nodes_eq]
      exact List.mem_cons_of_mem _ (List.mem_flatMap.mpr ⟨c, hc, ih c hc hm hk⟩)

theorem self_mem_nodes (n : Node) : n ∈ n.nodes := by
  rw [nodes_eq]
  exact List.mem_cons_self ..

theorem mem_nodes_of_mem_children {c n : Node} (h : c ∈ n.children) : c ∈ n.nodes := by
  rw [nodes_eq]
  exact List.mem_cons_of_mem _ (List.mem_flatMap.mpr ⟨c, h, self_mem_nodes c⟩)

end Node

end Lowering
