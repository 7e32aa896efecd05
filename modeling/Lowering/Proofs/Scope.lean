import Lowering.Proofs.Simultaneous
import Lowering.Proofs.Target.Escape

/-!
# The scope of declared variables

In C a variable is in scope from the end of its declarator: its own initializer sees it, before it has a value, and so do the
initializers after it. A declaration of the source language computes its values outside of the scope it opens. It is written
as one C declaration after the other, and the two agree exactly as long as no variable is mentioned in its own initializer
or in a later one. Nothing checks this.

What expressions are worth is left open, and so are the value of a variable that has none yet, and conversion to a type.

* `Interpretation.Declares` — declarators one after the other, by the rule of C.
* `Interpretation.enclosing` — what each of them would declare if it were the only one, under a name that is new.
* `declarations_in_enclosing_scope_iff` — when the two agree; `generate_reads_declared_variable` is a program where they do
  not.
-/

namespace Lowering

open Target

-- ---------------------------------------------------------------------------
-- Declarators
-- ---------------------------------------------------------------------------

/-- What a C variable starts with. -/
inductive Initializer where
  | zero
  | expression (n : Node)
  /-- The value of another C variable. -/
  | copy (name : String)

namespace Initializer

/-- The initializer as it is written. -/
def text (p : Place) : Initializer → String
  | .zero => "\x7b0\x7d"
  | .expression n => n.textAt p
  | .copy name => name

/-- The C names that are mentioned. -/
def mentioned : Initializer → List String
  | .zero => []
  | .expression n => n.vars.map escapeName
  | .copy name => [name]

/-- A tree that is written for its value is an expression, down to its leaves. -/
def IsPure : Initializer → Prop
  | .expression n => ∀ m ∈ n.nodes, m.tag.isExpression = true
  | _ => True

end Initializer

/-- A C variable with its type and what it starts with. -/
structure Declarator where
  type : String
  name : String
  initial : Initializer

namespace Declarator

/-- The declarator as it is written, after the type. -/
def text (p : Place) (d : Declarator) : String :=
  d.name ++ " = " ++ d.initial.text p

/-- A declared name is mentioned in an initializer. -/
def Captures (d d' : Declarator) : Prop :=
  d.name ∈ d'.initial.mentioned

instance (d d' : Declarator) : Decidable (d.Captures d') :=
  inferInstanceAs (Decidable (_ ∈ _))

/-- No name is mentioned in its own initializer or in a later one. -/
def Uncaptured (ds : List Declarator) : Prop :=
  (∀ d ∈ ds, ¬ d.Captures d) ∧ ds.Pairwise fun d d' => ¬ d.Captures d'

instance (ds : List Declarator) : Decidable (Uncaptured ds) :=
  inferInstanceAs (Decidable (_ ∧ _))

theorem uncaptured_cons {d : Declarator} {ds : List Declarator} :
    Uncaptured (d :: ds) ↔ (∀ d' ∈ d :: ds, ¬ d.Captures d') ∧ Uncaptured ds := by
  simp only [Uncaptured, List.forall_mem_cons, List.pairwise_cons]
  tauto

end Declarator

/-- The declarators of a declaration. -/
def declarators : List TypedName → List Node → List Declarator
  | [], _ => []
  | var :: vars, values =>
    ⟨typeSpelling ((typeName? var values.head?).getD ""), escapeName var.name,
      values.head?.elim .zero .expression⟩ :: declarators vars values.tail

/-- The lines of a declaration are its declarators, each with its type in front. -/
theorem declarationTexts_eq (p : Place) (qualifier : String) (vars : List TypedName) (values : List Node) :
    Node.declarationTexts p qualifier vars values =
      (declarators vars values).map fun d => d.type ++ qualifier ++ " " ++ d.text p ++ ";" := by
  induction vars generalizing values with
  | nil => rfl
  | cons var vars ih =>
    cases values with
    | nil =>
      rw [Node.declarationTexts, declarators, List.map_cons, ih]
      simp [Node.declarationText, Declarator.text, Initializer.text, String.append_assoc]
    | cons value values =>
      rw [Node.declarationTexts, declarators, List.map_cons, ih]
      simp [Node.declarationText, Declarator.text, Initializer.text, String.append_assoc]

theorem isPure_declarators {vars : List TypedName} {values : List Node}
    (h : ∀ v ∈ values, ∀ m ∈ v.nodes, m.tag.isExpression = true) : ∀ d ∈ declarators vars values, d.initial.IsPure := by
  induction vars generalizing values with
  | nil => simp [declarators]
  | cons var vars ih =>
    cases values with
    | nil => exact List.forall_mem_cons.mpr ⟨trivial, ih h⟩
    | cons value values =>
      obtain ⟨hFirst, hRest⟩ := List.forall_mem_cons.mp h
      exact List.forall_mem_cons.mpr ⟨hFirst, ih hRest⟩

-- ---------------------------------------------------------------------------
-- The rule of C
-- ---------------------------------------------------------------------------

/-- What expressions are worth in C, together with the value of an empty initializer and conversion to a C type. -/
structure Interpretation (V : Type) extends Evaluation V where
  zero : V
  convert : String → V → V

/-- The value of a C name, given the variables that are declared, newest first. -/
def resolve {V : Type} (outer : String → V) (bound : List (String × V)) (name : String) : V :=
  (bound.lookup name).getD (outer name)

section Resolve

variable {V : Type} {outer : String → V} {bound : List (String × V)} {name : String}

@[simp]
theorem resolve_cons_self (name : String) (v : V) : resolve outer ((name, v) :: bound) name = v := by
  rw [resolve, List.lookup_cons_self, Option.getD_some]

theorem resolve_cons_of_ne {other : String} {v : V} (h : name ≠ other) :
    resolve outer ((other, v) :: bound) name = resolve outer bound name := by
  rw [resolve, List.lookup_cons, beq_eq_false_iff_ne.mpr h]
  rfl

theorem resolve_of_not_mem (h : name ∉ bound.map Prod.fst) : resolve outer bound name = outer name := by
  induction bound with
  | nil => rfl
  | cons b bound ih =>
    rw [List.map_cons, List.mem_cons, not_or] at h
    exact (resolve_cons_of_ne h.1).trans (ih h.2)

theorem resolve_mem (h : name ∈ bound.map Prod.fst) : (name, resolve outer bound name) ∈ bound := by
  induction bound with
  | nil => simp at h
  | cons b bound ih =>
    obtain ⟨other, v⟩ := b
    by_cases hEq : name = other
    · rw [hEq, resolve_cons_self]
      exact List.mem_cons_self ..
    · rw [resolve_cons_of_ne hEq]
      exact List.mem_cons_of_mem _ (ih ((List.mem_cons.mp h).resolve_left hEq))

end Resolve

namespace Interpretation

variable {V : Type} (I : Interpretation V) {outer : String → V}

/-- What an initializer is worth, given the values of the C names. -/
def initial (env : String → V) : Initializer → V
  | .zero => I.zero
  | .expression n => I.value (fun name => env (escapeName name)) n
  | .copy name => env name

theorem initial_copy (env : String → V) (name : String) : I.initial env (.copy name) = env name := rfl

/-- Declarators one after the other, from the variables that are declared before to those that are declared after. While the
initializer of a variable is computed, its name already stands for it, and it holds no value that anything is known about. -/
inductive Declares (outer : String → V) : List (String × V) → List Declarator → List (String × V) → Prop where
  | done (bound : List (String × V)) : Declares outer bound [] bound
  | next {bound final : List (String × V)} {d : Declarator} {ds : List Declarator} (unset : V) :
      Declares outer
        ((d.name, I.convert d.type (I.initial (resolve outer ((d.name, unset) :: bound)) d.initial)) :: bound) ds final →
      Declares outer bound (d :: ds) final

/-- What a declarator declares if its initializer is computed in the enclosing scope. -/
def enclosing (outer : String → V) (d : Declarator) : String × V :=
  (d.name, I.convert d.type (I.initial outer d.initial))

theorem initial_congr {env env' : String → V} {i : Initializer} (hPure : i.IsPure)
    (h : ∀ name ∈ i.mentioned, env name = env' name) : I.initial env i = I.initial env' i := by
  cases i with
  | zero => rfl
  | expression n => exact I.value_congr hPure fun name hName => h _ (List.mem_map_of_mem hName)
  | copy name => exact h name (List.mem_singleton_self name)

/-- Nothing stops a declaration. -/
theorem exists_declares (outer : String → V) (unset : V) (bound : List (String × V)) (ds : List Declarator) :
    ∃ final, I.Declares outer bound ds final := by
  induction ds generalizing bound with
  | nil => exact ⟨bound, .done bound⟩
  | cons d ds ih =>
    obtain ⟨final, hRest⟩ := ih _
    exact ⟨final, .next unset hRest⟩

/-- Declarators whose initializers mention none of the variables in scope. -/
theorem Declares.eq_enclosing {I : Interpretation V} {bound final : List (String × V)} {ds : List Declarator}
    (h : I.Declares outer bound ds final) (hPure : ∀ d ∈ ds, d.initial.IsPure)
    (hBound : ∀ d ∈ ds, ∀ name ∈ d.initial.mentioned, name ∉ bound.map Prod.fst) (hUncaptured : Declarator.Uncaptured ds) :
    final = (ds.map (I.enclosing outer)).reverse ++ bound := by
  induction h with
  | done bound => rfl
  | @next bound final d ds unset hRest ih =>
    obtain ⟨hFirst, hLater⟩ := Declarator.uncaptured_cons.mp hUncaptured
    have hUnbound : ∀ d' ∈ d :: ds, ∀ name ∈ d'.initial.mentioned, name ∉ d.name :: bound.map Prod.fst := by
      intro d' hd' name hName
      rw [List.mem_cons, not_or]
      refine ⟨?_, hBound d' hd' name hName⟩
      rintro rfl
      exact hFirst d' hd' hName
    have hValue : I.initial (resolve outer ((d.name, unset) :: bound)) d.initial = I.initial outer d.initial :=
      I.initial_congr (hPure d (List.mem_cons_self ..)) fun name hName =>
        resolve_of_not_mem (hUnbound d (List.mem_cons_self ..) name hName)
    rw [ih (fun d' hd' => hPure d' (List.mem_cons_of_mem _ hd'))
      (fun d' hd' => hUnbound d' (List.mem_cons_of_mem _ hd')) hLater, hValue]
    simp [enclosing]

/-- Declarators only add to what is declared, one variable each. -/
theorem Declares.exists_new {I : Interpretation V} {bound final : List (String × V)} {ds : List Declarator}
    (h : I.Declares outer bound ds final) : ∃ new, final = new ++ bound ∧ new.length = ds.length := by
  induction h with
  | done bound => exact ⟨[], rfl, rfl⟩
  | @next bound final d ds unset hRest ih =>
    obtain ⟨new, rfl, hLength⟩ := ih
    exact ⟨new ++ [_], by rw [List.append_assoc]; rfl, by simp [hLength]⟩

/-- An expression is worth `true` as long as all variables in it are `false`. -/
def idle : Interpretation Bool where
  value s e := e.vars.all fun name => !s name
  store l v s name := if name = l.root then v else s name
  value_congr _ h := by
    rw [Bool.eq_iff_iff, List.all_eq_true, List.all_eq_true]
    exact forall₂_congr fun name hName => by rw [h name hName]
  store_elsewhere _ _ _ _ h := if_neg h
  zero := true
  convert _ v := v

/-- An initializer that is worth `true` mentions only variables that are `false`, copies apart. -/
theorem eq_false_of_idle {env : String → Bool} {i : Initializer} (hClear : idle.initial (fun _ => false) i = true)
    (h : idle.initial env i = true) : ∀ name ∈ i.mentioned, env name = false := by
  cases i with
  | zero => simp [Initializer.mentioned]
  | copy source => cases hClear
  | expression n =>
    have hAll : ∀ name ∈ n.vars, (!env (escapeName name)) = true := List.all_eq_true.mp h
    exact List.forall_mem_map.mpr fun name hName => by simpa using hAll name hName

/-- Variables that are declared with the value `true` show up wherever they are mentioned, if all others are `false`. -/
theorem uncaptured_of_idle {ds : List Declarator} {bound : List (String × Bool)}
    (hTrue : ∀ d ∈ ds, idle.enclosing (fun _ => false) d = (d.name, true)) (hBound : ∀ b ∈ bound, b.2 = true)
    (h : ∀ final, idle.Declares (fun _ => false) bound ds final →
      final = (ds.map (idle.enclosing fun _ => false)).reverse ++ bound) :
    Declarator.Uncaptured ds ∧ ∀ d ∈ ds, ∀ name ∈ d.initial.mentioned, name ∉ bound.map Prod.fst := by
  induction ds generalizing bound with
  | nil => exact ⟨⟨by simp, .nil⟩, by simp⟩
  | cons d ds ih =>
    obtain ⟨hFirst, hRest⟩ := List.forall_mem_cons.mp hTrue
    set value := idle.initial (resolve (fun _ => false) ((d.name, true) :: bound)) d.initial with hValue
    have hFinal : ∀ final, idle.Declares (fun _ => false) ((d.name, value) :: bound) ds final →
        final = (ds.map (idle.enclosing fun _ => false)).reverse ++ (d.name, true) :: bound := by
      intro final hDeclares
      rw [h final (.next true hDeclares), List.map_cons, hFirst, List.reverse_cons, List.append_assoc]
      rfl
    have hSet : value = true := by
      obtain ⟨final, hDeclares⟩ := idle.exists_declares (fun _ => false) true ((d.name, value) :: bound) ds
      obtain ⟨new, hNew, hLength⟩ := hDeclares.exists_new
      have hEq := hNew.symm.trans (hFinal final hDeclares)
      have hTail := (List.append_inj hEq (by simp [hLength])).2
      exact congrArg Prod.snd (List.cons.inj hTail).1
    rw [hSet] at hFinal
    have hBound' : ∀ b ∈ (d.name, true) :: bound, b.2 = true := List.forall_mem_cons.mpr ⟨rfl, hBound⟩
    obtain ⟨hLater, hUnbound⟩ := ih hRest hBound' hFinal
    have hOwn : ∀ name ∈ d.initial.mentioned, name ∉ d.name :: bound.map Prod.fst := by
      intro name hName hMem
      have hRead : (name, resolve (fun _ => false) ((d.name, true) :: bound) name) ∈ (d.name, true) :: bound := resolve_mem hMem
      have hClear := eq_false_of_idle (congrArg Prod.snd hFirst) hSet name hName
      exact Bool.false_ne_true (hClear.symm.trans (hBound' _ hRead))
    have hAll : ∀ d' ∈ d :: ds, ∀ name ∈ d'.initial.mentioned, name ∉ d.name :: bound.map Prod.fst :=
      List.forall_mem_cons.mpr ⟨hOwn, hUnbound⟩
    refine ⟨Declarator.uncaptured_cons.mpr ⟨fun d' hd' hMem => ?_, hLater⟩, fun d' hd' name hName hMem => ?_⟩
    · exact hAll d' hd' d.name hMem (List.mem_cons_self ..)
    · exact hAll d' hd' name hName (List.mem_cons_of_mem _ hMem)

theorem enclosing_idle_declarators (vars : List TypedName) (values : List Node) :
    ∀ d ∈ declarators vars values, idle.enclosing (fun _ => false) d = (d.name, true) := by
  induction vars generalizing values with
  | nil => simp [declarators]
  | cons var vars ih =>
    refine List.forall_mem_cons.mpr ⟨?_, ih values.tail⟩
    cases values with
    | nil => rfl
    | cons value values => simp [enclosing, initial, idle]

end Interpretation

-- ---------------------------------------------------------------------------
-- Declarations
-- ---------------------------------------------------------------------------

/-- A declaration that is accepted has no values at all, or one for each variable. -/
theorem Declaration.length_of_emit {visibility : Visibility} {mutability : Mutability} {vars : List TypedName}
    {values : List Part} {span : Span} {d e : Draft}
    (h : Declaration.emit visibility mutability vars values span d = .ok () e) :
    values = [] ∨ values.length = vars.length := by
  unfold Declaration.emit at h
  by_cases hGlobal : visibility = .global
  · rw [if_pos hGlobal] at h
    cases h
  · rw [if_neg hGlobal] at h
    cases hQualifier : Declaration.qualifier? mutability with
    | none =>
      rw [hQualifier] at h
      cases h
    | some qualifier =>
      rw [hQualifier] at h
      change (if (!values.isEmpty && decide (values.length ≠ vars.length)) = true
        then Gen.fail span (.declarationCount vars.length values.length) >>= fun _ =>
          Declaration.declareVariables qualifier span vars values
        else Declaration.declareVariables qualifier span vars values) d = _ at h
      by_cases hCount : (!values.isEmpty && decide (values.length ≠ vars.length)) = true
      · rw [if_pos hCount] at h
        cases h
      · simpa [or_iff_not_imp_left] using hCount

/-- The lines of a declaration that is written in the standard way. -/
theorem Declaration.page_of_emit {visibility : Visibility} {mutability : Mutability} {vars : List TypedName}
    {values : List Node} {span : Span} {d e : Draft} (hTypes : d.types = Target.primitiveTypes)
    (h : Declaration.emit visibility mutability vars (visitAll .standard values) span d = .ok () e) :
    e.page = d.page.write (String.join ((declarators vars values).map fun x =>
      Page.indentation d.page.level d.page.width ++
        (x.type ++ (Declaration.qualifier? mutability).getD "" ++ " " ++ x.text d.place ++ ";") ++ "\n")) := by
  obtain ⟨depth, hInside⟩ := d.exists_inside
  have hParts : ∀ x ∈ values.map Node.part,
      Gen.Adds x.emit d.place (x.node.SoundAt depth) (x.node.additions d.place) () :=
    List.forall_mem_map.mpr fun n _ => n.visit_adds depth d.place hInside
  have hAdditions : (values.map Node.part).map (fun x => (x.node, x.node.additions d.place)) =
      values.map fun v => (v, v.additions d.place) := by
    rw [List.map_map]
    rfl
  rw [Node.visitAll_eq] at h
  have hPage := (declaration_adds hParts).page_of_run ⟨hTypes, rfl⟩ h
  rw [hAdditions, Node.pageText_declareVariables ⟨[], .varDecl visibility mutability vars values span⟩, Row.renderAll,
    declarationTexts_eq, List.map_map, List.map_map] at hPage
  exact hPage

/-- **Declared values.** A declaration that is accepted has no values at all, or one for each variable. Its C declarations
give each variable the value that its initializer has in the enclosing scope, whatever expressions are worth, exactly if no
variable is mentioned in its own initializer or in a later one. What is written in the standard way is one line for each
variable. -/
theorem declarations_in_enclosing_scope_iff {r : Registry} {visibility : Visibility} {mutability : Mutability}
    {vars : List TypedName} {values : List Node} {span : Span} {d e : Draft}
    (hEmit : Declaration.emit visibility mutability vars (visitAll r values) span d = .ok () e)
    (hValues : ∀ v ∈ values, ∀ m ∈ v.nodes, m.tag.isExpression = true) :
    (values = [] ∨ values.length = vars.length) ∧
    ((∀ {V : Type} (I : Interpretation V) (outer : String → V) (final : List (String × V)),
      I.Declares outer [] (declarators vars values) final ↔
        final = ((declarators vars values).map (I.enclosing outer)).reverse) ↔
      Declarator.Uncaptured (declarators vars values)) ∧
    (r = .standard → d.types = Target.primitiveTypes →
      e.page = d.page.write (String.join ((declarators vars values).map fun x =>
        Page.indentation d.page.level d.page.width ++
          (x.type ++ (Declaration.qualifier? mutability).getD "" ++ " " ++ x.text d.place ++ ";") ++ "\n"))) := by
  refine ⟨?_, ⟨fun h => ?_, fun hUncaptured V I outer final => ?_⟩, ?_⟩
  · simpa [Node.visitAll_eq_map] using Declaration.length_of_emit hEmit
  · have hIdle : ∀ final, Interpretation.idle.Declares (fun _ => false) [] (declarators vars values) final →
        final = ((declarators vars values).map (Interpretation.idle.enclosing fun _ => false)).reverse ++ [] := by
      intro final hDeclares
      rw [List.append_nil]
      exact (h Interpretation.idle _ final).mp hDeclares
    exact (Interpretation.uncaptured_of_idle (Interpretation.enclosing_idle_declarators vars values) (by simp) hIdle).1
  · have hOnly : ∀ final, I.Declares outer [] (declarators vars values) final →
        final = ((declarators vars values).map (I.enclosing outer)).reverse := by
      intro final hDeclares
      rw [hDeclares.eq_enclosing (isPure_declarators hValues) (by simp) hUncaptured, List.append_nil]
    refine ⟨hOnly final, ?_⟩
    rintro rfl
    obtain ⟨final, hDeclares⟩ := I.exists_declares outer (outer "") [] (declarators vars values)
    rwa [hOnly final hDeclares] at hDeclares
  · rintro rfl hTypes
    exact Declaration.page_of_emit hTypes hEmit

/-- The declared variables are mentioned only in other statements. -/
theorem declarations_in_enclosing_scope_iff_pair :
    let vars : List TypedName := [⟨"x", some "int"⟩, ⟨"y", some "int"⟩]
    let values : List Node := [.id "a" ⟨24, 25⟩, .binaryOp "add" (.id "a" ⟨27, 28⟩) (.id "b" ⟨31, 32⟩) ⟨27, 32⟩]
    (∃ e, Declaration.emit .scoped .mutable vars (visitAll .standard values) ⟨0, 32⟩ (Draft.blank 4) = .ok () e ∧
      e.page.text = "intptr_t x = a;\nintptr_t y = a + b;\n") ∧
    (∀ v ∈ values, ∀ m ∈ v.nodes, m.tag.isExpression = true) ∧
    ∀ {V : Type} (I : Interpretation V) (outer : String → V) (final : List (String × V)),
      I.Declares outer [] (declarators vars values) final ↔
        final = ((declarators vars values).map (I.enclosing outer)).reverse := by
  intro vars values
  have hEmit : Declaration.emit .scoped .mutable vars (visitAll .standard values) ⟨0, 32⟩ (Draft.blank 4) = .ok () _ := rfl
  have hValues : ∀ v ∈ values, ∀ m ∈ v.nodes, m.tag.isExpression = true := by
    refine List.forall_mem_cons.mpr ⟨?_, List.forall_mem_cons.mpr ⟨?_, by simp⟩⟩ <;>
      simp [Node.nodes_eq, Node.children, Node.tag, Tag.isExpression]
  have hDeclarators : declarators vars values =
      [⟨"intptr_t", "x", .expression (.id "a" ⟨24, 25⟩)⟩,
        ⟨"intptr_t", "y", .expression (.binaryOp "add" (.id "a" ⟨27, 28⟩) (.id "b" ⟨31, 32⟩) ⟨27, 32⟩)⟩] := rfl
  have hUncaptured : Declarator.Uncaptured (declarators vars values) := by
    have hEscaped : ["a", "b"].map escapeName = ["a", "b"] := rfl
    obtain ⟨hFirst, hRest⟩ := List.cons.inj hEscaped
    rw [hDeclarators]
    simp [Declarator.Uncaptured, Declarator.Captures, Initializer.mentioned, Node.vars, Node.nodes_eq, Node.children,
      Node.name?, hFirst, (List.cons.inj hRest).1]
  obtain ⟨-, hScope, -⟩ := declarations_in_enclosing_scope_iff hEmit hValues
  exact ⟨⟨_, hEmit, rfl⟩, hValues, hScope.mpr hUncaptured⟩

/-- A declaration of two variables with the values of each other. -/
def swappedDeclaration : Node :=
  .varDecl .scoped .mutable [⟨"a", some "int"⟩, ⟨"b", some "int"⟩] [.id "b" ⟨24, 25⟩, .id "a" ⟨27, 28⟩] ⟨0, 28⟩

/-- The second variable is set to what the first one has just been set to. -/
theorem generate_reads_declared_variable :
    (generate ⟨4, .standard⟩ (.block [swappedDeclaration] ⟨0, 28⟩)).result = .ok
      "#include <stdint.h>\n\nint main() \x7b\n    intptr_t a = b;\n    intptr_t b = a;\n    return 0;\n\x7d\n" ∧
    ∃ (I : Interpretation (List String)) (ds : List Declarator),
      ds = declarators [⟨"a", some "int"⟩, ⟨"b", some "int"⟩] [.id "b" ⟨24, 25⟩, .id "a" ⟨27, 28⟩] ∧
      I.Declares (fun name => [name]) [] ds [("b", ["b"]), ("a", ["b"])] ∧
      ds.map (I.enclosing fun name => [name]) = [("a", ["b"]), ("b", ["a"])] := by
  let I : Interpretation (List String) := { Evaluation.joining with zero := [], convert := fun _ v => v }
  have hId : ∀ (env : String → List String) (name : String) (span : Span),
      I.initial env (.expression (.id name span)) = env (escapeName name) := by
    intro env name span
    simp [I, Interpretation.initial, Evaluation.joining, Node.vars, Node.nodes_eq, Node.children, Node.name?]
  refine ⟨by rfl, I, [⟨"intptr_t", "a", .expression (.id "b" ⟨24, 25⟩)⟩, ⟨"intptr_t", "b", .expression (.id "a" ⟨27, 28⟩)⟩],
    rfl, ?_, ?_⟩
  · have hDone : I.Declares (fun name => [name]) _ [] [("b", ["b"]), ("a", ["b"])] := .done _
    refine .next [] (.next [] ?_)
    rw [hId, hId]
    exact hDone
  · rw [List.map_cons, List.map_singleton, Interpretation.enclosing, Interpretation.enclosing, hId, hId]
    rfl

end Lowering
