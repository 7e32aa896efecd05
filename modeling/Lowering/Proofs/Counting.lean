import Mathlib.Algebra.Order.Ring.Nat
import Mathlib.Logic.Function.Basic
import Lowering.Proofs.Independence
import Lowering.Proofs.Scope

/-!
# Counting loops

A numeric loop without a step is written as a C loop whose header declares three variables: two temporaries for the bounds,
computed once, and the loop variable. The loop goes on as long as the variable is not above the last value, and then adds one
to it. In an unsigned type this is done modulo the number of its values. So the body is run for each value of the range, in
order, but if the last one is the greatest of the type, the test never fails and the loop goes on forever.

* `Rounds` — the rounds of a C loop, as the states in which its body starts.
* `CountsUp.trace_eq`, `CountsUp.exists_rounds` — a counter that wraps around, and when it stops.
* `counting_loop_visits_range_iff` — the loop that is written for a numeric loop; `generate_endless_loop` is one that never
  ends.
-/

namespace Lowering

open Target

-- ---------------------------------------------------------------------------
-- Rounds
-- ---------------------------------------------------------------------------

/-- The rounds of a C loop from a state on: the states in which its body starts, and the state in which the test fails. -/
inductive Rounds {S : Type} (test : S → Prop) (body next : S → S) : S → List S → S → Prop where
  | done {s : S} : ¬ test s → Rounds test body next s [] s
  | round {s final : S} {trace : List S} :
      test s → Rounds test body next (next (body s)) trace final → Rounds test body next s (s :: trace) final

/-- A loop that compares a counter with a limit. A round leaves the limit alone and adds one to the counter, modulo a size. -/
structure CountsUp {S : Type} (test : S → Prop) (body next : S → S) (counter limit : S → Nat) (size : Nat) : Prop where
  test_iff : ∀ s, test s ↔ counter s ≤ limit s
  counted : ∀ s, counter (next (body s)) = (counter s + 1) % size
  kept : ∀ s, limit (next (body s)) = limit s

namespace CountsUp

variable {S : Type} {test : S → Prop} {body next : S → S} {counter limit : S → Nat} {size : Nat}

/-- A loop that ends has seen every value up to the limit, and there is a value above the limit. -/
theorem trace_eq (h : CountsUp test body next counter limit size) {s final : S} {trace : List S}
    (hRounds : Rounds test body next s trace final) (hCounter : counter s < size) (hLimit : limit s < size) :
    limit s + 1 < size ∧ trace.map counter = List.range' (counter s) (limit s + 1 - counter s) := by
  induction hRounds with
  | @done s hTest =>
    rw [h.test_iff] at hTest
    have hEmpty : limit s + 1 - counter s = 0 := by omega
    rw [hEmpty]
    exact ⟨by omega, rfl⟩
  | @round s final trace hTest hRest ih =>
    rw [h.test_iff] at hTest
    rw [h.counted, h.kept] at ih
    obtain ⟨hAbove, hTrace⟩ := ih (Nat.mod_lt _ (by omega)) hLimit
    have hMore : limit s + 1 - counter s = limit s + 1 - (counter s + 1) + 1 := by omega
    rw [Nat.mod_eq_of_lt (by omega)] at hTrace
    rw [List.map_cons, hTrace, hMore, List.range'_succ]
    exact ⟨hAbove, rfl⟩

/-- If there is a value above the limit, the loop ends. -/
theorem exists_rounds (h : CountsUp test body next counter limit size) (s : S) (hLimit : limit s + 1 < size) :
    ∃ trace final, Rounds test body next s trace final := by
  induction hLeft : limit s + 1 - counter s generalizing s with
  | zero =>
    have hTest : ¬ test s := by
      rw [h.test_iff]
      omega
    exact ⟨[], s, .done hTest⟩
  | succ left ih =>
    have hTest : test s := (h.test_iff s).mpr (by omega)
    have hNext : counter (next (body s)) = counter s + 1 := by rw [h.counted, Nat.mod_eq_of_lt (by omega)]
    obtain ⟨trace, final, hRest⟩ := ih (next (body s)) (by rwa [h.kept]) (by rw [h.kept, hNext]; omega)
    exact ⟨s :: trace, final, .round hTest hRest⟩

end CountsUp

-- ---------------------------------------------------------------------------
-- The loop that is written
-- ---------------------------------------------------------------------------

/-- A C loop that counts a variable of the program from the value of one expression up to that of another. -/
structure CountingLoop where
  type : String
  var : String
  first : Node
  last : Node

namespace CountingLoop

variable (l : CountingLoop)

/-- The C name of the variable. -/
def name : String :=
  escapeName l.var

/-- The name of the temporary that holds a bound. -/
def temporary (value : LoopValue) : String :=
  Loop.temporary l.name value.role

/-- What the header declares. -/
def declarators : List Declarator :=
  [⟨l.type, l.temporary .first, .expression l.first⟩, ⟨l.type, l.temporary .last, .expression l.last⟩,
    ⟨l.type, l.name, .copy (l.temporary .first)⟩]

/-- The header as it is written. -/
def text (p : Place) : String :=
  "for (" ++ l.type ++ " " ++ ", ".intercalate (l.declarators.map (Declarator.text p)) ++ "; " ++ l.name ++ " <= "
    ++ l.temporary .last ++ "; " ++ ("++" ++ l.name) ++ ") \x7b"

/-- The test of the header. A state holds the values of the C variables, and whatever else there is. -/
def test {W : Type} (s : (String → Nat) × W) : Prop :=
  s.1 l.name ≤ s.1 (l.temporary .last)

/-- The increment of the header. -/
def next {W : Type} (I : Interpretation Nat) (s : (String → Nat) × W) : (String → Nat) × W :=
  (Function.update s.1 l.name (I.convert l.type (s.1 l.name + 1)), s.2)

/-- The body changes variables of the program only, and not the one that is counted. -/
def Spares {W : Type} (body : (String → Nat) × W → (String → Nat) × W) : Prop :=
  ∀ s name, (body s).1 name ≠ s.1 name → (∃ source, name = escapeName source) ∧ name ≠ l.name

/-- The loop as a whole: the declarators of its header, and then its rounds. -/
def Runs {W : Type} (I : Interpretation Nat) (body : (String → Nat) × W → (String → Nat) × W) (outer : String → Nat)
    (world : W) (trace : List ((String → Nat) × W)) (final : (String → Nat) × W) : Prop :=
  ∃ bound, I.Declares outer [] l.declarators bound ∧
    Rounds l.test body (l.next I) (resolve outer bound, world) trace final

/-- The bounds are expressions, and the type has `size` values, to which others are reduced. -/
structure Sized (I : Interpretation Nat) (size : Nat) : Prop where
  first : ∀ m ∈ l.first.nodes, m.tag.isExpression = true
  last : ∀ m ∈ l.last.nodes, m.tag.isExpression = true
  convert : ∀ v, I.convert l.type v = v % size
  pos : 0 < size

theorem temporary_ne_name (value : LoopValue) : l.temporary value ≠ l.name :=
  (escapeName_ne_text l.var (.temporary l.name value)).symm

theorem temporary_ne {value value' : LoopValue} (h : value ≠ value') : l.temporary value ≠ l.temporary value' :=
  fun hEq => h (temporary_inj hEq).2

variable {l} {I : Interpretation Nat} {size : Nat}

/-- A round adds one to the variable and leaves the last value alone. -/
theorem countsUp {W : Type} {body : (String → Nat) × W → (String → Nat) × W} (h : l.Sized I size) (hBody : l.Spares body) :
    CountsUp l.test body (l.next I) (fun s => s.1 l.name) (fun s => s.1 (l.temporary .last)) size where
  test_iff _ := Iff.rfl
  counted s := by
    have hKept : (body s).1 l.name = s.1 l.name := of_not_not fun hChanged => (hBody s l.name hChanged).2 rfl
    show Function.update (body s).1 l.name _ l.name = _
    rw [Function.update_self, h.convert, hKept]
  kept s := by
    have hKept : (body s).1 (l.temporary .last) = s.1 (l.temporary .last) := by
      refine of_not_not fun hChanged => ?_
      obtain ⟨⟨source, hSource⟩, -⟩ := hBody s _ hChanged
      exact escapeName_ne_text source (.temporary l.name .last) hSource.symm
    show Function.update (body s).1 l.name _ (l.temporary .last) = _
    rw [Function.update_of_ne (l.temporary_ne_name .last), hKept]

/-- An expression mentions no temporary, so that it is worth the same with temporaries in scope. -/
theorem initial_of_temporaries {n : Node} (hPure : ∀ m ∈ n.nodes, m.tag.isExpression = true) {outer : String → Nat}
    {bound : List (String × Nat)} (hBound : ∀ b ∈ bound, ∃ value, b.1 = l.temporary value) :
    I.initial (resolve outer bound) (.expression n) = I.initial outer (.expression n) := by
  refine I.initial_congr hPure (List.forall_mem_map.mpr fun source _ => resolve_of_not_mem fun hMem => ?_)
  obtain ⟨b, hb, hName⟩ := List.mem_map.mp hMem
  obtain ⟨value, hTemporary⟩ := hBound b hb
  exact escapeName_ne_text source (.temporary l.name value) (hName.symm.trans hTemporary)

/-- What the header leaves in the variable and in the temporary of the last value. -/
theorem start {outer : String → Nat} {bound : List (String × Nat)} (h : l.Sized I size)
    (hDeclares : I.Declares outer [] l.declarators bound) :
    resolve outer bound l.name = I.initial outer (.expression l.first) % size ∧
      resolve outer bound (l.temporary .last) = I.initial outer (.expression l.last) % size := by
  have hName := l.temporary_ne_name
  have hApart := l.temporary_ne (show LoopValue.first ≠ .last by decide)
  -- one step for each declarator
  cases hDeclares with
  | next unset hDeclares =>
    cases hDeclares with
    | next unset' hDeclares =>
      cases hDeclares with
      | next unset'' hDeclares =>
        cases hDeclares
        dsimp only
        rw [initial_of_temporaries (l := l) h.first (List.forall_mem_singleton.mpr ⟨.first, rfl⟩),
          initial_of_temporaries (l := l) h.last
            (List.forall_mem_cons.mpr ⟨⟨.last, rfl⟩, List.forall_mem_singleton.mpr ⟨.first, rfl⟩⟩)]
        refine ⟨?_, ?_⟩
        · rw [resolve_cons_self, Interpretation.initial_copy, resolve_cons_of_ne (hName .first), resolve_cons_of_ne hApart,
            resolve_cons_self, h.convert, h.convert, Nat.mod_mod]
        · rw [resolve_cons_of_ne (hName .last), resolve_cons_self, h.convert]

section Run

variable {W : Type} {body : (String → Nat) × W → (String → Nat) × W} {outer : String → Nat} {world : W}

/-- A loop that ends has run its body for each value of the range, in order, and the last one is not the greatest. -/
theorem Runs.trace_eq {trace : List ((String → Nat) × W)} {final : (String → Nat) × W}
    (hRuns : l.Runs I body outer world trace final) (h : l.Sized I size) (hBody : l.Spares body) :
    I.initial outer (.expression l.last) % size + 1 < size ∧
      trace.map (fun s => s.1 l.name) = List.range' (I.initial outer (.expression l.first) % size)
        (I.initial outer (.expression l.last) % size + 1 - I.initial outer (.expression l.first) % size) := by
  obtain ⟨bound, hDeclares, hRounds⟩ := hRuns
  obtain ⟨hName, hLimit⟩ := start h hDeclares
  have hTrace := (countsUp h hBody).trace_eq hRounds
  simp only [hName, hLimit] at hTrace
  exact hTrace (Nat.mod_lt _ h.pos) (Nat.mod_lt _ h.pos)

/-- The loop ends exactly if the last value is not the greatest of the type. -/
theorem exists_runs_iff (h : l.Sized I size) (hBody : l.Spares body) :
    (∃ trace final, l.Runs I body outer world trace final) ↔ I.initial outer (.expression l.last) % size + 1 < size := by
  constructor
  · rintro ⟨trace, final, hRuns⟩
    exact (hRuns.trace_eq h hBody).1
  · intro hAbove
    obtain ⟨bound, hDeclares⟩ := I.exists_declares outer 0 [] l.declarators
    obtain ⟨-, hLimit⟩ := start h hDeclares
    rw [← hLimit] at hAbove
    obtain ⟨trace, final, hRounds⟩ := (countsUp h hBody).exists_rounds (resolve outer bound, world) hAbove
    exact ⟨trace, final, bound, hDeclares, hRounds⟩

end Run

/-- The header is the one that is written for a numeric loop without a step. -/
theorem loopText_eq (p : Place) (type var : String) (first last : Node) :
    Node.loopText p type (escapeName var) first last none = text ⟨typeSpelling type, var, first, last⟩ p := by
  have hList : ∀ a b c : String, ", ".intercalate [a, b, c] = a ++ (", " ++ (b ++ (", " ++ c))) := by
    simp [String.append_assoc]
  have hStep : Addition.pageText (stepAdditions (escapeName var) (Node.additionsOption p none)) = "" := rfl
  unfold Node.loopText text declarators
  rw [List.map_cons, List.map_cons, List.map_singleton, hList, hStep]
  simp only [Declarator.text, loopEnd, String.append_assoc, String.empty_append, Option.isSome_none]
  rfl

/-- What is written for a numeric loop without a step. -/
theorem textAt_forNum (p : Place) {var : TypedName} {first last body : Node} {comparator : Option String} {span : Span}
    {type : String} (hType : typeName? var (some first) = some type) :
    Node.textAt p (.forNum var first comparator last none body span) =
      p.indentation ++ text ⟨typeSpelling type, var.name, first, last⟩ (p.descend .forNum) ++ "\n"
        ++ body.textAt (p.descend .forNum).deeper ++ p.indentation ++ "\x7d" ++ "\n" := by
  rw [Node.textAt_forNum p hType, loopText_eq]
  simp only [String.append_assoc]

end CountingLoop

-- ---------------------------------------------------------------------------
-- Numeric loops
-- ---------------------------------------------------------------------------

/-- The unsigned types whose name says how many bits they have. -/
def unsignedTypes : List (String × Nat) :=
  [("uint8", 8), ("uint16", 16), ("uint32", 32), ("uint64", 64)]

/-- Conversion to an unsigned type takes the remainder. -/
def Interpretation.Wraps (I : Interpretation Nat) : Prop :=
  ∀ t ∈ unsignedTypes, ∀ v, I.convert (typeSpelling t.1) v = v % 2 ^ t.2

/-- **Numeric loops.** A numeric loop without a step over an unsigned type is written as a counting loop. If its body changes
variables of the program only, and not the one that is counted, then the loop runs its body for each value from the first to
the last, in order, and ends, exactly if the last value is not the greatest of the type. Otherwise it never ends. -/
theorem counting_loop_visits_range_iff {var : TypedName} {first last body : Node} {comparator : Option String} {span : Span}
    {d e : Draft} {type : String} {width : Nat} {l : CountingLoop} {I : Interpretation Nat} {W : Type}
    {effect : (String → Nat) × W → (String → Nat) × W} (outer : String → Nat) (world : W)
    (hVisit : visit .standard (.forNum var first comparator last none body span) d = .ok () e)
    (hTypes : d.types = primitiveTypes) (hType : typeName? var (some first) = some type)
    (hWidth : (type, width) ∈ unsignedTypes)
    (hFirst : ∀ m ∈ first.nodes, m.tag.isExpression = true) (hLast : ∀ m ∈ last.nodes, m.tag.isExpression = true)
    (hLoop : l = ⟨typeSpelling type, var.name, first, last⟩) (hWraps : I.Wraps) (hEffect : l.Spares effect) :
    let b := I.value (fun name => outer (escapeName name)) first % 2 ^ width
    let n := I.value (fun name => outer (escapeName name)) last % 2 ^ width
    e.page = d.page.write (Page.indentation d.page.level d.page.width ++ l.text (d.place.descend .forNum) ++ "\n"
      ++ body.textAt (d.place.descend .forNum).deeper ++ Page.indentation d.page.level d.page.width ++ "\x7d" ++ "\n") ∧
    (∀ trace final, l.Runs I effect outer world trace final →
      trace.map (fun s => s.1 l.name) = List.range' b (n + 1 - b)) ∧
    ((∃ trace final, l.Runs I effect outer world trace final) ↔ n + 1 < 2 ^ width) := by
  subst hLoop
  intro b n
  have hSized : CountingLoop.Sized ⟨typeSpelling type, var.name, first, last⟩ I (2 ^ width) :=
    ⟨hFirst, hLast, hWraps _ hWidth, Nat.two_pow_pos width⟩
  refine ⟨?_, fun trace final hRuns => (hRuns.trace_eq hSized hEffect).2, CountingLoop.exists_runs_iff hSized hEffect⟩
  rw [Node.page_of_visit hTypes hVisit, CountingLoop.textAt_forNum d.place hType]
  rfl

/-- A number is worth what its digits say, and any other expression nothing. -/
def Interpretation.digits : Interpretation Nat where
  value _ e :=
    match e with
    | .number (.integer digits) _ _ => digits.toList.foldl (fun v c => 10 * v + (c.toNat - '0'.toNat)) 0
    | _ => 0
  store l v s name := if name = l.root then v else s name
  value_congr _ _ := rfl
  store_elsewhere _ _ _ _ h := if_neg h
  zero := 0
  convert type v := ((unsignedTypes.find? fun t => typeSpelling t.1 = type).map fun t => v % 2 ^ t.2).getD v

theorem Interpretation.wraps_digits : Interpretation.digits.Wraps := by
  have hFound : ∀ t ∈ unsignedTypes, (unsignedTypes.find? fun u => typeSpelling u.1 = typeSpelling t.1) = some t := by
    decide
  intro t ht v
  show (Option.map _ (List.find? _ _)).getD v = _
  rw [hFound t ht]
  rfl

/-- The body of a loop that counts to three is run for each of the three values. -/
theorem counting_loop_visits_range_iff_three :
    let first : Node := .number (.integer "1") none ⟨15, 16⟩
    let last : Node := .number (.integer "3") none ⟨18, 19⟩
    let l : CountingLoop := ⟨"uint8_t", "i", first, last⟩
    (∃ e, visit .standard (.forNum ⟨"i", some "uint8"⟩ first none last none (.block [] ⟨23, 23⟩) ⟨0, 26⟩) (Draft.blank 4) =
      .ok () e) ∧
    ∃ trace final, l.Runs Interpretation.digits (id : (String → Nat) × Unit → _) (fun _ => 0) () trace final ∧
      trace.map (fun s => s.1 l.name) = [1, 2, 3] := by
  intro first last l
  have hVisit : visit .standard (.forNum ⟨"i", some "uint8"⟩ first none last none (.block [] ⟨23, 23⟩) ⟨0, 26⟩)
      (Draft.blank 4) = .ok () _ := rfl
  have hNumber : ∀ (digits : String) (span : Span),
      ∀ m ∈ (Node.number (.integer digits) none span).nodes, m.tag.isExpression = true := by
    intro digits span
    simp [Node.nodes_eq, Node.children, Node.tag, Tag.isExpression]
  have hSpares : l.Spares (id : (String → Nat) × Unit → _) := fun s name hChanged => absurd rfl hChanged
  obtain ⟨-, hTrace, hEnds⟩ := counting_loop_visits_range_iff (fun _ => 0) () hVisit rfl rfl
    (by decide : ("uint8", 8) ∈ unsignedTypes) (hNumber _ _) (hNumber _ _) rfl Interpretation.wraps_digits hSpares
  obtain ⟨trace, final, hRuns⟩ := hEnds.mpr (by decide)
  exact ⟨⟨_, hVisit⟩, trace, final, hRuns, (hTrace trace final hRuns).trans (by decide)⟩

/-- A loop over all values of a type. -/
def fullLoop : CountingLoop :=
  ⟨"uint8_t", "i", .number (.integer "0") none ⟨15, 16⟩, .number (.integer "255") none ⟨18, 21⟩⟩

/-- A program that consists of the loop. -/
def fullLoopProgram : Node :=
  .block [.forNum ⟨"i", some "uint8"⟩ fullLoop.first none fullLoop.last none (.block [] ⟨25, 25⟩) ⟨0, 28⟩] ⟨0, 28⟩

/-- The loop never ends. -/
theorem generate_endless_loop :
    (generate ⟨4, .standard⟩ fullLoopProgram).result = .ok ("#include <stdint.h>\n\nint main() \x7b\n"
      ++ ("    for (uint8_t __i_begin = 0, __i_end = 255, i = __i_begin; i <= __i_end; ++i) \x7b\n"
      ++ "    \x7d\n    return 0;\n\x7d\n")) ∧
    ∀ trace final, ¬ fullLoop.Runs Interpretation.digits (id : (String → Nat) × Unit → _) (fun _ => 0) () trace final := by
  constructor
  · rfl
  · intro trace final hRuns
    have hSized : fullLoop.Sized Interpretation.digits (2 ^ 8) := by
      refine ⟨?_, ?_, Interpretation.wraps_digits ("uint8", 8) (by decide), by decide⟩ <;>
        simp [fullLoop, Node.nodes_eq, Node.children, Node.tag, Tag.isExpression]
    have hAbove := (hRuns.trace_eq hSized fun s name hChanged => absurd rfl hChanged).1
    exact absurd hAbove (by decide)

end Lowering
