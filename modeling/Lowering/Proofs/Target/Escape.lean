import Mathlib.Data.List.DropRight
import Mathlib.Data.List.Nodup
import Lowering.Emit.Program
import Lowering.Proofs.Emit.Tidy

/-!
# Escaped names

A name of the program is escaped where it would be taken for something else. No escaped name means anything in C or in the
support code, and none is a name of the generator: these all start with two underscores, and none of them ends with one.

Escaping does not keep all names apart. The escaped form of a reserved word is the word with an underscore, and a program may
use that name, too. This is the only way in which two names can become one.

* `escapeName_eq_iff` — which names have the same escaped form.
* `escaped_names_apart_iff` — when the names of a program stay apart; `generate_merges_variables` is a program whose names do
  not.
* `generated_names_not_captured` — escaped names and the names of the generator.
-/

namespace Lowering

open Target

-- ---------------------------------------------------------------------------
-- Reserved names
-- ---------------------------------------------------------------------------

/-- The words that are reserved one by one. All names in the space of the generator are reserved beside them. -/
def reservedWords : List String :=
  keywords ++ runtimeNames ++ typeWords

theorem isReserved_iff {name : String} : isReserved name = true ↔ name ∈ reservedWords ∨ isGeneratorSpace name = true := by
  simp only [isReserved, isKeyword, reservedWords, Bool.or_eq_true, List.contains_iff_mem, List.mem_append]
  tauto

theorem isGeneratorSpace_iff {name : String} : isGeneratorSpace name = true ↔ ['_', '_'] <+: name.toList := by
  unfold isGeneratorSpace
  split
  · rename_i rest hName
    rw [hName]
    exact iff_of_true rfl ⟨rest, rfl⟩
  · rename_i hOther
    refine iff_of_false (by decide) ?_
    rintro ⟨rest, hRest⟩
    exact hOther rest hRest.symm

/-- A name in the space of the generator stays there when it is escaped. -/
theorem isGeneratorSpace_underscore {name : String} (h : isGeneratorSpace name = true) :
    isGeneratorSpace (name ++ "_") = true := by
  rw [isGeneratorSpace_iff] at h ⊢
  rw [String.toList_append]
  exact h.trans (List.prefix_append _ _)

/-- No reserved word ends with an underscore. -/
theorem append_underscore_not_mem_reservedWords (name : String) : name ++ "_" ∉ reservedWords := by
  have hLast : ∀ word ∈ reservedWords, word.toList.getLast? ≠ some '_' := by decide +kernel
  intro hMem
  exact hLast _ hMem (by rw [String.toList_append]; exact List.getLast?_concat ..)

theorem isReserved_word_underscore : ∀ word ∈ reservedWords, isReserved (word ++ "_") = false := by
  have hSpace : ∀ word ∈ reservedWords, isGeneratorSpace (word ++ "_") = false := by decide +kernel
  intro word hWord
  rw [Bool.eq_false_iff, Ne, isReserved_iff, not_or, Bool.not_eq_true]
  exact ⟨append_underscore_not_mem_reservedWords word, hSpace word hWord⟩

theorem escapeName_of_isReserved {name : String} (h : isReserved name = true) : escapeName name = name ++ "_" :=
  if_pos h

theorem escapeName_of_not_isReserved {name : String} (h : isReserved name = false) : escapeName name = name :=
  if_neg (by simp [h])

-- ---------------------------------------------------------------------------
-- Names that become one
-- ---------------------------------------------------------------------------

/-- The second name is what the first, a reserved word, is escaped to. -/
def EscapesTo (word name : String) : Prop :=
  word ∈ reservedWords ∧ name = word ++ "_"

/-- A name that is escaped can only meet one that is not. -/
theorem escapesTo_of_eq {a b : String} (ha : isReserved a = true) (hb : isReserved b = false) (h : a ++ "_" = b) :
    EscapesTo a b := by
  refine ⟨?_, h.symm⟩
  rcases isReserved_iff.mp ha with hWord | hSpace
  · exact hWord
  · have hReserved : isReserved b = true := by
      rw [← h]
      exact isReserved_iff.mpr (Or.inr (isGeneratorSpace_underscore hSpace))
    rw [hb] at hReserved
    exact absurd hReserved (by decide)

theorem EscapesTo.escapeName_eq {a b : String} (h : EscapesTo a b) : escapeName a = escapeName b := by
  obtain ⟨hWord, rfl⟩ := h
  rw [escapeName_of_isReserved (isReserved_iff.mpr (Or.inl hWord)),
    escapeName_of_not_isReserved (isReserved_word_underscore a hWord)]

/-- Two names have the same escaped form exactly if they are the same, or if one of them is a reserved word and the other is
that word with an underscore. -/
theorem escapeName_eq_iff {a b : String} :
    escapeName a = escapeName b ↔ a = b ∨ EscapesTo a b ∨ EscapesTo b a := by
  constructor
  · intro h
    cases ha : isReserved a <;> cases hb : isReserved b
    · rw [escapeName_of_not_isReserved ha, escapeName_of_not_isReserved hb] at h
      exact Or.inl h
    · rw [escapeName_of_not_isReserved ha, escapeName_of_isReserved hb] at h
      exact Or.inr (Or.inr (escapesTo_of_eq hb ha h.symm))
    · rw [escapeName_of_isReserved ha, escapeName_of_not_isReserved hb] at h
      exact Or.inr (Or.inl (escapesTo_of_eq ha hb h))
    · rw [escapeName_of_isReserved ha, escapeName_of_isReserved hb] at h
      exact Or.inl ((String.append_left_inj _).mp h)
  · rintro (rfl | h | h)
    · rfl
    · exact h.escapeName_eq
    · exact h.escapeName_eq.symm

/-- **Names apart.** Two names have the same escaped form only if they are the same, or if one of them is a reserved word and
the other is that word with an underscore. The names of a program therefore stay apart exactly if they are different and no
reserved word is among them together with its escaped form. -/
theorem escaped_names_apart_iff (a b : String) (names : List String) :
    (escapeName a = escapeName b ↔ a = b ∨ EscapesTo a b ∨ EscapesTo b a) ∧
      ((names.map escapeName).Nodup ↔
        names.Nodup ∧ ∀ word ∈ reservedWords, word ∈ names → word ++ "_" ∉ names) := by
  refine ⟨escapeName_eq_iff, fun hNodup => ⟨hNodup.of_map, ?_⟩, ?_⟩
  · intro word hWord hMem hMem'
    have hSame := List.inj_on_of_nodup_map hNodup hMem hMem' (EscapesTo.escapeName_eq ⟨hWord, rfl⟩)
    exact absurd (congrArg String.length hSame) (by simp)
  · rintro ⟨hNodup, hApart⟩
    refine hNodup.map_on fun a ha b hb hEq => ?_
    rcases escapeName_eq_iff.mp hEq with hSame | ⟨hWord, rfl⟩ | ⟨hWord, rfl⟩
    · exact hSame
    · exact absurd hb (hApart a hWord ha)
    · exact absurd ha (hApart b hWord hb)

/-- Two variables, one of which is named like a C type and the other like the escaped form of that name. -/
def twinVariables : Node :=
  .block [
    .varDecl .scoped .mutable [⟨"int", some "int"⟩] [.number (.integer "1") none ⟨17, 18⟩] ⟨0, 18⟩,
    .varDecl .scoped .mutable [⟨"int_", some "int"⟩] [.number (.integer "2") none ⟨37, 38⟩] ⟨19, 38⟩] ⟨0, 38⟩

/-- Both are declared under the same name. -/
theorem generate_merges_variables :
    "int" ≠ "int_" ∧ escapeName "int" = escapeName "int_" ∧
      (generate ⟨4, .standard⟩ twinVariables).result = .ok
        "#include <stdint.h>\n\nint main() \x7b\n    intptr_t int_ = 1;\n    intptr_t int_ = 2;\n    return 0;\n\x7d\n" :=
  ⟨by decide, by decide, by rfl⟩

-- ---------------------------------------------------------------------------
-- Names of the generator
-- ---------------------------------------------------------------------------

/-- The values that a numeric loop computes once, before its first round. -/
inductive LoopValue where
  | first
  | last
  | step
deriving DecidableEq, Repr

/-- The word for a value in the name of the temporary that holds it. -/
def LoopValue.role : LoopValue → String
  | .first => "begin"
  | .last => "end"
  | .step => "step"

/-- The names that the generator makes up. -/
inductive GeneratedName where
  /-- The record of the string that starts at `start`. -/
  | record (start : Nat)
  /-- The helper of the print call that starts at `start`. -/
  | helper (start : Nat)
  /-- A temporary of a loop over the C variable `var`. -/
  | temporary (var : String) (value : LoopValue)
deriving DecidableEq, Repr

/-- A generated name as it is written. -/
def GeneratedName.text : GeneratedName → String
  | .record start => stringName start
  | .helper start => printName start
  | .temporary var value => Loop.temporary var value.role

theorem LoopValue.getLast?_role (value : LoopValue) :
    ∃ c, value.role.toList.getLast? = some c ∧ c.isDigit = false ∧ c ≠ '_' := by
  cases value <;> exact ⟨_, rfl, by decide, by decide⟩

theorem getLast?_temporary (var : String) (value : LoopValue) :
    (Loop.temporary var value.role).toList.getLast? = value.role.toList.getLast? := by
  obtain ⟨c, hLast, -⟩ := value.getLast?_role
  rw [Loop.temporary, String.toList_append, List.getLast?_append, hLast]
  rfl

/-- A number after one of the two stems looks generated. -/
theorem isGenerated_numbered {stem : String} (h : stem = "__strlit_" ∨ stem = "__print_") (start : Nat) :
    IsGenerated (stem ++ toString start).toList := by
  refine ⟨stem, Nat.toDigits 10 start, h, Nat.toDigits_ne_nil, fun c hc => isDigit_toDigits hc, ?_⟩
  rw [String.toList_append, toList_decimal]

/-- A generated name starts with two underscores and does not end with one. -/
theorem GeneratedName.ends (g : GeneratedName) :
    ['_', '_'] <+: g.text.toList ∧ ∃ c, g.text.toList.getLast? = some c ∧ c ≠ '_' := by
  have hNumbered : ∀ {w : List Char}, IsGenerated w → ['_', '_'] <+: w ∧ ∃ c, w.getLast? = some c ∧ c ≠ '_' := by
    intro w h
    obtain ⟨c, hLast, hDigit⟩ := h.last
    refine ⟨h.start, c, hLast, ?_⟩
    rintro rfl
    exact absurd hDigit (by decide)
  cases g with
  | record start => exact hNumbered (isGenerated_numbered (Or.inl rfl) start)
  | helper start => exact hNumbered (isGenerated_numbered (Or.inr rfl) start)
  | temporary var value =>
    obtain ⟨c, hLast, -, hc⟩ := value.getLast?_role
    refine ⟨?_, c, (getLast?_temporary var value).trans hLast, hc⟩
    simp [text, Loop.temporary, String.toList_append, List.cons_prefix_cons]

theorem escapeName_ne_text (name : String) (g : GeneratedName) : escapeName name ≠ g.text := by
  intro hEq
  obtain ⟨hStart, c, hLast, hc⟩ := g.ends
  rw [← hEq] at hStart hLast
  cases hReserved : isReserved name with
  | true =>
    rw [escapeName_of_isReserved hReserved, String.toList_append] at hLast
    have hEnd : (name.toList ++ "_".toList).getLast? = some '_' := List.getLast?_concat ..
    exact hc (Option.some.inj (hLast.symm.trans hEnd))
  | false =>
    rw [escapeName_of_not_isReserved hReserved] at hStart
    have hSpace := isReserved_iff.mpr (Or.inr (isGeneratorSpace_iff.mpr hStart))
    rw [hReserved] at hSpace
    exact absurd hSpace (by decide)

theorem temporary_inj {u v : String} {x y : LoopValue} (h : Loop.temporary u x.role = Loop.temporary v y.role) :
    u = v ∧ x = y := by
  have hLast : x.role.toList.getLast? = y.role.toList.getLast? := by
    rw [← getLast?_temporary u x, ← getLast?_temporary v y, h]
  have hValue : x = y := by
    clear h
    revert hLast
    cases x <;> cases y <;> decide
  subst hValue
  rw [Loop.temporary, Loop.temporary, String.append_left_inj, String.append_left_inj, String.append_right_inj] at h
  exact ⟨h, rfl⟩

/-- Two names of the generator are the same only if they are made for the same thing. -/
theorem GeneratedName.text_injective : Function.Injective GeneratedName.text := by
  have hRecord : ∀ start : Nat, IsGenerated (stringName start).toList := isGenerated_numbered (Or.inl rfl)
  have hHelper : ∀ start : Nat, IsGenerated (printName start).toList := isGenerated_numbered (Or.inr rfl)
  have hTemporary : ∀ (var : String) (value : LoopValue) {s : String}, IsGenerated s.toList →
      s ≠ Loop.temporary var value.role := by
    rintro var value s hGenerated rfl
    obtain ⟨c, hLast, hDigit, -⟩ := value.getLast?_role
    exact not_isGenerated_temporary var hLast hDigit hGenerated
  intro g g' h
  cases g with
  | record a =>
    cases g' with
    | record b => rw [stringName_inj.mp h]
    | helper b => exact absurd h (stringName_ne_printName a b)
    | temporary var value => exact absurd h (hTemporary var value (hRecord a))
  | helper a =>
    cases g' with
    | record b => exact absurd h.symm (stringName_ne_printName b a)
    | helper b => rw [printName_inj.mp h]
    | temporary var value => exact absurd h (hTemporary var value (hHelper a))
  | temporary var value =>
    cases g' with
    | record b => exact absurd h.symm (hTemporary var value (hRecord b))
    | helper b => exact absurd h.symm (hTemporary var value (hHelper b))
    | temporary var' value' =>
      obtain ⟨rfl, rfl⟩ := temporary_inj h
      rfl

-- ---------------------------------------------------------------------------
-- Escaped names
-- ---------------------------------------------------------------------------

/-- The word that a C type is spelled with, without the stars of a pointer. -/
def Target.CType.word (type : CType) : String :=
  String.ofList (type.spelling.toList.rdropWhile (· = '*'))

/-- The name means nothing in C or in the support code. -/
structure Meaningless (name : String) : Prop where
  keyword : name ∉ keywords
  runtime : name ∉ runtimeNames
  type : ∀ e ∈ primitiveTypes, name ≠ e.2.word

theorem escapeName_not_mem_reservedWords (name : String) : escapeName name ∉ reservedWords := by
  intro hMem
  cases hReserved : isReserved name with
  | true =>
    rw [escapeName_of_isReserved hReserved] at hMem
    exact append_underscore_not_mem_reservedWords name hMem
  | false =>
    rw [escapeName_of_not_isReserved hReserved] at hMem
    have hWord := isReserved_iff.mpr (Or.inl hMem)
    rw [hReserved] at hWord
    exact absurd hWord (by decide)

theorem meaningless_escapeName (name : String) : Meaningless (escapeName name) := by
  have hApart := escapeName_not_mem_reservedWords name
  rw [reservedWords, List.mem_append, List.mem_append, not_or, not_or] at hApart
  have hTypes : ∀ e ∈ primitiveTypes, e.2.word ∈ typeWords := by decide +kernel
  refine ⟨hApart.1.1, hApart.1.2, fun e he hEq => hApart.2 ?_⟩
  rw [hEq]
  exact hTypes e he

/-- **No capture.** A name of the program, once it is escaped, means nothing in C or in the support code and is none of the
names that the generator makes up: for strings, for print calls, for the temporaries of loops. These are pairwise different,
too. -/
theorem generated_names_not_captured :
    (∀ name : String, Meaningless (escapeName name) ∧
      (∀ span : Span, escapeName name ≠ Literal.recordName span ∧ escapeName name ≠ Print.helperName span) ∧
      ∀ (var : String) (value : LoopValue), escapeName name ≠ Loop.temporary (escapeName var) value.role) ∧
    (∀ span : Span, Literal.recordName span = (GeneratedName.record span.start).text ∧
      Print.helperName span = (GeneratedName.helper span.start).text) ∧
    (∀ (var : String) (value : LoopValue),
      Loop.temporary (escapeName var) value.role = (GeneratedName.temporary (escapeName var) value).text) ∧
    Function.Injective GeneratedName.text := by
  refine ⟨fun name => ⟨meaningless_escapeName name, fun span => ⟨?_, ?_⟩, fun var value => ?_⟩,
    fun span => ⟨rfl, rfl⟩, fun var value => rfl, GeneratedName.text_injective⟩
  · exact escapeName_ne_text name (.record span.start)
  · exact escapeName_ne_text name (.helper span.start)
  · exact escapeName_ne_text name (.temporary (escapeName var) value)

end Lowering
