import Lowering.Proofs.C.Marks
import Lowering.Proofs.Emit.Layout

/-!
# The pieces of a text

Every text of the file is put together from pieces: fixed texts, numerals, names, and the digits of numbers. A property of
texts that passes from the pieces to the whole, and that all fixed texts have, is a property of the text of every tree whose
names and digits have it. There are three such properties: to have no mark in it, to have no empty line, and, for what
stands on one line, to have no line break.

* `Composes`, `ComposesLines` — properties that pass from the pieces to the whole.
* `Node.Carries` — names and digits with such a property.
* `Node.shows_additions` — the text that a tree leaves on the page.
* `holds_helper`, `holds_functionText` — the definitions.
-/

namespace Lowering

open C Addition

-- ---------------------------------------------------------------------------
-- Properties
-- ---------------------------------------------------------------------------

/-- A text within a line, without marks. -/
def Inline (s : String) : Prop :=
  Unmarked s ∧ '\n' ∉ s.toList

instance (s : String) : Decidable (Inline s) :=
  inferInstanceAs (Decidable (_ ∧ _))

/-- A text without marks and without empty lines. -/
def Sober (s : String) : Prop :=
  Unmarked s ∧ Filled s

instance (s : String) : Decidable (Sober s) :=
  inferInstanceAs (Decidable (_ ∧ _))

/-- A text without line breaks. -/
def Unbroken (s : String) : Prop :=
  '\n' ∉ s.toList

instance (s : String) : Decidable (Unbroken s) :=
  inferInstanceAs (Decidable (_ ∉ _))

/-- A property that passes from the pieces of a line to the line. -/
class Composes (P : String → Prop) : Prop where
  append {s t : String} : P s → P t → P (s ++ t)
  inline {s : String} : Inline s → P s

/-- A property that passes from the pieces of a text to the text. -/
class ComposesLines (P : String → Prop) : Prop extends Composes P where
  sober {s : String} : Sober s → P s

theorem Unbroken.append {s t : String} (hs : Unbroken s) (ht : Unbroken t) : Unbroken (s ++ t) := by
  rw [Unbroken, String.toList_append, List.mem_append]
  exact not_or.mpr ⟨hs, ht⟩

instance : Composes Unbroken where
  append := Unbroken.append
  inline h := h.2

instance : Composes Inline where
  append hs ht := ⟨hs.1.append ht.1, Unbroken.append hs.2 ht.2⟩
  inline h := h

instance : ComposesLines Unmarked where
  append := Unmarked.append
  inline h := h.1
  sober h := h.1

theorem Unbroken.filled {s : String} (h : Unbroken s) : Filled s :=
  fills_of_not_mem h false

instance : ComposesLines Filled where
  append := Filled.append
  inline h := Unbroken.filled h.2
  sober h := h.2

/-- The text has the property. -/
def Holds (P : String → Prop) (s : String) : Prop :=
  P s

section Pieces

variable {P : String → Prop} [Composes P]

theorem Holds.append {s t : String} (hs : Holds P s) (ht : Holds P t) : Holds P (s ++ t) :=
  Composes.append (P := P) hs ht

theorem Inline.holds {s : String} (h : Inline s) : Holds P s :=
  Composes.inline (P := P) h

theorem Sober.holds {Q : String → Prop} [ComposesLines Q] {s : String} (h : Sober s) : Holds Q s :=
  ComposesLines.sober (P := Q) h

theorem holds_empty : Holds P "" :=
  Inline.holds (by decide)

theorem holds_join {ss : List String} (h : ∀ s ∈ ss, Holds P s) : Holds P (String.join ss) := by
  induction ss with
  | nil => exact holds_empty
  | cons s ss ih =>
    obtain ⟨hFirst, hRest⟩ := List.forall_mem_cons.mp h
    rw [String.join_cons]
    exact hFirst.append (ih hRest)

theorem holds_intercalate {sep : String} (hSep : Holds P sep) {ss : List String} (h : ∀ s ∈ ss, Holds P s) :
    Holds P (sep.intercalate ss) := by
  induction ss with
  | nil =>
    rw [String.intercalate_nil]
    exact holds_empty
  | cons s ss ih =>
    obtain ⟨hFirst, hRest⟩ := List.forall_mem_cons.mp h
    cases ss with
    | nil => rwa [String.intercalate_singleton]
    | cons t ss =>
      rw [String.intercalate_cons_cons]
      exact (hFirst.append hSep).append (ih hRest)

end Pieces

-- ---------------------------------------------------------------------------
-- Names, types and numbers
-- ---------------------------------------------------------------------------

/-- Numerals and identifiers. -/
theorem inline_word {s : String} (h : ∀ c ∈ s.toList, isWordChar c = true) : Inline s := by
  have hOthers : ∀ d ∈ ['#', '>', '}', '\n'], isWordChar d = false := List.forall_iff_forall_mem.mp (by decide)
  have hNot : ∀ c ∈ s.toList, c ∉ ['#', '>', '}', '\n'] := by
    intro c hc hMem
    have hWord := h c hc
    rw [hOthers c hMem] at hWord
    exact absurd hWord (by decide)
  refine ⟨unmarked_of_chars fun c hc => ?_, fun hBreak => hNot '\n' hBreak (by decide)⟩
  have hc := hNot c hc
  simp only [List.mem_cons, List.not_mem_nil, or_false, not_or] at hc
  simp [isMarking, hc]

theorem inline_decimal (n : Nat) : Inline (toString n) :=
  inline_word (isWordChar_of_mem_decimal n)

theorem inline_indentation (level width : Nat) : Inline (Page.indentation level width) := by
  have hBlank : ∀ c ∈ (Page.indentation level width).toList, c = ' ' := by
    intro c hc
    rw [toList_indentation] at hc
    exact List.eq_of_mem_replicate hc
  constructor
  · refine unmarked_of_chars fun c hc => ?_
    rw [hBlank c hc]
    rfl
  · intro hBreak
    exact absurd (hBlank _ hBreak) (by decide)

theorem inline_typeSpelling (type : String) : Inline (typeSpelling type) := by
  unfold typeSpelling
  cases hFind : Target.primitiveTypes.find? type with
  | none => exact (by decide : Inline "")
  | some found =>
    have hTable : ∀ e ∈ Target.primitiveTypes, Inline e.2.spelling := by decide +kernel
    exact hTable (type, found) (mem_of_find? hFind)

theorem inline_unaryMark (op : String) : Inline (unaryMark op) := by
  unfold unaryMark
  cases UnaryOp.ofName? op with
  | none => decide
  | some u => cases u <;> decide

theorem inline_binaryMark (op : String) : Inline (" " ++ binaryMark op ++ " ") := by
  unfold binaryMark
  cases BinaryOp.ofName? op with
  | none => decide
  | some b => cases b <;> decide

theorem inline_ternaryMarks (op : String) :
    Inline (" " ++ (ternaryMarks op).1 ++ " ") ∧ Inline (" " ++ (ternaryMarks op).2 ++ " ") := by
  unfold ternaryMarks
  cases TernaryOp.ofName? op with
  | none => decide
  | some t => cases t; decide

theorem inline_qualifier (mutability : Mutability) : Inline ((Declaration.qualifier? mutability).getD "") := by
  cases mutability <;> decide

theorem inline_directive (type : Numeric) : Inline type.directive.format := by
  rcases type with (_ | _ | _ | _ | _) | (_ | _ | _ | _ | _) | (_ | _ | _) <;> decide

theorem inline_helperName (span : Span) : Inline (Print.helperName span) :=
  Holds.append (P := Inline) (Inline.holds (by decide)) (inline_decimal _)

theorem inline_paramName (index : Nat) : Inline (Print.paramName index) :=
  Holds.append (P := Inline) (Inline.holds (by decide)) (inline_decimal _)

section Names

variable {P : String → Prop} [Composes P]

theorem holds_escapeName {name : String} (h : P name) : Holds P (Target.escapeName name) := by
  unfold Target.escapeName
  split
  · exact Holds.append h (Inline.holds (by decide))
  · exact h

theorem holds_temporary {name role : String} (hName : Holds P name) (hRole : Inline role) :
    Holds P (Loop.temporary name role) := by
  have hStart : Inline "__" := by decide
  exact ((hStart.holds.append hName).append (Inline.holds (by decide))).append hRole.holds

theorem NumberForm.holds_spelling {form : NumberForm} {spelling : String} (h : P form.text)
    (hSpelling : form.spelling = .ok spelling) : Holds P spelling := by
  cases form with
  | integer digits | decimal digits | scientific mantissa exponent =>
    obtain rfl := Except.ok.inj hSpelling
    exact h
  | hex digits =>
    obtain rfl := Except.ok.inj hSpelling
    exact Holds.append h (Inline.holds (by decide))
  | binary digits =>
    rw [NumberForm.spelling] at hSpelling
    split at hSpelling
    · obtain rfl := Except.ok.inj hSpelling
      exact (inline_decimal _).holds.append (Inline.holds (by decide))
    · simp at hSpelling

theorem holds_number {form : NumberForm} (h : P form.text) {suffix : Option String} {n : ResolvedNumber}
    (hResolve : resolveNumber form suffix = .ok n) : Holds P n.text := by
  have hSpelling : Holds P n.spelling := form.holds_spelling h (parts_of_resolveNumber hResolve).1
  have hOpen : Inline "((" := by decide
  unfold ResolvedNumber.text
  split
  · exact (((hOpen.holds.append (inline_typeSpelling _).holds).append (Inline.holds (by decide))).append hSpelling).append
      (Inline.holds (by decide))
  · exact hSpelling

end Names

-- ---------------------------------------------------------------------------
-- The page
-- ---------------------------------------------------------------------------

/-- The text on the page has the property. -/
def Shows (P : String → Prop) (as : List Addition) : Prop :=
  Holds P (pageText as)

section Places

variable {P : String → Prop} {as : List Addition}

theorem shows_text {s : String} (h : Holds P s) : Shows P [.text s] := by
  rwa [Shows, pageText_text]

/-- An addition that is not on the page. -/
theorem shows_cons {a : Addition} (ha : a.onPage = "") (h : Shows P as) : Shows P (a :: as) := by
  rwa [Shows, pageText_cons, ha, String.empty_append]

variable [ComposesLines P] {p : Place}

theorem shows_nil : Shows P [] :=
  holds_empty

theorem Shows.append {bs : List Addition} (ha : Shows P as) (hb : Shows P bs) : Shows P (as ++ bs) := by
  rw [Shows, pageText_append]
  exact Holds.append ha hb

theorem shows_flatMap {α : Type} {f : α → List Addition} {l : List α} (h : ∀ a ∈ l, Shows P (f a)) :
    Shows P (l.flatMap f) := by
  rw [Shows, pageText_flatMap]
  exact holds_join (List.forall_mem_map.mpr h)

theorem Sober.shows {s : String} (h : Sober s) : Shows P [.text s] :=
  shows_text h.holds

/-- Additions that are not on the page. -/
theorem shows_of_pageText (h : pageText as = "") : Shows P as := by
  rw [Shows, h]
  exact holds_empty

theorem shows_typeNeeds (type : String) : Shows P (typeNeeds type) :=
  shows_of_pageText (pageText_typeNeeds type)

theorem shows_commaSeparated {parts : List (List Addition)} (h : ∀ as ∈ parts, Shows P as) :
    Shows P (commaSeparated parts) := by
  fun_induction commaSeparated parts with
  | case1 => exact shows_nil
  | case2 as => exact h as (by simp)
  | case3 as rest _ ih =>
    obtain ⟨hFirst, hRest⟩ := List.forall_mem_cons.mp h
    exact (hFirst.append (Sober.shows (by decide))).append (ih hRest)

theorem shows_wrapped (h : Shows P as) : Shows P (p.wrapped as) := by
  unfold Place.wrapped
  split
  · exact ((Sober.shows (by decide)).append h).append (Sober.shows (by decide))
  · exact h

theorem shows_indentation (p : Place) : Shows P [.text p.indentation] :=
  shows_text (inline_indentation _ _).holds

theorem shows_line {s : String} (h : Holds P (s ++ "\n")) : Shows P (p.line s) :=
  (shows_indentation p).append (shows_text h)

/-- A fixed line. -/
theorem Sober.shows_line {s : String} (h : Sober (s ++ "\n")) : Shows P (p.line s) :=
  Lowering.shows_line h.holds

theorem shows_guarded {before after : String} (hBefore : Sober before) (h : Shows P as) (hAfter : Sober (after ++ "\n")) :
    Shows P (p.guarded before as after) :=
  (((shows_indentation p).append hBefore.shows).append h).append hAfter.shows

theorem shows_braced (h : Shows P as) : Shows P (p.braced as) :=
  ((Sober.shows_line (by decide)).append h).append (Sober.shows_line (by decide))

theorem shows_statement (n : Node) (h : Shows P as) : Shows P (p.statement n as) := by
  unfold Place.statement
  split
  · exact ((shows_indentation p).append h).append (Sober.shows (by decide))
  · split
    · exact shows_braced h
    · exact h

theorem shows_block (h : Shows P as) : Shows P (p.block as) := by
  have hClosed : Shows P (closed as) := by rwa [Shows, pageText_closed]
  unfold Place.block
  split
  · refine (((Sober.shows (by decide)).append hClosed).append ?_).append (Sober.shows (by decide))
    split
    · exact shows_nil
    · exact Sober.shows_line (by decide)
  · exact hClosed

theorem shows_ret {values : List (List Addition)} (h : ∀ as ∈ values, Shows P as) : Shows P (p.ret values) := by
  refine ((shows_indentation p).append ?_).append (shows_of_pageText rfl)
  cases values with
  | nil =>
    refine Sober.shows ?_
    split <;> decide
  | cons value rest =>
    exact ((Sober.shows (by decide)).append (h value (by simp))).append (Sober.shows (by decide))

theorem shows_branch {before : String} (hBefore : Sober before) {arm : Arm (List Addition)}
    (h : Shows P arm.guard ∧ Shows P arm.body) : Shows P (p.branch before arm) :=
  (shows_guarded hBefore h.1 (by decide)).append h.2

theorem shows_cond {arms : List (Arm (List Addition))} (h : ∀ a ∈ arms, Shows P a.guard ∧ Shows P a.body)
    {otherwise : Option (List Addition)} (hOtherwise : ∀ as ∈ otherwise, Shows P as) :
    Shows P (p.cond arms otherwise) := by
  cases arms with
  | nil => exact shows_nil
  | cons first rest =>
    obtain ⟨hFirst, hRest⟩ := List.forall_mem_cons.mp h
    have hElse : Shows P (p.otherwise otherwise) := by
      cases otherwise with
      | none => exact shows_nil
      | some block => exact (Sober.shows_line (by decide)).append (hOtherwise block rfl)
    have hOthers : Shows P (rest.flatMap (p.branch "\x7d else if (")) :=
      shows_flatMap fun a ha => shows_branch (by decide) (hRest a ha)
    exact (((shows_branch (by decide) hFirst).append hOthers).append hElse).append (Sober.shows_line (by decide))

theorem shows_armBody (h : Shows P as) : Shows P (p.armBody as) :=
  (h.append (Sober.shows_line (by decide))).append (Sober.shows_line (by decide))

theorem shows_switch (hSubject : Shows P as) {arms : List (Arm (List Addition))}
    (h : ∀ a ∈ arms, Shows P a.guard ∧ Shows P a.body) {otherwise : Option (List Addition)}
    (hOtherwise : ∀ as ∈ otherwise, Shows P as) : Shows P (p.switch as arms otherwise) := by
  have hArms : Shows P (arms.flatMap p.deeper.switchArm) := shows_flatMap fun a ha =>
    (shows_guarded (by decide) (h a ha).1 (by decide)).append (shows_armBody (h a ha).2)
  have hDefault : Shows P (p.deeper.defaultArm otherwise) := by
    cases otherwise with
    | none => exact shows_nil
    | some block => exact (Sober.shows_line (by decide)).append (shows_armBody (hOtherwise block rfl))
  exact (((shows_guarded (by decide) hSubject (by decide)).append hArms).append hDefault).append
    (Sober.shows_line (by decide))

theorem shows_whileLoop {guard : List Addition} (hGuard : Shows P guard) (h : Shows P as) :
    Shows P (p.whileLoop guard as) :=
  ((shows_guarded (by decide) hGuard (by decide)).append h).append (Sober.shows_line (by decide))

theorem shows_repeatLoop {guard : List Addition} (hGuard : Shows P guard) (h : Shows P as) :
    Shows P (p.repeatLoop as guard) :=
  ((Sober.shows_line (by decide)).append h).append (shows_guarded (by decide) hGuard (by decide))

theorem shows_declarator {name : String} (hName : Holds P name) (h : Shows P as) :
    Shows P (declaratorAdditions name as) := by
  have hComma : Inline ", " := by decide
  exact (shows_text ((hComma.holds.append hName).append (Inline.holds (by decide)))).append h

theorem holds_increment {name : String} (hName : Holds P name) (hasStep : Bool) : Holds P (increment name hasStep) := by
  have hPlus : Inline "++" := by decide
  unfold increment
  split
  · exact (hName.append (Inline.holds (by decide))).append (holds_temporary hName (by decide))
  · exact hPlus.holds.append hName

theorem shows_forNum (type : String) {name : String} (hName : Holds P name) {first last : List Addition}
    {step : Option (List Addition)} (hFirst : Shows P first) (hLast : Shows P last) (hStep : ∀ as ∈ step, Shows P as)
    (h : Shows P as) : Shows P (p.forNum type name first last step as) := by
  have hBegin : Holds P (Loop.temporary name "begin") := holds_temporary hName (by decide)
  have hEnd : Holds P (Loop.temporary name "end") := holds_temporary hName (by decide)
  have hFor : Holds P "for (" := Inline.holds (by decide)
  have hBlank : Holds P " " := Inline.holds (by decide)
  have hEquals : Holds P " = " := Inline.holds (by decide)
  have hComma : Holds P ", " := Inline.holds (by decide)
  have hSemicolon : Holds P "; " := Inline.holds (by decide)
  have hSteps : Shows P (stepAdditions name step) := by
    cases step with
    | none => exact shows_nil
    | some step => exact shows_declarator (holds_temporary hName (by decide)) (hStep step rfl)
  have hStart : Shows P [.text p.indentation,
      .text ("for (" ++ typeSpelling type ++ " " ++ Loop.temporary name "begin" ++ " = ")] :=
    (shows_indentation p).append (shows_text ((((hFor.append (inline_typeSpelling type).holds).append hBlank).append
      hBegin).append hEquals))
  have hRest : Shows P [.text (", " ++ name ++ " = " ++ Loop.temporary name "begin"),
      .text ("; " ++ name ++ " <= " ++ Loop.temporary name "end" ++ "; " ++ increment name step.isSome),
      .lineEnd ") \x7b"] := by
    refine ((shows_text (((hComma.append hName).append hEquals).append hBegin)).append (shows_text ?_)).append
      (Sober.shows (by decide))
    exact ((((hSemicolon.append hName).append (Inline.holds (by decide))).append hEnd).append hSemicolon).append
      (holds_increment hName _)
  exact (((((((shows_typeNeeds type).append hStart).append hFirst).append (shows_declarator hEnd hLast)).append
    hSteps).append hRest).append h).append (Sober.shows_line (by decide))

theorem shows_declareVariable {qualifier : String} (hQualifier : Inline qualifier) {var : TypedName}
    (hName : Holds P (Target.escapeName var.name)) {value : Option (Node × List Addition)}
    (h : ∀ v ∈ value, Shows P v.2) : Shows P (p.declareVariable qualifier var value) := by
  have hType : ∀ type, Holds P (typeSpelling type ++ qualifier ++ " " ++ Target.escapeName var.name ++ " = ") := fun type =>
    ((((inline_typeSpelling type).holds.append hQualifier.holds).append (Inline.holds (by decide))).append hName).append
      (Inline.holds (by decide))
  refine ((shows_typeNeeds _).append ((shows_indentation p).append (shows_text (hType _)))).append ?_
  cases value with
  | none => exact Sober.shows (by decide)
  | some v => exact (h v rfl).append (Sober.shows (by decide))

theorem shows_declareVariables {qualifier : String} (hQualifier : Inline qualifier) {vars : List TypedName}
    (hNames : ∀ var ∈ vars, Holds P (Target.escapeName var.name)) {values : List (Node × List Addition)}
    (h : ∀ v ∈ values, Shows P v.2) : Shows P (p.declareVariables qualifier vars values) := by
  induction vars generalizing values with
  | nil => exact shows_nil
  | cons var vars ih =>
    obtain ⟨hName, hRest⟩ := List.forall_mem_cons.mp hNames
    cases values with
    | nil => exact (shows_declareVariable hQualifier hName (by simp)).append (ih hRest h)
    | cons v values =>
      obtain ⟨hValue, hValues⟩ := List.forall_mem_cons.mp h
      exact (shows_declareVariable hQualifier hName (by simpa using hValue)).append (ih hRest hValues)

theorem shows_stores {targets values : List (List Addition)} (hTargets : ∀ as ∈ targets, Shows P as)
    (hValues : ∀ as ∈ values, Shows P as) : Shows P (p.stores targets values) := by
  induction targets generalizing values with
  | nil => exact shows_nil
  | cons target targets ih =>
    cases values with
    | nil => exact shows_nil
    | cons value values =>
      obtain ⟨hTarget, hTargets⟩ := List.forall_mem_cons.mp hTargets
      obtain ⟨hValue, hValues⟩ := List.forall_mem_cons.mp hValues
      exact (((((shows_indentation p).append hTarget).append (Sober.shows (by decide))).append hValue).append
        (Sober.shows (by decide))).append (ih hTargets hValues)

end Places

namespace Node

/-- The names and the digits of a node have the property. -/
structure Carries (P : String → Prop) (n : Node) : Prop where
  names : ∀ name ∈ n.identifiers, P name
  digits : ∀ form ∈ n.form?, P form.text

instance (P : String → Prop) [DecidablePred P] (n : Node) : Decidable (n.Carries P) :=
  decidable_of_iff ((∀ name ∈ n.identifiers, P name) ∧ ∀ form ∈ n.form?, P form.text)
    ⟨fun h => ⟨h.1, h.2⟩, fun h => ⟨h.names, h.digits⟩⟩

theorem Carries.mono {P Q : String → Prop} {n : Node} (h : n.Carries P) (hImp : ∀ s, P s → Q s) : n.Carries Q :=
  ⟨fun name hName => hImp name (h.names name hName), fun form hForm => hImp form.text (h.digits form hForm)⟩

section Tree

variable {P : String → Prop} [ComposesLines P] {n : Node}

/-- One node, if the texts of the nodes below it have the property. -/
theorem shows_additions_step (hCarries : n.Carries P) (p : Place)
    (h : ∀ c ∈ n.children, ∀ q : Place, Shows P (c.additions q)) : Shows P (n.additions p) := by
  have hNames : ∀ name ∈ n.identifiers, Holds P (Target.escapeName name) :=
    fun name hName => holds_escapeName (hCarries.names name hName)
  have hAll : ∀ (cs : List Node) (q : Place), (∀ c ∈ cs, c ∈ n.children) → ∀ as ∈ additionsAll q cs, Shows P as :=
    fun cs q hcs => forall_mem_additionsAll.mpr fun c hc => h c (hcs c hc) q
  have hOption : ∀ (o : Option Node) (q : Place), (∀ c ∈ o, c ∈ n.children) → ∀ as ∈ additionsOption q o, Shows P as :=
    fun o q hcs => forall_mem_additionsOption.mpr fun c hc => h c (hcs c hc) q
  have hArms : ∀ (arms : List (Arm Node)) (q : Place), (∀ a ∈ arms, a.guard ∈ n.children ∧ a.body ∈ n.children) →
      ∀ a ∈ additionsArms q arms, Shows P a.guard ∧ Shows P a.body :=
    fun arms q hcs => forall_mem_additionsArms.mpr fun a ha => ⟨h a.guard (hcs a ha).1 q, h a.body (hcs a ha).2 q.deeper⟩
  cases n with
  | number form suffix span =>
    rw [additions, numberAdditions]
    cases hResolve : resolveNumber form suffix with
    | error cause => exact shows_nil
    | ok m => exact (shows_typeNeeds _).append (shows_text (holds_number (hCarries.digits form rfl) hResolve))
  | string value span =>
    have hOpen : Holds P "((nlstring*)&" := Inline.holds (by decide)
    have hName : Holds P (Literal.recordName span) := Holds.append (Inline.holds (by decide)) (inline_decimal _).holds
    exact shows_cons rfl (shows_cons rfl (shows_cons rfl (shows_text ((hOpen.append hName).append
      (Inline.holds (by decide))))))
  | boolean value span =>
    refine shows_cons rfl (Sober.shows ?_)
    split <;> decide
  | nil span => exact shows_cons rfl (Sober.shows (by decide))
  | varargs span => exact shows_nil
  | forIn vars values body span => exact shows_nil
  | id name span => exact shows_text (hNames name (by simp [identifiers]))
  | paren inner span =>
    exact ((Sober.shows (by decide)).append (h inner (by simp [children]) _)).append (Sober.shows (by decide))
  | dotIndex base field span =>
    have hDot : Holds P "." := Inline.holds (by decide)
    exact (h base (by simp [children]) _).append (shows_text (hDot.append (hNames field (by simp [identifiers]))))
  | arrayIndex base index span =>
    exact (((h base (by simp [children]) _).append (Sober.shows (by decide))).append
      (h index (by simp [children]) _)).append (Sober.shows (by decide))
  | call callee args span =>
    have hArgs := shows_commaSeparated (hAll args (p.descend .call) fun c hc => by simp [children, hc])
    rw [additions]
    cases Expression.intrinsic? callee with
    | none =>
      exact (((h callee (by simp [children]) _).append (Sober.shows (by decide))).append hArgs).append
        (Sober.shows (by decide))
    | some intrinsic =>
      cases intrinsic
      have hName : Holds P (Print.helperName span) := (inline_helperName span).holds
      have hStart : Shows P [.text (Print.helperName span ++ "(")] :=
        shows_text (hName.append (Inline.holds (by decide)))
      have hNeeds : Shows P (args.flatMap slotNeeds) := shows_flatMap fun a _ => shows_of_pageText (pageText_slotNeeds a)
      exact (((shows_cons rfl hNeeds).append (shows_cons rfl (shows_cons rfl (shows_cons rfl hStart)))).append
        hArgs).append (Sober.shows (by decide))
  | unaryOp op operand span =>
    exact shows_wrapped ((shows_text (inline_unaryMark op).holds).append (h operand (by simp [children]) _))
  | binaryOp op lhs rhs span =>
    exact shows_wrapped (((h lhs (by simp [children]) _).append (shows_text (inline_binaryMark op).holds)).append
      (h rhs (by simp [children]) _))
  | ternaryOp op first second third span =>
    obtain ⟨hFirst, hSecond⟩ := inline_ternaryMarks op
    exact shows_wrapped (((((h second (by simp [children]) _).append (shows_text hFirst.holds)).append
      (h first (by simp [children]) _)).append (shows_text hSecond.holds)).append (h third (by simp [children]) _))
  | block statements span =>
    rw [additions, statementsAdditions_eq]
    exact shows_block (shows_flatMap fun c hc => shows_statement c (h c hc _))
  | ret values span => exact shows_ret (hAll values _ fun c hc => hc)
  | cond branches otherwise span =>
    obtain ⟨hMem, hMem'⟩ := forall_mem_arms_append.mp fun c (hc : c ∈ children (.cond branches otherwise span)) => hc
    exact shows_cond (hArms branches _ hMem) (hOption otherwise _ hMem')
  | switch subject cases otherwise span =>
    have hChildren : (Node.switch subject cases otherwise span).children =
      subject :: (cases.flatMap (fun a => [a.guard, a.body]) ++ otherwise.toList) := rfl
    obtain ⟨hMem, hMem'⟩ := forall_mem_arms_append.mp fun c hc => hChildren ▸ List.mem_cons_of_mem subject hc
    exact shows_switch (h subject (by simp [children]) _) (hArms cases _ hMem) (hOption otherwise _ hMem')
  | «scoped» body span => exact shows_braced (h body (by simp [children]) _)
  | whileLoop guard body span =>
    exact shows_whileLoop (h guard (by simp [children]) _) (h body (by simp [children]) _)
  | repeatLoop body guard span =>
    exact shows_repeatLoop (h guard (by simp [children]) _) (h body (by simp [children]) _)
  | forNum var first comparator last step body span =>
    have hStep : ∀ c ∈ step, c ∈ children (.forNum var first comparator last step body span) := by
      intro c hc
      simp only [children, List.mem_append, Option.mem_toList]
      exact Or.inl (Or.inr hc)
    exact shows_forNum _ (hNames var.name (by simp [identifiers])) (h first (by simp [children]) _)
      (h last (by simp [children]) _) (hOption step _ hStep) (h body (by simp [children]) _)
  | breakLoop span => exact Sober.shows_line (by decide)
  | continueLoop span => exact Sober.shows_line (by decide)
  | label name span =>
    refine shows_line ?_
    rw [String.append_assoc]
    exact (hNames name (by simp [identifiers])).append (Sober.holds (by decide))
  | goto target span =>
    have hGoto : Inline "goto " := by decide
    refine shows_line ?_
    rw [String.append_assoc]
    exact (hGoto.holds.append (hNames target (by simp [identifiers]))).append (Sober.holds (by decide))
  | varDecl visibility mutability vars values span =>
    refine shows_declareVariables (inline_qualifier mutability)
      (fun var hVar => hNames var.name (by simpa [identifiers] using ⟨var, hVar, rfl⟩)) ?_
    rw [additionsAll_eq, zip_map_self]
    exact List.forall_mem_map.mpr fun v hv => h v hv _
  | assign targets values span =>
    exact shows_stores (hAll targets _ fun c hc => mem_alternate.mpr (Or.inl hc))
      (hAll values _ fun c hc => mem_alternate.mpr (Or.inr hc))
  | funcDef visibility name params returns body span => exact shows_of_pageText (pageText_functionAdditions ..)

/-- The text on the page has the property. -/
theorem shows_additions (h : ∀ m ∈ n.nodes, m.Carries P) (p : Place) : Shows P (n.additions p) := by
  induction n using childInduction generalizing p with
  | step n ih =>
    obtain ⟨hSelf, hBelow⟩ := forall_mem_nodes.mp h
    exact shows_additions_step hSelf p fun c hc q => ih c hc (hBelow c hc) q

end Tree

end Node

-- ---------------------------------------------------------------------------
-- Definitions
-- ---------------------------------------------------------------------------

section Signatures

variable {P : String → Prop} [Composes P]

theorem holds_signature {result name : String} {params : List String} (hResult : Holds P result) (hName : Holds P name)
    (hParams : ∀ s ∈ params, Holds P s) : Holds P (Target.signature result name params) := by
  have hStart : Inline "static " := by decide
  have hList : Holds P (Target.paramList params) := by
    unfold Target.paramList
    split
    · exact Inline.holds (by decide)
    · exact holds_intercalate (Inline.holds (by decide)) hParams
  exact (((((hStart.holds.append hResult).append (Inline.holds (by decide))).append hName).append
    (Inline.holds (by decide))).append hList).append (Inline.holds (by decide))

/-- The signature of a function. -/
theorem Node.Carries.holds_signature {visibility : Visibility} {name : String} {params : List TypedName}
    {returns : List String} {body : Node} {span : Span}
    (h : Node.Carries P (.funcDef visibility name params returns body span)) :
    Holds P (functionSignature name params returns) := by
  have hResult : Inline (resultSpelling returns) := by
    cases returns with
    | nil => decide
    | cons type rest => exact inline_typeSpelling type
  refine Lowering.holds_signature hResult.holds (holds_escapeName (h.names name (by simp [Node.identifiers])))
    (List.forall_mem_map.mpr fun q hq => ?_)
  have hParam := h.names q.name (List.mem_cons_of_mem _ (List.mem_map_of_mem hq))
  exact ((inline_typeSpelling _).holds.append (Inline.holds (by decide))).append (holds_escapeName hParam)

end Signatures

/-- What an argument declares in a print helper. -/
theorem inline_param (index : Nat) (arg : Node) : Inline (slotOf index arg).param := by
  have hParam : Holds Inline (Print.paramName index) := inline_paramName index
  cases arg with
  | string value span =>
    have hType : Inline "const nlstring* " := by decide
    exact hType.holds.append hParam
  | number form suffix span =>
    rw [slotOf_number]
    cases resolveNumber form suffix with
    | error cause => exact (by decide : Inline "")
    | ok n => exact ((inline_typeSpelling _).holds.append (Inline.holds (by decide))).append hParam
  | _ => exact (by decide : Inline "")

theorem inline_helperSignature (span : Span) (args : List Node) :
    Inline (Print.signature (Print.helperName span) (slotsFrom 1 args)) := by
  have hParams : ∀ index, ∀ slot ∈ slotsFrom index args, Holds Inline slot.param := by
    induction args with
    | nil => simp [slotsFrom]
    | cons arg args ih => exact fun index => List.forall_mem_cons.mpr ⟨inline_param index arg, ih (index + 1)⟩
  exact holds_signature (P := Inline) (Inline.holds (by decide)) (inline_helperName span)
    (List.forall_mem_map.mpr (hParams 1))

section Definitions

variable {P : String → Prop} [ComposesLines P]

/-- What an argument does in a print helper. -/
theorem holds_slotStatement {arg : Node} (h : Printable arg) (index : Nat) :
    Holds P ((slotOf index arg).statement ++ "\n") := by
  have hParam : Holds P (Print.paramName index) := (inline_paramName index).holds
  have hEnd : Holds P (");" ++ "\n") := Sober.holds (by decide)
  obtain ⟨hTag, hResolvable⟩ := h
  cases arg with
  | string value span =>
    have hCall : Inline "nlstring_print(" := by decide
    show Holds P ("nlstring_print(" ++ Print.paramName index ++ ");" ++ "\n")
    rw [String.append_assoc]
    exact (hCall.holds.append hParam).append hEnd
  | number form suffix span =>
    obtain ⟨n, hResolve⟩ := hResolvable
    have hCall : Inline "printf(" := by decide
    rw [slotOf_number, hResolve, String.append_assoc]
    exact (((hCall.holds.append (inline_directive n.type).holds).append (Inline.holds (by decide))).append hParam).append hEnd
  | _ => simp [Node.tag] at hTag

theorem holds_helper (width : Nat) (span : Span) {args : List Node} (h : ∀ a ∈ args, Printable a) :
    Holds P (Print.helper width (Print.helperName span) (slotsFrom 1 args)) := by
  have hStatements : ∀ index, ∀ slot ∈ slotsFrom index args, Holds P (slot.statement ++ "\n") := by
    induction args with
    | nil => simp [slotsFrom]
    | cons arg args ih =>
      obtain ⟨hFirst, hRest⟩ := List.forall_mem_cons.mp h
      exact fun index => List.forall_mem_cons.mpr ⟨holds_slotStatement hFirst index, ih hRest (index + 1)⟩
  have hBody : ∀ l ∈ Print.body (slotsFrom 1 args), Holds P (l ++ "\n") := by
    rw [Print.body, List.forall_mem_append]
    constructor
    · exact forall_mem_intersperse (Sober.holds (by decide)) (List.forall_mem_map.mpr (hStatements 1))
    · simp only [List.forall_mem_cons]
      exact ⟨Sober.holds (by decide), Sober.holds (by decide), by simp⟩
  have hLines : Holds P (String.join ((Print.body (slotsFrom 1 args)).map fun l => Page.indentation 1 width ++ l ++ "\n")) := by
    refine holds_join (List.forall_mem_map.mpr fun l hl => ?_)
    rw [String.append_assoc]
    exact (inline_indentation 1 width).holds.append (hBody l hl)
  have hHead : Holds P (Print.signature (Print.helperName span) (slotsFrom 1 args) ++ (" \x7b" ++ "\n")) :=
    (inline_helperSignature span args).holds.append (Sober.holds (by decide))
  rw [← String.append_assoc] at hHead
  rw [Print.helper, Page.framed, String.append_assoc]
  exact (hHead.append hLines).append (Sober.holds (by decide))

theorem holds_functionText {signature body : String} (hSignature : Holds P signature) (hBody : Holds P body) :
    Holds P (functionText signature body) :=
  ((hSignature.append (Sober.holds (by decide))).append hBody).append (Sober.holds (by decide))

end Definitions

end Lowering
