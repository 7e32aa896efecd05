import Lowering.Proofs.C.Spelling
import Lowering.Proofs.C.Word
import Lowering.Proofs.Emit.Names
import Lowering.Proofs.Emit.Text

/-!
# Texts without unknown names

A text is tidy if every word in it that looks like a generated name is one of the names that are known. A name of the
program is tidy, because it is escaped if it could be taken for a generated one, and so are types, numbers and all fixed
texts.

Where pieces of text meet, the end of one and the start of the next must not make one word. Most pieces start or end with
a blank or a mark, which keeps them apart from what is around them.

* `Tidy.parted`, `Tidy.lead`, `Tidy.trail` — a fixed text between, before or after others.
* `Tidy.append_of_takeWhile` — two texts that may make one word, as long as that word cannot look generated.
* `tidy_escapeName`, `tidy_number`, `tidy_recordText` — names, numbers and strings.
-/

namespace Lowering

open C Addition

-- ---------------------------------------------------------------------------
-- Words that look generated
-- ---------------------------------------------------------------------------

/-- The form of generated names: a fixed start, and a row of digits. -/
def IsGenerated (w : List Char) : Prop :=
  ∃ (stem : String) (digits : List Char), (stem = "__strlit_" ∨ stem = "__print_") ∧ digits ≠ [] ∧
    (∀ c ∈ digits, c.isDigit = true) ∧ w = stem.toList ++ digits

variable {names : List String}

/-- A word that looks generated is one of the given names. -/
def Known (names : List String) (w : List Char) : Prop :=
  IsGenerated w → String.ofList w ∈ names

/-- Every word of the text that looks generated is one of the given names. -/
def Tidy (names : List String) (s : String) : Prop :=
  Words (Known names) s.toList

theorem known_of_not_isGenerated {w : List Char} (h : ¬ IsGenerated w) : Known names w :=
  fun hGenerated => absurd hGenerated h

theorem IsGenerated.start {w : List Char} (h : IsGenerated w) : ['_', '_'] <+: w := by
  obtain ⟨stem, digits, hStem, -, -, rfl⟩ := h
  rcases hStem with rfl | rfl
  · exact ⟨"strlit_".toList ++ digits, rfl⟩
  · exact ⟨"print_".toList ++ digits, rfl⟩

theorem IsGenerated.last {w : List Char} (h : IsGenerated w) : ∃ c, w.getLast? = some c ∧ c.isDigit = true := by
  obtain ⟨stem, digits, -, hNe, hDigits, rfl⟩ := h
  refine ⟨digits.getLast hNe, ?_, hDigits _ (List.getLast_mem hNe)⟩
  rw [List.getLast?_append_of_ne_nil _ hNe, List.getLast?_eq_some_getLast hNe]

theorem not_isGenerated_of_getLast? {w : List Char} {c : Char} (h : w.getLast? = some c) (hc : c.isDigit = false) :
    ¬ IsGenerated w := by
  intro hGenerated
  obtain ⟨d, hLast, hd⟩ := hGenerated.last
  rw [h] at hLast
  rw [← Option.some.inj hLast, hc] at hd
  exact absurd hd (by decide)

/-- A name of the program never looks generated: names in the space of the generator are escaped. -/
theorem not_isGenerated_escapeName (name : String) : ¬ IsGenerated (Target.escapeName name).toList := by
  unfold Target.escapeName
  split
  · refine not_isGenerated_of_getLast? (c := '_') ?_ (by decide)
    rw [String.toList_append]
    exact List.getLast?_concat ..
  · rename_i hFree
    intro hGenerated
    obtain ⟨rest, hRest⟩ := hGenerated.start
    refine absurd ?_ hFree
    have hSpace : Target.isGeneratorSpace name = true := by
      rw [Target.isGeneratorSpace, ← hRest]
      rfl
    simp [Target.isReserved, hSpace]

/-- The role in the name of a loop temporary is a word and has no digits. -/
theorem not_isGenerated_temporary (name : String) {role : String} {c : Char} (h : role.toList.getLast? = some c)
    (hc : c.isDigit = false) : ¬ IsGenerated (Loop.temporary name role).toList := by
  refine not_isGenerated_of_getLast? ?_ hc
  rw [Loop.temporary, String.toList_append, List.getLast?_append, h]
  rfl

-- ---------------------------------------------------------------------------
-- Pieces of text
-- ---------------------------------------------------------------------------

/-- No two underscores stand side by side. -/
def Quiet (s : String) : Prop :=
  ¬ ['_', '_'] <:+: s.toList

/-- The text does not start in the middle of a word. -/
def startsApart (s : String) : Bool :=
  !s.toList.head?.any isWordChar

/-- The text does not end in the middle of a word. -/
def endsApart (s : String) : Bool :=
  !s.toList.getLast?.any isWordChar

instance (s : String) : Decidable (Quiet s) :=
  inferInstanceAs (Decidable (¬ _))

/-- The text can stand before any other. -/
def Leads (s : String) : Prop :=
  Quiet s ∧ endsApart s = true

/-- The text can stand after any other. -/
def Trails (s : String) : Prop :=
  Quiet s ∧ startsApart s = true

/-- The text keeps what is before it apart from what is after it. -/
def Parts (s : String) : Prop :=
  Quiet s ∧ startsApart s = true ∧ endsApart s = true ∧ s ≠ ""

instance (s : String) : Decidable (Leads s) :=
  inferInstanceAs (Decidable (_ ∧ _))

instance (s : String) : Decidable (Trails s) :=
  inferInstanceAs (Decidable (_ ∧ _))

instance (s : String) : Decidable (Parts s) :=
  inferInstanceAs (Decidable (_ ∧ _ ∧ _ ∧ _))

theorem startsApart_iff {s : String} : startsApart s = true ↔ NotAhead isWordChar s.toList := by
  unfold startsApart NotAhead
  cases s.toList.head? <;> simp

theorem endsApart_iff {s : String} : endsApart s = true ↔ NotAhead isWordChar s.toList.reverse := by
  unfold endsApart NotAhead
  rw [List.head?_reverse]
  cases s.toList.getLast? <;> simp

theorem startsApart_append {s t : String} (hs : startsApart s = true) (ht : startsApart t = true) :
    startsApart (s ++ t) = true := by
  unfold startsApart at *
  rw [String.toList_append, List.head?_append]
  cases hHead : s.toList.head? with
  | none => exact ht
  | some c =>
    rw [hHead] at hs
    exact hs

theorem endsApart_append {s t : String} (hs : endsApart s = true) (ht : endsApart t = true) :
    endsApart (s ++ t) = true := by
  unfold endsApart at *
  rw [String.toList_append, List.getLast?_append]
  cases hLast : t.toList.getLast? with
  | none => exact hs
  | some c =>
    rw [hLast] at ht
    exact ht

theorem endsApart_append_of_ne {s t : String} (ht : endsApart t = true) (hNe : t ≠ "") : endsApart (s ++ t) = true := by
  rw [endsApart_iff] at *
  rw [String.toList_append, List.reverse_append]
  exact ht.append (by simpa using hNe) _

theorem startsApart_append_of_ne {s t : String} (hs : startsApart s = true) (hNe : s ≠ "") :
    startsApart (s ++ t) = true := by
  rw [startsApart_iff] at *
  rw [String.toList_append]
  exact hs.append (by simpa using hNe) _

-- ---------------------------------------------------------------------------
-- Texts without unknown names
-- ---------------------------------------------------------------------------

theorem tidy_of_quiet {s : String} (h : Quiet s) : Tidy names s := by
  intro before w after hText _ hGenerated
  refine absurd ?_ h
  rw [hText, List.append_assoc]
  exact hGenerated.start.isInfix.trans ⟨before, after, by simp⟩

theorem quiet_of_not_mem {s : String} (h : '_' ∉ s.toList) : Quiet s :=
  fun hInfix => h (hInfix.subset (by simp))

/-- A single word. -/
theorem tidy_word {s : String} (h : IsIdentifier s.toList) (hKnown : Known names s.toList) : Tidy names s :=
  words_of_chars (isWordChar_of_mem h) hKnown

namespace Tidy

variable {s t : String}

theorem append (hs : Tidy names s) (ht : Tidy names t) (h : startsApart t = true) : Tidy names (s ++ t) := by
  unfold Tidy
  rw [String.toList_append]
  exact words_append_of_notAhead hs ht (startsApart_iff.mp h)

theorem append_of_endsApart (hs : Tidy names s) (h : endsApart s = true) (ht : Tidy names t) : Tidy names (s ++ t) := by
  unfold Tidy
  rw [String.toList_append]
  exact words_append_of_notBehind hs ht (endsApart_iff.mp h)

/-- The first word of the second text may go on with the first text if its last character is no digit. -/
theorem append_of_takeWhile (hs : Tidy names s) (ht : Tidy names t)
    (h : ∀ c ∈ (t.toList.takeWhile isWordChar).getLast?, c.isDigit = false) : Tidy names (s ++ t) := by
  unfold Tidy
  rw [String.toList_append]
  refine words_append hs ht fun before u v after _ hText _ hv hWord => ?_
  have hFirst : t.toList.takeWhile isWordChar = v := by
    rw [hText]
    exact takeWhile_append_of_notAhead (fun c hc => hWord.chars c (List.mem_append_right _ hc)) hWord.right
  rw [hFirst] at h
  have hLast : (u ++ v).getLast? = some (v.getLast hv) := by
    rw [List.getLast?_append_of_ne_nil _ hv, List.getLast?_eq_some_getLast hv]
  exact known_of_not_isGenerated (not_isGenerated_of_getLast? hLast (h _ (List.getLast?_eq_some_getLast hv)))

/-- A fixed text, and then any other. -/
theorem lead (f : String) (hf : Leads f) (ht : Tidy names t) : Tidy names (f ++ t) :=
  (tidy_of_quiet hf.1).append_of_endsApart hf.2 ht

/-- Any text, and then a fixed one. -/
theorem trail (hs : Tidy names s) (f : String) (hf : Trails f) : Tidy names (s ++ f) :=
  hs.append (tidy_of_quiet hf.1) hf.2

/-- Two texts with a fixed one between them. -/
theorem parted (hs : Tidy names s) (f : String) (hf : Parts f) (ht : Tidy names t) : Tidy names (s ++ (f ++ t)) :=
  hs.append (lead f ⟨hf.1, hf.2.2.1⟩ ht) (startsApart_append_of_ne hf.2.1 hf.2.2.2)

end Tidy

/-- Lines without unknown names: another text can follow them. -/
structure Closed (names : List String) (s : String) : Prop where
  tidy : Tidy names s
  apart : endsApart s = true

theorem closed_empty : Closed names "" :=
  ⟨tidy_of_quiet (by decide), by decide⟩

theorem Tidy.line {s : String} (h : Tidy names s) : Closed names (s ++ "\n") :=
  ⟨h.trail "\n" (by decide), endsApart_append_of_ne (by decide) (by decide)⟩

namespace Closed

variable {s t : String}

theorem then_tidy (hs : Closed names s) (ht : Tidy names t) : Tidy names (s ++ t) :=
  hs.tidy.append_of_endsApart hs.apart ht

theorem append (hs : Closed names s) (ht : Closed names t) : Closed names (s ++ t) :=
  ⟨hs.then_tidy ht.tidy, endsApart_append hs.apart ht.apart⟩

theorem join {ss : List String} (h : ∀ s ∈ ss, Closed names s) : Closed names (String.join ss) := by
  induction ss with
  | nil => exact closed_empty
  | cons s ss ih =>
    rw [String.join_cons]
    exact (h s (by simp)).append (ih fun t ht => h t (by simp [ht]))

end Closed

-- ---------------------------------------------------------------------------
-- Names, types and numbers
-- ---------------------------------------------------------------------------

theorem quiet_typeSpelling (type : String) : Quiet (typeSpelling type) := by
  unfold typeSpelling
  cases hFind : Target.primitiveTypes.find? type with
  | none => decide
  | some found =>
    have hTable : ∀ e ∈ Target.primitiveTypes, Quiet e.2.spelling := by decide +kernel
    exact hTable _ (mem_of_find? hFind)

theorem tidy_typeSpelling (type : String) : Tidy names (typeSpelling type) :=
  tidy_of_quiet (quiet_typeSpelling type)

theorem tidy_escapeName {name : String} (h : IsIdentifier name.toList) : Tidy names (Target.escapeName name) :=
  tidy_word (Target.isIdentifier_escapeName h) (known_of_not_isGenerated (not_isGenerated_escapeName name))

theorem tidy_temporary {name role : String} {c : Char} (h : IsIdentifier name.toList)
    (hRole : role.toList.all isWordChar = true) (hLast : role.toList.getLast? = some c) (hc : c.isDigit = false) :
    Tidy names (Loop.temporary name role) := by
  refine words_of_chars ?_ (known_of_not_isGenerated (not_isGenerated_temporary name hLast hc))
  rw [Loop.temporary]
  simp only [String.toList_append, List.forall_mem_append]
  exact ⟨⟨⟨List.all_eq_true.mp (by decide), isWordChar_of_mem h⟩, List.all_eq_true.mp (by decide)⟩,
    List.all_eq_true.mp hRole⟩

/-- No underscore stands among the digits of the literal. Alphanumeric digits, points and signs are no underscores. -/
def NumberForm.Unbroken : NumberForm → Prop
  | .integer digits | .decimal digits | .hex digits | .binary digits => '_' ∉ digits.toList
  | .scientific mantissa exponent => '_' ∉ mantissa.toList ∧ '_' ∉ exponent.toList

theorem NumberForm.underscore_not_mem_spelling {form : NumberForm} {spelling : String} (h : form.Unbroken)
    (hSpelling : form.spelling = .ok spelling) : '_' ∉ spelling.toList := by
  cases form with
  | integer digits | decimal digits =>
    obtain rfl := Except.ok.inj hSpelling
    exact h
  | scientific mantissa exponent =>
    obtain rfl := Except.ok.inj hSpelling
    unfold Unbroken at h
    simpa using h
  | hex digits =>
    obtain rfl := Except.ok.inj hSpelling
    unfold Unbroken at h
    simpa using h
  | binary digits =>
    rw [NumberForm.spelling] at hSpelling
    split at hSpelling
    · rename_i value _
      obtain rfl := Except.ok.inj hSpelling
      simp
    · simp at hSpelling

/-- A number that resolves is spelled as its form says, and cast if it has a suffix. -/
theorem parts_of_resolveNumber {form : NumberForm} {suffix : Option String} {n : ResolvedNumber}
    (h : resolveNumber form suffix = .ok n) : form.spelling = .ok n.spelling ∧ n.explicit = suffix.isSome := by
  unfold resolveNumber at h
  cases hSpelling : form.spelling with
  | error cause =>
    rw [hSpelling] at h
    simp [bind, Except.bind] at h
  | ok spelling =>
    rw [hSpelling] at h
    cases suffix with
    | none =>
      obtain rfl := Except.ok.inj h
      exact ⟨rfl, rfl⟩
    | some suffix =>
      simp only [bind, Except.bind] at h
      split at h
      · obtain rfl := Except.ok.inj h
        exact ⟨rfl, rfl⟩
      · simp [throw, throwThe, MonadExceptOf.throw] at h

theorem tidy_number {form : NumberForm} (h : form.Unbroken) (suffix : Option String) :
    Tidy names (pageText (numberAdditions form suffix)) := by
  cases hResolve : resolveNumber form suffix with
  | error cause =>
    simp only [numberAdditions, hResolve]
    exact tidy_of_quiet (by decide)
  | ok n =>
    have hDigits := form.underscore_not_mem_spelling h (parts_of_resolveNumber hResolve).1
    have hSpelling : Tidy names n.spelling := tidy_of_quiet (quiet_of_not_mem hDigits)
    rw [pageText_numberAdditions hResolve, ResolvedNumber.text]
    split
    · simp only [String.append_assoc]
      exact .lead "((" (by decide) ((tidy_typeSpelling _).parted ")" (by decide) (hSpelling.trail ")" (by decide)))
    · exact hSpelling

theorem tidy_recordText {span : Span} (h : stringName span.start ∈ names) : Tidy names (recordText span) := by
  have hName : Tidy names (Literal.recordName span) :=
    tidy_word (Literal.isIdentifier_recordName span) (fun _ => by rwa [String.ofList_toList])
  unfold recordText
  rw [String.append_assoc]
  exact .lead "((nlstring*)&" (by decide) (hName.trail ")" (by decide))

-- ---------------------------------------------------------------------------
-- Lines
-- ---------------------------------------------------------------------------

theorem toList_indentation (level width : Nat) :
    (Page.indentation level width).toList = List.replicate (level * width) ' ' := by
  rw [Page.indentation, String.toList_ofList]

theorem notAhead_blanks (n : Nat) : NotAhead isWordChar (List.replicate n ' ') := by
  intro c hc
  have hBlank : c = ' ' := List.eq_of_mem_replicate (List.mem_of_mem_head? hc)
  rw [hBlank]
  decide

theorem leads_indentation (level width : Nat) : Leads (Page.indentation level width) := by
  refine ⟨quiet_of_not_mem ?_, endsApart_iff.mpr ?_⟩
  · rw [toList_indentation]
    simp
  · rw [toList_indentation, List.reverse_replicate]
    exact notAhead_blanks _

theorem startsApart_indentation (p : Place) : startsApart p.indentation = true := by
  rw [startsApart_iff, Place.indentation, toList_indentation]
  exact notAhead_blanks _

theorem Tidy.indented {s : String} (h : Tidy names s) (p : Place) : Tidy names (p.indentation ++ s) :=
  .lead _ (leads_indentation p.level p.pageWidth) h

section Lines

variable {p : Place} {s l : String}

theorem closed_line (h : Tidy names s) : Closed names (pageText (p.line s)) := by
  rw [pageText_line]
  exact (h.indented p).line

theorem closed_fixed_line (l : String) (h : Quiet l) : Closed names (pageText (p.line l)) :=
  closed_line (tidy_of_quiet h)

/-- Any text, and then a line that starts with a mark. -/
theorem Tidy.then_line (hs : Tidy names s) (l : String) (h : Trails l) : Closed names (s ++ pageText (p.line l)) := by
  rw [pageText_line, ← String.append_assoc]
  exact (hs.append ((tidy_of_quiet h.1).indented p) (startsApart_append (startsApart_indentation p) h.2)).line

theorem closed_guarded {before after : String} {guard : List Addition} (hBefore : Leads before)
    (h : Tidy names (pageText guard)) (hAfter : Trails after) :
    Closed names (pageText (p.guarded before guard after)) := by
  rw [pageText_guarded]
  exact ((Tidy.lead before hBefore (h.trail after hAfter)).indented p).line

end Lines

end Lowering
