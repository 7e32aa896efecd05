import Mathlib.Data.List.Forall2
import Lowering.Proofs.Independence
import Lowering.Proofs.Symbols

/-!
# Print calls and their helpers

A print call and the helper made for it are written at different ends of the file, and must fit together: as many
parameters as there are arguments, each of the type that its argument has in C, and a format that is right for this type.
The type of a number is looked up in three places, for the parameter, for the cast in the argument itself, and for a
declaration that takes its type from the number. It is the same in all three.

* `Node.PassedAs` — what a print call has to make of an argument.
* `print_helper_matches_call` — the helper and the call, for any literals on any draft.
-/

namespace Lowering

open Addition

-- ---------------------------------------------------------------------------
-- Arguments
-- ---------------------------------------------------------------------------

/-- The C types of numbers, each with the format that prints its values. -/
def printFormats : List (String × String) :=
  [("intptr_t", "\"%\" PRIiPTR"), ("int8_t", "\"%\" PRIi8"), ("int16_t", "\"%\" PRIi16"), ("int32_t", "\"%\" PRIi32"),
   ("int64_t", "\"%\" PRIi64"), ("uintptr_t", "\"%\" PRIuPTR"), ("uint8_t", "\"%\" PRIu8"),
   ("uint16_t", "\"%\" PRIu16"), ("uint32_t", "\"%\" PRIu32"), ("uint64_t", "\"%\" PRIu64"), ("float", "\"%.7g\""),
   ("double", "\"%.14g\"")]

/-- Every numeric type is printed with the format of its C type. -/
theorem directive_mem_printFormats (t : Numeric) : (typeSpelling t.name, t.directive.format) ∈ printFormats := by
  rcases t with w | w | q
  · cases w <;> decide
  · cases w <;> decide
  · cases q <;> decide

/-- What a print call makes of an argument. -/
structure Passed where
  /-- The type of the parameter. -/
  type : String
  /-- The statement that prints the parameter of a given name. -/
  print : String → String
  /-- The argument at the call. -/
  text : String

namespace Node

/-- The node is written as this text on every draft that can give it the name it needs. -/
def WrittenAs (n : Node) (text : String) : Prop :=
  ∀ d : Draft, d.types = Target.primitiveTypes → (∀ name ∈ n.symbolName?, name ∉ d.taken) →
    ∃ e, visit .standard n d = .ok () e ∧ e.page = d.page.write text

/-- What a print call has to make of an argument. A string is passed as a pointer to its record. A number is passed as a
value of the C type that a declaration takes from it and that its suffix casts it to, and is printed with the format of
this type. -/
inductive PassedAs : Node → Passed → Prop where
  | string {value : String} {span : Span} {text : String} (written : (Node.string value span).WrittenAs text) :
    PassedAs (.string value span) ⟨"const nlstring*", fun a => "nlstring_print(" ++ a ++ ");", text⟩
  | number {form : NumberForm} {suffix : Option String} {span : Span} {type format constant text : String}
      (declared : ∀ d : Draft, d.types = Target.primitiveTypes →
        ∃ e, Literal.type? (.number form suffix span) d = .ok (some type) e)
      (spelled : form.spelling = .ok constant)
      (cast : text = if suffix.isSome then "((" ++ type ++ ")" ++ constant ++ ")" else constant)
      (written : (Node.number form suffix span).WrittenAs text) (printed : (type, format) ∈ printFormats) :
    PassedAs (.number form suffix span) ⟨type, fun a => "printf(" ++ format ++ ", " ++ a ++ ");", text⟩

end Node

namespace Passed

/-- The name of a parameter, counted from one. -/
def name (i : Nat) : String :=
  "a" ++ toString (i + 1)

/-- The parameters of the helper. -/
def params (xs : List Passed) : List String :=
  xs.mapIdx fun i x => x.type ++ " " ++ name i

/-- The lines of the helper: every parameter is printed once, with a tab between neighbours; then the line is ended and
flushed. -/
def lines (xs : List Passed) : List String :=
  (xs.mapIdx fun i x => x.print (name i)).intersperse "fputc('\\t', stdout);"
    ++ ["fputc('\\n', stdout);", "fflush(stdout);"]

/-- The signature of the helper. -/
def signature (helper : String) (xs : List Passed) : String :=
  "static void " ++ helper ++ "(" ++ (if xs.isEmpty then "void" else ", ".intercalate (params xs)) ++ ")"

/-- The helper, with its lines indented. -/
def definition (width : Nat) (helper : String) (xs : List Passed) : String :=
  signature helper xs ++ " \x7b\n" ++ String.join ((lines xs).map fun l => Page.indentation 1 width ++ l ++ "\n")
    ++ "\x7d\n"

/-- The slot that fits an argument. -/
def slot (i : Nat) (x : Passed) : Print.Slot :=
  ⟨x.type ++ " " ++ name i, x.print (name i)⟩

theorem map_param_slots (xs : List Passed) : (xs.mapIdx slot).map Print.Slot.param = params xs := by
  simp [params, slot, List.mapIdx_eq_zipIdx_map, Function.comp_def]

theorem map_statement_slots (xs : List Passed) :
    (xs.mapIdx slot).map Print.Slot.statement = xs.mapIdx fun i x => x.print (name i) := by
  simp [slot, List.mapIdx_eq_zipIdx_map, Function.comp_def]

theorem signature_slots (helper : String) (xs : List Passed) :
    Print.signature helper (xs.mapIdx slot) = signature helper xs := by
  have hEmpty : (params xs).isEmpty = xs.isEmpty := by cases xs <;> simp [params, List.mapIdx_cons]
  unfold Print.signature Target.signature Target.paramList
  rw [map_param_slots, hEmpty]
  rfl

theorem helper_slots (width : Nat) (helper : String) (xs : List Passed) :
    Print.helper width helper (xs.mapIdx slot) = definition width helper xs := by
  rw [Print.helper, signature_slots, Print.body, map_statement_slots]
  simp only [Page.framed, definition, lines, String.append_assoc]
  rfl

end Passed

-- ---------------------------------------------------------------------------
-- Literals
-- ---------------------------------------------------------------------------

namespace Node

variable {a : Node} {args : List Node}

/-- A literal has no nodes below it, so it is sound at any depth if it is sound at one. -/
theorem soundAt_of_literal (hTag : a.tag = .string ∨ a.tag = .number) (hSound : a.Sound 0) (depth : Nat) :
    a.SoundAt depth := by
  cases a with
  | string value span => exact soundAt_iff.mpr ⟨trivial, by simp [children]⟩
  | number form suffix span => exact soundAt_iff.mpr ⟨hSound, by simp [children]⟩
  | _ => simp [tag] at hTag

/-- A literal adds to the file what it adds by itself. -/
theorem filterMap_literal {α : Type} {f : Addition → Option α} (hf : Reading f)
    (hTag : a.tag = .string ∨ a.tag = .number) (hSound : a.Sound 0) (p : Place) :
    (a.additions p).filterMap f = (a.own p.width).filterMap f := by
  have hLeaf : a.children = [] ∧ a.ownScopes = 0 ∧ a.ownReturn = [] := by
    cases a <;> simp_all [tag, children, ownScopes, ownReturn]
  obtain ⟨hChildren, hScopes, hReturn⟩ := hLeaf
  rw [filterMap_additions_of_reading hf hSound hScopes (G := fun _ => []) (by simp [hChildren]), hChildren, hReturn]
  simp

/-- The text of a literal is the same everywhere. -/
theorem writtenAs_of_literal (hTag : a.tag = .string ∨ a.tag = .number) (hSound : a.Sound 0) {text : String}
    (hText : ∀ p, a.textAt p = text) : a.WrittenAs text := by
  intro d hTypes hFresh
  obtain ⟨depth, hInside⟩ := d.exists_inside
  have hNames : Addition.names (a.additions d.place) = a.symbolName?.toList := by
    rw [Addition.names, filterMap_literal reading_name? hTag hSound]
    exact a.names_own d.width
  have hFreshAll : d.Fresh (a.additions d.place) := by
    rw [Draft.Fresh, hNames]
    exact ⟨by cases a.symbolName? <;> simp, fun name h => hFresh name (by simpa using h)⟩
  obtain ⟨events, hRun⟩ := (a.visit_adds depth d.place hInside).done d ⟨hTypes, rfl⟩
    (soundAt_of_literal hTag hSound depth) hFreshAll
  exact ⟨_, hRun, hText d.place ▸ page_of_visit hTypes hRun⟩

/-- What a print call makes of a literal. -/
theorem exists_passedAs (hTag : a.tag = .string ∨ a.tag = .number) (hSound : a.Sound 0) :
    ∃ x : Passed, a.PassedAs x ∧ (∀ i, slotOf (i + 1) a = x.slot i) ∧ ∀ p, a.textAt p = x.text := by
  cases a with
  | string value span =>
    have hText : ∀ p, textAt p (.string value span) = recordText span := fun _ => pageText_stringAdditions value span
    exact ⟨_, .string (writtenAs_of_literal hTag hSound hText), fun _ => rfl, hText⟩
  | number form suffix span =>
    obtain ⟨n, hNumber⟩ := (resolveNumber_ok_iff form suffix).mpr hSound
    obtain ⟨hSpelling, hExplicit⟩ := parts_of_resolveNumber hNumber
    have hText : ∀ p, textAt p (.number form suffix span) = n.text := fun _ => pageText_numberAdditions hNumber
    have hType : (Node.number form suffix span).literalType? = some n.type.name := by
      rw [literalType?, hNumber]
      rfl
    have hDeclared : ∀ d : Draft, d.types = Target.primitiveTypes →
        ∃ e, Literal.type? (.number form suffix span) d = .ok (some (typeSpelling n.type.name)) e := by
      intro d hTypes
      have hAdds := literalType_adds (p := d.place) (.number form suffix span)
      rw [hType] at hAdds
      obtain ⟨events, hRun⟩ := hAdds.done d ⟨hTypes, rfl⟩ ⟨n, hNumber⟩ 
        (Draft.fresh_of_names_nil (reading_name?.typeNeeds n.type.name))
      exact ⟨_, hRun⟩
    refine ⟨_, .number hDeclared hSpelling ?_ (writtenAs_of_literal hTag hSound hText) (directive_mem_printFormats n.type),
      ?_, hText⟩
    · rw [ResolvedNumber.text, hExplicit]
    · intro i
      rw [slotOf_number, hNumber]
      rfl
  | _ => simp [tag] at hTag

/-- What a print call makes of literals. -/
theorem exists_passed (hTags : ∀ a ∈ args, a.tag = .string ∨ a.tag = .number) (hSound : ∀ a ∈ args, a.Sound 0) :
    ∃ xs : List Passed, List.Forall₂ PassedAs args xs ∧
      (∀ i, slotsFrom (i + 1) args = xs.mapIdx fun j => Passed.slot (i + j)) ∧
      ∀ p, args.map (textAt p) = xs.map Passed.text := by
  induction args with
  | nil => exact ⟨[], .nil, fun _ => rfl, fun _ => rfl⟩
  | cons a rest ih =>
    obtain ⟨hTag, hTags⟩ := List.forall_mem_cons.mp hTags
    obtain ⟨hFirst, hSound⟩ := List.forall_mem_cons.mp hSound
    obtain ⟨x, hPassed, hSlot, hText⟩ := exists_passedAs hTag hFirst
    obtain ⟨xs, hAll, hSlots, hTexts⟩ := ih hTags hSound
    refine ⟨x :: xs, .cons hPassed hAll, fun i => ?_, fun p => ?_⟩
    · rw [slotsFrom, hSlot, hSlots, List.mapIdx_cons]
      simp only [Nat.add_zero, Nat.add_assoc, Nat.add_comm 1]
    · rw [List.map_cons, List.map_cons, hText, hTexts]

-- ---------------------------------------------------------------------------
-- Calls
-- ---------------------------------------------------------------------------

section Calls

variable (hTags : ∀ a ∈ args, a.tag = .string ∨ a.tag = .number) (hSound : ∀ a ∈ args, a.Sound 0) (callee span : Span)
include hTags hSound

theorem soundAt_printCall (depth : Nat) : (Node.call (.id "print" callee) args span).SoundAt depth := by
  refine soundAt_iff.mpr ⟨fun as hArgs => Option.some.inj hArgs ▸ hTags, fun c hc => ?_⟩
  rcases List.mem_cons.mp hc with rfl | hArg
  · exact soundAt_iff.mpr ⟨trivial, by simp [children]⟩
  · exact soundAt_of_literal (hTags c hArg) (hSound c hArg) _

/-- A print call adds to the file what it adds by itself, and then what its arguments add. -/
theorem filterMap_printCall {α : Type} {f : Addition → Option α} (hf : Reading f) (p : Place) :
    ((Node.call (.id "print" callee) args span).additions p).filterMap f =
      ((Node.call (.id "print" callee) args span).own p.width).filterMap f
        ++ args.flatMap (fun a => (a.own p.width).filterMap f) := by
  have hCall := (soundAt_iff.mp (soundAt_printCall hTags hSound callee span 0)).1
  have hChildren : ∀ c ∈ (Node.call (.id "print" callee) args span).children, ∀ q : Place, q.width = p.width →
      (c.additions q).filterMap f = (c.own p.width).filterMap f := by
    intro c hc q hq
    rcases List.mem_cons.mp hc with rfl | hArg
    · simp [additions, own, hf.text]
    · rw [filterMap_literal hf (hTags c hArg) (hSound c hArg), hq]
  rw [filterMap_additions_of_reading hf hCall rfl hChildren]
  simp [children, own, ownReturn]

theorem names_printCall (p : Place) :
    Addition.names ((Node.call (.id "print" callee) args span).additions p) =
      printName span.start :: (args.filterMap stringStart?).map stringName := by
  have hArgs : args.flatMap (fun a => (a.own p.width).filterMap Addition.name?) =
      (args.filterMap stringStart?).map stringName := by
    rw [List.map_filterMap, List.filterMap_eq_flatMap_toList]
    refine List.flatMap_congr fun a ha => (a.names_own p.width).trans ?_
    have hNoCall : a.printStart? = none := by
      rcases hTags a ha with hTag | hTag <;> cases a <;> first | rfl | simp [tag] at hTag
    rw [symbolName?, hNoCall, Option.map_none, Option.or_none]
  rw [Addition.names, filterMap_printCall hTags hSound callee span reading_name?, hArgs]
  rfl

theorem filterMap_forward?_printCall (p : Place) :
    ((Node.call (.id "print" callee) args span).additions p).filterMap forward? =
      (Print.signature (printName span.start) (slotsFrom 1 args) ++ ";\n") :: args.filterMap record? := by
  have hArgs : args.flatMap (fun a => (a.own p.width).filterMap forward?) = args.filterMap record? := by
    rw [List.filterMap_eq_flatMap_toList]
    refine List.flatMap_congr fun a ha => ?_
    rcases hTags a ha with hTag | hTag <;> cases a <;> first | rfl | simp [tag] at hTag
  rw [filterMap_printCall hTags hSound callee span ⟨fun _ => rfl, fun _ _ => rfl, fun _ => rfl⟩, hArgs]
  rfl

theorem filterMap_definition?_printCall (p : Place) :
    ((Node.call (.id "print" callee) args span).additions p).filterMap definition? =
      [Print.helper p.width (printName span.start) (slotsFrom 1 args)] := by
  have hArgs : args.flatMap (fun a => (a.own p.width).filterMap definition?) = [] := by
    refine List.flatMap_eq_nil_iff.mpr fun a ha => ?_
    rcases hTags a ha with hTag | hTag <;> cases a <;> first | rfl | simp [tag] at hTag
  rw [filterMap_printCall hTags hSound callee span ⟨fun _ => rfl, fun _ _ => rfl, fun _ => rfl⟩, hArgs]
  rfl

end Calls

theorem textAt_printCall (p : Place) (callee : Span) (args : List Node) (span : Span) :
    textAt p (.call (.id "print" callee) args span) =
      printName span.start ++ "(" ++ ", ".intercalate (args.map (textAt (p.descend .call))) ++ ")" := by
  have hTexts : (additionsAll (p.descend .call) args).map pageText = args.map (textAt (p.descend .call)) := by
    rw [additionsAll_eq, List.map_map]
    rfl
  have hAdditions : (Node.call (.id "print" callee) args span).additions p =
      printAdditions (p.descend .call) span args (additionsAll (p.descend .call) args) := rfl
  rw [textAt, hAdditions, pageText_printAdditions, pageText_commaSeparated, hTexts]
  simp only [String.append_assoc]
  rfl

end Node

/-- The definitions after additions: each one after an empty line, unless it is the first. -/
theorem Draft.definitions_putAll_eq_foldl (d : Draft) (as : List Addition) :
    (d.putAll as).sections.definitions = (as.filterMap Addition.definition?).foldl
      (fun before text => before ++ (if before.isEmpty then text else "\n" ++ text)) d.sections.definitions := by
  induction as generalizing d with
  | nil => rfl
  | cons a as ih =>
    have hPut := d.definitions_put a
    rw [putAll_cons, ih, List.filterMap_cons, hPut]
    cases a.definition? <;> rfl

/-- A print call with literals as its arguments is written, on any draft that can give it the names it needs, together
with a helper that fits it: the helper is declared and defined under the name that the call uses, it has a parameter for
each argument, and prints them in their order. -/
theorem print_helper_matches_call {args : List Node} {callee span : Span} {d : Draft}
    (hTypes : d.types = Target.primitiveTypes) (hTags : ∀ a ∈ args, a.tag = .string ∨ a.tag = .number)
    (hSound : ∀ a ∈ args, a.Sound 0) (hStarts : (args.filterMap Node.stringStart?).Nodup)
    (hPrint : printName span.start ∉ d.taken)
    (hStrings : ∀ start ∈ args.filterMap Node.stringStart?, stringName start ∉ d.taken) :
    ∃ (xs : List Passed) (e : Draft), List.Forall₂ Node.PassedAs args xs ∧
      visit .standard (.call (.id "print" callee) args span) d = .ok () e ∧
      e.sections.forwardDeclarations = d.sections.forwardDeclarations
        ++ (Passed.signature (printName span.start) xs ++ ";\n" ++ String.join (args.filterMap Node.record?)) ∧
      e.sections.definitions = d.sections.definitions
        ++ ((if d.sections.definitions.isEmpty then "" else "\n") ++ Passed.definition d.width (printName span.start) xs) ∧
      e.page = d.page.write (printName span.start ++ "(" ++ ", ".intercalate (xs.map Passed.text) ++ ")") := by
  obtain ⟨xs, hPassed, hSlots, hTexts⟩ := Node.exists_passed hTags hSound
  obtain ⟨depth, hInside⟩ := d.exists_inside
  have hFresh : d.Fresh ((Node.call (.id "print" callee) args span).additions d.place) := by
    rw [Draft.Fresh, Node.names_printCall hTags hSound]
    refine ⟨List.nodup_cons.mpr ⟨?_, ?_⟩, List.forall_mem_cons.mpr ⟨hPrint, List.forall_mem_map.mpr hStrings⟩⟩
    · rintro h
      obtain ⟨start, -, hName⟩ := List.mem_map.mp h
      exact stringName_ne_printName _ _ hName
    · exact List.pairwise_map.mpr (hStarts.imp fun hNe hName => hNe (stringName_inj.mp hName))
  obtain ⟨events, hRun⟩ := (Node.visit_adds _ depth d.place hInside).done d ⟨hTypes, rfl⟩
    (Node.soundAt_printCall hTags hSound callee span depth) hFresh
  have hSlots : slotsFrom 1 args = xs.mapIdx Passed.slot := by
    simpa only [Nat.zero_add] using hSlots 0
  refine ⟨xs, _, hPassed, hRun, ?_, ?_, ?_⟩
  · refine (d.forwardDeclarations_putAll _).trans ?_
    rw [Node.filterMap_forward?_printCall hTags hSound, hSlots, Passed.signature_slots, String.join_cons]
  · refine (d.definitions_putAll_eq_foldl _).trans ?_
    rw [Node.filterMap_definition?_printCall hTags hSound, hSlots, Passed.helper_slots]
    show d.sections.definitions ++ _ = _
    split <;> simp [Draft.place]
  · rw [Node.page_of_visit hTypes hRun, Node.textAt_printCall, hTexts]

/-- A string, an integer and a number with a suffix on a new draft. -/
theorem print_helper_matches_call_mixed :
    let args : List Node := [.string "hi" ⟨6, 10⟩, .number (.integer "10") none ⟨12, 14⟩,
      .number (.decimal "2.5") (some "f32") ⟨16, 22⟩]
    ∃ (xs : List Passed) (e : Draft), List.Forall₂ Node.PassedAs args xs ∧
      visit .standard (.call (.id "print" ⟨0, 5⟩) args ⟨0, 23⟩) (Draft.blank 4) = .ok () e ∧
      e.sections.forwardDeclarations =
        "" ++ (Passed.signature "__print_0" xs ++ ";\n" ++ String.join (args.filterMap Node.record?)) ∧
      e.sections.definitions = "" ++ ("" ++ Passed.definition 4 "__print_0" xs) ∧
      e.page = (Page.blank 4).write ("__print_0" ++ "(" ++ ", ".intercalate (xs.map Passed.text) ++ ")") := by
  refine print_helper_matches_call rfl ?_ ?_ ?_ ?_ ?_
  · simp [Node.tag]
  · simp [Node.Sound, NumberForm.Spellable]
    decide
  · decide
  · exact List.not_mem_nil
  · exact fun _ _ => List.not_mem_nil

end Lowering
