import Lowering.Proofs.Prelude
import Lowering.Proofs.Symbols
import Mathlib.Data.List.Perm.Basic

/-!
# Prototypes and definitions

The functions of a program and the helpers of its print calls are declared near the top of the file and defined further
down. Prototypes stand in the order of the tree. Definitions do not, since a function is defined after everything that its
body defines. Still there is a definition for each prototype and a prototype for each definition, with the same signature.

* `Node.declaredSignatures`, `Node.definedSignatures` — the signatures in both orders.
* `prototypes_match_definitions` — the prototypes and the definitions of every program that is written.
* `generate_forgedFunction_defines` — digits can bring a definition along.
-/

namespace Lowering

open C Addition

-- ---------------------------------------------------------------------------
-- Signatures
-- ---------------------------------------------------------------------------

namespace Node

/-- The signature of the helper of a print call. -/
def printSignature? (n : Node) : Option String :=
  n.printArgs?.map fun args => Print.signature (printName n.span.start) (slotsFrom 1 args)

/-- The signature of the function or the print helper that a node stands for. -/
def ownSignatures (n : Node) : List String :=
  n.printSignature?.toList ++ n.signature?.toList

/-- The signatures of functions and print helpers, in the order of the tree. -/
def declaredSignatures (n : Node) : List String :=
  n.nodes.flatMap ownSignatures

/-- The signatures of functions and print helpers, in the order of their definitions: a helper comes before what the
arguments of the call define, and a function after what its body defines. -/
def definedSignatures (n : Node) : List String :=
  n.printSignature?.toList ++ n.children.attach.flatMap (fun c => definedSignatures c.1) ++ n.signature?.toList
termination_by sizeOf n
decreasing_by exact sizeOf_lt_of_mem_children c.2

theorem definedSignatures_eq (n : Node) :
    n.definedSignatures = n.printSignature?.toList ++ n.children.flatMap definedSignatures ++ n.signature?.toList := by
  rw [definedSignatures, List.flatMap_subtype (g := definedSignatures) (fun _ _ => rfl), List.unattach_attach]

theorem declaredSignatures_eq (n : Node) :
    n.declaredSignatures = n.ownSignatures ++ n.children.flatMap declaredSignatures := by
  rw [declaredSignatures, nodes_eq, List.flatMap_cons, List.flatMap_assoc]
  rfl

/-- The two orders are orders of the same signatures. -/
theorem definedSignatures_perm (n : Node) : n.definedSignatures.Perm n.declaredSignatures := by
  induction n using childInduction with
  | step n ih =>
    have hBelow : (n.children.flatMap definedSignatures).Perm (n.children.flatMap declaredSignatures) :=
      List.Perm.flatMap_left _ ih
    rw [definedSignatures_eq, declaredSignatures_eq, ownSignatures, List.append_assoc, List.append_assoc]
    exact ((hBelow.append_right _).trans List.perm_append_comm).append_left _

theorem printSignature?_call (callee : Node) (args : List Node) (span : Span) :
    printSignature? (.call callee args span) = if Expression.intrinsic? callee = some .print then
      some (Print.signature (Print.helperName span) (slotsFrom 1 args)) else none := by
  rw [printSignature?, printArgs?_call]
  split <;> rfl

theorem signature?_call (callee : Node) (args : List Node) (span : Span) : signature? (.call callee args span) = none :=
  rfl

theorem declaration?_funcDef (visibility : Visibility) (name : String) (params : List TypedName) (returns : List String)
    (body : Node) (span : Span) : declaration? (.funcDef visibility name params returns body span) =
      some (functionSignature name params returns ++ ";\n") :=
  rfl

theorem declaration?_call (callee : Node) (args : List Node) (span : Span) :
    declaration? (.call callee args span) = (printSignature? (.call callee args span)).map (· ++ ";\n") := by
  rw [declaration?, printPrototype?, printSignature?, Option.map_map]
  cases printArgs? (.call callee args span) <;> rfl

/-- Functions and print calls have one signature each. -/
theorem length_ownSignatures (n : Node) :
    n.ownSignatures.length = (if n.tag = .funcDef then 1 else 0) + if n.printArgs?.isSome then 1 else 0 := by
  cases n with
  | call callee args span =>
    have hTag : (Node.call callee args span).tag ≠ .funcDef := by simp [tag]
    rw [if_neg hTag, ownSignatures, printSignature?]
    cases printArgs? (.call callee args span) <;> rfl
  | _ => rfl

theorem length_declaredSignatures (n : Node) :
    n.declaredSignatures.length =
      n.nodes.countP (fun m => m.tag = .funcDef) + n.nodes.countP (fun m => m.printArgs?.isSome) := by
  rw [declaredSignatures]
  induction n.nodes with
  | nil => rfl
  | cons m ms ih =>
    rw [List.flatMap_cons, List.length_append, ih, length_ownSignatures, List.countP_cons, List.countP_cons]
    simp only [decide_eq_true_eq]
    omega

end Node

-- ---------------------------------------------------------------------------
-- Prototypes
-- ---------------------------------------------------------------------------

/-- How the record of a string starts. -/
def recordStart : List Char :=
  "static const struct".toList

/-- The lines of a text that are not records of strings. -/
def prototypeLines (s : String) : List (List Char) :=
  (splitLines s.toList).filter fun line => !recordStart.isPrefixOf line

/-- No line that starts like this is the record of a string. -/
def StartsOther (s : String) : Prop :=
  ¬ recordStart <+: s.toList ∧ ¬ s.toList <+: recordStart

instance (s : String) : Decidable (StartsOther s) :=
  inferInstanceAs (Decidable (_ ∧ _))

theorem startsOther_resultSpelling (returns : List String) : StartsOther ("static " ++ resultSpelling returns ++ " ") := by
  cases returns with
  | nil => decide
  | cons type rest =>
    have hTable : ∀ e ∈ Target.primitiveTypes, StartsOther ("static " ++ e.2.spelling ++ " ") := by decide +kernel
    rw [resultSpelling, typeSpelling]
    cases hFind : Target.primitiveTypes.find? type with
    | none => exact (by decide : StartsOther ("static " ++ "" ++ " "))
    | some found => exact hTable (type, found) (mem_of_find? hFind)

theorem not_recordStart_prefix {result : String} (h : StartsOther ("static " ++ result ++ " ")) (name : String)
    (params : List String) (rest : String) :
    recordStart.isPrefixOf (Target.signature result name params ++ rest).toList = false := by
  rw [Bool.eq_false_iff, Ne, List.isPrefixOf_iff_prefix]
  intro hRecord
  have hText : Target.signature result name params ++ rest =
      "static " ++ result ++ " " ++ (name ++ "(" ++ Target.paramList params ++ ")" ++ rest) := by
    unfold Target.signature
    simp only [String.append_assoc]
  have hResult : ("static " ++ result ++ " ").toList <+: (Target.signature result name params ++ rest).toList := by
    rw [hText]
    exact ⟨_, String.toList_append.symm⟩
  rcases List.prefix_or_prefix_of_prefix hRecord hResult with hStart | hStart
  · exact h.1 hStart
  · exact h.2 hStart

theorem prototypeLines_prototype {signature : String} (h : Unbroken signature)
    (hStart : recordStart.isPrefixOf (signature ++ ";").toList = false) :
    prototypeLines (signature ++ ";\n") = [(signature ++ ";").toList] := by
  have hText : signature ++ ";\n" = signature ++ ";" ++ "\n" := by rw [String.append_assoc]; rfl
  rw [prototypeLines, hText, splitLines_line (h.append (by decide)), List.filter_singleton, hStart]
  rfl

theorem prototypeLines_record (span : Span) (value : String) :
    prototypeLines (Literal.record (Literal.recordName span) value) = [] := by
  have hStart : recordStart.isPrefixOf (recordLine span value).toList = true := by
    rw [List.isPrefixOf_iff_prefix]
    have hFixed : recordStart <+: "static const struct \x7b uintptr_t len, res; char data[".toList := by decide
    unfold recordLine
    simp only [String.append_assoc, String.toList_append]
    exact hFixed.trans (List.prefix_append _ _)
  rw [prototypeLines, record_eq_recordLine, splitLines_line (recordLine_unbroken span value), List.filter_singleton, hStart]
  rfl

namespace Node

/-- The line that declares a node. -/
theorem prototypeLines_declaration {n : Node} (h : n.Carries Unbroken) :
    n.declaration?.toList.flatMap prototypeLines = n.ownSignatures.map fun s => (s ++ ";").toList := by
  cases n with
  | string value span =>
    rw [show declaration? (.string value span) = some (Literal.record (Literal.recordName span) value) from rfl,
      Option.toList_some, List.flatMap_singleton, prototypeLines_record]
    rfl
  | call callee args span =>
    rw [declaration?_call, ownSignatures, printSignature?_call, signature?_call]
    by_cases hCallee : Expression.intrinsic? callee = some .print
    · have hVoid : StartsOther ("static " ++ "void" ++ " ") := by decide
      have hStart := not_recordStart_prefix hVoid (Print.helperName span) ((slotsFrom 1 args).map Print.Slot.param) ";"
      have hLine := prototypeLines_prototype (inline_helperSignature span args).2 hStart
      rw [if_pos hCallee, Option.map_some, Option.toList_some, List.flatMap_singleton, hLine]
      rfl
    · rw [if_neg hCallee]
      rfl
  | funcDef visibility name params returns body span =>
    have hSignature : Unbroken (functionSignature name params returns) := h.holds_signature
    have hStart := not_recordStart_prefix (startsOther_resultSpelling returns) (Target.escapeName name)
      (params.map fun p => typeSpelling (p.type.getD "") ++ " " ++ Target.escapeName p.name) ";"
    have hLine := prototypeLines_prototype hSignature hStart
    rw [declaration?_funcDef, Option.toList_some, List.flatMap_singleton, hLine]
    rfl
  | _ => rfl

theorem whole_declaration {n : Node} {line : String} (h : n.declaration? = some line) : Whole line.toList := by
  cases n with
  | string value span =>
    obtain rfl := Option.some.inj h
    exact whole_of_getLast? _ (by decide)
  | call callee args span =>
    rw [declaration?_call] at h
    obtain ⟨signature, -, rfl⟩ := Option.map_eq_some_iff.mp h
    exact whole_of_getLast? _ (by decide)
  | funcDef visibility name params returns body span =>
    obtain rfl := Option.some.inj h
    exact whole_of_getLast? _ (by decide)
  | _ => cases h

end Node

theorem prototypeLines_join {ss : List String} (h : ∀ s ∈ ss, Whole s.toList) :
    prototypeLines (String.join ss) = ss.flatMap prototypeLines := by
  rw [prototypeLines, splitLines_join h, List.filter_flatMap]
  rfl

-- ---------------------------------------------------------------------------
-- Definitions
-- ---------------------------------------------------------------------------

/-- The first line of the definition that an addition brings along. -/
def Addition.definitionHead? (a : Addition) : Option (List Char) :=
  a.definition?.bind fun s => (splitLines s.toList).head?

namespace Node

theorem filterMap_definitionHead?_own (n : Node) (width : Nat) :
    (n.own width).filterMap definitionHead? = n.printSignature?.toList.map fun s => (s ++ " \x7b").toList := by
  cases n with
  | call callee args span =>
    rw [printSignature?_call, own]
    cases hCallee : Expression.intrinsic? callee with
    | none => rfl
    | some intrinsic =>
      cases intrinsic
      have hUnbroken : Unbroken (Print.signature (Print.helperName span) (slotsFrom 1 args)) :=
        (inline_helperSignature span args).2
      have hHead : definitionHead? (.helper (Print.helper width (Print.helperName span) (slotsFrom 1 args))) =
          some (Print.signature (Print.helperName span) (slotsFrom 1 args) ++ " \x7b").toList := by
        rw [definitionHead?, definition?, Option.bind_some, Print.helper, Page.framed, String.append_assoc,
          String.append_assoc]
        exact head?_splitLines (hUnbroken.append (by decide)) _
      rw [if_pos rfl, Option.toList_some, List.map_singleton, List.filterMap_cons_none rfl, List.filterMap_cons_none rfl,
        List.filterMap_cons_some hHead, List.filterMap_nil]
  | _ => rfl

theorem filterMap_definitionHead?_ownAfter {n : Node} (h : n.Carries Unbroken) (p : Place) :
    (n.ownAfter p).filterMap definitionHead? = n.signature?.toList.map fun s => (s ++ " \x7b").toList := by
  cases n with
  | funcDef visibility name params returns body span =>
    have hSignature : Unbroken (functionSignature name params returns) := h.holds_signature
    have hHead : ∀ text, definitionHead? (.function (functionSignature name params returns) text) =
        some (functionSignature name params returns ++ " \x7b").toList := by
      intro text
      have hText : functionText (functionSignature name params returns) text =
          functionSignature name params returns ++ " \x7b" ++ "\n" ++ (text ++ "\x7d\n") := by
        simp [functionText, String.append_assoc]
      rw [definitionHead?, definition?, Option.bind_some, hText]
      exact head?_splitLines (hSignature.append (by decide)) _
    exact List.filterMap_cons_some (hHead _)
  | _ => rfl

/-- The first lines of all that a tree defines. -/
theorem filterMap_definitionHead?_additions {n : Node} {depth : Nat} (hSoundAt : n.SoundAt depth)
    (h : ∀ m ∈ n.nodes, m.Carries Unbroken) (p : Place) :
    (n.additions p).filterMap definitionHead? = n.definedSignatures.map fun s => (s ++ " \x7b").toList := by
  have hFiling : Filing definitionHead? := ⟨⟨fun _ => rfl, fun _ _ => rfl, fun _ => rfl⟩, rfl⟩
  induction n using childInduction generalizing depth p with
  | step n ih =>
    obtain ⟨hSound, hBelow⟩ := soundAt_iff.mp hSoundAt
    obtain ⟨hSelf, hNodes⟩ := forall_mem_nodes.mp h
    rw [filterMap_additions hFiling hSound fun c hc q _ => ih c hc (hBelow c hc) (hNodes c hc) q,
      filterMap_definitionHead?_own, filterMap_definitionHead?_ownAfter hSelf, definedSignatures_eq, List.map_append,
      List.map_append, List.map_flatMap]

/-- Definitions are whole lines, and none of these is empty. -/
theorem filled_definitions {root : Node} {depth : Nat} (hSoundAt : root.SoundAt depth)
    (h : ∀ m ∈ root.nodes, m.Carries Unbroken) (p : Place) :
    ∀ t ∈ (root.additions p).filterMap definition?, Whole t.toList ∧ Filled t := by
  have hFilled : ∀ m ∈ root.nodes, m.Carries Filled := fun m hm => (h m hm).mono fun _ => Unbroken.filled
  intro t ht
  obtain ⟨a, ha, hDefinition⟩ := List.mem_filterMap.mp ht
  cases defines_of_mem hSoundAt p a ha (by simp [hDefinition]) with
  | @helper callee args span hm hCallee =>
    obtain ⟨k, hSound⟩ := exists_soundAt hm hSoundAt
    have hText : Holds Filled (Print.helper p.width (Print.helperName span) (slotsFrom 1 args)) :=
      holds_helper p.width span (printable_of_soundAt hSound hCallee)
    obtain rfl := Option.some.inj hDefinition
    exact ⟨whole_of_getLast? _ (by decide), hText⟩
  | @function visibility name params returns body span q hm =>
    have hBody : Shows Filled (body.additions q) := shows_additions (fun m hBody =>
      hFilled m (nodes_subset hm (nodes_subset (mem_nodes_of_mem_children (by simp [children])) hBody))) q
    have hText : Holds Filled (functionText (functionSignature name params returns) (pageText (body.additions q))) :=
      holds_functionText (hFilled _ hm).holds_signature hBody
    obtain rfl := Option.some.inj hDefinition
    exact ⟨whole_of_getLast? _ (by decide), hText⟩

end Node

-- ---------------------------------------------------------------------------
-- Programs
-- ---------------------------------------------------------------------------

section Program

variable {root : Node} (h : Lowerable root) (hUnbroken : ∀ n ∈ root.nodes, n.Carries Unbroken) (width : Nat)
include h hUnbroken

theorem prototypeLines_program :
    prototypeLines ((Draft.blank width).putAll (root.additions (Draft.blank width).place)).sections.forwardDeclarations =
      root.declaredSignatures.map (fun s => (s ++ ";").toList) := by
  have hWhole : ∀ line ∈ root.nodes.filterMap Node.declaration?, Whole line.toList := by
    intro line hLine
    obtain ⟨n, -, hDeclared⟩ := List.mem_filterMap.mp hLine
    exact Node.whole_declaration hDeclared
  rw [forwardDeclarations_program h, prototypeLines_join hWhole, List.filterMap_eq_flatMap_toList, List.flatMap_assoc,
    Node.declaredSignatures, List.map_flatMap]
  exact List.flatMap_congr fun n hn => Node.prototypeLines_declaration (hUnbroken n hn)

theorem paragraphHeads_program :
    paragraphHeads ((Draft.blank width).putAll (root.additions (Draft.blank width).place)).sections.definitions.toList =
      root.definedSignatures.map (fun s => (s ++ " \x7b").toList) := by
  have hTexts := Node.filled_definitions h.sound hUnbroken (Draft.blank width).place
  rw [definitions_program h, paragraphHeads_intercalate (fun t ht => (hTexts t ht).1) (fun t ht => (hTexts t ht).2),
    List.filterMap_filterMap, ← Node.filterMap_definitionHead?_additions h.sound hUnbroken]
  rfl

end Program

/-- **Prototypes.** In the file of every program, the forward declarations other than the records of strings are the
prototypes of its functions and print helpers, one for each, and the definitions start with the same signatures, each as
often as it is declared. This is so as long as names and digits have no line breaks in them. -/
theorem prototypes_match_definitions (width : Nat) {root : Node} {text : String}
    (h : (generate { width } root).result = .ok text) (hUnbroken : ∀ n ∈ root.nodes, n.Carries Unbroken) :
    ∃ d, visit .standard root (Draft.blank width) = .ok () d ∧ text = d.finish ∧
      prototypeLines d.sections.forwardDeclarations = root.declaredSignatures.map (fun s => (s ++ ";").toList) ∧
      paragraphHeads d.sections.definitions.toList = root.definedSignatures.map (fun s => (s ++ " \x7b").toList) ∧
      root.definedSignatures.Perm root.declaredSignatures ∧
      root.declaredSignatures.length =
        root.nodes.countP (fun n => n.tag = .funcDef) + root.nodes.countP (fun n => n.printArgs?.isSome) := by
  obtain ⟨hLowerable, rfl⟩ := generate_eq_ok_iff.mp h
  obtain ⟨events, hRun⟩ := visit_of_lowerable hLowerable width
  exact ⟨_, hRun, rfl, prototypeLines_program hLowerable hUnbroken width,
    paragraphHeads_program hLowerable hUnbroken width, root.definedSignatures_perm, root.length_declaredSignatures⟩

/-- A function that prints a string, with a print call before it and one after it. -/
def interleaved : Node :=
  .block [
    .call (.id "print" ⟨0, 5⟩) [.number (.integer "1") none ⟨6, 7⟩] ⟨0, 8⟩,
    .funcDef .scoped "greet" [⟨"count", some "int"⟩] ["bool"]
      (.block [.call (.id "print" ⟨30, 35⟩) [.string "hi" ⟨36, 40⟩] ⟨30, 41⟩, .ret [.boolean true ⟨43, 47⟩] ⟨42, 47⟩]
        ⟨30, 47⟩) ⟨9, 50⟩,
    .call (.id "print" ⟨51, 56⟩) [] ⟨51, 58⟩] ⟨0, 58⟩

theorem prototypes_match_definitions_interleaved :
    (∀ n ∈ interleaved.nodes, n.Carries Unbroken) ∧
      ∃ (text : String) (d : Draft), (generate ⟨4, .standard⟩ interleaved).result = .ok text ∧ text = d.finish ∧
        prototypeLines d.sections.forwardDeclarations =
          ["static void __print_0(intptr_t a1);".toList, "static bool greet(intptr_t count);".toList,
            "static void __print_30(const nlstring* a1);".toList, "static void __print_51(void);".toList] ∧
        paragraphHeads d.sections.definitions.toList =
          ["static void __print_0(intptr_t a1) \x7b".toList, "static void __print_30(const nlstring* a1) \x7b".toList,
            "static bool greet(intptr_t count) \x7b".toList, "static void __print_51(void) \x7b".toList] := by
  have hNodes : ∀ n ∈ interleaved.nodes, n.Carries Unbroken := by
    simp only [interleaved, Node.nodes_eq, Node.children, List.flatMap_cons, List.flatMap_nil, List.append_nil,
      List.cons_append, List.nil_append]
    decide
  have hDeclared : interleaved.declaredSignatures = ["static void __print_0(intptr_t a1)",
      "static bool greet(intptr_t count)", "static void __print_30(const nlstring* a1)", "static void __print_51(void)"] := by
    simp only [interleaved, Node.declaredSignatures_eq, Node.children, List.flatMap_cons, List.flatMap_nil]
    decide
  have hDefined : interleaved.definedSignatures = ["static void __print_0(intptr_t a1)",
      "static void __print_30(const nlstring* a1)", "static bool greet(intptr_t count)", "static void __print_51(void)"] := by
    simp only [interleaved, Node.definedSignatures_eq, Node.children, List.flatMap_cons, List.flatMap_nil]
    decide
  obtain ⟨text, hText⟩ : ∃ text, (generate ⟨4, .standard⟩ interleaved).result = .ok text :=
    exists_text_of_isOk (by decide +kernel)
  obtain ⟨d, -, hFinish, hPrototypes, hHeads, -, -⟩ := prototypes_match_definitions 4 hText hNodes
  rw [hDeclared] at hPrototypes
  rw [hDefined] at hHeads
  exact ⟨hNodes, text, d, hText, hFinish, hPrototypes, hHeads⟩

/-- Digits that end one function and start another. -/
def forgedFunction : Node :=
  .block [.funcDef .scoped "f" [] []
    (.block [.number (.integer "1;\n\x7d\n\nstatic void g(void) \x7b\n2") none ⟨10, 11⟩] ⟨10, 11⟩) ⟨0, 12⟩] ⟨0, 12⟩

/-- Digits are copied as they stand, and so a function is defined that has no prototype. All names are in order. -/
theorem generate_forgedFunction_defines :
    (∀ n ∈ forgedFunction.nodes, ∀ name ∈ n.identifiers, IsIdentifier name.toList) ∧
      ∃ d : Draft, (generate ⟨4, .standard⟩ forgedFunction).result = .ok d.finish ∧
        visit .standard forgedFunction (Draft.blank 4) = .ok () d ∧
        prototypeLines d.sections.forwardDeclarations = ["static void f(void);".toList] ∧
        paragraphHeads d.sections.definitions.toList =
          ["static void f(void) \x7b".toList, "static void g(void) \x7b".toList] := by
  have hNames : ∀ n ∈ forgedFunction.nodes, ∀ name ∈ n.identifiers, IsIdentifier name.toList := by
    simp only [forgedFunction, Node.nodes_eq, Node.children, List.flatMap_cons, List.flatMap_nil, List.append_nil]
    decide
  exact ⟨hNames, _, rfl, rfl, by decide, by decide⟩

end Lowering
