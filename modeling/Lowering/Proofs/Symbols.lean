import Lowering.Proofs.Emit.Words
import Lowering.Proofs.Program

/-!
# Generated symbols

Every string of a program has a record and every print call a helper function. Both have generated names, and the text
that uses such a name may stand far away from what it stands for. In the file of a program, each of these names is given
once, is declared before anything is defined, and no other word of the definitions and the entry point looks like one.

* `generated_symbols_defined_once` — all of this, for every program that is written.
-/

namespace Lowering

open C Addition

-- ---------------------------------------------------------------------------
-- What stands for a node
-- ---------------------------------------------------------------------------

/-- The print helper that an addition defines. -/
def Addition.helper? : Addition → Option String
  | .helper s => some s
  | _ => none

namespace Node

/-- The record of a string: twice its length in bytes, and its text in an array with room for one byte more. -/
def record? : Node → Option String
  | .string value span =>
    let length := toString value.utf8ByteSize
    some ("static const struct \x7b uintptr_t len, res; char data[" ++ toString (value.utf8ByteSize + 1) ++ "]; \x7d "
      ++ stringName span.start ++ " = \x7b" ++ length ++ ", " ++ length ++ ", \"" ++ Target.escapeText value ++ "\"\x7d;\n")
  | _ => none

/-- The prototype of the helper of a print call. -/
def printPrototype? (n : Node) : Option String :=
  n.printArgs?.map (fun args => Print.signature (printName n.span.start) (slotsFrom 1 args) ++ ";\n")

/-- The helper of a print call. -/
def printHelper? (width : Nat) (n : Node) : Option String :=
  n.printArgs?.map (fun args => Print.helper width (printName n.span.start) (slotsFrom 1 args))

/-- The signature of a function of the program. -/
def signature? : Node → Option String
  | .funcDef _ name params returns _ _ => some (functionSignature name params returns)
  | _ => none

/-- The line among the forward declarations for a string, a print call or a function. -/
def declaration? (n : Node) : Option String :=
  n.record?.or (n.printPrototype?.or (n.signature?.map (· ++ ";\n")))

theorem filterMap_forward?_own (n : Node) (width : Nat) : (n.own width).filterMap forward? = n.declaration?.toList := by
  cases n with
  | call callee args span =>
    rw [declaration?, printPrototype?, printArgs?_call, own]
    cases hCallee : Expression.intrinsic? callee with
    | none => rfl
    | some intrinsic =>
      cases intrinsic
      rfl
  | _ => rfl

theorem filterMap_helper?_own (n : Node) (width : Nat) :
    (n.own width).filterMap helper? = (n.printHelper? width).toList := by
  cases n with
  | call callee args span =>
    rw [printHelper?, printArgs?_call, own]
    cases hCallee : Expression.intrinsic? callee with
    | none => rfl
    | some intrinsic =>
      cases intrinsic
      rfl
  | _ => rfl

/-- A node with a generated name has a declaration. -/
theorem exists_declaration? {n : Node} {name : String} (h : n.symbolName? = some name) :
    ∃ line, n.declaration? = some line := by
  cases n with
  | string value span => exact ⟨_, rfl⟩
  | call callee args span =>
    rw [symbolName?, printStart?, printArgs?_call] at h
    rw [declaration?, printPrototype?, printArgs?_call]
    cases hCallee : Expression.intrinsic? callee with
    | none => simp [hCallee, stringStart?] at h
    | some intrinsic =>
      cases intrinsic
      exact ⟨_, rfl⟩
  | _ => cases (show none = some name from h)

/-- Read off the additions of a tree, node by node. -/
theorem filterMap_additions_nodes {f : Addition → Option String} (hf : Filing f)
    (hFunction : ∀ signature body, f (.function signature body) = none) {root : Node} {depth : Nat}
    (hSoundAt : root.SoundAt depth) {p : Place} {g : Node → Option String}
    (hOwn : ∀ n : Node, (n.own p.width).filterMap f = (g n).toList) :
    (root.additions p).filterMap f = root.nodes.filterMap g := by
  rw [filterMap_additions_census hf hFunction root hSoundAt, ← map_snd_census depth, List.filterMap_map,
    List.filterMap_eq_flatMap_toList]
  exact List.flatMap_congr fun e _ => hOwn e.2

end Node

-- ---------------------------------------------------------------------------
-- Files
-- ---------------------------------------------------------------------------

theorem toList_infix_join {s : String} {ss : List String} (h : s ∈ ss) : s.toList <:+: (String.join ss).toList := by
  induction ss with
  | nil => simp at h
  | cons t ss ih =>
    rw [String.join_cons, String.toList_append]
    rcases List.mem_cons.mp h with rfl | h
    · exact (List.prefix_append _ _).isInfix
    · exact (ih h).trans (List.suffix_append _ _).isInfix

/-- How a finished draft holds the symbols of the program below `root`. All that stands before the forward declarations
is `head` and all that stands after them is `tail`; the definitions come from `defs`. -/
structure HoldsSymbols (width : Nat) (root : Node) (d : Draft) (head tail : String) (defs : List Addition) : Prop where
  /-- One line for each string, for each print call and for each function, in the order of the tree. -/
  declarations : d.sections.forwardDeclarations = String.join (root.nodes.filterMap Node.declaration?)
  definitions : d.sections.definitions = "\n".intercalate (defs.filterMap definition?)
  /-- One helper for each print call, in the order of the tree. -/
  helpers : defs.filterMap helper? = root.nodes.filterMap (Node.printHelper? width)
  /-- All other definitions are functions of the program, whose names do not look generated. -/
  functions : ∀ signature body, .function signature body ∈ defs → ∃ visibility name params returns block span,
    .funcDef visibility name params returns block span ∈ root.nodes ∧
      signature = functionSignature name params returns ∧ ¬ IsGenerated (Target.escapeName name).toList
  file : d.finish = head ++ d.sections.forwardDeclarations ++ tail
  after : ∃ gap gap', (gap = "" ∨ gap = "\n") ∧ (gap' = "" ∨ gap' = "\n") ∧
    tail = gap ++ d.sections.definitions ++ gap' ++ d.page.text
  /-- After the forward declarations, a word that looks generated is the name of a string or a print call, and its
  declaration stands before it. -/
  uses : (∀ n ∈ root.nodes, n.WellSpelled) → ∀ before w after : List Char, d.finish.toList = before ++ w ++ after →
    (head ++ d.sections.forwardDeclarations).length ≤ before.length → WordAt before w after → IsGenerated w →
      ∃ n ∈ root.nodes, n.symbolName? = some (String.ofList w) ∧
        ∃ line, n.declaration? = some line ∧ line.toList <:+: before
  /-- In particular, this holds of all identifiers there. -/
  identifiers : (∀ n ∈ root.nodes, n.WellSpelled) → ∀ ts w, scan tail.toList = some ts → .word w ∈ ts → IsGenerated w →
    String.ofList w ∈ root.nodes.filterMap Node.symbolName?

section Program

variable {root : Node} (h : Lowerable root) (width : Nat)

theorem closed_gap {names : List String} {gap : String} (h : gap = "" ∨ gap = "\n") : Closed names gap := by
  rcases h with rfl | rfl
  · exact closed_empty
  · exact ⟨tidy_of_quiet (by decide), by decide⟩

include h

theorem forwardDeclarations_program :
    ((Draft.blank width).putAll (root.additions (Draft.blank width).place)).sections.forwardDeclarations =
      String.join (root.nodes.filterMap Node.declaration?) := by
  have hFiling : Filing forward? := ⟨⟨fun _ => rfl, fun _ _ => rfl, fun _ => rfl⟩, rfl⟩
  rw [Draft.forwardDeclarations_putAll, Node.filterMap_additions_nodes hFiling (fun _ _ => rfl) h.sound
    (fun n => n.filterMap_forward?_own _)]
  exact String.empty_append

theorem helpers_program : (root.additions (Draft.blank width).place).filterMap helper? =
    root.nodes.filterMap (Node.printHelper? width) := by
  have hFiling : Filing helper? := ⟨⟨fun _ => rfl, fun _ _ => rfl, fun _ => rfl⟩, rfl⟩
  exact Node.filterMap_additions_nodes hFiling (fun _ _ => rfl) h.sound (fun n => n.filterMap_helper?_own _)

/-- The draft of a program holds its symbols. -/
theorem exists_holdsSymbols (events : List Event) : ∃ head tail,
    HoldsSymbols width root
      (((Draft.blank width).putAll (root.additions (Draft.blank width).place)).withEvents events) head tail
      (root.additions (Draft.blank width).place) := by
  let as := root.additions (Draft.blank width).place
  let names := root.nodes.filterMap Node.symbolName?
  let d := ((Draft.blank width).putAll as).withEvents events
  have hForward : d.sections.forwardDeclarations = String.join (root.nodes.filterMap Node.declaration?) :=
    forwardDeclarations_program h width
  have hDefinitions : d.sections.definitions = "\n".intercalate (as.filterMap definition?) :=
    definitions_program h width
  have hPage : d.page.text = pageText as := Draft.text_page_putAll_blank width as
  have hEntry : (d.sections.add .entryPoint d.page.text).entryPoint = d.page.text := by
    have hEmpty : d.sections.entryPoint = "" := Draft.entryPoint_putAll (Draft.blank width) as
    show d.sections.entryPoint ++ d.page.text = d.page.text
    rw [hEmpty, String.empty_append]
  have hNe : (d.sections.add .entryPoint d.page.text).entryPoint ≠ "" := by
    rw [hEntry, hPage]
    exact pageText_ne_empty width h.block
  obtain ⟨head, gap, gap', hGap, hGap', hFile⟩ := (d.sections.add .entryPoint d.page.text).join_eq hNe
  rw [hEntry] at hFile
  have hTidy : (∀ n ∈ root.nodes, n.WellSpelled) →
      Tidy names (gap ++ d.sections.definitions ++ gap' ++ d.page.text) := by
    intro hSpelled
    have hNames : ∀ m ∈ root.nodes, ∀ name ∈ m.symbolName?, name ∈ names :=
      fun m hm name hName => List.mem_filterMap.mpr ⟨m, hm, hName⟩
    rw [hDefinitions, hPage]
    exact (((closed_gap hGap).append (closed_intercalate (Node.closed_definitions h.sound hSpelled hNames _))).append
      (closed_gap hGap')).then_tidy (Node.tidy_additions hSpelled hNames _).1
  refine ⟨head, gap ++ d.sections.definitions ++ gap' ++ d.page.text, hForward, hDefinitions, helpers_program h width,
    ?_, hFile, ⟨gap, gap', hGap, hGap', rfl⟩, ?_, ?_⟩
  · intro signature body hMem
    cases Node.defines_of_mem h.sound _ _ hMem rfl with
    | @function visibility name params returns block span q hNode =>
      exact ⟨visibility, name, params, returns, block, span, hNode, rfl, not_isGenerated_escapeName name⟩
  · intro hSpelled before w after hText hLength hWord hGenerated
    have hWhole : (head ++ d.sections.forwardDeclarations).toList ++
        (gap ++ d.sections.definitions ++ gap' ++ d.page.text).toList = before ++ w ++ after := by
      rw [← String.toList_append, ← hText]
      exact congrArg String.toList hFile.symm
    obtain ⟨before', rfl, hTail, hWord'⟩ := WordAt.of_append hWhole (by rwa [String.length_toList]) hWord
    obtain ⟨n, hn, hName⟩ := List.mem_filterMap.mp (hTidy hSpelled before' w after hTail hWord' hGenerated)
    obtain ⟨line, hLine⟩ := n.exists_declaration? hName
    have hInfix : line.toList <:+: d.sections.forwardDeclarations.toList := by
      rw [hForward]
      exact toList_infix_join (List.mem_filterMap.mpr ⟨n, hn, hLine⟩)
    refine ⟨n, hn, hName, line, hLine, hInfix.trans ⟨head.toList, before', ?_⟩⟩
    rw [String.toList_append]
  · intro hSpelled ts w hScan hMem hGenerated
    obtain ⟨before, after, hText, hWord⟩ := word_of_mem_scan hScan hMem
    exact hTidy hSpelled before w after hText hWord hGenerated

end Program

-- ---------------------------------------------------------------------------
-- Programs
-- ---------------------------------------------------------------------------

/-- **Generated symbols.** In the file of every program, each string has a record and each print call a helper, under
names that are all different; what is declared and defined is just that and the functions of the program; and no word
after the declarations looks like such a name without being one. A program in which two strings or two print calls start
at the same place has no file. -/
theorem generated_symbols_defined_once (width : Nat) (root : Node) :
    (∀ text, (generate { width } root).result = .ok text →
      (root.nodes.filterMap Node.symbolName?).Nodup ∧
        ∃ d head tail defs, visit .standard root (Draft.blank width) = .ok () d ∧ text = d.finish ∧
          HoldsSymbols width root d head tail defs) ∧
      (¬ (root.nodes.filterMap Node.stringStart?).Nodup ∨ ¬ (root.nodes.filterMap Node.printStart?).Nodup →
        ∀ text, (generate { width } root).result ≠ .ok text) := by
  have hStarts : Lowerable root →
      (root.nodes.filterMap Node.stringStart?).Nodup ∧ (root.nodes.filterMap Node.printStart?).Nodup := by
    intro h
    rw [Node.nodes, List.filterMap_map, List.filterMap_map]
    exact ⟨h.strings, h.prints⟩
  refine ⟨fun text hText => ?_, fun hShared text hText => ?_⟩
  · obtain ⟨h, rfl⟩ := generate_eq_ok_iff.mp hText
    obtain ⟨events, hRun⟩ := visit_of_lowerable h width
    obtain ⟨head, tail, hHolds⟩ := exists_holdsSymbols h width events
    have hNames : (root.nodes.filterMap Node.symbolName?).Nodup := by
      rw [Node.nodes, List.filterMap_map]
      exact (Node.nodup_symbolNames _).mpr ⟨h.strings, h.prints⟩
    exact ⟨hNames, _, head, tail, _, hRun, rfl, hHolds⟩
  · obtain ⟨h, -⟩ := generate_eq_ok_iff.mp hText
    obtain ⟨hStrings, hPrints⟩ := hStarts h
    rcases hShared with hNot | hNot
    · exact hNot hStrings
    · exact hNot hPrints

/-- Two print calls, the second of a string that starts at `start`. -/
def greetings (start : Nat) : Node :=
  .block [.call (.id "print" ⟨0, 5⟩) [.string "hi" ⟨6, 10⟩] ⟨0, 11⟩,
    .call (.id "print" ⟨12, 17⟩) [.string "ho" ⟨start, 22⟩] ⟨12, 23⟩] ⟨0, 23⟩

theorem generated_symbols_defined_once_greetings :
    (∀ n ∈ (greetings 18).nodes, n.WellSpelled) ∧
      (∃ text d head tail defs, (generate ⟨4, .standard⟩ (greetings 18)).result = .ok text ∧ text = d.finish ∧
        HoldsSymbols 4 (greetings 18) d head tail defs) ∧
      ∀ text, (generate ⟨4, .standard⟩ (greetings 6)).result ≠ .ok text := by
  have hSpelled : ∀ n ∈ (greetings 18).nodes, n.WellSpelled := by
    have hPrint : IsIdentifier "print".toList := by decide
    simpa [greetings, Node.nodes_eq, Node.children, Node.WellSpelled] using hPrint
  have hText : ∃ text, (generate ⟨4, .standard⟩ (greetings 18)).result = .ok text :=
    exists_text_of_isOk (by decide +kernel)
  have hShared : ¬ ((greetings 6).nodes.filterMap Node.stringStart?).Nodup := by
    simp only [greetings, Node.nodes_eq, Node.children, List.flatMap_cons, List.flatMap_nil, List.append_nil,
      List.cons_append, List.nil_append]
    decide
  obtain ⟨text, hText⟩ := hText
  obtain ⟨-, d, head, tail, defs, -, hFinish, hHolds⟩ := (generated_symbols_defined_once 4 (greetings 18)).1 text hText
  exact ⟨hSpelled, ⟨text, d, head, tail, defs, hText, hFinish, hHolds⟩,
    (generated_symbols_defined_once 4 (greetings 6)).2 (Or.inl hShared)⟩

end Lowering
