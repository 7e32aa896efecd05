import Lowering.Proofs.Emit.Needs
import Lowering.Proofs.Emit.Pieces
import Lowering.Proofs.Layout

/-!
# The top of the file

The file of a program starts with what the program needs: the lines of its headers, the record type of strings, and the
function that prints them. Which of these are there is read off the nodes of the program. Every other line of the file is
ordinary, unless a name or the digits of a number bring a mark of such a line along.

* `Node.ordinaryLines_additions` — the forward declarations and the definitions.
* `Draft.Counted` — a file in which directives and support code are at the top only.
* `generated_prelude_is_needed` — the top of the file, for every program that is written.
* `generate_lineInName_includes` — a name can bring the line of a header along.
-/

namespace Lowering

open C Addition

-- ---------------------------------------------------------------------------
-- Other parts of the file
-- ---------------------------------------------------------------------------

/-- A line without marks, or the record of a string, which may hold any text. -/
def Ordinary (line : List Char) : Prop :=
  (∀ mark ∈ Mark.all, ¬ mark.toList <:+: line) ∨ "static const".toList <+: line

/-- A row of ordinary lines. -/
structure OrdinaryLines (s : String) : Prop where
  whole : Whole s.toList
  ordinary : ∀ line ∈ splitLines s.toList, Ordinary line

theorem Unmarked.ordinaryLines {s : String} (h : Unmarked s) (hWhole : Whole s.toList) : OrdinaryLines s :=
  ⟨hWhole, fun _ hLine => Or.inl fun _ hMark => h.not_infix_of_mem_splitLines hLine hMark⟩

theorem ordinaryLines_join {ss : List String} (h : ∀ s ∈ ss, OrdinaryLines s) : OrdinaryLines (String.join ss) where
  whole := whole_join fun s hs => (h s hs).whole
  ordinary := by
    rw [splitLines_join fun s hs => (h s hs).whole]
    intro line hLine
    obtain ⟨s, hs, hMem⟩ := List.mem_flatMap.mp hLine
    exact (h s hs).ordinary line hMem

/-- An empty line is ordinary, too. -/
theorem ordinaryLines_intercalate {ss : List String} (h : ∀ s ∈ ss, OrdinaryLines s) :
    OrdinaryLines ("\n".intercalate ss) where
  whole := whole_intercalate fun s hs => (h s hs).whole
  ordinary := by
    have hEmpty : Ordinary [] := Or.inl (by decide)
    induction ss with
    | nil => simp [splitLines]
    | cons s ss ih =>
      obtain ⟨hFirst, hRest⟩ := List.forall_mem_cons.mp h
      cases ss with
      | nil =>
        rw [String.intercalate_singleton]
        exact hFirst.ordinary
      | cons t ss =>
        rw [splitLines_intercalate_cons_cons hFirst.whole, List.forall_mem_append, List.forall_mem_cons]
        exact ⟨hFirst.ordinary, hEmpty, ih hRest⟩

theorem ordinaryLines_prototype {signature : String} (h : Unmarked signature) : OrdinaryLines (signature ++ ";\n") := by
  exact (h.append (by decide)).ordinaryLines (whole_of_getLast? _ (by decide))

theorem ordinaryLines_helper (width : Nat) (span : Span) {args : List Node} (h : ∀ a ∈ args, Printable a) :
    OrdinaryLines (Print.helper width (Print.helperName span) (slotsFrom 1 args)) := by
  have hHelper : Holds Unmarked (Print.helper width (Print.helperName span) (slotsFrom 1 args)) := holds_helper width span h
  exact Unmarked.ordinaryLines hHelper (whole_of_getLast? _ (by decide))

theorem ordinaryLines_function {signature body : String} (hSignature : Unmarked signature) (hBody : Unmarked body) :
    OrdinaryLines (functionText signature body) := by
  have hText : Holds Unmarked (functionText signature body) := holds_functionText hSignature hBody
  exact Unmarked.ordinaryLines hText (whole_of_getLast? _ (by decide))

/-- The record of a string, without its line break. -/
def recordLine (span : Span) (value : String) : String :=
  "static const struct \x7b uintptr_t len, res; char data[" ++ toString (value.utf8ByteSize + 1) ++ "]; \x7d " ++
    Literal.recordName span ++ " = \x7b" ++ toString value.utf8ByteSize ++ ", " ++ toString value.utf8ByteSize ++ ", " ++
    ("\"" ++ (Target.escapeText value ++ "\"")) ++ "\x7d;"

theorem record_eq_recordLine (span : Span) (value : String) :
    Literal.record (Literal.recordName span) value = recordLine span value ++ "\n" := by
  have hQuote : ", \"" = ", " ++ "\"" := by decide
  have hUnquote : "\"\x7d;\n" = "\"" ++ ("\x7d;" ++ "\n") := by decide
  unfold Literal.record recordLine
  simp only [String.append_assoc, hQuote, hUnquote, -String.reduceAppend]

/-- Line breaks in the string are escaped. -/
theorem recordLine_unbroken (span : Span) (value : String) : '\n' ∉ (recordLine span value).toList := by
  have hDecimal : ∀ n : Nat, '\n' ∉ (toString n).toList :=
    fun n => (flows_of_isPlain (isPlain_of_mem_decimal n) : Flows [] _ []).unbroken
  have hName := (flows_word (Literal.isIdentifier_recordName span)).unbroken
  have hLiteral := (flows_literal value : Flows [] _ []).unbroken
  unfold recordLine
  simp only [String.toList_append, List.mem_append, not_or, and_assoc] at hLiteral ⊢
  exact ⟨by decide, hDecimal _, by decide, hName, by decide, hDecimal _, by decide, hDecimal _, by decide,
    hLiteral.1, hLiteral.2.1, hLiteral.2.2, by decide⟩

theorem ordinaryLines_record (span : Span) (value : String) :
    OrdinaryLines (Literal.record (Literal.recordName span) value) := by
  rw [record_eq_recordLine]
  refine ⟨whole_of_getLast? _ (by decide), ?_⟩
  rw [splitLines_line (recordLine_unbroken span value), List.forall_mem_singleton]
  have hStart : "static const".toList <+: "static const struct \x7b uintptr_t len, res; char data[".toList := by decide
  unfold recordLine
  simp only [String.append_assoc, String.toList_append]
  exact Or.inr (hStart.trans (List.prefix_append _ _))

namespace Node

/-- Neither the names nor the digits of a node bring a mark along. -/
structure Markless (n : Node) : Prop where
  names : ∀ name ∈ n.identifiers, ∀ c ∈ name.toList, isMarking c = false
  digits : ∀ form ∈ n.form?, ∀ c ∈ form.text.toList, isMarking c = false

instance (n : Node) : Decidable n.Markless :=
  decidable_of_iff ((n.identifiers.all fun name => name.toList.all fun c => !isMarking c) = true ∧
      (n.form?.toList.all fun form => form.text.toList.all fun c => !isMarking c) = true)
    ⟨fun h => ⟨by simpa using h.1, by simpa using h.2⟩, fun h => ⟨by simpa using h.names, by simpa using h.digits⟩⟩

theorem Markless.carries {n : Node} (h : n.Markless) : n.Carries Unmarked :=
  ⟨fun name hName => unmarked_of_chars (h.names name hName), fun form hForm => unmarked_of_chars (h.digits form hForm)⟩

/-- All that a tree puts into the forward declarations and the definitions. -/
theorem ordinaryLines_additions {root : Node} {depth : Nat} (hSoundAt : root.SoundAt depth)
    (h : ∀ m ∈ root.nodes, m.Markless) (p : Place) :
    ∀ a ∈ root.additions p, (∀ t ∈ a.forward?, OrdinaryLines t) ∧ ∀ t ∈ a.definition?, OrdinaryLines t := by
  refine forall_mem_additions (by simp [forward?, definition?]) (by simp [forward?, definition?])
    (by simp [forward?, definition?]) (by simp [forward?, definition?]) hSoundAt p fun m hm q _ => ?_
  obtain ⟨k, hSound⟩ := exists_soundAt hm hSoundAt
  cases m with
  | string value span => simpa [own, ownAfter, forward?, definition?] using ordinaryLines_record span value
  | call callee args span =>
    cases hCallee : Expression.intrinsic? callee with
    | none => simp [own, ownAfter, hCallee]
    | some intrinsic =>
      cases intrinsic
      have hPrototype := ordinaryLines_prototype (inline_helperSignature span args).1
      have hHelper := ordinaryLines_helper q.width span (printable_of_soundAt hSound hCallee)
      simpa [own, ownAfter, hCallee, forward?, definition?] using ⟨hPrototype, hHelper⟩
  | funcDef visibility name params returns body span =>
    have hSignature : Holds Unmarked (functionSignature name params returns) := (h _ hm).carries.holds_signature
    have hBody : Shows Unmarked (body.additions (q.descend .funcDef).inFunction) := shows_additions (fun m hBody =>
      (h m (nodes_subset hm (nodes_subset (mem_nodes_of_mem_children (by simp [children])) hBody))).carries) _
    simpa [own, ownAfter, forward?, definition?] using
      ⟨ordinaryLines_prototype hSignature, ordinaryLines_function hSignature hBody⟩
  | _ => simp [own, ownAfter]

end Node

-- ---------------------------------------------------------------------------
-- The lines at the top
-- ---------------------------------------------------------------------------

/-- The last line of the record type. -/
def recordEnd : List Char :=
  "\x7d nlstring;".toList

/-- The line in the body of the function that prints strings. -/
def printerBody (width : Nat) : List Char :=
  (Page.indentation 1 width ++ "fwrite(s->data, 1, s->len, stdout);").toList

theorem arrow_infix_printerBody (width : Nat) : "->".toList <:+: printerBody width := by
  have hArrow : "->".toList <:+: "fwrite(s->data, 1, s->len, stdout);".toList := by decide
  rw [printerBody, String.toList_append]
  exact hArrow.trans (List.suffix_append _ _).isInfix

section Ordinary

variable {line : List Char} (h : Ordinary line)
include h

theorem Ordinary.isDirective_eq_false : isDirective line = false := by
  cases hDirective : isDirective line with
  | false => rfl
  | true =>
    rcases h with hMark | ⟨rest, rfl⟩
    · refine absurd ?_ (hMark "#" (by decide))
      obtain ⟨before, after, rfl⟩ := List.append_of_mem (mem_of_isDirective hDirective)
      exact ⟨before, after, by simp⟩
    · exact absurd hDirective (by simp [isDirective])

theorem Ordinary.ne_recordEnd : line ≠ recordEnd := by
  rintro rfl
  rcases h with hMark | hStatic
  · exact hMark "\x7d n" (by decide) (by decide)
  · exact absurd hStatic (by decide)

theorem Ordinary.ne_printerBody (width : Nat) : line ≠ printerBody width := by
  rintro rfl
  rcases h with hMark | ⟨rest, hLine⟩
  · exact hMark "->" (by decide) (arrow_infix_printerBody width)
  · rw [printerBody, String.toList_append, toList_indentation] at hLine
    cases hBlanks : 1 * width with
    | zero => simp [hBlanks] at hLine
    | succ n => simp [hBlanks, List.replicate_succ] at hLine

end Ordinary

/-- A few lines between others. -/
theorem splitLines_framed (width : Nat) {head foot : String} {body : List String} (hHead : '\n' ∉ head.toList)
    (hBody : ∀ l ∈ body, '\n' ∉ l.toList) (hFoot : '\n' ∉ foot.toList) :
    splitLines (Page.framed width head body foot).toList =
      head.toList :: body.map (fun l => (Page.indentation 1 width ++ l).toList) ++ [foot.toList] := by
  have hWhole : ∀ s : String, Whole (s ++ "\n").toList := fun s => whole_of_getLast? s (by decide)
  have hLines : ∀ l ∈ body, splitLines (Page.indentation 1 width ++ l ++ "\n").toList =
      [(Page.indentation 1 width ++ l).toList] := by
    intro l hl
    refine splitLines_line ?_
    rw [String.toList_append, List.mem_append, not_or]
    exact ⟨fun hMem => absurd (List.eq_of_mem_replicate (toList_indentation 1 width ▸ hMem)) (by decide), hBody l hl⟩
  have hJoin : splitLines (String.join (body.map fun l => Page.indentation 1 width ++ l ++ "\n")).toList =
      body.map (fun l => (Page.indentation 1 width ++ l).toList) := by
    rw [splitLines_join (List.forall_mem_map.mpr fun l _ => hWhole _), List.flatMap_map, List.flatMap_congr hLines]
    exact List.map_eq_flatMap.symm
  have hText : Page.framed width head body foot = head ++ "\n" ++
      String.join (body.map fun l => Page.indentation 1 width ++ l ++ "\n") ++ (foot ++ "\n") := by
    rw [Page.framed, String.append_assoc]
  rw [hText, String.toList_append, String.toList_append,
    splitLines_append (whole_append (hWhole head) (whole_join (List.forall_mem_map.mpr fun l _ => hWhole _))),
    splitLines_append (hWhole head), splitLines_line hHead, hJoin, splitLines_line hFoot]
  rfl

/-- The lines of the record type. -/
theorem splitLines_stringRecord (width : Nat) :
    splitLines (Draft.stringRecord width).toList =
      "typedef struct nlstring \x7b".toList ::
        ["uintptr_t len;", "uintptr_t res;", "char data[];"].map (fun l => (Page.indentation 1 width ++ l).toList)
        ++ [recordEnd] :=
  splitLines_framed width (by decide) (by decide) (by decide)

/-- The lines of the function that prints strings. -/
theorem splitLines_stringPrinter (width : Nat) :
    splitLines (Draft.stringPrinter width).toList =
      ["static inline void nlstring_print(const nlstring* s) \x7b".toList, printerBody width, "\x7d".toList] :=
  splitLines_framed width (by decide) (by decide) (by decide)

theorem mem_indented {width : Nat} {c : Char} (hc : c ≠ ' ') (l : String) :
    c ∈ (Page.indentation 1 width ++ l).toList ↔ c ∈ l.toList := by
  rw [String.toList_append, toList_indentation, List.mem_append]
  exact or_iff_right fun hMem => hc (List.eq_of_mem_replicate hMem)

theorem not_mem_indented {width : Nat} {c : Char} (hc : c ≠ ' ') {head : String} {body : List String}
    (hHead : c ∉ head.toList) (hBody : ∀ l ∈ body, c ∉ l.toList) :
    ∀ l ∈ head.toList :: body.map (fun l => (Page.indentation 1 width ++ l).toList), c ∉ l :=
  List.forall_mem_cons.mpr ⟨hHead, List.forall_mem_map.mpr fun l hl => (mem_indented hc l).not.mpr (hBody l hl)⟩

/-- What can be counted in the lines of a text: directives, record types of strings, and functions that print them. -/
structure Counts (width : Nat) (text : String) (directives : List (List Char)) (records printers : Nat) : Prop where
  whole : Whole text.toList
  directives : (splitLines text.toList).filter isDirective = directives
  records : (splitLines text.toList).count recordEnd = records
  printers : (splitLines text.toList).count (printerBody width) = printers

theorem not_mem_of_forall {c : Char} {l : List Char} {ls : List (List Char)} (hc : c ∈ l) (h : ∀ x ∈ ls, c ∉ x) : l ∉ ls :=
  fun hMem => h l hMem hc

theorem filter_isDirective_eq_nil {ls : List (List Char)} (h : ∀ l ∈ ls, '#' ∉ l) : ls.filter isDirective = [] :=
  List.filter_eq_nil_iff.mpr fun l hl hDirective => h l hl (mem_of_isDirective hDirective)

theorem counts_stringRecord (width : Nat) : Counts width (Draft.stringRecord width) [] 1 0 := by
  have hLines : ∀ c : Char, c ≠ ' ' → c ∉ "typedef struct nlstring \x7b".toList →
      (∀ l ∈ ["uintptr_t len;", "uintptr_t res;", "char data[];"], c ∉ l.toList) → c ∉ recordEnd →
      ∀ l ∈ splitLines (Draft.stringRecord width).toList, c ∉ l := by
    intro c hBlank hHead hBody hFoot
    rw [splitLines_stringRecord]
    exact List.forall_mem_append.mpr ⟨not_mem_indented hBlank hHead hBody, List.forall_mem_singleton.mpr hFoot⟩
  refine ⟨whole_of_getLast? _ (by decide), ?_, ?_, ?_⟩
  · exact filter_isDirective_eq_nil (hLines '#' (by decide) (by decide) (by decide) (by decide))
  · -- Of the lines of the record type, only the last one has a closing brace.
    rw [splitLines_stringRecord, List.count_append, List.count_singleton_self, Nat.add_eq_right, List.count_eq_zero]
    exact not_mem_of_forall (c := '}') (by decide) (not_mem_indented (by decide) (by decide) (by decide))
  · have hParen : '(' ∈ printerBody width := (mem_indented (by decide) _).mpr (by decide)
    exact List.count_eq_zero.mpr
      (not_mem_of_forall hParen (hLines '(' (by decide) (by decide) (by decide) (by decide)))

theorem counts_stringPrinter (width : Nat) : Counts width (Draft.stringPrinter width) [] 0 1 := by
  have hHash : '#' ∉ printerBody width := (mem_indented (by decide) _).not.mpr (by decide)
  -- No other line of the function, and none of the record type, has an arrow.
  have hOther : ∀ l : List Char, '>' ∉ l → printerBody width ≠ l := by
    rintro l hl rfl
    exact hl ((mem_indented (by decide) _).mpr (by decide))
  refine ⟨whole_of_getLast? _ (by decide), ?_, ?_, ?_⟩ <;> rw [splitLines_stringPrinter]
  · refine filter_isDirective_eq_nil ?_
    simp only [List.forall_mem_cons]
    exact ⟨by decide, hHash, by decide, by simp⟩
  · rw [List.count_cons_of_ne (by decide), List.count_cons_of_ne (hOther _ (by decide))]
    decide
  · rw [List.count_cons_of_ne (hOther _ (by decide)).symm, List.count_cons_self,
      List.count_cons_of_ne (hOther _ (by decide)).symm, List.count_nil]

/-- The line of a header. -/
def includeDirective (header : String) : List Char :=
  ("#include <" ++ header ++ ">").toList

theorem counts_includes (width : Nat) {headers : List String} (h : ∀ header ∈ headers, header ∈ knownHeaders) :
    Counts width (String.join (headers.map Draft.includeLine)) (headers.map includeDirective) 0 0 := by
  have hKnown : ∀ header ∈ knownHeaders, '\n' ∉ ("#include <" ++ header ++ ">").toList ∧ '(' ∉ includeDirective header ∧
      '}' ∉ includeDirective header ∧ isDirective (includeDirective header) = true := by decide
  have hText : ∀ header, Draft.includeLine header = "#include <" ++ header ++ ">" ++ "\n" := by
    intro header
    simp [Draft.includeLine, String.append_assoc]
  have hWhole : ∀ s ∈ headers.map Draft.includeLine, Whole s.toList := by
    refine List.forall_mem_map.mpr fun header _ => ?_
    rw [hText]
    exact whole_of_getLast? _ (by decide)
  have hLines : splitLines (String.join (headers.map Draft.includeLine)).toList = headers.map includeDirective := by
    rw [splitLines_join hWhole, List.flatMap_map, List.map_eq_flatMap]
    refine List.flatMap_congr fun header hHeader => ?_
    rw [hText]
    exact splitLines_line (hKnown header (h header hHeader)).1
  refine ⟨whole_join hWhole, ?_, ?_, ?_⟩ <;> rw [hLines]
  · exact List.filter_eq_self.mpr (List.forall_mem_map.mpr fun header hHeader => (hKnown header (h header hHeader)).2.2.2)
  · refine List.count_eq_zero.mpr (not_mem_of_forall (c := '}') (by decide) ?_)
    exact List.forall_mem_map.mpr fun header hHeader => (hKnown header (h header hHeader)).2.2.1
  · refine List.count_eq_zero.mpr (not_mem_of_forall (c := '(') ((mem_indented (by decide) _).mpr (by decide)) ?_)
    exact List.forall_mem_map.mpr fun header hHeader => (hKnown header (h header hHeader)).2.1

theorem counts_empty (width : Nat) : Counts width "" [] 0 0 :=
  ⟨Or.inl rfl, rfl, rfl, rfl⟩

theorem OrdinaryLines.counts {s : String} (h : OrdinaryLines s) (width : Nat) : Counts width s [] 0 0 where
  whole := h.whole
  directives := List.filter_eq_nil_iff.mpr fun l hl => by simp [(h.ordinary l hl).isDirective_eq_false]
  records := List.count_eq_zero.mpr fun hMem => (h.ordinary _ hMem).ne_recordEnd rfl
  printers := List.count_eq_zero.mpr fun hMem => (h.ordinary _ hMem).ne_printerBody width rfl

-- ---------------------------------------------------------------------------
-- Files
-- ---------------------------------------------------------------------------

theorem flatMap_filter_isEmpty {β : Type} {f : String → List β} (hf : f "" = []) (ss : List String) :
    (ss.filter (fun s => !s.isEmpty)).flatMap f = ss.flatMap f := by
  induction ss with
  | nil => rfl
  | cons s ss ih =>
    by_cases hEmpty : s = ""
    · subst hEmpty
      rw [List.filter_cons_of_neg (by simp), ih, List.flatMap_cons, hf, List.nil_append]
    · rw [List.filter_cons_of_pos (by simpa using hEmpty), List.flatMap_cons, ih, List.flatMap_cons]

/-- A file counts what its sections count. -/
theorem filter_splitLines_file {q : List Char → Bool} (hq : q [] = false) {ss : List String}
    (h : ∀ s ∈ ss, Whole s.toList) :
    (splitLines ("\n".intercalate (ss.filter (fun s => !s.isEmpty))).toList).filter q =
      ss.flatMap (fun s => (splitLines s.toList).filter q) := by
  rw [filter_splitLines_intercalate hq fun s hs => h s (List.mem_of_mem_filter hs)]
  exact flatMap_filter_isEmpty rfl ss

theorem count_splitLines_file {a : List Char} (ha : a ≠ []) {ss : List String} (h : ∀ s ∈ ss, Whole s.toList) :
    (splitLines ("\n".intercalate (ss.filter (fun s => !s.isEmpty))).toList).count a =
      (ss.flatMap (fun s => splitLines s.toList)).count a := by
  rw [List.count_eq_length_filter, filter_splitLines_file (by simpa using ha.symm) h, List.count_eq_length_filter,
    List.filter_flatMap]

/-- The sections of a file, the entry point with the page at its end. -/
def Draft.parts (d : Draft) : List String :=
  [d.sections.includes, d.sections.supportDeclarations, d.sections.supportDefinitions, d.sections.forwardDeclarations,
    d.sections.definitions, d.sections.entryPoint ++ d.page.text]

theorem Draft.finish_eq (d : Draft) : d.finish = "\n".intercalate (d.parts.filter (fun s => !s.isEmpty)) :=
  rfl

/-- What there is to count in a file is at its top: directives among the includes, and support code in its sections. -/
structure Draft.Counted (width : Nat) (d : Draft) (directives : List (List Char)) (records printers : Nat) : Prop where
  includes : Counts width d.sections.includes directives 0 0
  record : Counts width d.sections.supportDeclarations [] records 0
  printer : Counts width d.sections.supportDefinitions [] 0 printers
  forward : Counts width d.sections.forwardDeclarations [] 0 0
  definitions : Counts width d.sections.definitions [] 0 0
  entry : Counts width (d.sections.entryPoint ++ d.page.text) [] 0 0

namespace Draft.Counted

variable {width : Nat} {d : Draft} {directives : List (List Char)} {records printers : Nat}
  (h : d.Counted width directives records printers)
include h

theorem whole : ∀ s ∈ d.parts, Whole s.toList := by
  simp only [Draft.parts, List.forall_mem_cons]
  exact ⟨h.includes.whole, h.record.whole, h.printer.whole, h.forward.whole, h.definitions.whole, h.entry.whole, by simp⟩

theorem counts : Counts width d.finish directives records printers := by
  have hNe : printerBody width ≠ [] := by
    intro hNil
    exact absurd (congrArg ('(' ∈ ·) hNil) (by simp [printerBody])
  rw [Draft.finish_eq]
  refine ⟨whole_intercalate fun s hs => h.whole s (List.mem_of_mem_filter hs), ?_, ?_, ?_⟩
  · rw [filter_splitLines_file rfl h.whole]
    simp [Draft.parts, h.includes.directives, h.record.directives, h.printer.directives, h.forward.directives,
      h.definitions.directives, h.entry.directives, -String.toList_append]
  · rw [count_splitLines_file (by decide) h.whole]
    simp [Draft.parts, h.includes.records, h.record.records, h.printer.records, h.forward.records,
      h.definitions.records, h.entry.records, -String.toList_append]
  · rw [count_splitLines_file hNe h.whole]
    simp [Draft.parts, h.includes.printers, h.record.printers, h.printer.printers, h.forward.printers,
      h.definitions.printers, h.entry.printers, -String.toList_append]

theorem infix_finish {s : String} (hs : s ∈ d.parts) (hNe : s ≠ "") :
    splitLines s.toList <:+: splitLines d.finish.toList := by
  rw [Draft.finish_eq]
  exact splitLines_infix_intercalate (fun t ht => h.whole t (List.mem_of_mem_filter ht))
    (List.mem_filter.mpr ⟨hs, by simpa using hNe⟩)

end Draft.Counted

/-- Support code stands in a file once if there is a reason for it, and not at all otherwise. -/
theorem occurrences_support {part text : String} {line : List Char} (hLine : line ∈ splitLines part.toList) {reason : Prop}
    [Decidable reason] (hCount : (splitLines text.toList).count line = if reason then 1 else 0)
    (hInfix : reason → splitLines part.toList <:+: splitLines text.toList) :
    occurrences (splitLines part.toList) (splitLines text.toList) = if reason then 1 else 0 := by
  split
  · rename_i hReason
    rw [if_pos hReason] at hCount
    exact occurrences_eq_one hLine hCount (hInfix hReason)
  · rename_i hReason
    rw [if_neg hReason] at hCount
    have hLe := occurrences_le_count hLine (splitLines text.toList)
    omega

/-- How the lines of a file show what its program needs: there is one directive for each header and no other, and support
code stands there once or not at all. -/
structure ShowsNeeds (width : Nat) (root : Node) (headers : List String) (text : String) : Prop where
  directives : (splitLines text.toList).filter isDirective = headers.map includeDirective
  record : occurrences (splitLines (Draft.stringRecord width).toList) (splitLines text.toList) =
    if root.UsesStrings then 1 else 0
  printer : occurrences (splitLines (Draft.stringPrinter width).toList) (splitLines text.toList) =
    if root.PrintsStrings then 1 else 0

section Program

variable {root : Node} (h : Lowerable root) (width : Nat)

theorem whole_page (hBlock : root.tag = .block) : Whole (pageText (root.additions (Draft.blank width).place)).toList := by
  cases root with
  | block statements span =>
    have hOutermost : ((Draft.blank width).place.descend .block).outermost = true := rfl
    rw [Node.additions, Place.block, if_pos hOutermost, pageText_append, pageText_text]
    exact whole_of_getLast? _ (by decide)
  | _ => simp [Node.tag] at hBlock

include h

/-- The sections at the top of a program. -/
theorem top_program {d : Draft} (hd : d = (Draft.blank width).putAll (root.additions (Draft.blank width).place)) :
    root.HeadersFor d.headers ∧ d.sections.includes = String.join (d.headers.map Draft.includeLine) ∧
      d.sections.supportDeclarations = (if root.UsesStrings then Draft.stringRecord width else "") ∧
      d.sections.supportDefinitions = if root.PrintsStrings then Draft.stringPrinter width else "" := by
  subst hd
  have hStocked := stocked_program width (root.additions (Draft.blank width).place)
  have hWidth : ((Draft.blank width).putAll (root.additions (Draft.blank width).place)).width = width :=
    congrArg Place.width (Draft.place_putAll _ _)
  refine ⟨?_, hStocked.includes, ?_, ?_⟩
  · rw [hStocked.headers]
    exact Node.headersFor_additions h.sound _
  · rw [hStocked.declarations, hWidth]
    simp only [Node.string_mem_supports_iff h.sound]
  · rw [hStocked.definitions, hWidth]
    simp only [Node.stringPrint_mem_supports_iff h.sound]

variable (hMarkless : ∀ n ∈ root.nodes, n.Markless) {d : Draft}
  (hd : d = (Draft.blank width).putAll (root.additions (Draft.blank width).place))
include hMarkless hd

/-- All that stands below the support code is ordinary. -/
theorem counted_program :
    d.Counted width (d.headers.map includeDirective) (if root.UsesStrings then 1 else 0)
      (if root.PrintsStrings then 1 else 0) := by
  obtain ⟨hHeaders, hIncludes, hRecord, hPrinter⟩ := top_program h width hd
  have hOrdinary := Node.ordinaryLines_additions h.sound hMarkless (Draft.blank width).place
  have hForward : OrdinaryLines d.sections.forwardDeclarations := by
    rw [hd, Draft.forwardDeclarations_putAll, show (Draft.blank width).sections.forwardDeclarations = "" from rfl,
      String.empty_append]
    refine ordinaryLines_join fun t ht => ?_
    obtain ⟨a, ha, hLine⟩ := List.mem_filterMap.mp ht
    exact (hOrdinary a ha).1 t hLine
  have hDefinitions : OrdinaryLines d.sections.definitions := by
    rw [hd, definitions_program h width]
    refine ordinaryLines_intercalate fun t ht => ?_
    obtain ⟨a, ha, hText⟩ := List.mem_filterMap.mp ht
    exact (hOrdinary a ha).2 t hText
  have hEntry : OrdinaryLines (d.sections.entryPoint ++ d.page.text) := by
    rw [hd, Draft.entryPoint_putAll, show (Draft.blank width).sections.entryPoint = "" from rfl, String.empty_append,
      Draft.text_page_putAll_blank]
    exact Unmarked.ordinaryLines (Node.shows_additions (fun m hm => (hMarkless m hm).carries) _) (whole_page width h.block)
  refine ⟨?_, ?_, ?_, hForward.counts width, hDefinitions.counts width, hEntry.counts width⟩
  · rw [hIncludes]
    exact counts_includes width hHeaders.known
  · rw [hRecord]
    split
    · exact counts_stringRecord width
    · exact counts_empty width
  · rw [hPrinter]
    split
    · exact counts_stringPrinter width
    · exact counts_empty width

/-- The lines of a program. -/
theorem showsNeeds_program : ShowsNeeds width root d.headers d.finish := by
  obtain ⟨-, -, hRecord, hPrinter⟩ := top_program h width hd
  have hCounted := counted_program h width hMarkless hd
  refine ⟨hCounted.counts.directives, ?_, ?_⟩
  · refine occurrences_support ?_ hCounted.counts.records fun hUses => hCounted.infix_finish ?_ ?_
    · rw [splitLines_stringRecord]
      simp
    · rw [if_pos hUses] at hRecord
      simp [Draft.parts, hRecord]
    · simp [Draft.stringRecord, Page.framed]
  · refine occurrences_support ?_ hCounted.counts.printers fun hPrints => hCounted.infix_finish ?_ ?_
    · rw [splitLines_stringPrinter]
      simp
    · rw [if_pos hPrints] at hPrinter
      simp [Draft.parts, hPrinter]
    · simp [Draft.stringPrinter, Page.framed]

end Program

-- ---------------------------------------------------------------------------
-- Programs
-- ---------------------------------------------------------------------------

/-- **The prelude.** At the top of the file of every program stand the headers that its nodes need, each once and no others,
the record type of strings if strings are used, and the function that prints them if strings are printed. If names and digits
bring no marks along, this is so for all lines of the file: nothing like it stands anywhere else. -/
theorem generated_prelude_is_needed (width : Nat) {root : Node} {text : String}
    (h : (generate { width } root).result = .ok text) :
    ∃ d, visit .standard root (Draft.blank width) = .ok () d ∧ text = d.finish ∧ root.HeadersFor d.headers ∧
      d.sections.includes = String.join (d.headers.map Draft.includeLine) ∧
      d.sections.supportDeclarations = (if root.UsesStrings then Draft.stringRecord width else "") ∧
      d.sections.supportDefinitions = (if root.PrintsStrings then Draft.stringPrinter width else "") ∧
      ((∀ n ∈ root.nodes, n.Markless) → ShowsNeeds width root d.headers text) := by
  obtain ⟨hLowerable, rfl⟩ := generate_eq_ok_iff.mp h
  obtain ⟨events, hRun⟩ := visit_of_lowerable hLowerable width
  obtain ⟨hHeaders, hIncludes, hRecord, hPrinter⟩ := top_program hLowerable width rfl
  have hShows : (∀ n ∈ root.nodes, n.Markless) → ShowsNeeds width root _ _ :=
    fun hMarkless => showsNeeds_program hLowerable width hMarkless rfl
  exact ⟨_, hRun, rfl, hHeaders, hIncludes, hRecord, hPrinter, hShows⟩

/-- A variable, and a call that prints a number and a string with a mark in it. -/
def announcement : Node :=
  .block [
    .varDecl .scoped .mutable [⟨"ready", some "bool"⟩] [.nil ⟨0, 3⟩] ⟨0, 3⟩,
    .call (.id "print" ⟨4, 9⟩) [.number (.integer "1") none ⟨10, 11⟩, .string "#include" ⟨13, 23⟩] ⟨4, 24⟩] ⟨0, 24⟩

theorem generated_prelude_is_needed_announcement :
    (∀ n ∈ announcement.nodes, n.Markless) ∧ announcement.UsesStrings ∧ announcement.PrintsStrings ∧
      ∃ (text : String) (d : Draft), (generate ⟨4, .standard⟩ announcement).result = .ok text ∧ text = d.finish ∧
        announcement.HeadersFor d.headers ∧ ShowsNeeds 4 announcement d.headers text := by
  have hNodes : (∀ n ∈ announcement.nodes, n.Markless) ∧ announcement.UsesStrings ∧ announcement.PrintsStrings := by
    simp only [Node.UsesStrings, Node.PrintsStrings, announcement, Node.nodes_eq, Node.children, List.flatMap_cons,
      List.flatMap_nil, List.append_nil, List.cons_append, List.nil_append]
    decide
  obtain ⟨text, hText⟩ : ∃ text, (generate ⟨4, .standard⟩ announcement).result = .ok text :=
    exists_text_of_isOk (by decide +kernel)
  obtain ⟨d, -, hFinish, hHeaders, -, -, -, hShows⟩ := generated_prelude_is_needed 4 hText
  exact ⟨hNodes.1, hNodes.2.1, hNodes.2.2, text, d, hText, hFinish, hHeaders, hShows hNodes.1⟩

/-- A name with a line for the preprocessor in it. -/
def lineInName : Node :=
  .block [.id "x;\n#include <stddef.h>\nx" ⟨0, 1⟩] ⟨0, 1⟩

/-- Names are copied as they stand, and so the file has a line for a header that no node needs. -/
theorem generate_lineInName_includes :
    (∀ n ∈ lineInName.nodes, n.tag ≠ .nil) ∧
      ∃ text, (generate ⟨4, .standard⟩ lineInName).result = .ok text ∧
        includeDirective "stddef.h" ∈ splitLines text.toList := by
  have hNodes : ∀ n ∈ lineInName.nodes, n.tag ≠ .nil := by
    simp only [lineInName, Node.nodes_eq, Node.children, List.flatMap_cons, List.flatMap_nil, List.append_nil]
    decide
  refine ⟨hNodes, "int main() \x7b\n    x;\n#include <stddef.h>\nx;\n    return 0;\n\x7d\n", by rfl, by decide⟩

end Lowering
