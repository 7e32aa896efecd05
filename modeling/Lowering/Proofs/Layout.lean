import Lowering.Proofs.Emit.Layout
import Lowering.Proofs.Program
import Lowering.Proofs.Target.Quoted

/-!
# The layout of the file

The file of a program is well laid out: its brackets match, and every line is indented by the braces around it. The page was
shown to be so node by node. The other parts of the file are records, prototypes, helpers and functions, each of them whole
lines outside of all braces, and between one part and the next stands an empty line.

* `Node.wellFiled_additions` — what a tree adds to the other parts of the file.
* `lines_program` — the file, as whole lines.
* `generate_balanced_and_aligned` — the layout of every program that is written.
* `generate_emptyOperand_not_aligned` — a number without digits can put a blank at the front of a line.
-/

namespace Lowering

open C Addition

variable {strict : Prop}

-- ---------------------------------------------------------------------------
-- Other parts of the file
-- ---------------------------------------------------------------------------

variable {width : Nat}

theorem flows_intercalate {ss : List String} (h : ∀ s ∈ ss, Flows [] s []) : Flows [] (", ".intercalate ss) [] := by
  induction ss with
  | nil =>
    rw [String.intercalate_nil]
    exact .empty
  | cons s ss ih =>
    obtain ⟨hFirst, hRest⟩ := List.forall_mem_cons.mp h
    cases ss with
    | nil =>
      rw [String.intercalate_singleton]
      exact hFirst
    | cons t ss =>
      rw [String.intercalate_cons_cons, String.append_assoc]
      exact hFirst.append (.lead ", " (by decide) (ih hRest))

theorem phrase_signature {result name : String} {params : List String} (hResult : Flows [] result [])
    (hName : Flows [] name []) (hParams : ∀ s ∈ params, Flows [] s []) :
    Phrase strict (Target.signature result name params) := by
  have hStart : Phrase strict "static " := phrase_fixed _ (by decide)
  have hOpen : Flows [] "(" ['('] := by decide
  have hList : Flows [] (Target.paramList params) [] := by
    unfold Target.paramList
    split
    · decide
    · exact flows_intercalate hParams
  have hRest := hName.append (hOpen.around hList (by decide : Flows ['('] ")" []))
  unfold Target.signature
  simp only [String.append_assoc]
  exact hStart.append (hResult.append (.lead " " (by decide) hRest))

theorem lines_prototype {signature : String} (h : Phrase strict signature) :
    Lines strict width 0 (signature ++ ";\n") 0 := by
  have hLine := h.append (by decide : Flows [] ";" [])
  have hText : signature ++ ";\n" = signature ++ ";" ++ "\n" := by rw [String.append_assoc]; rfl
  rw [hText]
  exact .outer (m := 0) hLine.flows hLine.front

/-- A few lines between braces. -/
theorem lines_framed {head foot : String} {body : List String} (hHead : Flows [] head ['{'])
    (hFront : strict → isFront head = true) (hBody : ∀ l ∈ body, Phrase strict l)
    (hFoot : Flows ['{'] foot [] ∧ foot.toList.head? = some '}') :
    Lines strict width 0 (Page.framed width head body foot) 0 := by
  have hLines : Lines strict width 1 (String.join (body.map (fun l => Page.indentation 1 width ++ l ++ "\n"))) 1 := by
    refine .join (List.forall_mem_map.mpr fun l hl => ?_)
    exact .indented (m := 0) (hBody l hl).flows (hBody l hl).front
  have hText : Page.framed width head body foot = head ++ "\n" ++
      String.join (body.map (fun l => Page.indentation 1 width ++ l ++ "\n")) ++ (foot ++ "\n") := by
    simp [Page.framed, String.append_assoc]
  rw [hText]
  exact ((Lines.outer (m := 1) hHead hFront).append hLines).append (.last hFoot.1 hFoot.2)

theorem flows_directive (type : Numeric) : Flows [] type.directive.format [] := by
  rcases type with (_ | _ | _ | _ | _) | (_ | _ | _ | _ | _) | (_ | _ | _) <;> decide

/-- What an argument contributes to a print helper. -/
theorem phrase_slot {arg : Node} (h : Printable arg) (index : Nat) :
    Flows [] (slotOf index arg).param [] ∧ Phrase strict (slotOf index arg).statement := by
  have hParam : Flows [] (Print.paramName index) [] := flows_word (isIdentifier_numbered (by decide) index)
  have hEnd : Flows ['('] (Print.paramName index ++ ");") [] := hParam.before (by decide)
  obtain ⟨hTag, hResolvable⟩ := h
  cases arg with
  | string value span =>
    have hCall : Flows [] "nlstring_print(" ['('] := by decide
    refine ⟨.lead "const nlstring* " (by decide) hParam, ?_⟩
    show Phrase strict ("nlstring_print(" ++ Print.paramName index ++ ");")
    rw [String.append_assoc]
    exact ⟨hCall.append hEnd, fun _ => isFront_append (by decide) _⟩
  | number form suffix span =>
    obtain ⟨n, hResolve⟩ := hResolvable
    have hCall : Flows [] "printf(" ['('] := by decide
    rw [slotOf_number, hResolve]
    simp only [String.append_assoc]
    exact ⟨(flows_typeSpelling _).append (.lead " " (by decide) hParam),
      hCall.around (flows_directive n.type) (.lead ", " (by decide) hEnd), fun _ => isFront_append (by decide) _⟩
  | _ => simp [Node.tag] at hTag

theorem phrase_slotsFrom {args : List Node} (h : ∀ a ∈ args, Printable a) (index : Nat) :
    ∀ slot ∈ slotsFrom index args, Flows [] slot.param [] ∧ Phrase strict slot.statement := by
  induction args generalizing index with
  | nil => simp [slotsFrom]
  | cons arg args ih =>
    obtain ⟨hFirst, hRest⟩ := List.forall_mem_cons.mp h
    exact List.forall_mem_cons.mpr ⟨phrase_slot hFirst index, ih hRest (index + 1)⟩

section Helpers

variable {name : String} (hName : Flows [] name []) {args : List Node} (hArgs : ∀ a ∈ args, Printable a)
include hName hArgs

theorem phrase_helperSignature : Phrase strict (Print.signature name (slotsFrom 1 args)) := by
  have hSlots : ∀ slot ∈ slotsFrom 1 args, Flows [] slot.param [] ∧ Phrase True slot.statement := phrase_slotsFrom hArgs 1
  exact phrase_signature (by decide) hName (List.forall_mem_map.mpr fun slot hs => (hSlots slot hs).1)

theorem lines_helper : Lines strict width 0 (Print.helper width name (slotsFrom 1 args)) 0 := by
  have hSignature : Phrase strict (Print.signature name (slotsFrom 1 args)) := phrase_helperSignature hName hArgs
  have hSlots : ∀ slot ∈ slotsFrom 1 args, Flows [] slot.param [] ∧ Phrase strict slot.statement := phrase_slotsFrom hArgs 1
  refine lines_framed (hSignature.flows.append (by decide : Flows [] " \x7b" ['{']))
    (fun hStrict => isFront_append (hSignature.front hStrict) _) ?_ (by decide)
  rw [Print.body, List.forall_mem_append]
  constructor
  · exact forall_mem_intersperse (phrase_fixed _ (by decide)) (List.forall_mem_map.mpr fun slot hs => (hSlots slot hs).2)
  · simp only [List.forall_mem_cons]
    exact ⟨phrase_fixed _ (by decide), phrase_fixed _ (by decide), by simp⟩

end Helpers

theorem lines_functionText {signature body : String} (h : Phrase strict signature) (hBody : Lines strict width 1 body 1) :
    Lines strict width 0 (functionText signature body) 0 := by
  have hText : functionText signature body = signature ++ " \x7b" ++ "\n" ++ body ++ ("\x7d" ++ "\n") := by
    simp [functionText, String.append_assoc]
  have hHead : Flows [] (signature ++ " \x7b") ['{'] := h.flows.append (by decide)
  have hLine : Lines strict width 0 (signature ++ " \x7b" ++ "\n") 1 :=
    .outer (m := 1) hHead fun hStrict => isFront_append (h.front hStrict) _
  rw [hText]
  exact (hLine.append hBody).append (.last (by decide) (by decide))

theorem flows_literal (value : String) {as : List Char} : Flows as ("\"" ++ (Target.escapeText value ++ "\"")) as := by
  refine flows_quoted (fun as => ?_) ?_
  · rw [toList_escapeText]
    exact read_escapeBytes _ as
  · rw [toList_escapeText, Target.escapeBytes, List.mem_flatMap]
    rintro ⟨b, -, hMem⟩
    exact (read_escapeByte b []).2 hMem

/-- The record of a string is a single line, with a brace for its type and one for its value. -/
theorem lines_record {name : String} (hName : Flows [] name []) (value : String) :
    Lines strict width 0 (Literal.record name value) 0 := by
  have hStart : Flows [] "static const struct \x7b uintptr_t len, res; char data[" ['[', '{'] := by decide
  have hType : Flows ['[', '{'] "]; \x7d " [] := by decide
  have hOpen : Flows [] " = \x7b" ['{'] := by decide
  have hDecimal : ∀ n : Nat, Flows [] (toString n) [] := fun n => flows_of_isPlain (isPlain_of_mem_decimal n)
  have hLength := hDecimal value.utf8ByteSize
  have hFields := hLength.before (.lead ", " (by decide) (hLength.before (.lead ", " (by decide)
    ((flows_literal value).append (by decide : Flows ['{'] "\x7d;" [])))))
  have hLine := hStart.around (hDecimal (value.utf8ByteSize + 1)) (hType.append (hName.append (hOpen.append hFields)))
  have hLines : Lines strict width 0 _ 0 := .outer (m := 0) hLine fun _ => isFront_append (by decide) _
  -- the quotes are part of the texts around the bytes
  have hQuote : ", \"" = ", " ++ "\"" := by decide
  have hUnquote : "\"\x7d;\n" = "\"" ++ ("\x7d;" ++ "\n") := by decide
  unfold Literal.record
  simp only [String.append_assoc, hQuote, hUnquote, -String.reduceAppend] at hLines ⊢
  exact hLines

/-- What an addition puts into the other parts of the file is whole lines outside of all braces, and the headers it asks for
are known. -/
structure Addition.WellFiled (strict : Prop) (width : Nat) (a : Addition) : Prop where
  forward : ∀ t ∈ a.forward?, Lines strict width 0 t 0
  definition : ∀ t ∈ a.definition?, Lines strict width 0 t 0
  headers : ∀ name ∈ a.headers, name ∈ knownHeaders

theorem wellFiled_forward {line : String} (h : Lines strict width 0 line 0) :
    (Addition.forward line).WellFiled strict width :=
  ⟨by simpa [forward?] using h, by simp [definition?], by simp [Addition.headers]⟩

theorem wellFiled_definition {a : Addition} {text : String} (ha : a.definition? = some text)
    (h : Lines strict width 0 text 0) : a.WellFiled strict width := by
  cases a with
  | helper | function =>
    obtain rfl := Option.some.inj ha
    exact ⟨by simp [forward?], by simpa [definition?] using h, by simp [Addition.headers]⟩
  | _ => cases ha

namespace Node

/-- A node of a sound tree is sound where it stands. -/
theorem exists_soundAt {m n : Node} {depth : Nat} (hm : m ∈ n.nodes) (h : n.SoundAt depth) : ∃ k, m.SoundAt k := by
  induction n using childInduction generalizing depth with
  | step n ih =>
    rw [nodes_eq, List.mem_cons, List.mem_flatMap] at hm
    rcases hm with rfl | ⟨c, hc, hm⟩
    · exact ⟨depth, h⟩
    · exact ih c hc hm ((soundAt_iff.mp h).2 c hc)

theorem printable_of_soundAt {callee : Node} {args : List Node} {span : Span} {depth : Nat}
    (h : SoundAt depth (.call callee args span)) (hCallee : Expression.intrinsic? callee = some .print) :
    ∀ a ∈ args, Printable a := by
  obtain ⟨hSound, hBelow⟩ := soundAt_iff.mp h
  intro a ha
  have hArgs : printArgs? (.call callee args span) = some args := by rw [printArgs?_call, if_pos hCallee]
  exact ⟨hSound args hArgs a ha, resolvable_of_sound (hBelow a (by simp [children, ha]))⟩

theorem phrase_functionSignature {visibility : Visibility} {name : String} {params : List TypedName}
    {returns : List String} {body : Node} {span : Span} (h : Legible (.funcDef visibility name params returns body span)) :
    Phrase strict (functionSignature name params returns) := by
  have hResult : Flows [] (resultSpelling returns) [] := by
    cases returns with
    | nil => decide
    | cons type rest => exact flows_typeSpelling type
  have hName := flows_word (Target.isIdentifier_escapeName (h.names name (by simp [identifiers])))
  refine phrase_signature hResult hName (List.forall_mem_map.mpr fun q hq => ?_)
  have hParam := Target.isIdentifier_escapeName (h.names q.name (List.mem_cons_of_mem _ (List.mem_map_of_mem hq)))
  rw [String.append_assoc]
  exact (flows_typeSpelling _).append (.lead " " (by decide) (flows_word hParam))

/-- All that a tree puts into other parts of the file. -/
theorem wellFiled_additions {root : Node} {depth : Nat} (hSoundAt : root.SoundAt depth)
    (hSorted : ∀ m ∈ root.nodes, m.WellSorted) (hLegible : ∀ m ∈ root.nodes, m.Legible)
    (hLed : strict → ∀ m ∈ root.nodes, m.Led) (p : Place) :
    ∀ a ∈ root.additions p, a.WellFiled strict p.width := by
  have hNothing : ∀ a : Addition, a.forward? = none → a.definition? = none → a.headers = [] → a.WellFiled strict p.width :=
    fun a hForward hDefinition hHeaders => ⟨by simp [hForward], by simp [hDefinition], by simp [hHeaders]⟩
  refine forall_mem_additions (fun s => hNothing _ rfl rfl rfl) (fun name hName => ?_) (fun s => ?_)
    (hNothing _ rfl rfl rfl) hSoundAt p fun m hm q hq => ?_
  · exact ⟨by simp [forward?], by simp [definition?], by simpa [Addition.headers] using hName⟩
  · exact ⟨by simp [forward?], by simp [definition?], by cases s <;> decide⟩
  rw [hq, List.forall_mem_append]
  obtain ⟨k, hSound⟩ := exists_soundAt hm hSoundAt
  cases m with
  | string value span =>
    have hRecord : Lines strict p.width 0 (Literal.record (Literal.recordName span) value) 0 :=
      lines_record (flows_word (Literal.isIdentifier_recordName span)) value
    simp only [own, ownAfter, List.forall_mem_cons]
    exact ⟨⟨hNothing _ rfl rfl rfl, wellFiled_forward hRecord, List.forall_mem_nil _⟩, List.forall_mem_nil _⟩
  | call callee args span =>
    cases hCallee : Expression.intrinsic? callee with
    | none => simp [own, ownAfter, hCallee]
    | some intrinsic =>
      cases intrinsic
      have hName : Flows [] (Print.helperName span) [] := flows_word (isIdentifier_numbered (by decide) span.start)
      have hArgs := printable_of_soundAt hSound hCallee
      simp only [own, ownAfter, hCallee, List.forall_mem_cons]
      exact ⟨⟨hNothing _ rfl rfl rfl, wellFiled_forward (lines_prototype (phrase_helperSignature hName hArgs)),
        wellFiled_definition rfl (lines_helper hName hArgs), List.forall_mem_nil _⟩, List.forall_mem_nil _⟩
  | funcDef visibility name params returns body span =>
    have hSignature : Phrase strict (functionSignature name params returns) := phrase_functionSignature (hLegible _ hm)
    have hBelow : ∀ m ∈ body.nodes, m ∈ root.nodes := fun m hBody =>
      nodes_subset hm (nodes_subset (mem_nodes_of_mem_children (by simp [children])) hBody)
    have hBlock : body.tag = .block := (hSorted _ hm).blocks body (by simp [blockParts])
    have hBody := (laidOut ((soundAt_iff.mp hSound).2 body (by simp [children])) (fun m h => hSorted m (hBelow m h))
      (fun m h => hLegible m (hBelow m h)) (fun hStrict m h => hLed hStrict m (hBelow m h))).laid
      (p := (q.descend .funcDef).inFunction) (by rw [hBlock]; rfl) rfl
    have hWidth : (q.descend .funcDef).inFunction.pageWidth = p.width := hq
    rw [Laid, hWidth] at hBody
    simp only [own, ownAfter, List.forall_mem_cons]
    exact ⟨⟨wellFiled_forward (lines_prototype hSignature), List.forall_mem_nil _⟩,
      wellFiled_definition rfl (lines_functionText hSignature hBody), List.forall_mem_nil _⟩
  | _ => exact ⟨List.forall_mem_nil _, List.forall_mem_nil _⟩

end Node

-- ---------------------------------------------------------------------------
-- Programs
-- ---------------------------------------------------------------------------

/-- An empty line between one text and the next. -/
theorem lines_intercalate {ss : List String} (h : ∀ s ∈ ss, Lines strict width 0 s 0) :
    Lines strict width 0 ("\n".intercalate ss) 0 := by
  induction ss with
  | nil =>
    rw [String.intercalate_nil]
    exact .nil 0
  | cons s ss ih =>
    obtain ⟨hFirst, hRest⟩ := List.forall_mem_cons.mp h
    cases ss with
    | nil =>
      rw [String.intercalate_singleton]
      exact hFirst
    | cons t ss =>
      rw [String.intercalate_cons_cons]
      exact (hFirst.append .emptyLine).append (ih hRest)

theorem lines_includeLine {header : String} (h : header ∈ knownHeaders) :
    Lines strict width 0 (Draft.includeLine header) 0 := by
  have hKnown : ∀ name ∈ knownHeaders, Flows [] ("#include <" ++ (name ++ ">")) [] := by decide
  have hText : Draft.includeLine header = "#include <" ++ (header ++ ">") ++ "\n" := by
    simp [Draft.includeLine, String.append_assoc]
  rw [hText]
  exact .outer (m := 0) (hKnown header h) fun _ => isFront_append (by decide) _

theorem lines_stringRecord : Lines strict width 0 (Draft.stringRecord width) 0 := by
  refine lines_framed (by decide) (fun _ => by decide) ?_ (by decide)
  simp only [List.forall_mem_cons]
  exact ⟨phrase_fixed _ (by decide), phrase_fixed _ (by decide), phrase_fixed _ (by decide), List.forall_mem_nil _⟩

theorem lines_stringPrinter : Lines strict width 0 (Draft.stringPrinter width) 0 := by
  refine lines_framed (by decide) (fun _ => by decide) ?_ (by decide)
  exact List.forall_mem_singleton.mpr (phrase_fixed _ (by decide))

section Program

variable {root : Node} (h : Lowerable root) (hSorted : ∀ n ∈ root.nodes, n.WellSorted)
  (hLegible : ∀ n ∈ root.nodes, n.Legible) (hLed : strict → ∀ n ∈ root.nodes, n.Led) (width : Nat)
include h hSorted hLegible hLed

/-- The entry point. -/
theorem lines_page : Lines strict width 0 (pageText (root.additions (Draft.blank width).place)) 0 := by
  obtain ⟨-, hBelow⟩ := Node.soundAt_iff.mp h.sound
  have hChildren : ∀ c ∈ root.children, c.LaidOut strict := fun c hc =>
    have hNodes : ∀ m ∈ c.nodes, m ∈ root.nodes := Node.nodes_subset (Node.mem_nodes_of_mem_children hc)
    Node.laidOut (hBelow c hc) (fun m hm => hSorted m (hNodes m hm)) (fun m hm => hLegible m (hNodes m hm))
      (fun hStrict m hm => hLed hStrict m (hNodes m hm))
  have hBlock := h.block
  cases root with
  | block statements span =>
    rw [Node.additions]
    exact lines_main (p := (Draft.blank width).place.descend .block) rfl rfl
      (Node.laid_statements hChildren (Place.outermost_inBlock _))
  | _ => simp [Node.tag] at hBlock

/-- The file of a program. -/
theorem lines_program :
    Lines strict width 0 ((Draft.blank width).putAll (root.additions (Draft.blank width).place)).finish 0 := by
  let as := root.additions (Draft.blank width).place
  let d := (Draft.blank width).putAll as
  have hFiled : ∀ a ∈ as, a.WellFiled strict width := Node.wellFiled_additions h.sound hSorted hLegible hLed _
  have hStocked : d.Stocked (as.flatMap Addition.headers) (as.flatMap Addition.supports) := stocked_program width as
  have hWidth : d.width = width := congrArg Place.width (Draft.place_putAll (Draft.blank width) as)
  have hIncludes : Lines strict width 0 d.sections.includes 0 := by
    rw [hStocked.includes, hStocked.headers]
    refine .join (List.forall_mem_map.mpr fun name hName => lines_includeLine ?_)
    obtain ⟨a, ha, hMem⟩ := List.mem_flatMap.mp (List.mem_eraseDups.mp hName)
    exact (hFiled a ha).headers name hMem
  have hDeclarations : Lines strict width 0 d.sections.supportDeclarations 0 := by
    rw [hStocked.declarations, hWidth]
    split
    · exact lines_stringRecord
    · exact .nil 0
  have hPrinter : Lines strict width 0 d.sections.supportDefinitions 0 := by
    rw [hStocked.definitions, hWidth]
    split
    · exact lines_stringPrinter
    · exact .nil 0
  have hForward : Lines strict width 0 d.sections.forwardDeclarations 0 := by
    have hText := Draft.forwardDeclarations_putAll (Draft.blank width) as
    rw [show d.sections.forwardDeclarations = _ from hText]
    refine Lines.append (.nil 0) (.join fun t ht => ?_)
    obtain ⟨a, ha, hLine⟩ := List.mem_filterMap.mp ht
    exact (hFiled a ha).forward t hLine
  have hDefinitions : Lines strict width 0 d.sections.definitions 0 := by
    rw [show d.sections.definitions = _ from definitions_program h width]
    refine lines_intercalate fun t ht => ?_
    obtain ⟨a, ha, hText⟩ := List.mem_filterMap.mp ht
    exact (hFiled a ha).definition t hText
  have hEntry : Lines strict width 0 (d.sections.entryPoint ++ d.page.text) 0 := by
    rw [show d.sections.entryPoint = "" from Draft.entryPoint_putAll (Draft.blank width) as, String.empty_append,
      show d.page.text = pageText as from Draft.text_page_putAll_blank width as]
    exact lines_page h hSorted hLegible hLed width
  refine lines_intercalate fun t ht => ?_
  have hMem : t ∈ [d.sections.includes, d.sections.supportDeclarations, d.sections.supportDefinitions,
      d.sections.forwardDeclarations, d.sections.definitions, d.sections.entryPoint ++ d.page.text] :=
    (List.mem_filter.mp ht).1
  simp only [List.mem_cons, List.not_mem_nil, or_false] at hMem
  rcases hMem with rfl | rfl | rfl | rfl | rfl | rfl <;> assumption

end Program

/-- **Layout.** In the file of every program that is made of blocks, statements and expressions in their places, with C
identifiers for names and numerals for digits, all brackets outside of literals match. Every line is indented by its braces,
if no number without digits is written before a blank: as the first operand of an operator or the target of a store. -/
theorem generate_balanced_and_aligned (width : Nat) {root : Node} {text : String}
    (h : (generate { width } root).result = .ok text) (hSorted : ∀ n ∈ root.nodes, n.WellSorted)
    (hLegible : ∀ n ∈ root.nodes, n.Legible) :
    Balanced text.toList ∧ ((∀ n ∈ root.nodes, n.Led) → Aligned width text.toList) := by
  obtain ⟨hLowerable, rfl⟩ := generate_eq_ok_iff.mp h
  have hLines := lines_program hLowerable hSorted hLegible id width
  exact ⟨hLines.balanced, hLines.aligned⟩

/-- A function with a branch in it, and a call that prints a string of brackets and quotes. -/
def branching : Node :=
  .block [
    .funcDef .scoped "f" [⟨"x", some "int"⟩] ["int"]
      (.block [
        .cond [⟨.id "x" ⟨0, 1⟩, .block [.ret [.number (.integer "1") none ⟨2, 3⟩] ⟨2, 3⟩] ⟨2, 3⟩⟩]
          (some (.block [.ret [.binaryOp "add" (.id "x" ⟨4, 5⟩) (.id "x" ⟨6, 7⟩) ⟨4, 7⟩] ⟨4, 7⟩] ⟨4, 7⟩)) ⟨0, 7⟩]
        ⟨0, 7⟩) ⟨0, 7⟩,
    .call (.id "print" ⟨8, 13⟩) [.string "\x7d)\"" ⟨14, 19⟩] ⟨8, 20⟩] ⟨0, 20⟩

theorem generate_balanced_and_aligned_branching :
    (∀ n ∈ branching.nodes, n.WellSorted ∧ n.Legible ∧ n.Led) ∧
      ∃ text, (generate ⟨2, .standard⟩ branching).result = .ok text ∧ Balanced text.toList ∧ Aligned 2 text.toList := by
  have hNodes : ∀ n ∈ branching.nodes, n.WellSorted ∧ n.Legible ∧ n.Led := by
    simp only [branching, Node.nodes_eq, Node.children, List.flatMap_cons, List.flatMap_nil, List.append_nil,
      List.cons_append, List.nil_append, Option.toList_some]
    decide
  obtain ⟨text, hText⟩ : ∃ text, (generate ⟨2, .standard⟩ branching).result = .ok text :=
    exists_text_of_isOk (by decide +kernel)
  have hLayout := generate_balanced_and_aligned 2 hText (fun n hn => (hNodes n hn).1) (fun n hn => (hNodes n hn).2.1)
  exact ⟨hNodes, text, hText, hLayout.1, hLayout.2 fun n hn => (hNodes n hn).2.2⟩

/-- A sum whose first operand is a number without digits. -/
def emptyOperand : Node :=
  .block [.binaryOp "add" (.number (.integer "") none ⟨0, 0⟩) (.id "x" ⟨3, 4⟩) ⟨0, 4⟩] ⟨0, 4⟩

/-- The blank before the operator stands at the front of the line. -/
theorem generate_emptyOperand_not_aligned :
    (∀ n ∈ emptyOperand.nodes, n.WellSorted ∧ n.Legible) ∧
      ∃ text, (generate ⟨4, .standard⟩ emptyOperand).result = .ok text ∧ ¬ Aligned 4 text.toList := by
  have hNodes : ∀ n ∈ emptyOperand.nodes, n.WellSorted ∧ n.Legible := by
    simp only [emptyOperand, Node.nodes_eq, Node.children, List.flatMap_cons, List.flatMap_nil, List.append_nil,
      List.cons_append, List.nil_append]
    decide
  let before := "#include <stdint.h>\n\nint main() \x7b\n".toList
  let line := "     + x;".toList
  let after := "\n    return 0;\n\x7d\n".toList
  refine ⟨hNodes, String.ofList (before ++ line ++ after), by rfl, fun hAligned => ?_⟩
  have hAt : LineAt before line after := ⟨Or.inr (by decide), by decide, Or.inr (by decide)⟩
  obtain ⟨k, hRead, hIndented⟩ := hAligned before line after String.toList_ofList hAt
  have hOpen : Cursor.read {} before = some ⟨['{'], .code⟩ := by decide
  obtain rfl := Option.some.inj (hRead.symm.trans hOpen)
  rcases hIndented with ⟨hEmpty, -⟩ | ⟨c, rest, hBlank, hLine⟩
  · exact absurd hEmpty (by decide)
  · -- four blanks belong to the brace, and the fifth one is not expected
    have hDepth : lineDepth (['{'].count '{') line = 1 := by decide
    rw [hDepth] at hLine
    have hFifth : some ' ' = some c := congrArg (fun l : List Char => l[4]?) hLine
    exact hBlank (Option.some.inj hFifth).symm

end Lowering
