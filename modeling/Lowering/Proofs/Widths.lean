import Lowering.Command.Run
import Lowering.Proofs.Emit.Checks
import Lowering.Proofs.Emit.Widths
import Lowering.Proofs.Prelude
import Lowering.Proofs.Returns
import Lowering.Proofs.Tree.RoundTrip

/-!
# Files with other widths

What a level of indentation is worth changes nothing but the blanks at the start of lines. A program that cannot be written
cannot be written with any width, and for the same reason; the files of one that can be written are the same line by line,
without their indentation. Checking a program is therefore as good as writing it.

* `Listing.Alike` — what a program puts in its file, but for the indentation of lines.
* `outdent_generate`, `generate_error_iff` — the file of a program, or what is wrong with it.
* `compile_error_iff`, `compile_ok` — what the commands make of it.
-/

namespace Lowering

open C Addition

-- ---------------------------------------------------------------------------
-- Listings
-- ---------------------------------------------------------------------------

/-- What is read off additions in any case. -/
theorem flatMap_map_bare {α : Type} {f : Addition → List α} (hf : ∀ a, f a.bare = f a) (as : List Addition) :
    (as.map bare).flatMap f = as.flatMap f := by
  rw [List.flatMap_map]
  exact List.flatMap_congr fun a _ => hf a

theorem filterMap_map_bare_definition? (as : List Addition) :
    (as.map bare).filterMap definition? = (as.filterMap definition?).map fun t => String.ofList (outdent t.toList) := by
  rw [List.filterMap_map, List.map_filterMap]
  congr 1
  funext a
  cases a <;> rfl

/-- Two listings that differ in the indentation of definitions and in what is on the page. -/
structure Listing.Alike (l m : Listing) : Prop where
  headers : l.headers = m.headers
  support : l.support = m.support
  forward : l.forward = m.forward
  definitions : l.definitions.map (fun t => outdent t.toList) = m.definitions.map (fun t => outdent t.toList)

theorem Listing.alike_of_map_bare {as bs : List Addition} (h : as.map bare = bs.map bare) :
    (Listing.ofAdditions as).Alike (Listing.ofAdditions bs) := by
  have hHeaders : as.flatMap Addition.headers = bs.flatMap Addition.headers := by
    rw [← flatMap_map_bare (fun a => by cases a <;> rfl) as, h, flatMap_map_bare fun a => by cases a <;> rfl]
  have hSupports : as.flatMap supports = bs.flatMap supports := by
    rw [← flatMap_map_bare (fun a => by cases a <;> rfl) as, h, flatMap_map_bare fun a => by cases a <;> rfl]
  have hForward : as.filterMap forward? = bs.filterMap forward? := by
    rw [List.filterMap_eq_flatMap_toList, List.filterMap_eq_flatMap_toList,
      ← flatMap_map_bare (fun a => by cases a <;> rfl) as, h, flatMap_map_bare fun a => by cases a <;> rfl]
  refine ⟨congrArg List.eraseDups hHeaders, congrArg List.eraseDups hSupports, congrArg String.join hForward, ?_⟩
  have hDefinitions := congrArg (fun as => (as.filterMap definition?).map String.toList) h
  simp only [filterMap_map_bare_definition?, List.map_map, Function.comp_def, String.toList_ofList] at hDefinitions
  exact hDefinitions

theorem Listing.place_resized (width width' : Nat) : (place width').resized width width = place width := rfl

/-- Statements have listings that are alike. -/
theorem Listing.alike_ofStatements {statements : List Node} (hSoundAt : ∀ n ∈ statements, n.SoundAt 1)
    (hSorted : ∀ n ∈ statements, ∀ m ∈ n.nodes, m.WellSorted) (width width' : Nat) :
    (Listing.ofStatements width statements).Alike (Listing.ofStatements width' statements) := by
  refine alike_of_map_bare ?_
  rw [← place_resized width width']
  exact Node.map_bare_statements _ fun n hn => Node.uniformAdditions (hSoundAt n hn) (hSorted n hn)

-- ---------------------------------------------------------------------------
-- Entry points
-- ---------------------------------------------------------------------------

/-- The lines of the statements of a program. -/
theorem mainRows_resized {statements : List Node} {span : Span} (hSorted : ∀ n ∈ statements, ∀ m ∈ n.nodes, m.WellSorted)
    (width width' : Nat) : mainRows width statements span = mainRows width' statements span := by
  refine Node.statementsRows_resized width width (Listing.place width') _ fun n hn => ⟨fun hTag p pageWidth width => ?_, ?_⟩
  · exact Node.textAt_resized pageWidth width (Node.isExpression_of_mem_nodes hTag (hSorted n hn)) p
  · exact fun _ => Node.uniformRows (hSorted n hn)

theorem outdent_entryPointText {statements : List Node} (hSoundAt : ∀ n ∈ statements, n.SoundAt 1)
    (hSorted : ∀ n ∈ statements, ∀ m ∈ n.nodes, m.WellSorted) (width width' : Nat) :
    outdent (entryPointText width statements (Listing.ofStatements width statements).body).toList =
      outdent (entryPointText width' statements (Listing.ofStatements width' statements).body).toList := by
  let span : Span := ⟨0, 0⟩
  let last : List Row :=
    if ∀ n ∈ statements, n.tag ≠ .ret then [⟨⟨[], .block statements span⟩, 1, "return 0;"⟩] else []
  have hText : ∀ width, entryPointText width statements (Listing.ofStatements width statements).body =
      functionText "int main()" (Row.renderAll width (mainRows width statements span ++ last)) := by
    intro width
    have hLast : Row.renderAll width last =
        if ∀ n ∈ statements, n.tag ≠ .ret then Page.indentation 1 width ++ "return 0;\n" else "" := by
      by_cases hRet : ∀ n ∈ statements, n.tag ≠ .ret
      · simp only [last, if_pos hRet, Row.renderAll_cons, Row.renderAll_nil, String.append_empty, Row.render,
          String.append_assoc]
        rfl
      · simp only [last, if_neg hRet, Row.renderAll_nil]
    have hRows : entryPointText width statements (Listing.ofStatements width statements).body = _ :=
      @entryPointText_eq width statements span hSoundAt hSorted
    rw [hRows, ← hLast, functionText, Row.renderAll_append]
    simp only [String.append_assoc]
    rfl
  rw [hText, hText, mainRows_resized hSorted width width']
  exact outdent_functionText _ _ _ _

-- ---------------------------------------------------------------------------
-- Files
-- ---------------------------------------------------------------------------

/-- Parts that differ in the indentation of lines make files that differ in it. -/
theorem outdent_file {ps qs : List String} (hps : ∀ s ∈ ps, Whole s.toList) (hqs : ∀ s ∈ qs, Whole s.toList)
    (h : ps.map (fun s => outdent s.toList) = qs.map (fun s => outdent s.toList)) :
    outdent ("\n".intercalate (ps.filter (fun s => !s.isEmpty))).toList =
      outdent ("\n".intercalate (qs.filter (fun s => !s.isEmpty))).toList := by
  have hFilter : ∀ ps : List String, (∀ s ∈ ps, Whole s.toList) →
      (ps.filter (fun s => !s.isEmpty)).map (fun s => outdent s.toList) =
        (ps.map (fun s => outdent s.toList)).filter (fun s => !s.isEmpty) := by
    intro ps hps
    rw [List.filter_map]
    congr 1
    refine List.filter_congr fun s hs => ?_
    have hNil := outdent_eq_nil_iff (hps s hs)
    rw [Function.comp_apply]
    congr 1
    rw [Bool.eq_iff_iff, List.isEmpty_iff, hNil, String.isEmpty_iff, String.toList_eq_nil_iff]
  rw [outdent_intercalate fun s hs => hps s (List.mem_of_mem_filter hs),
    outdent_intercalate fun s hs => hqs s (List.mem_of_mem_filter hs), hFilter ps hps, hFilter qs hqs, h]

theorem whole_framed (width : Nat) (head foot : String) (body : List String) :
    Whole (Page.framed width head body foot).toList :=
  whole_line _

/-- Forward declarations and definitions are whole lines. -/
theorem whole_of_mem_additions {root : Node} {depth : Nat} (hSoundAt : root.SoundAt depth) (p : Place) :
    ∀ a ∈ root.additions p, (∀ t ∈ a.forward?, Whole t.toList) ∧ ∀ t ∈ a.definition?, Whole t.toList := by
  refine Node.forall_mem_additions (by simp [forward?, definition?]) (by simp [forward?, definition?])
    (by simp [forward?, definition?]) (by simp [forward?, definition?]) hSoundAt p fun m _ q _ => ?_
  have hForward : ∀ s, Whole (s ++ ";\n").toList := fun s => whole_of_getLast? s (by decide)
  cases m with
  | string value span =>
    have hRecord : Whole (Literal.record (Literal.recordName span) value).toList := by
      rw [record_eq_recordLine]
      exact whole_line _
    simpa [Node.own, Node.ownAfter, forward?, definition?] using hRecord
  | call callee args span =>
    cases hCallee : Expression.intrinsic? callee with
    | none => simp [Node.own, Node.ownAfter, hCallee]
    | some intrinsic =>
      cases intrinsic
      have hHelper : Whole (Print.helper q.width (Print.helperName span) (slotsFrom 1 args)).toList := whole_framed ..
      simpa [Node.own, Node.ownAfter, hCallee, forward?, definition?, -String.toList_append] using ⟨hForward _, hHelper⟩
  | funcDef visibility name params returns body span =>
    have hDefinition : ∀ signature body, Whole (functionText signature body).toList := fun _ _ =>
      whole_of_getLast? _ (by decide)
    simpa [Node.own, Node.ownAfter, forward?, definition?, -String.toList_append] using ⟨hForward _, hDefinition _ _⟩
  | _ => simp [Node.own, Node.ownAfter]

/-- The parts of the file of a program, as the listing of its statements says. -/
def Listing.parts (l : Listing) (width : Nat) (statements : List Node) : List String :=
  [String.join (l.headers.map Draft.includeLine), if .string ∈ l.support then Draft.stringRecord width else "",
    if .stringPrint ∈ l.support then Draft.stringPrinter width else "", l.forward, "\n".intercalate l.definitions,
    entryPointText width statements l.body]

section Program

variable {statements : List Node} {span : Span} (h : Lowerable (.block statements span))
include h

theorem generate_block (width : Nat) :
    (generate { width } (.block statements span)).result =
      .ok ("\n".intercalate
        (((Listing.ofStatements width statements).parts width statements).filter (fun s => !s.isEmpty))) := by
  refine generate_eq_ok_iff.mpr ⟨h, ?_⟩
  let as := (Node.block statements span).additions (Draft.blank width).place
  have hShows := Draft.shows_program width h (lowerable_block_iff.mp h).1 []
  have hEntry : ((Draft.blank width).putAll as).sections.entryPoint = "" := Draft.entryPoint_putAll _ _
  have hParts : ((Draft.blank width).putAll as).parts = (Listing.ofStatements width statements).parts width statements := by
    have hIncludes : ((Draft.blank width).putAll as).sections.includes = _ := hShows.includes
    have hRecord : ((Draft.blank width).putAll as).sections.supportDeclarations = _ := hShows.declarations
    have hPrinter : ((Draft.blank width).putAll as).sections.supportDefinitions = _ := hShows.definitions
    have hForward : ((Draft.blank width).putAll as).sections.forwardDeclarations = _ := hShows.forward
    have hDefinitions : ((Draft.blank width).putAll as).sections.definitions = _ := hShows.functions
    have hMain : ((Draft.blank width).putAll as).page.text = _ := hShows.main
    rw [Draft.parts, hIncludes, hRecord, hPrinter, hForward, hDefinitions, hMain, hEntry, String.empty_append]
    rfl
  rw [Draft.finish_eq, hParts]

theorem whole_definitions (width : Nat) : ∀ t ∈ (Listing.ofStatements width statements).definitions, Whole t.toList := by
  have hRead : (Listing.ofStatements width statements).definitions = _ :=
    (@filterMap_additions_program width statements span _ definition? (fun _ => rfl) rfl).symm
  rw [hRead]
  intro t ht
  obtain ⟨a, ha, hText⟩ := List.mem_filterMap.mp ht
  exact (whole_of_mem_additions h.sound _ a ha).2 t hText

theorem whole_forward (width : Nat) : Whole (Listing.ofStatements width statements).forward.toList := by
  refine whole_join ?_
  rw [← @filterMap_additions_program width statements span _ forward? (fun _ => rfl) rfl]
  intro t ht
  obtain ⟨a, ha, hText⟩ := List.mem_filterMap.mp ht
  exact (whole_of_mem_additions h.sound _ a ha).1 t hText

theorem whole_parts (width : Nat) :
    ∀ s ∈ (Listing.ofStatements width statements).parts width statements, Whole s.toList := by
  have hSupport : ∀ (c : Prop) [Decidable c] (s : String), Whole s.toList → Whole (if c then s else "").toList := by
    intro c _ s hs
    split
    · exact hs
    · exact .inl rfl
  simp only [Listing.parts, List.forall_mem_cons]
  refine ⟨?_, hSupport _ _ (whole_framed ..), hSupport _ _ (whole_framed ..), whole_forward h width,
    whole_intercalate (whole_definitions h width), ?_, by simp⟩
  · exact whole_join (List.forall_mem_map.mpr fun header _ => whole_of_getLast? _ (by decide))
  · exact whole_of_getLast? _ (by decide)

/-- Without the indentation of their lines, the parts are the same. -/
theorem outdent_parts (hSorted : ∀ n ∈ statements, ∀ m ∈ n.nodes, m.WellSorted) (width width' : Nat) :
    ((Listing.ofStatements width statements).parts width statements).map (fun s => outdent s.toList) =
      ((Listing.ofStatements width' statements).parts width' statements).map (fun s => outdent s.toList) := by
  have hSoundAt := (lowerable_block_iff.mp h).1
  have hAlike := Listing.alike_ofStatements hSoundAt hSorted width width'
  have hRecord : outdent (Draft.stringRecord width).toList = outdent (Draft.stringRecord width').toList :=
    outdent_framed ..
  have hPrinter : outdent (Draft.stringPrinter width).toList = outdent (Draft.stringPrinter width').toList :=
    outdent_framed ..
  have hSupport : ∀ (c : Prop) [Decidable c] {s t : String}, outdent s.toList = outdent t.toList →
      outdent (if c then s else "").toList = outdent (if c then t else "").toList := by
    intro c _ s t hst
    split
    · exact hst
    · rfl
  have hDefinitions : outdent ("\n".intercalate (Listing.ofStatements width statements).definitions).toList =
      outdent ("\n".intercalate (Listing.ofStatements width' statements).definitions).toList := by
    rw [outdent_intercalate (whole_definitions h width), outdent_intercalate (whole_definitions h width'),
      hAlike.definitions]
  simp only [Listing.parts, List.map_cons, List.map_nil, hAlike.headers, hAlike.support, hAlike.forward, hDefinitions,
    hSupport _ hRecord, hSupport _ hPrinter, outdent_entryPointText hSoundAt hSorted width width']

end Program

/-- The files of a program with two widths are the same without the indentation of their lines. -/
theorem outdent_generate {root : Node} {text text' : String} {width width' : Nat}
    (h : (generate { width } root).result = .ok text) (h' : (generate { width := width' } root).result = .ok text')
    (hSorted : ∀ n ∈ root.nodes, n.WellSorted) : outdent text.toList = outdent text'.toList := by
  obtain ⟨hLowerable, -⟩ := generate_eq_ok_iff.mp h
  cases root with
  | block statements span =>
    have hStatements := (Node.forall_mem_nodes.mp hSorted).2
    rw [generate_block hLowerable] at h h'
    obtain rfl := Except.ok.inj h
    obtain rfl := Except.ok.inj h'
    exact outdent_file (whole_parts hLowerable width) (whole_parts hLowerable width')
      (outdent_parts hLowerable hStatements width width')
  | _ => exact absurd hLowerable.block (by simp [Node.tag])

/-- A program fails with one width as it does with the other. -/
theorem generate_error_iff (width width' : Nat) (root : Node) (fault : Fault) :
    (generate { width } root).result = .error fault ↔ (generate { width := width' } root).result = .error fault := by
  rw [generate_eq_error_iff, generate_eq_error_iff]

-- ---------------------------------------------------------------------------
-- Commands
-- ---------------------------------------------------------------------------

/-- The exit code of a command. -/
def Completion.exitCode (c : Completion) : Nat :=
  match c.result with
  | .ok _ => 0
  | .error _ => Failure.exitCode

/-- The file of a tree is made or not. -/
theorem compile_result (files : Files) (file : String) (source : Option String) (style : Style) :
    (compile files file source style).result = ((files.text file).bind (readTree · file)).bind fun root =>
      (generate style root).result.mapError (refusal files source) := by
  unfold compile
  split <;> rename_i hRoot <;> rw [hRoot] <;> rfl

section Commands

variable (files : Files) (file : String) (source : Option String) (verbose : Nat)

/-- The file of a program fails to be made with one width as with the other. -/
theorem compile_error_iff (width width' : Nat) (failure : Failure) :
    (compile files file source { width }).result = .error failure ↔
      (compile files file source { width := width' }).result = .error failure := by
  have hMapped : ∀ r : Except Fault String, r.mapError (refusal files source) = .error failure ↔
      ∃ fault, r = .error fault ∧ refusal files source fault = failure := by
    intro r
    cases r <;> simp [Except.mapError]
  rw [compile_result, compile_result]
  cases (files.text file).bind (readTree · file) with
  | error => exact Iff.rfl
  | ok root =>
    show ((generate { width } root).result.mapError _ = .error failure) ↔
      (generate { width := width' } root).result.mapError _ = .error failure
    rw [hMapped, hMapped]
    exact exists_congr fun fault => and_congr_left' (generate_error_iff width width' root fault)

/-- Checking a program fails as writing it does. -/
theorem check_error_iff (width : Nat) (failure : Failure) :
    (run files ⟨.check, file, source, verbose⟩).result = .error failure ↔
      (run files ⟨.emitC width, file, source, verbose⟩).result = .error failure := by
  refine Iff.trans ?_ (compile_error_iff files file source 4 width failure)
  show (compile files file source {}).result.map _ = .error failure ↔ (compile files file source {}).result = .error failure
  cases (compile files file source {}).result <;> simp [Except.map]

/-- The source is not looked at if there is nothing to report. -/
theorem compile_ok {files files' : Files} {file : String} {source : Option String} {style : Style} {text : String}
    (h : (compile files file source style).result = .ok text) (hFile : files'.text file = files.text file)
    (source' : Option String) : (compile files' file source' style).result = .ok text := by
  have hMapped : ∀ (r : Except Fault String) (f : Fault → Failure), r.mapError f = .ok text ↔ r = .ok text := by
    intro r f
    cases r <;> simp [Except.mapError]
  rw [compile_result] at h ⊢
  rw [hFile]
  cases hRoot : (files.text file).bind (readTree · file) with
  | error failure =>
    rw [hRoot] at h
    cases h
  | ok root =>
    rw [hRoot] at h
    exact (hMapped _ _).mpr ((hMapped _ _).mp h)

end Commands

theorem Completion.exitCode_eq {c c' : Completion}
    (h : ∀ failure, c.result = .error failure ↔ c'.result = .error failure) : c.exitCode = c'.exitCode := by
  unfold exitCode
  cases hResult : c.result with
  | error failure => rw [(h failure).mp hResult]
  | ok text =>
    cases hResult' : c'.result with
    | error failure => simp [(h failure).mpr hResult'] at hResult
    | ok text' => rfl

/-- **Indentation is layout.** Whether a program can be written and what is wrong with it has nothing to do with the width
of a level of indentation, and the file of a program of blocks and expressions has the same lines with every width, without
the blanks at their start. So `check` fails as `emit-c` does. If there is a file, neither of them depends on the source. -/
theorem check_predicts_emission (width width' : Nat) :
    (∀ root fault, (generate { width } root).result = .error fault ↔
      (generate { width := width' } root).result = .error fault) ∧
    (∀ root text text', (∀ n ∈ root.nodes, n.WellSorted) → (generate { width } root).result = .ok text →
      (generate { width := width' } root).result = .ok text' → outdent text.toList = outdent text'.toList) ∧
    ∀ files file source verbose,
      (∀ failure, (run files ⟨.check, file, source, verbose⟩).result = .error failure ↔
        (run files ⟨.emitC width, file, source, verbose⟩).result = .error failure) ∧
      (run files ⟨.check, file, source, verbose⟩).exitCode = (run files ⟨.emitC width, file, source, verbose⟩).exitCode ∧
      ∀ text, (run files ⟨.emitC width, file, source, verbose⟩).result = .ok text →
        ∀ files' source', files'.text file = files.text file →
          (run files' ⟨.emitC width, file, source', verbose⟩).result = .ok text ∧
          (run files' ⟨.check, file, source', verbose⟩).result = (run files ⟨.check, file, source, verbose⟩).result := by
  refine ⟨generate_error_iff width width', fun root text text' hSorted h h' => outdent_generate h h' hSorted, ?_⟩
  intro files file source verbose
  have hError := check_error_iff files file source verbose width
  refine ⟨hError, Completion.exitCode_eq hError, fun text h files' source' hFile => ⟨compile_ok h hFile source', ?_⟩⟩
  obtain ⟨text', hChecked⟩ : ∃ text', (compile files file source {}).result = .ok text' := by
    cases hResult : (compile files file source {}).result with
    | ok text' => exact ⟨text', rfl⟩
    | error failure =>
      have hFails := (compile_error_iff files file source 4 width failure).mp hResult
      exact absurd (hFails.symm.trans h) (by simp)
  show (compile files' file source' {}).result.map _ = (compile files file source {}).result.map _
  rw [hChecked, compile_ok hChecked hFile source']

/-- Files with a text at one path and nothing else. -/
def Files.only (path text : String) : Files where
  size p := if p = path then .ok 0 else .error .notFound
  bytes p := if p = path then .ok text.toUTF8 else .error .notFound

theorem Files.text_only (path text : String) : (Files.only path text).text path = .ok text := by
  have hText : String.fromUTF8? text.toUTF8 = some text := by
    simp [String.fromUTF8?, text.isValidUTF8, String.fromUTF8]
  simp only [Files.text, Files.only, if_true, if_neg (Nat.not_lt_zero maxInputSize), hText]

/-- A function and a loop, with widths of nothing and of three blanks, and a source that cannot be read. -/
theorem check_predicts_emission_leaving :
    let files := Files.only "tree.json" leaving.render
    (∀ n ∈ leaving.nodes, n.WellSorted) ∧ ∃ text text',
      (generate { width := 0 } leaving).result = .ok text ∧ (generate { width := 3 } leaving).result = .ok text' ∧
      outdent text.toList = outdent text'.toList ∧
      (run files ⟨.emitC 0, "tree.json", none, 0⟩).result = .ok text ∧
      (run files ⟨.emitC 0, "tree.json", some "main", 0⟩).result = .ok text ∧
      (run files ⟨.check, "tree.json", some "main", 0⟩).exitCode = 0 := by
  intro files
  have hSorted : ∀ n ∈ leaving.nodes, n.WellSorted := by
    simp only [leaving, Node.nodes_eq, Node.children, List.flatMap_cons, List.flatMap_nil, List.append_nil,
      List.cons_append, List.nil_append, Option.toList_none]
    decide
  have hFits : leaving.Fits := by
    unfold Node.Fits
    simp only [leaving, Node.nodes_eq, Node.children, List.flatMap_cons, List.flatMap_nil, List.append_nil,
      List.cons_append, List.nil_append, Option.toList_none]
    simp [Node.span, Span.Fits, UInt64.size]
  have hFile : files.text "tree.json" = .ok leaving.render := Files.text_only _ _
  have hRead : readTree leaving.render "tree.json" = .ok leaving := by
    rw [readTree, Node.parse?_render_of_fits hFits (by decide)]
  obtain ⟨text, hText⟩ : ∃ text, (generate { width := 0 } leaving).result = .ok text :=
    exists_text_of_isOk (by decide +kernel)
  obtain ⟨text', hText'⟩ : ∃ text, (generate { width := 3 } leaving).result = .ok text :=
    exists_text_of_isOk (by decide +kernel)
  have hRun : (run files ⟨.emitC 0, "tree.json", none, 0⟩).result = .ok text := by
    show (compile files "tree.json" none { width := 0 }).result = _
    rw [compile_result, hFile, Except.bind, hRead, Except.bind, hText]
    rfl
  obtain ⟨-, hLayout, hCommands⟩ := check_predicts_emission 0 3
  obtain ⟨-, -, hSource⟩ := hCommands files "tree.json" none 0
  obtain ⟨hMain, -⟩ := hSource text hRun files (some "main") rfl
  obtain ⟨-, hExit, -⟩ := hCommands files "tree.json" (some "main") 0
  refine ⟨hSorted, text, text', hText, hText', hLayout leaving _ _ hSorted hText hText', hRun, hMain, ?_⟩
  rw [hExit, Completion.exitCode, hMain]

end Lowering
