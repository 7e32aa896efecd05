import Mathlib.Data.List.Nodup
import Lowering.Proofs.Program

/-!
# Statements after statements

A program that consists of the statements of two programs is written exactly if both of these are and neither strings nor
print calls of the two start at the same place. Its file has what the two files have: their forward declarations, their
definitions and the bodies of their entry points one after the other, and of headers and support code what one or the other
asks for. The second program is written in a draft that the first has changed, but it cannot tell.

* `Listing` — what statements put in the file; `Listing.append` is its composition.
* `Node.directReturns` — the returns that keep the entry point from getting a return of its own.
* `Draft.Shows` — the file of a program and the listing of its statements.
-/

namespace Lowering

open Addition

-- ---------------------------------------------------------------------------
-- Returns
-- ---------------------------------------------------------------------------

namespace Node

/-- The returns that are written in the scope around a node. Those in a block or a function below it are not. -/
def directReturns (n : Node) : List Node :=
  if n.ownScopes = 0 then
    n.children.attach.flatMap (fun c => directReturns c.1) ++ (if n.tag = .ret then [n] else [])
  else []
termination_by sizeOf n
decreasing_by exact sizeOf_lt_of_mem_children c.2

theorem directReturns_eq {n : Node} (h : n.ownScopes = 0) :
    n.directReturns = n.children.flatMap directReturns ++ (if n.tag = .ret then [n] else []) := by
  rw [directReturns, if_pos h, List.flatMap_subtype (g := directReturns) (fun _ _ => rfl), List.unattach_attach]

theorem directReturns_eq_nil {n : Node} (h : n.ownScopes ≠ 0) : n.directReturns = [] := by
  rw [directReturns, if_neg h]

end Node

/-- The note that an addition leaves in the innermost scope. -/
def Addition.return? : Addition → Option Unit
  | .returned => some ()
  | _ => none

theorem Addition.reading_return? : Reading return? :=
  ⟨fun _ => rfl, fun _ _ => rfl, fun _ => rfl⟩

theorem Addition.filterMap_return?_eq_nil {as : List Addition} (h : .returned ∉ as) : as.filterMap return? = [] := by
  rw [List.filterMap_eq_nil_iff]
  intro a ha
  cases a with
  | returned => exact absurd ha h
  | _ => rfl

/-- A block keeps the returns written in it to itself. -/
theorem Addition.returned_not_mem_block (p : Place) (as : List Addition) : .returned ∉ p.block as := by
  have hClosed := returned_not_mem_closed as
  unfold Place.block
  split
  · split <;> simp [hClosed, Place.line]
  · exact hClosed

/-- A return is noted for each of the direct returns. -/
theorem Node.filterMap_return? {n : Node} {depth : Nat} (hSoundAt : n.SoundAt depth) (p : Place) :
    (n.additions p).filterMap return? = n.directReturns.map (fun _ => ()) := by
  induction n using Node.childInduction generalizing depth p with
  | step n ih =>
    obtain ⟨hSound, hBelow⟩ := soundAt_iff.mp hSoundAt
    by_cases hOwn : n.ownScopes = 0
    · have hChildren : ∀ c ∈ n.children, ∀ q : Place, q.width = p.width →
          (c.additions q).filterMap return? = c.directReturns.map (fun _ => ()) :=
        fun c hc q _ => ih c hc (hBelow c hc) q
      have hNone : (n.own p.width).filterMap return? = [] := by
        refine filterMap_return?_eq_nil fun hMem => ?_
        cases n <;> simp [own] at hMem
        split at hMem <;> simp at hMem
      rw [filterMap_additions_of_reading reading_return? hSound hOwn hChildren, hNone, directReturns_eq hOwn]
      simp only [List.nil_append, List.map_append, List.map_flatMap]
      congr 1
      cases n <;> rfl
    · rw [directReturns_eq_nil hOwn, List.map_nil]
      cases n with
      | block statements span => exact filterMap_return?_eq_nil (returned_not_mem_block _ _)
      | funcDef visibility name params returns body span =>
        rw [additions, reading_return?.function, filterMap_return?_eq_nil (returned_not_mem_filed _)]
        rfl
      | _ => exact absurd rfl hOwn

-- ---------------------------------------------------------------------------
-- Listings
-- ---------------------------------------------------------------------------

/-- What statements put in the file of a program. -/
structure Listing where
  /-- The headers, in the order of the file. -/
  headers : List String
  /-- The support code that is in the file. -/
  support : List Support
  /-- The text of the forward declarations. -/
  forward : String
  /-- The texts of the definitions. -/
  definitions : List String
  /-- The lines of the statements in the entry point. -/
  body : String
deriving DecidableEq

namespace Listing

/-- The listing of statements and of others after them. -/
def append (l m : Listing) : Listing where
  headers := l.headers ++ m.headers.filter (fun header => header ∉ l.headers)
  support := l.support ++ m.support.filter (fun s => s ∉ l.support)
  forward := l.forward ++ m.forward
  definitions := l.definitions ++ m.definitions
  body := l.body ++ m.body

/-- What additions put in the file. -/
def ofAdditions (as : List Addition) : Listing where
  headers := (as.flatMap Addition.headers).eraseDups
  support := (as.flatMap Addition.supports).eraseDups
  forward := String.join (as.filterMap Addition.forward?)
  definitions := as.filterMap Addition.definition?
  body := pageText as

theorem ofAdditions_append (as bs : List Addition) :
    ofAdditions (as ++ bs) = (ofAdditions as).append (ofAdditions bs) := by
  simp only [ofAdditions, append, List.flatMap_append, List.filterMap_append, eraseDups_append_filter,
    String.join_append, pageText_append]
  congr

/-- The place of the statements of a program. -/
def place (width : Nat) : Place :=
  ((Draft.blank width).place.descend .block).inBlock

/-- The listing of the statements of a program. -/
def ofStatements (width : Nat) (statements : List Node) : Listing :=
  ofAdditions (Node.statementsAdditions (place width) statements)

theorem ofStatements_append (width : Nat) (ss ts : List Node) :
    ofStatements width (ss ++ ts) = (ofStatements width ss).append (ofStatements width ts) := by
  simp only [ofStatements, Node.statementsAdditions_eq, List.flatMap_append, ofAdditions_append]

end Listing

/-- The lines of the entry point: those of its statements, and a return of its own if none of them is one. -/
def entryPointText (width : Nat) (statements : List Node) (body : String) : String :=
  "int main() \x7b\n" ++ body
    ++ (if statements.flatMap Node.directReturns = [] then Page.indentation 1 width ++ "return 0;\n" else "") ++ "\x7d\n"

/-- The draft of a program is what the listing of its statements says. -/
structure Draft.Shows (d : Draft) (width : Nat) (statements : List Node) (l : Listing) : Prop where
  headers : d.headers = l.headers
  support : d.support = l.support
  includes : d.sections.includes = String.join (l.headers.map Draft.includeLine)
  declarations : d.sections.supportDeclarations = if .string ∈ l.support then Draft.stringRecord width else ""
  definitions : d.sections.supportDefinitions = if .stringPrint ∈ l.support then Draft.stringPrinter width else ""
  forward : d.sections.forwardDeclarations = l.forward
  functions : d.sections.definitions = "\n".intercalate l.definitions
  main : d.page.text = entryPointText width statements l.body

/-- The program is written, and its file is what the listing says. -/
def WrittenAs (width : Nat) (statements : List Node) (span : Span) (l : Listing) : Prop :=
  ∃ d, visit .standard (.block statements span) (Draft.blank width) = .ok () d ∧
    (generate { width } (.block statements span)).result = .ok d.finish ∧ d.Shows width statements l

-- ---------------------------------------------------------------------------
-- Programs
-- ---------------------------------------------------------------------------

section Program

variable (width : Nat) {statements : List Node} {span : Span}

/-- What a program adds: its statements between the first and the last line of the entry point. -/
theorem additions_program :
    (Node.block statements span).additions (Draft.blank width).place =
      [Addition.lineEnd "int main() \x7b"] ++ closed (Node.statementsAdditions (Listing.place width) statements)
        ++ (if .returned ∈ Node.statementsAdditions (Listing.place width) statements then []
            else (Listing.place width).line "return 0;")
        ++ [Addition.lineEnd "\x7d"] := by
  have hOutermost : ((Draft.blank width).place.descend .block).outermost = true := rfl
  rw [Node.additions, Place.block, if_pos hOutermost]
  rfl

/-- What is read off the additions of a program apart from text and returns is read off its statements. -/
theorem flatMap_additions_program {α : Type} {f : Addition → List α} (hText : ∀ s, f (.text s) = [])
    (hReturned : f .returned = []) :
    ((Node.block statements span).additions (Draft.blank width).place).flatMap f =
      (Node.statementsAdditions (Listing.place width) statements).flatMap f := by
  have hClosed : ∀ as : List Addition, (closed as).flatMap f = as.flatMap f := by
    intro as
    induction as with
    | nil => rfl
    | cons a as ih =>
      rw [closed] at ih ⊢
      by_cases hEq : a = .returned
      · rw [List.filter_cons_of_neg (by simp [hEq]), ih, List.flatMap_cons, hEq, hReturned, List.nil_append]
      · rw [List.filter_cons_of_pos (by simp [hEq]), List.flatMap_cons, List.flatMap_cons, ih]
  rw [additions_program]
  split <;> simp [hText, hClosed, Place.line]

/-- A return is noted in the entry point if one is written directly in it. -/
theorem returned_mem_statements (h : ∀ n ∈ statements, n.SoundAt 1) :
    .returned ∈ Node.statementsAdditions (Listing.place width) statements ↔
      statements.flatMap Node.directReturns ≠ [] := by
  have hNotes : (Node.statementsAdditions (Listing.place width) statements).filterMap return? =
      (statements.flatMap Node.directReturns).map (fun _ => ()) := by
    rw [Node.statementsAdditions_eq, List.filterMap_flatMap, List.map_flatMap]
    refine List.flatMap_congr fun n hn => ?_
    rw [reading_return?.statement, Node.filterMap_return? (h n hn)]
  constructor
  · intro hMem hNil
    rw [hNil, List.map_nil, List.filterMap_eq_nil_iff] at hNotes
    cases hNotes _ hMem
  · intro hNe
    by_contra hMem
    rw [filterMap_return?_eq_nil hMem] at hNotes
    exact hNe (List.map_eq_nil_iff.mp hNotes.symm)

theorem pageText_program (h : ∀ n ∈ statements, n.SoundAt 1) :
    pageText ((Node.block statements span).additions (Draft.blank width).place) =
      entryPointText width statements (pageText (Node.statementsAdditions (Listing.place width) statements)) := by
  have hReturned := returned_mem_statements width h
  have hLine : pageText ((Listing.place width).line "return 0;") = Page.indentation 1 width ++ "return 0;\n" := by
    simp [Place.line, onPage, Listing.place, Place.indentation, Draft.place, Draft.blank, Place.inBlock, Place.descend,
      Place.deeper, Place.enter, Page.blank]
  unfold entryPointText
  rw [additions_program, pageText_append, pageText_append, pageText_append, pageText_closed]
  by_cases hNil : statements.flatMap Node.directReturns = []
  · rw [if_pos hNil, if_neg (mt hReturned.mp (not_not.mpr hNil)), hLine]
    simp [onPage]
  · rw [if_neg hNil, if_pos (hReturned.mpr hNil)]
    simp [onPage]

theorem filterMap_additions_program {α : Type} {f : Addition → Option α} (hText : ∀ s, f (.text s) = none)
    (hReturned : f .returned = none) :
    ((Node.block statements span).additions (Draft.blank width).place).filterMap f =
      (Node.statementsAdditions (Listing.place width) statements).filterMap f := by
  rw [List.filterMap_eq_flatMap_toList, List.filterMap_eq_flatMap_toList]
  exact flatMap_additions_program width (fun s => by rw [hText]; rfl) (by rw [hReturned]; rfl)

/-- The draft of a program shows the listing of its statements. -/
theorem Draft.shows_program (h : Lowerable (.block statements span)) (hSound : ∀ n ∈ statements, n.SoundAt 1)
    (events : List Event) :
    (((Draft.blank width).putAll ((Node.block statements span).additions (Draft.blank width).place)).withEvents
      events).Shows width statements (Listing.ofStatements width statements) := by
  let as := (Node.block statements span).additions (Draft.blank width).place
  have hStocked := stocked_program width as
  have hHeaders : as.flatMap Addition.headers = _ := flatMap_additions_program width (fun _ => rfl) rfl
  have hSupports : as.flatMap Addition.supports = _ := flatMap_additions_program width (fun _ => rfl) rfl
  have hWidth : ((Draft.blank width).putAll as).width = width :=
    congrArg Place.width (Draft.place_putAll (Draft.blank width) as)
  have hForward : ((Draft.blank width).putAll as).sections.forwardDeclarations = _ :=
    Draft.forwardDeclarations_putAll (Draft.blank width) as
  have hDefinitions := definitions_program h width
  have hPage := Draft.text_page_putAll_blank width as
  rw [hHeaders, hSupports] at hStocked
  rw [filterMap_additions_program width (fun _ => rfl) rfl] at hForward hDefinitions
  rw [pageText_program width hSound] at hPage
  refine ⟨hStocked.headers, hStocked.support, ?_, ?_, ?_, ?_, hDefinitions, hPage⟩
  · exact hStocked.includes.trans (by rw [hStocked.headers]; rfl)
  · refine hStocked.declarations.trans ?_
    rw [hWidth]
    simp [Listing.ofStatements, Listing.ofAdditions]
  · refine hStocked.definitions.trans ?_
    rw [hWidth]
    simp [Listing.ofStatements, Listing.ofAdditions]
  · exact hForward.trans String.empty_append

end Program

/-- Where the strings of statements start. -/
def stringStarts (statements : List Node) : List Nat :=
  statements.flatMap (fun n => n.nodes.filterMap Node.stringStart?)

/-- Where the print calls of statements start. -/
def printStarts (statements : List Node) : List Nat :=
  statements.flatMap (fun n => n.nodes.filterMap Node.printStart?)

/-- A program is written if its statements are sound and neither strings nor print calls share a start. -/
theorem lowerable_block_iff {statements : List Node} {span : Span} :
    Lowerable (.block statements span) ↔
      (∀ n ∈ statements, n.SoundAt 1) ∧ (stringStarts statements).Nodup ∧ (printStarts statements).Nodup := by
  have hStarts : ∀ f : Node → Option Nat, f (.block statements span) = none →
      ((Node.block statements span).census 0).filterMap (fun e => f e.2) =
        statements.flatMap (fun n => n.nodes.filterMap f) := by
    intro f hRoot
    have hNodes := Node.map_snd_census 0 (.block statements span)
    rw [show (fun e : Nat × Node => f e.2) = f ∘ Prod.snd from rfl, ← List.filterMap_map, hNodes, Node.nodes_eq,
      List.filterMap_cons_none hRoot, List.filterMap_flatMap]
    rfl
  have hSound : (Node.block statements span).SoundAt 0 ↔ ∀ n ∈ statements, n.SoundAt 1 :=
    Node.soundAt_iff.trans (and_iff_right trivial)
  rw [stringStarts, printStarts, ← hStarts Node.stringStart? rfl, ← hStarts Node.printStart? rfl, ← hSound]
  exact ⟨fun h => ⟨h.sound, h.strings, h.prints⟩, fun ⟨h, hStrings, hPrints⟩ => ⟨rfl, h, hStrings, hPrints⟩⟩

theorem lowerable_append_iff {ss ts : List Node} {span : Span} (span₁ span₂ : Span) :
    Lowerable (.block (ss ++ ts) span) ↔
      Lowerable (.block ss span₁) ∧ Lowerable (.block ts span₂) ∧
        (stringStarts ss).Disjoint (stringStarts ts) ∧ (printStarts ss).Disjoint (printStarts ts) := by
  have hStrings : stringStarts (ss ++ ts) = stringStarts ss ++ stringStarts ts := List.flatMap_append
  have hPrints : printStarts (ss ++ ts) = printStarts ss ++ printStarts ts := List.flatMap_append
  simp only [lowerable_block_iff, List.forall_mem_append, hStrings, hPrints, List.nodup_append']
  tauto

/-- A program that can be written is written, as the listing of its statements says. -/
theorem writtenAs_of_lowerable {statements : List Node} {span : Span} (h : Lowerable (.block statements span))
    (width : Nat) : WrittenAs width statements span (Listing.ofStatements width statements) := by
  obtain ⟨events, hRun⟩ := visit_of_lowerable h width
  exact ⟨_, hRun, generate_eq_ok_iff.mpr ⟨h, rfl⟩, Draft.shows_program width h (lowerable_block_iff.mp h).1 events⟩

/-- **Composition.** Two lists of statements make a program together exactly if each of them does and neither strings nor
print calls of the two share a start; the file of that program is then composed of the two files. -/
theorem generate_append (width : Nat) (ss ts : List Node) (span span₁ span₂ : Span) :
    ((∃ text, (generate { width } (.block (ss ++ ts) span)).result = .ok text) ↔
      (∃ text, (generate { width } (.block ss span₁)).result = .ok text) ∧
      (∃ text, (generate { width } (.block ts span₂)).result = .ok text) ∧
      (stringStarts ss).Disjoint (stringStarts ts) ∧ (printStarts ss).Disjoint (printStarts ts)) ∧
    ((∃ text, (generate { width } (.block (ss ++ ts) span)).result = .ok text) →
      WrittenAs width ss span₁ (Listing.ofStatements width ss) ∧
      WrittenAs width ts span₂ (Listing.ofStatements width ts) ∧
      WrittenAs width (ss ++ ts) span ((Listing.ofStatements width ss).append (Listing.ofStatements width ts))) := by
  have hAccepted : ∀ root : Node, (∃ text, (generate { width } root).result = .ok text) ↔ Lowerable root := by
    intro root
    simp only [generate_eq_ok_iff]
    exact ⟨fun ⟨_, h, _⟩ => h, fun h => ⟨_, h, rfl⟩⟩
  simp only [hAccepted]
  refine ⟨lowerable_append_iff span₁ span₂, fun h => ?_⟩
  obtain ⟨hFirst, hSecond, -, -⟩ := (lowerable_append_iff span₁ span₂).mp h
  rw [← Listing.ofStatements_append]
  exact ⟨writtenAs_of_lowerable hFirst width, writtenAs_of_lowerable hSecond width, writtenAs_of_lowerable h width⟩

/-- The second program asks again for the string record, which the first has already, and needs its printer. -/
theorem generate_append_greeting :
    let ss : List Node := [.string "hi" ⟨0, 4⟩]
    let ts : List Node := [.call (.id "print" ⟨5, 10⟩) [.string "you" ⟨11, 16⟩] ⟨5, 17⟩, .ret [] ⟨18, 24⟩]
    (∃ text, (generate { width := 2 } (.block (ss ++ ts) ⟨0, 24⟩)).result = .ok text) ∧
      WrittenAs 2 (ss ++ ts) ⟨0, 24⟩ ((Listing.ofStatements 2 ss).append (Listing.ofStatements 2 ts)) ∧
      (Listing.ofStatements 2 ss).headers = ["stdint.h"] ∧
      (Listing.ofStatements 2 ts).headers = ["stdint.h", "stdio.h"] := by
  intro ss ts
  have hAccepted : ∃ text, (generate { width := 2 } (.block (ss ++ ts) ⟨0, 24⟩)).result = .ok text :=
    exists_text_of_isOk (by decide +kernel +zetaReduce)
  refine ⟨hAccepted, ?_, by rfl, by rfl⟩
  exact ((generate_append 2 ss ts ⟨0, 24⟩ ⟨0, 4⟩ ⟨5, 24⟩).2 hAccepted).2.2

end Lowering
