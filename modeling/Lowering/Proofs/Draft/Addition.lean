import Mathlib.Tactic.Common
import Lowering.Draft.Gen

/-!
# What is added to a draft

All that the writing of a node does to a draft, apart from what it undoes again, is to add something: text on the
current page, a request, a generated name, a line or a definition elsewhere in the file. Here these additions are data.
A run that does not fail is then described by the list of its additions, and everything about its result can be read
off that list.

What a step adds may depend on where it is run. All that it depends on is the `Place`: not the text already there, nor
the names already given.

* `Draft.place_putAll`, `Draft.types_putAll` — no addition changes the place or the type table.
* `Draft.fresh_append` — names stay new one list of additions after another.
-/

namespace Lowering

-- ---------------------------------------------------------------------------
-- Additions
-- ---------------------------------------------------------------------------

/-- Something that is added to a draft. -/
inductive Addition where
  /-- Text on the current page. -/
  | text (s : String)
  | header (name : String)
  | support (s : Support)
  /-- A generated name and the node that it is given to. -/
  | symbol (name : String) (owner : Span)
  /-- A line among the forward declarations. -/
  | forward (line : String)
  /-- The definition of a print helper. -/
  | helper (text : String)
  /-- The definition of a function of the program, from its signature and the lines of its body. -/
  | function (signature body : String)
  /-- The note that a return has been written in the innermost scope. -/
  | returned
deriving DecidableEq

namespace Addition

/-- The text that an addition puts on the current page. -/
def onPage : Addition → String
  | .text s => s
  | _ => ""

/-- The generated name that an addition gives away. -/
def name? : Addition → Option String
  | .symbol name _ => some name
  | _ => none

/-- Whether an addition concerns the file as a whole, and neither the current page nor the innermost scope. -/
def isFiled : Addition → Bool
  | .text _ | .returned => false
  | _ => true

/-- The definition of a function from its signature and the lines of its body. -/
def functionText (signature body : String) : String :=
  signature ++ " \x7b\n" ++ body ++ "\x7d\n"

/-- The text that additions put on the current page. -/
def pageText (as : List Addition) : String :=
  String.join (as.map onPage)

/-- The generated names that additions give away. -/
def names (as : List Addition) : List String :=
  as.filterMap name?

/-- What is left of additions once the innermost scope is closed: a return is noted in that scope only. -/
def closed (as : List Addition) : List Addition :=
  as.filter (fun a => a ≠ .returned)

/-- What is left of additions that were made on another page and in another scope. -/
def filed (as : List Addition) : List Addition :=
  as.filter isFiled

@[simp]
theorem names_append (as bs : List Addition) : names (as ++ bs) = names as ++ names bs :=
  List.filterMap_append

@[simp]
theorem pageText_nil : pageText [] = "" := rfl

@[simp]
theorem pageText_cons (a : Addition) (as : List Addition) : pageText (a :: as) = a.onPage ++ pageText as := by
  rw [pageText, List.map_cons, String.join_cons]
  rfl

@[simp]
theorem pageText_append (as bs : List Addition) : pageText (as ++ bs) = pageText as ++ pageText bs := by
  induction as with
  | nil => simp
  | cons a as ih => rw [List.cons_append, pageText_cons, pageText_cons, ih, String.append_assoc]

@[simp]
theorem closed_append (as bs : List Addition) : closed (as ++ bs) = closed as ++ closed bs :=
  List.filter_append as bs

@[simp]
theorem filed_append (as bs : List Addition) : filed (as ++ bs) = filed as ++ filed bs :=
  List.filter_append as bs

theorem pageText_closed (as : List Addition) : pageText (closed as) = pageText as := by
  induction as with
  | nil => rfl
  | cons a as ih =>
    rw [closed] at ih ⊢
    rw [List.filter_cons]
    split
    · rw [pageText_cons, pageText_cons, ih]
    · rename_i hReturned
      simp only [ne_eq, decide_not, Bool.not_eq_true', decide_eq_false_iff_not, not_not] at hReturned
      rw [pageText_cons, ih, hReturned]
      exact String.empty_append.symm

theorem filed_cons_of_isFiled {a : Addition} (h : a.isFiled = true) (as : List Addition) :
    filed (a :: as) = a :: filed as :=
  List.filter_cons_of_pos h

theorem filed_cons_of_not_isFiled {a : Addition} (h : a.isFiled = false) (as : List Addition) :
    filed (a :: as) = filed as :=
  List.filter_cons_of_neg (by simp [h])

theorem filed_closed (as : List Addition) : filed (closed as) = filed as := by
  rw [filed, filed, closed, List.filter_filter]
  congr 1
  funext a
  cases a <;> rfl

theorem filed_filed (as : List Addition) : filed (filed as) = filed as := by
  rw [filed, filed, List.filter_filter]
  simp

theorem pageText_filed (as : List Addition) : pageText (filed as) = "" := by
  induction as with
  | nil => rfl
  | cons a as ih =>
    cases h : a.isFiled with
    | false => rw [filed_cons_of_not_isFiled h, ih]
    | true =>
      have hPage : a.onPage = "" := by cases a <;> first | rfl | simp [isFiled] at h
      rw [filed_cons_of_isFiled h, pageText_cons, ih, hPage]
      rfl

theorem returned_not_mem_filed (as : List Addition) : .returned ∉ filed as := by
  simp [filed, isFiled]

theorem names_closed (as : List Addition) : names (closed as) = names as := by
  rw [names, names, closed, List.filterMap_filter]
  congr 1
  funext a
  cases a <;> rfl

theorem names_filed (as : List Addition) : names (filed as) = names as := by
  rw [names, names, filed, List.filterMap_filter]
  congr 1
  funext a
  cases a <;> rfl

theorem returned_not_mem_closed (as : List Addition) : .returned ∉ closed as := by
  simp [closed]

end Addition

namespace Draft

/-- Makes an addition. -/
def put (d : Draft) : Addition → Draft
  | .text s => { d with page := d.page.write s }
  | .header name => d.addHeader name
  | .support s => d.addSupport s
  | .symbol name owner => { d with symbols := (name, owner) :: d.symbols }
  | .forward line => d.addTo .forwardDeclarations line
  | .helper text => d.addDefinition text
  | .function signature body => d.addDefinition (Addition.functionText signature body)
  | .returned => { d with site := d.site.markReturn }

/-- Makes additions one after the other. -/
def putAll (d : Draft) (as : List Addition) : Draft :=
  as.foldl put d

@[simp]
theorem putAll_nil (d : Draft) : d.putAll [] = d := rfl

@[simp]
theorem putAll_cons (d : Draft) (a : Addition) (as : List Addition) : d.putAll (a :: as) = (d.put a).putAll as := rfl

theorem putAll_append (d : Draft) (as bs : List Addition) : d.putAll (as ++ bs) = (d.putAll as).putAll bs :=
  List.foldl_append

/-- A draft with other events. The events of a run are not described by its additions. -/
def withEvents (d : Draft) (events : List Event) : Draft :=
  { d with events }

end Draft

-- ---------------------------------------------------------------------------
-- Places
-- ---------------------------------------------------------------------------

/-- All that the additions of a step depend on. -/
structure Place where
  /-- The node being written applies an operator. -/
  isOperator : Bool
  /-- The node being written is an operand. -/
  inOperator : Bool
  /-- No scope is open. -/
  outermost : Bool
  /-- The innermost scope is that of the root block. -/
  isTop : Bool
  /-- The innermost scope is the body of the entry point. -/
  isMain : Bool
  /-- The innermost function is the entry point. -/
  inMain : Bool
  /-- The indentation of the current page. -/
  level : Nat
  /-- The indentation width of the current page. -/
  pageWidth : Nat
  /-- The indentation width of new pages. -/
  width : Nat
deriving DecidableEq

namespace Place

/-- The place of the nodes below a node of the given kind. -/
def descend (p : Place) (tag : Tag) : Place :=
  { p with isOperator := tag.isOperator, inOperator := p.isOperator }

/-- The place one level further in. -/
def deeper (p : Place) : Place :=
  { p with level := p.level + 1 }

/-- The place inside a new scope. -/
def enter (p : Place) (c : Scope) : Place :=
  { p with
    outermost := false
    isTop := c.isTop
    isMain := c.isMain
    inMain := if c.isMain || c.isFunction then c.isMain else p.inMain }

/-- The place on a new page. -/
def onNewPage (p : Place) : Place :=
  { p with level := 0, pageWidth := p.width }

/-- The blanks that start a line. -/
def indentation (p : Place) : String :=
  Page.indentation p.level p.pageWidth

/-- An indented line. -/
def line (p : Place) (s : String) : List Addition :=
  [.text p.indentation, .text (s ++ "\n")]

end Place

namespace Draft

/-- The place at which a draft is being written. -/
def place (d : Draft) : Place where
  isOperator := d.site.lineage.head?.any Tag.isOperator
  inOperator := d.site.inOperator
  outermost := d.site.scopes.isEmpty
  isTop := d.site.isTop
  isMain := d.site.isMain
  inMain := d.site.inMain
  level := d.page.level
  pageWidth := d.page.width
  width := d.width

-- ---------------------------------------------------------------------------
-- What additions leave alone
-- ---------------------------------------------------------------------------

/-- Headers and support code change nothing but the sections, the registers of requests and the events. -/
theorem addHeader_eq (d : Draft) (header : String) :
    ∃ headers sections events,
      d.addHeader header = { d with headers := headers, sections := sections, events := events } := by
  unfold addHeader
  split
  · exact ⟨d.headers, d.sections, d.events, rfl⟩
  · exact ⟨_, _, _, rfl⟩

theorem addStringRecord_eq (d : Draft) :
    ∃ headers support sections events,
      d.addStringRecord =
        { d with headers := headers, support := support, sections := sections, events := events } := by
  unfold addStringRecord
  split
  · exact ⟨d.headers, d.support, d.sections, d.events, rfl⟩
  · obtain ⟨headers, sections, events, h⟩ := addHeader_eq (d.markSupport .string) "stdint.h"
    rw [h]
    exact ⟨_, _, _, _, rfl⟩

theorem addSupport_eq (d : Draft) (s : Support) :
    ∃ headers support sections events,
      d.addSupport s = { d with headers := headers, support := support, sections := sections, events := events } := by
  cases s with
  | string => exact addStringRecord_eq d
  | stringPrint =>
    unfold addSupport addStringPrinter
    dsimp only
    split
    · exact ⟨d.headers, d.support, d.sections, d.events, rfl⟩
    · obtain ⟨headers, support, sections, events, h⟩ := addStringRecord_eq (d.markSupport .stringPrint)
      rw [h]
      obtain ⟨headers', sections', events', h'⟩ := addHeader_eq
        { d.markSupport .stringPrint with
          headers := headers, support := support, sections := sections, events := events } "stdio.h"
      rw [h']
      exact ⟨_, _, _, _, rfl⟩

theorem types_put (d : Draft) (a : Addition) : (d.put a).types = d.types := by
  cases a with
  | header name =>
    obtain ⟨_, _, _, h⟩ := addHeader_eq d name
    simp only [put, h]
  | support s =>
    obtain ⟨_, _, _, _, h⟩ := addSupport_eq d s
    simp only [put, h]
  | text | symbol | forward | helper | function | returned => rfl

theorem types_putAll (d : Draft) (as : List Addition) : (d.putAll as).types = d.types := by
  induction as generalizing d with
  | nil => rfl
  | cons a as ih => rw [putAll_cons, ih, types_put]

/-- The note of a return cannot be seen in the place. -/
theorem place_markReturn (d : Draft) : { d with site := d.site.markReturn }.place = d.place := by
  rcases d with ⟨_, _, _, _, _, _, ⟨lineage, scopes⟩, _, _⟩
  cases scopes with
  | nil => rfl
  | cons c cs =>
    simp only [place, Site.markReturn, Site.inOperator, Site.parent?, Site.isTop, Site.isMain, Site.scope?, Site.inMain,
      List.head?_cons, Option.any_some, List.isEmpty_cons, List.find?_cons]
    cases c.isMain || c.isFunction <;> rfl

theorem place_put (d : Draft) (a : Addition) : (d.put a).place = d.place := by
  cases a with
  | header name =>
    obtain ⟨_, _, _, h⟩ := addHeader_eq d name
    simp only [put, h]
    rfl
  | support s =>
    obtain ⟨_, _, _, _, h⟩ := addSupport_eq d s
    simp only [put, h]
    rfl
  | returned => exact place_markReturn d
  | text | symbol | forward | helper | function => rfl

theorem place_putAll (d : Draft) (as : List Addition) : (d.putAll as).place = d.place := by
  induction as generalizing d with
  | nil => rfl
  | cons a as ih => rw [putAll_cons, ih, place_put]

-- ---------------------------------------------------------------------------
-- Names
-- ---------------------------------------------------------------------------

/-- The generated names that have been given away. -/
def taken (d : Draft) : List String :=
  d.symbols.map Prod.fst

theorem lookup_eq_none_iff {d : Draft} {name : String} : d.symbols.lookup name = none ↔ name ∉ d.taken := by
  rw [List.lookup_eq_none_iff]
  simp only [taken, List.mem_map, bne_iff_ne, ne_eq]
  constructor
  · rintro h ⟨e, he, rfl⟩
    exact h e he rfl
  · intro h e he hEq
    exact h ⟨e, he, hEq.symm⟩

theorem taken_put (d : Draft) (a : Addition) : (d.put a).taken = a.name?.toList ++ d.taken := by
  cases a with
  | header name =>
    obtain ⟨_, _, _, h⟩ := addHeader_eq d name
    simp only [put, h]
    rfl
  | support s =>
    obtain ⟨_, _, _, _, h⟩ := addSupport_eq d s
    simp only [put, h]
    rfl
  | text | symbol | forward | helper | function | returned => rfl

theorem taken_putAll (d : Draft) (as : List Addition) :
    (d.putAll as).taken = (Addition.names as).reverse ++ d.taken := by
  induction as generalizing d with
  | nil => rfl
  | cons a as ih =>
    rw [putAll_cons, ih, taken_put, Addition.names, Addition.names, List.filterMap_cons]
    cases a.name? <;> simp

/-- No name of the additions has been given away before, and none is given away twice. -/
def Fresh (d : Draft) (as : List Addition) : Prop :=
  (Addition.names as).Nodup ∧ ∀ name ∈ Addition.names as, name ∉ d.taken

/-- One list of additions after another is fresh if the second is fresh after the first. -/
theorem fresh_append {d : Draft} {as bs : List Addition} :
    d.Fresh (as ++ bs) ↔ d.Fresh as ∧ (d.putAll as).Fresh bs := by
  unfold Fresh
  rw [taken_putAll, Addition.names_append, List.nodup_append]
  simp only [List.mem_append, List.mem_reverse, not_or]
  constructor
  · rintro ⟨⟨hAs, hBs, hApart⟩, hTaken⟩
    refine ⟨⟨hAs, fun name h => hTaken name (Or.inl h)⟩, hBs, fun name h => ⟨?_, hTaken name (Or.inr h)⟩⟩
    intro hEarlier
    exact hApart name hEarlier name h rfl
  · rintro ⟨⟨hAs, hTakenAs⟩, hBs, hTakenBs⟩
    refine ⟨⟨hAs, hBs, ?_⟩, ?_⟩
    · rintro name hName other hOther rfl
      exact (hTakenBs name hOther).1 hName
    · rintro name (h | h)
      · exact hTakenAs name h
      · exact (hTakenBs name h).2

theorem fresh_of_names_nil {d : Draft} {as : List Addition} (h : Addition.names as = []) : d.Fresh as := by
  unfold Fresh
  rw [h]
  simp

-- ---------------------------------------------------------------------------
-- Events
-- ---------------------------------------------------------------------------

theorem addHeader_withEvents (d : Draft) (events : List Event) (header : String) :
    ∃ events', (d.withEvents events).addHeader header = (d.addHeader header).withEvents events' := by
  unfold addHeader
  by_cases h : d.headers.contains header = true
  · rw [if_pos h, if_pos (show (d.withEvents events).headers.contains header = true from h)]
    exact ⟨events, rfl⟩
  · rw [if_neg h, if_neg (show ¬ (d.withEvents events).headers.contains header = true from h)]
    exact ⟨.included header :: events, rfl⟩

theorem addStringRecord_withEvents (d : Draft) (events : List Event) :
    ∃ events', (d.withEvents events).addStringRecord = d.addStringRecord.withEvents events' := by
  unfold addStringRecord
  by_cases h : d.support.contains .string = true
  · rw [if_pos h, if_pos (show (d.withEvents events).support.contains .string = true from h)]
    exact ⟨events, rfl⟩
  · rw [if_neg h, if_neg (show ¬ (d.withEvents events).support.contains .string = true from h)]
    obtain ⟨events', hHeader⟩ := addHeader_withEvents (d.markSupport .string)
      (.materializing Support.string.name :: events) "stdint.h"
    exact ⟨events', congrArg (fun e : Draft => e.addTo .supportDeclarations (stringRecord d.width)) hHeader⟩

theorem addSupport_withEvents (d : Draft) (events : List Event) (s : Support) :
    ∃ events', (d.withEvents events).addSupport s = (d.addSupport s).withEvents events' := by
  cases s with
  | string => exact addStringRecord_withEvents d events
  | stringPrint =>
    unfold addSupport addStringPrinter
    dsimp only
    by_cases h : d.support.contains .stringPrint = true
    · rw [if_pos h, if_pos (show (d.withEvents events).support.contains .stringPrint = true from h)]
      exact ⟨events, rfl⟩
    · rw [if_neg h, if_neg (show ¬ (d.withEvents events).support.contains .stringPrint = true from h)]
      obtain ⟨events', hRecord⟩ := addStringRecord_withEvents (d.markSupport .stringPrint)
        (.materializing Support.stringPrint.name :: events)
      obtain ⟨events'', hHeader⟩ := addHeader_withEvents (d.markSupport .stringPrint).addStringRecord events' "stdio.h"
      rw [← hRecord] at hHeader
      exact ⟨events'', congrArg (fun e : Draft => e.addTo .supportDefinitions (stringPrinter d.width)) hHeader⟩

theorem put_withEvents (d : Draft) (events : List Event) (a : Addition) :
    ∃ events', (d.withEvents events).put a = (d.put a).withEvents events' := by
  cases a with
  | header name => exact addHeader_withEvents d events name
  | support s => exact addSupport_withEvents d events s
  | text | symbol | forward | helper | function | returned => exact ⟨events, rfl⟩

/-- The events that have been noted make no difference to what is added. -/
theorem putAll_withEvents (d : Draft) (events : List Event) (as : List Addition) :
    ∃ events', (d.withEvents events).putAll as = (d.putAll as).withEvents events' := by
  induction as generalizing d events with
  | nil => exact ⟨events, rfl⟩
  | cons a as ih =>
    obtain ⟨events', hPut⟩ := put_withEvents d events a
    rw [putAll_cons, putAll_cons, hPut]
    exact ih (d.put a) events'

-- ---------------------------------------------------------------------------
-- Page and site
-- ---------------------------------------------------------------------------

/-- A draft with another current page and at another site. -/
def relocate (d : Draft) (page : Page) (site : Site) : Draft :=
  { d with page, site }

theorem addHeader_relocate (d : Draft) (page : Page) (site : Site) (header : String) :
    (d.relocate page site).addHeader header = (d.addHeader header).relocate page site := by
  unfold addHeader
  by_cases h : d.headers.contains header = true
  · rw [if_pos h, if_pos (show (d.relocate page site).headers.contains header = true from h)]
  · rw [if_neg h, if_neg (show ¬ (d.relocate page site).headers.contains header = true from h)]
    rfl

theorem addStringRecord_relocate (d : Draft) (page : Page) (site : Site) :
    (d.relocate page site).addStringRecord = d.addStringRecord.relocate page site := by
  unfold addStringRecord
  by_cases h : d.support.contains .string = true
  · rw [if_pos h, if_pos (show (d.relocate page site).support.contains .string = true from h)]
  · rw [if_neg h, if_neg (show ¬ (d.relocate page site).support.contains .string = true from h)]
    have hHeader := addHeader_relocate (d.markSupport .string) page site "stdint.h"
    exact congrArg (fun e : Draft => e.addTo .supportDeclarations (stringRecord d.width)) hHeader

theorem addSupport_relocate (d : Draft) (page : Page) (site : Site) (s : Support) :
    (d.relocate page site).addSupport s = (d.addSupport s).relocate page site := by
  cases s with
  | string => exact addStringRecord_relocate d page site
  | stringPrint =>
    unfold addSupport addStringPrinter
    dsimp only
    by_cases h : d.support.contains .stringPrint = true
    · rw [if_pos h, if_pos (show (d.relocate page site).support.contains .stringPrint = true from h)]
    · rw [if_neg h, if_neg (show ¬ (d.relocate page site).support.contains .stringPrint = true from h)]
      have hRecord := addStringRecord_relocate (d.markSupport .stringPrint) page site
      have hHeader := addHeader_relocate (d.markSupport .stringPrint).addStringRecord page site "stdio.h"
      rw [← hRecord] at hHeader
      exact congrArg (fun e : Draft => e.addTo .supportDefinitions (stringPrinter d.width)) hHeader

theorem write_empty (page : Page) : page.write "" = page := by
  rw [Page.write, String.append_empty]

theorem write_append (page : Page) (s t : String) : page.write (s ++ t) = (page.write s).write t := by
  simp only [Page.write, String.append_assoc]

/-- What concerns the file as a whole does not depend on the current page and the site. -/
theorem put_relocate (d : Draft) (page : Page) (site : Site) {a : Addition} (h : a.isFiled = true) :
    (d.relocate page site).put a = (d.put a).relocate page site := by
  cases a with
  | header name => exact addHeader_relocate d page site name
  | support s => exact addSupport_relocate d page site s
  | symbol | forward | helper | function => rfl
  | text | returned => simp [Addition.isFiled] at h

/-- The site after additions: a return among them is noted in the innermost scope. -/
def siteAfter (site : Site) (as : List Addition) : Site :=
  if .returned ∈ as then site.markReturn else site

theorem markReturn_markReturn (s : Site) : s.markReturn.markReturn = s.markReturn := by
  rcases s with ⟨lineage, _ | ⟨c, cs⟩⟩ <;> rfl

/-- A return that is written in a new scope is noted there. -/
theorem siteAfter_enter (site : Site) (c : Scope) (as : List Addition) :
    siteAfter (site.enter c) as = site.enter { c with hasReturn := c.hasReturn || decide (.returned ∈ as) } := by
  unfold siteAfter
  split
  · rename_i h
    simp [h, Site.markReturn, Site.enter]
  · rename_i h
    simp [h, Site.enter]

theorem siteAfter_cons (site : Site) (a : Addition) (as : List Addition) :
    siteAfter site (a :: as) = siteAfter (siteAfter site [a]) as := by
  by_cases hHead : .returned = a
  · subst hHead
    by_cases hTail : Addition.returned ∈ as <;> simp [siteAfter, hTail, markReturn_markReturn]
  · simp [siteAfter, hHead]

theorem put_relocate_of_not_isFiled (d : Draft) (page : Page) (site : Site) {a : Addition} (h : a.isFiled = false) :
    (d.relocate page site).put a = d.relocate (page.write a.onPage) (siteAfter site [a]) := by
  cases a with
  | text s => rfl
  | returned =>
    rw [show Addition.returned.onPage = "" from rfl, write_empty]
    rfl
  | header | support | symbol | forward | helper | function => simp [Addition.isFiled] at h

/-- Additions fall apart into what goes on the current page, what is noted in the innermost scope, and what concerns the
file as a whole. -/
theorem putAll_relocate (d : Draft) (page : Page) (site : Site) (as : List Addition) :
    (d.relocate page site).putAll as =
      (d.putAll (Addition.filed as)).relocate (page.write (Addition.pageText as)) (siteAfter site as) := by
  induction as generalizing d page site with
  | nil =>
    show d.relocate page site = d.relocate (page.write "") site
    rw [write_empty]
  | cons a as ih =>
    rw [siteAfter_cons, Addition.pageText_cons, write_append, putAll_cons]
    cases h : a.isFiled with
    | true =>
      have hPage : a.onPage = "" := by cases a <;> first | rfl | simp [Addition.isFiled] at h
      have hSite : siteAfter site [a] = site := by
        rw [siteAfter, if_neg]
        simp only [List.mem_singleton]
        rintro rfl
        simp [Addition.isFiled] at h
      rw [put_relocate d page site h, ih, Addition.filed_cons_of_isFiled h, putAll_cons, hPage, hSite, write_empty]
    | false => rw [put_relocate_of_not_isFiled d page site h, ih, Addition.filed_cons_of_not_isFiled h]

/-- What concerns the file as a whole leaves the current page and the site as they are. -/
theorem putAll_filed (d : Draft) (as : List Addition) :
    d.putAll (Addition.filed as) = (d.putAll (Addition.filed as)).relocate d.page d.site := by
  have h := d.putAll_relocate d.page d.site (Addition.filed as)
  rw [Addition.filed_filed, Addition.pageText_filed, write_empty, siteAfter,
    if_neg (Addition.returned_not_mem_filed as)] at h
  exact h

end Draft

end Lowering
