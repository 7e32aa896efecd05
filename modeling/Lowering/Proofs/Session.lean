import Lowering.Proofs.Emit.Serves

/-!
# Sessions

A draft can be worked on step by step from outside: headers, support code, types and names are asked for, types are
registered, scopes are opened and closed, nodes are written. A step may stop with a fault halfway, and the next one goes on
with what it has left behind. Whatever the steps are, the top of the file shows the requests that have been made: the
headers in the order in which they were first asked for, and each piece of support code once, with all that it needs.

* `Step.fulfills_final` — a step adds what it asks for.
* `session_shows_requests` — sessions of any length, from a new draft.
-/

namespace Lowering

open Gen

variable {r : Registry}

-- ---------------------------------------------------------------------------
-- Steps from outside
-- ---------------------------------------------------------------------------

/-- What can be done with a draft from outside. -/
inductive Step where
  /-- Asks for a header. -/
  | header (name : String)
  /-- Asks for support code by its name. -/
  | support (name : String) (span : Span)
  /-- Asks for the C type of a source type. -/
  | cType (name : String) (span : Span)
  /-- Lets a source type stand for a C type, which may need any header and any support code. -/
  | setType (name : String) (type : Target.CType)
  | symbol (name : String) (owner : Span)
  | openScope (c : Scope)
  | closeScope (span : Span)
  | markReturn
  /-- Writes a node on a page. -/
  | node (page : Page) (n : Node)

namespace Step

/-- A step on a draft. Only the request for a header has an answer of interest here: whether it was the first one. -/
def act (r : Registry) : Step → Gen (Option Bool)
  | .header name => some <$> requireHeader name
  | .support name span => do
    needSupportNamed name span
    return none
  | .cType name span => do
    let _ ← Gen.cType name span
    return none
  | .setType name type => do
    let _ ← Gen.setType name type
    return none
  | .symbol name owner => do
    reserveSymbol name owner
    return none
  | .openScope c => do
    Gen.openScope c
    return none
  | .closeScope span => do
    let _ ← Gen.closeScope span
    return none
  | .markReturn => do
    Gen.markReturn
    return none
  | .node page n => do
    onPage (fun _ => page)
    visit r n
    return none

/-- What is asked for on behalf of a C type. Support code that does not exist is not given. -/
def typeWants (type : Target.CType) : Wants :=
  ⟨type.header.toList, []⟩ ++ (type.support.bind Support.ofName?).elim {} Support.wants

/-- What is asked for in a step on the draft `d`. For a node this is what its writing would leave in the draft if nothing had
been asked for before. -/
def wants (r : Registry) (d : Draft) : Step → Wants
  | .header name => ⟨[name], []⟩
  | .support name _ => (Support.ofName? name).elim {} Support.wants
  | .cType name _ => (d.types.find? name).elim {} typeWants
  | .node page n => (visit r n).wanted { d with page }
  | .setType .. | .symbol .. | .openScope _ | .closeScope _ | .markReturn => {}

end Step

/-- The draft after steps, each of which goes on with what the one before has left behind. -/
def Draft.after (r : Registry) (d : Draft) (steps : List Step) : Draft :=
  steps.foldl (fun d s => final (s.act r) d) d

/-- All that is asked for in steps, in their order. -/
def wantsOf (r : Registry) : Draft → List Step → Wants
  | _, [] => {}
  | d, s :: rest => s.wants r d ++ wantsOf r (final (s.act r) d) rest

-- ---------------------------------------------------------------------------
-- One step
-- ---------------------------------------------------------------------------

namespace Gen.Asks

variable {α : Type} {d : Draft} {w : Wants}

/-- A value that is given at the end makes no difference. -/
theorem value {β : Type} {act : Gen α} (h : Asks act d w) (f : α → β) :
    Asks (act >>= fun a => Pure.pure (f a)) d w := by
  cases hRun : act d with
  | error fault d' => exact h.bind_error hRun
  | ok a d' =>
    have hBoth := h.bind (f := fun a => (Pure.pure (f a) : Gen β)) hRun ((Silent.pure (f a)).asks d')
    rwa [Wants.append_nil] at hBoth

theorem fulfills_value {act : Gen α} {asked : Wants} (h : Asks act d w) (hFulfills : d.Fulfills asked) :
    (final (act >>= fun _ => (Pure.pure none : Gen (Option Bool))) d).width = d.width ∧
      (final (act >>= fun _ => (Pure.pure none : Gen (Option Bool))) d).Fulfills (asked ++ w) := by
  have hHere := h.value (fun _ => (none : Option Bool)) d rfl
  exact ⟨hHere.width, hHere.fulfills asked hFulfills⟩

theorem supportNamed (name : String) (span : Span) :
    Asks (needSupportNamed name span) d ((Support.ofName? name).elim {} Support.wants) := by
  unfold needSupportNamed
  cases Support.ofName? name with
  | none => exact (Silent.fail span (.unknownSupport name)).asks d
  | some s => exact .support s

/-- A type that is known: its header and its support code are asked for, and its spelling is given. -/
theorem cType_apply {name : String} {type : Target.CType} (span : Span) (h : d.types.find? name = some type) :
    Gen.cType name span d = (do
      match type.header with
      | some header => needHeader header
      | none => Pure.pure ()
      match type.support with
      | some support => needSupportNamed support span
      | none => Pure.pure ()
      return type.spelling : Gen String) d := by
  show (orFail (d.types.find? name) span (.unknownType name) >>= _) d = _
  rw [h]
  rfl

/-- The header of a type is asked for even if its support code does not exist. -/
theorem cType (name : String) (span : Span) :
    Asks (Gen.cType name span) d ((d.types.find? name).elim {} Step.typeWants) := by
  have hTypes : ∀ e : Draft, e.unstocked = d.unstocked → e.types.find? name = d.types.find? name := fun _ hAlike =>
    (congrArg (fun x : Draft => x.types.find? name) hAlike :)
  cases hFind : d.types.find? name with
  | none =>
    refine ((Silent.fail span (.unknownType name)).asks d).congr fun e hAlike => ?_
    show (orFail (e.types.find? name) span (.unknownType name) >>= _) e = _
    rw [hTypes e hAlike, hFind]
    rfl
  | some type =>
    refine Asks.congr ?_ fun e hAlike => cType_apply span ((hTypes e hAlike).trans hFind)
    rcases type with ⟨spelling, _ | header, _ | support⟩
    · exact (Silent.pure spelling).asks d
    · exact (supportNamed support span).value fun _ => spelling
    · exact (Asks.header header).value fun _ => spelling
    · exact (Asks.header header).bind (f := fun _ => needSupportNamed support span >>= fun _ => Pure.pure spelling) rfl
        ((supportNamed support span).value fun _ => spelling)

end Gen.Asks

namespace Step

/-- A step adds what it asks for to what the draft shows. -/
theorem fulfills_final (hStandard : r.IsStandard) (s : Step) {d : Draft} {asked : Wants} (h : d.Fulfills asked) :
    (final (s.act r) d).width = d.width ∧ (final (s.act r) d).Fulfills (asked ++ s.wants r d) := by
  cases s with
  | header name => exact ⟨Draft.width_addHeader name, h.addHeader name⟩
  | support name span => exact (Asks.supportNamed name span).fulfills_value h
  | cType name span => exact (Asks.cType name span).fulfills_value h
  | setType name type => exact ((Silent.setType name type).asks d).fulfills_value h
  | symbol name owner => exact ((Silent.symbol name owner).asks d).fulfills_value h
  | openScope c => exact ((Silent.openScope c).asks d).fulfills_value h
  | closeScope span => exact ((Silent.closeScope span).asks d).fulfills_value h
  | markReturn => exact (Silent.markReturn.asks d).fulfills_value h
  | node page n =>
    have hNode := (visit_serves hStandard n).asks_wanted { d with page }
    exact (((Silent.onPage fun _ => page).asks d).bind (f := fun _ => visit r n) rfl hNode).fulfills_value h

/-- A request for a header is answered by whether the header is new. -/
theorem act_header (r : Registry) (name : String) (d : Draft) :
    (Step.header name).act r d = .ok (some !d.headers.contains name) (d.addHeader name) :=
  rfl

end Step

-- ---------------------------------------------------------------------------
-- Any number of steps
-- ---------------------------------------------------------------------------

/-- Steps add what is asked for in each of them. -/
theorem fulfills_after (hStandard : r.IsStandard) (steps : List Step) {d : Draft} {asked : Wants} (h : d.Fulfills asked) :
    (d.after r steps).width = d.width ∧ (d.after r steps).Fulfills (asked ++ wantsOf r d steps) := by
  induction steps generalizing d asked with
  | nil => exact ⟨rfl, by rwa [wantsOf, Wants.append_nil]⟩
  | cons s rest ih =>
    obtain ⟨hWidth, hFulfills⟩ := s.fulfills_final hStandard h
    obtain ⟨hWidth', hFulfills'⟩ := ih hFulfills
    rw [wantsOf, ← Wants.append_assoc]
    exact ⟨hWidth'.trans hWidth, hFulfills'⟩

/-- The registries of a draft and the sections at the top of its file agree. -/
structure Draft.Agrees (d : Draft) : Prop where
  distinct : d.headers.Nodup
  includes : d.sections.includes = String.join (d.headers.map includeLine)
  declarations : d.sections.supportDeclarations = if .string ∈ d.support then stringRecord d.width else ""
  definitions : d.sections.supportDefinitions = if .stringPrint ∈ d.support then stringPrinter d.width else ""
  names : ∀ s ∈ d.support, s.name = "nlstring" ∨ s.name = "nlstring_print"
  record : .string ∈ d.support → "stdint.h" ∈ d.headers
  printer : .stringPrint ∈ d.support → .string ∈ d.support ∧ "stdio.h" ∈ d.headers

theorem Draft.Fulfills.agrees {d : Draft} {asked : Wants} (h : d.Fulfills asked) : d.Agrees where
  distinct := h.headers ▸ nodup_eraseDups _
  includes := h.includes
  declarations := by simp only [h.declarations, h.support, List.mem_eraseDups]
  definitions := by simp only [h.definitions, h.support, List.mem_eraseDups]
  names s _ := by cases s <;> simp [Support.name]
  record := by simpa only [h.headers, h.support, List.mem_eraseDups] using h.record
  printer := by simpa only [h.headers, h.support, List.mem_eraseDups] using h.printer

/-- After any steps from a new draft, whether they have succeeded or failed: the registries and the file agree, the headers
are those that were asked for, in the order of their first requests, which is also that of the log, and a request for a
header is answered by whether it is the first one. -/
theorem session_shows_requests (r : Registry) (hStandard : r.IsStandard) (width : Nat) (steps : List Step) :
    let d := (Draft.blank width).after r steps
    let asked := wantsOf r (Draft.blank width) steps
    d.Agrees ∧ d.width = width ∧ d.headers = asked.headers.eraseDups ∧ d.announced = d.headers ∧
      d.support = asked.support.eraseDups ∧
      ∀ name, (Step.header name).act r d = .ok (some (decide (name ∉ asked.headers))) (d.addHeader name) := by
  intro d asked
  obtain ⟨hWidth, hFulfills⟩ : d.width = width ∧ d.Fulfills asked := fulfills_after hStandard steps (Draft.fulfills_blank width)
  refine ⟨hFulfills.agrees, hWidth, hFulfills.headers, hFulfills.log, hFulfills.support, fun name => ?_⟩
  have hMem : name ∈ d.headers ↔ name ∈ asked.headers := by
    rw [hFulfills.headers]
    exact List.mem_eraseDups
  rw [Step.act_header, List.contains_eq_mem, decide_not, decide_eq_decide.mpr hMem]

/-- A type needs support code that does not exist, a scope is closed that is not open, and an operator has an operand that
cannot be written. What was asked for before these faults stays, and is not given again. -/
theorem session_shows_requests_after_faults :
    let steps : List Step :=
      [.setType "odd" ⟨"odd_t", some "odd.h", some "oddity"⟩, .cType "odd" ⟨0, 3⟩, .closeScope ⟨4, 5⟩,
        .node (Page.blank 4) (.binaryOp "add" (.nil ⟨6, 7⟩) (.varargs ⟨8, 9⟩) ⟨6, 9⟩), .support "nlstring" ⟨10, 11⟩]
    let d := (Draft.blank 4).after Registry.standard steps
    Registry.standard.IsStandard ∧ d.headers = ["odd.h", "stddef.h", "stdint.h"] ∧ d.Agrees ∧
      (Step.header "odd.h").act Registry.standard d = .ok (some false) (d.addHeader "odd.h") := by
  intro steps d
  have hStandard : Registry.standard.IsStandard := by
    intro tag h hFind
    cases tag <;> cases hFind <;> rfl
  obtain ⟨hAgrees, -, hHeaders, -, -, hAnswer⟩ := session_shows_requests Registry.standard hStandard 4 steps
  have hAsked : (wantsOf Registry.standard (Draft.blank 4) steps).headers = ["odd.h", "stddef.h", "stdint.h"] := by
    decide
  rw [hAsked] at hHeaders hAnswer
  exact ⟨hStandard, hHeaders, hAgrees, hAnswer "odd.h"⟩

end Lowering
