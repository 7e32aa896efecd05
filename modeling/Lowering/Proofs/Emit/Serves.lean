import Lowering.Proofs.Draft.Requests
import Lowering.Proofs.Frame

/-!
# What steps ask for

A step on a draft may ask for headers and support code, up to its end or its fault. Whatever else it does, it leaves the top
of the file alone, and what it asks for does not depend on what was asked for before. It can therefore be told from what the
step leaves in a draft to which nothing has been added yet.

* `Draft.Fulfills` — the draft and its log show what was asked for.
* `Gen.Asks`, `Gen.Serves` — what is asked for in a step.
* `Gen.Serves.asks_wanted` — this is what the step leaves in a draft in which nothing was asked for before.
* `visit_serves` — the writing of a node.
-/

namespace Lowering

open Gen

-- ---------------------------------------------------------------------------
-- Requests
-- ---------------------------------------------------------------------------

/-- Headers and support code that are asked for, in the order of the requests. -/
structure Wants where
  headers : List String := []
  support : List Support := []

namespace Wants

/-- Requests after other requests. -/
def append (w v : Wants) : Wants :=
  ⟨w.headers ++ v.headers, w.support ++ v.support⟩

instance : Append Wants :=
  ⟨append⟩

theorem append_assoc (u v w : Wants) : u ++ v ++ w = u ++ (v ++ w) := by
  show Wants.mk (u.headers ++ v.headers ++ w.headers) (u.support ++ v.support ++ w.support) = _
  rw [List.append_assoc, List.append_assoc]
  rfl

theorem append_nil (w : Wants) : w ++ ({} : Wants) = w := by
  show Wants.mk _ _ = w
  rw [List.append_nil, List.append_nil]

/-- The requests without repetitions. -/
def distinct (w : Wants) : Wants :=
  ⟨w.headers.eraseDups, w.support.eraseDups⟩

end Wants

/-- What is asked for on behalf of a piece of support code. -/
def Support.wants (s : Support) : Wants :=
  ⟨s.headers, s.closure⟩

-- ---------------------------------------------------------------------------
-- Drafts
-- ---------------------------------------------------------------------------

namespace Draft

/-- The headers that have been included, in the order in which the log has them. -/
def announced (d : Draft) : List String :=
  d.events.reverse.filterMap Event.included?

theorem announced_note (d : Draft) (e : Event) : (d.note e).announced = d.announced ++ e.included?.toList := by
  cases h : e.included? <;> simp [announced, note, h]

/-- After the requests `w`, the draft has what was asked for, the sections at the top of the file show it, and the log has
the headers in their order. -/
structure Fulfills (d : Draft) (w : Wants) : Prop extends Stocked d w.headers w.support where
  log : d.announced = d.headers

theorem fulfills_blank (width : Nat) : (Draft.blank width).Fulfills {} :=
  ⟨stocked_blank width, rfl⟩

/-- The draft as if nothing had been asked for: without headers and support code, in the file and in the log, too. -/
def unstocked (d : Draft) : Draft :=
  { d with
    headers := [], support := [], events := []
    sections := { d.sections with includes := "", supportDeclarations := "", supportDefinitions := "" } }

theorem fulfills_unstocked (d : Draft) : d.unstocked.Fulfills {} :=
  ⟨⟨⟨rfl, rfl, rfl, rfl, by simp⟩, rfl, by simp⟩, rfl⟩

/-- The second draft has the same headers and the same support code as the first, in the registries, in the file and in the
log. -/
structure SameStock (d e : Draft) : Prop where
  width : e.width = d.width
  headers : e.headers = d.headers
  support : e.support = d.support
  includes : e.sections.includes = d.sections.includes
  declarations : e.sections.supportDeclarations = d.sections.supportDeclarations
  definitions : e.sections.supportDefinitions = d.sections.supportDefinitions
  announced : e.announced = d.announced

theorem SameStock.refl (d : Draft) : d.SameStock d :=
  ⟨rfl, rfl, rfl, rfl, rfl, rfl, rfl⟩

theorem sameStock_note (d : Draft) {e : Event} (h : e.included? = none) : d.SameStock (d.note e) :=
  { SameStock.refl d with announced := by rw [announced_note, h, Option.toList_none, List.append_nil] }

variable {d e : Draft} {w : Wants}

theorem Fulfills.of_sameStock (h : d.Fulfills w) (hSame : d.SameStock e) : e.Fulfills w where
  headers := hSame.headers.trans h.headers
  support := hSame.support.trans h.support
  includes := by rw [hSame.includes, hSame.headers, h.includes]
  declarations := by rw [hSame.declarations, hSame.width, h.declarations]
  record := h.record
  definitions := by rw [hSame.definitions, hSame.width, h.definitions]
  printer := h.printer
  log := by rw [hSame.announced, hSame.headers, h.log]

theorem Fulfills.distinct {v : Wants} (h : d.Fulfills (w ++ v)) : d.Fulfills (w ++ v.distinct) where
  toStocked := h.toStocked.congr (eraseDups_append_eraseDups w.headers v.headers)
    (eraseDups_append_eraseDups w.support v.support)
  log := h.log

-- Headers and support code are in the log when they are new, and only then.

theorem announced_addHeader (h : d.announced = d.headers) (header : String) :
    (d.addHeader header).announced = (d.addHeader header).headers := by
  unfold addHeader
  split
  · exact h
  · have hNoted := announced_note { d with headers := d.headers ++ [header] } (.included header)
    exact hNoted.trans (congrArg (· ++ [header]) h)

theorem announced_markSupport (d : Draft) (s : Support) : (d.markSupport s).announced = d.announced :=
  (announced_note { d with support := d.support ++ [s] } (.materializing s.name)).trans (List.append_nil _)

theorem announced_addStringRecord (h : d.announced = d.headers) :
    d.addStringRecord.announced = d.addStringRecord.headers := by
  unfold addStringRecord
  split
  · exact h
  · exact announced_addHeader (d := d.markSupport .string) ((d.announced_markSupport .string).trans h) "stdint.h"

theorem announced_addSupport (h : d.announced = d.headers) (s : Support) :
    (d.addSupport s).announced = (d.addSupport s).headers := by
  cases s with
  | string => exact announced_addStringRecord h
  | stringPrint =>
    show d.addStringPrinter.announced = d.addStringPrinter.headers
    unfold addStringPrinter
    split
    · exact h
    · exact announced_addHeader (announced_addStringRecord ((d.announced_markSupport .stringPrint).trans h)) "stdio.h"

theorem Fulfills.addHeader (h : d.Fulfills w) (header : String) : (d.addHeader header).Fulfills (w ++ ⟨[header], []⟩) where
  toStocked := h.toStocked.put (.header header)
  log := announced_addHeader h.log header

theorem Fulfills.addSupport (h : d.Fulfills w) (s : Support) : (d.addSupport s).Fulfills (w ++ s.wants) where
  toStocked := h.toStocked.put (.support s)
  log := announced_addSupport h.log s

-- What requests leave alone.

theorem unstocked_addHeader (d : Draft) (header : String) : (d.addHeader header).unstocked = d.unstocked := by
  unfold addHeader
  split <;> rfl

theorem unstocked_addStringRecord (d : Draft) : d.addStringRecord.unstocked = d.unstocked := by
  unfold addStringRecord
  split
  · rfl
  · exact unstocked_addHeader (d.markSupport .string) "stdint.h"

theorem unstocked_addSupport (d : Draft) (s : Support) : (d.addSupport s).unstocked = d.unstocked := by
  cases s with
  | string => exact unstocked_addStringRecord d
  | stringPrint =>
    show d.addStringPrinter.unstocked = d.unstocked
    unfold addStringPrinter
    split
    · rfl
    · exact (unstocked_addHeader (d.markSupport .stringPrint).addStringRecord "stdio.h").trans
        (unstocked_addStringRecord (d.markSupport .stringPrint))

end Draft

-- ---------------------------------------------------------------------------
-- Steps
-- ---------------------------------------------------------------------------

namespace Gen

variable {α β : Type} {act : Gen α} {f : α → Gen β} {d d' e : Draft} {w v : Wants}

/-- The draft at the end of a step, or at its fault. -/
def final (act : Gen α) (d : Draft) : Draft :=
  match act d with
  | .ok _ e => e
  | .error _ e => e

/-- How a step ends, apart from what was asked for. -/
def outcome (act : Gen α) (d : Draft) : EStateM.Result Fault Draft α :=
  match act d with
  | .ok a e => .ok a e.unstocked
  | .error fault e => .error fault e.unstocked

theorem ok_of_outcome_eq {a : α} (h : outcome act e = outcome act d) (hRun : act d = .ok a d') :
    ∃ e', act e = .ok a e' ∧ e'.unstocked = d'.unstocked := by
  unfold outcome at h
  rw [hRun] at h
  cases hAct : act e with
  | ok b e' =>
    rw [hAct] at h
    injection h with hValue hDraft
    exact ⟨e', by rw [hValue], hDraft⟩
  | error fault e' =>
    rw [hAct] at h
    cases h

theorem error_of_outcome_eq {fault : Fault} (h : outcome act e = outcome act d) (hRun : act d = .error fault d') :
    ∃ e', act e = .error fault e' ∧ e'.unstocked = d'.unstocked := by
  unfold outcome at h
  rw [hRun] at h
  cases hAct : act e with
  | ok b e' =>
    rw [hAct] at h
    cases h
  | error fault' e' =>
    rw [hAct] at h
    injection h with hFault hDraft
    exact ⟨e', by rw [hFault], hDraft⟩

theorem unstocked_final_eq (h : outcome act e = outcome act d) : (final act e).unstocked = (final act d).unstocked := by
  cases hRun : act d with
  | ok a d' =>
    obtain ⟨e', hRun', hDraft⟩ := ok_of_outcome_eq h hRun
    rw [final, hRun', final, hRun]
    exact hDraft
  | error fault d' =>
    obtain ⟨e', hRun', hDraft⟩ := error_of_outcome_eq h hRun
    rw [final, hRun', final, hRun]
    exact hDraft

/-- The step has the same outcome in the two drafts, and in the second one asks for `w`. -/
structure AsksIn (act : Gen α) (d : Draft) (w : Wants) (e : Draft) : Prop where
  outcome : outcome act e = outcome act d
  width : (final act e).width = e.width
  fulfills : ∀ asked, e.Fulfills asked → (final act e).Fulfills (asked ++ w)

/-- From the draft `d` the step asks for `w`, and the top of the file changes by that only. It would do the same if other
things had been asked for before. -/
def Asks (act : Gen α) (d : Draft) (w : Wants) : Prop :=
  ∀ e : Draft, e.unstocked = d.unstocked → AsksIn act d w e

/-- From any draft the step asks for something, and does nothing else at the top of the file. -/
def Serves (act : Gen α) : Prop :=
  ∀ d, ∃ w, Asks act d w

/-- After a step that asks for something, what the next one asks for. -/
theorem Asks.bind {a : α} (h : Asks act d w) (hRun : act d = .ok a d') (h' : Asks (f a) d' v) :
    Asks (act >>= f) d (w ++ v) := by
  intro e hAlike
  have hFirst := h e hAlike
  obtain ⟨e', hRun', hAlike'⟩ := ok_of_outcome_eq hFirst.outcome hRun
  have hSecond := h' e' hAlike'
  have hMiddle : final act e = e' := by rw [final, hRun']
  have hEnd : final (act >>= f) e = final (f a) e' := by rw [final, final, bind_apply, hRun']
  refine ⟨?_, ?_, fun asked hFulfills => ?_⟩
  · have hOutcome := hSecond.outcome
    unfold Gen.outcome at hOutcome ⊢
    rw [bind_apply, hRun', bind_apply, hRun]
    exact hOutcome
  · rw [hEnd, hSecond.width, ← hMiddle, hFirst.width]
  · rw [hEnd, ← Wants.append_assoc]
    exact hSecond.fulfills _ (hMiddle ▸ hFirst.fulfills asked hFulfills)

theorem Asks.bind_error {fault : Fault} (h : Asks act d w) (hRun : act d = .error fault d') : Asks (act >>= f) d w := by
  intro e hAlike
  have hFirst := h e hAlike
  obtain ⟨e', hRun', hAlike'⟩ := error_of_outcome_eq hFirst.outcome hRun
  have hEnd : final (act >>= f) e = final act e := by rw [final, final, bind_apply, hRun']
  refine ⟨?_, ?_, ?_⟩
  · unfold Gen.outcome
    rw [bind_apply, hRun', bind_apply, hRun]
    exact congrArg (EStateM.Result.error fault) hAlike'
  · rw [hEnd, hFirst.width]
  · rw [hEnd]
    exact hFirst.fulfills

/-- Only what a step does in such drafts matters. -/
theorem Asks.congr {act' : Gen α} (h : Asks act d w) (hEq : ∀ e : Draft, e.unstocked = d.unstocked → act' e = act e) :
    Asks act' d w := by
  intro e hAlike
  obtain ⟨hOutcome, hWidth, hFulfills⟩ := h e hAlike
  have hFinal : final act' e = final act e := by rw [final, final, hEq e hAlike]
  refine ⟨?_, by rw [hFinal, hWidth], by rwa [hFinal]⟩
  unfold Gen.outcome at hOutcome ⊢
  rwa [hEq e hAlike, hEq d rfl]

/-- The step leaves headers and support code alone, and what it does is independent of them. -/
structure Silent (act : Gen α) : Prop where
  stock : ∀ d : Draft, d.SameStock (final act d)
  outcome : ∀ d e : Draft, e.unstocked = d.unstocked → outcome act e = outcome act d

namespace Silent

/-- A change of the draft, which leads to `g` of the rest of it. -/
theorem change {f : Draft → Draft} (g : Draft → Draft) (h : ∀ d : Draft, d.SameStock (f d))
    (hRest : ∀ d : Draft, (f d).unstocked = g d.unstocked) : Silent (modify f) where
  stock := h
  outcome d e hAlike := by
    show EStateM.Result.ok () (f e).unstocked = .ok () (f d).unstocked
    rw [hRest, hRest, hAlike]

theorem pure (a : α) : Silent (Pure.pure a) where
  stock := Draft.SameStock.refl
  outcome _ _ hAlike := congrArg (EStateM.Result.ok a) hAlike

theorem fail (span : Span) (cause : Cause) : Silent (Gen.fail span cause : Gen α) where
  stock := Draft.SameStock.refl
  outcome _ _ hAlike := (congrArg (EStateM.Result.error (⟨span, cause⟩ : Fault)) hAlike :)

theorem onPage (f : Page → Page) : Silent (Gen.onPage f) :=
  change (fun d => { d with page := f d.page }) (fun d => { Draft.SameStock.refl d with }) (fun _ => rfl)

theorem note {e : Event} (h : e.included? = none) : Silent (Gen.note e) :=
  change id (fun d => d.sameStock_note h) (fun _ => rfl)

theorem forward (line : String) : Silent (addTo .forwardDeclarations line) :=
  change (·.addTo .forwardDeclarations line) (fun d => { Draft.SameStock.refl d with }) (fun _ => rfl)

theorem definition (text : String) : Silent (addDefinition text) :=
  change (·.addDefinition text) (fun d => { Draft.SameStock.refl d with }) (fun _ => rfl)

theorem openScope (c : Scope) : Silent (Gen.openScope c) :=
  change (fun d => { d with site := d.site.enter c }) (fun d => { Draft.SameStock.refl d with }) (fun _ => rfl)

theorem descend (tag : Tag) : Silent (modify fun d => { d with site := d.site.descend tag }) :=
  change (fun d => { d with site := d.site.descend tag }) (fun d => { Draft.SameStock.refl d with }) (fun _ => rfl)

theorem ascend : Silent (modify fun d => { d with site := d.site.ascend }) :=
  change (fun d => { d with site := d.site.ascend }) (fun d => { Draft.SameStock.refl d with }) (fun _ => rfl)

theorem markReturn : Silent Gen.markReturn :=
  change (fun d => { d with site := d.site.markReturn }) (fun d => { Draft.SameStock.refl d with }) (fun _ => rfl)

theorem symbol (name : String) (owner : Span) : Silent (reserveSymbol name owner) where
  stock d := by
    rw [final, reserveSymbol_apply]
    cases d.symbols.lookup name with
    | some first => exact Draft.SameStock.refl d
    | none => exact { Draft.SameStock.refl d with }
  outcome d e hAlike := by
    have hSymbols : e.symbols = d.symbols := (congrArg Draft.symbols hAlike :)
    unfold Gen.outcome
    rw [reserveSymbol_apply, reserveSymbol_apply, hSymbols]
    cases d.symbols.lookup name with
    | some first => exact congrArg (EStateM.Result.error _) hAlike
    | none => exact congrArg (fun x : Draft => EStateM.Result.ok () { x with symbols := (name, owner) :: d.symbols }) hAlike

theorem setType (name : String) (type : Target.CType) : Silent (Gen.setType name type) where
  stock d := { Draft.SameStock.refl d with }
  outcome _ _ hAlike := (congrArg (fun x : Draft => (EStateM.Result.ok (x.types.find? name)
    { x with types := x.types.insert name type } : EStateM.Result Fault Draft _)) hAlike :)

theorem closeScope_eq (span : Span) (d : Draft) :
    Gen.closeScope span d =
      match d.site.scope? with
      | none => .error ⟨span, .unpairedScope⟩ d
      | some c => .ok c { d with site := d.site.leave } := by
  rcases d with ⟨_, _, _, _, _, _, ⟨lineage, _ | ⟨c, cs⟩⟩, _, _⟩ <;> rfl

theorem closeScope (span : Span) : Silent (Gen.closeScope span) where
  stock d := by
    rw [final, closeScope_eq]
    cases d.site.scope? with
    | none => exact Draft.SameStock.refl d
    | some c => exact { Draft.SameStock.refl d with }
  outcome d e hAlike := by
    have hSite : e.site = d.site := (congrArg Draft.site hAlike :)
    unfold Gen.outcome
    rw [closeScope_eq, closeScope_eq, hSite]
    cases d.site.scope? with
    | none => exact congrArg (EStateM.Result.error _) hAlike
    | some c => exact congrArg (fun x : Draft => EStateM.Result.ok c { x with site := d.site.leave }) hAlike

theorem asks (h : Silent act) (d : Draft) : Asks act d {} := by
  intro e hAlike
  refine ⟨h.outcome d e hAlike, (h.stock e).width, fun asked hFulfills => ?_⟩
  rw [Wants.append_nil]
  exact hFulfills.of_sameStock (h.stock e)

theorem serves (h : Silent act) : Serves act :=
  fun d => ⟨{}, h.asks d⟩

end Silent

theorem Asks.header (name : String) : Asks (needHeader name) d ⟨[name], []⟩ := by
  refine fun e hAlike => ⟨?_, Draft.width_addHeader name, fun _ hFulfills => hFulfills.addHeader name⟩
  show EStateM.Result.ok () (e.addHeader name).unstocked = .ok () (d.addHeader name).unstocked
  rw [Draft.unstocked_addHeader, Draft.unstocked_addHeader, hAlike]

theorem width_addSupport (d : Draft) (s : Support) : (d.addSupport s).width = d.width :=
  (congrArg Draft.width (d.unstocked_addSupport s) :)

theorem Asks.support (s : Support) : Asks (needSupport s) d s.wants := by
  refine fun e hAlike => ⟨?_, width_addSupport e s, fun _ hFulfills => hFulfills.addSupport s⟩
  show EStateM.Result.ok () (e.addSupport s).unstocked = .ok () (d.addSupport s).unstocked
  rw [Draft.unstocked_addSupport, Draft.unstocked_addSupport, hAlike]

/-- What a step would leave in the draft if nothing had been asked for before. -/
def wanted (act : Gen α) (d : Draft) : Wants :=
  ⟨(final act d.unstocked).headers, (final act d.unstocked).support⟩

theorem Serves.asks_wanted (h : Serves act) (d : Draft) : Asks act d (act.wanted d) := by
  obtain ⟨w, hAsks⟩ := h d
  have hAlone := (hAsks d.unstocked rfl).fulfills {} d.fulfills_unstocked
  have hWanted : act.wanted d = w.distinct := by
    rw [wanted, hAlone.headers, hAlone.support]
    rfl
  intro e hAlike
  obtain ⟨hOutcome, hWidth, hFulfills⟩ := hAsks e hAlike
  rw [hWanted]
  exact ⟨hOutcome, hWidth, fun asked hAsked => (hFulfills asked hAsked).distinct⟩

namespace Serves

theorem bind (h : Serves act) (h' : ∀ a, Serves (f a)) : Serves (act >>= f) := by
  intro d
  obtain ⟨w, hAct⟩ := h d
  cases hRun : act d with
  | error fault d' => exact ⟨w, hAct.bind_error hRun⟩
  | ok a d' =>
    obtain ⟨v, hRest⟩ := h' a d'
    exact ⟨w ++ v, hAct.bind hRun hRest⟩

theorem onPage (f : Page → Page) : Serves (Gen.onPage f) :=
  (Silent.onPage f).serves

/-- A step that depends on what is seen of the draft. -/
theorem look {f : Draft.View → Gen α} (h : ∀ v, Serves (f v)) : Serves (get >>= fun d => f d.view) := by
  intro d
  obtain ⟨w, hAsks⟩ := h d.view d
  refine ⟨w, hAsks.congr fun e hAlike => ?_⟩
  have hView : e.view = d.view := (congrArg Draft.view hAlike :)
  rw [← hView]
  rfl

theorem refuseIf {c : Prop} [Decidable c] (span : Span) (cause : Cause) {rest : Gen α} (h : Serves rest) :
    Serves (if c then Gen.fail span cause >>= fun _ : Unit => rest else rest) := by
  split
  · exact (Silent.fail span cause).serves.bind fun _ => h
  · exact h

/-- How two steps end of which the second is made in any case. -/
def joined : EStateM.Result Fault Draft α → EStateM.Result Fault Draft β → EStateM.Result Fault Draft α
  | .ok a _, .ok _ e => .ok a e
  | .error fault _, .ok _ e => .error fault e
  | _, .error fault e => .error fault e

theorem andFinally {last : Gen β} (h : Serves act) (h' : Serves last) : Serves (Gen.andFinally act last) := by
  have hFinal : ∀ e, final (Gen.andFinally act last) e = final last (final act e) := by
    intro e
    unfold final Gen.andFinally
    cases act e with
    | ok a e' => cases hLast : last e' <;> simp only [hLast]
    | error fault e' => cases hLast : last e' <;> simp only [hLast]
  have hOutcome : ∀ e, Gen.outcome (Gen.andFinally act last) e =
      joined (Gen.outcome act e) (Gen.outcome last (final act e)) := by
    intro e
    unfold Gen.outcome final Gen.andFinally
    cases act e with
    | ok a e' => cases hLast : last e' <;> simp only [hLast, joined]
    | error fault e' => cases hLast : last e' <;> simp only [hLast, joined]
  intro d
  obtain ⟨w, hAct⟩ := h d
  obtain ⟨v, hLast⟩ := h' (final act d)
  refine ⟨w ++ v, fun e hAlike => ?_⟩
  have hFirst := hAct e hAlike
  have hSecond := hLast (final act e) (unstocked_final_eq hFirst.outcome)
  refine ⟨?_, ?_, fun asked hFulfills => ?_⟩
  · rw [hOutcome, hOutcome, hFirst.outcome, hSecond.outcome]
  · rw [hFinal, hSecond.width, hFirst.width]
  · rw [hFinal, ← Wants.append_assoc]
    exact hSecond.fulfills _ (hFirst.fulfills asked hFulfills)

/-- A step between two changes of the draft that concern neither headers nor support code. -/
theorem between {before after : Draft → Draft} (h : Serves act) (hBefore : Silent (modify before : Gen Unit))
    (hAfter : Silent (modify after : Gen Unit)) : Serves (Gen.between before after act) := by
  intro d
  obtain ⟨w, hAsks⟩ := (hBefore.serves.bind fun _ => h.andFinally hAfter.serves) d
  refine ⟨w, hAsks.congr fun e _ => ?_⟩
  have hRun : (modify before >>= fun _ => Gen.andFinally act (modify after)) e =
      Gen.andFinally act (modify after) (before e) := rfl
  rw [hRun, Gen.between, Gen.andFinally]
  cases act (before e) <;> rfl

/-- A step on a page of its own, between two changes of the page. -/
theorem onOwnPage {act : Gen Unit} (h : Serves act) : Serves (Gen.onOwnPage act) := by
  intro d
  have hBefore : Silent (modify fun d => { d with page := Page.blank d.width }) :=
    .change (fun d => { d with page := Page.blank d.width }) (fun d => { Draft.SameStock.refl d with }) (fun _ => rfl)
  have hPage : Silent (get >>= fun d => Pure.pure d.page : Gen Page) :=
    ⟨Draft.SameStock.refl, fun _ _ hAlike => (congrArg (fun x : Draft => EStateM.Result.ok x.page x) hAlike :)⟩
  obtain ⟨w, hAsks⟩ := ((h.bind fun _ => hPage.serves).between hBefore (.onPage fun _ => d.page)) d
  refine ⟨w, hAsks.congr fun e hAlike => ?_⟩
  have hSame : e.page = d.page := (congrArg Draft.page hAlike :)
  rw [Gen.onOwnPage, Gen.between, bind_apply, ← hSame]
  cases act { e with page := Page.blank e.width } <;> rfl

end Serves

end Gen

-- ---------------------------------------------------------------------------
-- Nodes
-- ---------------------------------------------------------------------------

variable {r : Registry}

/-- Steps that are made of elementary steps and of nodes make the requests that these make. -/
theorem Walks.serves {α : Type} {ns : List Node} {act : Gen α} (h : Walks r ns act)
    (hNodes : ∀ n ∈ ns, Serves (visit r n)) : Serves act := by
  induction h with
  | pure a => exact (Silent.pure a).serves
  | look h ih => exact .look fun v => ih v hNodes
  | fail span _ => exact (Silent.fail span _).serves
  | page _ => exact .onPage _
  | note _ hIncluded => exact (Silent.note hIncluded).serves
  | header name => exact fun _ => ⟨_, .header name⟩
  | support s => exact fun _ => ⟨_, .support s⟩
  | symbol name owner => exact (Silent.symbol name owner).serves
  | forward line => exact (Silent.forward line).serves
  | definition text => exact (Silent.definition text).serves
  | markReturn => exact Silent.markReturn.serves
  | node n => exact hNodes n (List.mem_singleton_self n)
  | bind h h' ih ih' =>
    obtain ⟨hFirst, hSecond⟩ := List.forall_mem_append.mp hNodes
    exact (ih hFirst).bind fun a => ih' a hSecond
  | indented h ih => exact (ih hNodes).between (.onPage Page.indent) (.onPage Page.dedent)
  | pushed h h' ih ih' =>
    obtain ⟨hFirst, hSecond⟩ := List.forall_mem_append.mp hNodes
    exact (Serves.onPage _).bind fun _ => (ih hFirst).bind fun _ => (Serves.onPage _).bind fun _ => ih' hSecond
  | weaken h hSublist ih => exact ih fun n hn => hNodes n (hSublist.subset hn)

theorem Walks.serves_of_nil {α : Type} {act : Gen α} (h : Walks r [] act) : Serves act :=
  h.serves (by simp)

theorem block_serves {statements : List Node} {span : Span} (h : ∀ s ∈ statements, Serves (visit r s)) :
    Serves (Block.emit (statements.map r.part) span) := by
  have hBlock : ∀ c : Scope, Serves (Block.scopedBlock c (statements.map r.part) span) := fun c =>
    (Silent.openScope c).serves.bind fun _ => ((Walks.statements statements).serves h).bind fun _ =>
      (Walks.endMain (r := r)).serves_of_nil.bind fun _ => (Silent.closeScope span).serves.bind fun _ => (Silent.pure ()).serves
  refine (Walks.site (r := r)).serves_of_nil.bind fun s => ?_
  split
  · exact (Serves.onPage _).bind fun _ => (Serves.onPage _).bind fun _ => (hBlock .top).bind fun _ =>
      (Serves.onPage _).bind fun _ => .onPage _
  · exact hBlock .nested

theorem function_serves {visibility : Visibility} {name : String} {params : List TypedName} {returns : List String}
    {body : Node} {span : Span} (h : Serves (visit r body)) :
    Serves (FunctionDef.emit visibility name params returns (r.part body) span) := by
  refine Serves.refuseIf span _ ((Walks.site (r := r)).serves_of_nil.bind fun s => Serves.refuseIf span _ ?_)
  refine (Walks.returnType (r := r) returns span).serves_of_nil.bind fun result => ?_
  have hParams : Walks r [] (params.mapM (FunctionDef.param span)) := Walks.mapM fun q _ => Walks.param span q
  refine hParams.serves_of_nil.bind fun spelled => (Silent.note rfl).serves.bind fun _ => ?_
  refine (Walks.forward (r := r) _).serves_of_nil.bind fun _ => ?_
  refine (Serves.onOwnPage ?_).bind fun page => (Walks.definition (r := r) page.text).serves_of_nil
  have hBody : Serves (Gen.inScope .function span (r.part body).emit) :=
    (Silent.openScope .function).serves.bind fun _ => h.andFinally (Silent.closeScope span).serves
  exact (Serves.onPage _).bind fun _ => (Serves.onPage _).bind fun _ => hBody.bind fun _ =>
    (Serves.onPage _).bind fun _ => .onPage _

theorem dispatch_serves (hStandard : r.IsStandard) {n : Node} {own : Gen Unit} (h : Serves own) :
    Serves (dispatch r n own) := by
  unfold dispatch
  split
  · exact (Silent.fail n.span _).serves
  · rename_i handler hFind
    have hNote : Silent (noteDispatch n) := .change id (fun d => d.sameStock_note rfl) (fun _ => rfl)
    refine hNote.serves.bind fun _ => Serves.between ?_ (.descend n.tag) .ascend
    cases handler with
    | rule act => exact absurd (hStandard _ _ hFind) (by simp [Handler.isStandard])
    | standard tag =>
      unfold Handler.run
      dsimp only
      split
      · exact h
      · exact (Walks.mismatch (r := r) tag n).serves_of_nil

/-- The writing of a node makes requests, up to its end or its fault, and leaves the top of the file alone otherwise. -/
theorem visit_serves (hStandard : r.IsStandard) (n : Node) : Serves (visit r n) := by
  induction n using Node.childInduction with
  | step n ih =>
    obtain ⟨own, hVisit, hWay⟩ := n.exists_way r
    rw [hVisit]
    refine dispatch_serves hStandard ?_
    cases hWay with
    | plain _ h => exact h.serves ih
    | block statements span => exact block_serves ih
    | function visibility name params returns body span => exact function_serves (ih body (by simp [Node.children]))

end Lowering
