import Lowering.Proofs.Draft.Addition

/-!
# Steps and their additions

`Gen.Adds act p ok as a` describes a step completely as far as success goes: at the place `p` the step succeeds exactly
if `ok` holds and the names in `as` are fresh; it then makes the additions `as` and gives `a`. What it does when it
fails, beyond failing, is left open.

The description of a step put together from others is put together from their descriptions. `Adds.bind` does this for
one step after another; the other lemmas are about steps that change the page or the site for a while.
-/

namespace Lowering

/-- The draft is being written at the place, with the types that every program starts with. -/
structure Draft.At (d : Draft) (p : Place) : Prop where
  types : d.types = Target.primitiveTypes
  place : d.place = p

theorem Draft.At.putAll {d : Draft} {p : Place} (h : d.At p) (as : List Addition) (events : List Event) :
    ((d.putAll as).withEvents events).At p where
  types := (d.types_putAll as).trans h.types
  place := (d.place_putAll as).trans h.place

namespace Gen

/-- At the place `p` the step succeeds exactly if `ok` holds and the names in `as` are fresh, and it then makes the
additions `as` and gives `a`. -/
structure Adds {α : Type} (act : Gen α) (p : Place) (ok : Prop) (as : List Addition) (a : α) : Prop where
  done : ∀ d : Draft, d.At p → ok → d.Fresh as → ∃ events, act d = .ok a ((d.putAll as).withEvents events)
  refused : ∀ d : Draft, d.At p → ¬ (ok ∧ d.Fresh as) → ∃ fault e, act d = .error fault e

variable {α β : Type} {p : Place} {ok ok' : Prop} {as bs : List Addition} {a : α} {b : β}

-- ---------------------------------------------------------------------------
-- Putting descriptions together
-- ---------------------------------------------------------------------------

/-- A description may be given in other words. -/
theorem Adds.congr {act : Gen α} (h : Adds act p ok as a) (hOk : ok' ↔ ok) (hAs : ok → bs = as) :
    Adds act p ok' bs a where
  done d hAt hOk' hFresh := by
    have hEq := hAs (hOk.mp hOk')
    rw [hEq] at hFresh ⊢
    exact h.done d hAt (hOk.mp hOk') hFresh
  refused d hAt hNot := by
    refine h.refused d hAt ?_
    rintro ⟨hHolds, hFresh⟩
    rw [← hAs hHolds] at hFresh
    exact hNot ⟨hOk.mpr hHolds, hFresh⟩

/-- A step that succeeds as another one does and fails where it fails. -/
theorem Adds.of_agrees {act act' : Gen α} (h : Adds act' p ok as a)
    (hOk : ∀ (d : Draft) (b : α) (e : Draft), d.At p → act' d = .ok b e → act d = .ok b e)
    (hError : ∀ (d : Draft) (fault : Fault) (e : Draft), d.At p → act' d = .error fault e →
      ∃ fault' e', act d = .error fault' e') :
    Adds act p ok as a where
  done d hAt hHolds hFresh := by
    obtain ⟨events, hRun⟩ := h.done d hAt hHolds hFresh
    exact ⟨events, hOk d _ _ hAt hRun⟩
  refused d hAt hNot := by
    obtain ⟨fault, e, hRun⟩ := h.refused d hAt hNot
    exact hError d fault e hAt hRun

/-- Only what a step does at the place matters. -/
theorem Adds.of_run_eq {act act' : Gen α} (h : Adds act' p ok as a) (hRun : ∀ d : Draft, d.At p → act d = act' d) :
    Adds act p ok as a :=
  h.of_agrees (fun d _ _ hAt hEq => (hRun d hAt).trans hEq) (fun d _ _ hAt hEq => ⟨_, _, (hRun d hAt).trans hEq⟩)

/-- A step that always succeeds and gives no names away. -/
theorem Adds.of_done {act : Gen α} (hNames : Addition.names as = [])
    (h : ∀ d : Draft, d.At p → ∃ events, act d = .ok a ((d.putAll as).withEvents events)) : Adds act p True as a where
  done d hAt _ _ := h d hAt
  refused _ _ hNot := absurd ⟨trivial, Draft.fresh_of_names_nil hNames⟩ hNot

theorem Adds.of_refused {act : Gen α} (h : ∀ d : Draft, d.At p → ∃ fault e, act d = .error fault e) :
    Adds act p False as a where
  done _ _ hFalse := hFalse.elim
  refused d hAt _ := h d hAt

theorem Adds.pure (a : α) : Adds (Pure.pure a) p True [] a :=
  .of_done rfl (fun d _ => ⟨d.events, rfl⟩)

theorem Adds.fail (span : Span) (cause : Cause) (a : α) (as : List Addition) : Adds (fail span cause) p False as a :=
  .of_refused (fun d _ => ⟨_, d, rfl⟩)

theorem bind_apply (act : Gen α) (f : α → Gen β) (d : Draft) :
    (act >>= f) d =
      match act d with
      | .ok a e => f a e
      | .error fault e => .error fault e := by
  show EStateM.bind act f d = _
  unfold EStateM.bind
  cases act d <;> rfl

/-- One step after another. The second has to be described only for what the first gives. -/
theorem Adds.bind {act : Gen α} {f : α → Gen β} (h : Adds act p ok as a) (h' : ok → Adds (f a) p ok' bs b) :
    Adds (act >>= f) p (ok ∧ ok') (as ++ bs) b where
  done := by
    rintro d hAt ⟨hOk, hOk'⟩ hFresh
    obtain ⟨hFreshAs, hFreshBs⟩ := Draft.fresh_append.mp hFresh
    obtain ⟨events, hFirst⟩ := h.done d hAt hOk hFreshAs
    obtain ⟨events', hSecond⟩ := (h' hOk).done _ (hAt.putAll as events) hOk' hFreshBs
    obtain ⟨events'', hPut⟩ := (d.putAll as).putAll_withEvents events bs
    refine ⟨events', ?_⟩
    rw [bind_apply, hFirst]
    show f a ((d.putAll as).withEvents events) = _
    rw [hSecond, hPut, Draft.putAll_append]
    rfl
  refused := by
    intro d hAt hNot
    rw [bind_apply]
    by_cases hFirst : ok ∧ d.Fresh as
    · obtain ⟨events, hRun⟩ := h.done d hAt hFirst.1 hFirst.2
      rw [hRun]
      refine (h' hFirst.1).refused _ (hAt.putAll as events) ?_
      rintro ⟨hOk', hFreshBs⟩
      exact hNot ⟨⟨hFirst.1, hOk'⟩, Draft.fresh_append.mpr ⟨hFirst.2, hFreshBs⟩⟩
    · obtain ⟨fault, e, hRun⟩ := h.refused d hAt hFirst
      rw [hRun]
      exact ⟨fault, e, rfl⟩

/-- One step after another, when nothing the first gives is used. -/
theorem Adds.next {act : Gen α} {rest : Gen β} (h : Adds act p ok as a) (h' : Adds rest p ok' bs b) :
    Adds (act >>= fun _ => rest) p (ok ∧ ok') (as ++ bs) b :=
  h.bind (fun _ => h')

/-- A step for each member of a list. -/
theorem Adds.forM {γ : Type} {f : γ → Gen Unit} {P : γ → Prop} {F : γ → List Addition} {l : List γ}
    (h : ∀ x ∈ l, Adds (f x) p (P x) (F x) ()) :
    Adds (l.forM f) p (∀ x ∈ l, P x) (l.flatMap F) () := by
  induction l with
  | nil => exact (Adds.pure ()).congr (by simp) (fun _ => rfl)
  | cons x rest ih =>
    have hRest := ih (fun y hy => h y (List.mem_cons_of_mem _ hy))
    exact ((h x (List.mem_cons_self ..)).next hRest).congr List.forall_mem_cons (fun _ => rfl)

/-- A step for each member of a list, keeping what the steps give. -/
theorem Adds.mapM {γ : Type} {f : γ → Gen α} {P : γ → Prop} {F : γ → List Addition} {V : γ → α} {l : List γ}
    (h : ∀ x ∈ l, Adds (f x) p (P x) (F x) (V x)) :
    Adds (l.mapM f) p (∀ x ∈ l, P x) (l.flatMap F) (l.map V) := by
  induction l with
  | nil => exact (Adds.pure []).congr (by simp) (fun _ => rfl)
  | cons x rest ih =>
    rw [List.mapM_cons]
    have hRest := ih (fun y hy => h y (List.mem_cons_of_mem _ hy))
    have hGive : Adds (Pure.pure (V x :: rest.map V)) p True [] ((x :: rest).map V) := Adds.pure _
    refine ((h x (List.mem_cons_self ..)).bind fun _ => hRest.bind fun _ => hGive).congr ?_ ?_
    · rw [List.forall_mem_cons, and_true]
    · intro _
      rw [List.flatMap_cons, List.append_nil]

-- ---------------------------------------------------------------------------
-- Single steps
-- ---------------------------------------------------------------------------

theorem Adds.write (s : String) : Adds (write s) p True [.text s] () :=
  .of_done rfl (fun d _ => ⟨d.events, rfl⟩)

theorem Adds.writeLine (s : String) : Adds (writeLine s) p True [.text (s ++ "\n")] () :=
  .of_done rfl (fun d _ => ⟨d.events, rfl⟩)

theorem Adds.writeIndent : Adds writeIndent p True [.text p.indentation] () :=
  .of_done rfl (fun d hAt => ⟨d.events, by rw [← hAt.place]; rfl⟩)

theorem Adds.writeIndentedLine (s : String) : Adds (writeIndentedLine s) p True (p.line s) () :=
  .of_done rfl (fun d hAt => ⟨d.events, by rw [← hAt.place]; rfl⟩)

theorem Adds.note (e : Event) : Adds (note e) p True [] () :=
  .of_done rfl (fun d _ => ⟨e :: d.events, rfl⟩)

theorem Adds.needHeader (header : String) : Adds (needHeader header) p True [.header header] () :=
  .of_done rfl (fun d _ => ⟨(d.addHeader header).events, rfl⟩)

theorem Adds.needSupport (s : Support) : Adds (needSupport s) p True [.support s] () :=
  .of_done rfl (fun d _ => ⟨(d.addSupport s).events, rfl⟩)

theorem Adds.addForward (line : String) : Adds (addTo .forwardDeclarations line) p True [.forward line] () :=
  .of_done rfl (fun d _ => ⟨d.events, rfl⟩)

theorem Adds.addHelper (text : String) : Adds (addDefinition text) p True [.helper text] () :=
  .of_done rfl (fun d _ => ⟨d.events, rfl⟩)

theorem Adds.addFunction (signature body : String) :
    Adds (addDefinition (Addition.functionText signature body)) p True [.function signature body] () :=
  .of_done rfl (fun d _ => ⟨d.events, rfl⟩)

theorem Adds.markReturn : Adds markReturn p True [.returned] () :=
  .of_done rfl (fun d _ => ⟨d.events, rfl⟩)

/-- A value that must be there before anything else is done. -/
theorem Adds.orFail {o : Option α} {span : Span} {cause : Cause} {f : α → Gen β} {P : α → Prop}
    (h : ∀ a, o = some a → Adds (f a) p (P a) as b) :
    Adds (orFail o span cause >>= f) p (∃ a, o = some a ∧ P a) as b := by
  cases o with
  | none => exact (Adds.of_refused fun d _ => ⟨_, d, rfl⟩).congr (by simp) (fun _ => rfl)
  | some a => exact (h a rfl).congr (by simp) (fun _ => rfl)

/-- A condition that must not hold if anything else is to be done. -/
theorem Adds.unless {c : Prop} [Decidable c] (span : Span) (cause : Cause) {rest : Gen β} (h : Adds rest p ok as b) :
    Adds (if c then Gen.fail span cause >>= fun _ : Unit => rest else rest) p (¬ c ∧ ok) as b := by
  by_cases hc : c
  · rw [if_pos hc]
    exact (Adds.of_refused fun d _ => ⟨_, d, rfl⟩).congr (by simp [hc]) (fun _ => rfl)
  · rw [if_neg hc]
    exact h.congr (by simp [hc]) (fun _ => rfl)

/-- A step that is made if there is a value for it, and what is done in any case. -/
theorem Adds.optional {o : Option α} {f : α → Gen Unit} {P : α → Prop} {F : α → List Addition} {rest : Gen β}
    (h : ∀ a, o = some a → Adds (f a) p (P a) (F a) ()) (h' : Adds rest p ok bs b) :
    Adds (o.elim rest fun a => f a >>= fun _ => rest) p ((∀ a, o = some a → P a) ∧ ok) (o.elim [] F ++ bs) b := by
  cases o with
  | none => exact h'.congr (by simp) (fun _ => rfl)
  | some a => exact ((h a rfl).next h').congr (by simp) (fun _ => rfl)

theorem reserveSymbol_apply (symbol : String) (span : Span) (d : Draft) :
    reserveSymbol symbol span d =
      match d.symbols.lookup symbol with
      | some owner => .error ⟨span, .symbolTaken symbol owner⟩ d
      | none => .ok () { d with symbols := (symbol, span) :: d.symbols } := by
  have hGet : (get : Gen Draft) d = .ok d d := rfl
  rw [reserveSymbol, bind_apply, hGet]
  cases hLookup : d.symbols.lookup symbol <;> simp only [hLookup] <;> rfl

/-- A generated name is given away exactly if it is fresh. -/
theorem Adds.reserveSymbol (symbol : String) (span : Span) :
    Adds (reserveSymbol symbol span) p True [.symbol symbol span] () := by
  have hFresh : ∀ d : Draft, d.Fresh [.symbol symbol span] ↔ d.symbols.lookup symbol = none := by
    intro d
    rw [Draft.lookup_eq_none_iff]
    simp [Draft.Fresh, Addition.names, Addition.name?]
  constructor
  · intro d _ _ h
    refine ⟨d.events, ?_⟩
    rw [reserveSymbol_apply, (hFresh d).mp h]
    rfl
  · intro d _ h
    rw [reserveSymbol_apply]
    cases hLookup : d.symbols.lookup symbol with
    | none => exact absurd ⟨trivial, (hFresh d).mpr hLookup⟩ h
    | some owner => exact ⟨_, d, rfl⟩

-- ---------------------------------------------------------------------------
-- Steps on another page or at another site
-- ---------------------------------------------------------------------------

/-- A step around another one: it prepares the draft, runs the other step, and puts the draft right again. -/
theorem Adds.around {act : Gen α} {outer : Gen β} {q : Place} (h : Adds act q ok as a) (before : Draft → Draft)
    (hBefore : ∀ d : Draft, d.At p → (before d).At q ∧ (before d).taken = d.taken)
    (hNames : Addition.names bs = Addition.names as)
    (hDone : ∀ (d : Draft) (events : List Event), d.At p →
      act (before d) = .ok a (((before d).putAll as).withEvents events) →
      ∃ events', outer d = .ok b ((d.putAll bs).withEvents events'))
    (hRefused : ∀ (d : Draft) (fault : Fault) (e : Draft), d.At p → act (before d) = .error fault e →
      ∃ fault' e', outer d = .error fault' e') :
    Adds outer p ok bs b where
  done d hAt hOk hFresh := by
    have hFresh' : (before d).Fresh as := by
      unfold Draft.Fresh at hFresh ⊢
      rwa [(hBefore d hAt).2, ← hNames]
    obtain ⟨events, hRun⟩ := h.done (before d) (hBefore d hAt).1 hOk hFresh'
    exact hDone d events hAt hRun
  refused d hAt hNot := by
    have hNot' : ¬ (ok ∧ (before d).Fresh as) := by
      unfold Draft.Fresh at hNot ⊢
      rwa [(hBefore d hAt).2, ← hNames]
    obtain ⟨fault, e, hRun⟩ := h.refused (before d) (hBefore d hAt).1 hNot'
    exact hRefused d fault e hAt hRun

theorem putAll_eq (d : Draft) (as : List Addition) :
    d.putAll as =
      (d.putAll (Addition.filed as)).relocate (d.page.write (Addition.pageText as))
        (Draft.siteAfter d.site as) :=
  d.putAll_relocate d.page d.site as

/-- What a step that succeeds needs. -/
theorem Adds.holds_of_run {act : Gen α} (h : Adds act p ok as a) {d e : Draft} {b : α} (hAt : d.At p)
    (hRun : act d = .ok b e) : ok ∧ d.Fresh as := by
  by_contra hNot
  obtain ⟨fault, e', hError⟩ := h.refused d hAt hNot
  rw [hRun] at hError
  cases hError

/-- What a step that succeeds leaves on the page. -/
theorem Adds.page_of_run {act : Gen α} (h : Adds act p ok as a) {d e : Draft} {b : α} (hAt : d.At p)
    (hRun : act d = .ok b e) : e.page = d.page.write (Addition.pageText as) := by
  obtain ⟨hOk, hFresh⟩ := h.holds_of_run hAt hRun
  obtain ⟨events, hDone⟩ := h.done d hAt hOk hFresh
  rw [hRun] at hDone
  obtain ⟨-, rfl⟩ := EStateM.Result.ok.inj hDone
  exact congrArg Draft.page (putAll_eq d as)

/-- A step between two changes of the draft, the second of which undoes the first. -/
theorem Adds.between {act : Gen α} {q : Place} {before after : Draft → Draft} (h : Adds act q ok as a)
    (hBefore : ∀ d : Draft, d.At p → (before d).At q ∧ (before d).taken = d.taken)
    (hAfter : ∀ (d : Draft) (events : List Event),
      after (((before d).putAll as).withEvents events) = (d.putAll as).withEvents events) :
    Adds (between before after act) p ok as a := by
  refine h.around before hBefore rfl ?_ ?_
  · intro d events _ hRun
    refine ⟨events, ?_⟩
    rw [Gen.between, hRun]
    show EStateM.Result.ok a (after (((before d).putAll as).withEvents events)) = _
    rw [hAfter]
  · intro d fault e _ hRun
    rw [Gen.between, hRun]
    exact ⟨_, _, rfl⟩

/-- Indenting for a while changes no addition. -/
theorem Adds.indented {act : Gen Unit} (h : Adds act p.deeper ok as ()) : Adds (indented act) p ok as () := by
  refine h.between ?_ ?_
  · rintro d ⟨hTypes, rfl⟩
    exact ⟨⟨hTypes, rfl⟩, rfl⟩
  · intro d events
    rw [putAll_eq d as]
    exact congrArg (fun e : Draft => { e.withEvents events with page := e.page.dedent })
      (d.putAll_relocate d.page.indent d.site as)

/-- Going down to a node changes the place for the nodes below it and no addition. -/
theorem Adds.below {act : Gen Unit} {tag : Tag} (h : Adds act (p.descend tag) ok as ()) :
    Adds (below tag act) p ok as () := by
  have hSite : ∀ site : Site, (Draft.siteAfter (site.descend tag) as).ascend = Draft.siteAfter site as := by
    rintro ⟨lineage, _ | ⟨c, cs⟩⟩ <;> simp only [Draft.siteAfter] <;> split <;> rfl
  refine h.between ?_ ?_
  · rintro d ⟨hTypes, rfl⟩
    refine ⟨⟨hTypes, ?_⟩, rfl⟩
    simp only [Draft.place, Place.descend, Site.descend, List.head?_cons, Option.any_some, Site.inOperator, Site.parent?,
      Site.isTop, Site.isMain, Site.scope?, Site.inMain]
    cases d.site.lineage <;> rfl
  · intro d events
    rw [putAll_eq d as, ← hSite]
    exact congrArg (fun e : Draft => { e.withEvents events with site := e.site.ascend })
      (d.putAll_relocate d.page (d.site.descend tag) as)

/-- Indenting, doing something and taking the indentation back, before something else is done. -/
theorem Adds.indentedThen {act : Gen Unit} {rest : Gen β} (h : Adds act p.deeper ok as ()) (h' : Adds rest p ok' bs b) :
    Adds (onPage Page.indent >>= fun _ => act >>= fun _ => onPage Page.dedent >>= fun _ => rest) p (ok ∧ ok') (as ++ bs)
      b := by
  refine (h.indented.next h').of_agrees ?_ ?_
  · intro d b e _ hRun
    rw [bind_apply, Gen.indented, Gen.between] at hRun
    show (act >>= fun _ => onPage Page.dedent >>= fun _ => rest) { d with page := d.page.indent } = _
    rw [bind_apply]
    cases hAct : act { d with page := d.page.indent } with
    | ok _ e' =>
      rw [hAct] at hRun
      exact hRun
    | error fault e' =>
      rw [hAct] at hRun
      exact absurd hRun (by simp)
  · intro d fault e _ hRun
    rw [bind_apply, Gen.indented, Gen.between] at hRun
    show ∃ fault' e', (act >>= fun _ => onPage Page.dedent >>= fun _ => rest) { d with page := d.page.indent } =
      .error fault' e'
    rw [bind_apply]
    cases hAct : act { d with page := d.page.indent } with
    | ok _ e' =>
      rw [hAct] at hRun
      exact ⟨fault, e, hRun⟩
    | error fault' e' => exact ⟨fault', e', rfl⟩

-- ---------------------------------------------------------------------------
-- Scopes and pages
-- ---------------------------------------------------------------------------

/-- Opening a scope leads to the place inside it. -/
theorem at_enter {d : Draft} (h : d.At p) (c : Scope) : (d.relocate d.page (d.site.enter c)).At (p.enter c) := by
  obtain ⟨hTypes, rfl⟩ := h
  refine ⟨hTypes, ?_⟩
  simp only [Draft.place, Draft.relocate, Place.enter, Site.enter, Site.inOperator, Site.parent?, Site.isTop, Site.isMain,
    Site.scope?, List.head?_cons, Option.any_some, List.isEmpty_cons, Site.inMain, List.find?_cons]
  cases c.isMain || c.isFunction <;> rfl

theorem closeScope_apply (span : Span) (d : Draft) {site : Site} {c : Scope} (h : d.site = site.enter c) :
    closeScope span d = .ok c { d with site := site } := by
  cases d
  cases h
  rfl

/-- The site after additions in a new scope. -/
theorem site_putAll_enter (d : Draft) (c : Scope) (as : List Addition) :
    ((d.relocate d.page (d.site.enter c)).putAll as).site =
      d.site.enter { c with hasReturn := c.hasReturn || decide (.returned ∈ as) } := by
  rw [Draft.putAll_relocate, Draft.siteAfter_enter]
  rfl

/-- What is left of additions in a new scope once that scope is closed. -/
theorem closeScope_putAll (span : Span) (d : Draft) (c : Scope) (as : List Addition) (events : List Event) :
    closeScope span (((d.relocate d.page (d.site.enter c)).putAll as).withEvents events) =
      .ok { c with hasReturn := c.hasReturn || decide (.returned ∈ as) }
        ((d.putAll (Addition.closed as)).withEvents events) := by
  have hSite : (((d.relocate d.page (d.site.enter c)).putAll as).withEvents events).site = d.site.enter _ :=
    site_putAll_enter d c as
  rw [closeScope_apply span _ hSite, putAll_eq d, Addition.pageText_closed, Addition.filed_closed, Draft.siteAfter,
    if_neg (Addition.returned_not_mem_closed as), Draft.putAll_relocate]
  rfl

/-- A step inside a scope. Its returns are noted in that scope and forgotten with it. -/
theorem Adds.inScope {act : Gen Unit} {c : Scope} (h : Adds act (p.enter c) ok as ()) (span : Span) :
    Adds (inScope c span act) p ok (Addition.closed as) () := by
  refine h.around (fun d => d.relocate d.page (d.site.enter c)) (fun d hAt => ⟨at_enter hAt c, rfl⟩)
    (Addition.names_closed as) ?_ ?_
  · intro d events _ hRun
    refine ⟨events, ?_⟩
    show andFinally act (closeScope span) (d.relocate d.page (d.site.enter c)) = _
    rw [andFinally, hRun]
    dsimp only
    rw [closeScope_putAll]
  · intro d fault e _ hRun
    show ∃ fault' e', andFinally act (closeScope span) (d.relocate d.page (d.site.enter c)) = .error fault' e'
    rw [andFinally, hRun]
    dsimp only
    cases closeScope span e <;> exact ⟨_, _, rfl⟩

theorem onOwnPage_apply (act : Gen Unit) (d : Draft) :
    onOwnPage act d =
      match act (d.relocate (Page.blank d.width) d.site) with
      | .ok _ e => .ok e.page { e with page := d.page }
      | .error fault e => .error fault { e with page := d.page } :=
  rfl

/-- A step on a page of its own. Its text is on the page that is given; what concerns the file stays. -/
theorem Adds.onOwnPage {act : Gen Unit} (h : Adds act p.onNewPage ok as ()) (hNoReturn : .returned ∉ as) :
    Adds (onOwnPage act) p ok (Addition.filed as) ((Page.blank p.width).write (Addition.pageText as)) := by
  refine h.around (fun d => d.relocate (Page.blank d.width) d.site) ?_ (Addition.names_filed as) ?_ ?_
  · rintro d ⟨hTypes, rfl⟩
    exact ⟨⟨hTypes, rfl⟩, rfl⟩
  · rintro d events ⟨-, rfl⟩ hRun
    refine ⟨events, ?_⟩
    rw [Draft.putAll_relocate, Draft.siteAfter, if_neg hNoReturn] at hRun
    rw [onOwnPage_apply, hRun, d.putAll_filed as]
    rfl
  · intro d fault e _ hRun
    rw [onOwnPage_apply, hRun]
    exact ⟨_, _, rfl⟩

end Gen

end Lowering
