import Lowering.Proofs.Draft.Adds

/-!
# What can stop a step

A step on a draft can stop in two ways: it refuses something, whatever has been written before it, or it asks for a
generated name that has been given away. Here both are data. A step is then described by the list of its checks, in the
order in which they are made, and the fault that it stops with is the first one in that list.

* `Check.fault?` — the fault that a list of checks ends in, given the names that have been given away before.
* `Gen.Checks` — the steps that are described by a list of checks, whatever they write.
-/

namespace Lowering

-- ---------------------------------------------------------------------------
-- Checks
-- ---------------------------------------------------------------------------

/-- Something that can stop a step. -/
inductive Check where
  /-- The step stops here. -/
  | refuse (fault : Fault)
  /-- The step stops here if the name has been given away; otherwise the name is given away now. -/
  | reserve (name : String) (owner : Span)
deriving DecidableEq

namespace Check

/-- The name that a check gives away, with its owner. -/
def reserved? : Check → Option (String × Span)
  | .refuse _ => none
  | .reserve name owner => some (name, owner)

/-- The names that checks give away, each with its owner, in order. -/
def reserved (cs : List Check) : List (String × Span) :=
  cs.filterMap reserved?

/-- A refusal if the condition holds, and no check otherwise. -/
def refuseIf (c : Prop) [Decidable c] (span : Span) (cause : Cause) : List Check :=
  if c then [.refuse ⟨span, cause⟩] else []

/-- The fault that checks end in, where the names of the list have been given away before. -/
def fault? (given : List (String × Span)) : List Check → Option Fault
  | [] => none
  | .refuse fault :: _ => some fault
  | .reserve name owner :: rest =>
    match given.lookup name with
    | some first => some ⟨owner, .symbolTaken name first⟩
    | none => fault? ((name, owner) :: given) rest

@[simp]
theorem reserved_nil : reserved [] = [] := rfl

@[simp]
theorem reserved_append (cs cs' : List Check) : reserved (cs ++ cs') = reserved cs ++ reserved cs' :=
  List.filterMap_append

/-- Of one list of checks after another, the second counts only if the first ends in no fault. -/
theorem fault?_append (given : List (String × Span)) (cs cs' : List Check) :
    fault? given (cs ++ cs') = (fault? given cs).or (fault? ((reserved cs).reverse ++ given) cs') := by
  induction cs generalizing given with
  | nil => rfl
  | cons c rest ih =>
    cases c with
    | refuse fault => rfl
    | reserve name owner =>
      rw [List.cons_append, fault?, fault?]
      cases given.lookup name with
      | some first => rfl
      | none =>
        have hGiven : (reserved (.reserve name owner :: rest)).reverse ++ given =
            (reserved rest).reverse ++ (name, owner) :: given := by
          simp [reserved, reserved?]
        dsimp only
        rw [hGiven]
        exact ih _

/-- A fault is a refusal, or it is about a name that is given away to an owner before. -/
theorem fault?_eq_some {given : List (String × Span)} {cs : List Check} {fault : Fault}
    (h : fault? given cs = some fault) :
    .refuse fault ∈ cs ∨ ∃ name first, fault.cause = .symbolTaken name first ∧
      (given.lookup name = some first ∧ (name, fault.span) ∈ reserved cs ∨
        [(name, first), (name, fault.span)].Sublist (reserved cs)) := by
  induction cs generalizing given with
  | nil => cases h
  | cons c rest ih =>
    cases c with
    | refuse fault' =>
      obtain rfl := Option.some.inj h
      exact Or.inl (List.mem_cons_self ..)
    | reserve name owner =>
      have hReserved : reserved (.reserve name owner :: rest) = (name, owner) :: reserved rest := rfl
      rw [fault?] at h
      cases hLookup : given.lookup name with
      | some first =>
        rw [hLookup] at h
        obtain rfl := Option.some.inj h
        exact Or.inr ⟨name, first, rfl, Or.inl ⟨hLookup, by rw [hReserved]; exact List.mem_cons_self ..⟩⟩
      | none =>
        rw [hLookup] at h
        rcases ih h with hRefused | ⟨other, first, hCause, hTaken⟩
        · exact Or.inl (List.mem_cons_of_mem _ hRefused)
        · refine Or.inr ⟨other, first, hCause, ?_⟩
          rw [hReserved]
          rcases hTaken with ⟨hFirst, hMem⟩ | hSublist
          · rw [List.lookup_cons] at hFirst
            cases hEq : other == name with
            | true =>
              rw [hEq] at hFirst
              obtain rfl := Option.some.inj hFirst
              rw [eq_of_beq hEq] at hMem ⊢
              exact Or.inr ((List.singleton_sublist.mpr hMem).cons_cons _)
            | false =>
              rw [hEq] at hFirst
              exact Or.inl ⟨hFirst, List.mem_cons_of_mem _ hMem⟩
          · exact Or.inr (hSublist.cons _)

/-- Checks that end in no fault give away no name that has been given away before. -/
theorem lookup_of_reserved {given : List (String × Span)} {cs : List Check} (h : fault? given cs = none) {name : String}
    {owner : Span} (hMem : (name, owner) ∈ reserved cs) : given.lookup name = none := by
  induction cs generalizing given with
  | nil => cases hMem
  | cons c rest ih =>
    cases c with
    | refuse fault => cases h
    | reserve first owner' =>
      rw [fault?] at h
      cases hLookup : given.lookup first with
      | some other =>
        rw [hLookup] at h
        cases h
      | none =>
        rw [hLookup] at h
        rcases List.mem_cons.mp (show (name, owner) ∈ (first, owner') :: reserved rest from hMem) with hHead | hTail
        · rwa [(Prod.mk.inj hHead).1]
        · have hLater := ih h hTail
          rw [List.lookup_cons] at hLater
          cases hEq : name == first with
          | true => simp [hEq] at hLater
          | false => simpa [hEq] using hLater

/-- Where the same checks end in a fault after some names have been given away and in none after others, it is one of the
first names that makes the difference. -/
theorem taken_of_fault? {given given' : List (String × Span)} {cs : List Check} {fault : Fault}
    (h : fault? given cs = some fault) (h' : fault? given' cs = none) :
    ∃ name first, fault.cause = .symbolTaken name first ∧ given.lookup name = some first ∧
      (name, fault.span) ∈ reserved cs := by
  induction cs generalizing given given' with
  | nil => cases h
  | cons c rest ih =>
    cases c with
    | refuse fault' => cases h'
    | reserve name owner =>
      have hReserved : reserved (.reserve name owner :: rest) = (name, owner) :: reserved rest := rfl
      rw [fault?] at h h'
      cases hLookup' : given'.lookup name with
      | some first =>
        rw [hLookup'] at h'
        cases h'
      | none =>
        rw [hLookup'] at h'
        cases hLookup : given.lookup name with
        | some first =>
          rw [hLookup] at h
          obtain rfl := Option.some.inj h
          exact ⟨name, first, rfl, hLookup, by rw [hReserved]; exact List.mem_cons_self ..⟩
        | none =>
          rw [hLookup] at h
          obtain ⟨other, first, hCause, hFirst, hMem⟩ := ih h h'
          have hOther := lookup_of_reserved h' hMem
          refine ⟨other, first, hCause, ?_, by rw [hReserved]; exact List.mem_cons_of_mem _ hMem⟩
          rw [List.lookup_cons] at hFirst hOther
          cases hEq : other == name with
          | true => simp [hEq] at hOther
          | false => simpa [hEq] using hFirst

end Check

-- ---------------------------------------------------------------------------
-- Drafts
-- ---------------------------------------------------------------------------

/-- The site has the given number of blocks and functions around it, as far as a site can tell. -/
structure Site.Inside (s : Site) (depth : Nat) : Prop where
  outermost : s.depth = 0 ↔ depth = 0
  top : s.isTop = true ↔ depth = 1

namespace Site.Inside

variable {s : Site} {depth : Nat}

theorem markReturn (h : s.Inside depth) : s.markReturn.Inside depth := by
  rcases s with ⟨lineage, _ | ⟨c, cs⟩⟩
  · exact h
  · exact ⟨h.outermost, h.top⟩

/-- The outermost block has a scope of its own kind. -/
theorem top_of_zero (h : depth = 0) : (s.enter .top).Inside (depth + 1) := by
  subst h
  exact ⟨by simp [Site.enter, Site.depth], by simp [Site.enter, Site.isTop, Site.scope?, Scope.top]⟩

theorem nested (h : depth ≠ 0) : (s.enter .nested).Inside (depth + 1) :=
  ⟨by simp [Site.enter, Site.depth], by simp [Site.enter, Site.isTop, Site.scope?, Scope.nested, h]⟩

theorem function (h : depth = 1) : (s.enter .function).Inside (depth + 1) := by
  subst h
  exact ⟨by simp [Site.enter, Site.depth], by simp [Site.enter, Site.isTop, Site.scope?, Scope.function]⟩

end Site.Inside

namespace Draft

/-- The draft is being written inside the given number of blocks and functions, with the types that every program starts
with. -/
structure Ready (d : Draft) (depth : Nat) : Prop where
  types : d.types = Target.primitiveTypes
  site : d.site.Inside depth

/-- The second draft is what is left of the first after checks that end in no fault. -/
structure Cleared (d : Draft) (cs : List Check) (e : Draft) : Prop where
  none : Check.fault? d.symbols cs = none
  symbols : e.symbols = (Check.reserved cs).reverse ++ d.symbols
  types : e.types = d.types
  site : e.site = d.site ∨ e.site = d.site.markReturn

/-- A change of the draft that no check notices. -/
structure Unnoticed (d e : Draft) : Prop where
  symbols : e.symbols = d.symbols
  types : e.types = d.types
  site : e.site = d.site

theorem Unnoticed.cleared {d e : Draft} (h : d.Unnoticed e) : d.Cleared [] e :=
  ⟨rfl, h.symbols, h.types, Or.inl h.site⟩

theorem Cleared.ready {d e : Draft} {cs : List Check} {depth : Nat} (h : d.Cleared cs e) (hReady : d.Ready depth) :
    e.Ready depth := by
  refine ⟨h.types.trans hReady.types, ?_⟩
  rcases h.site with hSite | hSite
  · rw [hSite]
    exact hReady.site
  · rw [hSite]
    exact hReady.site.markReturn

theorem Cleared.depth {d e : Draft} {cs : List Check} (h : d.Cleared cs e) : e.site.depth = d.site.depth := by
  rcases h.site with hSite | hSite
  · rw [hSite]
  · rw [hSite]
    rcases d.site with ⟨lineage, _ | ⟨c, cs⟩⟩ <;> rfl

theorem Cleared.trans {d e f : Draft} {cs cs' : List Check} (h : d.Cleared cs e) (h' : e.Cleared cs' f) :
    d.Cleared (cs ++ cs') f where
  none := by
    rw [Check.fault?_append, h.none, ← h.symbols]
    exact h'.none
  symbols := by rw [h'.symbols, h.symbols, Check.reserved_append, List.reverse_append, List.append_assoc]
  types := h'.types.trans h.types
  site := by
    rcases h.site with hSite | hSite <;> rcases h'.site with hSite' | hSite'
    · exact Or.inl (hSite'.trans hSite)
    · exact Or.inr (by rw [hSite', hSite])
    · exact Or.inr (hSite'.trans hSite)
    · exact Or.inr (by rw [hSite', hSite, markReturn_markReturn])

theorem unnoticed_addHeader (d : Draft) (header : String) : d.Unnoticed (d.addHeader header) := by
  obtain ⟨_, _, _, h⟩ := addHeader_eq d header
  rw [h]
  exact ⟨rfl, rfl, rfl⟩

theorem unnoticed_addSupport (d : Draft) (s : Support) : d.Unnoticed (d.addSupport s) := by
  obtain ⟨_, _, _, _, h⟩ := addSupport_eq d s
  rw [h]
  exact ⟨rfl, rfl, rfl⟩

end Draft

-- ---------------------------------------------------------------------------
-- Steps
-- ---------------------------------------------------------------------------

namespace Gen

variable {α β : Type} {depth : Nat} {cs cs' : List Check}

/-- Inside `depth` blocks and functions, the step stops with the fault that the checks end in, and it succeeds if they
end in none. A fault leaves no fewer scopes open than there were. -/
def Checks (act : Gen α) (depth : Nat) (cs : List Check) : Prop :=
  ∀ d : Draft, d.Ready depth → match act d with
    | .ok _ e => d.Cleared cs e
    | .error fault e => Check.fault? d.symbols cs = some fault ∧ d.site.depth ≤ e.site.depth

namespace Checks

/-- The same checks in other words. -/
theorem congr {act : Gen α} (h : Checks act depth cs) (hEq : cs' = cs) : Checks act depth cs' :=
  hEq ▸ h

theorem pure (a : α) : Checks (Pure.pure a) depth [] :=
  fun _ _ => ⟨rfl, rfl, rfl, Or.inl rfl⟩

/-- A refusal ends the checks, whatever comes after it. -/
theorem of_refused {act : Gen α} {fault : Fault} (h : ∀ d : Draft, act d = .error fault d) :
    Checks act depth (.refuse fault :: cs) := by
  intro d _
  rw [h d]
  exact ⟨rfl, Nat.le_refl _⟩

theorem fail (span : Span) (cause : Cause) : Checks (Gen.fail span cause : Gen α) depth (.refuse ⟨span, cause⟩ :: cs) :=
  of_refused fun _ => rfl

theorem modify {f : Draft → Draft} (h : ∀ d : Draft, d.Unnoticed (f d)) : Checks (modify f : Gen Unit) depth [] :=
  fun d _ => (h d).cleared

theorem page (f : Page → Page) : Checks (onPage f) depth [] :=
  modify fun _ => ⟨rfl, rfl, rfl⟩

theorem write (s : String) : Checks (write s) depth [] :=
  page _

theorem writeLine (s : String) : Checks (writeLine s) depth [] :=
  page _

theorem writeIndent : Checks writeIndent depth [] :=
  page _

theorem writeIndentedLine (s : String) : Checks (writeIndentedLine s) depth [] :=
  page _

theorem note (e : Event) : Checks (note e) depth [] :=
  modify fun _ => ⟨rfl, rfl, rfl⟩

theorem needHeader (header : String) : Checks (needHeader header) depth [] :=
  modify fun d => d.unnoticed_addHeader header

theorem needSupport (s : Support) : Checks (needSupport s) depth [] :=
  modify fun d => d.unnoticed_addSupport s

theorem addTo (x : Section) (text : String) : Checks (addTo x text) depth [] :=
  modify fun _ => ⟨rfl, rfl, rfl⟩

theorem addDefinition (text : String) : Checks (addDefinition text) depth [] :=
  modify fun _ => ⟨rfl, rfl, rfl⟩

theorem markReturn : Checks markReturn depth [] :=
  fun _ _ => ⟨rfl, rfl, rfl, Or.inr rfl⟩

theorem reserveSymbol (name : String) (owner : Span) : Checks (reserveSymbol name owner) depth [.reserve name owner] := by
  intro d _
  rw [reserveSymbol_apply]
  cases hLookup : d.symbols.lookup name with
  | some first => exact ⟨by simp only [Check.fault?, hLookup], Nat.le_refl _⟩
  | none => exact ⟨by simp only [Check.fault?, hLookup], rfl, rfl, Or.inl rfl⟩

/-- One step after another. -/
theorem bind {act : Gen α} {f : α → Gen β} (h : Checks act depth cs) (h' : ∀ a, Checks (f a) depth cs') :
    Checks (act >>= f) depth (cs ++ cs') := by
  intro d hReady
  have hFirst := h d hReady
  rw [bind_apply]
  cases hRun : act d with
  | error fault e =>
    rw [hRun] at hFirst
    exact ⟨by rw [Check.fault?_append, hFirst.1, Option.some_or], hFirst.2⟩
  | ok a e =>
    rw [hRun] at hFirst
    have hSecond := h' a e (hFirst.ready hReady)
    dsimp only
    cases hRest : f a e with
    | error fault e' =>
      rw [hRest] at hSecond
      refine ⟨?_, by rw [← hFirst.depth]; exact hSecond.2⟩
      rw [Check.fault?_append, hFirst.none, Option.none_or, ← hFirst.symbols]
      exact hSecond.1
    | ok b e' =>
      rw [hRest] at hSecond
      exact hFirst.trans hSecond

/-- A step that checks nothing, before another one. -/
theorem first {act : Gen α} {f : α → Gen β} (h : Checks act depth []) (h' : ∀ a, Checks (f a) depth cs) :
    Checks (act >>= f) depth cs :=
  h.bind h'

/-- A step that checks nothing, after another one. -/
theorem last {act : Gen α} {f : α → Gen β} (h : Checks act depth cs) (h' : ∀ a, Checks (f a) depth []) :
    Checks (act >>= f) depth cs :=
  (h.bind h').congr (List.append_nil cs).symm

/-- Only what a step does to a draft matters. -/
theorem of_run_eq {act act' : Gen α} (h : Checks act' depth cs) (hRun : ∀ d : Draft, d.Ready depth → act d = act' d) :
    Checks act depth cs := by
  intro d hReady
  rw [hRun d hReady]
  exact h d hReady

/-- A step that looks at the draft first. -/
theorem look {f : Draft → Gen α} (h : ∀ d : Draft, d.Ready depth → Checks (f d) depth cs) :
    Checks (get >>= f) depth cs :=
  fun d hReady => h d hReady d hReady

theorem site {f : Site → Gen α} (h : ∀ s : Site, s.Inside depth → Checks (f s) depth cs) :
    Checks (Gen.site >>= f) depth cs :=
  fun d hReady => h d.site hReady.site d hReady

/-- A value that may be missing. -/
theorem orFail {o : Option α} {span : Span} {cause : Cause} {f : α → Gen β}
    (h : ∀ a, o = some a → Checks (f a) depth cs) :
    Checks (Gen.orFail o span cause >>= f) depth (Check.refuseIf (o = none) span cause ++ cs) := by
  cases o with
  | none =>
    rw [Check.refuseIf, if_pos rfl]
    exact of_refused fun _ => rfl
  | some a =>
    rw [Check.refuseIf, if_neg (by simp)]
    exact h a rfl

/-- A condition that must not hold if anything else is to be done. -/
theorem refuseIf {c : Prop} [Decidable c] {span : Span} {cause : Cause} {rest : Gen α}
    (h : ¬ c → Checks rest depth cs) :
    Checks (if c then Gen.fail span cause >>= fun _ : Unit => rest else rest) depth
      (Check.refuseIf c span cause ++ cs) := by
  unfold Check.refuseIf
  split
  · exact of_refused fun _ => rfl
  · rename_i hNot
    exact h hNot

/-- A step for each member of a list. -/
theorem forM {γ : Type} {f : γ → Gen Unit} {F : γ → List Check} {l : List γ} (h : ∀ x ∈ l, Checks (f x) depth (F x)) :
    Checks (l.forM f) depth (l.flatMap F) := by
  induction l with
  | nil => exact .pure ()
  | cons x rest ih =>
    rw [List.flatMap_cons]
    exact (h x (List.mem_cons_self ..)).bind fun _ => ih fun y hy => h y (List.mem_cons_of_mem _ hy)

/-- A value for each member of a list. -/
theorem mapM {γ : Type} {f : γ → Gen α} {F : γ → List Check} {l : List γ} (h : ∀ x ∈ l, Checks (f x) depth (F x)) :
    Checks (l.mapM f) depth (l.flatMap F) := by
  induction l with
  | nil => exact .pure []
  | cons x rest ih =>
    rw [List.mapM_cons, List.flatMap_cons]
    exact (h x (List.mem_cons_self ..)).bind fun _ => (ih fun y hy => h y (List.mem_cons_of_mem _ hy)).last
      fun _ => .pure _

-- ---------------------------------------------------------------------------
-- Steps on another page or at another site
-- ---------------------------------------------------------------------------

/-- A step around another one: it prepares the draft, runs the other step, and puts the draft right again. -/
theorem around {act : Gen α} {outer : Gen β} {inner : Nat} (h : Checks act inner cs) (before : Draft → Draft)
    (hBefore : ∀ d : Draft, d.Ready depth → (before d).Ready inner ∧ (before d).symbols = d.symbols)
    (hOk : ∀ (d : Draft) (a : α) (e : Draft), act (before d) = .ok a e → (before d).Cleared cs e →
      ∃ b e', outer d = .ok b e' ∧ d.Cleared cs e')
    (hError : ∀ (d : Draft) (fault : Fault) (e : Draft), act (before d) = .error fault e →
      (before d).site.depth ≤ e.site.depth → ∃ e', outer d = .error fault e' ∧ d.site.depth ≤ e'.site.depth) :
    Checks outer depth cs := by
  intro d hReady
  obtain ⟨hInner, hSymbols⟩ := hBefore d hReady
  have hAct := h (before d) hInner
  cases hRun : act (before d) with
  | ok a e =>
    rw [hRun] at hAct
    obtain ⟨b, e', hOuter, hCleared⟩ := hOk d a e hRun hAct
    rw [hOuter]
    exact hCleared
  | error fault e =>
    rw [hRun] at hAct
    obtain ⟨e', hOuter, hDepth⟩ := hError d fault e hRun hAct.2
    rw [hOuter]
    exact ⟨by rw [← hSymbols]; exact hAct.1, hDepth⟩

theorem indented {act : Gen Unit} (h : Checks act depth cs) : Checks (Gen.indented act) depth cs := by
  refine h.around (fun d => { d with page := d.page.indent }) (fun d hReady => ⟨⟨hReady.types, hReady.site⟩, rfl⟩) ?_ ?_
  · intro d a e hRun hCleared
    refine ⟨a, { e with page := e.page.dedent }, by rw [Gen.indented, Gen.between, hRun], ?_⟩
    exact ⟨hCleared.none, hCleared.symbols, hCleared.types, hCleared.site⟩
  · intro d fault e hRun hDepth
    exact ⟨{ e with page := e.page.dedent }, by rw [Gen.indented, Gen.between, hRun], hDepth⟩

theorem below {act : Gen Unit} (h : Checks act depth cs) (tag : Tag) : Checks (Gen.below tag act) depth cs := by
  have hMark : ∀ s : Site, (s.descend tag).markReturn.ascend = s.markReturn := by
    rintro ⟨lineage, _ | ⟨c, cs⟩⟩ <;> rfl
  refine h.around (fun d => { d with site := d.site.descend tag })
    (fun d hReady => ⟨⟨hReady.types, hReady.site.outermost, hReady.site.top⟩, rfl⟩) ?_ ?_
  · intro d a e hRun hCleared
    refine ⟨a, { e with site := e.site.ascend }, by rw [Gen.below, Gen.between, hRun], ?_⟩
    refine ⟨hCleared.none, hCleared.symbols, hCleared.types, ?_⟩
    rcases hCleared.site with hSite | hSite
    · exact Or.inl (congrArg Site.ascend hSite)
    · exact Or.inr ((congrArg Site.ascend hSite).trans (hMark d.site))
  · intro d fault e hRun hDepth
    exact ⟨{ e with site := e.site.ascend }, by rw [Gen.below, Gen.between, hRun], hDepth⟩

/-- Lines further in, before another step. -/
theorem pushed {act : Gen Unit} {rest : Gen α} (h : Checks act depth cs) (h' : Checks rest depth cs') :
    Checks (onPage Page.indent >>= fun _ => act >>= fun _ => onPage Page.dedent >>= fun _ => rest) depth (cs ++ cs') :=
  (page _).first fun _ => h.bind fun _ => (page _).first fun _ => h'

theorem onOwnPage {act : Gen Unit} (h : Checks act depth cs) : Checks (Gen.onOwnPage act) depth cs := by
  refine h.around (fun d => d.relocate (Page.blank d.width) d.site) (fun d hReady => ⟨⟨hReady.types, hReady.site⟩, rfl⟩)
    ?_ ?_
  · intro d a e hRun hCleared
    refine ⟨e.page, { e with page := d.page }, by rw [onOwnPage_apply, hRun], ?_⟩
    exact ⟨hCleared.none, hCleared.symbols, hCleared.types, hCleared.site⟩
  · intro d fault e hRun hDepth
    exact ⟨{ e with page := d.page }, by rw [onOwnPage_apply, hRun], hDepth⟩

/-- After success in a scope that has been opened before, that scope is the innermost one. -/
theorem exists_enter {d e : Draft} {c : Scope} (h : Draft.Cleared { d with site := d.site.enter c } cs e) :
    ∃ c', e.site = d.site.enter c' := by
  rcases h.site with hSite | hSite
  · exact ⟨c, hSite⟩
  · exact ⟨{ c with hasReturn := true }, hSite⟩

/-- A scope around a step, which stays open if the step fails. -/
theorem inOpened {act : Gen Unit} {c : Scope} (h : Checks act (depth + 1) cs) (span : Span)
    (hInside : ∀ s : Site, (s.enter c).Inside (depth + 1)) :
    Checks (openScope c >>= fun _ => act >>= fun _ => closeScope span >>= fun _ => Pure.pure ()) depth cs := by
  have hOpen : ∀ d : Draft, (openScope c >>= fun _ => act >>= fun _ => closeScope span >>= fun _ => Pure.pure () :
      Gen Unit) d = (act >>= fun _ => closeScope span >>= fun _ => Pure.pure () : Gen Unit)
        { d with site := d.site.enter c } := fun _ => rfl
  refine h.around (fun d => { d with site := d.site.enter c }) (fun d hReady => ⟨⟨hReady.types, hInside d.site⟩, rfl⟩) ?_ ?_
  · intro d a e hRun hCleared
    obtain ⟨c', hSite⟩ := exists_enter hCleared
    refine ⟨(), { e with site := d.site }, ?_, hCleared.none, hCleared.symbols, hCleared.types, Or.inl rfl⟩
    rw [hOpen, bind_apply, hRun]
    dsimp only
    rw [bind_apply, closeScope_apply span e hSite]
    rfl
  · intro d fault e hRun hDepth
    exact ⟨e, by rw [hOpen, bind_apply, hRun], Nat.le_of_succ_le hDepth⟩

/-- A scope around a step, which is closed even if the step fails. That always works, because a fault leaves the
scope open, or another one in its place. -/
theorem inScope {act : Gen Unit} {c : Scope} (h : Checks act (depth + 1) cs) (span : Span)
    (hInside : ∀ s : Site, (s.enter c).Inside (depth + 1)) : Checks (Gen.inScope c span act) depth cs := by
  have hOpen : ∀ d : Draft, Gen.inScope c span act d =
      andFinally act (closeScope span) { d with site := d.site.enter c } := fun _ => rfl
  refine h.around (fun d => { d with site := d.site.enter c }) (fun d hReady => ⟨⟨hReady.types, hInside d.site⟩, rfl⟩) ?_ ?_
  · intro d a e hRun hCleared
    obtain ⟨c', hSite⟩ := exists_enter hCleared
    refine ⟨a, { e with site := d.site }, ?_, hCleared.none, hCleared.symbols, hCleared.types, Or.inl rfl⟩
    rw [hOpen, andFinally, hRun]
    dsimp only
    rw [closeScope_apply span e hSite]
  · intro d fault e hRun hDepth
    obtain ⟨o, rest, hScopes⟩ := List.exists_cons_of_length_pos (Nat.zero_lt_of_lt hDepth)
    have hSite : e.site = (⟨e.site.lineage, rest⟩ : Site).enter o := by rw [Site.enter, ← hScopes]
    refine ⟨{ e with site := ⟨e.site.lineage, rest⟩ }, ?_, ?_⟩
    · rw [hOpen, andFinally, hRun]
      dsimp only
      rw [closeScope_apply span e hSite]
    · rw [hSite] at hDepth
      exact Nat.le_of_succ_le_succ hDepth

end Checks

end Gen

end Lowering
