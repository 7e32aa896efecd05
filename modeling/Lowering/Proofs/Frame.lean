import Lowering.Proofs.Draft.Adds
import Lowering.Proofs.Emit.Walks

/-!
# What the writing of a node leaves alone

A draft can be in any state when a node is written, and the writing can stop anywhere with a fault. Whatever happens, text
is only added, requests stay granted and generated names keep their owners. After success the draft is also at the same
site as before, except that a return may have been noted in the innermost scope. After a fault blocks may have been left
open on top of the scopes that were there; these scopes are all still there, and the lineage is the same.

A scope is therefore never closed when none is open, not even where a function closes a scope after a fault in its body
and that scope is one of the blocks of the body.

* `Draft.Kept`, `Draft.Left` — the draft after success, and after a fault.
* `Gen.Keeps` — the steps that do one or the other; `Walks.keeps` is about the steps between the nodes, `block_keeps` and
  `function_keeps` about those that open scopes.
-/

namespace Lowering

open Gen

-- ---------------------------------------------------------------------------
-- Drafts
-- ---------------------------------------------------------------------------

namespace Draft

/-- All that was in the first draft is in the second. -/
structure Extends (d e : Draft) : Prop where
  page : ∃ added, e.page.text = d.page.text ++ added
  sections : ∀ x, ∃ added, e.sections.get x = d.sections.get x ++ added
  headers : d.headers ⊆ e.headers
  support : d.support ⊆ e.support
  owners : ∀ name owner, d.symbols.lookup name = some owner → e.symbols.lookup name = some owner

/-- The second draft is what success makes of the first: at the same level and the same site, save for a return in the
innermost scope. -/
structure Kept (d e : Draft) : Prop extends Extends d e where
  level : e.page.level = d.page.level
  site : e.site = d.site ∨ e.site = d.site.markReturn

/-- The second draft is what a fault makes of the first: scopes may have been left open on top of the others. -/
structure Left (d e : Draft) : Prop extends Extends d e where
  lineage : e.site.lineage = d.site.lineage
  scopes : ∃ opened, e.site.scopes = opened ++ d.site.scopes ∨ e.site.scopes = opened ++ d.site.markReturn.scopes

theorem Extends.refl (d : Draft) : d.Extends d where
  page := ⟨"", String.append_empty.symm⟩
  sections _ := ⟨"", String.append_empty.symm⟩
  headers := List.Subset.refl _
  support := List.Subset.refl _
  owners _ _ h := h

theorem Extends.trans {d e f : Draft} (h : d.Extends e) (h' : e.Extends f) : d.Extends f where
  page := by
    obtain ⟨s, hs⟩ := h.page
    obtain ⟨t, ht⟩ := h'.page
    exact ⟨s ++ t, by rw [ht, hs, String.append_assoc]⟩
  sections x := by
    obtain ⟨s, hs⟩ := h.sections x
    obtain ⟨t, ht⟩ := h'.sections x
    exact ⟨s ++ t, by rw [ht, hs, String.append_assoc]⟩
  headers := List.Subset.trans h.headers h'.headers
  support := List.Subset.trans h.support h'.support
  owners name owner hOwner := h'.owners name owner (h.owners name owner hOwner)

theorem Kept.refl (d : Draft) : d.Kept d :=
  ⟨.refl d, rfl, Or.inl rfl⟩

theorem Kept.trans {d e f : Draft} (h : d.Kept e) (h' : e.Kept f) : d.Kept f := by
  refine ⟨h.toExtends.trans h'.toExtends, h'.level.trans h.level, ?_⟩
  rcases h.site with hSite | hSite <;> rcases h'.site with hSite' | hSite'
  · exact Or.inl (hSite'.trans hSite)
  · exact Or.inr (by rw [hSite', hSite])
  · exact Or.inr (hSite'.trans hSite)
  · exact Or.inr (by rw [hSite', hSite, markReturn_markReturn])

theorem lineage_markReturn (s : Site) : s.markReturn.lineage = s.lineage := by
  rcases s with ⟨lineage, _ | ⟨c, cs⟩⟩ <;> rfl

theorem Kept.lineage {d e : Draft} (h : d.Kept e) : e.site.lineage = d.site.lineage := by
  rcases h.site with hSite | hSite
  · rw [hSite]
  · rw [hSite, lineage_markReturn]

theorem Left.refl (d : Draft) : d.Left d :=
  ⟨.refl d, rfl, [], Or.inl rfl⟩

/-- A fault after success. -/
theorem Kept.left {d e f : Draft} (h : d.Kept e) (h' : e.Left f) : d.Left f := by
  obtain ⟨opened, hScopes⟩ := h'.scopes
  refine ⟨h.toExtends.trans h'.toExtends, h'.lineage.trans h.lineage, opened, ?_⟩
  rcases h.site with hSite | hSite
  · rwa [hSite] at hScopes
  · rw [hSite, markReturn_markReturn, or_self] at hScopes
    exact Or.inr hScopes

/-- In a scope that has just been opened, that scope is still there after a fault. -/
theorem Left.enter {d e : Draft} {c : Scope} (h : Left { d with site := d.site.enter c } e) :
    ∃ opened c', e.site.scopes = opened ++ c' :: d.site.scopes := by
  obtain ⟨opened, hScopes | hScopes⟩ := h.scopes
  · exact ⟨opened, c, hScopes⟩
  · exact ⟨opened, { c with hasReturn := true }, hScopes⟩

-- ---------------------------------------------------------------------------
-- Requests
-- ---------------------------------------------------------------------------

theorem kept_addTo (d : Draft) (x : Section) (text : String) : d.Kept (d.addTo x text) := by
  refine ⟨{ Extends.refl d with sections := fun y => ?_ }, rfl, Or.inl rfl⟩
  by_cases hEq : y = x
  · subst hEq
    exact ⟨text, d.sections.get_add_self y text⟩
  · exact ⟨"", by rw [String.append_empty]; exact d.sections.get_add_of_ne text hEq⟩

theorem kept_addDefinition (d : Draft) (text : String) : d.Kept (d.addDefinition text) :=
  d.kept_addTo .definitions _

theorem kept_addHeader (d : Draft) (header : String) : d.Kept (d.addHeader header) := by
  unfold addHeader
  split
  · exact .refl d
  · have hNoted : d.Kept ({ d with headers := d.headers ++ [header] }.note (.included header)) :=
      ⟨{ Extends.refl d with headers := List.subset_append_left _ _ }, rfl, Or.inl rfl⟩
    exact hNoted.trans (kept_addTo _ _ _)

theorem kept_markSupport (d : Draft) (s : Support) : d.Kept (d.markSupport s) :=
  ⟨{ Extends.refl d with support := List.subset_append_left _ _ }, rfl, Or.inl rfl⟩

theorem kept_addStringRecord (d : Draft) : d.Kept d.addStringRecord := by
  unfold addStringRecord
  split
  · exact .refl d
  · exact ((d.kept_markSupport .string).trans (kept_addHeader _ _)).trans (kept_addTo _ _ _)

theorem kept_addSupport (d : Draft) (s : Support) : d.Kept (d.addSupport s) := by
  cases s with
  | string => exact d.kept_addStringRecord
  | stringPrint =>
    unfold addSupport addStringPrinter
    dsimp only
    split
    · exact .refl d
    · exact (((d.kept_markSupport .stringPrint).trans (kept_addStringRecord _)).trans (kept_addHeader _ _)).trans
        (kept_addTo _ _ _)

end Draft

-- ---------------------------------------------------------------------------
-- Steps
-- ---------------------------------------------------------------------------

namespace Gen

variable {α β : Type}

/-- From any draft, the step leads to a draft that is kept, or to a fault and a draft that is left behind. The fault is
never that a scope was closed when none was open. -/
def Keeps (act : Gen α) : Prop :=
  ∀ d : Draft, match act d with
    | .ok _ e => d.Kept e
    | .error fault e => d.Left e ∧ fault.cause ≠ .unpairedScope

namespace Keeps

theorem modify {f : Draft → Draft} (h : ∀ d : Draft, d.Kept (f d)) : Keeps (modify f) :=
  h

theorem pure (a : α) : Keeps (Pure.pure a) :=
  Draft.Kept.refl

theorem fail (span : Span) {cause : Cause} (h : cause ≠ .unpairedScope) : Keeps (Gen.fail span cause : Gen α) :=
  fun d => ⟨.refl d, h⟩

theorem page {f : Page → Page} (h : ∀ page, ∃ s, f page = page.write s) : Keeps (onPage f) := by
  refine modify fun d => ?_
  obtain ⟨s, hs⟩ := h d.page
  rw [hs]
  exact ⟨{ Draft.Extends.refl d with page := ⟨s, rfl⟩ }, rfl, Or.inl rfl⟩

theorem note (e : Event) : Keeps (Gen.note e) :=
  modify fun d => ⟨{ Draft.Extends.refl d with }, rfl, Or.inl rfl⟩

theorem markReturn : Keeps Gen.markReturn :=
  modify fun d => ⟨{ Draft.Extends.refl d with }, rfl, Or.inr rfl⟩

theorem bind {act : Gen α} {f : α → Gen β} (h : Keeps act) (h' : ∀ a, Keeps (f a)) : Keeps (act >>= f) := by
  intro d
  have hFirst := h d
  rw [bind_apply]
  cases hRun : act d with
  | error fault e =>
    rw [hRun] at hFirst
    exact hFirst
  | ok a e =>
    rw [hRun] at hFirst
    dsimp only at hFirst ⊢
    have hSecond := h' a e
    cases hRest : f a e with
    | error fault e' =>
      rw [hRest] at hSecond
      exact ⟨hFirst.left hSecond.1, hSecond.2⟩
    | ok b e' =>
      rw [hRest] at hSecond
      exact hFirst.trans hSecond

theorem refuseIf {c : Prop} [Decidable c] (span : Span) {cause : Cause} (hCause : cause ≠ .unpairedScope)
    {rest : Gen α} (h : Keeps rest) : Keeps (if c then Gen.fail span cause >>= fun _ : Unit => rest else rest) := by
  split
  · exact (fail span hCause).bind fun _ => h
  · exact h

theorem symbol (name : String) (owner : Span) : Keeps (reserveSymbol name owner) := by
  intro d
  rw [reserveSymbol_apply]
  cases hLookup : d.symbols.lookup name with
  | some first => exact ⟨.refl d, by simp⟩
  | none =>
    refine ⟨{ Draft.Extends.refl d with owners := fun other first hFirst => ?_ }, rfl, Or.inl rfl⟩
    have hNe : other ≠ name := by
      rintro rfl
      rw [hLookup] at hFirst
      cases hFirst
    rw [List.lookup_cons, beq_eq_false_iff_ne.mpr hNe]
    exact hFirst

/-- A step between two changes of the draft, the second of which undoes the first. -/
theorem between {act : Gen α} (h : Keeps act) {before after : Draft → Draft}
    (hKept : ∀ d e : Draft, (before d).Kept e → d.Kept (after e))
    (hLeft : ∀ d e : Draft, (before d).Left e → d.Left (after e)) : Keeps (Gen.between before after act) := by
  intro d
  have hAct := h (before d)
  rw [Gen.between]
  cases hRun : act (before d) with
  | error fault e =>
    rw [hRun] at hAct
    exact ⟨hLeft d e hAct.1, hAct.2⟩
  | ok a e =>
    rw [hRun] at hAct
    exact hKept d e hAct

theorem indented {act : Gen Unit} (h : Keeps act) : Keeps (Gen.indented act) := by
  refine h.between (fun d e hKept => ?_) (fun d e hLeft => ?_)
  · exact ⟨{ hKept.toExtends with }, congrArg (· - 1) hKept.level, hKept.site⟩
  · exact ⟨{ hLeft.toExtends with }, hLeft.lineage, hLeft.scopes⟩

theorem below {act : Gen Unit} (h : Keeps act) (tag : Tag) : Keeps (Gen.below tag act) := by
  have hMark : ∀ s : Site, (s.descend tag).markReturn = s.markReturn.descend tag := by
    rintro ⟨lineage, _ | ⟨c, cs⟩⟩ <;> rfl
  refine h.between (fun d e hKept => ?_) (fun d e hLeft => ?_)
  · refine ⟨{ hKept.toExtends with }, hKept.level, ?_⟩
    rcases hKept.site with hSite | hSite
    · exact Or.inl (congrArg Site.ascend hSite)
    · exact Or.inr (congrArg Site.ascend (hSite.trans (hMark d.site)))
  · refine ⟨{ hLeft.toExtends with }, congrArg List.tail hLeft.lineage, ?_⟩
    have hScopes := hLeft.scopes
    rw [hMark] at hScopes
    exact hScopes

/-- Lines further in. After a fault the level need not be what it was. -/
theorem pushed {act : Gen Unit} {rest : Gen α} (h : Keeps act) (h' : Keeps rest) :
    Keeps (onPage Page.indent >>= fun _ => act >>= fun _ => onPage Page.dedent >>= fun _ => rest) := by
  have hInner := h.indented.bind fun _ => h'
  intro d
  have hAct := h { d with page := d.page.indent }
  have hAll := hInner d
  have hIndent : (onPage Page.indent >>= fun _ => act >>= fun _ => onPage Page.dedent >>= fun _ => rest) d =
      (act >>= fun _ => onPage Page.dedent >>= fun _ => rest) { d with page := d.page.indent } := rfl
  rw [bind_apply, Gen.indented, Gen.between] at hAll
  rw [hIndent, bind_apply]
  cases hRun : act { d with page := d.page.indent } with
  | error fault e =>
    rw [hRun] at hAct
    obtain ⟨hLeft, hCause⟩ := hAct
    exact ⟨⟨{ hLeft.toExtends with }, hLeft.lineage, hLeft.scopes⟩, hCause⟩
  | ok a e =>
    rw [hRun] at hAll
    exact hAll

-- ---------------------------------------------------------------------------
-- Scopes
-- ---------------------------------------------------------------------------

/-- After success inside a scope, that scope is the innermost one. -/
theorem exists_enter {d e : Draft} {c : Scope} (h : Draft.Kept { d with site := d.site.enter c } e) :
    ∃ c', e.site = d.site.enter c' := by
  rcases h.site with hSite | hSite
  · exact ⟨c, hSite⟩
  · exact ⟨{ c with hasReturn := true }, hSite⟩

/-- A scope around a step, which stays open if the step fails. -/
theorem inOpened {act : Gen Unit} (h : Keeps act) (c : Scope) (span : Span) :
    Keeps (openScope c >>= fun _ => act >>= fun _ => closeScope span >>= fun _ => Pure.pure ()) := by
  intro d
  have hAct := h { d with site := d.site.enter c }
  have hOpen : (openScope c >>= fun _ => act >>= fun _ => closeScope span >>= fun _ => Pure.pure () : Gen Unit) d =
      (act >>= fun _ => closeScope span >>= fun _ => Pure.pure () : Gen Unit) { d with site := d.site.enter c } := rfl
  rw [hOpen, bind_apply]
  cases hRun : act { d with site := d.site.enter c } with
  | error fault e =>
    rw [hRun] at hAct
    obtain ⟨hLeft, hCause⟩ := hAct
    obtain ⟨opened, c', hScopes⟩ := hLeft.enter
    refine ⟨⟨{ hLeft.toExtends with }, hLeft.lineage, opened ++ [c'], Or.inl ?_⟩, hCause⟩
    rw [hScopes, List.append_assoc, List.singleton_append]
  | ok a e =>
    rw [hRun] at hAct
    obtain ⟨c', hSite⟩ := exists_enter hAct
    dsimp only
    rw [bind_apply, closeScope_apply span e hSite]
    exact ⟨{ hAct.toExtends with }, hAct.level, Or.inl rfl⟩

/-- A scope around a step. After a fault one scope is closed, whichever is innermost; it is not one of those that were
open before. -/
theorem inScope {act : Gen Unit} (h : Keeps act) (c : Scope) (span : Span) : Keeps (Gen.inScope c span act) := by
  intro d
  have hAct := h { d with site := d.site.enter c }
  have hOpen : Gen.inScope c span act d = andFinally act (closeScope span) { d with site := d.site.enter c } := rfl
  rw [hOpen, andFinally]
  cases hRun : act { d with site := d.site.enter c } with
  | error fault e =>
    rw [hRun] at hAct
    obtain ⟨hLeft, hCause⟩ := hAct
    obtain ⟨opened, c', hScopes⟩ := hLeft.enter
    dsimp only
    cases opened with
    | nil =>
      have hSite : e.site = (⟨e.site.lineage, d.site.scopes⟩ : Site).enter c' := by
        rw [Site.enter, ← hScopes.trans (List.nil_append _)]
      rw [closeScope_apply span e hSite]
      exact ⟨⟨{ hLeft.toExtends with }, hLeft.lineage, [], Or.inl rfl⟩, hCause⟩
    | cons o opened =>
      have hSite : e.site = (⟨e.site.lineage, opened ++ c' :: d.site.scopes⟩ : Site).enter o := by
        rw [Site.enter, ← List.cons_append, ← hScopes]
      rw [closeScope_apply span e hSite]
      refine ⟨⟨{ hLeft.toExtends with }, hLeft.lineage, opened ++ [c'], Or.inl ?_⟩, hCause⟩
      rw [List.append_assoc, List.singleton_append]
  | ok a e =>
    rw [hRun] at hAct
    obtain ⟨c', hSite⟩ := exists_enter hAct
    dsimp only
    rw [closeScope_apply span e hSite]
    exact ⟨{ hAct.toExtends with }, hAct.level, Or.inl rfl⟩

theorem onOwnPage {act : Gen Unit} (h : Keeps act) : Keeps (Gen.onOwnPage act) := by
  intro d
  have hAct := h { d with page := Page.blank d.width }
  have hPage : ∃ added, d.page.text = d.page.text ++ added := ⟨"", String.append_empty.symm⟩
  rw [Gen.onOwnPage]
  cases hRun : act { d with page := Page.blank d.width } with
  | error fault e =>
    rw [hRun] at hAct
    obtain ⟨hLeft, hCause⟩ := hAct
    exact ⟨⟨{ hLeft.toExtends with page := hPage }, hLeft.lineage, hLeft.scopes⟩, hCause⟩
  | ok a e =>
    rw [hRun] at hAct
    exact ⟨{ hAct.toExtends with page := hPage }, rfl, hAct.site⟩

end Keeps

end Gen

-- ---------------------------------------------------------------------------
-- Nodes
-- ---------------------------------------------------------------------------

variable {r : Registry}

/-- Steps that are made of elementary steps and of nodes keep a draft if the nodes do. -/
theorem Walks.keeps {α : Type} {ns : List Node} {act : Gen α} (h : Walks r ns act) (hNodes : ∀ n ∈ ns, Keeps (visit r n)) :
    Keeps act := by
  induction h with
  | pure a => exact .pure a
  | look h ih => exact fun d => ih d.view hNodes d
  | fail span hCause => exact .fail span hCause
  | page hText => exact .page hText
  | note => exact .note _
  | header name => exact .modify fun d => d.kept_addHeader name
  | support s => exact .modify fun d => d.kept_addSupport s
  | symbol name owner => exact .symbol name owner
  | forward line => exact .modify fun d => d.kept_addTo .forwardDeclarations line
  | definition text => exact .modify fun d => d.kept_addDefinition text
  | markReturn => exact .markReturn
  | node n => exact hNodes n (List.mem_singleton_self n)
  | bind h h' ih ih' =>
    obtain ⟨hFirst, hSecond⟩ := List.forall_mem_append.mp hNodes
    exact (ih hFirst).bind fun a => ih' a hSecond
  | indented h ih => exact (ih hNodes).indented
  | pushed h h' ih ih' =>
    obtain ⟨hFirst, hSecond⟩ := List.forall_mem_append.mp hNodes
    exact (ih hFirst).pushed (ih' hSecond)
  | weaken h hSublist ih => exact ih fun n hn => hNodes n (hSublist.subset hn)

theorem Walks.keeps_of_nil {α : Type} {act : Gen α} (h : Walks r [] act) : Keeps act :=
  h.keeps (by simp)

/-- A block opens a scope and closes it, unless one of its statements fails. -/
theorem block_keeps {statements : List Node} {span : Span} (h : ∀ s ∈ statements, Keeps (visit r s)) :
    Keeps (Block.emit (statements.map r.part) span) := by
  have hBlock : ∀ c : Scope, Keeps (Block.scopedBlock c (statements.map r.part) span) := by
    intro c
    have hInner := (((Walks.statements statements).keeps h).bind fun _ => (Walks.endMain (r := r)).keeps_of_nil).inOpened
      c span
    simp only [bind_assoc] at hInner
    exact hInner
  have hLine : ∀ s : String, Keeps (writeLine s) := fun s => (Walks.writeLine (r := r) s).keeps_of_nil
  refine (Walks.site (r := r)).keeps_of_nil.bind fun s => ?_
  split
  · exact (hLine _).bind fun _ => (hBlock .top).pushed (hLine _)
  · exact hBlock .nested

/-- A function closes a scope after its body, even if the body fails. -/
theorem function_keeps {visibility : Visibility} {name : String} {params : List TypedName} {returns : List String}
    {body : Node} {span : Span} (h : Keeps (visit r body)) :
    Keeps (FunctionDef.emit visibility name params returns (r.part body) span) := by
  have hLine : ∀ s : String, Keeps (writeLine s) := fun s => (Walks.writeLine (r := r) s).keeps_of_nil
  refine Keeps.refuseIf span (by simp) ?_
  refine (Walks.site (r := r)).keeps_of_nil.bind fun s => Keeps.refuseIf span (by simp) ?_
  refine (Walks.returnType (r := r) returns span).keeps_of_nil.bind fun result => ?_
  have hParams : Walks r [] (params.mapM (FunctionDef.param span)) :=
    Walks.mapM fun q _ => Walks.param span q
  refine hParams.keeps_of_nil.bind fun spelled => (Keeps.note _).bind fun _ => ?_
  refine (Keeps.modify fun d => d.kept_addTo .forwardDeclarations _).bind fun _ => ?_
  refine Keeps.bind (Keeps.onOwnPage ?_) fun page => Keeps.modify fun d => d.kept_addDefinition page.text
  exact (hLine _).bind fun _ => (h.inScope .function span).pushed (hLine _)

/-- The way of writing is one of the standard ones. -/
def Handler.isStandard : Handler → Bool
  | .standard _ => true
  | .rule _ => false

/-- All ways of writing in the registry are standard ones, for whatever kinds of nodes they are used. -/
def Registry.IsStandard (r : Registry) : Prop :=
  ∀ tag h, r.find? tag = some h → h.isStandard = true

/-- The standard way of a kind is used for nodes of this kind, or it goes through no other node. -/
theorem dispatch_keeps (hStandard : r.IsStandard) {n : Node} {own : Gen Unit} (h : Keeps own) :
    Keeps (dispatch r n own) := by
  unfold dispatch
  split
  · exact .fail n.span (by simp)
  · rename_i handler hFind
    refine Keeps.bind (.modify fun d => ⟨{ Draft.Extends.refl d with }, rfl, Or.inl rfl⟩) fun _ => Keeps.below ?_ n.tag
    cases handler with
    | rule act => exact absurd (hStandard _ _ hFind) (by simp [Handler.isStandard])
    | standard tag =>
      unfold Handler.run
      dsimp only
      split
      · exact h
      · exact (Walks.mismatch (r := r) tag n).keeps_of_nil

/-- Every node, from every draft: success keeps the draft, a fault leaves it behind, and no scope is closed when none is
open. -/
theorem visit_keeps_or_leaves (r : Registry) (hStandard : r.IsStandard) (n : Node) (d : Draft) :
    (∀ e, visit r n d = .ok () e → d.Kept e) ∧
      ∀ fault e, visit r n d = .error fault e → d.Left e ∧ fault.cause ≠ .unpairedScope := by
  have hKeeps : Keeps (visit r n) := by
    induction n using Node.childInduction with
    | step n ih =>
      obtain ⟨own, hVisit, hWay⟩ := n.exists_way r
      rw [hVisit]
      refine dispatch_keeps hStandard ?_
      cases hWay with
      | plain _ h => exact h.keeps ih
      | block statements span => exact block_keeps ih
      | function visibility name params returns body span => exact function_keeps (ih body (by simp [Node.children]))
  have hDraft := hKeeps d
  constructor
  · intro e hRun
    rwa [hRun] at hDraft
  · intro fault e hRun
    rwa [hRun] at hDraft

/-- Labels are written like breaks here. The body of the function fails in a block inside a block. The function then closes
the inner one of these, so that the outer one and the scope of the function itself are left behind. -/
theorem visit_keeps_or_leaves_open_blocks :
    let r := Registry.standard.insert .label (.standard .breakLoop)
    let d : Draft := { site := { scopes := [.top] } }
    let inner : Node := .block [.label "again" ⟨3, 4⟩, .varargs ⟨5, 6⟩] ⟨2, 7⟩
    let node : Node := .funcDef .scoped "f" [] [] (.block [inner] ⟨1, 8⟩) ⟨0, 9⟩
    r.IsStandard ∧ ∃ e, visit r node d = .error ⟨⟨5, 6⟩, .varargs⟩ e ∧ e.site.scopes = [.nested, .function, .top] ∧
      d.Left e := by
  intro r d inner node
  have hStandard : r.IsStandard := by
    intro tag h hFind
    cases tag <;> cases hFind <;> rfl
  exact ⟨hStandard, _, rfl, rfl, ((visit_keeps_or_leaves r hStandard node d).2 _ _ rfl).1⟩

end Lowering
