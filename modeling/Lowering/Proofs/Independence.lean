import Lowering.Proofs.Blame
import Lowering.Proofs.Emit.Widths

/-!
# Expressions anywhere

The text of an expression is the same wherever it is written: neither the scopes, nor what is in the file already, nor the
page has a part in it. Of the nodes around it only the kind of its parent counts, because operands are put in parentheses.

What the draft holds can stop the writing of an expression all the same, in one way only: a generated name has been given
away before.

* `Node.page_of_visit`, `Node.checks_of_expression` — what is written for an expression, and what can stop it.
* `expression_text_independent` — an expression on two drafts.
-/

namespace Lowering

open Addition

-- ---------------------------------------------------------------------------
-- Drafts
-- ---------------------------------------------------------------------------

/-- Every draft with the types that programs start with is inside some number of blocks and functions. -/
theorem Draft.exists_ready {d : Draft} (hTypes : d.types = Target.primitiveTypes) : ∃ depth, d.Ready depth := by
  obtain ⟨depth, hInside⟩ := d.exists_inside
  refine ⟨depth, hTypes, ?_, hInside.top⟩
  rw [← hInside.outermost]
  exact List.length_eq_zero_iff.trans List.isEmpty_iff.symm

/-- The fault is about a generated name that one of the nodes needs and the draft has given away before. -/
def Draft.Denies (d : Draft) (n : Node) (fault : Fault) : Prop :=
  ∃ m ∈ n.nodes, ∃ name owner, m.symbolName? = some name ∧ d.symbols.lookup name = some owner ∧
    fault = ⟨m.span, .symbolTaken name owner⟩

namespace Node

variable {n : Node} {d : Draft}

/-- What the writing of a node leaves on the page. -/
theorem page_of_visit (hTypes : d.types = Target.primitiveTypes) {e : Draft} (h : visit .standard n d = .ok () e) :
    e.page = d.page.write (n.textAt d.place) := by
  obtain ⟨depth, hInside⟩ := d.exists_inside
  exact (n.visit_adds depth d.place hInside).page_of_run ⟨hTypes, rfl⟩ h

-- ---------------------------------------------------------------------------
-- What can stop an expression
-- ---------------------------------------------------------------------------

/-- An expression is checked in the same way at every depth: it opens no scope, and only functions ask where they are. -/
theorem checks_of_expression (h : ∀ m ∈ n.nodes, m.tag.isExpression = true) (depth depth' : Nat) :
    n.checks depth = n.checks depth' := by
  induction n using childInduction with
  | step n ih =>
    obtain ⟨hTag, hBelow⟩ := forall_mem_nodes.mp h
    have hScopes : n.ownScopes = 0 := by cases n <;> first | rfl | simp [tag, Tag.isExpression] at hTag
    have hSteps : n.steps depth = n.steps depth' := by cases n <;> first | rfl | simp [tag, Tag.isExpression] at hTag
    rw [checks_eq, checks_eq, hScopes, hSteps]
    refine List.flatMap_congr fun s hs => ?_
    cases s with
    | inl c => rfl
    | inr m =>
      have hChild := mem_children_of_inr_mem_steps hs
      exact ih m hChild (hBelow m hChild)

/-- Where an expression can be written on one draft and not on another, the other denies it a name. -/
theorem denies_of_visit (h : ∀ m ∈ n.nodes, m.tag.isExpression = true) (hTypes : d.types = Target.primitiveTypes)
    {d' : Draft} (hTypes' : d'.types = Target.primitiveTypes) {fault : Fault} {e e' : Draft}
    (hFault : visit .standard n d = .error fault e) (hDone : visit .standard n d' = .ok () e') : d.Denies n fault := by
  obtain ⟨depth, hReady⟩ := Draft.exists_ready hTypes
  obtain ⟨depth', hReady'⟩ := Draft.exists_ready hTypes'
  have hStopped := n.visit_checks depth d hReady
  have hCleared := n.visit_checks depth' d' hReady'
  rw [hFault] at hStopped
  rw [hDone, checks_of_expression h depth' depth] at hCleared
  obtain ⟨name, owner, hCause, hGiven, hReserved⟩ := Check.taken_of_fault? hStopped.1 hCleared.none
  obtain ⟨m, hm, hSymbol⟩ := List.mem_filterMap.mp ((n.reserved_checks depth).subset hReserved)
  obtain ⟨found, hName, hPair⟩ := Option.map_eq_some_iff.mp hSymbol
  obtain ⟨rfl, hSpan⟩ := Prod.mk.inj hPair
  refine ⟨m, hm, found, owner, hName, hGiven, ?_⟩
  rw [hSpan, ← hCause]

end Node

-- ---------------------------------------------------------------------------
-- The theorem
-- ---------------------------------------------------------------------------

/-- **Independence.** Take an expression and two drafts on which it is an operand of both or of neither. If it can be
written on both drafts, the same text is added to both pages. If it can be written on one of them only, the other stops
with an internal fault, about a generated name that has been given away there. -/
theorem expression_text_independent {n : Node} (hExpression : ∀ m ∈ n.nodes, m.tag.isExpression = true) {d d' : Draft}
    (hTypes : d.types = Target.primitiveTypes) (hTypes' : d'.types = Target.primitiveTypes)
    (hParent : (d.site.descend n.tag).inOperator = (d'.site.descend n.tag).inOperator) :
    (∀ e e', visit .standard n d = .ok () e → visit .standard n d' = .ok () e' →
      ∃ text, e.page = d.page.write text ∧ e'.page = d'.page.write text) ∧
    (∀ fault e e', visit .standard n d = .error fault e → visit .standard n d' = .ok () e' →
      fault.cause.kind = .internal ∧ d.Denies n fault) ∧
    (∀ fault e e', visit .standard n d = .ok () e → visit .standard n d' = .error fault e' →
      fault.cause.kind = .internal ∧ d'.Denies n fault) := by
  have hKind : ∀ {c : Draft} {fault : Fault}, c.Denies n fault → fault.cause.kind = .internal := by
    rintro c fault ⟨m, -, name, owner, -, -, rfl⟩
    rfl
  refine ⟨fun e e' hRun hRun' => ?_, fun fault e e' hFault hDone => ?_, fun fault e e' hDone hFault => ?_⟩
  · have hPlace : d.place.isOperator = d'.place.isOperator := by
      have hHead : ∀ c : Draft, (c.site.descend n.tag).inOperator = c.place.isOperator := by
        intro c
        simp only [Draft.place, Site.inOperator, Site.parent?, Site.descend]
        cases c.site.lineage <;> rfl
      rwa [hHead, hHead] at hParent
    refine ⟨n.textAt d.place, Node.page_of_visit hTypes hRun, ?_⟩
    rw [Node.textAt_congr hExpression hPlace]
    exact Node.page_of_visit hTypes' hRun'
  · have hDenied := Node.denies_of_visit hExpression hTypes hTypes' hFault hDone
    exact ⟨hKind hDenied, hDenied⟩
  · have hDenied := Node.denies_of_visit hExpression hTypes' hTypes hFault hDone
    exact ⟨hKind hDenied, hDenied⟩

/-- A difference with a printed string in it: in an empty file, in the middle of a function, and in a file that has given
away the name of the string. -/
theorem expression_text_independent_print :
    let n : Node :=
      .binaryOp "sub" (.call (.id "print" ⟨1, 6⟩) [.string "hi" ⟨7, 11⟩] ⟨1, 12⟩)
        (.binaryOp "sub" (.id "int" ⟨16, 19⟩) (.number (.hex "1E") (some "u8") ⟨22, 28⟩) ⟨15, 29⟩) ⟨0, 30⟩
    let busy : Draft :=
      { width := 2, headers := ["stdio.h"], support := [.string], symbols := [("nls_1", ⟨1, 2⟩)]
        site := { lineage := [.assign, .block], scopes := [.nested, .function, .top] }
        page := { text := "  x = ", level := 3, width := 8 } }
    let taken : Draft := { busy with symbols := [(stringName 7, ⟨7, 9⟩)] }
    (∀ m ∈ n.nodes, m.tag.isExpression = true) ∧
      (∃ e e' text, visit .standard n (Draft.blank 4) = .ok () e ∧ visit .standard n busy = .ok () e' ∧
        e.page = (Draft.blank 4).page.write text ∧ e'.page = busy.page.write text) ∧
      ∃ fault e, visit .standard n taken = .error fault e ∧ fault.cause.kind = .internal ∧ taken.Denies n fault := by
  intro n busy taken
  have hExpression : ∀ m ∈ n.nodes, m.tag.isExpression = true := by
    simp [n, Node.nodes_eq, Node.children, Node.tag, Tag.isExpression]
  obtain ⟨e, hBlank⟩ : ∃ e, visit .standard n (Draft.blank 4) = .ok () e := ⟨_, rfl⟩
  obtain ⟨e', hBusy⟩ : ∃ e, visit .standard n busy = .ok () e := ⟨_, rfl⟩
  obtain ⟨fault, e'', hTaken⟩ : ∃ fault e, visit .standard n taken = .error fault e := ⟨_, _, rfl⟩
  obtain ⟨hText, -, -⟩ := @expression_text_independent n hExpression (Draft.blank 4) busy rfl rfl rfl
  obtain ⟨-, hDenied, -⟩ := @expression_text_independent n hExpression taken busy rfl rfl rfl
  obtain ⟨text, hPage, hPage'⟩ := hText e e' hBlank hBusy
  exact ⟨hExpression, ⟨e, e', text, hBlank, hBusy, hPage, hPage'⟩, fault, e'', hTaken, hDenied fault e'' e' hTaken hBusy⟩

end Lowering
