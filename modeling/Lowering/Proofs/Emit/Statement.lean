import Lowering.Proofs.Emit.Expression

/-!
# What statements add

For each way of writing a statement, when it succeeds and what it adds, given the same of its parts. The body of a block
is written in a scope of its own; whether the entry point still needs a return is the only thing that is decided by what
has been written before (`scopedBlock_adds`).
-/

namespace Lowering

open Gen

variable {p : Place} {ok ok' ok'' : Prop} {as bs cs : List Addition} {x y z : Part} {parts : List Part}
  {P Q : Part → Prop} {F G : Part → List Addition}

theorem guarded_adds (before after : String) (h : Adds x.emit p ok as ()) :
    Adds (guarded before x after) p ok (p.guarded before as after) () :=
  (Adds.writeIndent.next ((Adds.write _).next (h.next (Adds.writeLine _)))).congr (by simp) (by simp [Place.guarded])

-- ---------------------------------------------------------------------------
-- Blocks
-- ---------------------------------------------------------------------------

theorem braced_adds (h : Adds x.emit p.deeper ok as ()) : Adds (Block.braced x) p ok (p.braced as) () :=
  ((Adds.writeIndentedLine _).next (h.indented.next (Adds.writeIndentedLine _))).congr (by simp)
    (by simp [Place.braced])

theorem statement_adds (h : Adds x.emit (p.ofStatement x.node) ok as ()) :
    Adds (Block.statement x) p ok (p.statement x.node as) () := by
  unfold Block.statement Place.statement
  by_cases hExpr : x.node.tag.isExpression = true
  · have hBlock : x.node.tag ≠ .block := by
      intro hTag
      simp [hTag, Tag.isExpression] at hExpr
    rw [Place.ofStatement, if_neg hBlock] at h
    rw [if_pos hExpr, if_pos hExpr]
    exact (Adds.writeIndent.next (h.next (Adds.writeLine _))).congr (by simp) (by simp)
  · rw [if_neg hExpr, if_neg hExpr]
    by_cases hBlock : x.node.tag = .block
    · rw [Place.ofStatement, if_pos hBlock] at h
      rw [if_pos hBlock, if_pos hBlock]
      exact braced_adds h
    · rw [Place.ofStatement, if_neg hBlock] at h
      rw [if_neg hBlock, if_neg hBlock]
      exact h

/-- What the end of a block adds: a return, if the block is the entry point and has none. -/
def ending (p : Place) (c : Scope) : List Addition :=
  if c.isMain = true ∧ c.hasReturn = false then p.line "return 0;" else []

theorem names_ending (p : Place) (c : Scope) : Addition.names (ending p c) = [] := by
  unfold ending
  split <;> rfl

theorem closed_ending (p : Place) (c : Scope) : Addition.closed (ending p c) = ending p c := by
  unfold ending
  split <;> rfl

/-- The end of a block, in the scope of that block. -/
theorem endMain_apply {d : Draft} {site : Site} {c : Scope} (h : d.site = site.enter c) :
    Block.endMain d = .ok () (d.putAll (ending d.place c)) := by
  have hRun : Block.endMain d =
      (if d.site.isMain && !d.site.scope?.any Scope.hasReturn then writeIndentedLine "return 0;" else pure () : Gen Unit)
        d := rfl
  have hMain : d.site.isMain = c.isMain := by
    rw [h]
    rfl
  have hReturn : d.site.scope?.any Scope.hasReturn = c.hasReturn := by
    rw [h]
    rfl
  rw [hRun, hMain, hReturn, ending]
  cases c.isMain <;> cases c.hasReturn <;> rfl

/-- The statements of a block in a scope of their own. -/
theorem scopedBlock_adds {c : Scope} {span : Span} (h : Adds (parts.forM Block.statement) (p.enter c) ok as ()) :
    Adds (Block.scopedBlock c parts span) p ok
      (Addition.closed as
        ++ ending (p.enter c) { c with hasReturn := c.hasReturn || decide (.returned ∈ as) }) () := by
  have hRun : ∀ d : Draft, Block.scopedBlock c parts span d =
      (parts.forM Block.statement >>= fun _ => Block.endMain >>= fun _ => closeScope span >>= fun _ => pure ())
        (d.relocate d.page (d.site.enter c)) := fun _ => rfl
  refine h.around (fun d => d.relocate d.page (d.site.enter c)) (fun d hAt => ⟨at_enter hAt c, rfl⟩) ?_ ?_ ?_
  · rw [Addition.names_append, Addition.names_closed, names_ending, List.append_nil]
  · intro d events hAt hBody
    have hPlace := ((at_enter hAt c).putAll as events).place
    set c' : Scope := { c with hasReturn := c.hasReturn || decide (.returned ∈ as) }
    obtain ⟨events', hPut⟩ :=
      ((d.relocate d.page (d.site.enter c)).putAll as).putAll_withEvents events (ending (p.enter c) c')
    have hSite : (((d.relocate d.page (d.site.enter c)).putAll as).withEvents events).site = d.site.enter c' :=
      site_putAll_enter d c as
    refine ⟨events', ?_⟩
    rw [hRun, bind_apply, hBody]
    dsimp only
    rw [bind_apply, endMain_apply hSite, hPlace, hPut, ← Draft.putAll_append]
    dsimp only
    rw [bind_apply, closeScope_putAll, Addition.closed_append, closed_ending]
    rfl
  · intro d fault e _ hBody
    rw [hRun, bind_apply, hBody]
    exact ⟨_, _, rfl⟩

theorem block_adds {span : Span} (h : Adds (parts.forM Block.statement) p.inBlock ok as ()) :
    Adds (Block.emit parts span) p ok (p.block as) () := by
  have hRun : ∀ d : Draft, d.At p → Block.emit parts span d =
      (if p.outermost then (writeLine "int main() \x7b" >>= fun _ => onPage Page.indent >>= fun _ =>
          Block.scopedBlock .top parts span >>= fun _ => onPage Page.dedent >>= fun _ => writeLine "\x7d")
        else Block.scopedBlock .nested parts span : Gen Unit) d := by
    rintro d ⟨-, rfl⟩
    show (if d.site.scopes.length = 0 then _ else _ : Gen Unit) d = (if d.site.scopes.isEmpty then _ else _ : Gen Unit) d
    cases d.site.scopes <;> rfl
  refine Adds.of_run_eq ?_ hRun
  unfold Place.block Place.inBlock at *
  cases hOutermost : p.outermost with
  | true =>
    rw [hOutermost] at h
    refine ((Adds.writeLine _).next ((scopedBlock_adds h).indentedThen (Adds.writeLine _))).congr (by simp) ?_
    intro _
    simp [ending, Scope.top]
  | false =>
    rw [hOutermost] at h
    refine (scopedBlock_adds h).congr Iff.rfl ?_
    intro _
    simp [ending, Scope.nested]

-- ---------------------------------------------------------------------------
-- Branches
-- ---------------------------------------------------------------------------

/-- The additions of the two parts of an arm. -/
def armAdditions (F G : Part → List Addition) (a : Arm Part) : Arm (List Addition) :=
  ⟨F a.guard, G a.body⟩

theorem branch_adds (before : String) {a : Arm Part} (hGuard : Adds a.guard.emit p (P a.guard) (F a.guard) ())
    (hBody : Adds a.body.emit p.deeper (Q a.body) (G a.body) ()) :
    Adds (Branch.branch before a) p (P a.guard ∧ Q a.body) (p.branch before (armAdditions F G a)) () :=
  (guarded_adds before _ hGuard).next hBody.indented

section Arms

variable {arms : List (Arm Part)} {otherwise : Option Part}
  (hGuards : ∀ a ∈ arms, Adds a.guard.emit p (P a.guard) (F a.guard) ())

include hGuards

theorem cond_adds {span : Span} (hBodies : ∀ a ∈ arms, Adds a.body.emit p.deeper (P a.body) (G a.body) ())
    (hOtherwise : ∀ x ∈ otherwise, Adds x.emit p.deeper (P x) (G x) ()) :
    Adds (Branch.cond arms otherwise span) p
      (arms ≠ [] ∧ (∀ a ∈ arms, P a.guard ∧ P a.body) ∧ ∀ x ∈ otherwise, P x)
      (p.cond (arms.map (armAdditions F G)) (otherwise.map G)) () := by
  cases arms with
  | nil => exact (Adds.fail span .noBranches () _).congr (by simp) (fun _ => rfl)
  | cons first rest =>
    have hFirst := branch_adds "if (" (hGuards first (by simp)) (hBodies first (by simp))
    have hRest := Adds.forM (f := Branch.branch "\x7d else if (") (l := rest) (fun a ha =>
      branch_adds "\x7d else if (" (hGuards a (by simp [ha])) (hBodies a (by simp [ha])))
    cases otherwise with
    | none =>
      refine (hFirst.next (hRest.next (Adds.writeIndentedLine "\x7d"))).congr ?_ ?_
      · simp
      · intro _
        simp [Place.cond, Place.otherwise, List.flatMap_map]
    | some block =>
      have hBlock := (hOtherwise block rfl).indented
      refine (hFirst.next (hRest.next ((Adds.writeIndentedLine _).next
        (hBlock.next (Adds.writeIndentedLine "\x7d"))))).congr ?_ ?_
      · simp [and_assoc]
      · intro _
        simp [Place.cond, Place.otherwise, List.flatMap_map]

end Arms

theorem armBody_adds (h : Adds x.emit p.deeper ok as ()) : Adds (Branch.armBody x) p ok (p.armBody as) () :=
  (h.indented.next ((Adds.writeIndentedLine "break;").indented.next (Adds.writeIndentedLine "\x7d"))).congr (by simp)
    (by simp [Place.armBody])

theorem switchArm_adds {a : Arm Part} (hGuard : Adds a.guard.emit p (P a.guard) (F a.guard) ())
    (hBody : Adds a.body.emit p.deeper (P a.body) (G a.body) ()) :
    Adds (Branch.switchArm a) p (P a.guard ∧ P a.body) (p.switchArm (armAdditions F G a)) () :=
  (guarded_adds "case " _ hGuard).next (armBody_adds hBody)

theorem switch_adds {arms : List (Arm Part)} {otherwise : Option Part} (hSubject : Adds x.emit p ok as ())
    (hGuards : ∀ a ∈ arms, Adds a.guard.emit p.deeper (P a.guard) (F a.guard) ())
    (hBodies : ∀ a ∈ arms, Adds a.body.emit p.deeper.deeper (P a.body) (G a.body) ())
    (hOtherwise : ∀ x ∈ otherwise, Adds x.emit p.deeper.deeper (P x) (G x) ()) :
    Adds (Branch.switch x arms otherwise) p (ok ∧ (∀ a ∈ arms, P a.guard ∧ P a.body) ∧ ∀ x ∈ otherwise, P x)
      (p.switch as (arms.map (armAdditions F G)) (otherwise.map G)) () := by
  have hHead := guarded_adds "switch (" ") \x7b" hSubject
  have hArms := Adds.forM (f := Branch.switchArm) (l := arms) (fun a ha =>
    switchArm_adds (hGuards a ha) (hBodies a ha))
  have hFoot : Adds (writeIndentedLine "\x7d") p True (p.line "\x7d") () := Adds.writeIndentedLine _
  have hAssoc : ∀ act default : Gen Unit, (act >>= fun _ => default >>= fun _ => onPage Page.dedent >>= fun _ =>
      writeIndentedLine "\x7d") = ((act >>= fun _ => default) >>= fun _ => onPage Page.dedent >>= fun _ =>
      writeIndentedLine "\x7d") := by
    intro act default
    rw [bind_assoc]
  cases otherwise with
  | none =>
    refine (hHead.next (hArms.indentedThen hFoot)).congr ?_ ?_
    · simp
    · intro _
      simp [Place.switch, Place.defaultArm, List.flatMap_map]
  | some block =>
    have hDefault := (Adds.writeIndentedLine "default: \x7b").next (armBody_adds (hOtherwise block rfl))
    have hInner := (hArms.next hDefault).indentedThen hFoot
    rw [← hAssoc] at hInner
    refine (hHead.next hInner).congr ?_ ?_
    · simp
    · intro _
      simp [Place.switch, Place.defaultArm, List.flatMap_map]

-- ---------------------------------------------------------------------------
-- Loops and jumps
-- ---------------------------------------------------------------------------

theorem whileLoop_adds (h : Adds x.emit p ok as ()) (h' : Adds y.emit p.deeper ok' bs ()) :
    Adds (Loop.whileLoop x y) p (ok ∧ ok') (p.whileLoop as bs) () :=
  ((guarded_adds _ _ h).next (h'.indented.next (Adds.writeIndentedLine _))).congr (by simp)
    (by simp [Place.whileLoop])

theorem repeatLoop_adds (h : Adds x.emit p.deeper ok as ()) (h' : Adds y.emit p ok' bs ()) :
    Adds (Loop.repeatLoop x y) p (ok ∧ ok') (p.repeatLoop as bs) () :=
  ((Adds.writeIndentedLine _).next (h.indented.next (guarded_adds _ _ h'))).congr (by simp) (by simp [Place.repeatLoop])

theorem declarator_adds (name : String) (h : Adds x.emit p ok as ()) :
    Adds (Loop.declarator name x) p ok (declaratorAdditions name as) () :=
  ((Adds.write _).next h).congr (by simp) (fun _ => rfl)

theorem stepPart_adds (name : String) {step : Option Part} (h : ∀ x ∈ step, Adds x.emit p (P x) (F x) ()) :
    Adds (Loop.stepPart name step) p (∀ x ∈ step, P x) (stepAdditions name (step.map F)) (increment name step.isSome) := by
  cases step with
  | none => exact (Adds.pure _).congr (by simp) (fun _ => rfl)
  | some x => exact Adds.congr ((declarator_adds _ (h x rfl)).next (.pure _)) (by simp) (by simp [stepAdditions])

/-- Only one name is the inclusive comparison. -/
theorem isInclusive_iff (comparator : String) : Loop.isInclusive comparator = true ↔ comparator = "le" := by
  have hAll : ∀ e ∈ BinaryOp.names, e.2 = .le → e.1 = "le" := by decide
  rw [Loop.isInclusive, decide_eq_true_eq]
  constructor
  · intro h
    obtain ⟨before, after, hTable, -⟩ := List.lookup_eq_some_iff.mp h
    exact hAll (comparator, .le) (by rw [hTable]; simp) rfl
  · rintro rfl
    decide

theorem forNum_adds {var : TypedName} {comparator : Option String} {step : Option Part} {span : Span}
    (hFirst : Adds x.emit p ok as ()) (hLast : Adds y.emit p ok' bs ())
    (hStep : ∀ s ∈ step, Adds s.emit p (P s) (F s) ()) (hBody : Adds z.emit p.deeper ok'' cs ()) :
    Adds (Loop.forNum var x comparator y step z span) p
      (((∀ c, comparator = some c → c = "le") ∧ Deducible var (some x.node)) ∧ ok ∧ ok' ∧ (∀ s ∈ step, P s) ∧ ok'')
      (p.forNum ((typeName? var (some x.node)).getD "") (Target.escapeName var.name) as bs (step.map F) cs) () := by
  have hHeader : ∀ type name : String, Adds (Loop.header type name x y step) p (ok ∧ ok' ∧ ∀ s ∈ step, P s)
      ([Addition.text p.indentation, .text ("for (" ++ type ++ " " ++ Loop.temporary name "begin" ++ " = ")] ++ as
        ++ declaratorAdditions (Loop.temporary name "end") bs ++ stepAdditions name (step.map F)
        ++ [Addition.text (", " ++ name ++ " = " ++ Loop.temporary name "begin"),
            .text ("; " ++ name ++ " <= " ++ Loop.temporary name "end" ++ "; " ++ increment name step.isSome),
            .lineEnd ") \x7b"]) () := by
    intro type name
    refine Adds.congr (Adds.writeIndent.next ((Adds.write _).next (hFirst.next ((declarator_adds _ hLast).next
      ((stepPart_adds name hStep).bind fun _ => (Adds.write _).next ((Adds.write _).next (Adds.writeLine _))))))) ?_ ?_
    · simp
    · simp
  have hMain : Adds (Loop.varType var x.node span >>= fun type =>
      Loop.header type (Target.escapeName var.name) x y step >>= fun _ => indented z.emit >>= fun _ =>
        writeIndentedLine "\x7d") p (Deducible var (some x.node) ∧ ok ∧ ok' ∧ (∀ s ∈ step, P s) ∧ ok'')
      (p.forNum ((typeName? var (some x.node)).getD "") (Target.escapeName var.name) as bs (step.map F) cs) () := by
    refine Adds.congr ((loopType_adds var x.node span).bind fun _ =>
      (hHeader _ _).next (hBody.indented.next (Adds.writeIndentedLine _))) ?_ ?_
    · simp [and_assoc]
    · simp [Place.forNum]
  unfold Loop.forNum
  cases comparator with
  | none => exact hMain.congr (by simp) (fun _ => rfl)
  | some c =>
    by_cases hLe : c = "le"
    · rw [Option.filter_some, if_neg (by simp [(isInclusive_iff c).mpr hLe])]
      exact hMain.congr (by simp [hLe]) (fun _ => rfl)
    · rw [Option.filter_some, if_pos (by simpa using fun h => hLe ((isInclusive_iff c).mp h))]
      exact (Adds.of_refused fun d _ => ⟨_, d, rfl⟩).congr (by simp [hLe]) (fun _ => rfl)

theorem ret_adds {span : Span} (h : ∀ x ∈ parts, Adds x.emit p (P x) (F x) ()) :
    Adds (Jump.ret parts span) p (parts.length ≤ 1 ∧ ∀ x ∈ parts, P x) (p.ret (parts.map F)) () := by
  unfold Jump.ret
  cases parts with
  | nil =>
    have hLine : Adds (site >>= fun s => if s.inMain then writeLine "return 0;" >>= fun _ => markReturn
        else writeLine "return;" >>= fun _ => markReturn) p True
        [.lineEnd (if p.inMain then "return 0;" else "return;"), .returned] () := by
      have hRun : ∀ d : Draft, d.At p → (site >>= fun s => if s.inMain then writeLine "return 0;" >>= fun _ => markReturn
          else writeLine "return;" >>= fun _ => markReturn) d =
          (writeLine (if p.inMain then "return 0;" else "return;") >>= fun _ => markReturn) d := by
        rintro d ⟨-, rfl⟩
        show (if d.site.inMain then _ else _ : Gen Unit) d =
          (writeLine (if d.site.inMain then _ else _) >>= fun _ => markReturn) d
        cases d.site.inMain <;> rfl
      exact Adds.of_run_eq (((Adds.writeLine _).next Adds.markReturn).congr (by simp) (fun _ => rfl)) hRun
    exact (Adds.writeIndent.next hLine).congr (by simp) (fun _ => rfl)
  | cons x rest =>
    cases rest with
    | nil =>
      refine (Adds.writeIndent.next ((Adds.write "return ").next ((h x (by simp)).next
        ((Adds.writeLine ";").next Adds.markReturn)))).congr ?_ ?_
      · simp
      · simp [Place.ret]
    | cons y rest =>
      have hFail : Adds (fail span .multipleReturns >>= fun _ : Unit => markReturn) p False ([] : List Addition) () :=
        Adds.of_refused fun d _ => ⟨_, d, rfl⟩
      exact (Adds.writeIndent.next hFail).congr (by simp) (by simp)

-- ---------------------------------------------------------------------------
-- Declarations and assignments
-- ---------------------------------------------------------------------------

theorem declareVariable_adds (qualifier : String) (span : Span) (var : TypedName) (value : Option Part)
    (h : ∀ v ∈ value, Adds v.emit p (P v) (F v) ()) :
    Adds (Declaration.declareVariable qualifier span var value) p
      (Deducible var (value.map Part.node) ∧ ∀ v ∈ value, P v)
      (p.declareVariable qualifier var (value.map fun v => (v.node, F v))) () := by
  have hType := variableType_adds (p := p) var value span
  cases value with
  | none =>
    refine Adds.congr (hType.bind fun _ => Adds.writeIndent.next ((Adds.write _).next (Adds.writeLine _))) ?_ ?_
    · simp
    · simp [Place.declareVariable]
  | some v =>
    refine Adds.congr (hType.bind fun _ => Adds.writeIndent.next ((Adds.write _).next
      ((h v rfl).next (Adds.writeLine _)))) ?_ ?_
    · simp
    · simp [Place.declareVariable]

/-- A statement about the places of a list, by its first place and the others. -/
theorem forall_getElem_cons {α : Type} {a : α} {as : List α} {C : α → Nat → Prop} :
    (∀ i (h : i < (a :: as).length), C (a :: as)[i] i) ↔ C a 0 ∧ ∀ i (h : i < as.length), C as[i] (i + 1) := by
  constructor
  · intro h
    exact ⟨h 0 (by simp), fun i hi => h (i + 1) (by simpa using hi)⟩
  · rintro ⟨hFirst, hRest⟩ i hi
    cases i with
    | zero => exact hFirst
    | succ i => exact hRest i (by simpa using hi)

theorem declareVariables_adds (qualifier : String) (span : Span) (vars : List TypedName)
    (h : ∀ v ∈ parts, Adds v.emit p (P v) (F v) ()) :
    Adds (Declaration.declareVariables qualifier span vars parts) p
      ((∀ i (h : i < vars.length), Deducible vars[i] (parts[i]?.map Part.node)) ∧ ∀ v ∈ parts.take vars.length, P v)
      (p.declareVariables qualifier vars (parts.map fun v => (v.node, F v))) () := by
  induction vars generalizing parts with
  | nil => exact (Adds.pure ()).congr (by simp) (fun _ => rfl)
  | cons var vars ih =>
    cases parts with
    | nil =>
      have hFirst := declareVariable_adds (p := p) (P := P) (F := F) qualifier span var none (by simp)
      refine (hFirst.next (ih h)).congr ?_ (fun _ => rfl)
      rw [forall_getElem_cons (C := fun x i => Deducible x (([] : List Part)[i]?.map Part.node))]
      simp
    | cons v rest =>
      have hFirst := declareVariable_adds (p := p) (P := P) (F := F) qualifier span var (some v)
        (fun x hx => by
          obtain rfl := Option.some.inj hx
          exact h _ (List.mem_cons_self ..))
      have hRest := ih (fun x hx => h x (List.mem_cons_of_mem _ hx))
      refine (hFirst.next hRest).congr ?_ (fun _ => rfl)
      rw [forall_getElem_cons (C := fun x i => Deducible x ((v :: rest)[i]?.map Part.node))]
      simp only [List.getElem?_cons_zero, List.getElem?_cons_succ, List.length_cons, List.take_succ_cons,
        List.forall_mem_cons, Option.map_some, Option.mem_def, Option.some.injEq, forall_eq']
      tauto

theorem declaration_adds {visibility : Visibility} {mutability : Mutability} {vars : List TypedName} {span : Span}
    (h : ∀ v ∈ parts, Adds v.emit p (P v) (F v) ()) :
    Adds (Declaration.emit visibility mutability vars parts span) p
      ((visibility = .scoped ∧ mutability ≠ .immutable ∧ (parts = [] ∨ parts.length = vars.length) ∧
        ∀ i (h : i < vars.length), Deducible vars[i] (parts[i]?.map Part.node)) ∧ ∀ v ∈ parts, P v)
      (p.declareVariables ((Declaration.qualifier? mutability).getD "") vars (parts.map fun v => (v.node, F v))) () := by
  set D := ∀ i (h : i < vars.length), Deducible vars[i] (parts[i]?.map Part.node) with hD
  refine Adds.congr (Adds.unless _ _ (Adds.orFail
    (P := fun _ => (parts = [] ∨ parts.length = vars.length) ∧ D ∧ ∀ v ∈ parts.take vars.length, P v)
    fun qualifier hQualifier => Adds.congr (Adds.unless _ _ (declareVariables_adds qualifier span vars h)) ?_ ?_)) ?_
    (fun _ => rfl)
  · simp only [Bool.and_eq_true, Bool.not_eq_true', List.isEmpty_eq_false_iff, decide_eq_true_eq, not_and, not_not, ne_eq]
    tauto
  · intro _
    rw [hQualifier]
    rfl
  · have hVisible : ¬ visibility = .global ↔ visibility = .scoped := by cases visibility <;> simp
    have hQualified : (∃ q, Declaration.qualifier? mutability = some q) ↔ mutability ≠ .immutable := by
      cases mutability <;> simp [Declaration.qualifier?]
    have hTake : parts = [] ∨ parts.length = vars.length → parts.take vars.length = parts := by
      rintro (rfl | hLength)
      · exact List.take_nil
      · rw [← hLength, List.take_length]
    rw [hVisible, exists_and_right, hQualified]
    constructor
    · rintro ⟨⟨hScoped, hMutable, hCount, hTypes⟩, hParts⟩
      exact ⟨hScoped, hMutable, hCount, hTypes, by rwa [hTake hCount]⟩
    · rintro ⟨hScoped, hMutable, hCount, hTypes, hParts⟩
      exact ⟨⟨hScoped, hMutable, hCount, hTypes⟩, by rwa [hTake hCount] at hParts⟩

theorem store_adds (h : Adds x.emit p ok as ()) (h' : Adds y.emit p ok' bs ()) :
    Adds (Assignment.store x y) p (ok ∧ ok')
      ([Addition.text p.indentation] ++ as ++ [Addition.text " = "] ++ bs ++ [Addition.lineEnd ";"]) () :=
  (Adds.writeIndent.next (h.next ((Adds.write _).next (h'.next (Adds.writeLine _))))).congr (by simp) (by simp)

theorem stores_adds {targets values : List Part} (h : ∀ x ∈ targets, Adds x.emit p (P x) (F x) ())
    (h' : ∀ x ∈ values, Adds x.emit p (P x) (F x) ()) :
    Adds (Assignment.stores targets values) p (∀ e ∈ targets.zip values, P e.1 ∧ P e.2)
      (p.stores (targets.map F) (values.map F)) () := by
  induction targets generalizing values with
  | nil => exact (Adds.pure ()).congr (by simp) (fun _ => rfl)
  | cons t ts ih =>
    cases values with
    | nil => exact (Adds.pure ()).congr (by simp) (fun _ => rfl)
    | cons v vs =>
      have hStore := store_adds (h t (List.mem_cons_self ..)) (h' v (List.mem_cons_self ..))
      have hRest := ih (fun x hx => h x (List.mem_cons_of_mem _ hx)) (fun x hx => h' x (List.mem_cons_of_mem _ hx))
      refine (hStore.next hRest).congr ?_ (fun _ => rfl)
      rw [List.zip_cons_cons, List.forall_mem_cons]

theorem assignment_adds {targets values : List Part} {span : Span} (h : ∀ x ∈ targets, Adds x.emit p (P x) (F x) ())
    (h' : ∀ x ∈ values, Adds x.emit p (P x) (F x) ()) :
    Adds (Assignment.emit targets values span) p
      ((targets.length = values.length ∧ Node.SequentialStores (targets.map Part.node) (values.map Part.node)) ∧
        (∀ x ∈ targets, P x) ∧ ∀ x ∈ values, P x)
      (p.stores (targets.map F) (values.map F)) () := by
  have hSequential (hLength : targets.length = values.length) :
      Assignment.readAfterStore? (targets.map Part.node) (values.map Part.node) = none ↔
        Node.SequentialStores (targets.map Part.node) (values.map Part.node) :=
    Node.readAfterStore?_eq_none_iff (by rw [List.length_map, List.length_map, hLength])
  unfold Assignment.emit
  cases hRead : Assignment.readAfterStore? (targets.map Part.node) (values.map Part.node) with
  | none =>
    refine Adds.congr (Adds.unless _ _ (stores_adds h h')) ?_ (fun _ => rfl)
    by_cases hLength : targets.length = values.length
    · rw [Node.forall_mem_zip hLength]
      simp [hLength, (hSequential hLength).mp hRead]
    · simp [hLength]
  | some root =>
    refine Adds.congr (Adds.unless _ _ (Adds.of_refused fun d _ => ⟨_, d, rfl⟩)) ?_ (fun _ => rfl)
    have hNot : ¬ (targets.length = values.length ∧
        Node.SequentialStores (targets.map Part.node) (values.map Part.node)) := by
      rintro ⟨hLength, hStores⟩
      simp [(hSequential hLength).mpr hStores] at hRead
    simp [hNot]

-- ---------------------------------------------------------------------------
-- Functions
-- ---------------------------------------------------------------------------

theorem returnType_adds (returns : List String) (span : Span) :
    Adds (FunctionDef.returnType returns span) p (returns.length ≤ 1 ∧ ∀ type ∈ returns, KnownType type)
      (returns.flatMap typeNeeds) (resultSpelling returns) := by
  cases returns with
  | nil => exact (Adds.pure "void").congr (by simp) (fun _ => rfl)
  | cons type rest =>
    cases rest with
    | nil => exact (cType_adds type span).congr (by simp) (by simp)
    | cons other rest => exact (Adds.fail span .multipleReturns _ _).congr (by simp) (fun _ => rfl)

theorem param_adds (span : Span) (q : TypedName) :
    Adds (FunctionDef.param span q) p (∃ type, q.type = some type ∧ KnownType type) (typeNeeds (q.type.getD ""))
      (typeSpelling (q.type.getD "") ++ " " ++ Target.escapeName q.name) := by
  refine Adds.orFail ?_
  intro type hType
  rw [hType]
  exact Adds.congr ((cType_adds type span).bind fun _ => .pure _) (by simp) (by simp)

/-- The definition of a function is written on a page of its own. -/
theorem functionPage_adds (signature : String) (span : Span) (h : Adds x.emit p.inFunction ok as ()) :
    Adds (onOwnPage (writeLine (signature ++ " \x7b") >>= fun _ => onPage Page.indent >>= fun _ =>
        inScope .function span x.emit >>= fun _ => onPage Page.dedent >>= fun _ => writeLine "\x7d"))
      p ok (Addition.filed as) ((Page.blank p.width).write (Addition.functionText signature (Addition.pageText as))) := by
  have hInner := (Adds.writeLine (signature ++ " \x7b")).next ((h.inScope span).indentedThen (Adds.writeLine "\x7d"))
  have hOwn := hInner.onOwnPage (by simp [Addition.returned_not_mem_closed])
  have hText : Addition.pageText ([Addition.lineEnd (signature ++ " \x7b")] ++ (Addition.closed as ++ [Addition.lineEnd "\x7d"])) =
      Addition.functionText signature (Addition.pageText as) := by
    rw [Addition.pageText_append, Addition.pageText_append, Addition.pageText_closed]
    simp [Addition.functionText, Addition.onPage, String.append_assoc]
  rw [hText] at hOwn
  refine hOwn.congr (by simp) ?_
  intro _
  rw [Addition.filed_append, Addition.filed_append, Addition.filed_closed]
  simp [Addition.filed, Addition.isFiled]

theorem function_adds {visibility : Visibility} {name : String} {params : List TypedName} {returns : List String}
    {span : Span} (h : Adds x.emit p.inFunction ok as ()) :
    Adds (FunctionDef.emit visibility name params returns x span) p
      ((visibility = .scoped ∧ p.isTop = true ∧ returns.length ≤ 1 ∧ (∀ type ∈ returns, KnownType type) ∧
        ∀ q ∈ params, ∃ type, q.type = some type ∧ KnownType type) ∧ ok)
      (functionAdditions name params returns as) () := by
  have hResult := returnType_adds (p := p) returns span
  have hParams := Adds.mapM (l := params) (fun q _ => param_adds (p := p) span q)
  have hPage := functionPage_adds (functionSignature name params returns) span h
  have hMain : Adds (FunctionDef.returnType returns span >>= fun result =>
      params.mapM (FunctionDef.param span) >>= fun spelled =>
      note (.function name) >>= fun _ =>
      addTo .forwardDeclarations (Target.signature result (Target.escapeName name) spelled ++ ";\n") >>= fun _ =>
      onOwnPage (writeLine (Target.signature result (Target.escapeName name) spelled ++ " \x7b") >>= fun _ =>
        onPage Page.indent >>= fun _ => inScope .function span x.emit >>= fun _ => onPage Page.dedent >>= fun _ =>
        writeLine "\x7d") >>= fun page => addDefinition page.text) p
      (((returns.length ≤ 1 ∧ ∀ type ∈ returns, KnownType type) ∧
        (∀ q ∈ params, ∃ type, q.type = some type ∧ KnownType type) ∧ ok))
      (functionAdditions name params returns as) () := by
    have hDefinition : Adds (addDefinition ((Page.blank p.width).write (Addition.functionText
        (functionSignature name params returns) (Addition.pageText as))).text) p True
        [.function (functionSignature name params returns) (Addition.pageText as)] () := by
      rw [Page.write, show (Page.blank p.width).text = "" from rfl, String.empty_append]
      exact Adds.addFunction _ _
    refine Adds.congr (hResult.bind fun _ => hParams.bind fun _ => (Adds.note _).next ((Adds.addForward _).next
      (hPage.bind fun _ => hDefinition))) (by simp) ?_
    intro _
    simp [functionAdditions, functionSignature]
  have hNested := Adds.unless (c := (!p.isTop) = true) span .nestedFunctions hMain
  refine Adds.congr (Adds.unless _ _ (Adds.of_run_eq hNested ?_)) ?_ (fun _ => rfl)
  · rintro d ⟨-, rfl⟩
    rfl
  · have hVisible : ¬ visibility = .global ↔ visibility = .scoped := by cases visibility <;> simp
    rw [hVisible]
    simp [and_assoc]

/-- A function is refused anywhere but directly in the root block. -/
theorem function_refused {visibility : Visibility} {name : String} {params : List TypedName} {returns : List String}
    {span : Span} (h : p.isTop = false) :
    Adds (FunctionDef.emit visibility name params returns x span) p False as () := by
  refine Adds.congr (Adds.unless _ _ (Adds.of_refused (p := p) ?_)) (by simp) (fun _ => rfl)
  rintro d ⟨-, rfl⟩
  refine ⟨⟨span, .nestedFunctions⟩, d, ?_⟩
  have hTop : d.site.isTop = false := h
  show (if (!d.site.isTop) = true then _ else _ : Gen Unit) d = _
  rw [hTop]
  rfl

end Lowering
