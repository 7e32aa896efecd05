import Lowering.Proofs.Frame

/-!
# One tree, two registries

A tree is written with one registry and with another. As long as both have the same ways for the nodes that are met, the
two runs are one and the same; they part where the first registry has no way for a node, and there the first run stops.
`Follows` says this of two steps, and it goes through all constructs because these use their parts only to run them.

A run that has stopped must not take its fault back. Only a function could do that, by closing a scope after a fault in
its body when none is open. It never comes to this, since no step loses scopes on the way to the fault.

* `Gen.Follows` — a step does what another one does, or it stops with one of certain faults.
* `Node.visit_follows` — the writing of a tree with two registries.
-/

namespace Lowering

open Gen

namespace Gen

variable {α β : Type} {bad : Fault → Prop}

/-- The first step does what the second does, or it stops with a bad fault. Either way no scope is lost, unless the two
steps stop with another fault. -/
def Follows (bad : Fault → Prop) (act act' : Gen α) : Prop :=
  ∀ d : Draft, (act d = act' d ∧ ∀ a e, act d = .ok a e → d.site.depth ≤ e.site.depth) ∨
    ∃ fault e, act d = .error fault e ∧ bad fault ∧ d.site.depth ≤ e.site.depth

namespace Follows

-- ---------------------------------------------------------------------------
-- Putting steps together
-- ---------------------------------------------------------------------------

/-- A step follows itself if success loses no scope. -/
theorem refl {act : Gen α} (h : ∀ d a e, act d = .ok a e → d.site.depth ≤ e.site.depth) : Follows bad act act :=
  fun d => .inl ⟨rfl, h d⟩

theorem modify {f : Draft → Draft} (h : ∀ d : Draft, d.site.depth ≤ (f d).site.depth) :
    Follows bad (modify f : Gen Unit) (modify f) := by
  refine refl fun d a e hRun => ?_
  obtain rfl : f d = e := by
    injection hRun
  exact h d

theorem page (f : Page → Page) : Follows bad (onPage f) (onPage f) :=
  modify fun _ => Nat.le_refl _

theorem pure (a : α) : Follows bad (Pure.pure a) (Pure.pure a) := by
  refine refl fun d a' e hRun => ?_
  obtain ⟨-, rfl⟩ := EStateM.Result.ok.inj hRun
  exact Nat.le_refl _

theorem fail (span : Span) (cause : Cause) : Follows bad (fail span cause : Gen α) (fail span cause) :=
  refl fun _ _ _ hRun => by cases hRun

theorem bind {act act' : Gen α} {f f' : α → Gen β} (h : Follows bad act act') (h' : ∀ a, Follows bad (f a) (f' a)) :
    Follows bad (act >>= f) (act' >>= f') := by
  intro d
  rcases h d with ⟨hSame, hDepth⟩ | ⟨fault, e, hFault, hBad, hDepth⟩
  · rw [bind_apply, bind_apply, ← hSame]
    cases hRun : act d with
    | error fault e => exact .inl ⟨rfl, fun _ _ hOk => by cases hOk⟩
    | ok a e =>
      have hFirst := hDepth a e hRun
      rcases h' a e with ⟨hRest, hDepth'⟩ | ⟨fault, e', hFault, hBad, hDepth'⟩
      · exact .inl ⟨hRest, fun b e' hOk => Nat.le_trans hFirst (hDepth' b e' hOk)⟩
      · exact .inr ⟨fault, e', hFault, hBad, Nat.le_trans hFirst hDepth'⟩
  · refine .inr ⟨fault, e, ?_, hBad, hDepth⟩
    rw [bind_apply, hFault]

/-- A step that runs another one on a changed draft, and goes on with a fault of it. -/
theorem around {act act' : Gen α} {outer outer' : Gen β} (h : Follows bad act act') (before : Draft → Draft)
    (hSame : ∀ d, act (before d) = act' (before d) → outer d = outer' d)
    (hDone : ∀ d b e', outer d = .ok b e' → ∃ a e, act (before d) = .ok a e ∧
      ((before d).site.depth ≤ e.site.depth → d.site.depth ≤ e'.site.depth))
    (hFault : ∀ d fault e, act (before d) = .error fault e → (before d).site.depth ≤ e.site.depth →
      ∃ e', outer d = .error fault e' ∧ d.site.depth ≤ e'.site.depth) : Follows bad outer outer' := by
  intro d
  rcases h (before d) with ⟨hRun, hDepth⟩ | ⟨fault, e, hRun, hBad, hDepth⟩
  · refine .inl ⟨hSame d hRun, fun b e' hOk => ?_⟩
    obtain ⟨a, e, hAct, hLater⟩ := hDone d b e' hOk
    exact hLater (hDepth a e hAct)
  · obtain ⟨e', hOuter, hLater⟩ := hFault d fault e hRun hDepth
    exact .inr ⟨fault, e', hOuter, hBad, hLater⟩

/-- A step between two changes of the draft that leave scopes alone. -/
theorem between {act act' : Gen α} (h : Follows bad act act') {before after : Draft → Draft}
    (hBefore : ∀ d : Draft, (before d).site.depth = d.site.depth)
    (hAfter : ∀ d : Draft, (after d).site.depth = d.site.depth) :
    Follows bad (Gen.between before after act) (Gen.between before after act') := by
  refine h.around before (fun d hRun => ?_) (fun d b e' hOk => ?_) (fun d fault e hRun hDepth => ?_)
  · rw [Gen.between, Gen.between, hRun]
  · rw [Gen.between] at hOk
    cases hRun : act (before d) with
    | error fault e =>
      rw [hRun] at hOk
      cases hOk
    | ok a e =>
      rw [hRun] at hOk
      obtain ⟨-, rfl⟩ := EStateM.Result.ok.inj hOk
      exact ⟨a, e, rfl, by rw [hAfter, hBefore]; exact id⟩
  · rw [hBefore] at hDepth
    exact ⟨after e, by rw [Gen.between, hRun], by rwa [hAfter]⟩

theorem indented {act act' : Gen Unit} (h : Follows bad act act') : Follows bad (indented act) (indented act') :=
  h.between (fun _ => rfl) fun _ => rfl

theorem below {act act' : Gen Unit} (h : Follows bad act act') (tag : Tag) :
    Follows bad (below tag act) (below tag act') :=
  h.between (fun _ => rfl) fun _ => rfl

theorem onOwnPage {act act' : Gen Unit} (h : Follows bad act act') : Follows bad (onOwnPage act) (onOwnPage act') := by
  refine h.around (fun d => { d with page := Page.blank d.width }) (fun d hRun => ?_) (fun d b e' hOk => ?_)
    (fun d fault e hRun hDepth => ?_)
  · rw [Gen.onOwnPage, Gen.onOwnPage, hRun]
  · rw [Gen.onOwnPage] at hOk
    cases hRun : act { d with page := Page.blank d.width } with
    | error fault e =>
      rw [hRun] at hOk
      cases hOk
    | ok a e =>
      rw [hRun] at hOk
      obtain ⟨-, rfl⟩ := EStateM.Result.ok.inj hOk
      exact ⟨a, e, rfl, id⟩
  · exact ⟨{ e with page := d.page }, by rw [Gen.onOwnPage, hRun], hDepth⟩

theorem forM {γ δ : Type} {f : γ → Gen Unit} {g g' : δ → γ} {l : List δ}
    (h : ∀ x ∈ l, Follows bad (f (g x)) (f (g' x))) : Follows bad ((l.map g).forM f) ((l.map g').forM f) := by
  induction l with
  | nil => exact pure ()
  | cons x rest ih =>
    exact (h x (List.mem_cons_self ..)).bind fun _ => ih fun y hy => h y (List.mem_cons_of_mem _ hy)

theorem refuseIf {c : Prop} [Decidable c] {span : Span} {cause : Cause} {rest rest' : Gen α} (h : Follows bad rest rest') :
    Follows bad (if c then Gen.fail span cause >>= fun _ : Unit => rest else rest)
      (if c then Gen.fail span cause >>= fun _ : Unit => rest' else rest') := by
  split
  · exact (fail span cause).bind fun _ => h
  · exact h

-- ---------------------------------------------------------------------------
-- Scopes
-- ---------------------------------------------------------------------------

/-- Where more scopes are open than before, one of them can be closed. -/
theorem closeScope_of_lt {d e : Draft} (h : d.site.depth < e.site.depth) (span : Span) :
    ∃ c e', closeScope span e = .ok c e' ∧ d.site.depth ≤ e'.site.depth := by
  cases hScopes : e.site.scopes with
  | nil => simp [Site.depth, hScopes] at h
  | cons c cs =>
    have hSite : e.site = (⟨e.site.lineage, cs⟩ : Site).enter c := by rw [Site.enter, ← hScopes]
    rw [closeScope_apply span e hSite]
    refine ⟨c, _, rfl, ?_⟩
    have hLength : e.site.depth = cs.length + 1 := by rw [Site.depth, hScopes, List.length_cons]
    rw [hLength] at h
    exact Nat.le_of_lt_succ h

/-- A scope around a step, which stays open if the step fails. -/
theorem inOpened {act act' : Gen Unit} (h : Follows bad act act') (c : Scope) (span : Span) :
    Follows bad (openScope c >>= fun _ => act >>= fun _ => closeScope span >>= fun _ => Pure.pure ())
      (openScope c >>= fun _ => act' >>= fun _ => closeScope span >>= fun _ => Pure.pure ()) := by
  have hOpen : ∀ (act : Gen Unit) (d : Draft),
      (openScope c >>= fun _ => act >>= fun _ => closeScope span >>= fun _ => Pure.pure () : Gen Unit) d =
        (act >>= fun _ => closeScope span >>= fun _ => Pure.pure () : Gen Unit) { d with site := d.site.enter c } :=
    fun _ _ => rfl
  refine h.around (fun d => { d with site := d.site.enter c }) (fun d hRun => ?_) (fun d b e' hOk => ?_)
    (fun d fault e hRun hDepth => ?_)
  · rw [hOpen, hOpen, bind_apply, bind_apply, hRun]
  · rw [hOpen, bind_apply] at hOk
    cases hRun : act { d with site := d.site.enter c } with
    | error fault e =>
      rw [hRun] at hOk
      cases hOk
    | ok a e =>
      refine ⟨a, e, rfl, fun hDepth => ?_⟩
      obtain ⟨c', left, hClose, hLeft⟩ := closeScope_of_lt hDepth span
      rw [hRun] at hOk
      dsimp only at hOk
      rw [bind_apply, hClose] at hOk
      obtain ⟨-, rfl⟩ := EStateM.Result.ok.inj hOk
      exact hLeft
  · exact ⟨e, by rw [hOpen, bind_apply, hRun], Nat.le_of_succ_le hDepth⟩

/-- A scope around a step, which is closed in any case. The fault of the step is not replaced by another one. -/
theorem inScope {act act' : Gen Unit} (h : Follows bad act act') (c : Scope) (span : Span) :
    Follows bad (inScope c span act) (inScope c span act') := by
  have hOpen : ∀ (act : Gen Unit) (d : Draft),
      Gen.inScope c span act d = andFinally act (closeScope span) { d with site := d.site.enter c } := fun _ _ => rfl
  refine h.around (fun d => { d with site := d.site.enter c }) (fun d hRun => ?_) (fun d b e' hOk => ?_)
    (fun d fault e hRun hDepth => ?_)
  · rw [hOpen, hOpen, andFinally, andFinally, hRun]
  · rw [hOpen, andFinally] at hOk
    cases hRun : act { d with site := d.site.enter c } with
    | error fault e =>
      rw [hRun] at hOk
      dsimp only at hOk
      split at hOk <;> cases hOk
    | ok a e =>
      refine ⟨a, e, rfl, fun hDepth => ?_⟩
      obtain ⟨c', left, hClose, hLeft⟩ := closeScope_of_lt hDepth span
      rw [hRun] at hOk
      dsimp only at hOk
      rw [hClose] at hOk
      obtain ⟨-, rfl⟩ := EStateM.Result.ok.inj hOk
      exact hLeft
  · obtain ⟨c', left, hClose, hLeft⟩ := closeScope_of_lt hDepth span
    refine ⟨left, ?_, hLeft⟩
    rw [hOpen, andFinally, hRun]
    dsimp only
    rw [hClose]

end Follows

end Gen

/-- A step that goes through no node follows itself. -/
theorem Walks.follows {α : Type} {bad : Fault → Prop} {act : Gen α} (h : Walks .empty [] act) : Follows bad act act := by
  refine .refl fun d a e hRun => ?_
  have hKept := h.keeps_of_nil d
  rw [hRun] at hKept
  rcases hKept.site with hSite | hSite
  · exact Nat.le_of_eq (congrArg Site.depth hSite).symm
  · rw [hSite]
    rcases d.site with ⟨lineage, _ | ⟨c, cs⟩⟩ <;> exact Nat.le_refl _

/-- The writing of the node with the first registry follows that with the second. -/
def Node.Alike (bad : Fault → Prop) (r r' : Registry) (n : Node) : Prop :=
  Follows bad (visit r n) (visit r' n)

namespace Gen.Follows

variable {bad : Fault → Prop} {r r' : Registry} {a b c : Node} {ns : List Node}

theorem write (s : String) : Follows bad (write s) (write s) :=
  page _

theorem writeLine (s : String) : Follows bad (writeLine s) (writeLine s) :=
  page _

theorem writeIndent : Follows bad writeIndent writeIndent :=
  page _

theorem writeIndentedLine (s : String) : Follows bad (writeIndentedLine s) (writeIndentedLine s) :=
  page _

theorem guarded (before after : String) (h : a.Alike bad r r') :
    Follows bad (guarded before (r.part a) after) (guarded before (r'.part a) after) :=
  writeIndent.bind fun _ => (write before).bind fun _ => h.bind fun _ => writeLine after

-- ---------------------------------------------------------------------------
-- Expressions
-- ---------------------------------------------------------------------------

theorem paren (h : a.Alike bad r r') : Follows bad (Expression.paren (r.part a)) (Expression.paren (r'.part a)) :=
  (write "(").bind fun _ => h.bind fun _ => write ")"

theorem field (name : String) (h : a.Alike bad r r') :
    Follows bad (Expression.field (r.part a) name) (Expression.field (r'.part a) name) :=
  h.bind fun _ => write _

theorem element (h : a.Alike bad r r') (h' : b.Alike bad r r') :
    Follows bad (Expression.element (r.part a) (r.part b)) (Expression.element (r'.part a) (r'.part b)) :=
  h.bind fun _ => (write "[").bind fun _ => h'.bind fun _ => write "]"

theorem commaList (h : ∀ n ∈ ns, n.Alike bad r r') :
    Follows bad (commaList (ns.map r.part)) (commaList (ns.map r'.part)) := by
  induction ns with
  | nil => exact pure ()
  | cons n rest ih =>
    obtain ⟨hFirst, hRest⟩ := List.forall_mem_cons.mp h
    cases rest with
    | nil => exact hFirst
    | cons m rest => exact Follows.bind hFirst fun _ => (write ", ").bind fun _ => ih hRest

theorem print (span : Span) (h : ∀ n ∈ ns, n.Alike bad r r') :
    Follows bad (Print.call span (ns.map r.part)) (Print.call span (ns.map r'.part)) := by
  have hNodes : (ns.map r.part).map Part.node = (ns.map r'.part).map Part.node := by
    rw [List.map_map, List.map_map]
    rfl
  unfold Print.call
  rw [hNodes]
  refine (Walks.symbol _ span).follows.bind fun _ => (Walks.slots span 1 _).follows.bind fun ss => ?_
  refine (Walks.header _).follows.bind fun _ => (Walks.forward _).follows.bind fun _ => ?_
  refine (refl fun d _ e hRun => ?_).bind fun d => (Walks.definition _).follows.bind fun _ => ?_
  · obtain ⟨-, rfl⟩ := EStateM.Result.ok.inj hRun
    exact Nat.le_refl _
  · exact (write _).bind fun _ => (commaList h).bind fun _ => write ")"

theorem call (span : Span) (h : a.Alike bad r r') (h' : ∀ n ∈ ns, n.Alike bad r r') :
    Follows bad (Expression.call (r.part a) (ns.map r.part) span) (Expression.call (r'.part a) (ns.map r'.part) span) := by
  unfold Expression.call
  have hNode : (r.part a).node = (r'.part a).node := rfl
  rw [hNode]
  cases Expression.intrinsic? (r'.part a).node with
  | none => exact Follows.bind h fun _ => (write "(").bind fun _ => (commaList h').bind fun _ => write ")"
  | some intrinsic =>
    cases intrinsic
    exact (Walks.note rfl rfl).follows.bind fun _ => print span h'

theorem operator {act act' : Gen Unit} (h : Follows bad act act') :
    Follows bad (Expression.operator act) (Expression.operator act') := by
  refine Walks.site.follows.bind fun s => ?_
  split
  · exact (write "(").bind fun _ => h.bind fun _ => write ")"
  · exact h

theorem spelled {κ μ : Type} {known : Option κ} {spelling? : κ → Option μ} {span : Span} {unknown unwritable : Cause}
    {f f' : μ → Gen Unit} (hUnknown : unknown ≠ .unpairedScope) (hUnwritable : unwritable ≠ .unpairedScope)
    (h : ∀ mark, Follows bad (f mark) (f' mark)) :
    Follows bad (orFail known span unknown >>= fun op => orFail (spelling? op) span unwritable >>= f)
      (orFail known span unknown >>= fun op => orFail (spelling? op) span unwritable >>= f') :=
  (Walks.orFail known span hUnknown).follows.bind fun op => (Walks.orFail (spelling? op) span hUnwritable).follows.bind h

theorem unary (op : String) (span : Span) (h : a.Alike bad r r') :
    Follows bad (Expression.unary op (r.part a) span) (Expression.unary op (r'.part a) span) :=
  spelled (by simp) (by simp) fun mark => operator ((write mark).bind fun _ => h)

theorem binary (op : String) (span : Span) (h : a.Alike bad r r') (h' : b.Alike bad r r') :
    Follows bad (Expression.binary op (r.part a) (r.part b) span) (Expression.binary op (r'.part a) (r'.part b) span) :=
  spelled (by simp) (by simp) fun _ => operator (Follows.bind h fun _ => (write _).bind fun _ => h')

theorem ternary (op : String) (span : Span) (h : a.Alike bad r r') (h' : b.Alike bad r r') (h'' : c.Alike bad r r') :
    Follows bad (Expression.ternary op (r.part a) (r.part b) (r.part c) span)
      (Expression.ternary op (r'.part a) (r'.part b) (r'.part c) span) :=
  spelled (by simp) (by simp) fun _ => operator (Follows.bind h' fun _ => (write _).bind fun _ =>
    Follows.bind h fun _ => (write _).bind fun _ => h'')

-- ---------------------------------------------------------------------------
-- Statements
-- ---------------------------------------------------------------------------

theorem braced (h : a.Alike bad r r') : Follows bad (Block.braced (r.part a)) (Block.braced (r'.part a)) :=
  (writeIndentedLine _).bind fun _ => (Follows.indented h).bind fun _ => writeIndentedLine _

theorem statement (h : a.Alike bad r r') : Follows bad (Block.statement (r.part a)) (Block.statement (r'.part a)) := by
  have hNode : (r.part a).node = (r'.part a).node := rfl
  unfold Block.statement
  rw [hNode]
  split
  · exact writeIndent.bind fun _ => Follows.bind h fun _ => writeLine ";"
  · split
    · exact braced h
    · exact h

theorem block (span : Span) (h : ∀ n ∈ ns, n.Alike bad r r') :
    Follows bad (Block.emit (ns.map r.part) span) (Block.emit (ns.map r'.part) span) := by
  have hBlock : ∀ scope : Scope,
      Follows bad (Block.scopedBlock scope (ns.map r.part) span) (Block.scopedBlock scope (ns.map r'.part) span) := by
    intro scope
    have hInner := ((forM (f := Block.statement) fun n hn => statement (h n hn)).bind fun _ =>
      Walks.endMain.follows).inOpened scope span
    simp only [bind_assoc] at hInner
    exact hInner
  refine Walks.site.follows.bind fun s => ?_
  split
  · exact (writeLine _).bind fun _ => (page _).bind fun _ => (hBlock .top).bind fun _ => (page _).bind fun _ => writeLine _
  · exact hBlock .nested

theorem branch (before : String) {arm : Arm Node} (h : arm.guard.Alike bad r r' ∧ arm.body.Alike bad r r') :
    Follows bad (Branch.branch before (Walks.armPart r arm)) (Branch.branch before (Walks.armPart r' arm)) :=
  (guarded before _ h.1).bind fun _ => Follows.indented h.2

theorem cond (arms : List (Arm Node)) (otherwise : Option Node) (span : Span)
    (hArms : ∀ arm ∈ arms, arm.guard.Alike bad r r' ∧ arm.body.Alike bad r r')
    (hOtherwise : ∀ n ∈ otherwise, n.Alike bad r r') :
    Follows bad (Branch.cond (arms.map (Walks.armPart r)) (otherwise.map r.part) span)
      (Branch.cond (arms.map (Walks.armPart r')) (otherwise.map r'.part) span) := by
  cases arms with
  | nil => exact fail span _
  | cons arm rest =>
    obtain ⟨hFirst, hRest⟩ := List.forall_mem_cons.mp hArms
    refine (branch "if (" hFirst).bind fun _ => (forM fun arm hArm => branch _ (hRest arm hArm)).bind fun _ => ?_
    cases otherwise with
    | none => exact writeIndentedLine _
    | some body =>
      exact (writeIndentedLine _).bind fun _ => (Follows.indented (hOtherwise body rfl)).bind fun _ => writeIndentedLine _

theorem armBody (h : a.Alike bad r r') : Follows bad (Branch.armBody (r.part a)) (Branch.armBody (r'.part a)) :=
  (Follows.indented h).bind fun _ => (writeIndentedLine _).indented.bind fun _ => writeIndentedLine _

theorem switch (arms : List (Arm Node)) (otherwise : Option Node) (h : a.Alike bad r r')
    (hArms : ∀ arm ∈ arms, arm.guard.Alike bad r r' ∧ arm.body.Alike bad r r')
    (hOtherwise : ∀ n ∈ otherwise, n.Alike bad r r') :
    Follows bad (Branch.switch (r.part a) (arms.map (Walks.armPart r)) (otherwise.map r.part))
      (Branch.switch (r'.part a) (arms.map (Walks.armPart r')) (otherwise.map r'.part)) := by
  have hClose : Follows bad (onPage Page.dedent >>= fun _ => Gen.writeIndentedLine "\x7d")
      (onPage Page.dedent >>= fun _ => Gen.writeIndentedLine "\x7d") := (page _).bind fun _ => writeIndentedLine _
  refine (guarded _ _ h).bind fun _ => (page _).bind fun _ => (forM fun arm hArm => ?_).bind fun _ => ?_
  · exact (guarded _ _ (hArms arm hArm).1).bind fun _ => armBody (hArms arm hArm).2
  · cases otherwise with
    | none => exact hClose
    | some body => exact (writeIndentedLine _).bind fun _ => (armBody (hOtherwise body rfl)).bind fun _ => hClose

theorem whileLoop (h : a.Alike bad r r') (h' : b.Alike bad r r') :
    Follows bad (Loop.whileLoop (r.part a) (r.part b)) (Loop.whileLoop (r'.part a) (r'.part b)) :=
  (guarded _ _ h).bind fun _ => (Follows.indented h').bind fun _ => writeIndentedLine _

theorem repeatLoop (h : a.Alike bad r r') (h' : b.Alike bad r r') :
    Follows bad (Loop.repeatLoop (r.part a) (r.part b)) (Loop.repeatLoop (r'.part a) (r'.part b)) :=
  (writeIndentedLine _).bind fun _ => (Follows.indented h).bind fun _ => guarded _ _ h'

theorem declarator (name : String) (h : a.Alike bad r r') :
    Follows bad (Loop.declarator name (r.part a)) (Loop.declarator name (r'.part a)) :=
  (write _).bind fun _ => h

theorem stepPart (name : String) (step : Option Node) (h : ∀ n ∈ step, n.Alike bad r r') :
    Follows bad (Loop.stepPart name (step.map r.part)) (Loop.stepPart name (step.map r'.part)) := by
  cases step with
  | none => exact pure _
  | some n => exact (declarator _ (h n rfl)).bind fun _ => pure _

theorem forNum (var : TypedName) (comparator : Option String) (step : Option Node) (span : Span) (h : a.Alike bad r r')
    (h' : b.Alike bad r r') (hStep : ∀ n ∈ step, n.Alike bad r r') (h'' : c.Alike bad r r') :
    Follows bad (Loop.forNum var (r.part a) comparator (r.part b) (step.map r.part) (r.part c) span)
      (Loop.forNum var (r'.part a) comparator (r'.part b) (step.map r'.part) (r'.part c) span) := by
  have hHeader : ∀ type name : String,
      Follows bad (Loop.header type name (r.part a) (r.part b) (step.map r.part))
        (Loop.header type name (r'.part a) (r'.part b) (step.map r'.part)) := fun type name =>
    writeIndent.bind fun _ => (write _).bind fun _ => Follows.bind h fun _ => (declarator _ h').bind fun _ =>
      (stepPart name step hStep).bind fun _ => (write _).bind fun _ => (write _).bind fun _ => writeLine _
  have hLoop : Follows bad _ _ := (Walks.varType var a span).follows.bind fun type =>
    (hHeader type (Target.escapeName var.name)).bind fun _ => (Follows.indented h'').bind fun _ => writeIndentedLine "\x7d"
  unfold Loop.forNum
  cases comparator.filter (fun c => !Loop.isInclusive c) with
  | none => exact hLoop
  | some found => exact (fail span _).bind fun _ : Unit => hLoop

theorem ret (span : Span) (h : ∀ n ∈ ns, n.Alike bad r r') :
    Follows bad (Jump.ret (ns.map r.part) span) (Jump.ret (ns.map r'.part) span) := by
  rcases ns with _ | ⟨value, _ | ⟨second, rest⟩⟩
  · exact (Walks.ret [] span).follows
  · exact writeIndent.bind fun _ => (write _).bind fun _ => Follows.bind (h value (List.mem_cons_self ..)) fun _ =>
      (writeLine _).bind fun _ => Walks.markReturn.follows
  · exact writeIndent.bind fun _ => (fail span _).bind fun _ => Walks.markReturn.follows

theorem declareVariables (qualifier : String) (span : Span) (vars : List TypedName) (h : ∀ n ∈ ns, n.Alike bad r r') :
    Follows bad (Declaration.declareVariables qualifier span vars (ns.map r.part))
      (Declaration.declareVariables qualifier span vars (ns.map r'.part)) := by
  induction vars generalizing ns with
  | nil => exact pure ()
  | cons var vars ih =>
    cases ns with
    | nil => exact (Walks.declareVariable qualifier span var none).follows.bind fun _ => ih h
    | cons n rest =>
      obtain ⟨hFirst, hRest⟩ := List.forall_mem_cons.mp h
      have hVariable : Follows bad (Declaration.declareVariable qualifier span var (some (r.part n)))
          (Declaration.declareVariable qualifier span var (some (r'.part n))) :=
        (Walks.variableType var (some n) span).follows.bind fun _ => writeIndent.bind fun _ => (write _).bind fun _ =>
          Follows.bind hFirst fun _ => writeLine _
      exact hVariable.bind fun _ => ih hRest

theorem declaration (visibility : Visibility) (mutability : Mutability) (vars : List TypedName) (span : Span)
    (h : ∀ n ∈ ns, n.Alike bad r r') :
    Follows bad (Declaration.emit visibility mutability vars (ns.map r.part) span)
      (Declaration.emit visibility mutability vars (ns.map r'.part) span) := by
  have hLength : (ns.map r.part).length = (ns.map r'.part).length := by simp
  have hEmpty : (ns.map r.part).isEmpty = (ns.map r'.part).isEmpty := by cases ns <;> rfl
  unfold Declaration.emit
  rw [hLength, hEmpty]
  exact refuseIf ((Walks.orFail _ span (by simp)).follows.bind fun qualifier =>
    refuseIf (declareVariables qualifier span vars h))

theorem stores {targets values : List Node} (hTargets : ∀ n ∈ targets, n.Alike bad r r')
    (hValues : ∀ n ∈ values, n.Alike bad r r') :
    Follows bad (Assignment.stores (targets.map r.part) (values.map r.part))
      (Assignment.stores (targets.map r'.part) (values.map r'.part)) := by
  induction targets generalizing values with
  | nil => exact pure ()
  | cons target targets ih =>
    cases values with
    | nil => exact pure ()
    | cons value values =>
      obtain ⟨hTarget, hTargets⟩ := List.forall_mem_cons.mp hTargets
      obtain ⟨hValue, hValues⟩ := List.forall_mem_cons.mp hValues
      have hStore : Follows bad (Assignment.store (r.part target) (r.part value))
          (Assignment.store (r'.part target) (r'.part value)) :=
        writeIndent.bind fun _ => Follows.bind hTarget fun _ => (write _).bind fun _ => Follows.bind hValue fun _ =>
          writeLine _
      exact hStore.bind fun _ => ih hTargets hValues

theorem assignment {targets values : List Node} (span : Span) (hTargets : ∀ n ∈ targets, n.Alike bad r r')
    (hValues : ∀ n ∈ values, n.Alike bad r r') :
    Follows bad (Assignment.emit (targets.map r.part) (values.map r.part) span)
      (Assignment.emit (targets.map r'.part) (values.map r'.part) span) := by
  have hNodes : ∀ ns : List Node, (ns.map r.part).map Part.node = (ns.map r'.part).map Part.node := by
    intro ns
    rw [List.map_map, List.map_map]
    rfl
  have hLength : ∀ ns : List Node, (ns.map r.part).length = (ns.map r'.part).length := by simp
  unfold Assignment.emit
  rw [hLength, hLength, hNodes, hNodes]
  refine refuseIf ?_
  split
  · exact (fail span _).bind fun _ : Unit => stores hTargets hValues
  · exact stores hTargets hValues

theorem function (visibility : Visibility) (name : String) (params : List TypedName) (returns : List String) (span : Span)
    (h : a.Alike bad r r') :
    Follows bad (FunctionDef.emit visibility name params returns (r.part a) span)
      (FunctionDef.emit visibility name params returns (r'.part a) span) := by
  refine refuseIf (Walks.site.follows.bind fun s => refuseIf ?_)
  refine (Walks.returnType returns span).follows.bind fun result => ?_
  refine (Walks.mapM fun p _ => Walks.param span p).follows.bind fun spelled => ?_
  refine (Walks.note rfl rfl).follows.bind fun _ => (Walks.forward _).follows.bind fun _ => ?_
  refine Follows.bind (onOwnPage ?_) fun page => (Walks.definition page.text).follows
  exact (writeLine _).bind fun _ => (page _).bind fun _ => (Follows.inScope h .function span).bind fun _ =>
    (page _).bind fun _ => writeLine _

end Gen.Follows

-- ---------------------------------------------------------------------------
-- Nodes
-- ---------------------------------------------------------------------------

variable {bad : Fault → Prop} {r r' : Registry}

/-- Both registries have the same way for the node, or the first has none and the fault of this is a bad one. -/
def Node.Served (bad : Fault → Prop) (r r' : Registry) (n : Node) : Prop :=
  r.find? n.tag = r'.find? n.tag ∨ r.find? n.tag = none ∧ bad ⟨n.span, .unregistered n.tag⟩

theorem dispatch_follows {n : Node} {own own' : Gen Unit} (hServed : n.Served bad r r') (h : Follows bad own own') :
    Follows bad (dispatch r n own) (dispatch r' n own') := by
  unfold dispatch
  rcases hServed with hFind | ⟨hFind, hBad⟩
  · rw [hFind]
    cases r'.find? n.tag with
    | none => exact .fail n.span _
    | some handler =>
      refine Follows.bind (.modify fun _ => Nat.le_refl _) fun _ => Follows.below ?_ n.tag
      unfold Handler.run
      cases handler with
      | standard tag =>
        dsimp only
        split
        · exact h
        · exact (Walks.mismatch tag n).follows
      | rule act =>
        refine .refl fun d a e hRun => ?_
        dsimp only at hRun
        split at hRun
        · obtain ⟨-, rfl⟩ := EStateM.Result.ok.inj hRun
          exact Nat.le_refl _
        · cases hRun
  · rw [hFind]
    exact fun d => .inr ⟨_, d, rfl, hBad, Nat.le_refl _⟩

/-- A tree with a registry that serves each of its nodes as another one does, or not at all. -/
theorem Node.visit_follows {n : Node} (h : ∀ m ∈ n.nodes, m.Served bad r r') : n.Alike bad r r' := by
  induction n using childInduction with
  | step n ih =>
    obtain ⟨hServed, hBelow⟩ := forall_mem_nodes.mp h
    have hChild : ∀ c ∈ n.children, c.Alike bad r r' := fun c hc => ih c hc (hBelow c hc)
    unfold Alike
    cases n <;> rw [visit, visit] <;> refine dispatch_follows hServed ?_
    case number form suffix span => exact (Walks.number form suffix span).follows
    case string value span => exact (Walks.string value span).follows
    case boolean value span => exact (Walks.boolean value).follows
    case nil span => exact Walks.null.follows
    case varargs span => exact .fail span _
    case id name span => exact .write _
    case paren inner span => exact .paren (hChild inner (by simp [children]))
    case dotIndex base field span => exact .field field (hChild base (by simp [children]))
    case arrayIndex base index span =>
      exact .element (hChild base (by simp [children])) (hChild index (by simp [children]))
    case call callee args span =>
      obtain ⟨hCallee, hArgs⟩ := List.forall_mem_cons.mp hChild
      rw [visitAll_eq_map, visitAll_eq_map]
      exact .call span hCallee hArgs
    case unaryOp op operand span => exact .unary op span (hChild operand (by simp [children]))
    case binaryOp op lhs rhs span =>
      exact .binary op span (hChild lhs (by simp [children])) (hChild rhs (by simp [children]))
    case ternaryOp op first second third span =>
      exact .ternary op span (hChild first (by simp [children])) (hChild second (by simp [children]))
        (hChild third (by simp [children]))
    case block statements span =>
      rw [visitAll_eq_map, visitAll_eq_map]
      exact .block span hChild
    case ret values span =>
      rw [visitAll_eq_map, visitAll_eq_map]
      exact .ret span hChild
    case cond branches otherwise span =>
      obtain ⟨hArms, hOtherwise⟩ := forall_mem_arms_append.mp hChild
      rw [visitArms_eq_map, visitArms_eq_map, visitOption_eq_map, visitOption_eq_map]
      exact .cond branches otherwise span hArms hOtherwise
    case switch subject cases otherwise span =>
      obtain ⟨hSubject, hRest⟩ := List.forall_mem_cons.mp hChild
      obtain ⟨hArms, hOtherwise⟩ := forall_mem_arms_append.mp hRest
      rw [visitArms_eq_map, visitArms_eq_map, visitOption_eq_map, visitOption_eq_map]
      exact .switch cases otherwise hSubject hArms hOtherwise
    case «scoped» body span => exact .braced (hChild body (by simp [children]))
    case whileLoop guard body span =>
      exact .whileLoop (hChild guard (by simp [children])) (hChild body (by simp [children]))
    case repeatLoop body guard span =>
      exact .repeatLoop (hChild body (by simp [children])) (hChild guard (by simp [children]))
    case forNum var first comparator last step body span =>
      rw [visitOption_eq_map, visitOption_eq_map]
      exact .forNum var comparator step span (hChild first (by simp [children])) (hChild last (by simp [children]))
        (fun n hn => hChild n (by simp [children, Option.mem_def.mp hn])) (hChild body (by simp [children]))
    case forIn vars exprs body span => exact .fail span _
    case breakLoop span => exact .writeIndentedLine _
    case continueLoop span => exact .writeIndentedLine _
    case label name span => exact .writeIndentedLine _
    case goto target span => exact .writeIndentedLine _
    case varDecl visibility mutability vars values span =>
      rw [visitAll_eq_map, visitAll_eq_map]
      exact .declaration visibility mutability vars span hChild
    case assign targets values span =>
      rw [visitAll_eq_map, visitAll_eq_map, visitAll_eq_map, visitAll_eq_map]
      exact .assignment span (fun t ht => hChild t (mem_alternate.mpr (.inl ht)))
        (fun v hv => hChild v (mem_alternate.mpr (.inr hv)))
    case funcDef visibility name params returns body span =>
      exact .function visibility name params returns span (hChild body (by simp [children]))

end Lowering
