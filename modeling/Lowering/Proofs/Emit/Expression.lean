import Lowering.Proofs.Draft.Adds
import Lowering.Proofs.Emit.Additions
import Lowering.Proofs.Tree.Lowerable

/-!
# What expressions add

For each way of writing an expression, when it succeeds and what it adds, given the same of its parts. A literal whose
type is asked for is looked at twice, once for the type and once to be written; `Node.Resolvable` is what the first look
needs, and the second look needs no less.
-/

namespace Lowering

open Gen

variable {p : Place} {ok ok' ok'' : Prop} {as bs cs : List Addition}

-- ---------------------------------------------------------------------------
-- Types
-- ---------------------------------------------------------------------------

theorem mem_of_find? {table : Target.TypeTable} {name : String} {type : Target.CType} (h : table.find? name = some type) :
    (name, type) ∈ table := by
  obtain ⟨before, after, hTable, -⟩ := List.lookup_eq_some_iff.mp h
  rw [hTable]
  simp

/-- The support code that the type table asks for exists. -/
theorem support_known {name support : String} {type : Target.CType} (h : Target.primitiveTypes.find? name = some type)
    (hSupport : type.support = some support) : ∃ s, Support.ofName? support = some s := by
  have hAll : ∀ e ∈ Target.primitiveTypes, ∀ s ∈ e.2.support, (Support.ofName? s).isSome = true := by decide
  exact Option.isSome_iff_exists.mp (hAll _ (mem_of_find? h) support hSupport)

/-- A C type can be had for the names of the table. -/
theorem cType_adds (name : String) (span : Span) :
    Adds (cType name span) p (KnownType name) (typeNeeds name) (typeSpelling name) := by
  have hRun : ∀ d : Draft, d.At p → cType name span d =
      (orFail (Target.primitiveTypes.find? name) span (.unknownType name) >>= fun t =>
        t.header.elim (t.support.elim (pure t.spelling) fun s => needSupportNamed s span >>= fun _ => pure t.spelling)
          fun header => needHeader header >>= fun _ =>
            t.support.elim (pure t.spelling) fun s => needSupportNamed s span >>= fun _ => pure t.spelling) d := by
    intro d hAt
    rw [← hAt.types]
    refine congrArg (fun f : Target.CType → Gen String => (orFail (d.types.find? name) span _ >>= f) d) ?_
    funext t
    cases t.header <;> cases t.support <;> rfl
  refine Adds.of_run_eq ?_ hRun
  have hNamed : ∀ t : Target.CType, Target.primitiveTypes.find? name = some t → ∀ support, t.support = some support →
      Adds (needSupportNamed support span) p True ((Support.ofName? support).elim [] (fun s => [.support s])) () := by
    intro t hFind support hSupport
    obtain ⟨s, hs⟩ := support_known hFind hSupport
    refine (Adds.orFail (P := fun _ => True) ?_).congr (by simp [hs]) (fun _ => rfl)
    intro s' hs'
    rw [hs']
    exact .needSupport s'
  refine (Adds.orFail (P := fun _ => True) ?_).congr ?_ (fun _ => rfl)
  · intro t hFind
    have hNeeds : typeNeeds name = t.header.elim [] (fun header => [Addition.header header])
        ++ (t.support.elim [] (fun support => (Support.ofName? support).elim [] (fun s => [Addition.support s]))) := by
      rw [typeNeeds, hFind]
    have hSpelling : typeSpelling name = t.spelling := by
      rw [typeSpelling, hFind]
      rfl
    rw [hNeeds, hSpelling]
    have hSupport := Adds.optional (P := fun _ => True) (hNamed t hFind) (Adds.pure (p := p) t.spelling)
    have hHeader := Adds.optional (o := t.header) (P := fun _ => True) (fun header _ => Adds.needHeader header) hSupport
    refine hHeader.congr ?_ ?_
    · simp
    · simp
  · rw [KnownType, Option.isSome_iff_exists]
    simp

-- ---------------------------------------------------------------------------
-- Literals
-- ---------------------------------------------------------------------------

/-- A number can be resolved if its digits can be spelled and its suffix is known. -/
theorem resolveNumber_ok_iff (form : NumberForm) (suffix : Option String) :
    (∃ n, resolveNumber form suffix = .ok n) ↔
      form.Spellable ∧ ∀ s, suffix = some s → (Numeric.ofSuffix? s).isSome := by
  rw [← NumberForm.spelling_ok_iff]
  unfold resolveNumber
  cases form.spelling with
  | error cause => simp [bind, Except.bind]
  | ok text =>
    cases suffix with
    | none => simp [bind, Except.bind, pure, Except.pure]
    | some s =>
      cases hSuffix : Numeric.ofSuffix? s with
      | none => simp [bind, Except.bind, throw, throwThe, MonadExceptOf.throw, hSuffix]
      | some type => simp [bind, Except.bind, pure, Except.pure, hSuffix]

/-- Every numeric type is in the type table. -/
theorem knownType_numeric (t : Numeric) : KnownType t.name := by
  rcases t with w | w | q
  · cases w <;> decide
  · cases w <;> decide
  · cases q <;> decide

/-- A number that resolves, before anything else is done with it. -/
theorem resolve_adds {α : Type} {form : NumberForm} {suffix : Option String} {span : Span}
    {f : ResolvedNumber → Gen α} {a : α} (h : ∀ n, resolveNumber form suffix = .ok n → Adds (f n) p True as a) :
    Adds (Literal.resolve form suffix span >>= f) p (∃ n, resolveNumber form suffix = .ok n) as a := by
  unfold Literal.resolve
  cases hNumber : resolveNumber form suffix with
  | error cause => exact (Adds.of_refused fun d _ => ⟨_, d, rfl⟩).congr (by simp) (fun _ => rfl)
  | ok n => exact (h n hNumber).congr (by simp) (fun _ => rfl)

theorem number_adds (form : NumberForm) (suffix : Option String) (span : Span) :
    Adds (Literal.number form suffix span) p
      (form.Spellable ∧ ∀ s, suffix = some s → (Numeric.ofSuffix? s).isSome) (numberAdditions form suffix) () := by
  rw [← resolveNumber_ok_iff]
  refine resolve_adds ?_
  intro n hNumber
  have hText : Adds (if n.explicit then write ("((" ++ typeSpelling n.type.name ++ ")" ++ n.spelling ++ ")")
      else write n.spelling) p True [.text n.text] () := by
    unfold ResolvedNumber.text
    cases n.explicit with
    | true => exact .write _
    | false => exact .write _
  rw [numberAdditions, hNumber]
  exact ((cType_adds n.type.name span).bind fun _ => hText).congr (by simp [knownType_numeric]) (fun _ => rfl)

theorem string_adds (value : String) (span : Span) :
    Adds (Literal.string value span) p True (stringAdditions value span) () :=
  ((Adds.needSupport .string).next ((Adds.reserveSymbol _ span).next
    ((Adds.addForward _).next (Adds.write _)))).congr (by simp) (fun _ => rfl)

theorem boolean_adds (value : Bool) :
    Adds (Literal.boolean value) p True [.header "stdbool.h", .text (if value then "true" else "false")] () :=
  ((Adds.needHeader _).next (Adds.write _)).congr (by simp) (fun _ => rfl)

theorem null_adds : Adds Literal.null p True [.header "stddef.h", .text "NULL"] () :=
  ((Adds.needHeader _).next (Adds.write _)).congr (by simp) (fun _ => rfl)

/-- What a look at the type of a literal needs: a number must resolve. -/
def Node.Resolvable : Node → Prop
  | .number form suffix _ => ∃ n, resolveNumber form suffix = .ok n
  | .paren inner _ => Resolvable inner
  | _ => True

/-- Where every node is sound, every literal resolves. -/
theorem Node.resolvable_of_sound {depth : Nat} :
    ∀ {n : Node}, (∀ e ∈ n.census depth, e.2.Sound e.1) → n.Resolvable
  | .number form suffix span, h => (resolveNumber_ok_iff form suffix).mpr (forall_mem_census.mp h).1
  | .paren inner _, h => resolvable_of_sound (n := inner) ((forall_mem_census.mp h).2 inner (by simp [children]))
  | .string .., _ | .boolean .., _ | .nil .., _ | .varargs .., _ | .id .., _ | .dotIndex .., _ | .arrayIndex .., _
  | .call .., _ | .unaryOp .., _ | .binaryOp .., _ | .ternaryOp .., _ | .block .., _ | .ret .., _ | .cond .., _
  | .switch .., _ | .scoped .., _ | .whileLoop .., _ | .repeatLoop .., _ | .forNum .., _ | .forIn .., _
  | .breakLoop .., _ | .continueLoop .., _ | .label .., _ | .goto .., _ | .varDecl .., _ | .assign .., _
  | .funcDef .., _ => trivial

/-- A literal that resolves shows a type, and nothing else does. -/
theorem Node.literalType?_isSome {n : Node} (h : n.Resolvable) : n.literalType?.isSome ↔ n.isLiteral := by
  fun_induction Node.literalType? n with
  | case1 form suffix span =>
    obtain ⟨m, hm⟩ := h
    simp [hm, Except.toOption, isLiteral]
  | case4 inner span ih => exact ih h
  | case2 | case3 => simp [isLiteral]
  | case5 n hNumber hBoolean hString hParen =>
    cases n <;> first | rfl | simp_all

/-- The C type of the given source type, if there is one. -/
theorem cType_some_adds (name : String) (span : Span) :
    Adds (do return some (← cType name span)) p (KnownType name) (typeNeeds name) (some (typeSpelling name)) :=
  ((cType_adds name span).bind fun _ => .pure (some (typeSpelling name))).congr (by simp) (by simp)

theorem literalType_adds (n : Node) :
    Adds (Literal.type? n) p n.Resolvable ((n.literalType?.map typeNeeds).getD []) (n.literalType?.map typeSpelling) := by
  fun_induction Literal.type? n with
  | case1 form suffix span =>
    refine resolve_adds ?_
    intro m hm
    rw [Node.literalType?, hm]
    exact (cType_some_adds m.type.name span).congr (by simp [knownType_numeric]) (fun _ => rfl)
  | case2 value span =>
    exact (cType_some_adds "boolean" span).congr (by simp [Node.Resolvable]; decide) (fun _ => rfl)
  | case3 value span =>
    exact (cType_some_adds "string" span).congr (by simp [Node.Resolvable]; decide) (fun _ => rfl)
  | case4 inner span ih => exact ih
  | case5 n hNumber hBoolean hString hParen =>
    have hNone : n.literalType? = none := by cases n <;> first | rfl | simp_all
    have hResolvable : n.Resolvable := by cases n <;> first | trivial | simp_all
    rw [hNone]
    exact (Adds.pure none).congr (by simp [hResolvable]) (fun _ => rfl)

/-- What a look at the type of a variable needs. -/
def Deducible (var : TypedName) (value : Option Node) : Prop :=
  Node.Typeable var value ∧ ∀ v, value = some v → var.type = none → v.Resolvable

/-- The type that a literal shows is in the type table. -/
theorem Node.knownType_of_literalType? {n : Node} {type : String} (h : n.literalType? = some type) : KnownType type := by
  fun_induction Node.literalType? n with
  | case1 form suffix span =>
    obtain ⟨m, -, rfl⟩ := Option.map_eq_some_iff.mp h
    exact knownType_numeric m.type
  | case2 | case3 =>
    obtain rfl := Option.some.inj h
    decide
  | case4 inner span ih => exact ih h
  | case5 => cases h

/-- The type of a variable, given or shown, is in the type table. -/
theorem knownType_of_deducible {var : TypedName} {value : Option Node} (h : Deducible var value) :
    KnownType ((typeName? var value).getD "") := by
  obtain ⟨hTypeable, hResolvable⟩ := h
  unfold Node.Typeable at hTypeable
  unfold typeName?
  cases hType : var.type with
  | some type =>
    rw [hType] at hTypeable
    exact hTypeable
  | none =>
    rw [hType] at hTypeable
    obtain ⟨v, rfl, hLiteral⟩ := hTypeable
    obtain ⟨type, hShown⟩ := Option.isSome_iff_exists.mp ((Node.literalType?_isSome (hResolvable v rfl hType)).mpr hLiteral)
    rw [Option.bind_some, hShown]
    exact Node.knownType_of_literalType? hShown

/-- The type of a variable that has none comes from its value. -/
theorem inferred_adds {var : TypedName} {value : Option Node} {look : Gen (Option String)} {span : Span} {cause : Cause}
    (hType : var.type = none)
    (hLook : Adds look p (∀ v, value = some v → v.Resolvable)
      (((value.bind Node.literalType?).map typeNeeds).getD []) ((value.bind Node.literalType?).map typeSpelling)) :
    Adds (look >>= fun inferred => orFail inferred span cause) p (Deducible var value)
      (typeNeeds ((typeName? var value).getD "")) (typeSpelling ((typeName? var value).getD "")) := by
  have hName : typeName? var value = value.bind Node.literalType? := by
    rw [typeName?, hType]
  have hGive : Adds (orFail ((value.bind Node.literalType?).map typeSpelling) span cause) p
      (value.bind Node.literalType?).isSome [] (typeSpelling ((typeName? var value).getD "")) := by
    rw [hName]
    cases value.bind Node.literalType? with
    | none => exact (Adds.fail span cause _ []).congr (by simp) (fun _ => rfl)
    | some type => exact (Adds.pure _).congr (by simp) (fun _ => rfl)
  refine (hLook.bind fun _ => hGive).congr ?_ ?_
  · simp only [Deducible, Node.Typeable, hType, true_implies]
    cases value with
    | none => simp
    | some v =>
      simp only [Option.some.injEq, forall_eq', exists_eq_left', Option.bind_some]
      constructor
      · rintro ⟨hLiteral, hResolvable⟩
        exact ⟨hResolvable, (Node.literalType?_isSome hResolvable).mpr hLiteral⟩
      · rintro ⟨hResolvable, hSome⟩
        exact ⟨(Node.literalType?_isSome hResolvable).mp hSome, hResolvable⟩
  · rintro ⟨-, hSome⟩
    obtain ⟨type, hType⟩ := Option.isSome_iff_exists.mp hSome
    rw [hName, hType, List.append_nil]
    rfl

/-- The type of a variable that is given one. -/
theorem given_adds {var : TypedName} {value : Option Node} {type : String} (span : Span) (hType : var.type = some type) :
    Adds (cType type span) p (Deducible var value) (typeNeeds ((typeName? var value).getD ""))
      (typeSpelling ((typeName? var value).getD "")) := by
  have hName : typeName? var value = some type := by
    rw [typeName?, hType]
  rw [hName]
  exact (cType_adds type span).congr (by simp [Deducible, Node.Typeable, hType]) (fun _ => rfl)

theorem loopType_adds (var : TypedName) (first : Node) (span : Span) :
    Adds (Loop.varType var first span) p (Deducible var (some first)) (typeNeeds ((typeName? var (some first)).getD ""))
      (typeSpelling ((typeName? var (some first)).getD "")) := by
  unfold Loop.varType
  cases hType : var.type with
  | some type => exact given_adds span hType
  | none => exact inferred_adds hType ((literalType_adds first).congr (by simp) (fun _ => rfl))

theorem variableType_adds (var : TypedName) (value : Option Part) (span : Span) :
    Adds (Declaration.variableType var value span) p (Deducible var (value.map Part.node))
      (typeNeeds ((typeName? var (value.map Part.node)).getD ""))
      (typeSpelling ((typeName? var (value.map Part.node)).getD "")) := by
  unfold Declaration.variableType
  cases hType : var.type with
  | some type => exact given_adds span hType
  | none =>
    cases value with
    | none => exact inferred_adds hType ((Adds.pure none).congr (by simp) (fun _ => rfl))
    | some v => exact inferred_adds hType ((literalType_adds v.node).congr (by simp) (fun _ => rfl))

-- ---------------------------------------------------------------------------
-- Lists of parts, print calls
-- ---------------------------------------------------------------------------

/-- What is asked of the arguments of a print call beyond being written. -/
def Printable (n : Node) : Prop :=
  (n.tag = .string ∨ n.tag = .number) ∧ n.Resolvable

theorem slot_adds (call : Span) (index : Nat) (n : Node) :
    Adds (Print.slot call index n) p (Printable n) (slotNeeds n) (slotOf index n) := by
  cases n with
  | string value span =>
    exact ((Adds.needSupport .stringPrint).next (.pure _)).congr (by simp [Printable, Node.tag, Node.Resolvable])
      (fun _ => rfl)
  | number form suffix span =>
    refine Adds.congr (resolve_adds ?_) (by simp [Printable, Node.tag, Node.Resolvable]) (fun _ => rfl)
    intro n hNumber
    have hType := cType_adds (p := p) n.type.name span
    have hKnown : KnownType n.type.name ↔ True := iff_true_intro (knownType_numeric n.type)
    rw [slotNeeds_number, slotOf_number, hNumber]
    dsimp only
    cases n.type.directive.header with
    | none => exact Adds.congr (hType.bind fun _ => .pure _) (by rw [hKnown, and_true]) (fun _ => rfl)
    | some header =>
      exact Adds.congr (hType.bind fun _ => (Adds.needHeader header).next (.pure _)) (by simp [hKnown]) (fun _ => rfl)
  | _ => exact (Adds.fail _ _ _ _).congr (by simp [Printable, Node.tag]) (fun _ => rfl)

theorem slots_adds (call : Span) (index : Nat) (ns : List Node) :
    Adds (Print.slots call index ns) p (∀ n ∈ ns, Printable n) (ns.flatMap slotNeeds) (slotsFrom index ns) := by
  induction ns generalizing index with
  | nil => exact (Adds.pure []).congr (by simp) (fun _ => rfl)
  | cons n rest ih =>
    refine Adds.congr ((slot_adds call index n).bind fun _ => (ih (index + 1)).bind fun _ => .pure _) ?_ ?_
    · rw [List.forall_mem_cons, and_true]
    · intro _
      rw [List.flatMap_cons, List.append_nil]

section Parts

variable {x y z : Part} {parts : List Part} {P : Part → Prop} {F : Part → List Addition}

theorem commaList_adds (h : ∀ x ∈ parts, Adds x.emit p (P x) (F x) ()) :
    Adds (commaList parts) p (∀ x ∈ parts, P x) (commaSeparated (parts.map F)) () := by
  fun_induction commaList parts with
  | case1 => exact (Adds.pure ()).congr (by simp) (fun _ => rfl)
  | case2 x => exact (h x (by simp)).congr (by simp) (fun _ => rfl)
  | case3 x rest hRest ih =>
    have hFirst := h x (List.mem_cons_self ..)
    have hOthers := ih (fun y hy => h y (List.mem_cons_of_mem _ hy))
    refine (hFirst.next ((Adds.write ", ").next hOthers)).congr ?_ ?_
    · rw [List.forall_mem_cons, true_and]
    · intro _
      cases rest with
      | nil => exact absurd rfl hRest
      | cons y rest =>
        rw [List.map_cons, List.map_cons, commaSeparated, List.append_assoc]
        simp

theorem print_adds (span : Span) (h : ∀ x ∈ parts, Adds x.emit p (P x) (F x) ()) :
    Adds (Print.call span parts) p ((∀ x ∈ parts, Printable x.node) ∧ ∀ x ∈ parts, P x)
      (printAdditions p span (parts.map Part.node) (parts.map F)) () := by
  have hTail : ∀ ss, Adds (get >>= fun d : Draft => addDefinition (Print.helper d.width (Print.helperName span) ss)
        >>= fun _ => write (Print.helperName span ++ "(") >>= fun _ => commaList parts >>= fun _ => write ")") p
      (∀ x ∈ parts, P x)
      ([Addition.helper (Print.helper p.width (Print.helperName span) ss), .text (Print.helperName span ++ "(")]
        ++ commaSeparated (parts.map F) ++ [Addition.text ")"]) () := by
    intro ss
    have hRest := (Adds.addHelper (p := p) (Print.helper p.width (Print.helperName span) ss)).next
      ((Adds.write (Print.helperName span ++ "(")).next ((commaList_adds h).next (Adds.write ")")))
    refine (hRest.congr ?_ ?_).of_run_eq ?_
    · simp
    · simp
    · rintro d ⟨-, rfl⟩
      rfl
  refine Adds.congr ((Adds.reserveSymbol _ span).next ((slots_adds span 1 _).bind fun _ =>
    (Adds.needHeader _).next ((Adds.addForward _).next (hTail _)))) ?_ ?_
  · simp
  · simp [printAdditions]

theorem paren_adds (h : Adds x.emit p ok as ()) :
    Adds (Expression.paren x) p ok ([Addition.text "("] ++ as ++ [Addition.text ")"]) () :=
  ((Adds.write "(").next (h.next (Adds.write ")"))).congr (by simp) (by simp)

theorem field_adds (h : Adds x.emit p ok as ()) (name : String) :
    Adds (Expression.field x name) p ok (as ++ [Addition.text ("." ++ Target.escapeName name)]) () :=
  (h.next (Adds.write _)).congr (by simp) (fun _ => rfl)

theorem element_adds (h : Adds x.emit p ok as ()) (h' : Adds y.emit p ok' bs ()) :
    Adds (Expression.element x y) p (ok ∧ ok') (as ++ [Addition.text "["] ++ bs ++ [Addition.text "]"]) () :=
  (h.next ((Adds.write _).next (h'.next (Adds.write _)))).congr (by simp) (by simp)

theorem call_adds {span : Span} (hCallee : Expression.intrinsic? x.node = none) (h : Adds x.emit p ok as ())
    (hArgs : ∀ y ∈ parts, Adds y.emit p (P y) (F y) ()) :
    Adds (Expression.call x parts span) p (ok ∧ ∀ y ∈ parts, P y)
      (as ++ [Addition.text "("] ++ commaSeparated (parts.map F) ++ [Addition.text ")"]) () := by
  unfold Expression.call
  rw [hCallee]
  exact (h.next ((Adds.write "(").next ((commaList_adds hArgs).next (Adds.write ")")))).congr (by simp) (by simp)

theorem printCall_adds {span : Span} (hCallee : Expression.intrinsic? x.node = some .print)
    (hArgs : ∀ y ∈ parts, Adds y.emit p (P y) (F y) ()) :
    Adds (Expression.call x parts span) p ((∀ y ∈ parts, Printable y.node) ∧ ∀ y ∈ parts, P y)
      (printAdditions p span (parts.map Part.node) (parts.map F)) () := by
  unfold Expression.call
  rw [hCallee]
  exact ((Adds.note _).next (print_adds span hArgs)).congr (by simp) (fun _ => rfl)

-- ---------------------------------------------------------------------------
-- Operators
-- ---------------------------------------------------------------------------

theorem operator_adds {act : Gen Unit} (h : Adds act p ok as ()) :
    Adds (Expression.operator act) p ok (p.wrapped as) () := by
  have hRun : ∀ d : Draft, d.At p → Expression.operator act d =
      (if p.inOperator then (write "(" >>= fun _ => act >>= fun _ => write ")") else act : Gen Unit) d := by
    rintro d ⟨-, rfl⟩
    rfl
  refine Adds.of_run_eq ?_ hRun
  unfold Place.wrapped
  cases p.inOperator with
  | true => exact ((Adds.write "(").next (h.next (Adds.write ")"))).congr (by simp) (by simp)
  | false => exact h

theorem unary_adds {op : String} {span : Span} (h : Adds x.emit p ok as ()) :
    Adds (Expression.unary op x span) p (WritableUnary op ∧ ok) (p.wrapped ([Addition.text (unaryMark op)] ++ as)) () := by
  refine Adds.congr (Adds.orFail (P := fun known => ∃ mark, known.spelling? = some mark ∧ ok) fun known hKnown =>
    Adds.orFail fun mark hMark => ?_) ?_ (fun _ => rfl)
  · have hMarks : unaryMark op = mark := by simp [unaryMark, hKnown, hMark]
    rw [hMarks]
    exact operator_adds (((Adds.write mark).next h).congr (by simp) (fun _ => rfl))
  · simp only [WritableUnary, Option.isSome_iff_exists]
    tauto

theorem binary_adds {op : String} {span : Span} (h : Adds x.emit p ok as ()) (h' : Adds y.emit p ok' bs ()) :
    Adds (Expression.binary op x y span) p (WritableBinary op ∧ ok ∧ ok')
      (p.wrapped (as ++ [Addition.text (" " ++ binaryMark op ++ " ")] ++ bs)) () := by
  refine Adds.congr (Adds.orFail (P := fun known => ∃ mark, known.spelling? = some mark ∧ ok ∧ ok') fun known hKnown =>
    Adds.orFail fun mark hMark => ?_) ?_ (fun _ => rfl)
  · have hMarks : binaryMark op = mark := by simp [binaryMark, hKnown, hMark]
    rw [hMarks]
    exact operator_adds ((h.next ((Adds.write _).next h')).congr (by simp) (by simp))
  · simp only [WritableBinary, Option.isSome_iff_exists]
    tauto

theorem ternary_adds {op : String} {span : Span} (h : Adds x.emit p ok as ()) (h' : Adds y.emit p ok' bs ())
    (h'' : Adds z.emit p ok'' cs ()) :
    Adds (Expression.ternary op x y z span) p (WritableTernary op ∧ ok' ∧ ok ∧ ok'')
      (p.wrapped (bs ++ [Addition.text (" " ++ (ternaryMarks op).1 ++ " ")] ++ as
        ++ [Addition.text (" " ++ (ternaryMarks op).2 ++ " ")] ++ cs)) () := by
  refine Adds.congr (Adds.orFail (P := fun known => ∃ marks, known.spelling? = some marks ∧ ok' ∧ ok ∧ ok'')
    fun known hKnown => Adds.orFail fun marks hMark => ?_) ?_ (fun _ => rfl)
  · have hMarks : ternaryMarks op = marks := by simp [ternaryMarks, hKnown, hMark]
    rw [hMarks]
    exact operator_adds
      ((h'.next ((Adds.write _).next (h.next ((Adds.write _).next h'')))).congr (by simp) (by simp))
  · simp only [WritableTernary, Option.isSome_iff_exists]
    tauto

end Parts

end Lowering
