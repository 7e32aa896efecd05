import Lowering.Proofs.Json.Record
import Lowering.Proofs.Json.RoundTrip
import Lowering.Proofs.Tree.Census
import Lowering.Tree.Reader
import Lowering.Tree.Writer

/-!
# Written trees are read back

A tree whose spans have 64-bit bounds and whose text does not nest too deep is read back from its own text. And a tree
that was read from any text, with members left out, abbreviated, in another order or of no meaning, has these two
properties: its own text never nests deeper than the text that it was read from.

* `Node.written_tree_is_read_back` — exactly the trees that fit are read back, and every tree that was read fits.
-/

namespace Lowering

open Json

-- ---------------------------------------------------------------------------
-- Spans, typed names, forms
-- ---------------------------------------------------------------------------

/-- The bounds of the span are numbers of 64 bits. -/
def Span.Fits (s : Span) : Prop :=
  s.start < UInt64.size ∧ s.stop < UInt64.size

theorem word?_ofNat {n : Nat} (h : n < UInt64.size) : word? (.ofNat n) = some n := by
  have hValue : JsonNumber.natural? (.ofNat n) = some n := by
    have hDigits : JsonNumber.digitsValue (toString n).toList = n := by
      rw [toList_decimal]
      exact Nat.ofDigitChars_ten_toDigits
    rw [JsonNumber.natural?, JsonNumber.ofNat]
    simpa using hDigits
  simpa [word?, Json.ofNat, hValue] using h

theorem Span.ofJson?_toJson {s : Span} (h : s.Fits) : Span.ofJson? s.toJson = some s := by
  have hFields : fields? ["start", "end"] s.toJson = some [some (.ofNat s.start), some (.ofNat s.stop)] := rfl
  rw [Span.ofJson?, hFields]
  simp [word?_ofNat h.1, word?_ofNat h.2]

theorem lt_of_word? {j : Json} {n : Nat} (h : word? j = some n) : n < UInt64.size := by
  cases j with
  | number value =>
    have hFilter := (Option.filter_eq_some_iff.mp h).2
    simpa using hFilter
  | null | bool | string | array | object | unreadable => simp [word?] at h

theorem Span.depth_toJson (s : Span) : s.toJson.depth = 1 := by
  simp [Span.toJson, depth_object, depthMembers_cons, depthMembers_nil, Json.ofNat, Json.depth]

theorem Span.tame : Tame Span.toJson Span.ofJson? Span.Fits := by
  intro j s h
  rw [Span.ofJson?] at h
  obtain ⟨found, hFields, h⟩ := Option.bind_eq_some_iff.mp h
  refine ⟨by rw [Span.depth_toJson]; exact (Tame.fields hFields).1, ?_⟩
  split at h
  · obtain ⟨start, hStart, h⟩ := Option.bind_eq_some_iff.mp h
    obtain ⟨stop, hStop, h⟩ := Option.bind_eq_some_iff.mp h
    obtain rfl := Option.some.inj h
    exact ⟨lt_of_word? hStart, lt_of_word? hStop⟩
  · simp at h

theorem Json.ofOption_eq (o : Option String) : Json.ofOption o = o.elim .null .string := by
  cases o <;> rfl

theorem nullable_ofOption (o : Option String) : nullable string? (.ofOption o) = some o := by
  rw [Json.ofOption_eq]
  exact nullable_elim (by simp) (fun _ _ => rfl)

theorem TypedName.ofJson?_toJson (t : TypedName) : TypedName.ofJson? t.toJson = some t := by
  have hFields : fields? ["name", "ty"] t.toJson = some [some (.string t.name), some (.ofOption t.type)] := rfl
  rw [TypedName.ofJson?, hFields]
  simp [nullable_ofOption, string?]

theorem TypedName.depth_toJson (t : TypedName) : t.toJson.depth = 1 := by
  rcases t with ⟨name, _ | type⟩ <;>
    simp [TypedName.toJson, Json.ofOption, depth_object, depthMembers_cons, depthMembers_nil, Json.depth]

theorem TypedName.tame : Tame TypedName.toJson TypedName.ofJson? (fun _ => True) := by
  intro j t h
  rw [TypedName.ofJson?] at h
  obtain ⟨found, hFields, -⟩ := Option.bind_eq_some_iff.mp h
  exact ⟨by rw [TypedName.depth_toJson]; exact (Tame.fields hFields).1, trivial⟩

theorem NumberForm.ofJson?_toJson (form : NumberForm) : NumberForm.ofJson? form.toJson = some form := by
  cases form with
  | scientific mantissa exponent =>
    have hFields : fields? ["mantissa", "exponent"]
        (.object [("mantissa", .string mantissa), ("exponent", .string exponent)])
          = some [some (.string mantissa), some (.string exponent)] := rfl
    rw [NumberForm.toJson, NumberForm.ofJson?, hFields]
    rfl
  | integer | decimal | hex | binary => rfl

theorem NumberForm.tame : Tame NumberForm.toJson NumberForm.ofJson? (fun _ => True) := by
  intro j form h
  have hOne : ∀ (name : String) (digits : Json), 1 ≤ (Json.object [(name, digits)]).depth := by
    intro name digits
    rw [depth_object]
    omega
  unfold NumberForm.ofJson? at h
  refine ⟨?_, trivial⟩
  split at h
  · obtain ⟨digits, -, rfl⟩ := Option.map_eq_some_iff.mp h
    exact hOne ..
  · obtain ⟨digits, -, rfl⟩ := Option.map_eq_some_iff.mp h
    exact hOne ..
  · obtain ⟨digits, -, rfl⟩ := Option.map_eq_some_iff.mp h
    exact hOne ..
  · obtain ⟨digits, -, rfl⟩ := Option.map_eq_some_iff.mp h
    exact hOne ..
  · rename_i parts
    obtain ⟨found, hFields, h⟩ := Option.bind_eq_some_iff.mp h
    have hParts := (Tame.fields hFields).1
    split at h
    · obtain ⟨mantissa, -, h⟩ := Option.bind_eq_some_iff.mp h
      obtain ⟨exponent, -, h⟩ := Option.bind_eq_some_iff.mp h
      obtain rfl := Option.some.inj h
      simp only [NumberForm.toJson, depth_object, depthMembers_cons, depthMembers_nil, depth_string]
      omega
    · simp at h
  · simp at h

theorem Visibility.ofJson?_word (v : Visibility) : Visibility.ofJson? (.string v.word) = some v := by
  cases v <;> rfl

theorem Mutability.ofJson?_word (m : Mutability) : Mutability.ofJson? (.string m.word) = some m := by
  cases m <;> rfl

theorem Tag.ofName?_name (t : Tag) : Tag.ofName? t.name = some t := by
  have hAll : ∀ t ∈ Tag.all, Tag.ofName? t.name = some t := by decide +kernel
  exact hAll t (by cases t <;> decide)

namespace Node

-- ---------------------------------------------------------------------------
-- Lists, options and arms
-- ---------------------------------------------------------------------------

theorem allToJson_eq (ns : List Node) : allToJson ns = ns.map toJson := by
  induction ns with
  | nil => rfl
  | cons n ns ih => rw [allToJson, ih, List.map_cons]

theorem optionToJson_eq (o : Option Node) : optionToJson o = o.elim .null toJson := by
  cases o <;> rfl

/-- A guarded part as an object. -/
def armToJson (guardName : String) (arm : Arm Node) : Json :=
  .object [(guardName, arm.guard.toJson), ("block", arm.body.toJson)]

theorem armsToJson_eq (guardName : String) (arms : List (Arm Node)) :
    armsToJson guardName arms = arms.map (armToJson guardName) := by
  induction arms with
  | nil => rfl
  | cons a arms ih => rw [armsToJson, ih, List.map_cons, armToJson]

theorem toJson_ne_null (n : Node) : n.toJson ≠ .null := by
  unfold toJson
  simp

theorem armOfJson?_toJson {guardName : String} (hName : guardName ≠ "block") {node : Json → Option Node} {arm : Arm Node}
    (hGuard : node arm.guard.toJson = some arm.guard) (hBody : node arm.body.toJson = some arm.body) :
    Arm.ofJson? guardName node (armToJson guardName arm) = some arm := by
  have hFields : fields? [guardName, "block"] (armToJson guardName arm)
      = some [some arm.guard.toJson, some arm.body.toJson] := by
    have hFirst : Members.once [(guardName, arm.guard.toJson), ("block", arm.body.toJson)] guardName
        = some (some arm.guard.toJson) :=
      once_cons_self _ _ ((once_cons_of_ne _ _ hName.symm).trans (once_nil _))
    have hSecond : Members.once [(guardName, arm.guard.toJson), ("block", arm.body.toJson)] "block"
        = some (some arm.body.toJson) :=
      (once_cons_of_ne _ _ hName).trans (once_cons_self _ _ (once_nil _))
    simp [armToJson, fields?, List.mapM_cons, hFirst, hSecond]
  rw [Arm.ofJson?, hFields]
  simp [hGuard, hBody]

theorem tame_arm {guardName : String} {node : Json → Option Node} {P : Node → Prop} (hNode : Tame toJson node P) :
    Tame (armToJson guardName) (Arm.ofJson? guardName node) (fun a => P a.guard ∧ P a.body) := by
  intro j arm h
  rw [Arm.ofJson?] at h
  obtain ⟨found, hFields, h⟩ := Option.bind_eq_some_iff.mp h
  obtain ⟨-, hFound⟩ := Tame.fields hFields
  split at h
  · rename_i guardJson bodyJson
    obtain ⟨guard, hGuard, h⟩ := Option.bind_eq_some_iff.mp h
    obtain ⟨body, hBody, h⟩ := Option.bind_eq_some_iff.mp h
    obtain rfl := Option.some.inj h
    obtain ⟨hGuardDepth, hGuardP⟩ := hNode _ _ hGuard
    obtain ⟨hBodyDepth, hBodyP⟩ := hNode _ _ hBody
    have hFirst := hFound guardJson (by simp)
    have hSecond := hFound bodyJson (by simp)
    refine ⟨?_, hGuardP, hBodyP⟩
    rw [armToJson, depth_object, depthMembers_cons, depthMembers_cons, depthMembers_nil]
    dsimp only
    omega
  · simp at h

-- ---------------------------------------------------------------------------
-- Reading what was written
-- ---------------------------------------------------------------------------

theorem once_snoc_of_ne {name other : String} (members : Members) (j : Json) (h : other ≠ name) :
    Members.once (members ++ [(other, j)]) name = Members.once members name := by
  unfold Members.once
  rw [List.filter_append, List.filter_cons_of_neg (by simpa using h), List.filter_nil, List.append_nil]

theorem once_snoc_self {name : String} {members : Members} (j : Json) (h : Members.once members name = some none) :
    Members.once (members ++ [(name, j)]) name = some (some j) := by
  unfold Members.once at h ⊢
  split at h
  · rename_i hNone
    rw [List.filter_append, hNone, List.filter_cons_of_pos (by simp)]
    rfl
  · simp at h
  · simp at h

/-- The tag and the span are found around the fields of a kind. -/
theorem ofJson?_record (levels : Nat) (tag : Tag) {fields : Members} {span : Span} (hSpan : span.Fits)
    (hTag : Members.once fields "tag" = some none) (hFields : Members.once fields "span" = some none) :
    ofJson? (levels + 1) (.object (("tag", .string tag.name) :: fields ++ [("span", span.toJson)])) =
      ofMembers? (ofJson? levels) (("tag", .string tag.name) :: fields ++ [("span", span.toJson)]) tag span := by
  have hFirst : Members.once (("tag", .string tag.name) :: fields ++ [("span", span.toJson)]) "tag"
      = some (some (.string tag.name)) := by
    rw [once_snoc_of_ne _ _ (by decide)]
    exact once_cons_self _ _ hTag
  have hLast : Members.once (("tag", .string tag.name) :: fields ++ [("span", span.toJson)]) "span"
      = some (some span.toJson) := by
    refine once_snoc_self _ ?_
    rw [once_cons_of_ne _ _ (by decide)]
    exact hFields
  rw [ofJson?, Members.required, hFirst]
  simp only [string?, Option.bind_some, Tag.ofName?_name, Option.bind_eq_bind]
  rw [Members.required, hLast]
  simp only [Span.ofJson?_toJson hSpan, Option.bind_some]

section Parts

variable {node : Json → Option Node}

theorem list?_allToJson (ns : List Node) (h : ∀ n ∈ ns, node n.toJson = some n) :
    list? node (.array (allToJson ns)) = some ns := by
  rw [allToJson_eq]
  exact list?_array ns h

theorem nullable_optionToJson {o : Option Node} (h : ∀ n ∈ o, node n.toJson = some n) :
    nullable node (optionToJson o) = some o := by
  rw [optionToJson_eq]
  exact nullable_elim toJson_ne_null h

theorem list?_armsToJson (guardName : String) (hName : guardName ≠ "block") {arms : List (Arm Node)}
    (h : ∀ a ∈ arms, node a.guard.toJson = some a.guard ∧ node a.body.toJson = some a.body) :
    list? (Arm.ofJson? guardName node) (.array (armsToJson guardName arms)) = some arms := by
  rw [armsToJson_eq]
  exact list?_array arms fun a ha => armOfJson?_toJson hName (h a ha).1 (h a ha).2

end Parts

/-- A node is read back from its object if the nodes below it are read back from theirs. -/
theorem ofJson?_toJson_step {levels : Nat} {n : Node} (hSpan : n.span.Fits)
    (ih : ∀ c ∈ n.children, ofJson? levels c.toJson = some c) : ofJson? (levels + 1) n.toJson = some n := by
  cases n with
  | number form suffix span =>
    refine (ofJson?_record levels .number (show Span.Fits span from hSpan) rfl rfl).trans ?_
    simp [ofMembers?, Members.required, Members.optional, NumberForm.ofJson?_toJson, nullable_ofOption]
  | string value span =>
    refine (ofJson?_record levels .string (show Span.Fits span from hSpan) rfl rfl).trans ?_
    simp [ofMembers?, Members.required, string?]
  | boolean value span =>
    refine (ofJson?_record levels .boolean (show Span.Fits span from hSpan) rfl rfl).trans ?_
    simp [ofMembers?, Members.required, bool?]
  | nil span => exact ofJson?_record levels .nil (show Span.Fits span from hSpan) rfl rfl
  | varargs span => exact ofJson?_record levels .varargs (show Span.Fits span from hSpan) rfl rfl
  | id name span =>
    refine (ofJson?_record levels .id (show Span.Fits span from hSpan) rfl rfl).trans ?_
    simp [ofMembers?, Members.required, string?]
  | paren inner span =>
    refine (ofJson?_record levels .paren (show Span.Fits span from hSpan) rfl rfl).trans ?_
    have hInner := ih inner (by simp [children])
    simp [ofMembers?, Members.required, hInner]
  | dotIndex base field span =>
    refine (ofJson?_record levels .dotIndex (show Span.Fits span from hSpan) rfl rfl).trans ?_
    have hBase := ih base (by simp [children])
    simp [ofMembers?, Members.required, string?, hBase]
  | arrayIndex base index span =>
    refine (ofJson?_record levels .arrayIndex (show Span.Fits span from hSpan) rfl rfl).trans ?_
    have hBase := ih base (by simp [children])
    have hIndex := ih index (by simp [children])
    simp [ofMembers?, Members.required, hBase, hIndex]
  | call callee args span =>
    refine (ofJson?_record levels .call (show Span.Fits span from hSpan) rfl rfl).trans ?_
    have hCallee := ih callee (by simp [children])
    have hArgs := list?_allToJson args fun c hc => ih c (List.mem_cons_of_mem callee hc)
    simp [ofMembers?, Members.required, Members.withDefault, hCallee, hArgs]
  | unaryOp op operand span =>
    refine (ofJson?_record levels .unaryOp (show Span.Fits span from hSpan) rfl rfl).trans ?_
    have hOperand := ih operand (by simp [children])
    simp [ofMembers?, Members.required, string?, hOperand]
  | binaryOp op lhs rhs span =>
    refine (ofJson?_record levels .binaryOp (show Span.Fits span from hSpan) rfl rfl).trans ?_
    have hLeft := ih lhs (by simp [children])
    have hRight := ih rhs (by simp [children])
    simp [ofMembers?, Members.required, string?, hLeft, hRight]
  | ternaryOp op first second third span =>
    refine (ofJson?_record levels .ternaryOp (show Span.Fits span from hSpan) rfl rfl).trans ?_
    have hFirst := ih first (by simp [children])
    have hSecond := ih second (by simp [children])
    have hThird := ih third (by simp [children])
    simp [ofMembers?, Members.required, string?, hFirst, hSecond, hThird]
  | block statements span =>
    refine (ofJson?_record levels .block (show Span.Fits span from hSpan) rfl rfl).trans ?_
    have hStatements := list?_allToJson statements ih
    simp [ofMembers?, Members.withDefault, hStatements]
  | ret values span =>
    refine (ofJson?_record levels .ret (show Span.Fits span from hSpan) rfl rfl).trans ?_
    have hValues := list?_allToJson values ih
    simp [ofMembers?, Members.withDefault, hValues]
  | cond branches otherwise span =>
    refine (ofJson?_record levels .cond (show Span.Fits span from hSpan) rfl rfl).trans ?_
    obtain ⟨hBranches, hOtherwise⟩ := forall_mem_arms_append.mp ih
    have hArms := list?_armsToJson "cond" (by decide) hBranches
    have hElse := nullable_optionToJson hOtherwise
    simp [ofMembers?, Members.required, Members.optional, hArms, hElse]
  | switch subject cases otherwise span =>
    refine (ofJson?_record levels .switch (show Span.Fits span from hSpan) rfl rfl).trans ?_
    have hSubject := ih subject (by simp [children])
    obtain ⟨hCases, hOtherwise⟩ := forall_mem_arms_append.mp fun c hc => ih c (List.mem_cons_of_mem subject hc)
    have hArms := list?_armsToJson "value" (by decide) hCases
    have hElse := nullable_optionToJson hOtherwise
    simp [ofMembers?, Members.required, Members.optional, Members.withDefault, hSubject, hArms, hElse]
  | «scoped» body span =>
    refine (ofJson?_record levels .scoped (show Span.Fits span from hSpan) rfl rfl).trans ?_
    have hBody := ih body (by simp [children])
    simp [ofMembers?, Members.required, hBody]
  | whileLoop guard body span =>
    refine (ofJson?_record levels .whileLoop (show Span.Fits span from hSpan) rfl rfl).trans ?_
    have hGuard := ih guard (by simp [children])
    have hBody := ih body (by simp [children])
    simp [ofMembers?, Members.required, hGuard, hBody]
  | repeatLoop body guard span =>
    refine (ofJson?_record levels .repeatLoop (show Span.Fits span from hSpan) rfl rfl).trans ?_
    have hGuard := ih guard (by simp [children])
    have hBody := ih body (by simp [children])
    simp [ofMembers?, Members.required, hGuard, hBody]
  | forNum var first comparator last step body span =>
    refine (ofJson?_record levels .forNum (show Span.Fits span from hSpan) rfl rfl).trans ?_
    have hFirst := ih first (by simp [children])
    have hLast := ih last (by simp [children])
    have hBody := ih body (by simp [children])
    have hStep := nullable_optionToJson (o := step) fun c hc => ih c (by simp [children, Option.mem_def.mp hc])
    simp [ofMembers?, Members.required, Members.optional, TypedName.ofJson?_toJson, nullable_ofOption, hFirst, hLast,
      hStep, hBody]
  | forIn vars exprs body span =>
    refine (ofJson?_record levels .forIn (show Span.Fits span from hSpan) rfl rfl).trans ?_
    have hVars := list?_array vars fun v _ => TypedName.ofJson?_toJson v
    have hExprs := list?_allToJson exprs fun c hc => ih c (List.mem_append_left [body] hc)
    have hBody := ih body (by simp [children])
    simp [ofMembers?, Members.required, hVars, hExprs, hBody]
  | breakLoop span => exact ofJson?_record levels .breakLoop (show Span.Fits span from hSpan) rfl rfl
  | continueLoop span => exact ofJson?_record levels .continueLoop (show Span.Fits span from hSpan) rfl rfl
  | label name span =>
    refine (ofJson?_record levels .label (show Span.Fits span from hSpan) rfl rfl).trans ?_
    simp [ofMembers?, Members.required, string?]
  | goto target span =>
    refine (ofJson?_record levels .goto (show Span.Fits span from hSpan) rfl rfl).trans ?_
    simp [ofMembers?, Members.required, string?]
  | varDecl visibility mutability vars values span =>
    refine (ofJson?_record levels .varDecl (show Span.Fits span from hSpan) rfl rfl).trans ?_
    have hVars := list?_array vars fun v _ => TypedName.ofJson?_toJson v
    have hValues := list?_allToJson values ih
    simp [ofMembers?, Members.required, Members.withDefault, Visibility.ofJson?_word, Mutability.ofJson?_word, hVars,
      hValues]
  | assign targets values span =>
    refine (ofJson?_record levels .assign (show Span.Fits span from hSpan) rfl rfl).trans ?_
    have hTargets := list?_allToJson targets fun c hc => ih c (mem_alternate.mpr (Or.inl hc))
    have hValues := list?_allToJson values fun c hc => ih c (mem_alternate.mpr (Or.inr hc))
    simp [ofMembers?, Members.required, hTargets, hValues]
  | funcDef visibility name params returns body span =>
    refine (ofJson?_record levels .funcDef (show Span.Fits span from hSpan) rfl rfl).trans ?_
    have hParams := list?_array params fun v _ => TypedName.ofJson?_toJson v
    have hReturns : list? string? (.array (returns.map Json.string)) = some returns := list?_array returns fun _ _ => rfl
    have hBody := ih body (by simp [children])
    simp [ofMembers?, Members.required, Members.withDefault, string?, Visibility.ofJson?_word, hParams, hReturns, hBody]

-- ---------------------------------------------------------------------------
-- Writing what was read
-- ---------------------------------------------------------------------------

/-- All spans of the tree have bounds of 64 bits. -/
def Fits (n : Node) : Prop :=
  ∀ m ∈ n.nodes, m.span.Fits

theorem fits_iff {n : Node} : n.Fits ↔ n.span.Fits ∧ ∀ c ∈ n.children, c.Fits :=
  forall_mem_nodes

section Found

variable {node : Json → Option Node} {P : Node → Prop}

theorem tame_all (hNode : Tame toJson node P) :
    Tame (fun ns => .array (allToJson ns)) (list? node) (fun ns => ∀ n ∈ ns, P n) := by
  simp only [allToJson_eq]
  exact hNode.list

theorem tame_arms (guardName : String) (hNode : Tame toJson node P) :
    Tame (fun arms => .array (armsToJson guardName arms)) (list? (Arm.ofJson? guardName node))
      (fun arms => ∀ a ∈ arms, P a.guard ∧ P a.body) := by
  simp only [armsToJson_eq]
  exact (tame_arm hNode).list

end Found

theorem depth_record_le {tag : String} {fields : Members} {span : Span} {k : Nat} (hk : 1 ≤ k)
    (h : ∀ m ∈ fields, m.2.depth ≤ k) :
    (Json.object (("tag", .string tag) :: fields ++ [("span", span.toJson)])).depth ≤ k + 1 := by
  have hFields : depthMembers (fields ++ [("span", span.toJson)]) ≤ k := by
    induction fields with
    | nil =>
      rw [List.nil_append, depthMembers_cons, depthMembers_nil, Span.depth_toJson]
      omega
    | cons m fields ih =>
      obtain ⟨hFirst, hRest⟩ := List.forall_mem_cons.mp h
      rw [List.cons_append, depthMembers_cons]
      exact Nat.max_le.mpr ⟨hFirst, ih hRest⟩
  rw [depth_object, List.cons_append, depthMembers_cons, depth_string]
  omega

/-- What is read from the members of an object is not written deeper than the object, and all its spans fit. -/
theorem tame_ofMembers? {node : Json → Option Node} {members : Members} {tag : Tag} {span : Span} {n : Node}
    (hNode : Tame toJson node Fits) (hSpan : span.Fits) (hDeep : 1 ≤ depthMembers members)
    (h : ofMembers? node members tag span = some n) : n.toJson.depth ≤ depthMembers members + 1 ∧ n.Fits := by
  have hEmpty : (Json.array []).depth ≤ depthMembers members := hDeep
  cases tag with
  | number =>
    obtain ⟨form, hForm, h⟩ := Option.bind_eq_some_iff.mp h
    obtain ⟨suffix, hSuffix, h⟩ := Option.bind_eq_some_iff.mp h
    obtain rfl := Option.some.inj h
    replace hForm := NumberForm.tame.required hForm
    replace hSuffix := Tame.string.optional hSuffix
    exact ⟨depth_record_le hDeep (by simp [Json.ofOption_eq, hForm.1, hSuffix.1]),
      fits_iff.mpr ⟨hSpan, by simp [children]⟩⟩
  | string =>
    obtain ⟨value, -, h⟩ := Option.bind_eq_some_iff.mp h
    obtain rfl := Option.some.inj h
    exact ⟨depth_record_le hDeep (by simp), fits_iff.mpr ⟨hSpan, by simp [children]⟩⟩
  | boolean =>
    obtain ⟨value, hValue, h⟩ := Option.bind_eq_some_iff.mp h
    obtain rfl := Option.some.inj h
    replace hValue := Tame.bool.required hValue
    exact ⟨depth_record_le hDeep (by simp [hValue.1]), fits_iff.mpr ⟨hSpan, by simp [children]⟩⟩
  | nil =>
    obtain rfl := Option.some.inj h
    exact ⟨depth_record_le hDeep (by simp), fits_iff.mpr ⟨hSpan, by simp [children]⟩⟩
  | varargs =>
    obtain rfl := Option.some.inj h
    exact ⟨depth_record_le hDeep (by simp), fits_iff.mpr ⟨hSpan, by simp [children]⟩⟩
  | id =>
    obtain ⟨name, -, h⟩ := Option.bind_eq_some_iff.mp h
    obtain rfl := Option.some.inj h
    exact ⟨depth_record_le hDeep (by simp), fits_iff.mpr ⟨hSpan, by simp [children]⟩⟩
  | paren =>
    obtain ⟨inner, hInner, h⟩ := Option.bind_eq_some_iff.mp h
    obtain rfl := Option.some.inj h
    replace hInner := hNode.required hInner
    exact ⟨depth_record_le hDeep (by simp [hInner.1]), fits_iff.mpr ⟨hSpan, by simp [children, hInner.2]⟩⟩
  | dotIndex =>
    obtain ⟨base, hBase, h⟩ := Option.bind_eq_some_iff.mp h
    obtain ⟨field, -, h⟩ := Option.bind_eq_some_iff.mp h
    obtain rfl := Option.some.inj h
    replace hBase := hNode.required hBase
    exact ⟨depth_record_le hDeep (by simp [hBase.1]), fits_iff.mpr ⟨hSpan, by simp [children, hBase.2]⟩⟩
  | arrayIndex =>
    obtain ⟨base, hBase, h⟩ := Option.bind_eq_some_iff.mp h
    obtain ⟨index, hIndex, h⟩ := Option.bind_eq_some_iff.mp h
    obtain rfl := Option.some.inj h
    replace hBase := hNode.required hBase
    replace hIndex := hNode.required hIndex
    exact ⟨depth_record_le hDeep (by simp [hBase.1, hIndex.1]),
      fits_iff.mpr ⟨hSpan, by simp [children, hBase.2, hIndex.2]⟩⟩
  | call =>
    obtain ⟨callee, hCallee, h⟩ := Option.bind_eq_some_iff.mp h
    obtain ⟨args, hArgs, h⟩ := Option.bind_eq_some_iff.mp h
    obtain rfl := Option.some.inj h
    replace hCallee := hNode.required hCallee
    replace hArgs := (tame_all hNode).withDefault hEmpty (by simp) (Nat.le_refl _) hArgs
    exact ⟨depth_record_le hDeep (by simp [hCallee.1, hArgs.1]),
      fits_iff.mpr ⟨hSpan, List.forall_mem_cons.mpr ⟨hCallee.2, hArgs.2⟩⟩⟩
  | unaryOp =>
    obtain ⟨op, -, h⟩ := Option.bind_eq_some_iff.mp h
    obtain ⟨operand, hOperand, h⟩ := Option.bind_eq_some_iff.mp h
    obtain rfl := Option.some.inj h
    replace hOperand := hNode.required hOperand
    exact ⟨depth_record_le hDeep (by simp [hOperand.1]), fits_iff.mpr ⟨hSpan, by simp [children, hOperand.2]⟩⟩
  | binaryOp =>
    obtain ⟨op, -, h⟩ := Option.bind_eq_some_iff.mp h
    obtain ⟨lhs, hLhs, h⟩ := Option.bind_eq_some_iff.mp h
    obtain ⟨rhs, hRhs, h⟩ := Option.bind_eq_some_iff.mp h
    obtain rfl := Option.some.inj h
    replace hLhs := hNode.required hLhs
    replace hRhs := hNode.required hRhs
    exact ⟨depth_record_le hDeep (by simp [hLhs.1, hRhs.1]), fits_iff.mpr ⟨hSpan, by simp [children, hLhs.2, hRhs.2]⟩⟩
  | ternaryOp =>
    obtain ⟨op, -, h⟩ := Option.bind_eq_some_iff.mp h
    obtain ⟨first, hFirst, h⟩ := Option.bind_eq_some_iff.mp h
    obtain ⟨second, hSecond, h⟩ := Option.bind_eq_some_iff.mp h
    obtain ⟨third, hThird, h⟩ := Option.bind_eq_some_iff.mp h
    obtain rfl := Option.some.inj h
    replace hFirst := hNode.required hFirst
    replace hSecond := hNode.required hSecond
    replace hThird := hNode.required hThird
    exact ⟨depth_record_le hDeep (by simp [hFirst.1, hSecond.1, hThird.1]),
      fits_iff.mpr ⟨hSpan, by simp [children, hFirst.2, hSecond.2, hThird.2]⟩⟩
  | block =>
    obtain ⟨statements, hStatements, h⟩ := Option.bind_eq_some_iff.mp h
    obtain rfl := Option.some.inj h
    replace hStatements := (tame_all hNode).withDefault hEmpty (by simp) (Nat.le_refl _) hStatements
    exact ⟨depth_record_le hDeep (by simp [hStatements.1]), fits_iff.mpr ⟨hSpan, hStatements.2⟩⟩
  | ret =>
    obtain ⟨values, hValues, h⟩ := Option.bind_eq_some_iff.mp h
    obtain rfl := Option.some.inj h
    replace hValues := (tame_all hNode).withDefault hEmpty (by simp) (Nat.le_refl _) hValues
    exact ⟨depth_record_le hDeep (by simp [hValues.1]), fits_iff.mpr ⟨hSpan, hValues.2⟩⟩
  | cond =>
    obtain ⟨branches, hBranches, h⟩ := Option.bind_eq_some_iff.mp h
    obtain ⟨otherwise, hOtherwise, h⟩ := Option.bind_eq_some_iff.mp h
    obtain rfl := Option.some.inj h
    replace hBranches := (tame_arms "cond" hNode).required hBranches
    replace hOtherwise := hNode.optional hOtherwise
    exact ⟨depth_record_le hDeep (by simp [optionToJson_eq, hBranches.1, hOtherwise.1]),
      fits_iff.mpr ⟨hSpan, forall_mem_arms_append.mpr ⟨hBranches.2, hOtherwise.2⟩⟩⟩
  | switch =>
    obtain ⟨subject, hSubject, h⟩ := Option.bind_eq_some_iff.mp h
    obtain ⟨cases, hCases, h⟩ := Option.bind_eq_some_iff.mp h
    obtain ⟨otherwise, hOtherwise, h⟩ := Option.bind_eq_some_iff.mp h
    obtain rfl := Option.some.inj h
    replace hSubject := hNode.required hSubject
    replace hCases := (tame_arms "value" hNode).withDefault hEmpty (by simp) (Nat.le_refl _) hCases
    replace hOtherwise := hNode.optional hOtherwise
    exact ⟨depth_record_le hDeep (by simp [optionToJson_eq, hSubject.1, hCases.1, hOtherwise.1]),
      fits_iff.mpr ⟨hSpan, List.forall_mem_cons.mpr ⟨hSubject.2, forall_mem_arms_append.mpr ⟨hCases.2, hOtherwise.2⟩⟩⟩⟩
  | «scoped» =>
    obtain ⟨body, hBody, h⟩ := Option.bind_eq_some_iff.mp h
    obtain rfl := Option.some.inj h
    replace hBody := hNode.required hBody
    exact ⟨depth_record_le hDeep (by simp [hBody.1]), fits_iff.mpr ⟨hSpan, by simp [children, hBody.2]⟩⟩
  | whileLoop =>
    obtain ⟨guard, hGuard, h⟩ := Option.bind_eq_some_iff.mp h
    obtain ⟨body, hBody, h⟩ := Option.bind_eq_some_iff.mp h
    obtain rfl := Option.some.inj h
    replace hGuard := hNode.required hGuard
    replace hBody := hNode.required hBody
    exact ⟨depth_record_le hDeep (by simp [hGuard.1, hBody.1]),
      fits_iff.mpr ⟨hSpan, by simp [children, hGuard.2, hBody.2]⟩⟩
  | repeatLoop =>
    obtain ⟨body, hBody, h⟩ := Option.bind_eq_some_iff.mp h
    obtain ⟨guard, hGuard, h⟩ := Option.bind_eq_some_iff.mp h
    obtain rfl := Option.some.inj h
    replace hBody := hNode.required hBody
    replace hGuard := hNode.required hGuard
    exact ⟨depth_record_le hDeep (by simp [hBody.1, hGuard.1]),
      fits_iff.mpr ⟨hSpan, by simp [children, hBody.2, hGuard.2]⟩⟩
  | forNum =>
    obtain ⟨var, hVar, h⟩ := Option.bind_eq_some_iff.mp h
    obtain ⟨first, hFirst, h⟩ := Option.bind_eq_some_iff.mp h
    obtain ⟨comparator, hComparator, h⟩ := Option.bind_eq_some_iff.mp h
    obtain ⟨last, hLast, h⟩ := Option.bind_eq_some_iff.mp h
    obtain ⟨step, hStep, h⟩ := Option.bind_eq_some_iff.mp h
    obtain ⟨body, hBody, h⟩ := Option.bind_eq_some_iff.mp h
    obtain rfl := Option.some.inj h
    replace hVar := TypedName.tame.required hVar
    replace hFirst := hNode.required hFirst
    replace hComparator := Tame.string.optional hComparator
    replace hLast := hNode.required hLast
    replace hStep := hNode.optional hStep
    replace hBody := hNode.required hBody
    have hChildren : ∀ c ∈ [first, last] ++ step.toList ++ [body], c.Fits := by
      simp only [List.forall_mem_append, List.forall_mem_cons, Option.mem_toList]
      exact ⟨⟨⟨hFirst.2, hLast.2, by simp⟩, hStep.2⟩, hBody.2, by simp⟩
    exact ⟨depth_record_le hDeep (by simp [optionToJson_eq, Json.ofOption_eq, hVar.1, hFirst.1, hComparator.1, hLast.1,
      hStep.1, hBody.1]), fits_iff.mpr ⟨hSpan, hChildren⟩⟩
  | forIn =>
    obtain ⟨vars, hVars, h⟩ := Option.bind_eq_some_iff.mp h
    obtain ⟨exprs, hExprs, h⟩ := Option.bind_eq_some_iff.mp h
    obtain ⟨body, hBody, h⟩ := Option.bind_eq_some_iff.mp h
    obtain rfl := Option.some.inj h
    replace hVars := TypedName.tame.list.required hVars
    replace hExprs := (tame_all hNode).required hExprs
    replace hBody := hNode.required hBody
    exact ⟨depth_record_le hDeep (by simp [hVars.1, hExprs.1, hBody.1]),
      fits_iff.mpr ⟨hSpan, List.forall_mem_append.mpr ⟨hExprs.2, by simp [hBody.2]⟩⟩⟩
  | breakLoop =>
    obtain rfl := Option.some.inj h
    exact ⟨depth_record_le hDeep (by simp), fits_iff.mpr ⟨hSpan, by simp [children]⟩⟩
  | continueLoop =>
    obtain rfl := Option.some.inj h
    exact ⟨depth_record_le hDeep (by simp), fits_iff.mpr ⟨hSpan, by simp [children]⟩⟩
  | label =>
    obtain ⟨name, -, h⟩ := Option.bind_eq_some_iff.mp h
    obtain rfl := Option.some.inj h
    exact ⟨depth_record_le hDeep (by simp), fits_iff.mpr ⟨hSpan, by simp [children]⟩⟩
  | goto =>
    obtain ⟨label, -, h⟩ := Option.bind_eq_some_iff.mp h
    obtain rfl := Option.some.inj h
    exact ⟨depth_record_le hDeep (by simp), fits_iff.mpr ⟨hSpan, by simp [children]⟩⟩
  | varDecl =>
    obtain ⟨visibility, -, h⟩ := Option.bind_eq_some_iff.mp h
    obtain ⟨mutability, -, h⟩ := Option.bind_eq_some_iff.mp h
    obtain ⟨vars, hVars, h⟩ := Option.bind_eq_some_iff.mp h
    obtain ⟨values, hValues, h⟩ := Option.bind_eq_some_iff.mp h
    obtain rfl := Option.some.inj h
    replace hVars := TypedName.tame.list.required hVars
    replace hValues := (tame_all hNode).withDefault hEmpty (by simp) (Nat.le_refl _) hValues
    exact ⟨depth_record_le hDeep (by simp [hVars.1, hValues.1]), fits_iff.mpr ⟨hSpan, hValues.2⟩⟩
  | assign =>
    obtain ⟨targets, hTargets, h⟩ := Option.bind_eq_some_iff.mp h
    obtain ⟨values, hValues, h⟩ := Option.bind_eq_some_iff.mp h
    obtain rfl := Option.some.inj h
    replace hTargets := (tame_all hNode).required hTargets
    replace hValues := (tame_all hNode).required hValues
    exact ⟨depth_record_le hDeep (by simp [hTargets.1, hValues.1]),
      fits_iff.mpr ⟨hSpan, fun c hc => (mem_alternate.mp hc).elim (hTargets.2 c) (hValues.2 c)⟩⟩
  | funcDef =>
    obtain ⟨visibility, -, h⟩ := Option.bind_eq_some_iff.mp h
    obtain ⟨name, -, h⟩ := Option.bind_eq_some_iff.mp h
    obtain ⟨params, hParams, h⟩ := Option.bind_eq_some_iff.mp h
    obtain ⟨returns, hReturns, h⟩ := Option.bind_eq_some_iff.mp h
    obtain ⟨body, hBody, h⟩ := Option.bind_eq_some_iff.mp h
    obtain rfl := Option.some.inj h
    replace hParams := TypedName.tame.list.withDefault hEmpty (by simp) (Nat.le_refl _) hParams
    replace hReturns := Tame.string.list.withDefault hEmpty (by simp) (Nat.le_refl _) hReturns
    replace hBody := hNode.required hBody
    exact ⟨depth_record_le hDeep (by simp [hParams.1, hReturns.1, hBody.1]),
      fits_iff.mpr ⟨hSpan, by simp [children, hBody.2]⟩⟩

/-- What is read is not written deeper than what it was read from, and all its spans fit. -/
theorem tame_ofJson? (levels : Nat) : Tame toJson (ofJson? levels) Fits := by
  induction levels with
  | zero =>
    intro j n h
    simp [ofJson?] at h
  | succ levels ih =>
    intro j n h
    cases j with
    | object members =>
      rw [ofJson?] at h
      obtain ⟨tag, -, h⟩ := Option.bind_eq_some_iff.mp h
      obtain ⟨span, hSpan, h⟩ := Option.bind_eq_some_iff.mp h
      obtain ⟨hDeep, hFits⟩ := Span.tame.required hSpan
      rw [Span.depth_toJson] at hDeep
      rw [depth_object]
      exact tame_ofMembers? ih hFits hDeep h
    | null | bool | number | string | array | unreadable => simp [ofJson?] at h

-- ---------------------------------------------------------------------------
-- Trees as values
-- ---------------------------------------------------------------------------

section Values

theorem plain_record {tag : String} {fields : Members} {span : Span} (hSpan : span.Fits)
    (h : ∀ m ∈ fields, Plain m.2) : Plain (.object (("tag", .string tag) :: fields ++ [("span", span.toJson)])) := by
  have hSpanPlain : Plain span.toJson := .object (by simp [Plain.nat hSpan.1, Plain.nat hSpan.2])
  refine .object ?_
  simp only [List.cons_append, List.forall_mem_cons, List.forall_mem_append]
  exact ⟨.string tag, h, hSpanPlain, by simp⟩

theorem plain_ofOption (o : Option String) : Plain (.ofOption o) := by
  cases o with
  | none => exact .null
  | some s => exact .string s

theorem plain_form (form : NumberForm) : Plain form.toJson := by
  cases form with
  | scientific mantissa exponent =>
    have hParts : Plain (.object [("mantissa", .string mantissa), ("exponent", .string exponent)]) :=
      .object (by simp [Plain.string])
    exact .object (by simp [hParts])
  | integer | decimal | hex | binary => exact .object (by simp [Plain.string])

theorem plain_typedName (t : TypedName) : Plain t.toJson :=
  .object (by simp [Plain.string, plain_ofOption])

theorem plain_typedNames (ts : List TypedName) : Plain (.array (ts.map TypedName.toJson)) :=
  .array (by simp [plain_typedName])

theorem plain_all {ns : List Node} (h : ∀ n ∈ ns, Plain n.toJson) : Plain (.array (allToJson ns)) := by
  rw [allToJson_eq]
  exact .array (List.forall_mem_map.mpr h)

theorem plain_option {o : Option Node} (h : ∀ n ∈ o, Plain n.toJson) : Plain (optionToJson o) := by
  cases o with
  | none => exact .null
  | some n => exact h n rfl

theorem plain_arms (guardName : String) {arms : List (Arm Node)}
    (h : ∀ a ∈ arms, Plain a.guard.toJson ∧ Plain a.body.toJson) : Plain (.array (armsToJson guardName arms)) := by
  rw [armsToJson_eq]
  refine .array (List.forall_mem_map.mpr fun a ha => ?_)
  exact .object (by simp [h a ha])

theorem plain_toJson (n : Node) (hFits : n.Fits) : Plain n.toJson := by
  induction n using childInduction with
  | step n hBelow =>
    obtain ⟨hSpan, hChildren⟩ := fits_iff.mp hFits
    have ih : ∀ c ∈ n.children, Plain c.toJson := fun c hc => hBelow c hc (hChildren c hc)
    clear hBelow hFits hChildren
    cases n with
    | number form suffix span =>
      exact plain_record hSpan (by simp [plain_form, plain_ofOption])
    | string value span =>
      exact plain_record hSpan (by simp [Plain.string])
    | boolean value span =>
      exact plain_record hSpan (by simp [Plain.bool])
    | nil span =>
      exact plain_record hSpan (by simp)
    | varargs span =>
      exact plain_record hSpan (by simp)
    | id name span =>
      exact plain_record hSpan (by simp [Plain.string])
    | paren inner span =>
      have hInner := ih inner (by simp [children])
      exact plain_record hSpan (by simp [hInner])
    | dotIndex base field span =>
      have hBase := ih base (by simp [children])
      exact plain_record hSpan (by simp [Plain.string, hBase])
    | arrayIndex base index span =>
      have hBase := ih base (by simp [children])
      have hIndex := ih index (by simp [children])
      exact plain_record hSpan (by simp [hBase, hIndex])
    | call callee args span =>
      have hCallee := ih callee (by simp [children])
      have hArgs := plain_all fun c hc => ih c (List.mem_cons_of_mem callee hc)
      exact plain_record hSpan (by simp [hCallee, hArgs])
    | unaryOp op operand span =>
      have hOperand := ih operand (by simp [children])
      exact plain_record hSpan (by simp [Plain.string, hOperand])
    | binaryOp op lhs rhs span =>
      have hLeft := ih lhs (by simp [children])
      have hRight := ih rhs (by simp [children])
      exact plain_record hSpan (by simp [Plain.string, hLeft, hRight])
    | ternaryOp op first second third span =>
      have hFirst := ih first (by simp [children])
      have hSecond := ih second (by simp [children])
      have hThird := ih third (by simp [children])
      exact plain_record hSpan (by simp [Plain.string, hFirst, hSecond, hThird])
    | block statements span =>
      have hStatements : Plain (.array (allToJson statements)) := plain_all ih
      exact plain_record hSpan (by simp [hStatements])
    | ret values span =>
      have hValues : Plain (.array (allToJson values)) := plain_all ih
      exact plain_record hSpan (by simp [hValues])
    | cond branches otherwise span =>
      obtain ⟨hBranches, hOtherwise⟩ := forall_mem_arms_append.mp ih
      have hArms := plain_arms "cond" hBranches
      have hElse := plain_option hOtherwise
      exact plain_record hSpan (by simp [hArms, hElse])
    | switch subject cases otherwise span =>
      have hSubject := ih subject (by simp [children])
      obtain ⟨hCases, hOtherwise⟩ := forall_mem_arms_append.mp fun c hc => ih c (List.mem_cons_of_mem subject hc)
      have hArms := plain_arms "value" hCases
      have hElse := plain_option hOtherwise
      exact plain_record hSpan (by simp [hSubject, hArms, hElse])
    | «scoped» body span =>
      have hBody := ih body (by simp [children])
      exact plain_record hSpan (by simp [hBody])
    | whileLoop guard body span =>
      have hGuard := ih guard (by simp [children])
      have hBody := ih body (by simp [children])
      exact plain_record hSpan (by simp [hGuard, hBody])
    | repeatLoop body guard span =>
      have hGuard := ih guard (by simp [children])
      have hBody := ih body (by simp [children])
      exact plain_record hSpan (by simp [hGuard, hBody])
    | forNum var first comparator last step body span =>
      have hFirst := ih first (by simp [children])
      have hLast := ih last (by simp [children])
      have hBody := ih body (by simp [children])
      have hStep := plain_option (o := step) fun c hc => ih c (by simp [children, Option.mem_def.mp hc])
      exact plain_record hSpan (by simp [plain_typedName, plain_ofOption, hFirst, hLast, hStep, hBody])
    | forIn vars exprs body span =>
      have hExprs := plain_all fun c hc => ih c (List.mem_append_left [body] hc)
      have hBody := ih body (by simp [children])
      exact plain_record hSpan (by simp [plain_typedNames, hExprs, hBody])
    | breakLoop span =>
      exact plain_record hSpan (by simp)
    | continueLoop span =>
      exact plain_record hSpan (by simp)
    | label name span =>
      exact plain_record hSpan (by simp [Plain.string])
    | goto target span =>
      exact plain_record hSpan (by simp [Plain.string])
    | varDecl visibility mutability vars values span =>
      have hValues : Plain (.array (allToJson values)) := plain_all ih
      exact plain_record hSpan (by simp [Plain.string, plain_typedNames, hValues])
    | assign targets values span =>
      have hTargets := plain_all fun c hc => ih c (mem_alternate.mpr (Or.inl hc))
      have hValues := plain_all fun c hc => ih c (mem_alternate.mpr (Or.inr hc))
      exact plain_record hSpan (by simp [hTargets, hValues])
    | funcDef visibility name params returns body span =>
      have hReturns : Plain (.array (returns.map .string)) := .array (by simp [Plain.string])
      have hBody := ih body (by simp [children])
      exact plain_record hSpan (by simp [Plain.string, plain_typedNames, hReturns, hBody])

end Values

-- ---------------------------------------------------------------------------
-- Depth
-- ---------------------------------------------------------------------------

theorem depth_lt_field {tag : String} {fields : Members} {span : Span} {j : Json} (name : String)
    (h : (name, j) ∈ fields) :
    j.depth < (Json.object (("tag", .string tag) :: fields ++ [("span", span.toJson)])).depth := by
  rw [depth_object]
  exact Nat.lt_succ_of_le (depth_le_depthMembers (List.mem_append_left _ (List.mem_cons_of_mem _ h)))

theorem depth_le_all {c : Node} {ns : List Node} (h : c ∈ ns) : c.toJson.depth ≤ (Json.array (allToJson ns)).depth := by
  rw [allToJson_eq, depth_array]
  exact Nat.le_succ_of_le (depth_le_depthItems (List.mem_map_of_mem h))

theorem depth_le_option {c : Node} {o : Option Node} (h : c ∈ o.toList) : c.toJson.depth ≤ (optionToJson o).depth := by
  cases o with
  | none => simp at h
  | some n =>
    obtain rfl := List.mem_singleton.mp h
    exact Nat.le_refl _

theorem depth_le_arms (guardName : String) {c : Node} {arms : List (Arm Node)}
    (h : c ∈ arms.flatMap (fun a => [a.guard, a.body])) :
    c.toJson.depth ≤ (Json.array (armsToJson guardName arms)).depth := by
  obtain ⟨a, ha, hc⟩ := List.mem_flatMap.mp h
  have hArm : (armToJson guardName a).depth ≤ depthItems (armsToJson guardName arms) := by
    rw [armsToJson_eq]
    exact depth_le_depthItems (List.mem_map_of_mem ha)
  rw [armToJson, depth_object, depthMembers_cons, depthMembers_cons] at hArm
  rw [depth_array]
  simp only [List.mem_cons, List.not_mem_nil, or_false] at hc
  rcases hc with rfl | rfl <;> omega

theorem depth_lt_of_mem_children {c n : Node} (h : c ∈ n.children) : c.toJson.depth < n.toJson.depth := by
  cases n with
  | paren inner span =>
    obtain rfl := List.mem_singleton.mp h
    exact depth_lt_field "expr" (by simp)
  | dotIndex base field span =>
    obtain rfl := List.mem_singleton.mp h
    exact depth_lt_field "expr" (by simp)
  | arrayIndex base index span =>
    simp only [children, List.mem_cons, List.not_mem_nil, or_false] at h
    rcases h with rfl | rfl
    · exact depth_lt_field "expr" (by simp)
    · exact depth_lt_field "index" (by simp)
  | call callee args span =>
    rcases List.mem_cons.mp h with rfl | h
    · exact depth_lt_field "callee" (by simp)
    · exact Nat.lt_of_le_of_lt (depth_le_all h) (depth_lt_field "args" (by simp))
  | unaryOp op operand span =>
    obtain rfl := List.mem_singleton.mp h
    exact depth_lt_field "expr" (by simp)
  | binaryOp op lhs rhs span =>
    simp only [children, List.mem_cons, List.not_mem_nil, or_false] at h
    rcases h with rfl | rfl
    · exact depth_lt_field "lhs" (by simp)
    · exact depth_lt_field "rhs" (by simp)
  | ternaryOp op first second third span =>
    simp only [children, List.mem_cons, List.not_mem_nil, or_false] at h
    rcases h with rfl | rfl | rfl
    · exact depth_lt_field "second" (by simp)
    · exact depth_lt_field "first" (by simp)
    · exact depth_lt_field "third" (by simp)
  | block statements span =>
    have hAll : _ ≤ (Json.array (allToJson statements)).depth := depth_le_all h
    exact Nat.lt_of_le_of_lt hAll (depth_lt_field "statements" (by simp))
  | ret values span =>
    have hAll : _ ≤ (Json.array (allToJson values)).depth := depth_le_all h
    exact Nat.lt_of_le_of_lt hAll (depth_lt_field "values" (by simp))
  | cond branches otherwise span =>
    rcases List.mem_append.mp h with h | h
    · exact Nat.lt_of_le_of_lt (depth_le_arms "cond" h) (depth_lt_field "branches" (by simp))
    · exact Nat.lt_of_le_of_lt (depth_le_option h) (depth_lt_field "else_block" (by simp))
  | switch subject cases otherwise span =>
    rcases List.mem_append.mp h with h | h
    · rcases List.mem_cons.mp h with rfl | h
      · exact depth_lt_field "value" (by simp)
      · exact Nat.lt_of_le_of_lt (depth_le_arms "value" h) (depth_lt_field "cases" (by simp))
    · exact Nat.lt_of_le_of_lt (depth_le_option h) (depth_lt_field "default" (by simp))
  | «scoped» body span =>
    obtain rfl := List.mem_singleton.mp h
    exact depth_lt_field "block" (by simp)
  | whileLoop guard body span =>
    simp only [children, List.mem_cons, List.not_mem_nil, or_false] at h
    rcases h with rfl | rfl
    · exact depth_lt_field "cond" (by simp)
    · exact depth_lt_field "block" (by simp)
  | repeatLoop body guard span =>
    simp only [children, List.mem_cons, List.not_mem_nil, or_false] at h
    rcases h with rfl | rfl
    · exact depth_lt_field "block" (by simp)
    · exact depth_lt_field "cond" (by simp)
  | forNum var first comparator last step body span =>
    simp only [children, List.mem_append, List.mem_cons, List.not_mem_nil, or_false] at h
    rcases h with ((rfl | rfl) | h) | rfl
    · exact depth_lt_field "begin" (by simp)
    · exact depth_lt_field "end" (by simp)
    · exact Nat.lt_of_le_of_lt (depth_le_option h) (depth_lt_field "step" (by simp))
    · exact depth_lt_field "block" (by simp)
  | forIn vars exprs body span =>
    rcases List.mem_append.mp h with h | h
    · exact Nat.lt_of_le_of_lt (depth_le_all h) (depth_lt_field "exprs" (by simp))
    · obtain rfl := List.mem_singleton.mp h
      exact depth_lt_field "block" (by simp)
  | varDecl visibility mutability vars values span =>
    have hAll : _ ≤ (Json.array (allToJson values)).depth := depth_le_all h
    exact Nat.lt_of_le_of_lt hAll (depth_lt_field "values" (by simp))
  | assign targets values span =>
    rcases mem_alternate.mp h with h | h
    · exact Nat.lt_of_le_of_lt (depth_le_all h) (depth_lt_field "targets" (by simp))
    · exact Nat.lt_of_le_of_lt (depth_le_all h) (depth_lt_field "values" (by simp))
  | funcDef visibility name params returns body span =>
    obtain rfl := List.mem_singleton.mp h
    exact depth_lt_field "block" (by simp)
  | number | string | boolean | nil | varargs | id | breakLoop | continueLoop | label | goto => simp [children] at h

/-- A tree is read back from its value if there are as many levels as the value has. -/
theorem ofJson?_toJson {n : Node} (hFits : n.Fits) {levels : Nat} (h : n.toJson.depth ≤ levels) :
    ofJson? levels n.toJson = some n := by
  induction n using childInduction generalizing levels with
  | step n ih =>
    obtain ⟨hSpan, hChildren⟩ := fits_iff.mp hFits
    cases levels with
    | zero =>
      exfalso
      unfold toJson at h
      rw [depth_object] at h
      omega
    | succ levels =>
      refine ofJson?_toJson_step hSpan (fun c hc => ih c hc (hChildren c hc) ?_)
      have hLess := depth_lt_of_mem_children hc
      omega

-- ---------------------------------------------------------------------------
-- The round trip
-- ---------------------------------------------------------------------------

theorem blotRoot_toJson (n : Node) : blotRoot n.toJson = n.toJson := by
  have hSpan (s : Span) : blotSpan s.toJson = s.toJson := by simp [blotSpan, Span.toJson]
  cases n <;> simp [toJson, blotRoot, hSpan]

theorem depthMembers_map_le {blot : String × Json → String × Json} (h : ∀ m, (blot m).2.depth ≤ m.2.depth)
    (members : Members) : depthMembers (members.map blot) ≤ depthMembers members := by
  induction members with
  | nil => exact Nat.le_refl _
  | cons m members ih =>
    have hHead := h m
    rw [List.map_cons, depthMembers_cons, depthMembers_cons]
    omega

theorem depth_blotSpan_le (j : Json) : (blotSpan j).depth ≤ j.depth := by
  cases j with
  | object members =>
    rw [blotSpan, depth_object, depth_object]
    refine Nat.succ_le_succ (depthMembers_map_le (fun m => ?_) members)
    split
    · exact Nat.le_refl _
    · exact Nat.zero_le _
  | null | bool | number | string | array | unreadable => exact Nat.le_refl _

theorem depth_blotRoot_le (j : Json) : (blotRoot j).depth ≤ j.depth := by
  cases j with
  | object members =>
    rw [blotRoot, depth_object, depth_object]
    refine Nat.succ_le_succ (depthMembers_map_le (fun m => ?_) members)
    split
    · exact depth_blotSpan_le m.2
    · exact Nat.le_refl _
  | null | bool | number | string | array | unreadable => exact Nat.le_refl _

theorem parse?_eq_some_iff {text : String} {n : Node} :
    parse? text = some n ↔ ∃ j, Json.parse? text = some j ∧ (blotRoot j).readable = true ∧
      (blotRoot j).depth ≤ maxDepth ∧ ofJson? maxDepth (blotRoot j) = some n := by
  simp only [parse?, Option.bind_eq_some_iff, ofLimitedJson?, Option.ite_none_right_eq_some, Bool.and_eq_true,
    decide_eq_true_eq, and_assoc]

/-- A tree that was read fits, and is not written deeper than the text it was read from. -/
theorem fits_of_parse? {text : String} {n : Node} (h : parse? text = some n) :
    n.Fits ∧ n.toJson.depth ≤ maxDepth ∧ ∃ j, Json.parse? text = some j ∧ n.toJson.depth ≤ j.depth := by
  obtain ⟨j, hText, -, hDepth, hRead⟩ := parse?_eq_some_iff.mp h
  obtain ⟨hLess, hFits⟩ := tame_ofJson? maxDepth _ _ hRead
  have hBlot := depth_blotRoot_le j
  exact ⟨hFits, Nat.le_trans hLess hDepth, j, hText, Nat.le_trans hLess hBlot⟩

/-- A tree that fits is read back from its text. -/
theorem parse?_render_of_fits {n : Node} (hFits : n.Fits) (hDepth : n.toJson.depth ≤ maxDepth) :
    parse? n.render = some n := by
  have hPlain := plain_toJson n hFits
  refine parse?_eq_some_iff.mpr ⟨n.toJson, Json.parse?_render hPlain, ?_⟩
  rw [blotRoot_toJson]
  exact ⟨hPlain.readable, hDepth, ofJson?_toJson hFits hDepth⟩

/-- Reading undoes writing for exactly the trees with 64-bit spans whose text keeps to the nesting limit, and every tree
that was read from any text is one of them, since it is not written deeper than that text. -/
theorem written_tree_is_read_back :
    (∀ n : Node, parse? n.render = some n ↔ n.Fits ∧ n.toJson.depth ≤ maxDepth) ∧
      ∀ (text : String) (n : Node), parse? text = some n →
        parse? n.render = some n ∧ ∃ j, Json.parse? text = some j ∧ n.toJson.depth ≤ j.depth := by
  refine ⟨fun n => ⟨fun h => ?_, fun h => parse?_render_of_fits h.1 h.2⟩, fun text n h => ?_⟩
  · obtain ⟨hFits, hDepth, -⟩ := fits_of_parse? h
    exact ⟨hFits, hDepth⟩
  · obtain ⟨hFits, hDepth, hText⟩ := fits_of_parse? h
    exact ⟨parse?_render_of_fits hFits hDepth, hText⟩

/-- A text with its span as an array and no values is read, and what is written for it spells both out. -/
theorem written_tree_is_read_back_abbreviated :
    parse? "\x7b\"span\":[4,10],\"tag\":\"Return\"\x7d" = some (.ret [] ⟨4, 10⟩) ∧
      parse? (Node.ret [] ⟨4, 10⟩).render = some (.ret [] ⟨4, 10⟩) := by
  have hText : "\x7b\"span\":[4,10],\"tag\":\"Return\"\x7d" =
      (Json.object [("span", .array [.ofNat 4, .ofNat 10]), ("tag", .string "Return")]).render := by decide +kernel
  have hPlain : Plain (.object [("span", .array [.ofNat 4, .ofNat 10]), ("tag", .string "Return")]) :=
    .object (by simp [Plain.string, Plain.array, Plain.nat, UInt64.size])
  have hRead : parse? "\x7b\"span\":[4,10],\"tag\":\"Return\"\x7d" = some (.ret [] ⟨4, 10⟩) := by
    rw [hText, parse?, Json.parse?_render hPlain]
    rfl
  exact ⟨hRead, (written_tree_is_read_back.2 _ _ hRead).1⟩

end Node

end Lowering
