import Lowering.Main
import Lowering.Proofs.C.Declaration
import Lowering.Proofs.Independence

/-!
# Loop headers

The header of a numeric loop declares several variables at once: the temporaries for the values that are computed once, and
the loop variable. The spelling of the loop's type is written once, before all of them. In C the stars of a type belong to a
declarator, so if the spelling ends in a star, the first temporary is a pointer and the other variables are not.

* `Node.stays_textAt` — the text of an expression stays within its declarator.
* `loopDeclaration`, `loopText_eq_declaration` — the header as a declaration.
* `loop_header_types_iff` — what C reads in the header of a loop; `generate_pointer_loop` is one with two types.
-/

namespace Lowering

open C Addition

-- ---------------------------------------------------------------------------
-- Initializers
-- ---------------------------------------------------------------------------

/-- A node of an expression whose names are C identifiers. Its digits neither have a part in the layout nor separate
anything. -/
structure Node.IsOperand (n : Node) : Prop where
  expression : n.tag.isExpression = true
  names : ∀ name ∈ n.identifiers, IsIdentifier name.toList
  digits : ∀ form ∈ n.form?, form.text.toList.all isQuiet = true

instance (n : Node) : Decidable n.IsOperand :=
  decidable_of_iff (n.tag.isExpression = true ∧ (∀ name ∈ n.identifiers, IsIdentifier name.toList) ∧
      ∀ form ∈ n.form?, form.text.toList.all isQuiet = true)
    ⟨fun h => ⟨h.1, h.2.1, h.2.2⟩, fun h => ⟨h.expression, h.names, h.digits⟩⟩

theorem stays_parens {s : String} (h : Flows [] s []) : Stays [] ("(" ++ (s ++ ")")) [] :=
  (by decide : Stays [] "(" ['(']).append (h.stays.append (by decide))

theorem stays_brackets {s : String} (h : Flows [] s []) : Stays [] ("[" ++ (s ++ "]")) [] :=
  (by decide : Stays [] "[" ['[']).append (h.stays.append (by decide))

theorem stays_wrapped (p : Place) {as : List Addition} (h : Stays [] (pageText as) []) :
    Stays [] (pageText (p.wrapped as)) [] := by
  unfold Place.wrapped
  split
  · rw [pageText_append, pageText_append, pageText_text, pageText_text, String.append_assoc]
    exact stays_parens h.flows
  · exact h

theorem NumberForm.isQuiet_spelling {form : NumberForm} {spelling : String} (h : form.text.toList.all isQuiet = true)
    (hSpelling : form.spelling = .ok spelling) : ∀ c ∈ spelling.toList, isQuiet c = true := by
  have hUnsigned : ∀ c ∈ "u".toList, isQuiet c = true := List.forall_iff_forall_mem.mp (by decide)
  cases form with
  | integer digits | decimal digits | scientific mantissa exponent =>
    obtain rfl := Except.ok.inj hSpelling
    exact List.all_eq_true.mp h
  | hex digits =>
    obtain rfl := Except.ok.inj hSpelling
    rw [String.toList_append]
    exact List.forall_mem_append.mpr ⟨List.all_eq_true.mp h, hUnsigned⟩
  | binary digits =>
    rw [NumberForm.spelling] at hSpelling
    split at hSpelling
    · rename_i value _
      obtain rfl := Except.ok.inj hSpelling
      rw [String.toList_append]
      exact List.forall_mem_append.mpr
        ⟨fun c hc => isQuiet_of_isWordChar (isWordChar_of_mem_decimal value c hc), hUnsigned⟩
    · simp at hSpelling

/-- A number, with or without a cast. -/
theorem stays_number {form : NumberForm} (h : form.text.toList.all isQuiet = true) (suffix : Option String) :
    Stays [] (pageText (numberAdditions form suffix)) [] := by
  cases hResolve : resolveNumber form suffix with
  | error cause =>
    rw [numberAdditions, hResolve]
    exact .empty
  | ok n =>
    have hQuiet := form.isQuiet_spelling h (parts_of_resolveNumber hResolve).1
    rw [pageText_numberAdditions hResolve, ResolvedNumber.text]
    split
    · have hOpen : Stays [] "((" ['(', '('] := by decide
      have hCast : Stays [] ("((" ++ typeSpelling n.type.name ++ ")") ['('] :=
        (hOpen.append (flows_typeSpelling _).stays).append (by decide)
      exact (hCast.append (stays_of_isQuiet hQuiet)).append (by decide)
    · exact stays_of_isQuiet hQuiet

theorem stays_unaryMark (op : String) : Stays [] (unaryMark op) [] := by
  unfold unaryMark
  cases UnaryOp.ofName? op with
  | none => exact .empty
  | some o => cases o <;> decide

theorem stays_binaryMark (op : String) : Stays [] (" " ++ binaryMark op ++ " ") [] := by
  unfold binaryMark
  cases BinaryOp.ofName? op with
  | none => decide
  | some o => cases o <;> decide

theorem stays_ternaryMarks (op : String) :
    Stays [] (" " ++ (ternaryMarks op).1 ++ " ") [] ∧ Stays [] (" " ++ (ternaryMarks op).2 ++ " ") [] := by
  unfold ternaryMarks
  cases TernaryOp.ofName? op with
  | none => decide
  | some o =>
    cases o
    decide

/-- Whatever separates something in the text of an expression is in brackets. One case for each kind of expression. -/
theorem Node.stays_textAt {n : Node} (h : ∀ m ∈ n.nodes, m.IsOperand) (p : Place) : Stays [] (n.textAt p) [] := by
  induction n using childInduction generalizing p with
  | step n ih =>
    obtain ⟨hOwn, hBelow⟩ := forall_mem_nodes.mp h
    have hPart : ∀ c ∈ n.children, ∀ q : Place, Stays [] (pageText (c.additions q)) [] := fun c hc q =>
      ih c hc (hBelow c hc) q
    -- the tree need not be sound: what cannot be written leaves no text
    unfold textAt
    cases n with
    | number form suffix span => exact stays_number (hOwn.digits form rfl) suffix
    | string value span =>
      rw [additions, pageText_stringAdditions]
      unfold recordText
      exact ((by decide : Stays [] "((nlstring*)&" ['(']).append (stays_word (Literal.isIdentifier_recordName span))).append
        (by decide)
    | boolean value span =>
      rw [additions, pageText_cons, pageText_text]
      cases value <;> decide
    | nil span =>
      rw [additions, pageText_cons, pageText_text]
      decide
    | varargs span => exact .empty
    | id name span =>
      rw [additions, pageText_text]
      exact stays_word (Target.isIdentifier_escapeName (hOwn.names name (by simp [identifiers])))
    | paren inner span =>
      rw [additions, pageText_append, pageText_append, pageText_text, pageText_text, String.append_assoc]
      exact stays_parens (hPart inner (by simp [children]) _).flows
    | dotIndex base field span =>
      have hField : Stays [] (Target.escapeName field) [] :=
        stays_word (Target.isIdentifier_escapeName (hOwn.names field (by simp [identifiers])))
      rw [additions, pageText_append, pageText_text]
      exact (hPart base (by simp [children]) _).append ((by decide : Stays [] "." []).append hField)
    | arrayIndex base index span =>
      rw [additions, pageText_append, pageText_append, pageText_append, pageText_text, pageText_text, String.append_assoc,
        String.append_assoc]
      exact (hPart base (by simp [children]) _).append (stays_brackets (hPart index (by simp [children]) _).flows)
    | call callee args span =>
      have hArgs : ∀ as ∈ additionsAll (p.descend .call) args, Flows [] (pageText as) [] :=
        forall_mem_additionsAll.mpr fun c hc => (hPart c (by simp [children, hc]) _).flows
      have hList := stays_parens (flows_commaSeparated hArgs)
      cases hCallee : Expression.intrinsic? callee with
      | none =>
        rw [pageText_call hCallee]
        exact (hPart callee (by simp [children]) _).append hList
      | some intrinsic =>
        cases intrinsic
        rw [additions, hCallee, pageText_printAdditions]
        exact (stays_word (isIdentifier_numbered (by decide) span.start)).append hList
    | unaryOp op operand span =>
      refine stays_wrapped _ ?_
      rw [pageText_append, pageText_text]
      exact (stays_unaryMark op).append (hPart operand (by simp [children]) _)
    | binaryOp op lhs rhs span =>
      refine stays_wrapped _ ?_
      rw [pageText_append, pageText_append, pageText_text]
      exact ((hPart lhs (by simp [children]) _).append (stays_binaryMark op)).append (hPart rhs (by simp [children]) _)
    | ternaryOp op first second third span =>
      obtain ⟨hMark, hMark'⟩ := stays_ternaryMarks op
      refine stays_wrapped _ ?_
      rw [pageText_append, pageText_append, pageText_append, pageText_append, pageText_text, pageText_text]
      exact ((((hPart second (by simp [children]) _).append hMark).append (hPart first (by simp [children]) _)).append
        hMark').append (hPart third (by simp [children]) _)
    | _ => exact absurd hOwn.expression (by simp [tag, Tag.isExpression])

-- ---------------------------------------------------------------------------
-- Types
-- ---------------------------------------------------------------------------

/-- The source types that are pointers in C. -/
def pointerTypes : List String :=
  ["string", "pointer", "cstring"]

/-- A C type from its spelling: the word up to the first star, and the number of stars. -/
def objectType (spelling : String) : ObjectType :=
  ⟨String.ofList (spelling.toList.takeWhile (· ≠ '*')), spelling.toList.count '*'⟩

/-- The spellings of the type table are words with stars, and only those of pointers have stars. -/
theorem objectType_of_known {source : String} (h : KnownType source) :
    (objectType (typeSpelling source)).text = typeSpelling source ∧
      isTypeName (objectType (typeSpelling source)).word.toList = true ∧
      ((objectType (typeSpelling source)).stars = 0 ↔ source ∉ pointerTypes) := by
  have hTable : ∀ e ∈ Target.primitiveTypes, (objectType e.2.spelling).text = e.2.spelling ∧
      isTypeName (objectType e.2.spelling).word.toList = true ∧
      ((objectType e.2.spelling).stars = 0 ↔ e.1 ∉ pointerTypes) := by
    decide +kernel
  obtain ⟨found, hFind⟩ := Option.isSome_iff_exists.mp h
  rw [typeSpelling, hFind]
  exact hTable (source, found) (mem_of_find? hFind)

/-- A numeric loop that is written has a type of the type table, which it is given or which its first value shows. -/
theorem loopType_of_visit {var : TypedName} {first last body : Node} {comparator : Option String} {step : Option Node}
    {span : Span} {d e : Draft} (hTypes : d.types = Target.primitiveTypes)
    (hVisit : visit .standard (.forNum var first comparator last step body span) d = .ok () e) :
    ∃ source d', typeName? var (some first) = some source ∧ KnownType source ∧
      Loop.varType var first span d = .ok (typeSpelling source) d' := by
  -- a loop that was written is sound, and then its type can be looked at on the same draft
  obtain ⟨depth, hInside⟩ := d.exists_inside
  obtain ⟨hSound, -⟩ := (Node.visit_adds _ depth d.place hInside).holds_of_run ⟨hTypes, rfl⟩ hVisit
  obtain ⟨hOwn, hBelow⟩ := Node.soundAt_iff.mp hSound
  have hFirst := hBelow first (by simp [Node.children])
  have hDeducible : Deducible var (some first) :=
    (Node.deducible_iff (by rintro v ⟨⟩; exact hFirst)).mpr hOwn.2
  have hKnown := knownType_of_deducible hDeducible
  obtain ⟨events, hRun⟩ := (loopType_adds var first span).done d ⟨hTypes, rfl⟩ hDeducible
    (Draft.fresh_of_names_nil (Node.reading_name?.typeNeeds _))
  cases hSource : typeName? var (some first) with
  | none =>
    rw [hSource] at hKnown
    exact absurd hKnown (by decide)
  | some source =>
    rw [hSource] at hKnown hRun
    exact ⟨source, _, rfl, hKnown, hRun⟩

-- ---------------------------------------------------------------------------
-- Headers
-- ---------------------------------------------------------------------------

/-- The variables that a header declares after its first one. -/
def laterNames (name : String) (hasStep : Bool) : List String :=
  [Loop.temporary name "end"] ++ (if hasStep then [Loop.temporary name "step"] else []) ++ [name]

/-- What the header of a numeric loop declares. Only the first declarator has the stars of the type. -/
def loopDeclaration (p : Place) (type : ObjectType) (name : String) (first last : Node) (step : Option Node) :
    VariableDeclaration where
  word := type.word
  first := ⟨type.stars, Loop.temporary name "begin", first.textAt p⟩
  rest := [⟨0, Loop.temporary name "end", last.textAt p⟩]
    ++ step.toList.map (fun s => ⟨0, Loop.temporary name "step", s.textAt p⟩) ++ [⟨0, name, Loop.temporary name "begin"⟩]

section Header

variable {p : Place} {type : ObjectType} {name : String} {first last : Node} {step : Option Node}

theorem declared_loopDeclaration :
    (loopDeclaration p type name first last step).declared =
      (Loop.temporary name "begin", type) :: (laterNames name step.isSome).map fun n => (n, ⟨type.word, 0⟩) := by
  cases step <;> rfl

/-- The header is the declaration, the test and the step. -/
theorem loopText_eq_declaration {source : String} (hText : type.text = typeSpelling source) :
    Node.loopText p source name first last step =
      "for (" ++ ((loopDeclaration p type name first last step).text ++ ("; " ++
        (name ++ " <= " ++ Loop.temporary name "end" ++ "; " ++ increment name step.isSome ++ ") \x7b"))) := by
  have hNoStars : starText 0 = "" := rfl
  have hHeader : (loopDeclaration p type name first last step).text = typeSpelling source ++ " " ++
      (Loop.temporary name "begin" ++ " = " ++ first.textAt p) ++ String.join
        ((loopDeclaration p type name first last step).rest.map fun x => ", " ++ (starText x.stars ++ x.text)) := by
    rw [← hText]
    rfl
  rw [hHeader]
  unfold Node.loopText loopEnd
  cases step with
  | none =>
    simp [loopDeclaration, InitDeclarator.text, hNoStars, Node.additionsOption, stepAdditions, String.append_assoc]
  | some s =>
    rw [Node.additionsOption, pageText_stepAdditions_some]
    simp [loopDeclaration, InitDeclarator.text, hNoStars, Node.textAt, String.append_assoc]

theorem isIdentifier_temporary {role : String} (h : IsIdentifier name.toList) (hRole : role.toList.all isWordChar = true) :
    IsIdentifier (Loop.temporary name role).toList := by
  have hStart : IsIdentifier "__".toList := by decide
  simp only [Loop.temporary, String.toList_append]
  exact ((hStart.append (isWordChar_of_mem h)).append (List.all_eq_true.mp (by decide))).append
    (List.all_eq_true.mp hRole)

/-- The declaration can be read back if its initializers are expressions. -/
theorem wellFormed_loopDeclaration (hWord : isTypeName type.word.toList = true) (hName : IsIdentifier name.toList)
    (hValues : ∀ n ∈ first :: last :: step.toList, ∀ m ∈ n.nodes, m.IsOperand) :
    (loopDeclaration p type name first last step).WellFormed := by
  have hBegin : IsIdentifier (Loop.temporary name "begin").toList := isIdentifier_temporary hName (by decide)
  have hEnd : IsIdentifier (Loop.temporary name "end").toList := isIdentifier_temporary hName (by decide)
  have hStep : IsIdentifier (Loop.temporary name "step").toList := isIdentifier_temporary hName (by decide)
  have hText : ∀ n ∈ first :: last :: step.toList, Stays [] (n.textAt p) [] := fun n hn => Node.stays_textAt (hValues n hn) p
  obtain ⟨hFirst, hRest⟩ := List.forall_mem_cons.mp hText
  obtain ⟨hLast, hSteps⟩ := List.forall_mem_cons.mp hRest
  refine ⟨hWord, List.forall_mem_cons.mpr ⟨⟨hBegin, hFirst⟩, ?_⟩⟩
  refine List.forall_mem_append.mpr ⟨List.forall_mem_append.mpr ⟨List.forall_mem_singleton.mpr ⟨hEnd, hLast⟩, ?_⟩, ?_⟩
  · exact List.forall_mem_map.mpr fun s hs => ⟨hStep, hSteps s hs⟩
  · exact List.forall_mem_singleton.mpr ⟨hName, stays_word hBegin⟩

/-- C reads the header as the declaration, whatever follows. -/
theorem declaration?_loopText (hWord : isTypeName type.word.toList = true) (hName : IsIdentifier name.toList)
    (hValues : ∀ n ∈ first :: last :: step.toList, ∀ m ∈ n.nodes, m.IsOperand) (rest : String) :
    declaration? ((loopDeclaration p type name first last step).text ++ ("; " ++ rest)).toList =
      some ((Loop.temporary name "begin", type) :: (laterNames name step.isSome).map fun n => (n, ⟨type.word, 0⟩)) := by
  have hRest : ("; " ++ rest).toList = ';' :: ' ' :: rest.toList := by
    rw [String.toList_append]
    rfl
  rw [String.toList_append, hRest, VariableDeclaration.declaration?_text (wellFormed_loopDeclaration hWord hName hValues),
    declared_loopDeclaration]

/-- Without stars there is only one type. With stars the later variables are of another type than the first. -/
theorem forall_declared_iff (hasStep : Bool) :
    (∀ v ∈ (Loop.temporary name "begin", type) :: (laterNames name hasStep).map fun n => (n, ⟨type.word, 0⟩), v.2 = type) ↔
      type.stars = 0 := by
  have hWord : ⟨type.word, 0⟩ = type ↔ type.stars = 0 := by
    obtain ⟨word, stars⟩ := type
    simp [eq_comm]
  have hLater : name ∈ laterNames name hasStep := by simp [laterNames]
  rw [List.forall_mem_cons, List.forall_mem_map, ← hWord]
  exact ⟨fun h => h.2 name hLater, fun h => ⟨rfl, fun _ _ => h⟩⟩

end Header

/-- **Loop headers.** A numeric loop that can be written has a type, which it is given or which its first value shows. Where
the names of the loop are C identifiers and its values are expressions, C reads what is written after `for (` as a declaration
of a temporary for the first value, one for the last, one for the step if there is one, and the loop variable. The first of
them has the type of the loop. The others have what is left of it without its stars. So all of them have the type of the loop
exactly if that is none of the source types that are pointers in C. -/
theorem loop_header_types_iff {var : TypedName} {first last body : Node} {comparator : Option String} {step : Option Node}
    {span : Span} {d e : Draft} (hVisit : visit .standard (.forNum var first comparator last step body span) d = .ok () e)
    (hTypes : d.types = Target.primitiveTypes) (hName : IsIdentifier var.name.toList)
    (hValues : ∀ n ∈ first :: last :: step.toList, ∀ m ∈ n.nodes, m.IsOperand) :
    ∃ source type d' text declared, typeName? var (some first) = some source ∧
      Loop.varType var first span d = .ok (ObjectType.text type) d' ∧
      e.page = d.page.write (Page.indentation d.page.level d.page.width ++ "for (" ++ text) ∧
      declaration? text.toList = some declared ∧
      declared = (Loop.temporary (Target.escapeName var.name) "begin", type) ::
        (laterNames (Target.escapeName var.name) step.isSome).map (fun name => (name, ⟨type.word, 0⟩)) ∧
      ((∀ v ∈ declared, v.2 = type) ↔ source ∉ pointerTypes) := by
  obtain ⟨source, d', hSource, hKnown, hType⟩ := loopType_of_visit hTypes hVisit
  obtain ⟨hText, hWord, hStars⟩ := objectType_of_known hKnown
  have hVar : IsIdentifier (Target.escapeName var.name).toList := Target.isIdentifier_escapeName hName
  let type := objectType (typeSpelling source)
  let header := loopDeclaration (d.place.descend .forNum) type (Target.escapeName var.name) first last step
  have hPage : ∃ rest, e.page = d.page.write (Page.indentation d.page.level d.page.width ++ "for (" ++
      (header.text ++ ("; " ++ rest))) := by
    rw [Node.page_of_visit hTypes hVisit, Node.textAt_forNum d.place hSource, loopText_eq_declaration hText]
    simp only [String.append_assoc]
    exact ⟨_, rfl⟩
  obtain ⟨rest, hPage⟩ := hPage
  rw [← hText] at hType
  exact ⟨source, type, d', _, _, hSource, hType, hPage, declaration?_loopText hWord hVar hValues rest, rfl,
    (forall_declared_iff step.isSome).trans hStars⟩

/-- A loop with a step, whose last value is a call. The comma in the call declares nothing. -/
theorem loop_header_types_iff_stepped :
    let first : Node := .number (.integer "1") none ⟨15, 16⟩
    let last : Node := .call (.id "f" ⟨18, 19⟩) [.id "a" ⟨20, 21⟩, .id "b" ⟨23, 24⟩] ⟨18, 25⟩
    let step : Node := .id "k" ⟨27, 28⟩
    ∃ e text declared, visit .standard
        (.forNum ⟨"i", some "uint8"⟩ first none last (some step) (.block [] ⟨32, 32⟩) ⟨0, 35⟩) (Draft.blank 4) = .ok () e ∧
      e.page = (Draft.blank 4).page.write ("for (" ++ text) ∧ declaration? text.toList = some declared ∧
      declared.map Prod.fst = ["__i_begin", "__i_end", "__i_step", "i"] ∧ ∀ v ∈ declared, v.2.text = "uint8_t" := by
  intro first last step
  have hVisit : visit .standard (.forNum ⟨"i", some "uint8"⟩ first none last (some step) (.block [] ⟨32, 32⟩) ⟨0, 35⟩)
      (Draft.blank 4) = .ok () _ := rfl
  have hValues : ∀ n ∈ first :: last :: (some step).toList, ∀ m ∈ n.nodes, m.IsOperand := by
    have hNodes : [first, last, step].flatMap Node.nodes =
        [first, last, .id "f" ⟨18, 19⟩, .id "a" ⟨20, 21⟩, .id "b" ⟨23, 24⟩, step] := by
      simp [first, last, step, Node.nodes_eq, Node.children]
    have hOperands : ∀ m ∈ [first, last, .id "f" ⟨18, 19⟩, .id "a" ⟨20, 21⟩, .id "b" ⟨23, 24⟩, step], m.IsOperand := by
      decide
    intro n hn m hm
    exact hOperands m (hNodes ▸ List.mem_flatMap.mpr ⟨n, hn, hm⟩)
  obtain ⟨source, type, d', text, declared, hSource, hType, hPage, hDeclared, hEq, hTypes⟩ :=
    loop_header_types_iff hVisit rfl (by decide) hValues
  obtain rfl := Option.some.inj hSource
  have hText : "uint8_t" = type.text := (EStateM.Result.ok.inj hType).1
  refine ⟨_, text, declared, hVisit, hPage, hDeclared, ?_, fun v hv => ?_⟩
  · rw [hEq]
    rfl
  · rw [hTypes.mpr (by decide) v hv, hText]

/-- A program that consists of a loop over a range of pointers. -/
def pointerLoop (type : String) : Node :=
  .block [.forNum ⟨"p", some type⟩ (.id "s" ⟨17, 18⟩) none (.id "e" ⟨20, 21⟩) none (.block [] ⟨25, 25⟩) ⟨0, 28⟩] ⟨0, 28⟩

/-- The start of its header. -/
def pointerLoopHeader : String :=
  "char* __p_begin = s, __p_end = e, p = __p_begin; p <= __p_end; ++p) \x7b"

/-- Only the first of three variables is a pointer, and no such loop is rejected. -/
theorem generate_pointer_loop :
    (generate ⟨4, .standard⟩ (pointerLoop "cstring")).result =
      .ok ("int main() \x7b\n    for (" ++ pointerLoopHeader ++ "\n    \x7d\n    return 0;\n\x7d\n") ∧
    declaration? pointerLoopHeader.toList =
      some [("__p_begin", ⟨"char", 1⟩), ("__p_end", ⟨"char", 0⟩), ("p", ⟨"char", 0⟩)] ∧
    ∀ type ∈ pointerTypes, ∃ text, (generate ⟨4, .standard⟩ (pointerLoop type)).result = .ok text := by
  refine ⟨by decide +kernel, by decide +kernel, ?_⟩
  simp only [pointerTypes, List.forall_mem_cons]
  exact ⟨⟨_, rfl⟩, ⟨_, rfl⟩, ⟨_, rfl⟩, by simp⟩

end Lowering
