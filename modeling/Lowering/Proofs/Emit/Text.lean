import Lowering.Proofs.Emit.Additions

/-!
# Text on the page

The text that a construct leaves on the page, put together from the texts of its parts. Statements are lines: blanks, what
the line says, and its end. What is asked for on the way and what goes to other parts of the file leaves no text here.
-/

namespace Lowering

open Addition

theorem pageText_text (s : String) : pageText [.text s] = s := by
  rw [pageText_cons, pageText_nil, String.append_empty, onPage]

theorem pageText_flatMap {α : Type} (f : α → List Addition) (l : List α) :
    pageText (l.flatMap f) = String.join (l.map (fun a => pageText (f a))) := by
  induction l with
  | nil => rfl
  | cons a l ih => rw [List.flatMap_cons, pageText_append, ih, List.map_cons, String.join_cons]

theorem pageText_flatMap_eq_empty {α : Type} {f : α → List Addition} {l : List α} (h : ∀ a ∈ l, pageText (f a) = "") :
    pageText (l.flatMap f) = "" := by
  induction l with
  | nil => rfl
  | cons a l ih =>
    obtain ⟨hFirst, hRest⟩ := List.forall_mem_cons.mp h
    rw [List.flatMap_cons, pageText_append, hFirst, ih hRest, String.empty_append]

-- ---------------------------------------------------------------------------
-- Expressions
-- ---------------------------------------------------------------------------

theorem pageText_numberAdditions {form : NumberForm} {suffix : Option String} {n : ResolvedNumber}
    (h : resolveNumber form suffix = .ok n) : pageText (numberAdditions form suffix) = n.text := by
  simp [numberAdditions, h, pageText_typeNeeds, onPage]

theorem pageText_stringAdditions (value : String) (span : Span) :
    pageText (stringAdditions value span) = recordText span := by
  simp [stringAdditions, onPage]

theorem pageText_slotNeeds (n : Node) : pageText (slotNeeds n) = "" := by
  cases n with
  | number form suffix span =>
    rw [slotNeeds_number]
    split
    · rename_i n _
      rw [pageText_append, pageText_typeNeeds]
      cases n.type.directive.header <;> rfl
    · rfl
  | _ => rfl

theorem pageText_commaSeparated (parts : List (List Addition)) :
    pageText (commaSeparated parts) = ", ".intercalate (parts.map pageText) := by
  induction parts with
  | nil => rfl
  | cons as rest ih =>
    cases rest with
    | nil => exact String.intercalate_singleton.symm
    | cons bs rest =>
      show pageText (as ++ [Addition.text ", "] ++ commaSeparated (bs :: rest)) = _
      rw [pageText_append, pageText_append, pageText_text, ih, List.map_cons, List.map_cons, List.map_cons,
        String.intercalate_cons_cons]

theorem pageText_printAdditions (p : Place) (span : Span) (args : List Node) (parts : List (List Addition)) :
    pageText (printAdditions p span args parts) =
      Print.helperName span ++ ("(" ++ (pageText (commaSeparated parts) ++ ")")) := by
  have hNeeds : pageText (args.flatMap slotNeeds) = "" := pageText_flatMap_eq_empty fun a _ => pageText_slotNeeds a
  simp [printAdditions, hNeeds, onPage, String.append_assoc]

theorem pageText_call {callee : Node} (h : Expression.intrinsic? callee = none) (p : Place) (args : List Node)
    (span : Span) :
    pageText (Node.additions p (.call callee args span)) = pageText (callee.additions (p.descend .call)) ++
      ("(" ++ (pageText (commaSeparated (Node.additionsAll (p.descend .call) args)) ++ ")")) := by
  simp [Node.additions, h, onPage]

-- ---------------------------------------------------------------------------
-- Statements
-- ---------------------------------------------------------------------------

section Statements

variable (p : Place)

theorem pageText_line (s : String) : pageText (p.line s) = p.indentation ++ s ++ "\n" := by
  rw [Place.line, pageText_cons, pageText_text, onPage, String.append_assoc]

theorem pageText_guarded (before after : String) (guard : List Addition) :
    pageText (p.guarded before guard after) = p.indentation ++ (before ++ (pageText guard ++ after)) ++ "\n" := by
  simp [Place.guarded, onPage, String.append_assoc]

/-- An expression as a statement. -/
theorem pageText_statement_of_isExpression {n : Node} (h : n.tag.isExpression = true) (as : List Addition) :
    pageText (p.statement n as) = p.indentation ++ (pageText as ++ ";") ++ "\n" := by
  simp [Place.statement, h, onPage, String.append_assoc]

theorem pageText_ret_nil :
    pageText (p.ret []) = p.indentation ++ (if p.inMain then "return 0;" else "return;") ++ "\n" := by
  simp [Place.ret, onPage, String.append_assoc]

theorem pageText_ret_cons (value : List Addition) (rest : List (List Addition)) :
    pageText (p.ret (value :: rest)) = p.indentation ++ ("return " ++ (pageText value ++ ";")) ++ "\n" := by
  simp [Place.ret, onPage, String.append_assoc]

theorem pageText_repeatLoop (guard body : List Addition) :
    pageText (p.repeatLoop body guard) =
      pageText (p.line "do \x7b") ++ (pageText body ++ (p.indentation ++ ("\x7d while (!(" ++ (pageText guard ++ "));"))))
        ++ "\n" := by
  simp [Place.repeatLoop, Place.guarded, onPage, String.append_assoc]

/-- The end of a loop header, after the values that are computed once: the loop variable, the test and the step. -/
def loopEnd (name : String) (hasStep : Bool) : String :=
  name ++ (" = " ++ (Loop.temporary name "begin" ++ ("; " ++ (name ++ (" <= " ++ (Loop.temporary name "end" ++ ("; " ++
    (increment name hasStep ++ ") \x7b"))))))))

theorem pageText_forNum (type name : String) (first last : List Addition) (step : Option (List Addition))
    (body : List Addition) :
    pageText (p.forNum type name first last step body) =
      p.indentation ++ ("for (" ++ (typeSpelling type ++ (" " ++ (Loop.temporary name "begin" ++ (" = " ++
        (pageText first ++ (", " ++ (Loop.temporary name "end" ++ (" = " ++ (pageText last ++
          (pageText (stepAdditions name step) ++ (", " ++ loopEnd name step.isSome)))))))))))) ++ "\n"
        ++ (pageText body ++ pageText (p.line "\x7d")) := by
  simp [Place.forNum, declaratorAdditions, loopEnd, pageText_typeNeeds, onPage, String.append_assoc]

theorem pageText_stepAdditions_some (name : String) (as : List Addition) :
    pageText (stepAdditions name (some as)) = ", " ++ (Loop.temporary name "step" ++ (" = " ++ pageText as)) := by
  simp [stepAdditions, declaratorAdditions, onPage, String.append_assoc]

theorem pageText_declareVariable (qualifier : String) (var : TypedName) (value : Option (Node × List Addition)) :
    pageText (p.declareVariable qualifier var value) =
      p.indentation ++ (typeSpelling ((typeName? var (value.map Prod.fst)).getD "") ++ qualifier ++ (" " ++
        (Target.escapeName var.name ++ (" = " ++ (value.elim "\x7b0\x7d" (fun v => pageText v.2) ++ ";"))))) ++ "\n" := by
  cases value <;> simp [Place.declareVariable, pageText_typeNeeds, onPage, String.append_assoc]

theorem pageText_stores_cons (target value : List Addition) (targets values : List (List Addition)) :
    pageText (p.stores (target :: targets) (value :: values)) =
      p.indentation ++ (pageText target ++ (" = " ++ (pageText value ++ ";"))) ++ "\n"
        ++ pageText (p.stores targets values) := by
  simp [Place.stores, onPage, String.append_assoc]

end Statements

-- ---------------------------------------------------------------------------
-- Functions
-- ---------------------------------------------------------------------------

/-- A function leaves nothing on the page where it stands. -/
theorem pageText_functionAdditions (name : String) (params : List TypedName) (returns : List String)
    (body : List Addition) : pageText (functionAdditions name params returns body) = "" := by
  have hReturns : pageText (returns.flatMap typeNeeds) = "" :=
    pageText_flatMap_eq_empty fun type _ => pageText_typeNeeds type
  have hParams : pageText (params.flatMap (fun q => typeNeeds (q.type.getD ""))) = "" :=
    pageText_flatMap_eq_empty fun q _ => pageText_typeNeeds _
  simp [functionAdditions, hReturns, hParams, pageText_filed, onPage]

end Lowering
