import Lowering.Proofs.Draft.Addition

/-!
# The sections of a draft

What additions leave in the sections that hold the program: the forward declarations one line after the other, the
definitions with an empty line between one and the next, and nothing in the entry point until the file is finished.
Headers and support code go elsewhere.

* `Draft.forwardDeclarations_putAll`, `Draft.definitions_putAll`, `Draft.entryPoint_putAll` — the three sections.
* `Sections.join_eq` — where they stand in the file.
-/

namespace Lowering

namespace Addition

/-- The line that an addition puts among the forward declarations. -/
def forward? : Addition → Option String
  | .forward line => some line
  | _ => none

/-- The text that an addition puts among the definitions. -/
def definition? : Addition → Option String
  | .helper s => some s
  | .function signature body => some (functionText signature body)
  | _ => none

end Addition

-- ---------------------------------------------------------------------------
-- Additions
-- ---------------------------------------------------------------------------

/-- The sections that headers and support code have no part in. -/
def Section.isProgram : Section → Bool
  | .forwardDeclarations | .definitions | .entryPoint => true
  | _ => false

namespace Draft

variable {d : Draft} {x : Section}

theorem get_addTo_of_ne {y : Section} (text : String) (h : x ≠ y) : (d.addTo y text).sections.get x = d.sections.get x :=
  d.sections.get_add_of_ne text h

theorem get_addHeader (hx : x.isProgram = true) (header : String) :
    (d.addHeader header).sections.get x = d.sections.get x := by
  unfold addHeader
  split
  · rfl
  · exact get_addTo_of_ne _ (by rintro rfl; simp [Section.isProgram] at hx)

theorem get_addStringRecord (hx : x.isProgram = true) : d.addStringRecord.sections.get x = d.sections.get x := by
  unfold addStringRecord
  split
  · rfl
  · rw [get_addTo_of_ne _ (by rintro rfl; simp [Section.isProgram] at hx), get_addHeader hx]
    rfl

theorem get_addSupport (hx : x.isProgram = true) (s : Support) :
    (d.addSupport s).sections.get x = d.sections.get x := by
  cases s with
  | string => exact get_addStringRecord hx
  | stringPrint =>
    unfold addSupport addStringPrinter
    dsimp only
    split
    · rfl
    · rw [get_addTo_of_ne _ (by rintro rfl; simp [Section.isProgram] at hx), get_addHeader hx, get_addStringRecord hx]
      rfl

theorem forwardDeclarations_put (d : Draft) (a : Addition) :
    (d.put a).sections.forwardDeclarations = d.sections.forwardDeclarations ++ a.forward?.getD "" := by
  cases a with
  | header name => exact (get_addHeader (x := .forwardDeclarations) rfl name).trans String.append_empty.symm
  | support s => exact (get_addSupport (x := .forwardDeclarations) rfl s).trans String.append_empty.symm
  | forward line => rfl
  | text | symbol | helper | function | returned => exact String.append_empty.symm

theorem forwardDeclarations_putAll (d : Draft) (as : List Addition) :
    (d.putAll as).sections.forwardDeclarations =
      d.sections.forwardDeclarations ++ String.join (as.filterMap Addition.forward?) := by
  induction as generalizing d with
  | nil => exact String.append_empty.symm
  | cons a as ih =>
    rw [putAll_cons, ih, forwardDeclarations_put, List.filterMap_cons, String.append_assoc]
    cases a.forward? with
    | none => rw [Option.getD_none, String.empty_append]
    | some line => rw [Option.getD_some, String.join_cons]

theorem entryPoint_put (d : Draft) (a : Addition) : (d.put a).sections.entryPoint = d.sections.entryPoint := by
  cases a with
  | header name => exact get_addHeader (x := .entryPoint) rfl name
  | support s => exact get_addSupport (x := .entryPoint) rfl s
  | text | symbol | forward | helper | function | returned => rfl

theorem entryPoint_putAll (d : Draft) (as : List Addition) :
    (d.putAll as).sections.entryPoint = d.sections.entryPoint := by
  induction as generalizing d with
  | nil => rfl
  | cons a as ih => rw [putAll_cons, ih, entryPoint_put]

theorem definitions_put (d : Draft) (a : Addition) :
    (d.put a).sections.definitions =
      (a.definition?.elim d.sections (fun text => d.sections.addDefinition text)).definitions := by
  cases a with
  | header name => exact get_addHeader (x := .definitions) rfl name
  | support s => exact get_addSupport (x := .definitions) rfl s
  | text | symbol | forward | helper | function | returned => rfl

end Draft

-- ---------------------------------------------------------------------------
-- Rows of definitions
-- ---------------------------------------------------------------------------

theorem intercalate_append_of_ne_nil {f : String} {ss ts : List String} (hs : ss ≠ []) (ht : ts ≠ []) :
    f.intercalate (ss ++ ts) = f.intercalate ss ++ f ++ f.intercalate ts := by
  induction ss with
  | nil => exact absurd rfl hs
  | cons s ss ih =>
    cases ss with
    | nil => rw [List.singleton_append, String.intercalate_cons_of_ne_nil ht, String.intercalate_singleton]
    | cons u ss =>
      rw [List.cons_append, String.intercalate_cons_of_ne_nil (by simp), ih (by simp), String.intercalate_cons_cons]
      simp only [String.append_assoc]

theorem intercalate_ne_empty {f : String} {ss : List String} (hNe : ss ≠ []) (h : ∀ s ∈ ss, s ≠ "") :
    f.intercalate ss ≠ "" := by
  cases ss with
  | nil => exact absurd rfl hNe
  | cons s ss =>
    have hFirst := h s (by simp)
    cases ss with
    | nil => rwa [String.intercalate_singleton]
    | cons t ss =>
      rw [String.intercalate_cons_cons]
      simp [hFirst]

/-- A definition comes after the others. -/
theorem Sections.definitions_addDefinition {t : Sections} {ds : List String} (ht : t.definitions = "\n".intercalate ds)
    (hds : ∀ d ∈ ds, d ≠ "") (text : String) :
    (t.addDefinition text).definitions = "\n".intercalate (ds ++ [text]) := by
  have hText : (t.addDefinition text).definitions =
      t.definitions ++ (if t.definitions.isEmpty then text else "\n" ++ text) := rfl
  rw [hText, ht]
  cases ds with
  | nil => simp
  | cons d ds =>
    have hNe : "\n".intercalate (d :: ds) ≠ "" := intercalate_ne_empty (by simp) hds
    rw [if_neg (by simpa using hNe), intercalate_append_of_ne_nil (by simp) (by simp), String.intercalate_singleton,
      String.append_assoc]

theorem Draft.definitions_putAll {d : Draft} (ds : List String) (hd : d.sections.definitions = "\n".intercalate ds)
    (hds : ∀ t ∈ ds, t ≠ "") {as : List Addition} (has : ∀ a ∈ as, ∀ t ∈ a.definition?, t ≠ "") :
    (d.putAll as).sections.definitions = "\n".intercalate (ds ++ as.filterMap Addition.definition?) := by
  induction as generalizing d ds with
  | nil => simpa using hd
  | cons a as ih =>
    obtain ⟨hFirst, hRest⟩ := List.forall_mem_cons.mp has
    have hPut := d.definitions_put a
    rw [List.filterMap_cons]
    cases hDefinition : a.definition? with
    | none =>
      rw [hDefinition] at hPut
      exact ih ds (hPut.trans hd) hds hRest
    | some text =>
      rw [hDefinition] at hPut
      have hds' : ∀ t ∈ ds ++ [text], t ≠ "" := by
        simpa [List.forall_mem_append, or_imp, forall_and] using ⟨hds, hFirst text hDefinition⟩
      rw [putAll_cons, ih _ (hPut.trans (Sections.definitions_addDefinition hd hds text)) hds' hRest, List.append_assoc]
      rfl

-- ---------------------------------------------------------------------------
-- The file
-- ---------------------------------------------------------------------------

/-- The forward declarations, the definitions and the entry point stand in this order at the end of the file, with at
most an empty line between one and the next. -/
theorem Sections.join_eq (t : Sections) (h : t.entryPoint ≠ "") :
    ∃ head gap gap', (gap = "" ∨ gap = "\n") ∧ (gap' = "" ∨ gap' = "\n") ∧
      t.join = head ++ t.forwardDeclarations ++ (gap ++ t.definitions ++ gap' ++ t.entryPoint) := by
  let front := [t.includes, t.supportDeclarations, t.supportDefinitions].filter (fun s => !s.isEmpty)
  let back := [t.forwardDeclarations, t.definitions, t.entryPoint].filter (fun s => !s.isEmpty)
  have hBack : ∃ gap gap', (gap = "" ∨ gap = "\n") ∧ (gap' = "" ∨ gap' = "\n") ∧
      "\n".intercalate back = t.forwardDeclarations ++ (gap ++ t.definitions ++ gap' ++ t.entryPoint) := by
    by_cases hForward : t.forwardDeclarations = "" <;> by_cases hDefinitions : t.definitions = ""
    · exact ⟨"", "", Or.inl rfl, Or.inl rfl, by simp [back, hForward, hDefinitions, h]⟩
    · exact ⟨"", "\n", Or.inl rfl, Or.inr rfl, by
        simp [back, hForward, hDefinitions, h, String.intercalate_cons_cons]⟩
    · exact ⟨"\n", "", Or.inr rfl, Or.inl rfl, by
        simp [back, hForward, hDefinitions, h, String.intercalate_cons_cons, String.append_assoc]⟩
    · exact ⟨"\n", "\n", Or.inr rfl, Or.inr rfl, by
        simp [back, hForward, hDefinitions, h, String.intercalate_cons_cons, String.append_assoc]⟩
  obtain ⟨gap, gap', hGap, hGap', hText⟩ := hBack
  have hJoin : t.join = "\n".intercalate (front ++ back) := by
    rw [join, ← List.filter_append]
    rfl
  have hNe : back ≠ [] := List.ne_nil_of_mem (a := t.entryPoint) (List.mem_filter.mpr ⟨by simp, by simpa using h⟩)
  by_cases hFront : front = []
  · refine ⟨"", gap, gap', hGap, hGap', ?_⟩
    rw [hJoin, hFront, List.nil_append, hText, String.empty_append]
  · refine ⟨"\n".intercalate front ++ "\n", gap, gap', hGap, hGap', ?_⟩
    rw [hJoin, intercalate_append_of_ne_nil hFront hNe, hText]
    simp only [String.append_assoc]

end Lowering
