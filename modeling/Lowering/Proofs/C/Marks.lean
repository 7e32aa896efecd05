import Lowering.Proofs.C.Lines

/-!
# Marks of the top of the file

The lines of headers, the record type of strings and the function that prints them can be told from all other lines by a
few characters: a `#`, an arrow, and a closing brace with a blank and an `n` after it. Texts are put together from pieces,
so a text is read piece by piece, and what has been read of a mark is carried from one piece to the next.

* `Mark.read`, `Unmarked` — texts without marks.
-/

namespace Lowering

open C

-- ---------------------------------------------------------------------------
-- Marks
-- ---------------------------------------------------------------------------

/-- What has been read of a mark. -/
inductive Mark where
  | nothing
  | brace
  | braceBlank
  | dash
deriving DecidableEq, Repr

namespace Mark

/-- Reads one more character, unless it completes a mark. -/
def step (m : Mark) (c : Char) : Option Mark :=
  if c = '#' ∨ m = .dash ∧ c = '>' ∨ m = .braceBlank ∧ c = 'n' then none
  else if c = '}' then some .brace
  else if c = '-' then some .dash
  else if m = .brace ∧ c = ' ' then some .braceBlank
  else some .nothing

/-- Reads a text that has no mark in it. -/
def read (m : Mark) (s : List Char) : Option Mark :=
  s.foldlM step m

theorem read_append (m : Mark) (s t : List Char) : m.read (s ++ t) = (m.read s).bind (·.read t) :=
  List.foldlM_append ..

/-- The three marks. -/
def all : List String :=
  ["#", "->", "\x7d n"]

theorem read_mark {mark : String} (h : mark ∈ all) (m : Mark) : m.read mark.toList = none := by
  have hAll : ∀ s ∈ all, [nothing, brace, braceBlank, dash].all (fun m => m.read s.toList = none) = true := by decide
  have hMark := List.all_eq_true.mp (hAll mark h) m (by cases m <;> simp)
  exact of_decide_eq_true hMark

/-- A text with a mark in it cannot be read. -/
theorem read_of_infix {mark : String} (h : mark ∈ all) {s : List Char} (hInfix : mark.toList <:+: s) (m : Mark) :
    m.read s = none := by
  obtain ⟨before, after, rfl⟩ := hInfix
  rw [read_append, read_append]
  cases m.read before with
  | none => rfl
  | some m' =>
    rw [Option.bind_some, read_mark h m']
    rfl

end Mark

/-- A text that neither has a mark in it nor ends one nor starts one, apart from a dash at its end. -/
def Unmarked (s : String) : Prop :=
  ∀ m ∈ [Mark.nothing, .dash], ∃ m' ∈ [Mark.nothing, .dash], m.read s.toList = some m'

instance (s : String) : Decidable (Unmarked s) :=
  inferInstanceAs (Decidable (∀ m ∈ [Mark.nothing, .dash], ∃ m' ∈ [Mark.nothing, .dash], _))

/-- A character that no mark is made without. -/
def isMarking (c : Char) : Bool :=
  c = '#' || c = '>' || c = '}'

theorem Unmarked.append {s t : String} (hs : Unmarked s) (ht : Unmarked t) : Unmarked (s ++ t) := by
  intro m hm
  obtain ⟨m', hm', hRead⟩ := hs m hm
  obtain ⟨m'', hm'', hRead'⟩ := ht m' hm'
  refine ⟨m'', hm'', ?_⟩
  rw [String.toList_append, Mark.read_append, hRead]
  exact hRead'

theorem unmarked_of_chars {s : String} (h : ∀ c ∈ s.toList, isMarking c = false) : Unmarked s := by
  have hRead : ∀ l : List Char, (∀ c ∈ l, isMarking c = false) → ∀ m ∈ [Mark.nothing, .dash],
      ∃ m' ∈ [Mark.nothing, .dash], m.read l = some m' := by
    intro l
    induction l with
    | nil => exact fun _ m hm => ⟨m, hm, rfl⟩
    | cons c l ih =>
      intro hl m hm
      obtain ⟨hc, hRest⟩ := List.forall_mem_cons.mp hl
      have hStep : ∃ m' ∈ [Mark.nothing, .dash], m.step c = some m' := by
        simp only [isMarking, Bool.or_eq_false_iff, decide_eq_false_iff_not] at hc
        simp only [List.mem_cons, List.not_mem_nil, or_false] at hm
        unfold Mark.step
        by_cases hDash : c = '-' <;> rcases hm with rfl | rfl <;> simp [hc, hDash]
      obtain ⟨m', hm', hHere⟩ := hStep
      obtain ⟨m'', hm'', hThere⟩ := ih hRest m' hm'
      refine ⟨m'', hm'', ?_⟩
      rw [Mark.read, List.foldlM_cons, hHere]
      exact hThere
  exact hRead s.toList h

/-- No line of the text has a mark in it. -/
theorem Unmarked.not_infix_of_mem_splitLines {s : String} (h : Unmarked s) {line : List Char} (hLine : line ∈ splitLines s.toList)
    {mark : String} (hMark : mark ∈ Mark.all) : ¬ mark.toList <:+: line := by
  intro hInfix
  obtain ⟨m', -, hRead⟩ := h .nothing (by simp)
  rw [Mark.read_of_infix hMark (hInfix.trans (infix_of_mem_splitLines hLine))] at hRead
  cases hRead

end Lowering
