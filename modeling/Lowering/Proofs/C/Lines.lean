import Mathlib.Data.List.Infix

/-!
# The lines of a text

A text that ends with a line break is a row of lines. Texts of this kind can be put together, with or without an empty line
between one and the next, and their lines are put together in the same way.

* `splitLines`, `isDirective` — lines, and the ones that are read by the preprocessor.
* `occurrences` — how often a row of lines stands in another.
* `splitLines_append`, `filter_splitLines_intercalate`, `splitLines_infix_intercalate` — texts that are put together.
* `occurrences_eq_one` — a row with a line that stands nowhere else.
* `outdent` — lines without the blanks at their start; `outdent_append`, `outdent_intercalate` of texts put together.
* `Filled`, `paragraphHeads` — texts without empty lines; `paragraphHeads_intercalate` of such texts put together.
-/

namespace Lowering.C

/-- The lines of a text, without the line breaks that end them. What stands after the last line break is no line. -/
def splitLines (s : List Char) : List (List Char) :=
  (s.splitOn '\n').dropLast

example : splitLines "a\n\nb\n".toList = ["a".toList, [], "b".toList] := by decide

/-- Whether the first character of a line, apart from blanks, makes it a line for the preprocessor. -/
def isDirective (line : List Char) : Bool :=
  (line.dropWhile Char.isWhitespace).head? = some '#'

/-- The text is a row of lines: nothing stands after the last line break. -/
def Whole (s : List Char) : Prop :=
  s = [] ∨ ∃ t, s = t ++ ['\n']

-- ---------------------------------------------------------------------------
-- Lines of texts
-- ---------------------------------------------------------------------------

theorem mem_of_isDirective {line : List Char} (h : isDirective line = true) : '#' ∈ line :=
  (List.dropWhile_suffix _).subset (List.mem_of_mem_head? (of_decide_eq_true h))

theorem whole_append {s t : List Char} (hs : Whole s) (ht : Whole t) : Whole (s ++ t) := by
  rcases ht with rfl | ⟨u, rfl⟩
  · rwa [List.append_nil]
  · exact Or.inr ⟨s ++ u, by rw [List.append_assoc]⟩

theorem splitLines_nil : splitLines [] = [] :=
  rfl

/-- After a line break, a new line starts. -/
theorem splitOn_break (s t : List Char) : (s ++ '\n' :: t).splitOn '\n' = s.splitOn '\n' ++ t.splitOn '\n' := by
  simp only [List.splitOn_eq_splitOnP]
  exact List.splitOnP_append_cons s t (beq_self_eq_true '\n')

theorem splitLines_break (s t : List Char) : splitLines (s ++ '\n' :: t) = s.splitOn '\n' ++ splitLines t := by
  rw [splitLines, splitLines, splitOn_break, List.dropLast_append_of_ne_nil (List.splitOn_ne_nil _ _)]

theorem splitLines_append {s : List Char} (h : Whole s) (t : List Char) :
    splitLines (s ++ t) = splitLines s ++ splitLines t := by
  rcases h with rfl | ⟨u, rfl⟩
  · rfl
  · rw [List.append_assoc, List.singleton_append, splitLines_break, splitLines_break, splitLines_nil, List.append_nil]

theorem splitLines_singleton {line : List Char} (h : '\n' ∉ line) : splitLines (line ++ ['\n']) = [line] := by
  have hSplit : line.splitOn '\n' = [line] := by
    rw [List.splitOn_eq_splitOnP]
    refine List.splitOnP_eq_singleton fun c hc => ?_
    simp only [beq_eq_false_iff_ne]
    rintro rfl
    exact h hc
  rw [splitLines_break, splitLines_nil, List.append_nil, hSplit]

theorem infix_intercalate_of_mem {α : Type} (sep : List α) {l : List α} {ls : List (List α)} (h : l ∈ ls) :
    l <:+: sep.intercalate ls := by
  induction ls with
  | nil => simp at h
  | cons first ls ih =>
    cases ls with
    | nil =>
      obtain rfl := List.mem_singleton.mp h
      rw [List.intercalate_singleton]
    | cons second ls =>
      rw [List.intercalate_cons_cons]
      rcases List.mem_cons.mp h with rfl | hMem
      · exact ((List.prefix_append _ _).trans (List.prefix_append _ _)).isInfix
      · exact (ih hMem).trans (List.suffix_append _ _).isInfix

theorem infix_of_mem_splitLines {s line : List Char} (h : line ∈ splitLines s) : line <:+: s := by
  have hInfix := infix_intercalate_of_mem ['\n'] (List.dropLast_subset _ h)
  rwa [List.intercalate_splitOn] at hInfix

-- Texts one after the other, as strings.

theorem whole_of_getLast? (s : String) {t : String} (h : t.toList.getLast? = some '\n') : Whole (s ++ t).toList := by
  obtain ⟨u, hu⟩ := List.getLast?_eq_some_iff.mp h
  exact Or.inr ⟨s.toList ++ u, by rw [String.toList_append, hu, List.append_assoc]⟩

theorem splitLines_line {s : String} (h : '\n' ∉ s.toList) : splitLines (s ++ "\n").toList = [s.toList] := by
  rw [String.toList_append]
  exact splitLines_singleton h

theorem whole_join {ss : List String} (h : ∀ s ∈ ss, Whole s.toList) : Whole (String.join ss).toList := by
  induction ss with
  | nil => exact Or.inl rfl
  | cons s ss ih =>
    obtain ⟨hFirst, hRest⟩ := List.forall_mem_cons.mp h
    rw [String.join_cons, String.toList_append]
    exact whole_append hFirst (ih hRest)

theorem splitLines_join {ss : List String} (h : ∀ s ∈ ss, Whole s.toList) :
    splitLines (String.join ss).toList = ss.flatMap (fun s => splitLines s.toList) := by
  induction ss with
  | nil => rfl
  | cons s ss ih =>
    obtain ⟨hFirst, hRest⟩ := List.forall_mem_cons.mp h
    rw [String.join_cons, String.toList_append, splitLines_append hFirst, ih hRest, List.flatMap_cons]

/-- An empty line stands between two texts. -/
theorem splitLines_intercalate_cons_cons {s t : String} {ss : List String} (h : Whole s.toList) :
    splitLines ("\n".intercalate (s :: t :: ss)).toList =
      splitLines s.toList ++ [] :: splitLines ("\n".intercalate (t :: ss)).toList := by
  rw [String.intercalate_cons_cons, String.toList_append, String.toList_append, List.append_assoc, splitLines_append h]
  exact congrArg _ (splitLines_break [] _)

theorem whole_intercalate {ss : List String} (h : ∀ s ∈ ss, Whole s.toList) : Whole ("\n".intercalate ss).toList := by
  induction ss with
  | nil => exact Or.inl rfl
  | cons s ss ih =>
    obtain ⟨hFirst, hRest⟩ := List.forall_mem_cons.mp h
    cases ss with
    | nil => rwa [String.intercalate_singleton]
    | cons t ss =>
      rw [String.intercalate_cons_cons, String.toList_append, String.toList_append]
      exact whole_append (whole_append hFirst (Or.inr ⟨[], rfl⟩)) (ih hRest)

theorem filter_splitLines_intercalate {q : List Char → Bool} (hq : q [] = false) {ss : List String}
    (h : ∀ s ∈ ss, Whole s.toList) :
    (splitLines ("\n".intercalate ss).toList).filter q = ss.flatMap (fun s => (splitLines s.toList).filter q) := by
  induction ss with
  | nil => rfl
  | cons s ss ih =>
    obtain ⟨hFirst, hRest⟩ := List.forall_mem_cons.mp h
    cases ss with
    | nil => rw [String.intercalate_singleton, List.flatMap_singleton]
    | cons t ss =>
      rw [splitLines_intercalate_cons_cons hFirst, List.filter_append, List.filter_cons_of_neg (by simp [hq]), ih hRest]
      rfl

theorem splitLines_infix_intercalate {ss : List String} (h : ∀ s ∈ ss, Whole s.toList) {s : String} (hs : s ∈ ss) :
    splitLines s.toList <:+: splitLines ("\n".intercalate ss).toList := by
  induction ss with
  | nil => simp at hs
  | cons t ss ih =>
    obtain ⟨hFirst, hRest⟩ := List.forall_mem_cons.mp h
    cases ss with
    | nil =>
      obtain rfl := List.mem_singleton.mp hs
      rw [String.intercalate_singleton]
    | cons u ss =>
      rw [splitLines_intercalate_cons_cons hFirst]
      rcases List.mem_cons.mp hs with rfl | hMem
      · exact (List.prefix_append _ _).isInfix
      · exact ((ih hRest hMem).trans (List.suffix_cons _ _).isInfix).trans (List.suffix_append _ _).isInfix

-- ---------------------------------------------------------------------------
-- Rows of lines in others
-- ---------------------------------------------------------------------------

/-- How often a row of lines stands in another. -/
def occurrences (part : List (List Char)) : List (List Char) → Nat
  | [] => 0
  | line :: rest => (if part <+: line :: rest then 1 else 0) + occurrences part rest

section Occurrences

variable {part whole : List (List Char)}

/-- A row stands where its rest stands. -/
theorem occurrences_cons_le (h : part ≠ []) (a : List Char) (whole : List (List Char)) :
    occurrences (a :: part) whole ≤ occurrences part whole.tail := by
  induction whole with
  | nil => exact Nat.le_refl 0
  | cons b rest ih =>
    cases rest with
    | nil => simp [occurrences, h]
    | cons c rest =>
      have hHere : (a :: part <+: b :: c :: rest) → part <+: c :: rest := fun hPart => (List.cons_prefix_cons.mp hPart).2
      rw [occurrences, List.tail_cons, occurrences.eq_2 part]
      rw [List.tail_cons] at ih
      split
      · rename_i hPart
        rw [if_pos (hHere hPart)]
        omega
      · omega

theorem occurrences_tail_le (part whole : List (List Char)) : occurrences part whole.tail ≤ occurrences part whole := by
  cases whole with
  | nil => exact Nat.le_refl 0
  | cons b rest =>
    rw [List.tail_cons, occurrences]
    omega

/-- A row does not stand more often than any line of it. -/
theorem occurrences_le_count {a : List Char} (h : a ∈ part) (whole : List (List Char)) :
    occurrences part whole ≤ whole.count a := by
  induction part with
  | nil => simp at h
  | cons b part ih =>
    by_cases hMem : a ∈ part
    · have hRest := occurrences_cons_le (List.ne_nil_of_mem hMem) b whole
      have hTail := occurrences_tail_le part whole
      have hCount := ih hMem
      omega
    · obtain rfl : a = b := (List.mem_cons.mp h).resolve_right hMem
      clear h ih hMem
      induction whole with
      | nil => exact Nat.le_refl 0
      | cons c rest ih =>
        rw [occurrences, List.count_cons]
        split
        · rename_i hPart
          obtain rfl : a = c := (List.cons_prefix_cons.mp hPart).1
          simp only [beq_self_eq_true, if_true]
          omega
        · omega

theorem occurrences_pos (hPart : part ≠ []) (h : part <:+: whole) : 0 < occurrences part whole := by
  obtain ⟨before, after, rfl⟩ := h
  induction before with
  | nil =>
    cases part with
    | nil => exact absurd rfl hPart
    | cons a part =>
      rw [List.nil_append, List.cons_append, occurrences, if_pos (List.cons_prefix_cons.mpr ⟨rfl, List.prefix_append _ _⟩)]
      omega
  | cons b before ih =>
    rw [List.cons_append, List.cons_append, occurrences]
    omega

/-- A row with a line that stands nowhere else. -/
theorem occurrences_eq_one {a : List Char} (ha : a ∈ part) (hCount : whole.count a = 1) (h : part <:+: whole) :
    occurrences part whole = 1 := by
  have hLe := occurrences_le_count ha whole
  have hPos := occurrences_pos (List.ne_nil_of_mem ha) h
  omega

end Occurrences

-- ---------------------------------------------------------------------------
-- Lines without their indentation
-- ---------------------------------------------------------------------------

/-- The text without the blanks at the start of its lines. -/
def outdent (s : List Char) : List Char :=
  ['\n'].intercalate ((s.splitOn '\n').map (List.dropWhile (· = ' ')))

example : outdent "a b\n  c\n \n".toList = "a b\nc\n\n".toList := by decide

theorem outdent_nil : outdent [] = [] :=
  rfl

theorem intercalate_append {α : Type} (sep : List α) {ls ms : List (List α)} (hls : ls ≠ []) (hms : ms ≠ []) :
    sep.intercalate (ls ++ ms) = sep.intercalate ls ++ sep ++ sep.intercalate ms := by
  induction ls with
  | nil => exact absurd rfl hls
  | cons l ls ih =>
    cases ls with
    | nil =>
      obtain ⟨m, ms, rfl⟩ := List.exists_cons_of_ne_nil hms
      rw [List.singleton_append, List.intercalate_cons_cons, List.intercalate_singleton]
    | cons k ls =>
      rw [List.cons_append, List.cons_append, List.intercalate_cons_cons, ← List.cons_append, ih (by simp),
        List.intercalate_cons_cons]
      simp only [List.append_assoc]

theorem outdent_break (s t : List Char) : outdent (s ++ '\n' :: t) = outdent s ++ '\n' :: outdent t := by
  have hNe : ∀ s : List Char, (s.splitOn '\n').map (List.dropWhile (· = ' ')) ≠ [] := fun s =>
    List.map_eq_nil_iff.not.mpr (List.splitOn_ne_nil _ _)
  rw [outdent, splitOn_break, List.map_append, intercalate_append _ (hNe s) (hNe t), List.append_assoc]
  rfl

theorem outdent_append {s : List Char} (h : Whole s) (t : List Char) : outdent (s ++ t) = outdent s ++ outdent t := by
  rcases h with rfl | ⟨u, rfl⟩
  · rfl
  · rw [List.append_assoc, List.singleton_append, outdent_break, outdent_break, outdent_nil, List.append_assoc]
    rfl

theorem outdent_toList_append {s : String} (h : Whole s.toList) (t : String) :
    outdent (s ++ t).toList = outdent s.toList ++ outdent t.toList := by
  rw [String.toList_append, outdent_append h]

/-- Blanks before a text are at the start of its first line. -/
theorem outdent_blanks (n : Nat) (s : List Char) : outdent (List.replicate n ' ' ++ s) = outdent s := by
  have hBlank : ∀ s : List Char, outdent (' ' :: s) = outdent s := by
    intro s
    have hSplit : (' ' :: s).splitOn '\n' = (s.splitOn '\n').modifyHead (List.cons ' ') := by
      rw [List.splitOn_eq_splitOnP, List.splitOnP_cons_eq_if_modifyHead, if_neg (by decide), List.splitOn_eq_splitOnP]
    rw [outdent, outdent, hSplit]
    cases s.splitOn '\n' <;> rfl
  induction n with
  | zero => rfl
  | succ n ih => rw [List.replicate_succ, List.cons_append, hBlank, ih]

/-- A row of lines is empty if nothing is left of it. -/
theorem outdent_eq_nil_iff {s : List Char} (h : Whole s) : outdent s = [] ↔ s = [] := by
  rcases h with rfl | ⟨u, rfl⟩
  · exact iff_of_true rfl rfl
  · simp [outdent_break]

theorem outdent_join {ss : List String} (h : ∀ s ∈ ss, Whole s.toList) :
    outdent (String.join ss).toList = ss.flatMap fun s => outdent s.toList := by
  induction ss with
  | nil => rfl
  | cons s ss ih =>
    obtain ⟨hFirst, hRest⟩ := List.forall_mem_cons.mp h
    rw [String.join_cons, outdent_toList_append hFirst, ih hRest, List.flatMap_cons]

theorem outdent_intercalate {ss : List String} (h : ∀ s ∈ ss, Whole s.toList) :
    outdent ("\n".intercalate ss).toList = ['\n'].intercalate (ss.map fun s => outdent s.toList) := by
  induction ss with
  | nil => rfl
  | cons s ss ih =>
    obtain ⟨hFirst, hRest⟩ := List.forall_mem_cons.mp h
    cases ss with
    | nil => rw [String.intercalate_singleton, List.map_singleton, List.intercalate_singleton]
    | cons t ss =>
      have hTail := ih hRest
      rw [List.map_cons] at hTail
      rw [String.intercalate_cons_cons, String.toList_append, String.toList_append, List.append_assoc,
        outdent_append hFirst, List.map_cons, List.map_cons, List.intercalate_cons_cons, ← hTail, List.append_assoc]
      exact congrArg _ (outdent_break [] _)

-- ---------------------------------------------------------------------------
-- Paragraphs
-- ---------------------------------------------------------------------------

/-- Whether each line break has another character before it, where `begun` tells whether there is one on the first line
already. -/
def fills : Bool → List Char → Bool
  | _, [] => true
  | begun, c :: rest => if c = '\n' then begun && fills false rest else fills true rest

/-- No line of the text is empty, and none becomes so if the text is written after another one. -/
def Filled (s : String) : Prop :=
  fills false s.toList = true

instance (s : String) : Decidable (Filled s) :=
  inferInstanceAs (Decidable (fills false s.toList = true))

theorem fills_break (begun : Bool) (s : List Char) : fills begun ('\n' :: s) = (begun && fills false s) := by
  rw [fills, if_pos rfl]

theorem fills_cons (begun : Bool) {c : Char} (h : c ≠ '\n') (s : List Char) : fills begun (c :: s) = fills true s := by
  rw [fills, if_neg h]

/-- It does no harm if something stands on the first line already. -/
theorem fills_of_fills {s : List Char} (h : fills false s = true) (begun : Bool) : fills begun s = true := by
  cases s with
  | nil => rfl
  | cons c rest =>
    by_cases hBreak : c = '\n'
    · rw [hBreak, fills_break] at h
      simp at h
    · rwa [fills_cons _ hBreak, ← fills_cons begun hBreak] at h

theorem fills_append {begun : Bool} {s t : List Char} (hs : fills begun s = true) (ht : fills false t = true) :
    fills begun (s ++ t) = true := by
  induction s generalizing begun with
  | nil => exact fills_of_fills ht begun
  | cons c rest ih =>
    by_cases hBreak : c = '\n'
    · rw [hBreak, fills_break, Bool.and_eq_true] at hs
      rw [List.cons_append, hBreak, fills_break, Bool.and_eq_true]
      exact ⟨hs.1, ih hs.2⟩
    · rw [fills_cons _ hBreak] at hs
      rw [List.cons_append, fills_cons _ hBreak]
      exact ih hs

theorem Filled.append {s t : String} (hs : Filled s) (ht : Filled t) : Filled (s ++ t) := by
  rw [Filled, String.toList_append]
  exact fills_append hs ht

theorem fills_of_not_mem {s : List Char} (h : '\n' ∉ s) (begun : Bool) : fills begun s = true := by
  induction s generalizing begun with
  | nil => rfl
  | cons c rest ih =>
    obtain ⟨hFirst, hRest⟩ := not_or.mp (List.mem_cons.not.mp h)
    rw [fills_cons _ (Ne.symm hFirst)]
    exact ih hRest true

theorem splitLines_cons {c : Char} (h : c ≠ '\n') (s : List Char) :
    splitLines (c :: s) = (splitLines s).modifyHead (List.cons c) := by
  have hSplit : (c :: s).splitOn '\n' = (s.splitOn '\n').modifyHead (List.cons c) := by
    rw [List.splitOn_eq_splitOnP, List.splitOnP_cons_eq_if_modifyHead, if_neg (by simpa using h), List.splitOn_eq_splitOnP]
  rw [splitLines, hSplit, splitLines]
  rcases s.splitOn '\n' with _ | ⟨first, _ | ⟨second, rest⟩⟩ <;> rfl

/-- If something stands on the first line already, only that line can be empty. -/
theorem ne_nil_of_fills {begun : Bool} {s : List Char} (h : fills begun s = true) :
    (∀ line ∈ (splitLines s).tail, line ≠ []) ∧ (begun = false → ∀ line ∈ splitLines s, line ≠ []) := by
  induction s generalizing begun with
  | nil => simp [splitLines]
  | cons c rest ih =>
    by_cases hBreak : c = '\n'
    · rw [hBreak, fills_break, Bool.and_eq_true] at h
      have hLines : splitLines (c :: rest) = [] :: splitLines rest := by
        rw [hBreak]
        exact splitLines_break [] rest
      rw [hLines, List.tail_cons]
      exact ⟨(ih h.2).2 rfl, fun hBegun => absurd h.1 (by simp [hBegun])⟩
    · rw [fills_cons _ hBreak] at h
      have hTail := (ih h).1
      rw [splitLines_cons hBreak]
      cases hRest : splitLines rest with
      | nil => simp
      | cons first others =>
        rw [hRest] at hTail
        exact ⟨hTail, fun _ => List.forall_mem_cons.mpr ⟨List.cons_ne_nil _ _, hTail⟩⟩

theorem Filled.ne_nil {s : String} {line : List Char} (h : Filled s) (hLine : line ∈ splitLines s.toList) : line ≠ [] :=
  (ne_nil_of_fills h).2 rfl line hLine

/-- The first lines of the paragraphs of a text. There are empty lines between one paragraph and the next. -/
def paragraphHeads (s : List Char) : List (List Char) :=
  ((splitLines s).splitOn []).filterMap List.head?

example : paragraphHeads "a\nb\n\nc\n".toList = ["a".toList, "c".toList] := by decide

/-- Texts without empty lines, with an empty line between one and the next. -/
theorem paragraphHeads_intercalate {ss : List String} (hWhole : ∀ s ∈ ss, Whole s.toList)
    (hFilled : ∀ s ∈ ss, Filled s) :
    paragraphHeads ("\n".intercalate ss).toList = ss.filterMap fun s => (splitLines s.toList).head? := by
  have hOne : ∀ s ∈ ss, (splitLines s.toList).splitOn [] = [splitLines s.toList] := by
    intro s hs
    rw [List.splitOn_eq_splitOnP]
    exact List.splitOnP_eq_singleton fun line hLine => by simpa using (hFilled s hs).ne_nil hLine
  unfold paragraphHeads
  induction ss with
  | nil => rfl
  | cons s ss ih =>
    obtain ⟨hFirst, hRest⟩ := List.forall_mem_cons.mp hWhole
    obtain ⟨-, hFilledRest⟩ := List.forall_mem_cons.mp hFilled
    obtain ⟨hOneFirst, hOneRest⟩ := List.forall_mem_cons.mp hOne
    cases ss with
    | nil =>
      rw [String.intercalate_singleton, hOneFirst, List.filterMap_cons, List.filterMap_cons]
      rfl
    | cons t ss =>
      have hSplit : ∀ ls ms : List (List Char), (ls ++ [] :: ms).splitOn [] = ls.splitOn [] ++ ms.splitOn [] := by
        intro ls ms
        simp only [List.splitOn_eq_splitOnP]
        exact List.splitOnP_append_cons ls ms (beq_self_eq_true [])
      have hHead : [splitLines s.toList].filterMap List.head? = [s].filterMap fun s => (splitLines s.toList).head? := rfl
      rw [splitLines_intercalate_cons_cons hFirst, hSplit, hOneFirst, List.filterMap_append, hHead,
        ih hRest hFilledRest hOneRest, ← List.filterMap_append]
      rfl

/-- The first line of a text. -/
theorem head?_splitLines {line : String} (h : '\n' ∉ line.toList) (rest : String) :
    (splitLines (line ++ "\n" ++ rest).toList).head? = some line.toList := by
  have hText : (line ++ "\n" ++ rest).toList = line.toList ++ '\n' :: rest.toList := by
    simp
  have hSplit : line.toList.splitOn '\n' = [line.toList] := by
    have hLine := splitLines_singleton h
    rwa [splitLines_break, splitLines_nil, List.append_nil] at hLine
  rw [hText, splitLines_break, hSplit]
  rfl

end Lowering.C
