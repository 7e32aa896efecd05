import Lowering.Proofs.C.Grammar
import Lowering.Proofs.C.Layout

/-!
# Declarations

A C declaration of variables is a word that names a type, and declarators with commas between them, up to a semicolon. A
declarator has stars, a name and an initializer. The stars belong to the declarator that they stand in, and not to the word
before it: in `T* a = x, b = y` the first variable is a pointer and the second is not.

The reader takes a text apart at its commas and looks at the front of each part. Commas and semicolons in brackets or
literals belong to an initializer.

* `Stays` — a text that is read as a part of one declarator.
* `declaration?` — the variables of a declaration, with their types.
* `VariableDeclaration.declaration?_text` — a declaration that was written is read back.
-/

namespace Lowering.C

-- ---------------------------------------------------------------------------
-- Parts
-- ---------------------------------------------------------------------------

/-- What ends a declarator. -/
def isSeparator (c : Char) : Bool :=
  c == ',' || c == ';'

/-- Reads a character of a part. A separator outside of all brackets and literals is none. -/
def Cursor.stepPart (k : Cursor) (c : Char) : Option Cursor :=
  if k == {} && isSeparator c then none else k.step c

/-- The parts of a text up to its first semicolon, of which some characters have been read. Only separators outside of all
brackets and literals count. -/
def parts? (k : Cursor) (part : List Char) : List Char → Option (List (List Char))
  | [] => none
  | c :: s =>
    if k == {} && c == ';' then some [part]
    else if k == {} && c == ',' then (parts? {} [] s).map (part :: ·)
    else (k.step c).bind fun next => parts? next (part ++ [c]) s

/-- A text within a line, which finds the brackets `as` open and leaves the brackets `bs` open, and in which all separators
are in brackets or literals. -/
structure Stays (as : List Char) (s : String) (bs : List Char) : Prop where
  reads : s.toList.foldlM Cursor.stepPart ⟨as, .code⟩ = some ⟨bs, .code⟩
  unbroken : '\n' ∉ s.toList

instance (as : List Char) (s : String) (bs : List Char) : Decidable (Stays as s bs) :=
  decidable_of_iff (s.toList.foldlM Cursor.stepPart ⟨as, .code⟩ = some ⟨bs, .code⟩ ∧ '\n' ∉ s.toList)
    ⟨fun h => ⟨h.1, h.2⟩, fun h => ⟨h.reads, h.unbroken⟩⟩

theorem Cursor.step_of_stepPart {k k' : Cursor} {c : Char} (h : k.stepPart c = some k') :
    (k == {} && isSeparator c) = false ∧ k.step c = some k' := by
  unfold stepPart at h
  split at h
  · cases h
  · rename_i hSeparator
    exact ⟨Bool.eq_false_iff.mpr hSeparator, h⟩

theorem Cursor.read_of_foldlM_stepPart {k k' : Cursor} {s : List Char} (h : s.foldlM stepPart k = some k') :
    k.read s = some k' := by
  induction s generalizing k with
  | nil => exact h
  | cons c s ih =>
    rw [List.foldlM_cons] at h
    obtain ⟨next, hStep, hRest⟩ := Option.bind_eq_some_iff.mp h
    rw [read, List.foldlM_cons, (step_of_stepPart hStep).2]
    exact ih hRest

/-- Inside of a bracket every text is a part. -/
theorem Cursor.foldlM_stepPart_frame {k k' : Cursor} {s : List Char} (h : k.read s = some k') {around : List Char}
    (hAround : around ≠ []) :
    s.foldlM stepPart ⟨k.opened ++ around, k.mode⟩ = some ⟨k'.opened ++ around, k'.mode⟩ := by
  have hInside : ∀ k : Cursor, (⟨k.opened ++ around, k.mode⟩ == ({} : Cursor)) = false := by
    intro k
    refine beq_eq_false_iff_ne.mpr fun hEq => hAround ?_
    exact (List.append_eq_nil_iff.mp (Cursor.mk.inj hEq).1).2
  induction s generalizing k with
  | nil =>
    cases h
    rfl
  | cons c s ih =>
    rw [read, List.foldlM_cons] at h
    obtain ⟨next, hStep, hRest⟩ := Option.bind_eq_some_iff.mp h
    rw [List.foldlM_cons, stepPart, hInside, Bool.false_and, if_neg (by decide), step_frame hStep around]
    exact ih hRest

/-- What has been read of a part is kept until its end. -/
theorem parts?_append {k k' : Cursor} {s : List Char} (h : s.foldlM Cursor.stepPart k = some k') (part r : List Char) :
    parts? k part (s ++ r) = parts? k' (part ++ s) r := by
  induction s generalizing k part with
  | nil =>
    cases h
    rw [List.append_nil, List.nil_append]
  | cons c s ih =>
    rw [List.foldlM_cons] at h
    obtain ⟨next, hStep, hRest⟩ := Option.bind_eq_some_iff.mp h
    obtain ⟨hSeparator, hNext⟩ := Cursor.step_of_stepPart hStep
    rw [isSeparator, Bool.and_or_distrib_left, Bool.or_eq_false_iff] at hSeparator
    rw [List.cons_append, parts?, hSeparator.1, hSeparator.2, if_neg (by decide), if_neg (by decide), hNext,
      Option.bind_some, ih hRest, List.append_assoc, List.singleton_append]

namespace Stays

variable {as bs cs : List Char} {s t : String}

theorem empty : Stays as "" as :=
  ⟨rfl, by simp⟩

theorem append (hs : Stays as s bs) (ht : Stays bs t cs) : Stays as (s ++ t) cs where
  reads := by
    rw [String.toList_append, List.foldlM_append, hs.reads]
    exact ht.reads
  unbroken := by
    rw [String.toList_append, List.mem_append, not_or]
    exact ⟨hs.unbroken, ht.unbroken⟩

theorem flows (h : Stays as s bs) : Flows as s bs :=
  ⟨Cursor.read_of_foldlM_stepPart h.reads, h.unbroken⟩

end Stays

/-- Any text that closes what it opens, in a bracket. -/
theorem Flows.stays {s : String} (h : Flows [] s []) {b : Char} {bs : List Char} : Stays (b :: bs) s (b :: bs) :=
  ⟨Cursor.foldlM_stepPart_frame h.reads (List.cons_ne_nil b bs), h.unbroken⟩

/-- The character neither has a part in the layout nor ends a declarator. -/
def isQuiet (c : Char) : Bool :=
  isPlain c && !isSeparator c

theorem foldlM_stepPart_of_isQuiet {s : List Char} (h : ∀ c ∈ s, isQuiet c = true) (as : List Char) :
    s.foldlM Cursor.stepPart ⟨as, .code⟩ = some ⟨as, .code⟩ := by
  induction s with
  | nil => rfl
  | cons c s ih =>
    obtain ⟨hFirst, hRest⟩ := List.forall_mem_cons.mp h
    obtain ⟨hPlain, hSeparator⟩ := Bool.and_eq_true_iff.mp hFirst
    have hStep : Cursor.stepPart ⟨as, .code⟩ c = some ⟨as, .code⟩ := by
      rw [Cursor.stepPart, (Bool.not_eq_true' _).mp hSeparator, Bool.and_false, if_neg (by decide)]
      exact stepCode_of_isPlain hPlain as
    rw [List.foldlM_cons, hStep]
    exact ih hRest

theorem stays_of_isQuiet {s : String} (h : ∀ c ∈ s.toList, isQuiet c = true) {as : List Char} : Stays as s as :=
  ⟨foldlM_stepPart_of_isQuiet h as, fun hBreak => absurd (h _ hBreak) (by decide)⟩

-- ---------------------------------------------------------------------------
-- The reader
-- ---------------------------------------------------------------------------

/-- The type of a variable: a word, and a number of stars. -/
structure ObjectType where
  word : String
  stars : Nat
deriving DecidableEq, Repr

/-- So many stars. -/
def starText (n : Nat) : String :=
  String.ofList (List.replicate n '*')

/-- The type as it is written by itself. -/
def ObjectType.text (t : ObjectType) : String :=
  t.word ++ starText t.stars

/-- Whether a character may stand before the name in a declarator. -/
def isLead (c : Char) : Bool :=
  isBlank c || c == '*'

/-- The stars and the name of a declarator, with or without an initializer. -/
def declarator? (s : List Char) : Option (Nat × List Char) :=
  let lead := s.takeWhile isLead
  let rest := s.drop lead.length
  let name := rest.takeWhile isWordChar
  let after := (rest.drop name.length).dropWhile isBlank
  if name.head?.any isWordStart && (after.isEmpty || after.head? == some '=') then some (lead.count '*', name) else none

/-- The variables of declarators after a word that names a type. -/
def declaredAfter? (word : List Char) : List (List Char) → Option (List (String × ObjectType))
  | [] => some []
  | s :: rest =>
    (declarator? s).bind fun d => (declaredAfter? word rest).map ((String.ofList d.2, ⟨String.ofList word, d.1⟩) :: ·)

/-- The variables that a declaration at the start of a text declares, with their types. -/
def declaration? (s : List Char) : Option (List (String × ObjectType)) :=
  (parts? {} [] s).bind fun
    | [] => none
    | first :: rest =>
      let text := first.dropWhile isBlank
      let word := text.takeWhile isWordChar
      if isTypeName word then declaredAfter? word (text.drop word.length :: rest) else none

/-- A star stands for one declarator, and a comma in a call separates nothing. -/
example : declaration? "char* a = f(x, y), b = 0, **c; d".toList =
    some [("a", ⟨"char", 1⟩), ("b", ⟨"char", 0⟩), ("c", ⟨"char", 2⟩)] := by
  decide +kernel

-- ---------------------------------------------------------------------------
-- Declarations as they are written
-- ---------------------------------------------------------------------------

/-- A declarator with its initializer. -/
structure InitDeclarator where
  stars : Nat
  name : String
  value : String

/-- The declarator as it is written, after its stars. -/
def InitDeclarator.text (x : InitDeclarator) : String :=
  x.name ++ " = " ++ x.value

/-- A declarator that can be read back. -/
structure InitDeclarator.WellFormed (x : InitDeclarator) : Prop where
  name : IsIdentifier x.name.toList
  value : Stays [] x.value []

/-- A declaration of variables. -/
structure VariableDeclaration where
  word : String
  first : InitDeclarator
  rest : List InitDeclarator

namespace VariableDeclaration

variable {d : VariableDeclaration}

/-- The declarators of a declaration. -/
def declarators (d : VariableDeclaration) : List InitDeclarator :=
  d.first :: d.rest

/-- The variables with their types. Each has its own stars. -/
def declared (d : VariableDeclaration) : List (String × ObjectType) :=
  d.declarators.map fun x => (x.name, ⟨d.word, x.stars⟩)

/-- The declaration as it is written. The stars of the first declarator follow the word directly. -/
def text (d : VariableDeclaration) : String :=
  d.word ++ starText d.first.stars ++ " " ++ d.first.text
    ++ String.join (d.rest.map fun x => ", " ++ (starText x.stars ++ x.text))

/-- A declaration that can be read back. -/
structure WellFormed (d : VariableDeclaration) : Prop where
  word : isTypeName d.word.toList = true
  declarators : ∀ x ∈ d.declarators, x.WellFormed

end VariableDeclaration

-- ---------------------------------------------------------------------------
-- Reading back
-- ---------------------------------------------------------------------------

theorem isLead_eq_false {c : Char} (h : isWordChar c = true) : isLead c = false := by
  have hStar : c ≠ '*' := by
    rintro rfl
    exact absurd h (by decide)
  rw [isLead, isBlank_eq_false h, Bool.false_or]
  exact beq_eq_false_iff_ne.mpr hStar

/-- A name does not start with anything else. -/
theorem notAhead_of_isIdentifier {p : Char → Bool} (hp : ∀ c, isWordChar c = true → p c = false) {w : List Char}
    (h : IsIdentifier w) (r : List Char) : NotAhead p (w ++ r) := by
  cases w with
  | nil => exact h.elim
  | cons c w => exact notAhead_cons.mpr (hp c (isWordChar_of_isWordStart h.1))

theorem dropWhile_of_notAhead {p : Char → Bool} {r : List Char} (h : NotAhead p r) : r.dropWhile p = r := by
  cases r with
  | nil => rfl
  | cons c r => rw [List.dropWhile_cons_of_neg (by simp [notAhead_cons.mp h])]

/-- No word goes on with stars and blanks. -/
theorem notAhead_of_isLead {lead : List Char} (hNe : lead ≠ []) (h : ∀ c ∈ lead, isLead c = true) (r : List Char) :
    NotAhead isWordChar (lead ++ r) := by
  cases lead with
  | nil => exact absurd rfl hNe
  | cons c lead =>
    refine notAhead_cons.mpr (Bool.eq_false_iff.mpr fun hWord => ?_)
    have hLead := h c (List.mem_cons_self ..)
    rw [isLead_eq_false hWord] at hLead
    cases hLead

theorem head?_of_isIdentifier {w : List Char} (h : IsIdentifier w) : w.head?.any isWordStart = true := by
  cases w with
  | nil => exact h.elim
  | cons c w => exact h.1

/-- The front of a declarator: blanks and stars, and then the name. -/
theorem declarator?_append {lead : List Char} (hLead : ∀ c ∈ lead, isLead c = true) {x : InitDeclarator}
    (h : x.WellFormed) : declarator? (lead ++ x.text.toList) = some (lead.count '*', x.name.toList) := by
  have hText : x.text.toList = x.name.toList ++ (' ' :: '=' :: ' ' :: x.value.toList) := by
    simp [InitDeclarator.text, String.toList_append]
  have hStart : (lead ++ x.text.toList).takeWhile isLead = lead := by
    rw [hText]
    exact takeWhile_append_of_notAhead hLead (notAhead_of_isIdentifier (fun _ => isLead_eq_false) h.name _)
  have hName : x.text.toList.takeWhile isWordChar = x.name.toList := by
    rw [hText]
    exact takeWhile_append_of_notAhead (isWordChar_of_mem h.name) (notAhead_cons.mpr (by decide))
  have hAfter : (x.text.toList.drop x.name.toList.length).dropWhile isBlank = '=' :: ' ' :: x.value.toList := by
    rw [hText, List.drop_left]
    rfl
  rw [declarator?, hStart, List.drop_left, hName, hAfter, head?_of_isIdentifier h.name]
  rfl

theorem starText_toList (n : Nat) : (starText n).toList = List.replicate n '*' :=
  String.toList_ofList

theorem stays_starText (n : Nat) : Stays [] (starText n) [] := by
  refine stays_of_isQuiet fun c hc => ?_
  rw [starText_toList] at hc
  rw [List.eq_of_mem_replicate hc]
  rfl

theorem isQuiet_of_isWordChar {c : Char} (h : isWordChar c = true) : isQuiet c = true := by
  have hOthers : (layoutChars ++ [',', ';']).all (fun d => !isWordChar d) = true := by decide
  have hNot : c ∉ layoutChars ++ [',', ';'] := by
    intro hMem
    have hOther := List.all_eq_true.mp hOthers c hMem
    rw [h] at hOther
    cases hOther
  rw [List.mem_append, not_or] at hNot
  simpa [isQuiet, isPlain, isSeparator] using hNot

theorem stays_word {s : String} (h : IsIdentifier s.toList) {as : List Char} : Stays as s as :=
  stays_of_isQuiet fun c hc => isQuiet_of_isWordChar (isWordChar_of_mem h c hc)

theorem InitDeclarator.WellFormed.stays {x : InitDeclarator} (h : x.WellFormed) : Stays [] x.text [] :=
  ((stays_word h.name).append (by decide : Stays [] " = " [])).append h.value

/-- The parts of what follows the first declarator. -/
theorem parts?_join {xs : List InitDeclarator} (h : ∀ x ∈ xs, x.WellFormed) (part r : List Char) :
    parts? {} part ((String.join (xs.map fun x => ", " ++ (starText x.stars ++ x.text))).toList ++ ';' :: r) =
      some (part :: xs.map fun x => (' ' :: List.replicate x.stars '*') ++ x.text.toList) := by
  induction xs generalizing part with
  | nil => rfl
  | cons x xs ih =>
    obtain ⟨hFirst, hRest⟩ := List.forall_mem_cons.mp h
    have hItem : Stays [] (" " ++ (starText x.stars ++ x.text)) [] :=
      (by decide : Stays [] " " []).append ((stays_starText x.stars).append hFirst.stays)
    have hText : (String.join ((x :: xs).map fun x => ", " ++ (starText x.stars ++ x.text))).toList ++ ';' :: r =
        ',' :: ((" " ++ (starText x.stars ++ x.text)).toList ++
          ((String.join (xs.map fun x => ", " ++ (starText x.stars ++ x.text))).toList ++ ';' :: r)) := by
      simp [String.join_cons, String.toList_append]
    have hItemText : (" " ++ (starText x.stars ++ x.text)).toList =
        (' ' :: List.replicate x.stars '*') ++ x.text.toList := by
      simp [String.toList_append, starText_toList]
    rw [hText, parts?, if_neg (by decide), if_pos (by decide), parts?_append hItem.reads, ih hRest, List.nil_append,
      hItemText]
    rfl

/-- The variable of a declarator comes before those of the others. -/
theorem declaredAfter?_cons (word : String) {lead : List Char} (hLead : ∀ c ∈ lead, isLead c = true) {x : InitDeclarator}
    (h : x.WellFormed) (parts : List (List Char)) :
    declaredAfter? word.toList ((lead ++ x.text.toList) :: parts) =
      (declaredAfter? word.toList parts).map ((x.name, ⟨word, lead.count '*'⟩) :: ·) := by
  rw [declaredAfter?, declarator?_append hLead h, Option.bind_some, String.ofList_toList, String.ofList_toList]

theorem isLead_of_mem_stars {n : Nat} : ∀ c ∈ List.replicate n '*', isLead c = true := by
  intro c hc
  rw [List.eq_of_mem_replicate hc]
  rfl

theorem declaredAfter?_map (word : String) {xs : List InitDeclarator} (h : ∀ x ∈ xs, x.WellFormed) :
    declaredAfter? word.toList (xs.map fun x => (' ' :: List.replicate x.stars '*') ++ x.text.toList) =
      some (xs.map fun x => (x.name, ⟨word, x.stars⟩)) := by
  induction xs with
  | nil => rfl
  | cons x xs ih =>
    obtain ⟨hFirst, hRest⟩ := List.forall_mem_cons.mp h
    have hLead : ∀ c ∈ ' ' :: List.replicate x.stars '*', isLead c = true :=
      List.forall_mem_cons.mpr ⟨rfl, isLead_of_mem_stars⟩
    have hCount : (' ' :: List.replicate x.stars '*').count '*' = x.stars := by simp
    rw [List.map_cons, declaredAfter?_cons word hLead hFirst, ih hRest, hCount]
    rfl

theorem isIdentifier_of_isTypeName {w : List Char} (h : isTypeName w = true) : IsIdentifier w := by
  have hWords : ∀ word ∈ Target.typeWords, IsIdentifier word.toList := by decide
  have hWord := hWords _ (List.contains_iff_mem.mp h)
  rwa [String.toList_ofList] at hWord

/-- A declaration that was written is read back, whatever follows its semicolon. -/
theorem VariableDeclaration.declaration?_text {d : VariableDeclaration} (h : d.WellFormed) (r : List Char) :
    declaration? (d.text.toList ++ ';' :: r) = some d.declared := by
  obtain ⟨hFirst, hRest⟩ := List.forall_mem_cons.mp h.declarators
  have hWord := isIdentifier_of_isTypeName h.word
  let lead := List.replicate d.first.stars '*' ++ [' ']
  have hLead : ∀ c ∈ lead, isLead c = true :=
    List.forall_mem_append.mpr ⟨isLead_of_mem_stars, List.forall_mem_singleton.mpr rfl⟩
  have hCount : lead.count '*' = d.first.stars := by simp [lead]
  have hHead : Stays [] (d.word ++ starText d.first.stars ++ " " ++ d.first.text) [] :=
    (((stays_word hWord).append (stays_starText _)).append (by decide : Stays [] " " [])).append hFirst.stays
  have hHeadText : (d.word ++ starText d.first.stars ++ " " ++ d.first.text).toList =
      d.word.toList ++ (lead ++ d.first.text.toList) := by
    simp [lead, String.toList_append, starText_toList]
  have hParts : parts? {} [] (d.text.toList ++ ';' :: r) =
      some ((d.word.toList ++ (lead ++ d.first.text.toList)) ::
        d.rest.map fun x => (' ' :: List.replicate x.stars '*') ++ x.text.toList) := by
    rw [text, String.toList_append, List.append_assoc, parts?_append hHead.reads, parts?_join hRest, List.nil_append,
      hHeadText]
  have hNoBlank : (d.word.toList ++ (lead ++ d.first.text.toList)).dropWhile isBlank =
      d.word.toList ++ (lead ++ d.first.text.toList) :=
    dropWhile_of_notAhead (notAhead_of_isIdentifier (fun _ => isBlank_eq_false) hWord _)
  have hTake : (d.word.toList ++ (lead ++ d.first.text.toList)).takeWhile isWordChar = d.word.toList :=
    takeWhile_append_of_notAhead (isWordChar_of_mem hWord) (notAhead_of_isLead (by simp [lead]) hLead _)
  rw [declaration?, hParts, Option.bind_some]
  dsimp only
  rw [hNoBlank, hTake, List.drop_left, if_pos h.word, declaredAfter?_cons d.word hLead hFirst, declaredAfter?_map d.word hRest,
    hCount]
  rfl

end Lowering.C
