/-!
# What a break leaves

In C a `break` belongs to the innermost loop or switch around it. Here this is read off lines that hold a statement each, or
the head or the end of one: a line that ends with an open brace opens a construct, and its first word tells which; a line
that starts with a closing brace closes the last one that is open.

Lines come with marks, which are carried along and never looked at. A break is thus traced to the line that opens the
construct it leaves.

* `Braces.after` — the constructs that are open after a line.
* `breaks` — the breaks among lines, each with the construct it leaves.
-/

namespace Lowering.C

variable {α : Type}

/-- What stands between two braces. -/
inductive Construct where
  | loop
  | switch
  | other
deriving DecidableEq, Repr

/-- The line starts with a closing brace. -/
def closes (line : String) : Bool :=
  line.toList.head? = some '}'

/-- The construct that starts with these characters. -/
def construct (line : List Char) : Construct :=
  if ["while (", "for (", "do \x7b"].any (fun head => head.toList.isPrefixOf line) then .loop
  else if "switch (".toList.isPrefixOf line then .switch
  else .other

/-- The construct that a line opens. -/
def opened? (line : String) : Option Construct :=
  if line.toList.getLast? = some '{' then some (construct line.toList) else none

/-- The constructs that are open, the innermost first, with the marks of the lines that open them. -/
abbrev Braces (α : Type) := List (Construct × α)

namespace Braces

/-- The constructs that are open after a line. -/
def after (braces : Braces α) (line : α × String) : Braces α :=
  ((opened? line.2).map (·, line.1)).toList ++ if closes line.2 then braces.tail else braces

/-- The construct that a break leaves. -/
def target? (braces : Braces α) : Option α :=
  (braces.find? fun c => c.1 ≠ .other).map Prod.snd

end Braces

/-- The breaks among lines, each with the construct it leaves. -/
def breaks : Braces α → List (α × String) → List (α × Option α)
  | _, [] => []
  | braces, line :: lines =>
    (if line.2 = "break;" then [(line.1, braces.target?)] else []) ++ breaks (braces.after line) lines

example : breaks [] [(1, "while (true) \x7b"), (2, "switch (x) \x7b"), (3, "case 1: \x7b"), (4, "break;"), (5, "\x7d"),
    (6, "\x7d"), (7, "break;"), (8, "\x7d")] = [(4, some 2), (7, some 1)] := by decide

theorem breaks_append (braces : Braces α) (lines lines' : List (α × String)) :
    breaks braces (lines ++ lines') = breaks braces lines ++ breaks (lines.foldl Braces.after braces) lines' := by
  induction lines generalizing braces with
  | nil => rfl
  | cons line lines ih => rw [List.cons_append, breaks, breaks, ih, List.append_assoc, List.foldl_cons]

-- ---------------------------------------------------------------------------
-- Lines
-- ---------------------------------------------------------------------------

theorem closes_append {s t : String} (hs : closes s = false) (ht : closes t = false) : closes (s ++ t) = false := by
  unfold closes at *
  rw [String.toList_append]
  cases hText : s.toList with
  | nil => exact ht
  | cons c cs =>
    rw [hText] at hs
    exact hs

theorem closes_append_of_ne {s : String} (h : s ≠ "") (t : String) : closes (s ++ t) = closes s := by
  unfold closes
  rw [String.toList_append]
  cases hText : s.toList with
  | nil => exact absurd (String.toList_eq_nil_iff.mp hText) h
  | cons c cs => rfl

/-- A fixed text at the start. -/
theorem closes_lead {s : String} (h : s ≠ "" ∧ closes s = false) (t : String) : closes (s ++ t) = false :=
  (closes_append_of_ne h.1 t).trans h.2

theorem opened?_eq_none {s t : String} {c : Char} (h : t.toList.getLast? = some c) (hc : c ≠ '{') :
    opened? (s ++ t) = none := by
  have hLast : (s ++ t).toList.getLast? = some c := by
    rw [String.toList_append, List.getLast?_append, h]
    rfl
  rw [opened?, hLast, if_neg (by simpa using hc)]

/-- The line is a statement of its own. -/
structure IsStatement (line : String) : Prop where
  closes_eq : closes line = false
  opened?_eq : opened? line = none

theorem isStatement_of {s : String} (h : closes s = false) : IsStatement (s ++ ";") :=
  ⟨closes_append h rfl, opened?_eq_none (t := ";") (c := ';') rfl (by decide)⟩

/-- The line is the head of a construct. -/
structure IsHead (c : Construct) (line : String) : Prop where
  closes_eq : closes line = false
  opened?_eq : opened? line = some c

/-- The line is the head of a construct, after the end of another one. -/
structure IsTurn (c : Construct) (line : String) : Prop where
  closes_eq : closes line = true
  opened?_eq : opened? line = some c

/-- The line is the end of a construct. -/
structure IsEnd (line : String) : Prop where
  closes_eq : closes line = true
  opened?_eq : opened? line = none

section Heads

variable (before after : String) {c : Construct} (hBefore : ∀ rest, construct (before.toList ++ rest) = c)
  (hAfter : after.toList.getLast? = some '{')

include hBefore hAfter

theorem opened?_head (middle : String) : opened? (before ++ middle ++ after) = some c := by
  have hLast : (before ++ middle ++ after).toList.getLast? = some '{' := by
    rw [String.toList_append, List.getLast?_append, hAfter]
    rfl
  rw [opened?, if_pos hLast, String.toList_append, String.toList_append, List.append_assoc, hBefore]

theorem isHead_of (h : before ≠ "" ∧ closes before = false) (middle : String) : IsHead c (before ++ middle ++ after) where
  closes_eq := by
    rw [String.append_assoc]
    exact closes_lead h _
  opened?_eq := opened?_head before after hBefore hAfter middle

theorem isTurn_of (h : before ≠ "" ∧ closes before = true) (middle : String) : IsTurn c (before ++ middle ++ after) where
  closes_eq := by
    rw [String.append_assoc, closes_append_of_ne h.1]
    exact h.2
  opened?_eq := opened?_head before after hBefore hAfter middle

end Heads

namespace Braces

variable (braces : Braces α) (mark : α)

theorem after_statement {line : String} (h : IsStatement line) : braces.after (mark, line) = braces := by
  unfold after
  rw [h.closes_eq, h.opened?_eq]
  rfl

theorem after_head {c : Construct} {line : String} (h : IsHead c line) : braces.after (mark, line) = (c, mark) :: braces := by
  unfold after
  rw [h.closes_eq, h.opened?_eq]
  rfl

theorem after_turn {b : Construct × α} {c : Construct} {line : String} (h : IsTurn c line) :
    after (b :: braces) (mark, line) = (c, mark) :: braces := by
  unfold after
  rw [h.closes_eq, h.opened?_eq]
  rfl

theorem after_end {b : Construct × α} {line : String} (h : IsEnd line) : after (b :: braces) (mark, line) = braces := by
  unfold after
  rw [h.closes_eq, h.opened?_eq]
  rfl

end Braces

end Lowering.C
