import Lowering.Proofs.Decimal
import Lowering.Proofs.Emit.Filing

/-!
# Generated names

Strings and print calls are given names of their own, made from where they start. Which names a tree gives away can be
read off its nodes one by one.

* `Node.names_additions` — the names that the writing of a tree gives away, in the order of its nodes.
* `Node.nodup_symbolNames` — no name is given away twice if neither strings nor print calls share a start.
-/

namespace Lowering

/-- The name of the record for a string that starts at `start`. -/
def stringName (start : Nat) : String :=
  "__strlit_" ++ toString start

/-- The name of the helper for a print call that starts at `start`. -/
def printName (start : Nat) : String :=
  "__print_" ++ toString start

theorem stringName_inj {a b : Nat} : stringName a = stringName b ↔ a = b := by
  rw [stringName, stringName, String.append_right_inj, decimal_inj]

theorem printName_inj {a b : Nat} : printName a = printName b ↔ a = b := by
  rw [printName, printName, String.append_right_inj, decimal_inj]

theorem stringName_ne_printName (a b : Nat) : stringName a ≠ printName b := by
  intro h
  have hThird : (stringName a).toList[2]? = (printName b).toList[2]? := by rw [h]
  simp [stringName, printName, String.toList_append] at hThird

namespace Node

/-- The generated name that a node needs, if it needs one. -/
def symbolName? (n : Node) : Option String :=
  (n.stringStart?.map stringName).or (n.printStart?.map printName)

theorem symbolName?_print {callee : Node} (h : Expression.intrinsic? callee = some .print) {args : List Node}
    {span : Span} : symbolName? (.call callee args span) = some (printName span.start) := by
  rw [symbolName?, printStart?, printArgs?_call, h]
  rfl

/-- A string is no print call. -/
theorem stringStart?_or_printStart? (n : Node) : n.stringStart? = none ∨ n.printStart? = none := by
  cases n with
  | string value span => exact Or.inr rfl
  | _ => exact Or.inl rfl

/-- The names among what a node adds by itself. -/
theorem names_own (n : Node) (width : Nat) : Addition.names (n.own width) = n.symbolName?.toList := by
  cases n with
  | string value span => rfl
  | call callee args span =>
    rw [symbolName?, printStart?, printArgs?_call, own]
    cases hCallee : Expression.intrinsic? callee with
    | none => rfl
    | some intrinsic =>
      cases intrinsic
      rfl
  | _ => rfl

theorem reading_name? : Reading Addition.name? :=
  ⟨fun _ => rfl, fun _ _ => rfl, fun _ => rfl⟩

/-- The names that a tree gives away. -/
theorem names_additions {n : Node} {depth : Nat} (h : n.SoundAt depth) (p : Place) :
    Addition.names (n.additions p) = (n.census depth).filterMap (fun e => e.2.symbolName?) := by
  have hFiling : Filing Addition.name? := ⟨reading_name?, rfl⟩
  rw [Addition.names, filterMap_additions_census hFiling (fun _ _ => rfl) n h, List.filterMap_eq_flatMap_toList]
  exact List.flatMap_congr fun e _ => names_own e.2 p.width

/-- No name is given away twice exactly if neither strings nor print calls share a start. -/
theorem nodup_symbolNames (l : List (Nat × Node)) :
    (l.filterMap (fun e => e.2.symbolName?)).Nodup ↔
      (l.filterMap (fun e => e.2.stringStart?)).Nodup ∧ (l.filterMap (fun e => e.2.printStart?)).Nodup := by
  simp only [List.Nodup, List.pairwise_filterMap]
  rw [← List.pairwise_and_iff]
  refine List.Pairwise.iff ?_
  rintro ⟨_, a⟩ ⟨_, b⟩
  simp only [symbolName?]
  -- Each of the two nodes is a string, a print call, or neither.
  rcases a.stringStart?_or_printStart? with ha | ha <;> rcases b.stringStart?_or_printStart? with hb | hb
  · cases a.printStart? <;> cases b.printStart? <;> simp [ha, hb, printName_inj]
  · cases a.printStart? <;> cases b.stringStart? <;> simp [ha, hb, (stringName_ne_printName _ _).symm]
  · cases a.stringStart? <;> cases b.printStart? <;> simp [ha, hb, stringName_ne_printName]
  · cases a.stringStart? <;> cases b.stringStart? <;> simp [ha, hb, stringName_inj]

end Node

end Lowering
