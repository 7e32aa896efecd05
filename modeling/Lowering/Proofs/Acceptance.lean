import Lowering.Emit.Program
import Lowering.Proofs.Emit.Names

/-!
# Which programs are accepted

A program is written exactly if it is `Lowerable`: a condition on the tree, put together from one condition for each
node and the demand that no two strings and no two print calls start at the same place. Nothing else can go wrong, and
nothing that is asked for can be left out.

* `generate_eq_ok_iff` — the file of a program: what its tree adds to a new draft.
* `generate_ok_iff_lowerable` — acceptance.
-/

namespace Lowering

open Gen

/-- The place where a program starts. -/
theorem Draft.inside_blank (width : Nat) : (Draft.blank width).place.Inside 0 :=
  ⟨by simp [Draft.place, Draft.blank], by simp [Draft.place, Draft.blank, Site.isTop, Site.scope?]⟩

theorem Draft.at_blank (width : Nat) : (Draft.blank width).At (Draft.blank width).place :=
  ⟨rfl, rfl⟩

/-- At the start, only repeated names can be in the way. -/
theorem Draft.fresh_blank {width : Nat} {as : List Addition} :
    (Draft.blank width).Fresh as ↔ (Addition.names as).Nodup := by
  simp [Draft.Fresh, Draft.taken, Draft.blank]

/-- For a root block, a tree can be written exactly if its nodes are sound and its names are fresh. -/
theorem lowerable_iff {root : Node} (hBlock : root.tag = .block) (width : Nat) :
    Lowerable root ↔
      root.SoundAt 0 ∧ (Draft.blank width).Fresh (root.additions (Draft.blank width).place) := by
  rw [Draft.fresh_blank]
  constructor
  · intro h
    refine ⟨h.sound, ?_⟩
    rw [Node.names_additions h.sound, Node.nodup_symbolNames]
    exact ⟨h.strings, h.prints⟩
  · rintro ⟨hSound, hNodup⟩
    rw [Node.names_additions hSound, Node.nodup_symbolNames] at hNodup
    exact ⟨hBlock, hSound, hNodup.1, hNodup.2⟩

/-- The draft of a program that can be written. -/
theorem visit_of_lowerable {root : Node} (h : Lowerable root) (width : Nat) :
    ∃ events, visit .standard root (Draft.blank width) = .ok ()
      (((Draft.blank width).putAll (root.additions (Draft.blank width).place)).withEvents events) := by
  obtain ⟨hSound, hFresh⟩ := (lowerable_iff h.block width).mp h
  exact (root.visit_adds 0 _ (Draft.inside_blank width)).done _ (Draft.at_blank width) hSound hFresh

/-- The file of a program, if there is one. -/
theorem generate_eq_ok_iff {width : Nat} {root : Node} {text : String} :
    (generate { width } root).result = .ok text ↔
      Lowerable root ∧ text = ((Draft.blank width).putAll (root.additions (Draft.blank width).place)).finish := by
  by_cases hBlock : root.tag = .block
  · rw [generate, if_neg (not_not.mpr hBlock)]
    by_cases hLowerable : Lowerable root
    · obtain ⟨events, hRun⟩ := visit_of_lowerable hLowerable width
      rw [hRun]
      simp only [Except.ok.injEq, hLowerable, true_and]
      exact eq_comm
    · have hNot := mt (lowerable_iff hBlock width).mpr hLowerable
      obtain ⟨fault, e, hRun⟩ := (root.visit_adds 0 _ (Draft.inside_blank width)).refused _ (Draft.at_blank width) hNot
      simp [hRun, hLowerable]
  · rw [generate, if_pos hBlock]
    simp only [reduceCtorEq, false_iff, not_and]
    exact fun h => absurd h.block hBlock

/-- That a program has a text is seen by running the generator. -/
theorem exists_text_of_isOk {style : Style} {root : Node} (h : (generate style root).result.isOk = true) :
    ∃ text, (generate style root).result = .ok text := by
  cases hResult : (generate style root).result with
  | ok text => exact ⟨text, rfl⟩
  | error fault =>
    rw [hResult] at h
    cases h

/-- **Acceptance.** A program is written exactly if its tree can be: the root is a block, every node is sound where it
stands, and neither two strings nor two print calls start at the same place. -/
theorem generate_ok_iff_lowerable (width : Nat) (root : Node) :
    (∃ text, (generate { width } root).result = .ok text) ↔ Lowerable root := by
  simp only [generate_eq_ok_iff]
  exact ⟨fun ⟨_, h, _⟩ => h, fun h => ⟨_, h, rfl⟩⟩

end Lowering
