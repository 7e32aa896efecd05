import Lowering.Proofs.Acceptance
import Lowering.Proofs.Draft.Requests
import Lowering.Proofs.Draft.Sections

/-!
# The draft of a program

What a program that is written leaves in the sections of its draft and on its page, read off the additions of its tree.
The top sections show the headers and the support code that were asked for, the definitions stand one after the other, and
the page holds the entry point.

* `stocked_program`, `definitions_program`, `Draft.text_page_putAll_blank` — the parts of the draft.
-/

namespace Lowering

open Addition

variable {root : Node} (h : Lowerable root) (width : Nat)

/-- What is on the page of a new draft after additions. -/
theorem Draft.text_page_putAll_blank (as : List Addition) : ((Draft.blank width).putAll as).page.text = pageText as := by
  have hParts := (Draft.blank width).putAll_relocate (Page.blank width) {} as
  have hBlank : (Draft.blank width).relocate (Page.blank width) {} = Draft.blank width := rfl
  rw [hBlank] at hParts
  rw [hParts]
  exact String.empty_append

/-- Every definition has some text. -/
theorem definition?_ne_empty (hSoundAt : root.SoundAt 0) (p : Place) :
    ∀ a ∈ root.additions p, ∀ t ∈ a.definition?, t ≠ "" := by
  refine Node.forall_mem_additions (by simp [definition?]) (by simp [definition?]) (by simp [definition?])
    (by simp [definition?]) hSoundAt p fun m _ q _ => ?_
  cases m with
  | funcDef => simp [Node.own, Node.ownAfter, definition?, functionText]
  | call callee args span =>
    cases hCallee : Expression.intrinsic? callee with
    | none => simp [Node.own, Node.ownAfter, hCallee]
    | some intrinsic =>
      cases intrinsic
      simp [Node.own, Node.ownAfter, hCallee, definition?, Print.helper, Page.framed]
  | string => simp [Node.own, Node.ownAfter, definition?]
  | _ => simp [Node.own, Node.ownAfter]

/-- The entry point is never empty. -/
theorem pageText_ne_empty (hBlock : root.tag = .block) : pageText (root.additions (Draft.blank width).place) ≠ "" := by
  cases root with
  | block statements span =>
    have hOutermost : ((Draft.blank width).place.descend .block).outermost = true := rfl
    rw [Node.additions, Place.block, if_pos hOutermost]
    simp [onPage]
  | _ => simp [Node.tag] at hBlock

include h in
theorem definitions_program :
    ((Draft.blank width).putAll (root.additions (Draft.blank width).place)).sections.definitions =
      "\n".intercalate ((root.additions (Draft.blank width).place).filterMap definition?) :=
  Draft.definitions_putAll [] String.intercalate_nil.symm (by simp) (definition?_ne_empty h.sound _)

/-- The top sections of a program. -/
theorem stocked_program (as : List Addition) :
    ((Draft.blank width).putAll as).Stocked (as.flatMap Addition.headers) (as.flatMap Addition.supports) := by
  have hStocked := (Draft.stocked_blank width).putAll as
  rwa [List.nil_append, List.nil_append] at hStocked

end Lowering
