import Lowering.Emit.Program
import Lowering.Proofs.Emit.Follows

/-!
# Which registry

A registry may hold any ways of writing for any kinds of nodes, but a program sees only those for the kinds that occur in
it. A way that is missing is not noticed before a node of its kind is to be written; the program then stops there.

* `generate_follows` — a program with two registries.
* `generate_reads_occurring_ways` — what of a registry counts for a program.
-/

namespace Lowering

open Gen

theorem Registry.find?_insert (r : Registry) (tag : Tag) (h : Handler) (t : Tag) :
    (r.insert tag h).find? t = if t = tag then some h else r.find? t := by
  have hOthers : t ≠ tag → (r.entries.filter fun e => e.1 ≠ tag).lookup t = r.entries.lookup t := by
    intro hNe
    induction r.entries with
    | nil => rfl
    | cons e rest ih =>
      by_cases hEntry : e.1 = tag
      · rw [List.filter_cons_of_neg (by simp [hEntry]), ih, List.lookup_cons, hEntry, beq_eq_false_iff_ne.mpr hNe]
      · rw [List.filter_cons_of_pos (by simp [hEntry]), List.lookup_cons, List.lookup_cons, ih]
  rw [find?, insert, List.lookup_cons]
  by_cases hTag : t = tag
  · rw [if_pos hTag, beq_iff_eq.mpr hTag]
  · rw [if_neg hTag, beq_eq_false_iff_ne.mpr hTag]
    exact hOthers hTag

/-- A program with a registry that serves each of its nodes as another one does, or not at all. -/
theorem generate_follows {bad : Fault → Prop} {r r' : Registry} {root : Node} (width : Nat)
    (h : ∀ n ∈ root.nodes, n.Served bad r r') :
    generate { width, registry := r } root = generate { width, registry := r' } root ∨
      ∃ fault, bad fault ∧ (generate { width, registry := r } root).result = .error fault := by
  unfold generate
  split
  · exact .inl rfl
  · rcases Node.visit_follows h (Draft.blank width) with ⟨hSame, -⟩ | ⟨fault, e, hFault, hBad, -⟩
    · exact .inl (by rw [hSame])
    · exact .inr ⟨fault, hBad, by rw [hFault]⟩

/-- The fault is that there is no way to write one of the nodes, which is of the given kind. -/
def Node.LacksWay (root : Node) (tag : Tag) (fault : Fault) : Prop :=
  ∃ n ∈ root.nodes, n.tag = tag ∧ fault = ⟨n.span, .unregistered tag⟩

/-- **Registries.** Two registries that agree on the kinds of nodes in a program make the same of it, down to the events.
Where a registry has no way for a kind, the program stops at a node of that kind, as an unknown construct, or it is
written as if there were any way for the kind. -/
theorem generate_reads_occurring_ways (width : Nat) (root : Node) (r : Registry) :
    (∀ r' : Registry, (∀ n ∈ root.nodes, r.find? n.tag = r'.find? n.tag) →
      generate { width, registry := r } root = generate { width, registry := r' } root) ∧
    ∀ tag, r.find? tag = none →
      (∃ fault, (generate { width, registry := r } root).result = .error fault ∧ fault.cause.kind = .unknownConstruct ∧
        root.LacksWay tag fault) ∨
      ∀ h : Handler, generate { width, registry := r.insert tag h } root = generate { width, registry := r } root := by
  refine ⟨fun r' hAgree => ?_, fun tag hMissing => ?_⟩
  · have hServed : ∀ n ∈ root.nodes, n.Served (fun _ => False) r r' := fun n hn => .inl (hAgree n hn)
    refine (generate_follows width hServed).resolve_right ?_
    rintro ⟨fault, hFalse, -⟩
    exact hFalse
  · by_cases hStops : ∃ fault, root.LacksWay tag fault ∧ (generate { width, registry := r } root).result = .error fault
    · obtain ⟨fault, hLacks, hResult⟩ := hStops
      refine .inl ⟨fault, hResult, ?_, hLacks⟩
      obtain ⟨n, -, -, rfl⟩ := hLacks
      rfl
    · refine .inr fun h => ?_
      have hServed : ∀ n ∈ root.nodes, n.Served (root.LacksWay tag) r (r.insert tag h) := by
        intro n hn
        by_cases hTag : n.tag = tag
        · exact .inr ⟨hTag ▸ hMissing, n, hn, hTag, by rw [hTag]⟩
        · exact .inl (by rw [Registry.find?_insert, if_neg hTag])
      exact ((generate_follows width hServed).resolve_right hStops).symm

/-- Neither labels nor jumps can be written. A label in the blocks of a function stops the program, and jumps, of which
there are none, do not matter. -/
theorem generate_reads_occurring_ways_label :
    let inner : Node := .block [.label "again" ⟨3, 4⟩] ⟨2, 5⟩
    let root : Node := .block [.funcDef .scoped "f" [] [] (.block [inner] ⟨1, 6⟩) ⟨0, 7⟩] ⟨0, 8⟩
    let r : Registry := ⟨Registry.standard.entries.filter fun e => e.1 ≠ .label ∧ e.1 ≠ .goto⟩
    let r' := r.insert .goto (.custom fun node _ => node.tag.name)
    (∀ n ∈ root.nodes, r.find? n.tag = r'.find? n.tag) ∧ generate { registry := r } root = generate { registry := r' } root ∧
      r.find? .label = none ∧ (∃ fault, (generate { registry := r } root).result = .error fault ∧
        fault.cause.kind = .unknownConstruct ∧ root.LacksWay .label fault) ∧
      r.find? .goto = none ∧ ∀ h, generate { registry := r.insert .goto h } root = generate { registry := r } root := by
  intro inner root r r'
  obtain ⟨hAgree, hMissing⟩ := generate_reads_occurring_ways 4 root r
  have hTags : ∀ n ∈ root.nodes, r.find? n.tag = r'.find? n.tag := by
    simp only [root, inner, Node.nodes_eq, Node.children, List.flatMap_cons, List.flatMap_nil, List.append_nil,
      List.forall_mem_cons, Node.tag]
    exact ⟨rfl, rfl, rfl, rfl, rfl, by simp⟩
  have hResult : (generate { registry := r } root).result = .error ⟨⟨3, 4⟩, .unregistered .label⟩ := rfl
  refine ⟨hTags, hAgree r' hTags, rfl, (hMissing .label rfl).resolve_right fun hAny => ?_, rfl,
    (hMissing .goto rfl).resolve_left ?_⟩
  · have hWritten := congrArg Outcome.result (hAny (.standard .label))
    rw [hResult] at hWritten
    cases hWritten
  · rintro ⟨fault, hFault, -, n, -, -, rfl⟩
    rw [hResult] at hFault
    have hCause := congrArg Fault.cause (Except.error.inj hFault)
    cases hCause

end Lowering
