import Mathlib.Tactic.Common
import Lowering.Json.Record

/-!
# Records in JSON

What a decoder of records gives back, by the parts of the record. Two questions are asked of every decoder: whether it
finds again what an encoder wrote, and whether the encoder would write what it found without nesting deeper than the value
it was found in. `Tame` is the second; it goes from the decoders of the parts to the decoder of the whole.
-/

namespace Lowering.Json

-- ---------------------------------------------------------------------------
-- Depth
-- ---------------------------------------------------------------------------

theorem depth_object (members : Members) : depth (.object members) = depthMembers members + 1 := by
  rw [depth]

theorem depth_array (items : List Json) : depth (.array items) = depthItems items + 1 := by
  rw [depth]

theorem depthMembers_nil : depthMembers [] = 0 := by
  rw [depthMembers]

theorem depthMembers_cons (name : String) (j : Json) (rest : Members) :
    depthMembers ((name, j) :: rest) = max j.depth (depthMembers rest) := by
  rw [depthMembers]

@[simp]
theorem depth_string (s : String) : depth (.string s) = 0 := by
  simp [depth]

theorem depth_le_depthMembers {name : String} {j : Json} {members : Members} (h : (name, j) ∈ members) :
    j.depth ≤ depthMembers members := by
  induction members with
  | nil => simp at h
  | cons m members ih =>
    rw [depthMembers]
    rcases List.mem_cons.mp h with rfl | h
    · exact Nat.le_max_left ..
    · exact Nat.le_trans (ih h) (Nat.le_max_right ..)

theorem depth_le_depthItems {j : Json} {items : List Json} (h : j ∈ items) : j.depth ≤ depthItems items := by
  induction items with
  | nil => simp at h
  | cons i items ih =>
    rw [depthItems]
    rcases List.mem_cons.mp h with rfl | h
    · exact Nat.le_max_left ..
    · exact Nat.le_trans (ih h) (Nat.le_max_right ..)

-- ---------------------------------------------------------------------------
-- Finding what was written
-- ---------------------------------------------------------------------------

section Written

variable {α : Type} {encode : α → Json} {decode : Json → Option α}

theorem list?_array (as : List α) (h : ∀ a ∈ as, decode (encode a) = some a) :
    list? decode (.array (as.map encode)) = some as := by
  rw [list?]
  induction as with
  | nil => rfl
  | cons a as ih =>
    rw [List.map_cons, List.mapM_cons, h a (List.mem_cons_self ..)]
    simp [ih fun b hb => h b (List.mem_cons_of_mem _ hb)]

theorem nullable_elim {o : Option α} (hNull : ∀ a, encode a ≠ .null) (h : ∀ a ∈ o, decode (encode a) = some a) :
    nullable decode (o.elim .null encode) = some o := by
  cases o with
  | none => rfl
  | some a =>
    have hDecode := h a rfl
    rw [Option.elim_some]
    unfold nullable
    split
    · rename_i hEq
      exact absurd hEq (hNull a)
    · rw [hDecode, Option.map_some]

@[simp]
theorem once_cons_self (name : String) (j : Json) {members : Members} (h : Members.once members name = some none) :
    Members.once ((name, j) :: members) name = some (some j) := by
  unfold Members.once at h ⊢
  rw [List.filter_cons_of_pos (by simp)]
  split at h
  · rename_i hNone
    rw [hNone]
  · simp at h
  · simp at h

@[simp]
theorem once_cons_of_ne {name other : String} (j : Json) (members : Members) (h : other ≠ name) :
    Members.once ((other, j) :: members) name = Members.once members name := by
  unfold Members.once
  rw [List.filter_cons_of_neg (by simpa using h)]

@[simp]
theorem once_nil (name : String) : Members.once [] name = some none := rfl

end Written

-- ---------------------------------------------------------------------------
-- What was found
-- ---------------------------------------------------------------------------

/-- What is decoded has the property, and it is not written deeper than the value that it was decoded from. -/
def Tame {α : Type} (encode : α → Json) (decode : Json → Option α) (P : α → Prop) : Prop :=
  ∀ j a, decode j = some a → (encode a).depth ≤ j.depth ∧ P a

namespace Tame

variable {α : Type} {encode : α → Json} {decode : Json → Option α} {P : α → Prop} {members : Members} {name : String}

theorem mem_of_once {j : Json} (h : Members.once members name = some (some j)) : (name, j) ∈ members := by
  unfold Members.once at h
  split at h
  · simp at h
  · rename_i m hFilter
    have hMem : m ∈ members.filter (fun m => m.1 == name) := by rw [hFilter]; simp
    obtain ⟨hMember, hName⟩ := List.mem_filter.mp hMem
    simp only [Option.some.injEq] at h
    obtain rfl := eq_of_beq hName
    exact h ▸ hMember
  · simp at h

theorem required (hTame : Tame encode decode P) {a : α} (h : Members.required members name decode = some a) :
    (encode a).depth ≤ depthMembers members ∧ P a := by
  unfold Members.required at h
  split at h
  · rename_i j hOnce
    obtain ⟨hDepth, hP⟩ := hTame j a h
    exact ⟨Nat.le_trans hDepth (depth_le_depthMembers (mem_of_once hOnce)), hP⟩
  · simp at h

theorem nullable (hTame : Tame encode decode P) :
    Tame (fun o : Option α => o.elim .null encode) (Json.nullable decode) (fun o => ∀ a ∈ o, P a) := by
  intro j o h
  unfold Json.nullable at h
  split at h
  · obtain rfl := Option.some.inj h
    exact ⟨Nat.le_refl 0, fun a ha => absurd ha (by simp)⟩
  · obtain ⟨a, hDecode, rfl⟩ := Option.map_eq_some_iff.mp h
    obtain ⟨hDepth, hP⟩ := hTame j a hDecode
    exact ⟨hDepth, fun b hb => Option.some.inj hb ▸ hP⟩

theorem optional (hTame : Tame encode decode P) {o : Option α} (h : Members.optional members name decode = some o) :
    (o.elim Json.null encode).depth ≤ depthMembers members ∧ ∀ a ∈ o, P a := by
  unfold Members.optional at h
  split at h
  · obtain rfl := Option.some.inj h
    exact ⟨Nat.zero_le _, fun a ha => absurd ha (by simp)⟩
  · rename_i j hOnce
    obtain ⟨hDepth, hP⟩ := hTame.nullable j o h
    exact ⟨Nat.le_trans hDepth (depth_le_depthMembers (mem_of_once hOnce)), hP⟩
  · simp at h

theorem withDefault (hTame : Tame encode decode P) {a default : α} {k : Nat} (hDefault : (encode default).depth ≤ k)
    (hP : P default) (hMembers : depthMembers members ≤ k)
    (h : Members.withDefault members name default decode = some a) : (encode a).depth ≤ k ∧ P a := by
  unfold Members.withDefault at h
  split at h
  · obtain rfl := Option.some.inj h
    exact ⟨hDefault, hP⟩
  · rename_i j hOnce
    obtain ⟨hDepth, hP⟩ := hTame j a h
    exact ⟨Nat.le_trans hDepth (Nat.le_trans (depth_le_depthMembers (mem_of_once hOnce)) hMembers), hP⟩
  · simp at h

theorem mapM {items : List Json} {as : List α} (hTame : Tame encode decode P) (h : items.mapM decode = some as) :
    depthItems (as.map encode) ≤ depthItems items ∧ ∀ a ∈ as, P a := by
  induction items generalizing as with
  | nil =>
    obtain rfl := Option.some.inj h
    exact ⟨Nat.le_refl _, by simp⟩
  | cons j items ih =>
    rw [List.mapM_cons] at h
    obtain ⟨a, hFirst, h⟩ := Option.bind_eq_some_iff.mp h
    obtain ⟨rest, hRest, h⟩ := Option.bind_eq_some_iff.mp h
    obtain rfl := Option.some.inj h
    obtain ⟨hDepth, hP⟩ := hTame j a hFirst
    obtain ⟨hDepths, hAll⟩ := ih hRest
    rw [List.map_cons, depthItems, depthItems]
    refine ⟨by omega, fun b hb => ?_⟩
    rcases List.mem_cons.mp hb with rfl | hb
    · exact hP
    · exact hAll b hb

theorem list (hTame : Tame encode decode P) :
    Tame (fun as : List α => .array (as.map encode)) (list? decode) (fun as => ∀ a ∈ as, P a) := by
  intro j as h
  cases j with
  | array items =>
    obtain ⟨hDepth, hP⟩ := hTame.mapM h
    rw [depth_array, depth_array]
    exact ⟨by omega, hP⟩
  | null | bool | number | string | object | unreadable => simp [list?] at h

theorem string : Tame Json.string string? (fun _ => True) := by
  intro j s h
  cases j with
  | string t =>
    obtain rfl := Option.some.inj h
    exact ⟨Nat.le_refl _, trivial⟩
  | null | bool | number | array | object | unreadable => simp [string?] at h

theorem bool : Tame Json.bool bool? (fun _ => True) := by
  intro j b h
  cases j with
  | bool c =>
    obtain rfl := Option.some.inj h
    exact ⟨Nat.le_refl _, trivial⟩
  | null | number | string | array | object | unreadable => simp [bool?] at h

/-- The fields that are there stand in the value that they are the fields of. -/
theorem fields {names : List String} {j : Json} {found : List (Option Json)} (h : fields? names j = some found) :
    1 ≤ j.depth ∧ ∀ i, some i ∈ found → i.depth + 1 ≤ j.depth := by
  cases j with
  | object members =>
    rw [depth_object]
    refine ⟨by omega, fun i hi => ?_⟩
    have hMem : ∀ {names : List String} {found : List (Option Json)}, names.mapM (Members.once members) = some found →
        some i ∈ found → ∃ name, (name, i) ∈ members := by
      intro names
      induction names with
      | nil =>
        intro found hFound hi
        obtain rfl := Option.some.inj hFound
        simp at hi
      | cons name names ih =>
        intro found hFound hi
        rw [List.mapM_cons] at hFound
        obtain ⟨first, hFirst, hFound⟩ := Option.bind_eq_some_iff.mp hFound
        obtain ⟨rest, hRest, hFound⟩ := Option.bind_eq_some_iff.mp hFound
        obtain rfl := Option.some.inj hFound
        rcases List.mem_cons.mp hi with rfl | hi
        · exact ⟨name, mem_of_once hFirst⟩
        · exact ih hRest hi
    obtain ⟨name, hMember⟩ := hMem h hi
    have hDepth := depth_le_depthMembers hMember
    omega
  | array items =>
    rw [depth_array]
    refine ⟨by omega, fun i hi => ?_⟩
    rw [fields?] at h
    split at h
    · obtain rfl := Option.some.inj h
      rcases List.mem_append.mp hi with hi | hi
      · obtain ⟨j, hj, hEq⟩ := List.mem_map.mp hi
        obtain rfl := Option.some.inj hEq
        have hDepth := depth_le_depthItems hj
        omega
      · exact absurd (List.mem_replicate.mp hi).2 (by simp)
    · simp at h
  | null | bool | number | string | unreadable => simp [fields?] at h

end Tame

end Lowering.Json
