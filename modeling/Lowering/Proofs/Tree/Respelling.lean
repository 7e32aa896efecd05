import Mathlib.Data.List.Nodup
import Mathlib.Logic.Relation
import Lowering.Proofs.Json.Lexeme
import Lowering.Proofs.Tree.Shape

/-!
# Texts of the same tree

Two texts can look quite different and be texts of the same tree: members may be in another order, members that nobody asks
for come and go, a record may be an array of its fields, and what has its default need not be written. Neither these changes
nor blanks between the lexemes make a difference to what is read.

A change must not bring in what cannot be read, and must not nest too deep. How many levels may still be opened at some
place is its room: it is the nesting limit at the root and gets less by one with every array or object on the way down.

* `Respelled` — one change to a value of some shape.
* `Respelled.agree` — both values are read alike, or neither is read.
* `Rewritten` — one change to a text.
-/

namespace Lowering

open Json

-- ---------------------------------------------------------------------------
-- Limits
-- ---------------------------------------------------------------------------

/-- The value can be read and does not nest deeper than there is room. -/
def Json.Kept (room : Nat) (j : Json) : Prop :=
  j.readable = true ∧ j.depth ≤ room

section Kept

variable {room : Nat}

theorem depthMembers_le_iff {members : Members} {k : Nat} : depthMembers members ≤ k ↔ ∀ m ∈ members, m.2.depth ≤ k := by
  induction members with
  | nil => simp [depthMembers]
  | cons m members ih => rw [depthMembers, Nat.max_le, ih, List.forall_mem_cons]

theorem depthItems_le_iff {items : List Json} {k : Nat} : depthItems items ≤ k ↔ ∀ j ∈ items, j.depth ≤ k := by
  induction items with
  | nil => simp [depthItems]
  | cons j items ih => rw [depthItems, Nat.max_le, ih, List.forall_mem_cons]

theorem kept_object {members : Members} :
    Kept room (.object members) ↔ 0 < room ∧ ∀ m ∈ members, Kept (room - 1) m.2 := by
  have hDepth : depthMembers members + 1 ≤ room ↔ 0 < room ∧ depthMembers members ≤ room - 1 := by omega
  rw [Kept, readable, readableMembers_iff, depth_object, hDepth, depthMembers_le_iff]
  simp only [Kept, forall_and]
  tauto

theorem kept_array {items : List Json} :
    Kept room (.array items) ↔ 0 < room ∧ ∀ j ∈ items, Kept (room - 1) j := by
  have hDepth : depthItems items + 1 ≤ room ↔ 0 < room ∧ depthItems items ≤ room - 1 := by omega
  rw [Kept, readable, readableItems_iff, depth_array, hDepth, depthItems_le_iff]
  simp only [Kept, forall_and]
  tauto

end Kept

-- ---------------------------------------------------------------------------
-- Members
-- ---------------------------------------------------------------------------

/-- The only one of some values, if there are any at all. -/
def only {α : Type} : List α → Option (Option α)
  | [] => some none
  | [a] => some (some a)
  | _ => none

theorem only_perm {α : Type} {as bs : List α} (h : as.Perm bs) : only as = only bs := by
  rcases as with _ | ⟨a, _ | ⟨a₂, as⟩⟩
  · rw [List.nil_perm.mp h]
  · rw [List.singleton_perm.mp h]
  · have hLength := h.length_eq
    rcases bs with _ | ⟨b, _ | ⟨b₂, bs⟩⟩
    · simp at hLength
    · simp at hLength
    · rfl

/-- A value among others is the only one, or is not whatever it is. -/
theorem only_append_cons {α : Type} (as bs : List α) :
    (∀ a, only (as ++ a :: bs) = some (some a)) ∨ ∀ a, only (as ++ a :: bs) = none := by
  rcases as with _ | ⟨a, as⟩
  · rcases bs with _ | ⟨b, bs⟩
    · exact .inl fun _ => rfl
    · exact .inr fun _ => rfl
  · rcases as with _ | ⟨a₂, as⟩
    · exact .inr fun _ => rfl
    · exact .inr fun _ => rfl

section Members

variable {members members' : Members} {name other : String}

theorem once_eq_only (members : Members) (name : String) :
    members.once name = only ((members.filter fun m => m.1 == name).map Prod.snd) := by
  unfold Members.once
  generalize List.filter _ members = found
  rcases found with _ | ⟨m, _ | ⟨m₂, rest⟩⟩ <;> rfl

theorem once_perm (h : members.Perm members') (name : String) : members.once name = members'.once name := by
  rw [once_eq_only, once_eq_only]
  exact only_perm ((h.filter _).map _)

theorem once_of_not_mem (h : name ∉ members.map Prod.fst) : members.once name = some none := by
  have hNil : members.filter (fun m => m.1 == name) = [] := by
    rw [List.filter_eq_nil_iff]
    intro m hm hName
    exact h (List.mem_map.mpr ⟨m, hm, eq_of_beq hName⟩)
  rw [once_eq_only, hNil]
  rfl

/-- A member among others is the only one of its name, or is not whatever its value is. -/
theorem once_split (before after : Members) (name : String) :
    (∀ j, Members.once (before ++ (name, j) :: after) name = some (some j)) ∨
      ∀ j, Members.once (before ++ (name, j) :: after) name = none := by
  simp only [once_eq_only, List.filter_append, List.filter_cons, beq_self_eq_true, if_true, List.map_append, List.map_cons]
  exact only_append_cons _ _

theorem once_split_of_ne (before after : Members) (h : name ≠ other) (j j' : Json) :
    Members.once (before ++ (name, j) :: after) other = Members.once (before ++ (name, j') :: after) other := by
  simp only [once_eq_only, List.filter_append, List.filter_cons, beq_iff_eq, h, if_false]

end Members

namespace Field

variable {levels : Nat} {f g : Field} {members members' : Members}

theorem read_of_once (h : members.once f.name = members'.once f.name) : f.read levels members = f.read levels members' := by
  unfold read
  rw [h]

end Field

namespace RecordShape

variable {r : RecordShape} {members members' : Members} {f g : Field}

theorem tag_mem_fields (members : Members) : ⟨"tag", .tag, none⟩ ∈ node.fields members :=
  List.mem_cons_self ..

theorem span_mem_fields (members : Members) : ⟨"span", .record .span, none⟩ ∈ node.fields members :=
  List.mem_cons_of_mem _ (List.mem_cons_self ..)

/-- No two fields of a record have the same name. -/
theorem nodup_fields (r : RecordShape) (members : Members) : ((r.fields members).map Field.name).Nodup := by
  have hTag : ∀ tag : Tag, ("tag" :: "span" :: tag.fields.map Field.name).Nodup := by
    intro tag
    cases tag <;> simp [Tag.fields, Field.optional, Field.several]
  cases r with
  | node =>
    rw [fields]
    cases Field.read 0 ⟨"tag", .tag, none⟩ members with
    | none => simp
    | some tag => exact hTag tag
  | span => simp [fields]
  | typedName => simp [fields, Field.optional]
  | branch => simp [fields]
  | case => simp [fields]
  | scientific => simp [fields]

theorem eq_of_name (hf : f ∈ r.fields members) (hg : g ∈ r.fields members) (h : f.name = g.name) : f = g :=
  List.inj_on_of_nodup_map (nodup_fields r members) hf hg h

/-- Which fields a record has is up to its tag. -/
theorem fields_congr (h : members.once "tag" = members'.once "tag") : r.fields members = r.fields members' := by
  cases r with
  | node =>
    have hTag : Field.read 0 ⟨"tag", .tag, none⟩ members = Field.read 0 ⟨"tag", .tag, none⟩ members' := Field.read_of_once h
    rw [fields, fields, hTag]
  | span | typedName | branch | case | scientific => rfl

/-- The field with the name of the tag is the tag. -/
theorem shape_of_name_tag (hf : f ∈ r.fields members) (h : f.name = "tag") : f.shape = .tag := by
  cases r with
  | node => rw [eq_of_name hf (tag_mem_fields members) h]
  | span | typedName | branch | case | scientific =>
    simp [fields, Field.optional] at hf
    rcases hf with rfl | rfl <;> simp at h

end RecordShape

-- ---------------------------------------------------------------------------
-- One change
-- ---------------------------------------------------------------------------

/-- One change to how a value of some shape is written, at a place with so much room. -/
inductive Respelled : Shape → Nat → Json → Json → Prop where
  /-- The members of an object in another order. -/
  | order {r : RecordShape} {room : Nat} {members members' : Members} (h : members.Perm members') :
      Respelled (.record r) room (.object members) (.object members')
  /-- A member more that is no field. -/
  | unused {r : RecordShape} {room : Nat} {members : Members} {name : String} {j : Json}
      (hName : name ∉ (r.fields members).map Field.name) (hReadable : j.readable = true) (hDepth : j.depth < room) :
      Respelled (.record r) room (.object members) (.object ((name, j) :: members))
  /-- A field written out that has its default. -/
  | default {r : RecordShape} {room : Nat} {members : Members} {f : Field} {j : Json} (hField : f ∈ r.fields members)
      (hDefault : f.default = some j) (hAbsent : f.name ∉ members.map Prod.fst) :
      Respelled (.record r) room (.object members) (.object ((f.name, j) :: members))
  /-- A record as an array of its first fields. -/
  | positional {r : RecordShape} {room : Nat} {values : List Json} (hr : r ≠ .node)
      (hLength : values.length ≤ (r.fields []).length) :
      Respelled (.record r) room (.object (((r.fields []).map Field.name).zip values)) (.array values)
  /-- A change to the value of a field. -/
  | member {r : RecordShape} {room : Nat} {before after : Members} {f : Field} {j j' : Json}
      (hField : f ∈ r.fields (before ++ (f.name, j) :: after)) (h : Respelled f.shape (room - 1) j j') :
      Respelled (.record r) room (.object (before ++ (f.name, j) :: after)) (.object (before ++ (f.name, j') :: after))
  /-- A change to one of several values. -/
  | item {s : Shape} {room : Nat} {before after : List Json} {j j' : Json} (h : Respelled s (room - 1) j j') :
      Respelled (.list s) room (.array (before ++ j :: after)) (.array (before ++ j' :: after))
  /-- A change to a value that might be null but is not. -/
  | present {s : Shape} {room : Nat} {j j' : Json} (h : Respelled s room j j') : Respelled (.nullable s) room j j'
  /-- A change to the parts of a number. -/
  | scientific {room : Nat} {before after : Members} {j j' : Json} (h : Respelled (.record .scientific) (room - 1) j j') :
      Respelled .form room (.object (before ++ ("scientific", j) :: after))
        (.object (before ++ ("scientific", j') :: after))

-- ---------------------------------------------------------------------------
-- Values that are read alike
-- ---------------------------------------------------------------------------

/-- The value is not read, because it breaks a limit or is not of the shape. -/
def Unread (s : Shape) (room : Nat) (j : Json) : Prop :=
  Kept room j → ∀ levels, s.decode levels j = none

/-- Both values keep to the limits and are read alike, or neither is read. -/
def Agree (s : Shape) (room : Nat) (j j' : Json) : Prop :=
  (Kept room j ∧ Kept room j' ∧ ∀ levels, s.decode levels j = s.decode levels j') ∨ (Unread s room j ∧ Unread s room j')

section Agree

variable {r : RecordShape} {s : Shape} {room : Nat} {j j' : Json} {members members' : Members} {f : Field}

theorem agree_of_kept_iff (hKept : Kept room j ↔ Kept room j') (h : ∀ levels, s.decode levels j = s.decode levels j') :
    Agree s room j j' := by
  by_cases hj : Kept room j
  · exact .inl ⟨hj, hKept.mp hj, h⟩
  · exact .inr ⟨fun hj' => absurd hj' hj, fun hj' => absurd (hKept.mpr hj') hj⟩

theorem agree_order (h : members.Perm members') : Agree (.record r) room (.object members) (.object members') := by
  refine agree_of_kept_iff ?_ fun levels => ?_
  · rw [kept_object, kept_object]
    exact and_congr_right fun _ => forall_congr' fun m => by rw [h.mem_iff]
  · exact RecordShape.decode_congr fun f _ levels => Field.read_of_once (once_perm h f.name)

theorem kept_object_cons {name : String} {j : Json} (h : 0 < room → Kept (room - 1) j) :
    Kept room (.object members) ↔ Kept room (.object ((name, j) :: members)) := by
  rw [kept_object, kept_object]
  refine and_congr_right fun hRoom => ?_
  rw [List.forall_mem_cons, and_iff_right (h hRoom)]

theorem agree_unused {name : String} (hName : name ∉ (r.fields members).map Field.name) (hReadable : j.readable = true)
    (hDepth : j.depth < room) : Agree (.record r) room (.object members) (.object ((name, j) :: members)) := by
  refine agree_of_kept_iff (kept_object_cons fun _ => ⟨hReadable, by omega⟩) fun levels => ?_
  refine RecordShape.decode_congr fun f hf levels => Field.read_of_once ?_
  have hNe : name ≠ f.name := fun hEq => hName (List.mem_map.mpr ⟨f, hf, hEq.symm⟩)
  exact (once_cons_of_ne j members hNe).symm

/-- A default can be read. It opens a level only in a node. -/
theorem readable_default (hf : f ∈ r.fields members) (hDefault : f.default = some j) :
    j.readable = true ∧ j.depth ≤ 1 ∧ (r ≠ .node → j.depth = 0) := by
  have hTag : ∀ tag : Tag, ∀ f ∈ tag.fields, ∀ j ∈ f.default, j.readable = true ∧ j.depth ≤ 1 := by
    intro tag
    cases tag <;> decide
  cases r with
  | node =>
    rw [RecordShape.fields, List.mem_cons, List.mem_cons] at hf
    rcases hf with rfl | rfl | hf
    · cases hDefault
    · cases hDefault
    · cases hTagOf : Field.read 0 ⟨"tag", .tag, none⟩ members with
      | none => simp [hTagOf] at hf
      | some tag =>
        rw [hTagOf] at hf
        obtain ⟨hReadable, hDepth⟩ := hTag tag f hf j hDefault
        exact ⟨hReadable, hDepth, fun hNode => absurd rfl hNode⟩
  | span | typedName | branch | case | scientific =>
    simp only [RecordShape.fields, Field.optional, List.mem_cons, List.not_mem_nil, or_false] at hf
    rcases hf with rfl | rfl <;> cases hDefault <;> exact ⟨rfl, Nat.zero_le 1, fun _ => rfl⟩

/-- A node needs room for its span. -/
theorem unread_node (hRoom : room ≤ 1) (members : Members) : Unread (.record .node) room (.object members) := by
  intro hKept levels
  obtain ⟨hPos, hMembers⟩ := kept_object.mp hKept
  refine RecordShape.decode_eq_none (RecordShape.span_mem_fields members) fun levels => ?_
  rw [Field.read_required]
  unfold Members.required
  split
  · rename_i j hOnce
    have hDepth : j.depth ≤ room - 1 := (hMembers _ (Tame.mem_of_once hOnce)).2
    show Span.ofJson? j = none
    rw [Span.ofJson?]
    cases hFields : fields? ["start", "end"] j with
    | none => rfl
    | some found =>
      have hDeep := (Tame.fields hFields).1
      omega
  · rfl

theorem agree_default (hField : f ∈ r.fields members) (hDefault : f.default = some j)
    (hAbsent : f.name ∉ members.map Prod.fst) :
    Agree (.record r) room (.object members) (.object ((f.name, j) :: members)) := by
  have hOnce := once_of_not_mem hAbsent
  obtain ⟨hReadable, hDepth, hFlat⟩ := readable_default hField hDefault
  by_cases hNode : r = .node ∧ room ≤ 1
  · obtain ⟨rfl, hRoom⟩ := hNode
    exact .inr ⟨unread_node hRoom _, unread_node hRoom _⟩
  · refine agree_of_kept_iff (kept_object_cons fun hRoom => ⟨hReadable, ?_⟩) fun levels => ?_
    · by_cases hr : r = .node
      · have : ¬ room ≤ 1 := fun hRoom => hNode ⟨hr, hRoom⟩
        omega
      · rw [hFlat hr]
        omega
    · refine RecordShape.decode_congr fun g hg levels => ?_
      by_cases hName : g.name = f.name
      · obtain rfl := RecordShape.eq_of_name hg hField hName
        unfold Field.read
        rw [hOnce, once_cons_self _ _ hOnce, hDefault]
        rfl
      · exact Field.read_of_once (once_cons_of_ne j members (Ne.symm hName)).symm

theorem fields?_zip {a b : String} (h : a ≠ b) {values : List Json} (hLength : values.length ≤ 2) :
    fields? [a, b] (.object ([a, b].zip values)) = fields? [a, b] (.array values) := by
  rcases values with _ | ⟨x, _ | ⟨y, _ | ⟨z, rest⟩⟩⟩
  · rfl
  · simp [fields?, Members.once, h]
  · simp [fields?, Members.once, h, h.symm]
  · simp at hLength

/-- An array is read as the object that it stands for. -/
theorem decode_zip (hr : r ≠ .node) {values : List Json} (hLength : values.length ≤ (r.fields []).length) (levels : Nat) :
    r.decode levels (.object (((r.fields []).map Field.name).zip values)) = r.decode levels (.array values) := by
  cases r with
  | node => exact absurd rfl hr
  | span =>
    show Span.ofJson? (.object (["start", "end"].zip values)) = Span.ofJson? (.array values)
    rw [Span.ofJson?, Span.ofJson?, fields?_zip (by decide) hLength]
  | typedName =>
    show TypedName.ofJson? (.object (["name", "ty"].zip values)) = TypedName.ofJson? (.array values)
    rw [TypedName.ofJson?, TypedName.ofJson?, fields?_zip (by decide) hLength]
  | branch =>
    show Arm.ofJson? "cond" _ (.object (["cond", "block"].zip values)) = Arm.ofJson? "cond" _ (.array values)
    rw [Arm.ofJson?, Arm.ofJson?, fields?_zip (by decide) hLength]
  | case =>
    show Arm.ofJson? "value" _ (.object (["value", "block"].zip values)) = Arm.ofJson? "value" _ (.array values)
    rw [Arm.ofJson?, Arm.ofJson?, fields?_zip (by decide) hLength]
  | scientific =>
    show NumberForm.ofJson? (.object [("scientific", .object (["mantissa", "exponent"].zip values))]) =
      NumberForm.ofJson? (.object [("scientific", .array values)])
    rw [NumberForm.ofJson?, NumberForm.ofJson?, fields?_zip (by decide) hLength]

theorem agree_positional (hr : r ≠ .node) {values : List Json} (hLength : values.length ≤ (r.fields []).length) :
    Agree (.record r) room (.object (((r.fields []).map Field.name).zip values)) (.array values) := by
  refine agree_of_kept_iff ?_ (decode_zip hr hLength)
  have hValues : (((r.fields []).map Field.name).zip values).map Prod.snd = values :=
    List.map_snd_zip (by rwa [List.length_map])
  rw [kept_object, kept_array]
  refine and_congr_right fun _ => ?_
  conv_rhs => rw [← hValues]
  exact List.forall_mem_map.symm

theorem agree_member {before after : Members} (hField : f ∈ r.fields (before ++ (f.name, j) :: after))
    (hTag : f.shape ≠ .tag) (h : Agree f.shape (room - 1) j j') :
    Agree (.record r) room (.object (before ++ (f.name, j) :: after)) (.object (before ++ (f.name, j') :: after)) := by
  have hOther : ∀ {other}, f.name ≠ other →
      Members.once (before ++ (f.name, j) :: after) other = Members.once (before ++ (f.name, j') :: after) other :=
    fun hNe => once_split_of_ne before after hNe j j'
  have hFields : r.fields (before ++ (f.name, j) :: after) = r.fields (before ++ (f.name, j') :: after) :=
    RecordShape.fields_congr (hOther fun hName => hTag (RecordShape.shape_of_name_tag hField hName))
  -- A field that is not read keeps the record from being read.
  have hUnread : ∀ i, f ∈ r.fields (before ++ (f.name, i) :: after) → Unread f.shape (room - 1) i →
      Unread (.record r) room (.object (before ++ (f.name, i) :: after)) := by
    intro i hMem hi hKept levels
    have hValue := hi ((kept_object.mp hKept).2 (f.name, i) (by simp))
    refine RecordShape.decode_eq_none hMem fun levels => ?_
    unfold Field.read
    rcases once_split before after f.name with hOnce | hRepeated
    · rw [hOnce]
      exact hValue levels
    · rw [hRepeated]
  rcases h with ⟨hKept, hKept', hDecode⟩ | ⟨hNone, hNone'⟩
  · refine agree_of_kept_iff ?_ fun levels => RecordShape.decode_congr fun g hg levels => ?_
    · simp only [kept_object, List.forall_mem_append, List.forall_mem_cons, hKept, hKept']
    · by_cases hName : g.name = f.name
      · obtain rfl := RecordShape.eq_of_name hg hField hName
        unfold Field.read
        rcases once_split before after g.name with hOnce | hRepeated
        · rw [hOnce, hOnce]
          exact hDecode levels
        · rw [hRepeated, hRepeated]
      · exact Field.read_of_once (hOther (Ne.symm hName))
  · exact .inr ⟨hUnread j hField hNone, hUnread j' (hFields ▸ hField) hNone'⟩

theorem mapM_eq_none {α β : Type} {decode : α → Option β} {as : List α} {a : α} (ha : a ∈ as) (h : decode a = none) :
    as.mapM decode = none := by
  induction as with
  | nil => simp at ha
  | cons b as ih =>
    rw [List.mapM_cons]
    rcases List.mem_cons.mp ha with rfl | ha
    · rw [h]
      rfl
    · rw [ih ha]
      cases decode b <;> rfl

theorem agree_item {before after : List Json} (h : Agree s (room - 1) j j') :
    Agree (.list s) room (.array (before ++ j :: after)) (.array (before ++ j' :: after)) := by
  have hUnread : ∀ i, Unread s (room - 1) i → Unread (.list s) room (.array (before ++ i :: after)) := by
    intro i hi hKept levels
    have hMem : i ∈ before ++ i :: after := by simp
    exact mapM_eq_none hMem (hi ((kept_array.mp hKept).2 i hMem) levels)
  rcases h with ⟨hKept, hKept', hDecode⟩ | ⟨hNone, hNone'⟩
  · refine agree_of_kept_iff ?_ fun levels => ?_
    · simp only [kept_array, List.forall_mem_append, List.forall_mem_cons, hKept, hKept']
    · show (before ++ j :: after).mapM (s.decode levels) = (before ++ j' :: after).mapM (s.decode levels)
      rw [List.mapM_append, List.mapM_append, List.mapM_cons, List.mapM_cons, hDecode]
  · exact .inr ⟨hUnread j hNone, hUnread j' hNone'⟩

theorem agree_present (hj : j ≠ .null) (hj' : j' ≠ .null) (h : Agree s room j j') : Agree (.nullable s) room j j' := by
  have hNullable : ∀ levels, ∀ i : Json, i ≠ .null →
      (Shape.nullable s).decode levels i = (s.decode levels i).map some := by
    intro levels i hi
    cases i with
    | null => exact absurd rfl hi
    | _ => rfl
  rcases h with ⟨hKept, hKept', hDecode⟩ | ⟨hNone, hNone'⟩
  · exact .inl ⟨hKept, hKept', fun levels => by rw [hNullable _ _ hj, hNullable _ _ hj', hDecode]⟩
  · refine .inr ⟨fun hKept levels => ?_, fun hKept levels => ?_⟩
    · rw [hNullable _ _ hj, hNone hKept]
      rfl
    · rw [hNullable _ _ hj', hNone' hKept]
      rfl

theorem agree_scientific {before after : Members} (h : Agree (.record .scientific) (room - 1) j j') :
    Agree .form room (.object (before ++ ("scientific", j) :: after))
      (.object (before ++ ("scientific", j') :: after)) := by
  by_cases hAlone : before = [] ∧ after = []
  · obtain ⟨rfl, rfl⟩ := hAlone
    have hUnread : ∀ i, Unread (.record .scientific) (room - 1) i → Unread .form room (.object [("scientific", i)]) :=
      fun i hi hKept levels => hi ((kept_object.mp hKept).2 ("scientific", i) (by simp)) levels
    rcases h with ⟨hKept, hKept', hDecode⟩ | ⟨hNone, hNone'⟩
    · refine agree_of_kept_iff ?_ hDecode
      simp only [kept_object, List.nil_append, List.forall_mem_cons, hKept, hKept']
    · exact .inr ⟨hUnread j hNone, hUnread j' hNone'⟩
  · have hUnread : ∀ i, Unread .form room (.object (before ++ ("scientific", i) :: after)) := by
      intro i _ levels
      refine NumberForm.ofJson?_of_length_ne _ fun hLength => hAlone ?_
      rw [List.length_append, List.length_cons] at hLength
      exact ⟨List.length_eq_zero_iff.mp (by omega), List.length_eq_zero_iff.mp (by omega)⟩
    exact .inr ⟨hUnread j, hUnread j'⟩

end Agree

namespace Respelled

variable {s : Shape} {room : Nat} {j j' : Json}

/-- Only arrays and objects are ever changed. -/
theorem ne_null (h : Respelled s room j j') : j ≠ .null ∧ j' ≠ .null := by
  induction h with
  | present _ ih => exact ih
  | order | unused | default | positional | member | item | scientific => exact ⟨nofun, nofun⟩

theorem shape_ne_tag (h : Respelled s room j j') : s ≠ .tag := by
  cases h <;> exact nofun

/-- A change makes no difference to what is read. -/
theorem agree (h : Respelled s room j j') : Agree s room j j' := by
  induction h with
  | order h => exact agree_order h
  | unused hName hReadable hDepth => exact agree_unused hName hReadable hDepth
  | default hField hDefault hAbsent => exact agree_default hField hDefault hAbsent
  | positional hr hLength => exact agree_positional hr hLength
  | member hField h ih => exact agree_member hField h.shape_ne_tag ih
  | item _ ih => exact agree_item ih
  | present h ih => exact agree_present h.ne_null.1 h.ne_null.2 ih
  | scientific _ ih => exact agree_scientific ih

end Respelled

-- ---------------------------------------------------------------------------
-- The root
-- ---------------------------------------------------------------------------

section Root

variable {room : Nat} {j j' : Json}

/-- Members that are changed, but not in their names and not under this one. -/
theorem once_map {g : String × Json → String × Json} (hg : ∀ m, (g m).1 = m.1) {name : String}
    (hName : ∀ m, m.1 = name → g m = m) (members : Members) : Members.once (members.map g) name = members.once name := by
  have hSame : (members.map g).filter (fun m => m.1 == name) = members.filter (fun m => m.1 == name) := by
    rw [List.filter_map]
    simp only [Function.comp_def, hg]
    rw [List.map_congr_left (g := id), List.map_id]
    intro m hm
    exact hName m (eq_of_beq (List.mem_filter.mp hm).2)
  rw [once_eq_only, once_eq_only, hSame]

/-- What is not looked into in the span of the root. -/
def blotSpanMember (m : String × Json) : String × Json :=
  if m.1 = "start" || m.1 = "end" then m else (m.1, .null)

/-- What is not looked into at the root. -/
def blotMember (m : String × Json) : String × Json :=
  if m.1 = "span" then (m.1, Node.blotSpan m.2) else m

theorem fst_blotMember (m : String × Json) : (blotMember m).1 = m.1 := by
  unfold blotMember
  split <;> rfl

theorem blotMember_of_ne {m : String × Json} (h : m.1 ≠ "span") : blotMember m = m :=
  if_neg h

theorem blotSpan_object (members : Members) : Node.blotSpan (.object members) = .object (members.map blotSpanMember) := rfl

theorem blotRoot_object (members : Members) : Node.blotRoot (.object members) = .object (members.map blotMember) := rfl

theorem Respelled.blotSpan (h : Respelled (.record .span) room j j') :
    Respelled (.record .span) room (Node.blotSpan j) (Node.blotSpan j') := by
  cases h with
  | order h =>
    rw [blotSpan_object, blotSpan_object]
    exact .order (h.map _)
  | @unused _ _ members name j hName hReadable hDepth =>
    have hBlot : blotSpanMember (name, j) = (name, .null) := by
      simp only [RecordShape.fields, List.map_cons, List.map_nil, List.mem_cons, List.not_mem_nil, or_false,
        not_or] at hName
      simp [blotSpanMember, hName]
    rw [blotSpan_object, blotSpan_object, List.map_cons, hBlot]
    exact .unused hName rfl (Nat.zero_lt_of_lt hDepth)
  | default hField hDefault hAbsent =>
    simp only [RecordShape.fields, List.mem_cons, List.not_mem_nil, or_false] at hField
    rcases hField with rfl | rfl <;> cases hDefault
  | @positional _ _ values hr hLength =>
    have hBlot : (["start", "end"].zip values).map blotSpanMember = ["start", "end"].zip values := by
      refine (List.map_congr_left fun m hm => ?_).trans (List.map_id _)
      have hName := (List.of_mem_zip hm).1
      simp only [List.mem_cons, List.not_mem_nil, or_false] at hName
      simp [blotSpanMember, hName]
    have hObject := @positional .span room values hr hLength
    rw [blotSpan_object]
    show Respelled _ _ (.object ((["start", "end"].zip values).map blotSpanMember)) (.array values)
    rw [hBlot]
    exact hObject
  | member hField h =>
    simp only [RecordShape.fields, List.mem_cons, List.not_mem_nil, or_false] at hField
    rcases hField with rfl | rfl <;> cases h

theorem fields_blot (members : Members) :
    RecordShape.node.fields (members.map blotMember) = RecordShape.node.fields members :=
  RecordShape.fields_congr (once_map fst_blotMember (fun m hm => blotMember_of_ne (by rw [hm]; decide)) members)

theorem Respelled.blotRoot (h : Respelled (.record .node) room j j') :
    Respelled (.record .node) room (Node.blotRoot j) (Node.blotRoot j') := by
  cases h with
  | order h =>
    rw [blotRoot_object, blotRoot_object]
    exact .order (h.map _)
  | @unused _ _ members name j hName hReadable hDepth =>
    have hNe : name ≠ "span" := fun hEq => hName (List.mem_map.mpr ⟨_, RecordShape.span_mem_fields members, hEq.symm⟩)
    rw [blotRoot_object, blotRoot_object, List.map_cons, blotMember_of_ne hNe]
    exact .unused (by rwa [fields_blot]) hReadable hDepth
  | @default _ _ members f j hField hDefault hAbsent =>
    have hNe : f.name ≠ "span" := by
      intro hEq
      obtain rfl := RecordShape.eq_of_name hField (RecordShape.span_mem_fields members) hEq
      cases hDefault
    rw [blotRoot_object, blotRoot_object, List.map_cons, blotMember_of_ne (m := (f.name, j)) hNe]
    refine .default (by rwa [fields_blot]) hDefault ?_
    rw [List.map_map]
    simpa only [Function.comp_def, fst_blotMember] using hAbsent
  | positional hr => exact absurd rfl hr
  | @member _ _ before after f j j' hField h =>
    rw [blotRoot_object, blotRoot_object, List.map_append, List.map_append, List.map_cons, List.map_cons]
    rw [← fields_blot, List.map_append, List.map_cons] at hField
    by_cases hName : f.name = "span"
    · obtain rfl := RecordShape.eq_of_name hField (RecordShape.span_mem_fields _) hName
      exact .member hField h.blotSpan
    · rw [blotMember_of_ne (m := (f.name, j)) hName] at hField ⊢
      rw [blotMember_of_ne (m := (f.name, j')) hName]
      exact .member hField h

end Root

-- ---------------------------------------------------------------------------
-- Texts
-- ---------------------------------------------------------------------------

theorem Agree.ofLimitedJson? {j j' : Json} (h : Agree (.record .node) maxDepth j j') :
    Node.ofLimitedJson? j = Node.ofLimitedJson? j' := by
  have hKept : ∀ {j}, Kept maxDepth j → Node.ofLimitedJson? j = Node.ofJson? maxDepth j := fun hj =>
    if_pos (by simp [hj.1, hj.2])
  have hUnread : ∀ {j}, Unread (.record .node) maxDepth j → Node.ofLimitedJson? j = none := by
    intro j hj
    by_cases hLimits : Kept maxDepth j
    · rw [hKept hLimits]
      exact hj hLimits maxDepth
    · refine if_neg fun hReadable => hLimits ?_
      rwa [Bool.and_eq_true, decide_eq_true_eq] at hReadable
  rcases h with ⟨hj, hj', hDecode⟩ | ⟨hj, hj'⟩
  · rw [hKept hj, hKept hj']
    exact hDecode maxDepth
  · rw [hUnread hj, hUnread hj']

/-- One change to the text of a tree: other blanks between its lexemes, or a change to its value. -/
inductive Rewritten : String → String → Prop where
  | blanks {text text' : String} {ls : List (List Char)} (h : JsonToken.Lexemes text.toList ls)
      (h' : JsonToken.Lexemes text'.toList ls) : Rewritten text text'
  | value {text text' : String} {j j' : Json} (h : Json.parse? text = some j) (h' : Json.parse? text' = some j')
      (hChange : Respelled (.record .node) maxDepth j j') : Rewritten text text'

theorem Rewritten.parse? {text text' : String} (h : Rewritten text text') : Node.parse? text = Node.parse? text' := by
  cases h with
  | blanks h h' =>
    have hTokens : JsonToken.scan text = JsonToken.scan text' := by
      rw [JsonToken.scan_of_lexemes h, JsonToken.scan_of_lexemes h']
    rw [Node.parse?, Node.parse?, Json.parse?, Json.parse?, hTokens]
  | value h h' hChange =>
    rw [Node.parse?, Node.parse?, h, h', Option.bind_some, Option.bind_some]
    exact hChange.blotRoot.agree.ofLimitedJson?

/-- **Spellings.** Texts that come from each other by any number of changes are read as the same tree, or none of them is
read. -/
theorem respelled_texts_read_alike {text text' : String} (h : Relation.EqvGen Rewritten text text') :
    Node.parse? text = Node.parse? text' := by
  induction h with
  | rel _ _ h => exact h.parse?
  | refl => rfl
  | symm _ _ _ ih => exact ih.symm
  | trans _ _ _ _ _ ih ih' => exact ih.trans ih'

/-- A block with the given statement. -/
def blockOf (statement : Json) : Json :=
  .object [("tag", .string "Block"), ("statements", .array [statement]), ("span", .array [.ofNat 0, .ofNat 12])]

theorem parse?_blockOf {j : Json} (hj : Plain j) : Json.parse? (blockOf j).render = some (blockOf j) :=
  Json.parse?_render (.object (by simp [hj, Plain.string, Plain.array, Plain.nat, UInt64.size]))

/-- A change to the statement is a change to the text of the block. -/
theorem rewritten_blockOf {j j' : Json} (hj : Plain j) (hj' : Plain j')
    (h : Respelled (.record .node) (maxDepth - 2) j j') : Rewritten (blockOf j).render (blockOf j').render := by
  have hStatements : Field.several "statements" (.record .node) ∈ RecordShape.node.fields
      ([("tag", Json.string "Block")] ++ ("statements", Json.array [j]) :: [("span", Json.array [.ofNat 0, .ofNat 12])]) :=
    List.mem_cons_of_mem _ (List.mem_cons_of_mem _ (List.mem_cons_self ..))
  refine .value (parse?_blockOf hj) (parse?_blockOf hj') ?_
  exact .member hStatements (@Respelled.item _ _ [] [] j j' h)

/-- A return with its members in another order, no values, a span that is an array, a note, and blanks. -/
theorem respelled_texts_read_alike_return :
    let text := "\x7b\"tag\":\"Block\",\"statements\":[\x7b\"values\":[],\"tag\":\"Return\",\"span\":" ++
      "\x7b\"start\":4,\"end\":10\x7d\x7d],\"span\":[0,12]\x7d"
    let text' := "\x7b \"tag\" : \"Block\" , \"statements\" : [ \x7b \"span\" : [ 4 , 10 ] , \"note\" : null , " ++
      "\"tag\" : \"Return\" \x7d ] , \"span\" : [ 0 , 12 ] \x7d "
    Relation.EqvGen Rewritten text text' ∧ Node.parse? text = Node.parse? text' ∧
      Node.parse? text = some (.block [.ret [] ⟨4, 10⟩] ⟨0, 12⟩) := by
  intro text text'
  let tag : String × Json := ("tag", .string "Return")
  let bounds : String × Json := ("span", .object [("start", .ofNat 4), ("end", .ofNat 10)])
  let pair : String × Json := ("span", .array [.ofNat 4, .ofNat 10])
  let note : String × Json := ("note", .null)
  have hPlain : Plain tag.2 ∧ Plain bounds.2 ∧ Plain pair.2 ∧ Plain note.2 := by
    simp [tag, bounds, pair, note, Plain.null, Plain.string, Plain.array, Plain.object, Plain.nat, UInt64.size]
  have hDefault : Rewritten (blockOf (.object [tag, bounds])).render
      (blockOf (.object [("values", .array []), tag, bounds])).render := by
    refine rewritten_blockOf (.object (by simp [hPlain])) (.object (by simp [hPlain, Plain.array])) ?_
    refine @Respelled.default _ _ _ (.several "values" (.record .node)) _ ?_ rfl (by simp [tag, bounds, Field.several])
    exact List.mem_cons_of_mem _ (List.mem_cons_of_mem _ (List.mem_cons_self ..))
  have hPair : Rewritten (blockOf (.object [tag, bounds])).render (blockOf (.object [tag, pair])).render := by
    refine rewritten_blockOf (.object (by simp [hPlain])) (.object (by simp [hPlain])) ?_
    refine @Respelled.member _ _ [tag] [] ⟨"span", .record .span, none⟩ _ _ (RecordShape.span_mem_fields _) ?_
    exact @Respelled.positional .span _ [.ofNat 4, .ofNat 10] (by decide) (Nat.le_refl 2)
  have hNote : Rewritten (blockOf (.object [tag, pair])).render (blockOf (.object [note, tag, pair])).render := by
    refine rewritten_blockOf (.object (by simp [hPlain])) (.object (by simp [hPlain])) ?_
    exact .unused (by decide) rfl (by decide)
  have hOrder : Rewritten (blockOf (.object [note, tag, pair])).render (blockOf (.object [pair, note, tag])).render := by
    refine rewritten_blockOf (.object (by simp [hPlain])) (.object (by simp [hPlain])) (.order ?_)
    exact (List.perm_append_comm : ([note, tag] ++ [pair]).Perm _)
  have hBlanks : Rewritten (blockOf (.object [pair, note, tag])).render text' := by
    let ls := ["\x7b", "\"tag\"", ":", "\"Block\"", ",", "\"statements\"", ":", "[", "\x7b", "\"span\"", ":", "[", "4",
      ",", "10", "]", ",", "\"note\"", ":", "null", ",", "\"tag\"", ":", "\"Return\"", "\x7d", "]", ",", "\"span\"", ":",
      "[", "0", ",", "12", "]", "\x7d"].map String.toList
    have hLexemes : ∀ l ∈ ls, JsonToken.Lexeme l := by decide +kernel
    have hCompact : (blockOf (.object [pair, note, tag])).render.toList = ls.flatten := by decide +kernel
    have hSpaced : text'.toList = ls.flatMap (· ++ [' ']) := by decide +kernel
    refine @Rewritten.blanks _ _ ls ?_ ?_
    · rw [hCompact]
      exact JsonToken.lexemes_flatten hLexemes (by decide +kernel)
    · rw [hSpaced]
      exact JsonToken.lexemes_spaced hLexemes
  have hText : text = (blockOf (.object [("values", .array []), tag, bounds])).render := by decide +kernel
  have hChain : Relation.EqvGen Rewritten text text' := by
    rw [hText]
    exact .trans _ _ _ (.symm _ _ (.rel _ _ hDefault)) (.trans _ _ _ (.rel _ _ hPair) (.trans _ _ _ (.rel _ _ hNote)
      (.trans _ _ _ (.rel _ _ hOrder) (.rel _ _ hBlanks))))
  have hRead : Node.parse? text = some (.block [.ret [] ⟨4, 10⟩] ⟨0, 12⟩) := by
    rw [hText, Node.parse?, parse?_blockOf (.object (by simp [hPlain, Plain.array]))]
    rfl
  exact ⟨hChain, respelled_texts_read_alike hChain, hRead⟩

end Lowering
