import Lowering.Proofs.Draft.Addition

/-!
# Headers and support code

Headers and support code are asked for many times and given once. What a draft has of them after additions is therefore
the list of requests without its repetitions, and the text of the three sections at the top of the file can be told from
that: a line for each header, and each piece of support code once.

Support code asks for headers and other support code on its own behalf, but only when it is given. That makes no
difference, because what it asks for is still there when it is asked for again.

* `Draft.Stocked` — the draft has what was asked for, and the sections at the top of the file show it.
* `Draft.Stocked.putAll` — this stays so with every addition.
* `eraseDups_append_filter` — requests after other requests.
-/

namespace Lowering

-- ---------------------------------------------------------------------------
-- Lists without repetitions
-- ---------------------------------------------------------------------------

theorem eraseDups_filter {α : Type} [DecidableEq α] (p : α → Bool) (l : List α) :
    (l.filter p).eraseDups = l.eraseDups.filter p := by
  induction hLength : l.length using Nat.strongRecOn generalizing l with
  | ind n ih =>
    cases l with
    | nil => rfl
    | cons a l =>
      have hShorter : (l.filter (fun b => !b == a)).length < n := by
        have hLe := List.length_filter_le (fun b => !b == a) l
        rw [List.length_cons] at hLength
        omega
      rw [List.eraseDups_cons, List.filter_cons, List.filter_cons]
      cases hp : p a with
      | true =>
        rw [if_pos rfl, if_pos rfl, List.eraseDups_cons, ← ih _ hShorter _ rfl, List.filter_filter, List.filter_filter]
        simp only [Bool.and_comm]
      | false =>
        rw [if_neg (by simp), if_neg (by simp), ← ih _ hShorter _ rfl, List.filter_filter]
        congr 1
        refine List.filter_congr fun b _ => ?_
        by_cases hEq : b = a
        · simp [hEq, hp]
        · simp [hEq]

theorem nodup_eraseDups {α : Type} [DecidableEq α] (l : List α) : l.eraseDups.Nodup := by
  induction l with
  | nil => exact List.nodup_nil
  | cons a l ih =>
    rw [List.eraseDups_cons, List.nodup_cons, eraseDups_filter]
    exact ⟨by simp, ih.filter _⟩

theorem eraseDups_eraseDups {α : Type} [DecidableEq α] (l : List α) : l.eraseDups.eraseDups = l.eraseDups := by
  induction l with
  | nil => rfl
  | cons a l ih => simp only [List.eraseDups_cons, eraseDups_filter, List.filter_filter, ih, Bool.and_self]

/-- Of two rows without repetitions, the second keeps what is not in the first. -/
theorem eraseDups_append_filter {α : Type} [DecidableEq α] (as bs : List α) :
    (as ++ bs).eraseDups = as.eraseDups ++ bs.eraseDups.filter (fun b => b ∉ as.eraseDups) := by
  rw [List.eraseDups_append, List.removeAll, eraseDups_filter]
  congr 1
  refine List.filter_congr fun b _ => ?_
  simp

theorem eraseDups_append_eraseDups {α : Type} [DecidableEq α] (as bs : List α) :
    (as ++ bs.eraseDups).eraseDups = (as ++ bs).eraseDups := by
  rw [eraseDups_append_filter, eraseDups_append_filter, eraseDups_eraseDups]

/-- What is there already is not added again. -/
theorem eraseDups_append_of_subset {α : Type} [DecidableEq α] {as bs : List α} (h : ∀ b ∈ bs, b ∈ as) :
    (as ++ bs).eraseDups = as.eraseDups := by
  have hNil : bs.eraseDups.filter (fun b => b ∉ as.eraseDups) = [] := by
    rw [List.filter_eq_nil_iff]
    intro b hb
    simpa using h b (List.mem_eraseDups.mp hb)
  rw [eraseDups_append_filter, hNil, List.append_nil]

theorem eraseDups_concat_of_notMem {α : Type} [DecidableEq α] {as : List α} {b : α} (h : b ∉ as) :
    (as ++ [b]).eraseDups = as.eraseDups ++ [b] := by
  rw [eraseDups_append_filter, List.eraseDups_cons]
  simp [h]

-- ---------------------------------------------------------------------------
-- Requests
-- ---------------------------------------------------------------------------

namespace Support

/-- The support code that is needed for a piece of support code, itself included, in the order in which it is given. -/
def closure : Support → List Support
  | .string => [.string]
  | .stringPrint => [.stringPrint, .string]

/-- The headers that are needed for a piece of support code. -/
def headers : Support → List String
  | .string => ["stdint.h"]
  | .stringPrint => ["stdint.h", "stdio.h"]

end Support

namespace Addition

/-- The headers that an addition asks for. -/
def headers : Addition → List String
  | .header name => [name]
  | .support s => s.headers
  | _ => []

/-- The support code that an addition asks for. -/
def supports : Addition → List Support
  | .support s => s.closure
  | _ => []

end Addition

namespace Draft

/-- After requests for the headers `hs` and the support code `ss`, the draft has what was asked for. The lines of the headers
and the string record are in the file. -/
structure Recorded (d : Draft) (hs : List String) (ss : List Support) : Prop where
  headers : d.headers = hs.eraseDups
  support : d.support = ss.eraseDups
  includes : d.sections.includes = String.join (d.headers.map includeLine)
  declarations : d.sections.supportDeclarations = if .string ∈ ss then stringRecord d.width else ""
  record : .string ∈ ss → "stdint.h" ∈ hs

/-- The printer of string records is in the file, too. -/
structure Stocked (d : Draft) (hs : List String) (ss : List Support) : Prop extends Recorded d hs ss where
  definitions : d.sections.supportDefinitions = if .stringPrint ∈ ss then stringPrinter d.width else ""
  printer : .stringPrint ∈ ss → .string ∈ ss ∧ "stdio.h" ∈ hs

theorem stocked_blank (width : Nat) : (Draft.blank width).Stocked [] [] :=
  ⟨⟨rfl, rfl, rfl, rfl, by simp⟩, rfl, by simp⟩

variable {d : Draft} {hs : List String} {ss : List Support}

-- What a header leaves alone.

theorem support_addHeader (header : String) : (d.addHeader header).support = d.support := by
  unfold addHeader
  split <;> rfl

theorem width_addHeader (header : String) : (d.addHeader header).width = d.width := by
  unfold addHeader
  split <;> rfl

theorem get_addHeader_of_ne {x : Section} (hx : x ≠ .includes) (header : String) :
    (d.addHeader header).sections.get x = d.sections.get x := by
  unfold addHeader
  split
  · rfl
  · exact d.sections.get_add_of_ne _ hx

/-- The lines of the headers, with one more. -/
theorem includes_addHeader (h : d.sections.includes = String.join (d.headers.map includeLine)) (header : String) :
    (d.addHeader header).sections.includes = String.join ((d.addHeader header).headers.map includeLine) := by
  unfold addHeader
  split
  · exact h
  · show d.sections.includes ++ includeLine header = String.join ((d.headers ++ [header]).map includeLine)
    rw [h, List.map_append, String.join_append]
    simp

theorem headers_addHeader (h : d.headers = hs.eraseDups) (header : String) :
    (d.addHeader header).headers = (hs ++ [header]).eraseDups := by
  unfold addHeader
  by_cases hMem : header ∈ hs
  · rw [if_pos (by simpa [h] using hMem), h, eraseDups_append_of_subset (by simpa using hMem)]
  · rw [if_neg (by simpa [h] using hMem), eraseDups_concat_of_notMem hMem, ← h]
    rfl

theorem width_addStringRecord : d.addStringRecord.width = d.width := by
  unfold addStringRecord
  split
  · rfl
  · exact width_addHeader _

theorem supportDefinitions_addStringRecord :
    d.addStringRecord.sections.supportDefinitions = d.sections.supportDefinitions := by
  unfold addStringRecord
  split
  · rfl
  · exact get_addHeader_of_ne (x := .supportDefinitions) (by simp) _

namespace Recorded

theorem addHeader (h : d.Recorded hs ss) (header : String) : (d.addHeader header).Recorded (hs ++ [header]) ss where
  headers := headers_addHeader h.headers header
  support := (support_addHeader header).trans h.support
  includes := includes_addHeader h.includes header
  declarations := by
    rw [width_addHeader]
    exact (get_addHeader_of_ne (x := .supportDeclarations) (by simp) header).trans h.declarations
  record hMem := List.mem_append_left _ (h.record hMem)

/-- Requests for what is there already change nothing. -/
theorem again (h : d.Recorded hs ss) {hs' : List String} {ss' : List Support} (hHeaders : ∀ x ∈ hs', x ∈ hs)
    (hSupport : ∀ s ∈ ss', s ∈ ss) : d.Recorded (hs ++ hs') (ss ++ ss') where
  headers := by rw [h.headers, eraseDups_append_of_subset hHeaders]
  support := by rw [h.support, eraseDups_append_of_subset hSupport]
  includes := h.includes
  declarations := by
    have hSame : Support.string ∈ ss ++ ss' ↔ Support.string ∈ ss := by
      rw [List.mem_append]
      exact ⟨fun hMem => hMem.elim id (hSupport _), Or.inl⟩
    simp only [h.declarations, hSame]
  record hMem := List.mem_append_left _ (h.record ((List.mem_append.mp hMem).elim id (hSupport _)))

theorem addStringRecord (h : d.Recorded hs ss) :
    d.addStringRecord.Recorded (hs ++ Support.string.headers) (ss ++ Support.string.closure) := by
  unfold Draft.addStringRecord
  by_cases hMem : Support.string ∈ ss
  · rw [if_pos (by simpa [h.support] using hMem)]
    exact h.again (by simpa [Support.headers] using h.record hMem) (by simpa [Support.closure] using hMem)
  · rw [if_neg (by simpa [h.support] using hMem)]
    have hEmpty : d.sections.supportDeclarations = "" := by rw [h.declarations, if_neg hMem]
    refine ⟨headers_addHeader (d := d.markSupport .string) h.headers _, ?_,
      includes_addHeader (d := d.markSupport .string) h.includes _, ?_, fun _ => by simp [Support.headers]⟩
    · rw [Support.closure, eraseDups_concat_of_notMem hMem, ← h.support]
      exact support_addHeader (d := d.markSupport .string) _
    · have hWidth : (((d.markSupport .string).addHeader "stdint.h").addTo .supportDeclarations
          (stringRecord d.width)).width = d.width := width_addHeader (d := d.markSupport .string) _
      rw [hWidth, if_pos (by simp [Support.closure])]
      show ((d.markSupport .string).addHeader "stdint.h").sections.get .supportDeclarations ++ stringRecord d.width = _
      rw [get_addHeader_of_ne (by simp)]
      show d.sections.supportDeclarations ++ _ = _
      rw [hEmpty, String.empty_append]

end Recorded

namespace Stocked

theorem addHeader (h : d.Stocked hs ss) (header : String) : (d.addHeader header).Stocked (hs ++ [header]) ss where
  toRecorded := h.toRecorded.addHeader header
  definitions := by
    rw [width_addHeader]
    exact (get_addHeader_of_ne (x := .supportDefinitions) (by simp) header).trans h.definitions
  printer hMem := ⟨(h.printer hMem).1, List.mem_append_left _ (h.printer hMem).2⟩

theorem addStringRecord (h : d.Stocked hs ss) :
    d.addStringRecord.Stocked (hs ++ Support.string.headers) (ss ++ Support.string.closure) where
  toRecorded := h.toRecorded.addStringRecord
  definitions := by
    rw [width_addStringRecord, supportDefinitions_addStringRecord, h.definitions]
    simp [Support.closure]
  printer hMem := by
    have hEarlier : Support.stringPrint ∈ ss := by simpa [Support.closure] using hMem
    exact ⟨List.mem_append_left _ (h.printer hEarlier).1, List.mem_append_left _ (h.printer hEarlier).2⟩

theorem addStringPrinter (h : d.Stocked hs ss) :
    d.addStringPrinter.Stocked (hs ++ Support.stringPrint.headers) (ss ++ Support.stringPrint.closure) := by
  unfold Draft.addStringPrinter
  by_cases hMem : Support.stringPrint ∈ ss
  · rw [if_pos (by simpa [h.support] using hMem)]
    obtain ⟨hString, hStdio⟩ := h.printer hMem
    have hStdint := h.record hString
    refine ⟨h.toRecorded.again ?_ ?_, ?_, fun _ => ?_⟩
    · simp [Support.headers, hStdint, hStdio]
    · simp [Support.closure, hMem, hString]
    · rw [h.definitions, if_pos hMem, if_pos (List.mem_append_left _ hMem)]
    · exact ⟨List.mem_append_left _ hString, List.mem_append_left _ hStdio⟩
  · rw [if_neg (by simpa [h.support] using hMem)]
    -- the printer is noted first, then what it needs is added, then its text
    have hMarked : (d.markSupport .stringPrint).Recorded hs (ss ++ [Support.stringPrint]) := by
      refine ⟨h.headers, ?_, h.includes, ?_, fun hString => h.record (by simpa using hString)⟩
      · rw [eraseDups_concat_of_notMem hMem, ← h.support]
        rfl
      · exact h.declarations.trans (by simp [markSupport, note])
    have hRecord := (hMarked.addStringRecord).addHeader "stdio.h"
    rw [List.append_assoc, List.append_assoc] at hRecord
    have hWidth : ((d.markSupport .stringPrint).addStringRecord.addHeader "stdio.h").width = d.width :=
      (width_addHeader _).trans width_addStringRecord
    have hEmpty : ((d.markSupport .stringPrint).addStringRecord.addHeader "stdio.h").sections.supportDefinitions = "" := by
      refine (get_addHeader_of_ne (x := .supportDefinitions) (by simp) _).trans
        (supportDefinitions_addStringRecord.trans ?_)
      exact h.definitions.trans (if_neg hMem)
    refine ⟨⟨hRecord.headers, hRecord.support, hRecord.includes, hRecord.declarations, hRecord.record⟩, ?_, ?_⟩
    · show ((d.markSupport .stringPrint).addStringRecord.addHeader "stdio.h").sections.supportDefinitions ++
        stringPrinter d.width = _
      rw [hEmpty, String.empty_append, if_pos (by simp [Support.closure])]
      exact congrArg stringPrinter hWidth.symm
    · intro _
      simp [Support.closure, Support.headers]

/-- Repeated requests make no difference. -/
theorem congr (h : d.Stocked hs ss) {hs' : List String} {ss' : List Support} (hHeaders : hs'.eraseDups = hs.eraseDups)
    (hSupport : ss'.eraseDups = ss.eraseDups) : d.Stocked hs' ss' := by
  have hHeader : ∀ x, x ∈ hs' ↔ x ∈ hs := fun x => by rw [← List.mem_eraseDups, hHeaders, List.mem_eraseDups]
  have hMember : ∀ s, s ∈ ss' ↔ s ∈ ss := fun s => by rw [← List.mem_eraseDups, hSupport, List.mem_eraseDups]
  refine ⟨⟨h.headers.trans hHeaders.symm, h.support.trans hSupport.symm, h.includes, ?_, ?_⟩, ?_, ?_⟩
  · simp only [hMember, h.declarations]
  · rw [hMember, hHeader]
    exact h.record
  · simp only [hMember, h.definitions]
  · rw [hMember, hMember, hHeader]
    exact h.printer

theorem put (h : d.Stocked hs ss) (a : Addition) : (d.put a).Stocked (hs ++ a.headers) (ss ++ a.supports) := by
  cases a with
  | header name =>
    simp only [Addition.headers, Addition.supports, List.append_nil]
    exact h.addHeader name
  | support s =>
    cases s with
    | string => exact h.addStringRecord
    | stringPrint => exact h.addStringPrinter
  | text | symbol | forward | helper | function | returned =>
    simp only [Addition.headers, Addition.supports, List.append_nil]
    exact ⟨⟨h.headers, h.support, h.includes, h.declarations, h.record⟩, h.definitions, h.printer⟩

theorem putAll (h : d.Stocked hs ss) (as : List Addition) :
    (d.putAll as).Stocked (hs ++ as.flatMap Addition.headers) (ss ++ as.flatMap Addition.supports) := by
  induction as generalizing d hs ss with
  | nil => simpa using h
  | cons a as ih =>
    have hAll := ih (h.put a)
    rwa [List.append_assoc, List.append_assoc, ← List.flatMap_cons, ← List.flatMap_cons] at hAll

end Stocked

end Draft

end Lowering
