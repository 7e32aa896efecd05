import Mathlib.Tactic.Common
import Lowering.Json.Reader
import Lowering.Json.Writer
import Lowering.Proofs.Decimal

/-!
# Written JSON is read back

A value of strings, truth values, nulls and 64-bit numbers is read back from its own text, whatever it holds.

The scanner keeps the last token open until it sees what follows: the digits of a number may go on. `Emits` counts such a
token as found already, so that a text can be followed piece by piece. The reader is followed at the same time: from the
tokens of a value it delivers the value to what is open around it.

* `parse?_render` — reading what was written.
-/

namespace Lowering

namespace JsonToken

-- ---------------------------------------------------------------------------
-- Pieces of text
-- ---------------------------------------------------------------------------

/-- The state after some characters, and the tokens found in them. -/
def run : Scan → List Char → Option (Scan × List JsonToken)
  | s, [] => some (s, [])
  | s, c :: cs => (step s c).bind (fun r => (run r.1 cs).map (fun r' => (r'.1, r.2 ++ r'.2)))

theorem run_append {s s' s'' : Scan} {cs cs' : List Char} {ts ts' : List JsonToken} (h : run s cs = some (s', ts))
    (h' : run s' cs' = some (s'', ts')) : run s (cs ++ cs') = some (s'', ts ++ ts') := by
  induction cs generalizing s ts with
  | nil =>
    simp only [run, Option.some.injEq, Prod.mk.injEq] at h
    obtain ⟨rfl, rfl⟩ := h
    exact h'
  | cons c cs ih =>
    obtain ⟨⟨s₁, ts₁⟩, hStep, hRest⟩ := Option.bind_eq_some_iff.mp h
    obtain ⟨⟨s₂, ts₂⟩, hRun, hEq⟩ := Option.map_eq_some_iff.mp hRest
    obtain ⟨rfl, rfl⟩ := Prod.mk.injEq .. ▸ hEq
    rw [List.cons_append, run, hStep, Option.bind_some, ih hRun]
    simp

theorem foldl_push (s : Scan) (found : List JsonToken) (cs : List Char) :
    cs.foldl (fun p c => p.bind (push · c)) (some (s, found)) =
      (run s cs).map (fun r => (r.1, r.2.reverse ++ found)) := by
  induction cs generalizing s found with
  | nil => rfl
  | cons c cs ih =>
    rw [List.foldl_cons, Option.bind_some, push, run]
    cases step s c with
    | none =>
      have hNone : ∀ cs : List Char, cs.foldl (fun p c => p.bind (push · c)) none = none := by
        intro cs
        induction cs with
        | nil => rfl
        | cons c cs ih => exact ih
      exact hNone cs
    | some r =>
      rw [Option.map_some, ih, Option.bind_some, Option.map_map]
      congr 1
      funext r'
      simp

theorem scan_ofList (cs : List Char) :
    scan (String.ofList cs) = (run .idle cs).bind (fun r => (finish r.1).map (r.2 ++ ·)) := by
  rw [scan, String.foldl_eq_foldl_toList, String.toList_ofList, foldl_push]
  cases run .idle cs with
  | none => rfl
  | some r => simp

/-- Here a token may end: these tokens are still open, and punctuation closes them. -/
def Settled (s : Scan) (last : List JsonToken) : Prop :=
  finish s = some last ∧ ∀ c t, ofChar? c = some t → step s c = some (.idle, last ++ [t])

theorem Settled.unique {s : Scan} {last last' : List JsonToken} (h : Settled s last) (h' : Settled s last') :
    last = last' :=
  Option.some.inj (h.1.symm.trans h'.1)

theorem settled_idle : Settled .idle [] := by
  refine ⟨rfl, fun c t h => ?_⟩
  simp [step, start, h]

/-- From a state to a state at which tokens may end, the characters hold these tokens. Open tokens count as found. -/
def Emits (s : Scan) (cs : List Char) (s' : Scan) (ts : List JsonToken) : Prop :=
  ∃ before found after, Settled s before ∧ run s cs = some (s', found) ∧ Settled s' after ∧ before ++ ts = found ++ after

theorem Emits.append {s s' s'' : Scan} {cs cs' : List Char} {ts ts' : List JsonToken} (h : Emits s cs s' ts)
    (h' : Emits s' cs' s'' ts') : Emits s (cs ++ cs') s'' (ts ++ ts') := by
  obtain ⟨before, found, middle, hStart, hRun, hMiddle, hTokens⟩ := h
  obtain ⟨middle', found', after, hMiddle', hRun', hEnd, hTokens'⟩ := h'
  obtain rfl := hMiddle.unique hMiddle'
  refine ⟨before, found ++ found', after, hStart, run_append hRun hRun', hEnd, ?_⟩
  calc before ++ (ts ++ ts') = (before ++ ts) ++ ts' := (List.append_assoc ..).symm
    _ = found ++ (middle ++ ts') := by rw [hTokens, List.append_assoc]
    _ = found ++ found' ++ after := by rw [hTokens', List.append_assoc]

theorem emits_nil {s : Scan} {last : List JsonToken} (h : Settled s last) : Emits s [] s [] :=
  ⟨last, [], last, h, rfl, h, by simp⟩

theorem Emits.settled {s s' : Scan} {cs : List Char} {ts : List JsonToken} (h : Emits s cs s' ts) :
    ∃ last, Settled s' last := by
  obtain ⟨_, _, after, _, _, hEnd, _⟩ := h
  exact ⟨after, hEnd⟩

/-- Punctuation closes what is open. -/
theorem emits_punctuation {s : Scan} {last : List JsonToken} (h : Settled s last) {c : Char} {t : JsonToken}
    (hc : ofChar? c = some t) : Emits s [c] .idle [t] := by
  refine ⟨last, last ++ [t], [], h, ?_, settled_idle, by simp⟩
  simp [run, h.2 c t hc]

/-- A single token that starts between tokens. -/
theorem emits_of_run {cs : List Char} {s : Scan} {found last : List JsonToken} (h : run .idle cs = some (s, found))
    (hEnd : Settled s last) : Emits .idle cs s (found ++ last) :=
  ⟨[], found, last, settled_idle, h, hEnd, by simp⟩

theorem scan_of_emits {cs : List Char} {s : Scan} {ts : List JsonToken} (h : Emits .idle cs s ts) :
    scan (String.ofList cs) = some ts := by
  obtain ⟨before, found, after, hStart, hRun, hEnd, hTokens⟩ := h
  obtain rfl := hStart.unique settled_idle
  rw [scan_ofList, hRun, Option.bind_some, hEnd.1, Option.map_some, ← hTokens, List.nil_append]

-- ---------------------------------------------------------------------------
-- Strings
-- ---------------------------------------------------------------------------

theorem hexDigit?_hexChar {n : Nat} (h : n < 16) : hexDigit? (Json.hexChar n) = some n := by
  have hAll : ∀ n < 16, hexDigit? (Json.hexChar n) = some n := by decide
  exact hAll n h

theorem joinPieces_unit {u : Nat} (h : u < 0x20) (rest : List Piece) :
    joinPieces (.unit u :: rest) = (joinPieces rest).map (Char.ofNat u :: ·) := by
  have hHigh : isHighSurrogate u = false := by simp [isHighSurrogate]; omega
  have hLow : isLowSurrogate u = false := by simp [isLowSurrogate]; omega
  rcases rest with _ | ⟨_ | v, rest⟩ <;> simp [joinPieces, hHigh, hLow]

/-- A control character that is escaped by its number is read as that number. -/
theorem run_unit (pieces : List Piece) {u : Nat} (h : u < 0x20) :
    run (.string pieces) ['\\', 'u', '0', '0', Json.hexChar (u / 16), Json.hexChar (u % 16)] =
      some (.string (.unit u :: pieces), []) := by
  have hOpen : run (.string pieces) ['\\', 'u', '0', '0'] = some (.hex pieces 1 0, []) := rfl
  have hFirst := hexDigit?_hexChar (show u / 16 < 16 by omega)
  have hSecond := hexDigit?_hexChar (show u % 16 < 16 by omega)
  have hCode : 16 * (u / 16) + u % 16 = u := Nat.div_add_mod ..
  refine run_append hOpen ?_
  simp [run, step, hFirst, hSecond, hCode]

/-- A character of a string is read as one piece, which stands for the character. -/
theorem run_escapeChar (pieces : List Piece) (c : Char) :
    ∃ piece, run (.string pieces) (Json.escapeChar c) = some (.string (piece :: pieces), []) ∧
      ∀ rest, joinPieces (piece :: rest) = (joinPieces rest).map (c :: ·) := by
  -- The seven characters with an escape of their own, then the other control characters, then all others.
  by_cases hOwn : c ∈ ['"', '\\', '\x08', '\x0c', '\n', '\r', '\t']
  · refine ⟨.char c, ?_, fun _ => rfl⟩
    simp only [List.mem_cons, List.not_mem_nil, or_false] at hOwn
    rcases hOwn with rfl | rfl | rfl | rfl | rfl | rfl | rfl <;> rfl
  · simp only [List.mem_cons, List.not_mem_nil, or_false, not_or] at hOwn
    obtain ⟨hQuote, hBackslash, hBack, hFeed, hLine, hReturn, hTab⟩ := hOwn
    rw [Json.escapeChar, if_neg hQuote, if_neg hBackslash, if_neg hBack, if_neg hFeed, if_neg hLine, if_neg hReturn,
      if_neg hTab]
    by_cases hControl : c.toNat < 0x20
    · rw [if_pos hControl]
      refine ⟨.unit c.toNat, run_unit pieces hControl, fun rest => ?_⟩
      rw [joinPieces_unit hControl, Char.ofNat_toNat]
    · rw [if_neg hControl]
      exact ⟨.char c, by simp [run, step, hQuote, hBackslash, hControl], fun _ => rfl⟩

theorem run_escaped (pieces : List Piece) (cs : List Char) :
    ∃ more, run (.string pieces) (cs.flatMap Json.escapeChar) = some (.string (more.reverse ++ pieces), []) ∧
      joinPieces more = some cs := by
  induction cs generalizing pieces with
  | nil => exact ⟨[], rfl, rfl⟩
  | cons c cs ih =>
    obtain ⟨piece, hFirst, hPiece⟩ := run_escapeChar pieces c
    obtain ⟨more, hRest, hMore⟩ := ih (piece :: pieces)
    refine ⟨piece :: more, ?_, by rw [hPiece, hMore]; rfl⟩
    rw [List.flatMap_cons, run_append hFirst hRest]
    simp

theorem emits_quote (value : String) : Emits .idle (Json.quote value) .idle [.string (some value)] := by
  obtain ⟨pieces, hRun, hPieces⟩ := run_escaped [] value.toList
  have hOpen : run .idle ['"'] = some (.string [], []) := rfl
  have hClose : run (.string (pieces.reverse ++ [])) ['"'] = some (.idle, [.string (some value)]) := by
    simp [run, step, hPieces, String.ofList_toList]
  have hQuote := run_append (run_append hOpen hRun) hClose
  exact emits_of_run hQuote settled_idle

-- ---------------------------------------------------------------------------
-- Numbers and words
-- ---------------------------------------------------------------------------

/-- A digit starts nothing but a number. -/
theorem start_digit {c : Char} (h : c.isDigit = true) :
    start c = ((PartialNumber.mk .sign false [] [] false []).push? c).map (fun n => (.number n, [])) := by
  have hChar : ofChar? c = none := by
    unfold ofChar?
    split <;> first | rfl | exact absurd h (by decide)
  have hOther : isBlank c = false ∧ c ≠ '"' ∧ c ≠ '-' := by
    refine ⟨?_, ?_, ?_⟩
    · rw [← Bool.not_eq_true]
      intro hBlank
      simp only [isBlank, Bool.or_eq_true, decide_eq_true_eq] at hBlank
      rcases hBlank with ((rfl | rfl) | rfl) | rfl <;> exact absurd h (by decide)
    · rintro rfl
      exact absurd h (by decide)
    · rintro rfl
      exact absurd h (by decide)
  simp [start, hChar, hOther, h]

theorem run_digits (whole : List Char) {cs : List Char} (h : ∀ c ∈ cs, c.isDigit = true) :
    run (.number { place := .whole, negative := false, whole }) cs =
      some (.number { place := .whole, negative := false, whole := cs.reverse ++ whole }, []) := by
  induction cs generalizing whole with
  | nil => rfl
  | cons c cs ih =>
    have hDigit := h c (List.mem_cons_self ..)
    rw [run, step, PartialNumber.push?]
    simp only [hDigit, if_true, Option.bind_some, ih (c :: whole) (fun d hd => h d (List.mem_cons_of_mem _ hd))]
    simp

theorem not_mem_token {c : Char} {t : JsonToken} (h : ofChar? c = some t) :
    c.isDigit = false ∧ c.isLower = false ∧ c ≠ '.' ∧ c ≠ 'e' ∧ c ≠ 'E' := by
  unfold ofChar? at h
  split at h <;> first | decide | simp at h

/-- A number that is all digits may end where it stands. -/
theorem settled_number {place : Place} (hPlace : place = .zero ∨ place = .whole) (whole : List Char) :
    Settled (.number { place, negative := false, whole }) [.number ⟨false, whole.reverse, [], none⟩] := by
  have hFinish : PartialNumber.finish? { place, negative := false, whole } = some ⟨false, whole.reverse, [], none⟩ := by
    rcases hPlace with rfl | rfl <;> rfl
  refine ⟨by simp [finish, hFinish], fun c t hc => ?_⟩
  obtain ⟨hDigit, -, hPoint, hLower, hUpper⟩ := not_mem_token hc
  have hPush : PartialNumber.push? { place, negative := false, whole } c = none := by
    rcases hPlace with rfl | rfl <;> simp [PartialNumber.push?, PartialNumber.afterDigits, hDigit, hPoint, hLower, hUpper]
  simp [step, hPush, hFinish, start, hc]

theorem emits_nat (n : Nat) : ∃ s, Emits .idle (Json.numberChars (.ofNat n)) s [.number (.ofNat n)] := by
  have hText : Json.numberChars (.ofNat n) = Nat.toDigits 10 n := by
    simp [Json.numberChars, JsonNumber.ofNat]
  rw [hText, JsonNumber.ofNat, toList_decimal]
  obtain ⟨c, cs, hDigits⟩ := List.exists_cons_of_ne_nil (Nat.toDigits_ne_nil (n := n) (b := 10))
  have hAll : ∀ d ∈ c :: cs, d.isDigit = true := fun d hd => isDigit_toDigits (hDigits ▸ hd)
  have hDigit := hAll c (List.mem_cons_self ..)
  by_cases hZero : n = 0
  · subst hZero
    have hStart : run .idle ['0'] = some (.number { place := .zero, negative := false, whole := ['0'] }, []) := rfl
    exact ⟨_, emits_of_run hStart (settled_number (Or.inl rfl) ['0'])⟩
  · have hHead : c ≠ '0' := by
      have hFirst := head?_toDigits (Nat.pos_of_ne_zero hZero)
      rw [hDigits] at hFirst
      simpa using hFirst
    have hStart : run .idle [c] = some (.number { place := .whole, negative := false, whole := [c] }, []) := by
      simp [run, step, start_digit hDigit, PartialNumber.push?, hHead, hDigit]
    have hRest := run_digits [c] (fun d hd => hAll d (List.mem_cons_of_mem _ hd))
    have hEnd := settled_number (Or.inr rfl) (cs.reverse ++ [c])
    rw [List.reverse_append, List.reverse_reverse, List.reverse_singleton] at hEnd
    rw [hDigits]
    exact ⟨_, emits_of_run (run_append hStart hRest) hEnd⟩

theorem settled_word {letters : List Char} {t : JsonToken} (h : ofWord? letters.reverse = some t) :
    Settled (.word letters) [t] := by
  refine ⟨by simp [finish, h], fun c t' hc => ?_⟩
  obtain ⟨-, hLower, -⟩ := not_mem_token hc
  simp [step, hLower, h, start, hc]

end JsonToken

namespace Json

open JsonToken

-- ---------------------------------------------------------------------------
-- Values
-- ---------------------------------------------------------------------------

/-- Values whose numbers are natural numbers of 64 bits. -/
inductive Plain : Json → Prop where
  | null : Plain .null
  | bool (b : Bool) : Plain (.bool b)
  | nat {n : Nat} : n < UInt64.size → Plain (.ofNat n)
  | string (s : String) : Plain (.string s)
  | array {items : List Json} : (∀ j ∈ items, Plain j) → Plain (.array items)
  | object {members : List (String × Json)} : (∀ m ∈ members, Plain m.2) → Plain (.object members)

/-- The text of the value is one row of tokens, from which the value is read wherever it stands. -/
def Spelled (j : Json) : Prop :=
  ∃ s ts, Emits .idle (chars j) s ts ∧ ∀ outer, readTokens (.value outer) ts = some (deliver j outer)

theorem readTokens_append {p p' : Pending} {ts : List JsonToken} (h : readTokens p ts = some p') (us : List JsonToken) :
    readTokens p (ts ++ us) = readTokens p' us := by
  induction ts generalizing p with
  | nil =>
    obtain rfl := Option.some.inj h
    rfl
  | cons t ts ih =>
    rw [List.cons_append, readTokens]
    rw [readTokens] at h
    cases hToken : readToken p t with
    | none => simp [hToken] at h
    | some q =>
      rw [hToken] at h
      exact ih h

theorem deliver_ne_value (j : Json) (frames outer : List Frame) : deliver j frames ≠ .value outer := by
  rcases frames with _ | ⟨_ | _, _⟩ <;> simp [deliver]

/-- Where an array may end at once, a value is read as its first item. -/
theorem readTokens_firstItem {j : Json} {outer : List Frame} {ts : List JsonToken}
    (h : readTokens (.value (.array [] :: outer)) ts = some (deliver j (.array [] :: outer))) :
    readTokens (.firstItem outer) ts = some (.nextItem [j] outer) := by
  cases ts with
  | nil => exact absurd (Option.some.inj h).symm (deliver_ne_value _ _ _)
  | cons t ts =>
    rw [readTokens] at h ⊢
    cases t <;> first | exact h | simp [readToken, startValue] at h

theorem spelled_word {j : Json} {letters : List Char} {t : JsonToken} {cs : List Char} (hChars : chars j = cs)
    (hRun : run .idle cs = some (.word letters, [])) (hWord : ofWord? letters.reverse = some t)
    (hRead : ∀ outer, startValue outer t = some (deliver j outer)) : Spelled j := by
  refine ⟨.word letters, [t], ?_, fun outer => ?_⟩
  · rw [hChars]
    exact emits_of_run hRun (settled_word hWord)
  · simp [readTokens, readToken, hRead]

/-- The items of an array after the first. -/
theorem spelled_items {items : List Json} (h : ∀ j ∈ items, Spelled j) {s : Scan} {last : List JsonToken}
    (hs : Settled s last) :
    ∃ s' ts, Emits s (itemsChars items) s' ts ∧ ∀ done outer,
      readTokens (.nextItem done outer) ts = some (.nextItem (items.reverse ++ done) outer) := by
  induction items generalizing s last with
  | nil => exact ⟨s, [], emits_nil hs, fun _ _ => rfl⟩
  | cons j items ih =>
    obtain ⟨s₁, ts, hItem, hRead⟩ := h j (List.mem_cons_self ..)
    obtain ⟨last₁, hSettled⟩ := hItem.settled
    obtain ⟨s₂, us, hItems, hReadAll⟩ := ih (fun i hi => h i (List.mem_cons_of_mem _ hi)) hSettled
    refine ⟨s₂, [JsonToken.comma] ++ ts ++ us, ?_, fun done outer => ?_⟩
    · rw [itemsChars]
      exact ((emits_punctuation hs rfl).append hItem).append hItems
    · have hFirst : readTokens (.nextItem done outer) ([JsonToken.comma] ++ ts) = some (.nextItem (j :: done) outer) := by
        rw [readTokens_append (show readTokens (.nextItem done outer) [.comma] = some (.value (.array done :: outer))
          from rfl)]
        exact hRead _
      rw [readTokens_append hFirst, hReadAll]
      simp

theorem spelled_array {items : List Json} (h : ∀ j ∈ items, Spelled j) : Spelled (.array items) := by
  cases items with
  | nil =>
    refine ⟨.idle, [JsonToken.openBracket] ++ [JsonToken.closeBracket], ?_, fun outer => rfl⟩
    exact (emits_punctuation settled_idle rfl).append (emits_punctuation settled_idle rfl)
  | cons j items =>
    obtain ⟨s₁, ts, hItem, hRead⟩ := h j (List.mem_cons_self ..)
    obtain ⟨last₁, hSettled₁⟩ := hItem.settled
    obtain ⟨s₂, us, hItems, hReadAll⟩ := spelled_items (fun i hi => h i (List.mem_cons_of_mem _ hi)) hSettled₁
    obtain ⟨last₂, hSettled₂⟩ := hItems.settled
    refine ⟨.idle, [JsonToken.openBracket] ++ ts ++ us ++ [JsonToken.closeBracket], ?_, fun outer => ?_⟩
    · rw [chars]
      exact (((emits_punctuation settled_idle rfl).append hItem).append hItems).append (emits_punctuation hSettled₂ rfl)
    · have hFirst : readTokens (.value outer) ([JsonToken.openBracket] ++ ts) = some (.nextItem [j] outer) := by
        rw [readTokens_append (show readTokens (.value outer) [.openBracket] = some (.firstItem outer) from rfl)]
        exact readTokens_firstItem (hRead _)
      have hAll := readTokens_append hFirst us
      rw [hReadAll] at hAll
      rw [readTokens_append hAll]
      simp [readTokens, readToken]

/-- A member of an object, read as one more of the members before it. -/
theorem readTokens_member {name : String} {j : Json} {ts : List JsonToken} {p : Pending}
    {done : List (Option String × Json)} {outer : List Frame}
    (hName : readToken p (.string (some name)) = some (.colon done (some name) outer))
    (h : ∀ outer, readTokens (.value outer) ts = some (deliver j outer)) :
    readTokens p ([JsonToken.string (some name)] ++ [JsonToken.colon] ++ ts) =
      some (.nextMember ((some name, j) :: done) outer) := by
  have hColon : readTokens p ([JsonToken.string (some name)] ++ [JsonToken.colon]) =
      some (.value (.member done (some name) :: outer)) := by
    rw [List.singleton_append, readTokens, hName]
    rfl
  rw [readTokens_append hColon]
  exact h _

theorem spelled_members {members : List (String × Json)} (h : ∀ m ∈ members, Spelled m.2) {s : Scan}
    {last : List JsonToken} (hs : Settled s last) :
    ∃ s' ts, Emits s (membersChars members) s' ts ∧ ∀ done outer, readTokens (.nextMember done outer) ts =
      some (.nextMember ((members.map (fun m => (some m.1, m.2))).reverse ++ done) outer) := by
  induction members generalizing s last with
  | nil => exact ⟨s, [], emits_nil hs, fun _ _ => rfl⟩
  | cons m members ih =>
    obtain ⟨name, j⟩ := m
    obtain ⟨s₁, ts, hMember, hRead⟩ := h (name, j) (List.mem_cons_self ..)
    obtain ⟨last₁, hSettled⟩ := hMember.settled
    obtain ⟨s₂, us, hMembers, hReadAll⟩ := ih (fun i hi => h i (List.mem_cons_of_mem _ hi)) hSettled
    refine ⟨s₂, [JsonToken.comma] ++ ([JsonToken.string (some name)] ++ [JsonToken.colon] ++ ts) ++ us, ?_,
      fun done outer => ?_⟩
    · have hText := (emits_punctuation hs (c := ',') rfl).append
        (((emits_quote name).append (emits_punctuation settled_idle (c := ':') rfl)).append hMember)
      have hAll := hText.append hMembers
      rw [membersChars]
      simpa using hAll
    · have hFirst : readTokens (.nextMember done outer)
          ([JsonToken.comma] ++ ([JsonToken.string (some name)] ++ [JsonToken.colon] ++ ts))
          = some (.nextMember ((some name, j) :: done) outer) := by
        rw [readTokens_append (show readTokens (.nextMember done outer) [.comma] = some (.name done outer) from rfl)]
        exact readTokens_member rfl hRead
      rw [readTokens_append hFirst, hReadAll]
      simp

theorem ofMembers_map (members : List (String × Json)) :
    ofMembers (members.map (fun m => (some m.1, m.2))) = .object members := by
  have hAll : (members.map (fun m => (some m.1, m.2))).mapM (fun m : Option String × Json =>
      m.1.map (fun name => (name, m.2))) = some members := by
    induction members with
    | nil => rfl
    | cons m members ih => simp [List.mapM_cons, ih]
  rw [ofMembers, hAll]

theorem spelled_object {members : List (String × Json)} (h : ∀ m ∈ members, Spelled m.2) :
    Spelled (.object members) := by
  cases members with
  | nil =>
    refine ⟨.idle, [JsonToken.openBrace] ++ [JsonToken.closeBrace], ?_, fun outer => rfl⟩
    exact (emits_punctuation settled_idle rfl).append (emits_punctuation settled_idle rfl)
  | cons m members =>
    obtain ⟨name, j⟩ := m
    obtain ⟨s₁, ts, hMember, hRead⟩ := h (name, j) (List.mem_cons_self ..)
    obtain ⟨last₁, hSettled₁⟩ := hMember.settled
    obtain ⟨s₂, us, hMembers, hReadAll⟩ := spelled_members (fun i hi => h i (List.mem_cons_of_mem _ hi)) hSettled₁
    obtain ⟨last₂, hSettled₂⟩ := hMembers.settled
    refine ⟨.idle, [JsonToken.openBrace] ++ ([JsonToken.string (some name)] ++ [JsonToken.colon] ++ ts) ++ us ++
      [JsonToken.closeBrace], ?_, fun outer => ?_⟩
    · have hFirst := (emits_punctuation settled_idle (c := Char.ofNat 123) rfl).append
        (((emits_quote name).append (emits_punctuation settled_idle (c := ':') rfl)).append hMember)
      have hAll := (hFirst.append hMembers).append (emits_punctuation hSettled₂ (c := Char.ofNat 125) rfl)
      rw [chars]
      simpa using hAll
    · have hFirst : readTokens (.value outer)
          ([JsonToken.openBrace] ++ ([JsonToken.string (some name)] ++ [JsonToken.colon] ++ ts))
          = some (.nextMember [(some name, j)] outer) := by
        rw [readTokens_append (show readTokens (.value outer) [.openBrace] = some (.firstName outer) from rfl)]
        exact readTokens_member rfl hRead
      have hAll := readTokens_append hFirst us
      rw [hReadAll] at hAll
      have hMembersAll := ofMembers_map ((name, j) :: members)
      rw [readTokens_append hAll]
      simpa [readTokens, readToken] using congrArg (fun v => deliver v outer) hMembersAll

-- ---------------------------------------------------------------------------
-- Range
-- ---------------------------------------------------------------------------

/-- Digits are taken as long as the whole number has 64 bits. -/
theorem takeDigits_eq {start : Nat} {cs : List Char} (h : Nat.ofDigitChars 10 cs start < UInt64.size) :
    JsonNumber.takeDigits start cs = (Nat.ofDigitChars 10 cs start, cs.length, 0) := by
  induction cs generalizing start with
  | nil => rfl
  | cons c cs ih =>
    have hGrows : ∀ (cs : List Char) (a : Nat), a ≤ Nat.ofDigitChars 10 cs a := by
      intro cs
      induction cs with
      | nil => exact fun a => Nat.le_refl a
      | cons d cs ih =>
        intro a
        have hNext := ih (10 * a + (d.toNat - '0'.toNat))
        rw [Nat.ofDigitChars, List.foldl_cons]
        rw [Nat.ofDigitChars] at hNext
        omega
    have hRest : Nat.ofDigitChars 10 (c :: cs) start = Nat.ofDigitChars 10 cs (10 * start + JsonNumber.digitValue c) := rfl
    rw [hRest] at h ⊢
    have hNext := hGrows cs (10 * start + JsonNumber.digitValue c)
    rw [JsonNumber.takeDigits, if_pos (by omega), ih h]
    rfl

theorem round53_le (n : Nat) : JsonNumber.round53 n ≤ 2 * n + 1 := by
  have hUnit : 1 <<< (n.log2 - 52) ≤ n + 1 := by
    by_cases hZero : n = 0
    · subst hZero
      decide
    · calc 1 <<< (n.log2 - 52) = 2 ^ (n.log2 - 52) := Nat.one_shiftLeft _
        _ ≤ 2 ^ n.log2 := Nat.pow_le_pow_right (by omega) (by omega)
        _ ≤ n := Nat.log2_self_le hZero
        _ ≤ n + 1 := Nat.le_succ n
  have hLow : n / 1 <<< (n.log2 - 52) * 1 <<< (n.log2 - 52) ≤ n := Nat.div_mul_le_self ..
  unfold JsonNumber.round53
  dsimp only
  split
  · rw [Nat.add_mul]
    omega
  · omega

/-- No number of 64 bits lies beyond double precision. -/
theorem ofNumber_ofNat {n : Nat} (h : n < UInt64.size) : ofNumber (.ofNat n) = .ofNat n := by
  have hValue : Nat.ofDigitChars 10 (Nat.toDigits 10 n) 0 = n := Nat.ofDigitChars_ten_toDigits
  have hTake : JsonNumber.takeDigits 0 (Nat.toDigits 10 n) = (n, (Nat.toDigits 10 n).length, 0) := by
    rw [takeDigits_eq (by rw [hValue]; exact h), hValue]
  have hSmall : JsonNumber.round53 n * JsonNumber.round53 1 < JsonNumber.infinityBound := by
    have hRound := round53_le n
    have hOne : JsonNumber.round53 1 = 1 := by decide
    have hBound : 2 * UInt64.size + 1 ≤ JsonNumber.infinityBound := by decide +kernel
    rw [hOne]
    omega
  have hRange : JsonNumber.overflows (.ofNat n) = false := by
    simp [JsonNumber.overflows, JsonNumber.ofNat, hTake, JsonNumber.takeDigits, hSmall]
  rw [ofNumber, hRange]
  rfl

-- ---------------------------------------------------------------------------
-- Whole texts
-- ---------------------------------------------------------------------------

theorem Plain.spelled {j : Json} (h : Plain j) : Spelled j := by
  induction h with
  | null => exact spelled_word rfl rfl rfl (fun _ => rfl)
  | bool b =>
    cases b with
    | true => exact spelled_word rfl rfl rfl (fun _ => rfl)
    | false => exact spelled_word rfl rfl rfl (fun _ => rfl)
  | @nat n hn =>
    obtain ⟨s, hEmits⟩ := emits_nat n
    refine ⟨s, [.number (.ofNat n)], hEmits, fun outer => ?_⟩
    simp [readTokens, readToken, startValue, ofNumber_ofNat hn]
  | string s => exact ⟨.idle, [.string (some s)], emits_quote s, fun _ => rfl⟩
  | array _ ih => exact spelled_array ih
  | object _ ih => exact spelled_object ih

theorem parse?_render {j : Json} (h : Plain j) : parse? j.render = some j := by
  obtain ⟨s, ts, hEmits, hRead⟩ := h.spelled
  rw [parse?, render, scan_of_emits hEmits, Option.bind_some, ofTokens?, hRead]
  rfl

theorem readableItems_iff {items : List Json} : readableItems items = true ↔ ∀ j ∈ items, j.readable = true := by
  induction items with
  | nil => simp [readableItems]
  | cons j items ih => simp [readableItems, ih]

theorem readableMembers_iff {members : List (String × Json)} :
    readableMembers members = true ↔ ∀ m ∈ members, m.2.readable = true := by
  induction members with
  | nil => simp [readableMembers]
  | cons m members ih => simp [readableMembers, ih]

/-- Plain values keep to the limits. -/
theorem Plain.readable {j : Json} (h : Plain j) : j.readable = true := by
  induction h with
  | null | bool | nat | string => rfl
  | array _ ih => exact readableItems_iff.mpr ih
  | object _ ih => exact readableMembers_iff.mpr ih

end Json

end Lowering
