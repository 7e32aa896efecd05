import Lowering.Proofs.C.Layout
import Lowering.Proofs.C.Quoted
import Lowering.Proofs.C.Spelling
import Lowering.Proofs.Draft.Adds
import Lowering.Proofs.Draft.Sections

/-!
# Escaped texts

A source string is escaped byte by byte, and C reads the bytes back: no escape takes anything of what follows it, whatever
that is. The escaped text is printable, and the only quotes in it are those of escapes, so the literal ends where the record
around it goes on.

* `literal?_escapeText` — the literal is the string.
* `scan_record` — the tokens of the record of a string.
* `escaped_text_is_read_back` — the string, its length and its record.
-/

namespace Lowering

open C Target

-- ---------------------------------------------------------------------------
-- Single bytes
-- ---------------------------------------------------------------------------

theorem forall_byte {P : UInt8 → Prop} (h : ∀ i : Fin 256, P (UInt8.ofFin i)) (b : UInt8) : P b := by
  rw [← UInt8.ofFin_toFin b]
  exact h b.toFin

/-- A byte of a string stays inside the quotes. -/
theorem read_escapeByte (b : UInt8) (as : List Char) :
    Cursor.read ⟨as, .quoted '"'⟩ (escapeByte b) = some ⟨as, .quoted '"'⟩ ∧ '\n' ∉ escapeByte b := by
  have hBytes : ∀ b : UInt8, Cursor.read ⟨[], .quoted '"'⟩ (escapeByte b) = some ⟨[], .quoted '"'⟩ ∧
      '\n' ∉ escapeByte b := forall_byte (by decide +kernel)
  exact ⟨Cursor.read_frame (hBytes b).1 as, (hBytes b).2⟩

/-- Whether a character is printable ASCII. -/
def isPrintable (c : Char) : Bool :=
  32 ≤ c.toNat && c.toNat ≤ 126

/-- The escape of a byte is printable, and a quote in it stands after a backslash. -/
theorem printable_escapeByte (b : UInt8) :
    (escapeByte b).all isPrintable = true ∧ ('"' ∈ escapeByte b → escapeByte b = ['\\', '"']) := by
  have hBytes : ∀ b : UInt8, (escapeByte b).all isPrintable = true ∧ ('"' ∈ escapeByte b → escapeByte b = ['\\', '"']) :=
    forall_byte (by decide +kernel)
  exact hBytes b

/-- The ways in which a byte is escaped. -/
inductive EscapedAs (b : UInt8) : List Char → Prop where
  | itself : 0x20 ≤ b ∧ b ≤ 0x7e → b ≠ 0x5c → b ≠ 0x22 → EscapedAs b [Char.ofNat b.toNat]
  | named {c : Char} : (c, b) ∈ [('\\', 0x5c), ('"', 0x22), ('n', 0x0a), ('t', 0x09), ('r', 0x0d)] → EscapedAs b ['\\', c]
  | octal : EscapedAs b (octalEscape b)

theorem escapedAs_escapeByte (b : UInt8) : EscapedAs b (escapeByte b) := by
  by_cases hNamed : b ∈ [0x5c, 0x22, 0x0a, 0x09, 0x0d]
  · simp only [List.mem_cons, List.not_mem_nil, or_false] at hNamed
    rcases hNamed with rfl | rfl | rfl | rfl | rfl <;> exact .named (by decide)
  · simp only [List.mem_cons, List.not_mem_nil, or_false, not_or] at hNamed
    obtain ⟨hBackslash, hQuote, hBreak, hTab, hReturn⟩ := hNamed
    rw [escapeByte, if_neg hBackslash, if_neg hQuote, if_neg hBreak, if_neg hTab, if_neg hReturn]
    by_cases hPrintable : 0x20 ≤ b ∧ b ≤ 0x7e
    · rw [if_pos hPrintable]
      exact .itself hPrintable hBackslash hQuote
    · rw [if_neg hPrintable]
      exact .octal

/-- A character that neither ends a literal nor starts an escape. -/
def isOrdinary (c : Char) : Bool :=
  c ≠ '"' && c ≠ '\n' && c ≠ '\\'

/-- A printable byte other than a quote or a backslash is the byte of an ordinary character. -/
theorem isOrdinary_printable {b : UInt8} (h : 0x20 ≤ b ∧ b ≤ 0x7e) (hBackslash : b ≠ 0x5c) (hQuote : b ≠ 0x22) :
    isOrdinary (Char.ofNat b.toNat) = true ∧ String.utf8EncodeChar (Char.ofNat b.toNat) = [b] := by
  have hBytes : ∀ b : UInt8, 0x20 ≤ b ∧ b ≤ 0x7e → b ≠ 0x5c → b ≠ 0x22 →
      isOrdinary (Char.ofNat b.toNat) = true ∧ String.utf8EncodeChar (Char.ofNat b.toNat) = [b] :=
    forall_byte (by decide +kernel)
  exact hBytes b h hBackslash hQuote

theorem digitValue_octalDigit (n : Nat) : digitValue (octalDigit n) = n % 8 := by
  have hDigits : ∀ i : Fin 8, digitValue (Char.ofNat ('0'.toNat + i)) = i := by decide
  exact hDigits ⟨n % 8, Nat.mod_lt n (by decide)⟩

theorem isDigitIn_octalDigit (n : Nat) : isDigitIn 8 (octalDigit n) = true := by
  rw [isDigitIn, digitValue_octalDigit]
  exact decide_eq_true (Nat.mod_lt n (by decide))

theorem isOrdinary_octalDigit (n : Nat) : isOrdinary (octalDigit n) = true := by
  have hDigits : ∀ i : Fin 8, isOrdinary (Char.ofNat ('0'.toNat + i)) = true := by decide
  exact hDigits ⟨n % 8, Nat.mod_lt n (by decide)⟩

-- ---------------------------------------------------------------------------
-- Bytes in a literal
-- ---------------------------------------------------------------------------

theorem element?_ordinary {c : Char} (h : isOrdinary c = true) (r : List Char) :
    element? (c :: r) = some (String.utf8EncodeChar c, 0) := by
  simp only [isOrdinary, Bool.and_eq_true, decide_eq_true_eq] at h
  rw [element?, if_neg (not_or.mpr h.1), if_neg h.2]

/-- An octal escape of three digits is complete, whatever follows. -/
theorem escape?_octal (b : UInt8) (r : List Char) :
    C.escape? (octalDigit (b.toNat / 64) :: octalDigit (b.toNat / 8) :: octalDigit b.toNat :: r) = some (b, 3) := by
  have hSmall : b.toNat < 256 := b.toNat_lt
  have hValue : 8 * (8 * (8 * 0 + b.toNat / 64 % 8) + b.toNat / 8 % 8) + b.toNat % 8 = b.toNat := by omega
  have hByte : byte? 8 [octalDigit (b.toNat / 64), octalDigit (b.toNat / 8), octalDigit b.toNat] = some b := by
    simp only [byte?, List.foldl_cons, List.foldl_nil, digitValue_octalDigit, hValue]
    rw [if_pos hSmall, UInt8.ofNat_toNat]
  have hDigits : ((octalDigit (b.toNat / 64) :: octalDigit (b.toNat / 8) :: octalDigit b.toNat :: r).take 3).takeWhile
      (isDigitIn 8) = [octalDigit (b.toNat / 64), octalDigit (b.toNat / 8), octalDigit b.toNat] := by
    simp [List.take, isDigitIn_octalDigit]
  rw [C.escape?, hDigits, if_pos (List.cons_ne_nil _ _), hByte]
  rfl

/-- A byte is read back from its escape, which takes nothing of what follows. -/
theorem element?_escapeByte (b : UInt8) (r : List Char) :
    ∃ c s, escapeByte b = c :: s ∧ element? (c :: s ++ r) = some ([b], s.length) := by
  have hEscaped := escapedAs_escapeByte b
  generalize escapeByte b = s at hEscaped ⊢
  cases hEscaped with
  | itself hPrintable hBackslash hQuote =>
    obtain ⟨hOrdinary, hEncode⟩ := isOrdinary_printable hPrintable hBackslash hQuote
    refine ⟨_, [], rfl, ?_⟩
    rw [List.cons_append, element?_ordinary hOrdinary, hEncode]
    rfl
  | named hNamed =>
    simp only [List.mem_cons, List.not_mem_nil, or_false, Prod.mk.injEq] at hNamed
    rcases hNamed with ⟨rfl, rfl⟩ | ⟨rfl, rfl⟩ | ⟨rfl, rfl⟩ | ⟨rfl, rfl⟩ | ⟨rfl, rfl⟩ <;> exact ⟨_, _, rfl, rfl⟩
  | octal =>
    refine ⟨_, _, rfl, ?_⟩
    rw [List.cons_append, element?, if_neg (by decide), if_pos rfl]
    exact congrArg (Option.map _) (escape?_octal b r)

theorem literal?_escapeByte (b : UInt8) (r : List Char) :
    literal? (escapeByte b ++ r) = (literal? r).map (fun rest => (b :: rest.1, rest.2)) := by
  obtain ⟨c, s, hByte, hElement⟩ := element?_escapeByte b r
  rw [hByte, literal?_append hElement]
  rfl

-- The lexer looks for the closing quote two characters at a time, so there has to be something after the byte.

theorem quotedTail_ordinary {c d : Char} (h : isOrdinary c = true) (r : List Char) :
    quotedTail '"' (c :: d :: r) = (quotedTail '"' (d :: r)).map (· + 1) := by
  simp only [isOrdinary, Bool.and_eq_true, decide_eq_true_eq] at h
  rw [quotedTail, if_neg (by simpa using h.2), if_neg (by simpa using h.1.1), if_neg (by simpa using h.1.2)]

theorem quotedTail_escape (c : Char) (r : List Char) :
    quotedTail '"' ('\\' :: c :: r) = (quotedTail '"' r).map (· + 2) := by
  rw [quotedTail, if_pos (by decide)]

theorem quotedTail_escapeByte (b : UInt8) (c : Char) (r : List Char) :
    quotedTail '"' (escapeByte b ++ c :: r) = (quotedTail '"' (c :: r)).map (· + (escapeByte b).length) := by
  have hEscaped := escapedAs_escapeByte b
  generalize escapeByte b = s at hEscaped ⊢
  cases hEscaped with
  | itself hPrintable hBackslash hQuote =>
    exact quotedTail_ordinary (isOrdinary_printable hPrintable hBackslash hQuote).1 r
  | named => exact quotedTail_escape _ _
  | octal =>
    have hTail := quotedTail_escape (octalDigit (b.toNat / 64)) (octalDigit (b.toNat / 8) :: octalDigit b.toNat :: c :: r)
    rw [quotedTail_ordinary (isOrdinary_octalDigit _), quotedTail_ordinary (isOrdinary_octalDigit _), Option.map_map,
      Option.map_map] at hTail
    exact hTail

-- ---------------------------------------------------------------------------
-- Texts
-- ---------------------------------------------------------------------------

theorem escapeBytes_cons (b : UInt8) (bytes : List UInt8) :
    escapeBytes (b :: bytes) = escapeByte b ++ escapeBytes bytes :=
  List.flatMap_cons ..

theorem toList_escapeText (value : String) : (escapeText value).toList = escapeBytes (bytesOf value) :=
  String.toList_ofList

/-- The bytes of a string are its UTF-8 form. -/
theorem bytesOf_eq (value : String) : bytesOf value = value.toUTF8.data.toList := by
  rw [String.toUTF8_eq_toByteArray, ← String.utf8Encode_toList]
  exact List.toList_data_toByteArray.symm

theorem length_bytesOf (value : String) : (bytesOf value).length = value.utf8ByteSize := by
  rw [bytesOf_eq, Array.length_toList]
  rfl

theorem literal?_escapeBytes (bytes : List UInt8) (rest : List Char) :
    literal? (escapeBytes bytes ++ '"' :: rest) = some (bytes, rest) := by
  induction bytes with
  | nil => exact literal?_quote rest
  | cons b bytes ih =>
    rw [escapeBytes_cons, List.append_assoc, literal?_escapeByte, ih]
    rfl

/-- C reads the bytes of a string back, and goes on after the closing quote. -/
theorem literal?_escapeText (value : String) (rest : List Char) :
    literal? ((escapeText value).toList ++ '"' :: rest) = some (value.toUTF8.data.toList, rest) := by
  rw [toList_escapeText, literal?_escapeBytes, bytesOf_eq]

theorem escapeText_injective : Function.Injective escapeText := by
  intro v w h
  have hRead := literal?_escapeText v []
  rw [h, literal?_escapeText w [], Option.some.injEq, Prod.mk.injEq, Array.toList_inj] at hRead
  exact (String.toByteArray_inj.mp (ByteArray.ext hRead.1)).symm

theorem isPrintable_escapeText (value : String) : (escapeText value).toList.all isPrintable = true := by
  rw [toList_escapeText, escapeBytes, List.all_flatMap, List.all_eq_true]
  exact fun b _ => (printable_escapeByte b).1

theorem read_escapeBytes (bytes : List UInt8) (as : List Char) :
    Cursor.read ⟨as, .quoted '"'⟩ (escapeBytes bytes) = some ⟨as, .quoted '"'⟩ := by
  induction bytes with
  | nil => rfl
  | cons b bytes ih =>
    rw [escapeBytes_cons, Cursor.read_append, (read_escapeByte b as).1]
    exact ih

/-- Where a quote stands in the escape of bytes, the reader is inside of an escape. -/
theorem read_before_quote {bytes : List UInt8} {before after : List Char}
    (h : escapeBytes bytes = before ++ '"' :: after) :
    Cursor.read ⟨[], .quoted '"'⟩ before = some ⟨[], .escaped '"'⟩ := by
  induction bytes generalizing before with
  | nil => simp [escapeBytes] at h
  | cons b bytes ih =>
    rw [escapeBytes_cons] at h
    have hLater : ∀ {more}, before = escapeByte b ++ more → escapeBytes bytes = more ++ '"' :: after →
        Cursor.read ⟨[], .quoted '"'⟩ before = some ⟨[], .escaped '"'⟩ := by
      rintro more rfl hRest
      rw [Cursor.read_append, (read_escapeByte b []).1]
      exact ih hRest
    rcases List.append_eq_append_iff.mp h with ⟨more, hBefore, hRest⟩ | ⟨more, hByte, hRest⟩
    · exact hLater hBefore hRest
    · cases more with
      | nil => exact hLater (by simpa using hByte.symm : before = _ ++ []) hRest.symm
      | cons c more =>
        obtain ⟨rfl, -⟩ := List.cons.inj hRest
        rw [(printable_escapeByte b).2 (by simp [hByte])] at hByte
        obtain ⟨rfl, -⟩ : before = ['\\'] ∧ more = [] := by simpa [List.cons_eq_append_iff] using hByte
        rfl

-- ---------------------------------------------------------------------------
-- Records
-- ---------------------------------------------------------------------------

theorem quotedTail_escapeBytes (bytes : List UInt8) (rest : List Char) :
    quotedTail '"' (escapeBytes bytes ++ '"' :: rest) = some ((escapeBytes bytes).length + 1) := by
  induction bytes with
  | nil => cases rest <;> rfl
  | cons b bytes ih =>
    have hNext : ∃ c r, escapeBytes bytes ++ '"' :: rest = c :: r := by
      cases escapeBytes bytes <;> exact ⟨_, _, rfl⟩
    obtain ⟨c, r, hNext⟩ := hNext
    rw [escapeBytes_cons, List.append_assoc, hNext, quotedTail_escapeByte, ← hNext, ih, Option.map_some,
      List.length_append]
    congr 1
    omega

/-- The lexer takes the literal of a string as one token. -/
theorem lexes_literal (value : String) (r : List Char) :
    Lexes ('"' :: (escapeText value).toList ++ ['"']) [.quoted ('"' :: (escapeText value).toList ++ ['"'])] r := by
  refine lexes_of_lexeme .quoted ?_
  have hTail : quotedTail '"' ((escapeText value).toList ++ '"' :: r) = some ((escapeText value).toList.length + 1) := by
    rw [toList_escapeText, quotedTail_escapeBytes]
  have hQuote : lexeme ('"' :: ((escapeText value).toList ++ '"' :: r)) =
      (quotedTail '"' ((escapeText value).toList ++ '"' :: r)).map (fun n => (.quoted, n)) := rfl
  simpa [hTail] using hQuote

/-- A decimal numeral is a number. -/
theorem lexes_decimal (n : Nat) {r : List Char} (hr : NotAhead continuesNumber r) :
    Lexes (toString n).toList [.number (toString n).toList] r := by
  have hDigits : IsDigits (toString n).toList := by
    rw [toList_decimal]
    exact isDigits_toDigits n
  exact lexes_number (.plain hDigits.startsNumber hDigits.isNumberChar) hr

/-- The elements of the type of a string record, up to the size of its array. -/
def recordHead : List (Kind × List Char) :=
  ["static", "const", "struct"].flatMap (fun w => [(Kind.word, w.toList), (.blank, [' '])])
    ++ [(Kind.mark, ['{']), (.blank, [' ']), (.word, "uintptr_t".toList), (.blank, [' ']), (.word, "len".toList), (.mark, [',']),
      (.blank, [' ']), (.word, "res".toList), (.mark, [';']), (.blank, [' ']), (.word, "char".toList), (.blank, [' ']),
      (.word, "data".toList), (.mark, ['['])]

/-- The tokens of the record of a string: the fields of its type with the size of the array, its name, and its values. -/
def recordTokens (name : List Char) (size length : Nat) (literal : List Char) : List Token :=
  recordHead.flatMap (fun p => p.1.tokens p.2)
    ++ [Token.number (toString size).toList, .mark [']'], .mark [';'], .mark ['}'], .word name, .mark ['='], .mark ['{'],
      .number (toString length).toList, .mark [','], .number (toString length).toList, .mark [','],
      .quoted ('"' :: literal ++ ['"']), .mark ['}'], .mark [';']]

theorem lexes_recordHead (r : List Char) :
    Lexes "static const struct \x7b uintptr_t len, res; char data[".toList (recordHead.flatMap (fun p => p.1.tokens p.2)) r := by
  have hText : "static const struct \x7b uintptr_t len, res; char data[".toList = recordHead.flatMap Prod.snd := by decide
  rw [hText]
  refine Splits.lexes _ ?_
  repeat refine .cons rfl ?_
  exact .nil r

/-- The end of a record, from the comma before the literal. -/
theorem lexes_recordEnd (value : String) :
    Lexes (", \"".toList ++ ((escapeText value).toList ++ "\"\x7d;\n".toList))
      [.mark [','], .quoted ('"' :: (escapeText value).toList ++ ['"']), .mark ['}'], .mark [';']] [] := by
  have hComma : ∀ r, Lexes [',', ' '] [.mark [',']] r := fun r =>
    Splits.lexes [(.mark, [',']), (.blank, [' '])] (.cons rfl (.cons rfl (.nil r)))
  have hEnd : Lexes ['}', ';', '\n'] [.mark ['}'], .mark [';']] [] :=
    Splits.lexes [(.mark, ['}']), (.mark, [';']), (.blank, ['\n'])] (.cons rfl (.cons rfl (.cons rfl (.nil []))))
  -- the opening quote is written together with the comma before it, the closing one with the brace after it
  simpa using (hComma _).append ((lexes_literal value _).append hEnd)

/-- The record of a string is split into its tokens; the literal in it is one of them. -/
theorem scan_record (span : Span) (value : String) :
    scan (Literal.record (Literal.recordName span) value).toList =
      some (recordTokens (Literal.recordName span).toList (value.utf8ByteSize + 1) value.utf8ByteSize
        (escapeText value).toList) := by
  have hNumber : ∀ (n : Nat) {c : Char} {r : List Char}, continuesNumber c = false →
      Lexes (toString n).toList [.number (toString n).toList] (c :: r) := fun n _ _ hc => lexes_decimal n (notAhead_cons.mpr hc)
  have hName : ∀ r, Lexes (Literal.recordName span).toList [.word (Literal.recordName span).toList] (' ' :: r) := fun r =>
    lexes_word (Literal.isIdentifier_recordName span) (notAhead_cons.mpr (by decide))
  have hMiddle : ∀ r, Lexes "]; \x7d ".toList [.mark [']'], .mark [';'], .mark ['}']] r := fun r =>
    Splits.lexes [(.mark, [']']), (.mark, [';']), (.blank, [' ']), (.mark, ['}']), (.blank, [' '])]
      (.cons rfl (.cons rfl (.cons rfl (.cons rfl (.cons rfl (.nil r))))))
  have hOpen : ∀ r, Lexes " = \x7b".toList [.mark ['='], .mark ['{']] r := fun r =>
    Splits.lexes [(.blank, [' ']), (.mark, ['=']), (.blank, [' ']), (.mark, ['{'])]
      (.cons rfl (.cons rfl (.cons rfl (.cons rfl (.nil r)))))
  have hComma : ∀ r, Lexes ", ".toList [.mark [',']] r := fun r =>
    Splits.lexes [(.mark, [',']), (.blank, [' '])] (.cons rfl (.cons rfl (.nil r)))
  have hLength := (hNumber value.utf8ByteSize (by decide)).append (lexes_recordEnd value)
  have hValues := (hNumber value.utf8ByteSize (by decide)).append ((hComma _).append hLength)
  have hNamed := (hMiddle _).append ((hName _).append ((hOpen _).append hValues))
  have hRecord := (lexes_recordHead _).append ((hNumber (value.utf8ByteSize + 1) (by decide)).append hNamed)
  unfold Literal.record
  simp only [String.toList_append, List.append_assoc]
  exact scan_of_lexes hRecord

/-- Writing a string puts its record among the forward declarations. -/
theorem forwardDeclarations_of_string {value : String} {span : Span} {d e : Draft}
    (h : Literal.string value span d = .ok () e) :
    e.sections.forwardDeclarations =
      d.sections.forwardDeclarations ++ Literal.record (Literal.recordName span) value := by
  unfold Literal.string at h
  have hSupport : Gen.needSupport .string d = .ok () (d.addSupport .string) := rfl
  rw [Gen.bind_apply, hSupport] at h
  dsimp only at h
  rw [Gen.bind_apply, Gen.reserveSymbol_apply] at h
  cases hOwner : (d.addSupport .string).symbols.lookup (Literal.recordName span) with
  | some owner =>
    rw [hOwner] at h
    cases h
  | none =>
    rw [hOwner] at h
    cases h
    have hKept : (d.addSupport .string).sections.forwardDeclarations = d.sections.forwardDeclarations :=
      Draft.get_addSupport (x := .forwardDeclarations) rfl .string
    rw [← hKept]
    rfl

/-- C reads the bytes of a string back from its escaped text, whatever follows the closing quote. The text is printable, a
quote in it always stands after a backslash that escapes it, and no other string has it. The record that is written holds
the text as one literal, in an array with room for its bytes and a zero after them, with their number before it. -/
theorem escaped_text_is_read_back (value : String) (span : Span) :
    (∀ rest, literal? ((escapeText value).toList ++ '"' :: rest) = some (value.toUTF8.data.toList, rest)) ∧
    (escapeText value).toList.all isPrintable = true ∧
    (∀ before after, (escapeText value).toList = before ++ '"' :: after →
      Cursor.read ⟨[], .quoted '"'⟩ before = some ⟨[], .escaped '"'⟩) ∧
    (∀ other, escapeText other = escapeText value ↔ other = value) ∧
    (∀ d e : Draft, Literal.string value span d = .ok () e →
      e.sections.forwardDeclarations =
        d.sections.forwardDeclarations ++ Literal.record (Literal.recordName span) value) ∧
    scan (Literal.record (Literal.recordName span) value).toList =
      some (recordTokens (Literal.recordName span).toList (value.toUTF8.data.toList.length + 1)
        value.toUTF8.data.toList.length (escapeText value).toList) := by
  refine ⟨literal?_escapeText value, isPrintable_escapeText value, ?_, fun other => escapeText_injective.eq_iff,
    fun _ _ => forwardDeclarations_of_string, ?_⟩
  · intro before after h
    rw [toList_escapeText] at h
    exact read_before_quote h
  · rw [scan_record, ← bytesOf_eq, length_bytesOf]

end Lowering
