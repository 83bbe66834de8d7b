import TeachAsm.Check.Logic
import TeachAsm.Proofs.Slices

/-!
# Runs of digits

A decimal integer fails to be read only when its digits are too many. Every text that the passes
read a decimal integer from is a slice of the document, up to what a memory reference is rewritten
to, so a failure shows a run of digits of the document.
-/

namespace TeachAsm

/-- The text holds a run of that many decimal digits, and they are too many to be read. -/
def LongRun (text : Text) (count : Nat) : Prop :=
  ∃ digits, digits <:+: text ∧ (∀ c ∈ digits, Radix.decimal.isDigit c = true) ∧
    digits.length = count ∧ digitLimit < count

theorem LongRun.mono {s t : Text} {count : Nat} (h : LongRun s count) (hst : s <:+: t) :
    LongRun t count := by
  obtain ⟨digits, hdigits, hall, hlong⟩ := h
  exact ⟨digits, hdigits.trans hst, hall, hlong⟩

theorem LongRun.length_lt {s : Text} {count : Nat} (h : LongRun s count) :
    digitLimit < s.length := by
  obtain ⟨digits, hdigits, -, rfl, hlong⟩ := h
  exact Nat.lt_of_lt_of_le hlong hdigits.length_le

/-- A run does not reach back over characters that are no digits. -/
theorem LongRun.of_append {s t : Text} {count : Nat} (h : LongRun (s ++ t) count)
    (hs : ∀ c ∈ s, Radix.decimal.isDigit c = false) : LongRun t count := by
  obtain ⟨digits, hdigits, hall, hcount, hlong⟩ := h
  refine ⟨digits, ?_, hall, hcount, hlong⟩
  induction s with
  | nil => exact hdigits
  | cons c rest ih =>
      refine ih (fun d hd => hs d (List.mem_cons_of_mem _ hd)) ?_
      rcases List.infix_cons_iff.mp hdigits with hhead | htail
      · cases digits with
        | nil => exact List.nil_infix
        | cons d ds =>
            obtain ⟨rfl, -⟩ := List.cons_prefix_cons.mp hhead
            have hdigit := hall d List.mem_cons_self
            rw [hs d List.mem_cons_self] at hdigit
            cases hdigit
      · exact htail

private theorem takeSign_isSuffix (s : Text) : (takeSign s).2 <:+ s := by
  unfold takeSign
  split
  · exact List.suffix_cons _ _
  · exact List.suffix_cons _ _
  · exact List.suffix_rfl

namespace Radix

private theorem leadingDigits_isInfix (r : Radix) (s : Text) : (r.leadingDigits s).2 <:+: s := by
  have hrun : (r.leadingDigits s).2 <+: (takeSign (Text.stripLeft s)).2 := List.takeWhile_prefix _
  have hblank : Text.stripLeft s <:+ s := List.dropWhile_suffix _
  exact hrun.isInfix.trans ((takeSign_isSuffix _).isInfix.trans hblank.isInfix)

theorem isDigit_leadingDigits (r : Radix) (s : Text) :
    ∀ c ∈ (r.leadingDigits s).2, r.isDigit c = true := by
  intro c hc
  exact List.mem_takeWhile_imp hc

private theorem longRun_of_read {r : Radix} {s : Text} {e : TooManyDigits}
    (h : r.read s = .error e) : LongRun s e.count := by
  rw [read] at h
  split at h
  · next hlong =>
      obtain ⟨rfl, hlong⟩ := hlong
      cases h
      exact ⟨_, leadingDigits_isInfix _ s, isDigit_leadingDigits _ s, rfl, hlong⟩
  · cases h

end Radix

private theorem longRun_of_decimalWord {s : Text} {e : TooManyDigits}
    (h : decimalWord s = .error e) : LongRun s e.count := by
  rw [decimalWord] at h
  cases hread : Radix.decimal.read s with
  | ok n =>
      rw [hread] at h
      cases h
  | error e' =>
      rw [hread] at h
      cases h
      exact Radix.longRun_of_read hread

theorem Family.exists_mnemonic {f : Family} {word : Text} (h : f.hasWord word = true) :
    ∃ m : Mnemonic, m.family = f ∧ Mnemonic.ofWord? word = some m := by
  rw [hasWord, beq_iff_eq, Option.map_eq_some_iff] at h
  obtain ⟨m, hm, hf⟩ := h
  exact ⟨m, hf, hm⟩

theorem Line.mnemonic?_ne_of_isReference {l : Line} (hl : l.isReference = true) {m : Mnemonic}
    (hm : m.family ≠ .memoryReference) : l.mnemonic? ≠ some m := by
  obtain ⟨reference, hfamily, hreference⟩ := Family.exists_mnemonic hl
  rw [mnemonic?, hreference, ne_eq, Option.some.injEq]
  rintro rfl
  exact hm hfamily

private theorem Mnemonic.letters_of_memoryReference {m : Mnemonic}
    (h : m.family = .memoryReference) :
    ∀ c ∈ m.spelling, c ≠ .char 'O' ∧ Radix.decimal.isDigit c = false := by
  revert h
  cases m <;> decide

private theorem isDigit_char {d : Char} (h : d.isDigit = true) :
    Radix.decimal.isDigit (.char d) = true := by
  have hrange := Char.isDigit_iff_toNat.mp h
  have hnat : 48 ≤ d.toNat ∧ d.toNat ≤ 57 := hrange
  simp [Radix.isDigit, Radix.digit?, CodePoint.toNat, hnat]

theorem isDigit_decimal_text (n : Nat) :
    ∀ c ∈ Radix.decimal.text n, Radix.decimal.isDigit c = true := by
  intro c hc
  have hsign : ¬ (n : Int) < 0 := by omega
  simp only [Radix.text, Radix.render, hsign, if_false, List.nil_append, Text.ofChars,
    List.mem_map, Int.natAbs_natCast] at hc
  obtain ⟨d, hd, rfl⟩ := hc
  exact isDigit_char (Nat.isDigit_of_mem_toDigits (by decide) (by decide) hd)

theorem not_mem_decimal_text {c : CodePoint} (h : Radix.decimal.isDigit c = false) (n : Nat) :
    c ∉ Radix.decimal.text n := by
  intro hmem
  rw [isDigit_decimal_text n c hmem] at h
  cases h

private theorem head_mem_of_isPrefix {s : Text} (h : Mnemonic.spelling .ORG <+: s) :
    CodePoint.char 'O' ∈ s :=
  h.subset (by decide)

namespace Line

private theorem not_mentionsOrigin_reference {l : Line} (hl : l.isReference = true) (target : Nat)
    (indirect : Bool) :
    Text.occursIn (Mnemonic.spelling .ORG)
      (Cell.referenceText l.mnemonic (Radix.decimal.text target) indirect) = false := by
  obtain ⟨m, hfamily, hm⟩ := Family.exists_mnemonic hl
  have hmnemonic : CodePoint.char 'O' ∉ l.mnemonic := by
    rw [← Mnemonic.spelling_of_ofWord? hm]
    exact fun h => (Mnemonic.letters_of_memoryReference hfamily _ h).1 rfl
  have hnumber : CodePoint.char 'O' ∉ Radix.decimal.text target :=
    not_mem_decimal_text (by decide) target
  rw [Bool.eq_false_iff]
  intro hoccurs
  have hmem := ((Text.occursIn_iff_isInfix _ _).mp hoccurs).mem
    (by decide : CodePoint.char 'O' ∈ Mnemonic.spelling .ORG)
  cases indirect <;>
    simp [Cell.referenceText, hmnemonic, hnumber, indirectMark] at hmem

end Line

private theorem longRun_of_jumpText {text : Text} {position : Nat} {e : TooManyDigits}
    (h : Radix.decimal.read (jumpText text position) = .error e) :
    LongRun (text.take (position + 1)) e.count := by
  have hrun := (Radix.longRun_of_read h).mono (Text.strip_isInfix _)
  by_cases hfirst : position + 1 ≤ jumpColumn
  · rw [Nat.max_eq_right hfirst] at hrun
    have hshort := (hrun.mono (List.drop_suffix _ _).isInfix).length_lt
    have htake : (text.take jumpColumn).length ≤ jumpColumn := List.length_take_le _ _
    have hlimit : jumpColumn < digitLimit := by decide
    omega
  · rw [Nat.max_eq_left (by omega)] at hrun
    exact hrun.mono (List.drop_suffix _ _).isInfix

private theorem not_digit_unresolvedLead :
    ∀ c ∈ (.char ' ' :: Text.ofString "UNK-" : Text), Radix.decimal.isDigit c = false := by
  decide

namespace Line

private theorem longRun_of_unresolved {l : Line} (hl : l.isReference = true) {symbol : Text}
    {line position : Nat} {indirect : Bool} {e : TooManyDigits}
    (hposition : Text.indexOf? (Mnemonic.spelling .ORG)
      (Cell.referenceText l.mnemonic (Cell.unresolvedWord symbol line) indirect) = some position)
    (hread : Radix.decimal.read (jumpText
      (Cell.referenceText l.mnemonic (Cell.unresolvedWord symbol line) indirect) position) =
        .error e) : LongRun symbol e.count := by
  obtain ⟨m, hfamily, hm⟩ := Family.exists_mnemonic hl
  have hletters := Mnemonic.letters_of_memoryReference hfamily
  rw [Mnemonic.spelling_of_ofWord? hm] at hletters
  let front : Text := l.mnemonic ++ .char ' ' :: Text.ofString "UNK-"
  let back : Text := Text.ofString "|" ++ Radix.decimal.text line ++
    (if indirect then .char ' ' :: indirectMark else [])
  have htext : Cell.referenceText l.mnemonic (Cell.unresolvedWord symbol line) indirect =
      (front ++ symbol) ++ back := by
    simp [Cell.referenceText, Cell.unresolvedWord, front, back]
  have hfront : ∀ c ∈ front, Radix.decimal.isDigit c = false := by
    intro c hc
    rcases List.mem_append.mp hc with hc | hc
    · exact (hletters c hc).2
    · exact not_digit_unresolvedLead c hc
  have hback : CodePoint.char 'O' ∉ back := by
    have hnumber : CodePoint.char 'O' ∉ Radix.decimal.text line :=
      not_mem_decimal_text (by decide) line
    have hbar : CodePoint.char 'O' ∉ Text.ofString "|" := by decide
    cases indirect <;> simp [back, hnumber, hbar, indirectMark]
  have hbefore : position < (front ++ symbol).length := by
    by_contra hge
    have horigin := Text.isPrefix_of_indexOf? hposition
    rw [htext, List.drop_append, List.drop_eq_nil_of_le (by omega), List.nil_append] at horigin
    exact hback (List.mem_of_mem_drop (head_mem_of_isPrefix horigin))
  have hrun := longRun_of_jumpText hread
  rw [htext, List.take_append_of_le_length (by omega)] at hrun
  exact (hrun.mono (List.take_prefix _ _).isInfix).of_append hfront

theorem cell_mnemonic (l : Line) (symbols : Table Text Nat) :
    (l.cell symbols).mnemonic = l.mnemonic := by
  cases hl : l.isReference with
  | false => simp [cell, hl]
  | true => cases htarget : l.target? symbols <;> simp [cell, hl, htarget]

theorem cell_text_verbatim {l : Line} (hl : l.isReference = false) (symbols : Table Text Nat) :
    (l.cell symbols).text = l.stripped := by
  simp [cell, hl]

/-- A cell that keeps the text of its line has the operand of the line, taken out a second time. -/
theorem cell_operand_verbatim {l : Line} (hl : l.isReference = false) (symbols : Table Text Nat) :
    (l.cell symbols).operand = l.operand := by
  rw [Cell.operand, l.cell_mnemonic, cell_text_verbatim hl, operand, statement]

theorem literal_of_isReference {l : Line} (hl : l.isReference = true) (operand : Text) :
    literal l.mnemonic operand = .ok none := by
  obtain ⟨m, hfamily, hm⟩ := Family.exists_mnemonic hl
  rw [literal, hm]
  cases m with
  | DEC | HEX => cases hfamily
  | _ => rfl

theorem cell_text_reference {l : Line} (hl : l.isReference = true) {symbols : Table Text Nat}
    {target : Nat} (htarget : l.target? symbols = some target) :
    (l.cell symbols).text =
      Cell.referenceText l.mnemonic (Radix.decimal.text target) l.isIndirect := by
  simp [cell, hl, htarget]

theorem cell_text_unresolved {l : Line} (hl : l.isReference = true) {symbols : Table Text Nat}
    (htarget : l.target? symbols = none) :
    (l.cell symbols).text =
      Cell.referenceText l.mnemonic (Cell.unresolvedWord l.operandWord (l.index + 1))
        l.isIndirect := by
  simp [cell, hl, htarget]

private theorem longRun_of_cell_jump {l : Line} {symbols : Table Text Nat} {position : Nat}
    {e : TooManyDigits}
    (hposition : Text.indexOf? (Mnemonic.spelling .ORG) (l.cell symbols).text = some position)
    (hread : Radix.decimal.read (jumpText (l.cell symbols).text position) = .error e) :
    LongRun l.raw e.count := by
  cases hl : l.isReference with
  | false =>
      rw [cell_text_verbatim hl] at hread
      have hrun := (longRun_of_jumpText hread).mono (List.take_prefix _ _).isInfix
      exact hrun.mono l.stripped_isInfix
  | true =>
      cases htarget : l.target? symbols with
      | some target =>
          have hnone := not_mentionsOrigin_reference hl target l.isIndirect
          rw [← cell_text_reference hl htarget, ← Text.isSome_indexOf?, hposition] at hnone
          exact absurd hnone (by simp)
      | none =>
          rw [cell_text_unresolved hl htarget] at hposition hread
          have hrun := longRun_of_unresolved hl hposition hread
          exact hrun.mono (l.operandWord_isInfix.trans
            (l.statement_isInfix.trans l.stripped_isInfix))

theorem longRun_of_originJump {l : Line} {symbols : Table Text Nat} {f : Fault}
    (hmentions : (l.cell symbols).mentionsOrigin = true)
    (h : originJump (l.cell symbols).text = .error f) :
    ∃ e, f = .digits e ∧ LongRun l.raw e.count := by
  rw [Cell.mentionsOrigin, ← Text.isSome_indexOf?, Option.isSome_iff_exists] at hmentions
  obtain ⟨position, hposition⟩ := hmentions
  rw [originJump, hposition] at h
  cases hread : Radix.decimal.read (jumpText (l.cell symbols).text position) with
  | ok n =>
      simp only [hread, Except.mapError, reduceCtorEq] at h
  | error e =>
      simp only [hread, Except.mapError, Except.error.injEq] at h
      exact ⟨e, h.symm, longRun_of_cell_jump hposition hread⟩

theorem longRun_of_literal {l : Line} {symbols : Table Text Nat} {e : TooManyDigits}
    (h : (l.cell symbols).literal = .error e) : LongRun l.raw e.count := by
  have hdec : Mnemonic.ofWord? l.mnemonic = some .DEC ∧
      decimalWord (l.cell symbols).operand = .error e := by
    rw [Cell.literal, TeachAsm.literal, cell_mnemonic] at h
    split at h
    · next hm => exact ⟨hm, h⟩
    · cases h
    · cases h
  have hplain : l.isReference = false := by
    simp [isReference, Family.hasWord, hdec.1, Mnemonic.family]
  have hoperand : (l.cell symbols).operand <:+: l.stripped := by
    rw [Cell.operand, cell_text_verbatim hplain]
    exact (Text.strip_isInfix _).trans ((List.drop_suffix _ _).isInfix.trans
      ((Text.strip_isInfix _).trans (Text.afterLast_isSuffix _ _).isInfix))
  exact (longRun_of_decimalWord hdec.2).mono (hoperand.trans l.stripped_isInfix)

theorem longRun_of_operandProblem {l : Line} {f : Fault} (h : l.operandProblem = .error f) :
    ∃ e, f = .digits e ∧ LongRun l.raw e.count := by
  unfold operandProblem at h
  split at h
  · split at h
    · cases h
    · split at h <;> cases h
  · split at h
    · next e he =>
        cases h
        have hraw := l.operand_isInfix.trans (l.statement_isInfix.trans l.stripped_isInfix)
        exact ⟨e, rfl, (longRun_of_decimalWord he).mono hraw⟩
    · cases h
    · cases h
  · cases h
  · split at h <;> cases h
  · cases h

end Line

end TeachAsm
