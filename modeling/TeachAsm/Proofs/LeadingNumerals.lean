import TeachAsm.Proofs.FaultFreedom
import TeachAsm.Proofs.Statement

/-!
# Leading numerals

The integer that a text starts with is that of one numeral: behind blanks a sign, if there is one,
and every digit up to the first character that is none. A decimal word is such a numeral that fits a
word, whatever follows it; a hexadecimal word is a numeral with nothing behind it.
-/

namespace TeachAsm

private theorem exists_sign (s : Text) :
    ∃ sign : Sign, takeSign s = (sign.isMinus, (takeSign s).2) ∧
      s = sign.text ++ (takeSign s).2 := by
  unfold takeSign
  split
  · exact ⟨.minus, rfl, rfl⟩
  · exact ⟨.plus, rfl, rfl⟩
  · exact ⟨.absent, rfl, rfl⟩

namespace Numeral

variable {n : Numeral} {r : Radix} {s : Text}

/-- The text starts with the numeral, behind blanks, and no further digit follows. -/
structure Leads (n : Numeral) (r : Radix) (s : Text) : Prop where
  isNumeral : r.IsNumeral n.digits
  starts : ∃ indent rest, s = indent ++ (n.text ++ rest) ∧ Text.Blanks indent ∧
    ∀ c ∈ rest.head?, r.isDigit c = false

theorem takeSign_text_append (h : r.IsNumeral n.digits) (rest : Text) :
    takeSign (n.text ++ rest) = (n.sign.isMinus, n.digits ++ rest) := by
  obtain ⟨sign, digits⟩ := n
  cases sign with
  | plus => rfl
  | minus => rfl
  | absent =>
      obtain ⟨c, cs, rfl⟩ := List.exists_cons_of_ne_nil h.1
      exact Radix.takeSign_cons_of_isDigit (h.2 c List.mem_cons_self) (cs ++ rest)

theorem isWord_text_of_isNumeral (h : r.IsNumeral n.digits) : Text.IsWord n.text := by
  have hdigits : ∀ c ∈ n.digits, Text.isBlank c = false :=
    fun c hc => Radix.not_isBlank_of_isDigit (h.2 c hc)
  have hsign : ∀ c ∈ n.sign.text, Text.isBlank c = false := by
    cases n.sign <;> decide
  refine ⟨List.append_ne_nil_of_right_ne_nil _ h.1, ?_⟩
  intro c hc
  exact (List.mem_append.mp hc).elim (hsign c) (hdigits c)

private theorem stripLeft_text_append (h : r.IsNumeral n.digits) (rest : Text) :
    Text.stripLeft (n.text ++ rest) = n.text ++ rest :=
  (isWord_text_of_isNumeral h).solid.stripLeft_eq rest

theorem leads_of_blanks {indent tail : Text} (h : r.IsNumeral n.digits)
    (hindent : Text.Blanks indent) (htail : ∀ c ∈ tail.head?, Text.isBlank c = true) :
    n.Leads r (indent ++ (n.text ++ tail)) := by
  refine ⟨h, indent, tail, rfl, hindent, ?_⟩
  intro c hc
  rw [Bool.eq_false_iff]
  intro hdigit
  have hblank := Radix.not_isBlank_of_isDigit hdigit
  rw [htail c hc] at hblank
  cases hblank

private theorem Leads.leadingDigits_eq (h : n.Leads r s) :
    r.leadingDigits s = (n.sign.isMinus, n.digits) := by
  obtain ⟨indent, rest, rfl, hindent, hrest⟩ := h.starts
  have hstop : rest.takeWhile r.isDigit = [] := by
    cases rest with
    | nil => rfl
    | cons c cs => simp [hrest c rfl]
  rw [Radix.leadingDigits, Text.stripLeft_append hindent, stripLeft_text_append h.isNumeral,
    takeSign_text_append h.isNumeral]
  dsimp only
  rw [List.takeWhile_append_of_pos h.isNumeral.2, hstop, List.append_nil]

/-- A text in which a reader finds digits starts with a numeral. -/
theorem exists_leads (h : (r.leadingDigits s).2 ≠ []) :
    ∃ n : Numeral, n.Leads r s ∧ r.leadingDigits s = (n.sign.isMinus, n.digits) := by
  obtain ⟨sign, hsign, htext⟩ := exists_sign (Text.stripLeft s)
  have hread : r.leadingDigits s =
      (sign.isMinus, (takeSign (Text.stripLeft s)).2.takeWhile r.isDigit) := by
    rw [Radix.leadingDigits, hsign]
  rw [hread] at h ⊢
  refine ⟨⟨sign, _⟩, ⟨⟨h, fun c hc => List.mem_takeWhile_imp hc⟩,
    s.takeWhile Text.isBlank, (takeSign (Text.stripLeft s)).2.dropWhile r.isDigit, ?_,
    fun c hc => List.mem_takeWhile_imp hc, ?_⟩, rfl⟩
  · rw [text, List.append_assoc, List.takeWhile_append_dropWhile, ← htext, Text.stripLeft,
      List.takeWhile_append_dropWhile]
  · intro c hc
    obtain ⟨rest, hrest⟩ := List.head?_eq_some_iff.mp hc
    exact Text.head_dropWhile hrest

end Numeral

namespace Radix

variable {r : Radix} {s : Text} {v : Int}

theorem leading?_of_leads {n : Numeral} (h : n.Leads r s) : r.leading? s = some (n.value r) := by
  rw [leading?, h.leadingDigits_eq]
  dsimp only
  rw [if_neg (by simpa using h.isNumeral.1)]
  rfl

theorem leading?_eq_some_iff :
    r.leading? s = some v ↔ ∃ n : Numeral, n.Leads r s ∧ n.value r = v := by
  constructor
  · intro h
    obtain ⟨n, hleads, -⟩ := Numeral.exists_leads (isNumeral_of_leading? h).1
    rw [leading?_of_leads hleads, Option.some.injEq] at h
    exact ⟨n, hleads, h⟩
  · rintro ⟨n, hleads, rfl⟩
    exact leading?_of_leads hleads

theorem read_of_leads {n : Numeral} (h : n.Leads r s) : r.read s =
    if r = decimal ∧ digitLimit < n.digits.length then .error ⟨n.digits.length⟩
    else .ok (some (n.value r)) := by
  rw [read, h.leadingDigits_eq, leading?_of_leads h]

theorem read_decimal_of_leads {n : Numeral} (h : n.Leads .decimal s)
    (hshort : n.digits.length ≤ digitLimit) :
    decimal.read s = .ok (some (n.value .decimal)) := by
  rw [read_of_leads h, if_neg (by simpa using hshort)]

theorem read_decimal_eq_some_iff : decimal.read s = .ok (some v) ↔
    ∃ n : Numeral, n.Leads .decimal s ∧ n.digits.length ≤ digitLimit ∧ n.value .decimal = v := by
  constructor
  · intro h
    have hread := h
    rw [read] at hread
    split at hread
    · cases hread
    · next hshort =>
        rw [Except.ok.injEq] at hread
        obtain ⟨n, hleads, hvalue⟩ := leading?_eq_some_iff.mp hread
        rw [hleads.leadingDigits_eq] at hshort
        exact ⟨n, hleads, by simpa using hshort, hvalue⟩
  · rintro ⟨n, hleads, hshort, rfl⟩
    exact read_decimal_of_leads hleads hshort

end Radix

theorem decimalWord_eq_some_iff {s : Text} {v : Int} : decimalWord s = .ok (some v) ↔
    Radix.decimal.read s = .ok (some v) ∧ fitsWord v = true := by
  rw [decimalWord]
  cases Radix.decimal.read s with
  | error e => simp [Except.map]
  | ok n => simp [Except.map, Option.filter_eq_some_iff]

theorem hexWord?_eq_some_iff {s : Text} {v : Int} : hexWord? s = some v ↔
    ∃ n : Numeral, Text.strip s = n.text ∧ Radix.hexadecimal.IsNumeral n.digits ∧
      n.value .hexadecimal = v ∧ fitsWord v = true := by
  constructor
  · intro h
    obtain ⟨sign, hsign, htext⟩ := exists_sign (Text.strip s)
    have hnumeral := isNumeral_of_hexWord? h
    rw [hexWord?, hsign] at h
    simp only [Option.ite_none_right_eq_some, Bool.and_eq_true, Option.some.injEq] at h
    obtain ⟨⟨-, hfits⟩, rfl⟩ := h
    exact ⟨⟨sign, (takeSign (Text.strip s)).2⟩, htext, hnumeral, rfl, hfits⟩
  · rintro ⟨n, htext, hnumeral, rfl, hfits⟩
    have hsign := Numeral.takeSign_text_append hnumeral []
    rw [List.append_nil, List.append_nil] at hsign
    have hall : n.digits.all Radix.hexadecimal.isDigit = true := List.all_eq_true.mpr hnumeral.2
    have hword : fitsWord (withSign n.sign.isMinus (Radix.hexadecimal.value n.digits)) = true :=
      hfits
    simp [hexWord?, htext, hsign, hnumeral.1, hall, hword, Numeral.value]

theorem Numeral.value_absent (r : Radix) (digits : Text) :
    (⟨.absent, digits⟩ : Numeral).value r = (r.value digits : Int) := rfl

theorem Numeral.leads_of_word {r : Radix} {word tail : Text} (h : r.IsNumeral word)
    (htail : ∀ c ∈ tail.head?, Text.isBlank c = true) :
    (⟨.absent, word⟩ : Numeral).Leads r (word ++ tail) :=
  leads_of_blanks (n := ⟨.absent, word⟩) h Text.blanks_nil htail

private theorem Line.exists_words_of_operandWord {l : Line} (h : l.operandWord ≠ []) :
    ∃ first rest, l.words = first :: l.operandWord :: rest := by
  rw [operandWord] at h ⊢
  generalize l.words = words at h ⊢
  rcases words with _ | ⟨first, _ | ⟨second, rest⟩⟩
  · exact absurd rfl h
  · exact absurd rfl h
  · exact ⟨first, rest, rfl⟩

theorem Line.leads_operand_of_address? {l : Line} {a : Nat} (h : address? l.operandWord = some a) :
    (⟨.absent, l.operandWord⟩ : Numeral).Leads .hexadecimal l.operand := by
  have hnumeral := isNumeral_of_address? h
  obtain ⟨first, rest, hwords⟩ := exists_words_of_operandWord hnumeral.1
  obtain ⟨tail, hoperand, htail⟩ := (l.spaced_operand hwords).exists_tail
  rw [hoperand]
  exact Numeral.leads_of_word hnumeral htail

end TeachAsm
