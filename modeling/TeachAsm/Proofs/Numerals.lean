import Mathlib.Algebra.Group.Nat.Defs
import TeachAsm.Proofs.DigitRuns

/-!
# Numerals

The digits that a number is written with read back as the number, in both radixes and with zeros in
front. A numeral of a positive number does not start with a zero.
-/

namespace TeachAsm

namespace Radix

private theorem one_lt_base (r : Radix) : 1 < r.base := by
  cases r <;> decide

private theorem digit?_digitChar (r : Radix) {d : Nat} (h : d < r.base) :
    r.digit? (.char (Nat.digitChar d)) = some d := by
  have hdecimal : ∀ d < 10, decimal.digit? (.char (Nat.digitChar d)) = some d := by decide
  have hhexadecimal : ∀ d < 16, hexadecimal.digit? (.char (Nat.digitChar d)) = some d := by decide
  cases r with
  | decimal => exact hdecimal d h
  | hexadecimal => exact hhexadecimal d h

private theorem isDigit_digitChar (r : Radix) {d : Nat} (h : d < r.base) :
    r.isDigit (.char (Nat.digitChar d)) = true := by
  rw [isDigit, r.digit?_digitChar h]
  rfl

theorem value_concat (r : Radix) (digits : Text) (c : CodePoint) :
    r.value (digits ++ [c]) = r.value digits * r.base + (r.digit? c).getD 0 := by
  simp [value]

/-- The number that the digits of a number denote is the number. -/
theorem value_toDigits (r : Radix) (n : Nat) :
    r.value (.ofChars (Nat.toDigits r.base n)) = n := by
  induction n using Nat.strongRecOn with
  | ind n ih =>
      have hbase := r.one_lt_base
      rw [Nat.toDigits_eq_if hbase]
      split
      · next hlt =>
          simp [value, Text.ofChars, r.digit?_digitChar hlt]
      · next hge =>
          have hsmaller : n / r.base < n := Nat.div_lt_self (by omega) hbase
          have hlast := r.digit?_digitChar (Nat.mod_lt n (by omega : 0 < r.base))
          have hsplit : Text.ofChars (Nat.toDigits r.base (n / r.base) ++
              [Nat.digitChar (n % r.base)]) =
              Text.ofChars (Nat.toDigits r.base (n / r.base)) ++
                [.char (Nat.digitChar (n % r.base))] :=
            Text.ofChars_append _ _
          rw [hsplit, value_concat, ih _ hsmaller, hlast, Option.getD_some]
          exact Nat.div_add_mod' n r.base

theorem isDigit_toDigits (r : Radix) (n : Nat) :
    ∀ c ∈ Nat.toDigits r.base n, r.isDigit (.char c) = true := by
  induction n using Nat.strongRecOn with
  | ind n ih =>
      have hbase := r.one_lt_base
      intro c hc
      rw [Nat.toDigits_eq_if hbase] at hc
      split at hc
      · next hlt =>
          rw [List.mem_singleton.mp hc]
          exact r.isDigit_digitChar hlt
      · next hge =>
          rcases List.mem_append.mp hc with hc | hc
          · exact ih _ (Nat.div_lt_self (by omega) hbase) c hc
          · rw [List.mem_singleton.mp hc]
            exact r.isDigit_digitChar (Nat.mod_lt n (by omega))

theorem isDigit_ofChars_toDigits (r : Radix) (n : Nat) :
    ∀ c ∈ Text.ofChars (Nat.toDigits r.base n), r.isDigit c = true := by
  intro c hc
  obtain ⟨d, hd, rfl⟩ := List.mem_map.mp hc
  exact r.isDigit_toDigits n d hd

theorem render_natCast (r : Radix) (n : Nat) : r.render n = Nat.toDigits r.base n := by
  have hsign : ¬ (n : Int) < 0 := by omega
  simp [render, hsign]

theorem text_natCast_ne_nil (r : Radix) (n : Nat) : r.text n ≠ [] := by
  simp [text, render_natCast, Text.ofChars, Nat.toDigits_ne_nil]

theorem value_text (r : Radix) (n : Nat) : r.value (r.text n) = n := by
  rw [text, render_natCast]
  exact r.value_toDigits n

private theorem value_replicate_zero (r : Radix) (count : Nat) (digits : Text) :
    r.value (List.replicate count (.char '0') ++ digits) = r.value digits := by
  have hzero : r.digit? (.char '0') = some 0 := by cases r <;> rfl
  induction count with
  | zero => rfl
  | succ count ih =>
      rw [List.replicate_succ, List.cons_append, ← ih]
      simp [value, hzero]

end Radix

theorem head_toDigits_ne_zero {b n : Nat} (hb : 1 < b) (hn : 0 < n) (hten : b ≤ 10) :
    ∃ c rest, Nat.toDigits b n = c :: rest ∧ c ≠ '0' := by
  induction n using Nat.strongRecOn with
  | ind n ih =>
      rw [Nat.toDigits_eq_if hb]
      split
      · next hlt =>
          have hdigit : ∀ d < 10, 0 < d → Nat.digitChar d ≠ '0' := by decide
          exact ⟨_, [], rfl, hdigit n (by omega) hn⟩
      · next hge =>
          obtain ⟨c, rest, hdigits, hc⟩ := ih (n / b) (Nat.div_lt_self hn hb)
            (Nat.div_pos (by omega) (by omega))
          exact ⟨c, rest ++ [Nat.digitChar (n % b)], by rw [hdigits, List.cons_append], hc⟩

theorem length_hexDigits {width n : Nat} (hwidth : 0 < width) (h : n < 16 ^ width) :
    (hexDigits width n).length = width := by
  have hdigits : (Nat.toDigits 16 n).length ≤ width :=
    (Nat.length_toDigits_le_iff (by decide) hwidth).mpr h
  simp only [hexDigits, List.length_append, List.length_replicate]
  omega

theorem isDigit_hexDigits (width n : Nat) :
    ∀ c ∈ hexDigits width n, Radix.hexadecimal.isDigit (.char c) = true := by
  intro c hc
  rcases List.mem_append.mp hc with hc | hc
  · rw [List.eq_of_mem_replicate hc]
    decide
  · exact Radix.hexadecimal.isDigit_toDigits n c hc

theorem value_hexDigits (width n : Nat) :
    Radix.hexadecimal.value (.ofChars (hexDigits width n)) = n := by
  have hzeros (count : Nat) : Text.ofChars (List.replicate count '0') =
      List.replicate count (.char '0') := List.map_replicate
  rw [hexDigits, Text.ofChars_append, hzeros, Radix.value_replicate_zero]
  exact Radix.hexadecimal.value_toDigits n

namespace Radix

variable {r : Radix}

theorem not_isBlank_of_isDigit {c : CodePoint} (h : r.isDigit c = true) :
    Text.isBlank c = false := by
  have hrange : 48 ≤ c.toNat ∧ c.toNat ≤ 102 := by
    simp only [isDigit, digit?] at h
    split at h
    · omega
    · split at h
      · omega
      · split at h
        · omega
        · cases h
  simp only [Text.isBlank, Bool.or_eq_false_iff, Bool.and_eq_false_iff, decide_eq_false_iff_not,
    beq_eq_false_iff_ne]
  omega

theorem takeSign_cons_of_isDigit {c : CodePoint} (h : r.isDigit c = true) (s : Text) :
    takeSign (c :: s) = (false, c :: s) := by
  have hminus : r.isDigit (.char '-') = false := by cases r <;> decide
  have hplus : r.isDigit (.char '+') = false := by cases r <;> decide
  unfold takeSign
  split
  · next heq =>
      rw [(List.cons.inj heq).1, hminus] at h
      cases h
  · next heq =>
      rw [(List.cons.inj heq).1, hplus] at h
      cases h
  · rfl

theorem takeSign_of_digits {s : Text} (h : ∀ c ∈ s, r.isDigit c = true) :
    takeSign s = (false, s) := by
  cases s with
  | nil => rfl
  | cons c cs => exact takeSign_cons_of_isDigit (h c List.mem_cons_self) cs

/-- A sign, if there is one, and digits are read as a whole. -/
theorem leadingDigits_of_takeSign {s digits : Text} {negative : Bool}
    (hsign : takeSign s = (negative, digits)) (hleft : Text.stripLeft s = s)
    (h : ∀ c ∈ digits, r.isDigit c = true) : r.leadingDigits s = (negative, digits) := by
  rw [leadingDigits, hleft, hsign]
  dsimp only
  rw [List.takeWhile_eq_self_iff.mpr h]

theorem leading?_of_takeSign {s digits : Text} {negative : Bool}
    (hsign : takeSign s = (negative, digits)) (hleft : Text.stripLeft s = s) (hne : digits ≠ [])
    (h : ∀ c ∈ digits, r.isDigit c = true) :
    r.leading? s = some (withSign negative (r.value digits)) := by
  simp [leading?, leadingDigits_of_takeSign hsign hleft h, hne]

end Radix

end TeachAsm
