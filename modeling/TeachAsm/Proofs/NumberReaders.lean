import Mathlib.Data.Nat.Digits.Defs
import TeachAsm.Proofs.Literals
import TeachAsm.Proofs.WholeIntegers

/-!
# Readers of numbers

A number is read in several ways: off the start of a text, as an address, as a hexadecimal word and
as a whole integer. Each reader has its own test for what it accepts. Where two of them accept a
text they read the same number, and a number that was written is read back, in letters of either
case.
-/

namespace TeachAsm

private theorem toNat_charToLower (c : Char) : c.toLower.toNat =
    if 65 ≤ c.toNat ∧ c.toNat ≤ 90 then c.toNat + 32 else c.toNat := by
  have hcapital : (c.val ≥ 'A'.val ∧ c.val ≤ 'Z'.val) ↔ 65 ≤ c.toNat ∧ c.toNat ≤ 90 := Iff.rfl
  delta Char.toLower
  split
  · next h =>
      have hle : c.val.toNat ≤ 90 := (hcapital.mp h).2
      have hshift : ('a'.val - 'A'.val).toNat = 32 := by decide
      have hsum : (c.val + ('a'.val - 'A'.val)).toNat = c.val.toNat + 32 := by
        rw [UInt32.toNat_add, hshift]
        omega
      rw [if_pos (hcapital.mp h)]
      exact hsum
  · next h => rw [if_neg fun hin => h (hcapital.mpr hin)]

namespace CodePoint

private theorem toNat_toLower (c : CodePoint) : c.toLower.toNat =
    if 65 ≤ c.toNat ∧ c.toNat ≤ 90 then c.toNat + 32 else c.toNat := by
  cases c with
  | char c => exact toNat_charToLower c
  | surrogate n =>
      have hsmall : ¬ (0xD800 + n.val ≤ 90) := by omega
      simp [toLower, toNat, hsmall]

private theorem eq_of_toLower_eq {c : CodePoint} {d : Char} (h : c.toLower = .char d)
    (hd : ¬ (97 ≤ d.toNat ∧ d.toNat ≤ 122)) : c = .char d := by
  cases c with
  | surrogate n => cases h
  | char c =>
      have hnat := toNat_charToLower c
      rw [CodePoint.char.inj h] at hnat
      split at hnat
      · omega
      · rw [Char.toNat_inj.mp hnat]

end CodePoint

namespace Radix

variable {r : Radix}

private theorem digit?_toLower (r : Radix) (c : CodePoint) : r.digit? c.toLower = r.digit? c := by
  have hlower := c.toNat_toLower
  cases r with
  | decimal =>
      simp only [digit?, reduceCtorEq, false_and, if_false]
      grind
  | hexadecimal =>
      simp only [digit?, true_and]
      grind

private theorem isDigit_toLower (r : Radix) (c : CodePoint) :
    r.isDigit c.toLower = r.isDigit c := by
  rw [isDigit, isDigit, digit?_toLower]

private theorem value_map_toLower (r : Radix) (digits : Text) :
    r.value (digits.map CodePoint.toLower) = r.value digits := by
  simp only [value, List.foldl_map, digit?_toLower]

/-- The value of a run of digits is that of its positions. -/
private theorem value_eq_ofDigits (r : Radix) (digits : Text) :
    r.value digits = Nat.ofDigits r.base (digits.reverse.map fun c => (r.digit? c).getD 0) := by
  induction digits using List.reverseRecOn with
  | nil => rfl
  | append_singleton front c ih =>
      rw [value_concat, ih, List.reverse_append, List.reverse_singleton, List.singleton_append,
        List.map_cons, Nat.ofDigits_cons]
      rw [Nat.add_comm, Nat.mul_comm]

/-- Behind blanks and at most one sign the text has a digit. -/
def Starts (r : Radix) (s : Text) : Prop :=
  ∃ (indent : Text) (sign : Sign) (c : CodePoint) (rest : Text),
    s = indent ++ (sign.text ++ c :: rest) ∧ Text.Blanks indent ∧ r.isDigit c = true

private theorem exists_leads_of_starts {s : Text} (h : r.Starts s) :
    ∃ n : Numeral, n.Leads r s := by
  obtain ⟨indent, sign, c, rest, rfl, hindent, hc⟩ := h
  have hsplit := List.takeWhile_append_dropWhile (p := r.isDigit) (l := c :: rest)
  refine ⟨⟨sign, (c :: rest).takeWhile r.isDigit⟩, ⟨by simp [hc], ?_⟩,
    indent, (c :: rest).dropWhile r.isDigit, ?_, hindent, ?_⟩
  · intro d hd
    exact List.mem_takeWhile_imp hd
  · rw [Numeral.text, List.append_assoc, hsplit]
  · intro d hd
    obtain ⟨tail, htail⟩ := List.head?_eq_some_iff.mp hd
    exact Text.head_dropWhile htail

private theorem starts_of_leads {n : Numeral} {s : Text} (h : n.Leads r s) : r.Starts s := by
  obtain ⟨indent, rest, rfl, hindent, -⟩ := h.starts
  obtain ⟨c, digits, hdigits⟩ := List.exists_cons_of_ne_nil h.isNumeral.1
  refine ⟨indent, n.sign, c, digits ++ rest, ?_, hindent, h.isNumeral.2 c ?_⟩
  · rw [Numeral.text, hdigits, List.append_assoc, List.cons_append]
  · rw [hdigits]
    exact List.mem_cons_self

private theorem read_eq_none_iff {s : Text} : r.read s = .ok none ↔ ¬ r.Starts s := by
  constructor
  · intro h hstarts
    obtain ⟨n, hleads⟩ := exists_leads_of_starts hstarts
    rw [read_of_leads hleads] at h
    split at h <;> cases h
  · intro h
    have hnone : (r.leadingDigits s).2 = [] := by
      by_contra hne
      obtain ⟨n, hleads, -⟩ := Numeral.exists_leads hne
      exact h (starts_of_leads hleads)
    simp [read, leading?, hnone]

/-- A number in letters of either case is a numeral with its value and no further digits. -/
private theorem exists_numeral_of_toLower {n : Int} {written : Text}
    (h : written.map CodePoint.toLower = r.text n) :
    ∃ m : Numeral, written = m.text ∧ r.IsNumeral m.digits ∧ m.value r = n ∧
      m.digits.length = (Nat.toDigits r.base n.natAbs).length := by
  -- digits keep their values in either case
  have hdigits {digits : Text}
      (hlower : digits.map CodePoint.toLower = Text.ofChars (Nat.toDigits r.base n.natAbs)) :
      r.IsNumeral digits ∧ r.value digits = n.natAbs ∧
        digits.length = (Nat.toDigits r.base n.natAbs).length := by
    refine ⟨⟨?_, ?_⟩, ?_, ?_⟩
    · rintro rfl
      exact Nat.toDigits_ne_nil (List.map_eq_nil_iff.mp hlower.symm)
    · intro c hc
      have hmem : c.toLower ∈ Text.ofChars (Nat.toDigits r.base n.natAbs) :=
        hlower ▸ List.mem_map_of_mem hc
      rw [← isDigit_toLower]
      exact r.isDigit_ofChars_toDigits _ _ hmem
    · rw [← value_map_toLower, hlower, value_toDigits]
    · rw [← List.length_map (f := CodePoint.toLower), hlower, Text.length_ofChars]
  by_cases hn : n < 0
  · have htext : r.text n = .char '-' :: Text.ofChars (Nat.toDigits r.base n.natAbs) := by
      rw [text, render, if_pos hn]
      rfl
    rw [htext, List.map_eq_cons_iff] at h
    obtain ⟨c, digits, rfl, hc, hlower⟩ := h
    obtain ⟨hnumeral, hvalue, hlength⟩ := hdigits hlower
    refine ⟨⟨.minus, digits⟩, ?_, hnumeral, ?_, hlength⟩
    · rw [CodePoint.eq_of_toLower_eq hc (by decide)]
      rfl
    · simp only [Numeral.value, hvalue, Sign.isMinus, withSign, if_true]
      omega
  · have htext : r.text n = Text.ofChars (Nat.toDigits r.base n.natAbs) := by
      rw [text, render, if_neg hn]
      rfl
    rw [htext] at h
    obtain ⟨hnumeral, hvalue, hlength⟩ := hdigits h
    refine ⟨⟨.absent, written⟩, rfl, hnumeral, ?_, hlength⟩
    rw [Numeral.value_absent, hvalue]
    omega

/-- What is read off the start of a text in a radix. -/
structure ReadsStart (r : Radix) : Prop where
  nothing : ∀ s, r.read s = .ok none ↔ ¬ r.Starts s
  /-- The numeral that the text starts with takes in all digits, and its value is read unless it has
  too many decimal digits. -/
  numeral : ∀ s, r.Starts s → ∃ n : Numeral, n.Leads r s ∧ r.read s =
    if r = .decimal ∧ digitLimit < n.digits.length then .error ⟨n.digits.length⟩
    else .ok (some (n.value r))
  positional : ∀ n : Numeral, n.value r = withSign n.sign.isMinus
    (Nat.ofDigits r.base (n.digits.reverse.map fun c => (r.digit? c).getD 0))
  /-- A number that is written behind blanks is read back, whatever follows its digits. -/
  written : ∀ (n : Int) (indent digits rest : Text), Text.Blanks indent →
    digits.map CodePoint.toLower = r.text n →
    (r = .decimal → (Nat.toDigits 10 n.natAbs).length ≤ digitLimit) →
    (∀ c ∈ rest.head?, r.isDigit c = false) →
    r.read (indent ++ (digits ++ rest)) = .ok (some n)

private theorem readsStart (r : Radix) : r.ReadsStart where
  nothing := fun _ => read_eq_none_iff
  numeral := by
    intro s h
    obtain ⟨n, hleads⟩ := exists_leads_of_starts h
    exact ⟨n, hleads, read_of_leads hleads⟩
  positional := by
    intro n
    rw [Numeral.value, value_eq_ofDigits]
  written := by
    intro n indent digits rest hindent hlower hshort hrest
    obtain ⟨m, rfl, hnumeral, rfl, hlength⟩ := exists_numeral_of_toLower hlower
    have hleads : m.Leads r (indent ++ (m.text ++ rest)) :=
      ⟨hnumeral, indent, rest, rfl, hindent, hrest⟩
    rw [read_of_leads hleads, if_neg]
    rintro ⟨rfl, hlong⟩
    rw [hlength] at hlong
    exact absurd (hshort rfl) (Nat.not_le_of_lt hlong)

end Radix

namespace Numeral

variable {n : Numeral} {indent tail : Text}

private theorem whole?_text_append (h : Radix.hexadecimal.IsNumeral n.digits)
    (hindent : ∀ c ∈ indent, Integer.isPadding c = true)
    (htail : ∀ c ∈ tail, Integer.isPadding c = true) :
    Integer.whole? .hexadecimal (indent ++ (n.text ++ tail)) = some (n.value .hexadecimal) := by
  have hsign := takeSign_text_append h []
  rw [List.append_nil, List.append_nil] at hsign
  apply Integer.whole?_of_takeSign (isWord_text_of_isNumeral h).solid hindent htail hsign h.2 h.1
  intro hdecimal
  cases hdecimal

private theorem whole?_text (h : Radix.hexadecimal.IsNumeral n.digits) :
    Integer.whole? .hexadecimal n.text = some (n.value .hexadecimal) := by
  have hnone : ∀ c ∈ ([] : Text), Integer.isPadding c = true := List.forall_mem_nil _
  simpa using whole?_text_append h hnone hnone

end Numeral

namespace Radix

variable {s : Text}

private theorem read_hexadecimal_of_leads {n : Numeral} (h : n.Leads .hexadecimal s) :
    hexadecimal.read s = .ok (some (n.value .hexadecimal)) := by
  rw [read_of_leads h, if_neg (by simp)]

private theorem read_hexadecimal_of_isNumeral (h : hexadecimal.IsNumeral s) :
    hexadecimal.read s = .ok (some (hexadecimal.value s : Int)) := by
  have hleads : (⟨.absent, s⟩ : Numeral).Leads .hexadecimal (s ++ []) :=
    Numeral.leads_of_word h (by simp)
  rw [List.append_nil] at hleads
  exact read_hexadecimal_of_leads hleads

private theorem read_hexadecimal_of_strip {n : Numeral} (htext : Text.strip s = n.text)
    (h : hexadecimal.IsNumeral n.digits) :
    hexadecimal.read s = .ok (some (n.value .hexadecimal)) := by
  obtain ⟨indent, tail, hs, hindent, htail⟩ := Text.exists_strip s
  rw [htext] at hs
  rw [hs]
  exact read_hexadecimal_of_leads
    (Numeral.leads_of_blanks h hindent fun c hc => htail c (List.mem_of_mem_head? hc))

end Radix

private theorem address?_eq_some_iff {s : Text} {a : Nat} : address? s = some a ↔
    Radix.hexadecimal.IsNumeral s ∧ Radix.hexadecimal.value s = a ∧ a < memorySize := by
  simp only [address?, Option.ite_none_right_eq_some, Bool.and_eq_true, Bool.not_eq_true',
    List.isEmpty_eq_false_iff, List.all_eq_true, decide_eq_true_eq, Option.some.injEq,
    Radix.IsNumeral]
  constructor
  · rintro ⟨⟨hnumeral, hlt⟩, rfl⟩
    exact ⟨hnumeral, rfl, hlt⟩
  · rintro ⟨hnumeral, rfl, hlt⟩
    exact ⟨⟨hnumeral, hlt⟩, rfl⟩

/-- An address is a numeral without a sign whose number, read off its start, is below 4096. -/
private theorem isSome_address?_iff {s : Text} : (address? s).isSome ↔
      Radix.hexadecimal.IsNumeral s ∧ ∃ n, Radix.hexadecimal.read s = .ok (some n) ∧ n < 4096 := by
  have hsize : memorySize = 4096 := rfl
  rw [Option.isSome_iff_exists]
  constructor
  · intro h
    obtain ⟨a, ha⟩ := h
    obtain ⟨hnumeral, hvalue, hlt⟩ := address?_eq_some_iff.mp ha
    exact ⟨hnumeral, _, Radix.read_hexadecimal_of_isNumeral hnumeral, by omega⟩
  · intro h
    obtain ⟨hnumeral, n, hread, hlt⟩ := h
    rw [Radix.read_hexadecimal_of_isNumeral hnumeral, Except.ok.injEq, Option.some.injEq] at hread
    exact ⟨_, address?_eq_some_iff.mpr ⟨hnumeral, rfl, by omega⟩⟩

private theorem isSome_hexWord?_iff {s : Text} : (hexWord? s).isSome ↔
    (∃ n : Numeral, Text.strip s = n.text ∧ Radix.hexadecimal.IsNumeral n.digits) ∧
      ∃ v, Radix.hexadecimal.read s = .ok (some v) ∧ -32768 ≤ v ∧ v ≤ 32767 := by
  rw [Option.isSome_iff_exists]
  constructor
  · intro h
    obtain ⟨v, hv⟩ := h
    obtain ⟨n, htext, hnumeral, rfl, hfits⟩ := hexWord?_eq_some_iff.mp hv
    exact ⟨⟨n, htext, hnumeral⟩, _, Radix.read_hexadecimal_of_strip htext hnumeral,
      Line.fitsWord_iff.mp hfits⟩
  · intro h
    obtain ⟨⟨n, htext, hnumeral⟩, v, hread, hfits⟩ := h
    rw [Radix.read_hexadecimal_of_strip htext hnumeral, Except.ok.injEq, Option.some.injEq] at hread
    subst hread
    exact ⟨_, hexWord?_eq_some_iff.mpr ⟨n, htext, hnumeral, rfl, Line.fitsWord_iff.mpr hfits⟩⟩

/-- The readers of hexadecimal numbers on one text. -/
structure HexadecimalAgrees (s : Text) : Prop where
  address : (address? s).isSome ↔ Radix.hexadecimal.IsNumeral s ∧
    ∃ n, Radix.hexadecimal.read s = .ok (some n) ∧ n < 4096
  addressValue : ∀ a : Nat, address? s = some a → Radix.hexadecimal.read s = .ok (some (a : Int)) ∧
    Integer.whole? .hexadecimal s = some (a : Int)
  word : (hexWord? s).isSome ↔
    (∃ n : Numeral, Text.strip s = n.text ∧ Radix.hexadecimal.IsNumeral n.digits) ∧
      ∃ v, Radix.hexadecimal.read s = .ok (some v) ∧ -32768 ≤ v ∧ v ≤ 32767
  wordValue : ∀ v, hexWord? s = some v → Radix.hexadecimal.read s = .ok (some v) ∧
    Integer.whole? .hexadecimal (Text.strip s) = some v
  /-- The text need not be stripped if its blanks are padding, as all but the information separators
  are. -/
  unstripped : ∀ v, hexWord? s = some v →
    (∀ c ∈ s, Text.isBlank c = true → Integer.isPadding c = true) →
    Integer.whole? .hexadecimal s = some v

private theorem hexadecimalAgrees (s : Text) : HexadecimalAgrees s where
  address := isSome_address?_iff
  addressValue := by
    intro a ha
    obtain ⟨hnumeral, rfl, -⟩ := address?_eq_some_iff.mp ha
    exact ⟨Radix.read_hexadecimal_of_isNumeral hnumeral,
      Numeral.whole?_text (n := ⟨.absent, s⟩) hnumeral⟩
  word := isSome_hexWord?_iff
  wordValue := by
    intro v hv
    obtain ⟨n, htext, hnumeral, rfl, -⟩ := hexWord?_eq_some_iff.mp hv
    rw [htext]
    exact ⟨Radix.read_hexadecimal_of_strip htext hnumeral, Numeral.whole?_text hnumeral⟩
  unstripped := by
    intro v hv hpadding
    obtain ⟨n, htext, hnumeral, rfl, -⟩ := hexWord?_eq_some_iff.mp hv
    obtain ⟨indent, tail, hs, hindent, htail⟩ := Text.exists_strip s
    rw [htext] at hs
    rw [hs] at hpadding ⊢
    apply Numeral.whole?_text_append hnumeral
    · intro c hc
      exact hpadding c (by simp [hc]) (hindent c hc)
    · intro c hc
      exact hpadding c (by simp [hc]) (htail c hc)

/-- An information separator has to be stripped first. -/
example : hexWord? (.ofString "\x1c7F") = some 127 ∧
    Integer.whole? .hexadecimal (.ofString "\x1c7F") = none := by decide

/-- The number at the start of a text is that of the longest run of digits behind blanks and a sign,
and a number that was written is read back. The tests for addresses and for hexadecimal words accept
texts by their form and by that number, and a whole integer is the same number wherever they
accept the text, as the operand of a literal cell is. -/
theorem number_readers_agree :
    (∀ r : Radix, r.ReadsStart) ∧ (∀ s : Text, HexadecimalAgrees s) ∧
    ∀ (c : Cell) (v : Int), c.mnemonic? = some .HEX → c.literal = .ok (some v) →
      Radix.hexadecimal.read c.operand = .ok (some v) ∧
      Integer.whole? .hexadecimal c.operand = some v := by
  refine ⟨Radix.readsStart, hexadecimalAgrees, ?_⟩
  intro c v hm hv
  have hstripped : Text.strip c.operand = c.operand := Text.strip_strip _
  have hmnemonic : Mnemonic.ofWord? c.mnemonic = some .HEX := hm
  have hword : hexWord? c.operand = some v := by
    rw [Cell.literal, literal, hmnemonic] at hv
    exact Except.ok.inj hv
  have hvalue := (hexadecimalAgrees c.operand).wordValue v hword
  rwa [hstripped] at hvalue

/-- The limits of words and addresses, in letters of both cases and behind blanks of other kinds. -/
theorem number_readers_agree_limits :
    let c : Cell := { text := .ofString "A,\tHEX \u3000-8000", mnemonic := .ofString "HEX" }
    let address : Text := .ofString "0FfF"
    Integer.whole? .hexadecimal c.operand = some (-32768) ∧
    Radix.hexadecimal.read (.ofString "\u2003-8000g") = .ok (some (-32768)) ∧
    Radix.hexadecimal.read address = .ok (some 4095) ∧
    Integer.whole? .hexadecimal address = some 4095 := by
  intro c address
  obtain ⟨hstart, hagrees, hcell⟩ := number_readers_agree
  have hliteral : c.literal = .ok (some (-32768)) := by decide +kernel
  have hwritten := (hstart .hexadecimal).written (-32768) (.ofString "\u2003") (.ofString "-8000")
    (.ofString "g") (by decide) (by decide) (by decide) (by decide)
  have haddress := (hagrees address).addressValue 4095 (by decide)
  exact ⟨(hcell c _ (by decide) hliteral).2, hwritten, haddress.1, haddress.2⟩

end TeachAsm
