import TeachAsm.Proofs.Contents
import TeachAsm.Proofs.LeadingNumerals

/-!
# Literals

The check of the source lines judges the operand of a literal on its line; the check of references
reads the value out of the cell. Both find the same operand, and what the one accepts the other can
use: a decimal operand that starts with a numeral, or a hexadecimal operand that is one.
-/

namespace TeachAsm

namespace Radix

/-- The integer that the operand of a literal stands for, whether or not it fits a word. -/
inductive Denotes : Radix → Text → Int → Prop
  /-- What follows the digits is ignored. -/
  | decimal {n : Numeral} {operand : Text} (leads : n.Leads .decimal operand)
      (short : n.digits.length ≤ digitLimit) : Denotes .decimal operand (n.value .decimal)
  | hexadecimal {n : Numeral} (isNumeral : Radix.hexadecimal.IsNumeral n.digits) :
      Denotes .hexadecimal n.text (n.value .hexadecimal)

def invalidLiteral : Radix → Problem
  | decimal => .invalidDecimal
  | hexadecimal => .invalidHexadecimal

variable {r : Radix} {mnemonic operand : Text} {v : Int}

private theorem denotes_decimal_iff :
    Denotes .decimal operand v ↔ Radix.decimal.read operand = .ok (some v) := by
  rw [read_decimal_eq_some_iff]
  constructor
  · rintro ⟨hleads, hshort⟩
    exact ⟨_, hleads, hshort, rfl⟩
  · rintro ⟨n, hleads, hshort, rfl⟩
    exact .decimal hleads hshort

private theorem denotes_hexadecimal_iff : Denotes .hexadecimal operand v ↔
    ∃ n : Numeral, operand = n.text ∧ hexadecimal.IsNumeral n.digits ∧
      n.value .hexadecimal = v := by
  constructor
  · rintro ⟨⟩
    exact ⟨_, rfl, ‹_›, rfl⟩
  · rintro ⟨n, rfl, hnumeral, rfl⟩
    exact .hexadecimal hnumeral

private theorem exists_mnemonic_of_literal (h : literal mnemonic operand = .ok (some v)) :
    ∃ r : Radix, Mnemonic.ofWord? mnemonic = some r.mnemonic := by
  rw [literal] at h
  split at h
  · next hm => exact ⟨.decimal, hm⟩
  · next hm => exact ⟨.hexadecimal, hm⟩
  · cases h

private theorem literal_eq_some_iff (hm : Mnemonic.ofWord? mnemonic = some r.mnemonic)
    (hstripped : Text.strip operand = operand) :
    literal mnemonic operand = .ok (some v) ↔ fitsWord v = true ∧ r.Denotes operand v := by
  rw [literal, hm]
  cases r with
  | decimal =>
      change decimalWord operand = _ ↔ _
      rw [decimalWord_eq_some_iff, denotes_decimal_iff, and_comm]
  | hexadecimal =>
      change Except.ok (hexWord? operand) = _ ↔ _
      rw [Except.ok.injEq, hexWord?_eq_some_iff, hstripped, denotes_hexadecimal_iff]
      constructor
      · rintro ⟨n, htext, hnumeral, hvalue, hfits⟩
        exact ⟨hfits, n, htext, hnumeral, hvalue⟩
      · rintro ⟨hfits, n, htext, hnumeral, hvalue⟩
        exact ⟨n, htext, hnumeral, hvalue, hfits⟩

end Radix

namespace Line

variable {l : Line} {r : Radix}

/-- What the check of a literal says in terms of the value of its operand. -/
private theorem operandProblem_of_literal (hm : l.mnemonic? = some r.mnemonic) :
    l.operandProblem = match literal l.mnemonic l.operand with
      | .error e => .error (.digits e)
      | .ok none => .ok (some r.invalidLiteral)
      | .ok (some _) => .ok none := by
  have hword : Mnemonic.ofWord? l.mnemonic = some r.mnemonic := hm
  cases r with
  | decimal =>
      simp only [operandProblem, literal, hm, hword, Radix.mnemonic]
      rcases decimalWord l.operand with e | _ | v <;> rfl
  | hexadecimal =>
      simp only [operandProblem, literal, hm, hword, Radix.mnemonic]
      cases hexWord? l.operand <;> rfl

private theorem not_isReference_of_literal (hm : l.mnemonic? = some r.mnemonic) :
    l.isReference = false := by
  have hfamily : r.mnemonic.family ≠ .memoryReference := by
    cases r <;> decide
  rw [Bool.eq_false_iff]
  intro hl
  exact mnemonic?_ne_of_isReference hl hfamily hm

theorem literal_cell (l : Line) (symbols : Table Text Nat) :
    (l.cell symbols).literal = literal l.mnemonic l.operand := by
  rw [Cell.literal, l.cell_mnemonic]
  cases hl : l.isReference with
  | false => rw [cell_operand_verbatim hl]
  | true => rw [literal_of_isReference hl, literal_of_isReference hl]

theorem fitsWord_iff {v : Int} : fitsWord v = true ↔ -32768 ≤ v ∧ v ≤ 32767 := by
  rw [fitsWord, Bool.and_eq_true, decide_eq_true_eq, decide_eq_true_eq]
  rfl

theorem literal_operand_eq_some_iff {v : Int} :
    literal l.mnemonic l.operand = .ok (some v) ↔ ∃ r : Radix, l.mnemonic? = some r.mnemonic ∧
      (-32768 ≤ v ∧ v ≤ 32767) ∧ r.Denotes l.operand v := by
  have hstripped : Text.strip l.operand = l.operand := Text.strip_strip _
  constructor
  · intro h
    obtain ⟨r, hm⟩ := Radix.exists_mnemonic_of_literal h
    rw [Radix.literal_eq_some_iff hm hstripped, fitsWord_iff] at h
    exact ⟨r, hm, h⟩
  · intro h
    obtain ⟨r, hm, hvalue⟩ := h
    rw [Radix.literal_eq_some_iff hm hstripped, fitsWord_iff]
    exact hvalue

/-- The cell and the line of a literal statement say the same. -/
structure LiteralAgrees (l : Line) (c : Cell) (r : Radix) : Prop where
  operand : c.operand = l.operand
  rejected : c.literal = .ok none ↔ l.operandProblem = .ok (some r.invalidLiteral)
  accepted : (∃ v, c.literal = .ok (some v)) ↔ l.operandProblem = .ok none
  failed : ∀ e, c.literal = .error e ↔ l.operandProblem = .error (.digits e)
  value : ∀ v, c.literal = .ok (some v) ↔
    (-32768 ≤ v ∧ v ≤ 32767) ∧ r.Denotes l.operand v

private theorem literalAgrees_cell (hm : l.mnemonic? = some r.mnemonic) (symbols : Table Text Nat) :
    l.LiteralAgrees (l.cell symbols) r := by
  have hproblem := operandProblem_of_literal hm
  refine ⟨cell_operand_verbatim (not_isReference_of_literal hm) symbols, ?_, ?_, ?_, ?_⟩
  · rw [literal_cell, hproblem]
    rcases literal l.mnemonic l.operand with e | _ | v <;> simp
  · rw [literal_cell, hproblem]
    rcases literal l.mnemonic l.operand with e | _ | v <;> simp
  · intro e
    rw [literal_cell, hproblem]
    rcases literal l.mnemonic l.operand with e' | _ | v <;> simp
  · intro v
    have hstripped : Text.strip l.operand = l.operand := Text.strip_strip _
    rw [literal_cell, Radix.literal_eq_some_iff hm hstripped, fitsWord_iff]

end Line

/-- Every literal statement that is laid out is judged alike on its line and in its cell, and where
it stays in memory a reference leads to it exactly if its operand is accepted. -/
theorem literal_views_agree (text : Text) (address : Nat) (l : Line) (r : Radix)
    (hlaid : LaidOut (sourceLines text) address l) (hm : l.mnemonic? = some r.mnemonic) :
    let lines := sourceLines text
    let symbols := (resolve lines).symbols
    let image := (load lines (resolve lines)).image
    l.LiteralAgrees (l.cell symbols) r ∧
    (address < memorySize → (∀ later, LaidOut lines address later → later.index ≤ l.index) →
      image.cell address = l.cell symbols ∧
      (image.leadsToLiteral address false = .ok true ↔ l.operandProblem = .ok none)) := by
  intro lines symbols image
  have hagrees := Line.literalAgrees_cell hm symbols
  refine ⟨hagrees, ?_⟩
  intro hinside hlast
  have hcell : image.cell address = l.cell symbols :=
    cell_load_of_latest (resolve lines) hinside ⟨hlaid, hlast⟩
  have haddress : isAddress (address : Int) = true := isAddress_natCast_iff.mpr hinside
  refine ⟨hcell, ?_⟩
  rw [Image.leadsToLiteral_iff, ← hagrees.accepted, ← hcell]
  simp [Image.LeadsToLiteral, Image.HoldsLiteral, haddress]

/-- Two separators, blanks of other kinds and what follows the digits make no difference. -/
theorem literal_behind_two_separators :
    let text := Text.ofString "V,W,\tDEC \u3000-12abc"
    let l : Line := ⟨0, text⟩
    let r := resolve (sourceLines text)
    LaidOut (sourceLines text) 0 l ∧ l.mnemonic? = some Radix.decimal.mnemonic ∧
      (l.cell r.symbols).literal = .ok (some (-12)) ∧ l.operandProblem = .ok none ∧
      (load (sourceLines text) r).image.leadsToLiteral 0 false = .ok true := by
  intro text l r
  have hlatest : Latest Line.index (LaidOut (sourceLines text) 0) l :=
    latest_of_statements (by decide +kernel) (by decide +kernel)
  have hm : l.mnemonic? = some Radix.decimal.mnemonic := by decide +kernel
  obtain ⟨hagrees, hstored⟩ := literal_views_agree text 0 l .decimal hlatest.holds hm
  have hvalue : (l.cell r.symbols).literal = .ok (some (-12)) := by decide +kernel
  have haccepted := hagrees.accepted.mp ⟨-12, hvalue⟩
  exact ⟨hlatest.holds, hm, hvalue, haccepted,
    (hstored (by decide) hlatest.last).2.mpr haccepted⟩

end TeachAsm
