import TeachAsm.Number.Integer
import TeachAsm.Proofs.Numerals
import TeachAsm.Proofs.Spacing

/-!
# Whole integers

An integer that fills a text, in either radix: between padding, at most one sign and one or more
digits, where a single underscore may stand between two digits. Decimal digits may be of any script,
and hexadecimal digits may start with `0x`. The reader of settings and headers is the decimal one.
Digits of the radix alone are read with the value of their run.
-/

namespace TeachAsm.Integer

def digitOf? (r : Radix) (c : CodePoint) : Option Nat := (r.digit? c).or (digit? c)

/-- The digits of a text in which single underscores stand between digits; `pending` tells that a
digit has to come next. -/
def digitsOf? (r : Radix) : Bool → Text → Option (List Nat)
  | pending, [] => if pending then none else some []
  | pending, c :: rest =>
    match digitOf? r c with
    | some d => (digitsOf? r false rest).map (d :: ·)
    | none => if c == '_' && !pending then digitsOf? r true rest else none

def dropMark (r : Radix) : Text → Text
  | zero :: mark :: rest =>
    if r = .hexadecimal ∧ digit? zero = some 0 ∧ (mark = 'x' ∨ mark = 'X') then
      match rest with
      | .char '_' :: digits => digits
      | digits => digits
    else zero :: mark :: rest
  | s => s

/-- The integer that a text as a whole denotes in a radix; too many decimal digits denote none. -/
def whole? (r : Radix) (s : Text) : Option Int :=
  let (negative, rest) := takeSign (Text.trimEnd isPadding (s.dropWhile isPadding))
  match digitsOf? r true (dropMark r rest) with
  | none => none
  | some digits =>
    if r = .decimal ∧ digitLimit < digits.length then none
    else some (withSign negative (digits.foldl (fun n d => r.base * n + d) 0))

private theorem digit?_of_decimal {c : CodePoint} {d : Nat} (h : Radix.decimal.digit? c = some d) :
    digit? c = some d := by
  have hrange : (48 ≤ c.toNat ∧ c.toNat ≤ 57) ∧ c.toNat - 48 = d := by
    simpa [Radix.digit?] using h
  have hfirst : zeros.find? (fun z => z ≤ c.toNat && c.toNat < z + 10) = some 0x30 := by
    apply List.find?_cons_of_pos
    simp only [Bool.and_eq_true, decide_eq_true_eq]
    omega
  rw [digit?, hfirst, Option.map_some, hrange.2]

private theorem digitOf?_decimal (c : CodePoint) : digitOf? .decimal c = digit? c := by
  rw [digitOf?]
  cases h : Radix.decimal.digit? c with
  | none => rfl
  | some d => exact (digit?_of_decimal h).symm

private theorem digitsOf?_decimal (pending : Bool) (s : Text) :
    digitsOf? .decimal pending s = digits? pending s := by
  induction s generalizing pending with
  | nil => rfl
  | cons c rest ih =>
      rw [digitsOf?, digits?, digitOf?_decimal]
      cases digit? c with
      | some d => exact congrArg (Option.map (d :: ·)) (ih false)
      | none => exact congrArg (fun t => if c == '_' && !pending then t else none) (ih true)

private theorem whole?_decimal (s : Text) : whole? .decimal s = read? s := by
  have hmark (t : Text) : dropMark .decimal t = t := by
    unfold dropMark
    split <;> simp
  unfold whole? read?
  generalize takeSign (Text.trimEnd isPadding (s.dropWhile isPadding)) = parts
  obtain ⟨negative, rest⟩ := parts
  dsimp only
  rw [hmark, digitsOf?_decimal]
  cases digits? true rest with
  | none => rfl
  | some digits => simp [Radix.base]

variable {r : Radix}

private theorem digitsOf?_of_digits {s : Text} (h : ∀ c ∈ s, r.isDigit c = true) (hne : s ≠ [])
    (pending : Bool) :
    digitsOf? r pending s = some (s.map fun c => (r.digit? c).getD 0) := by
  induction s generalizing pending with
  | nil => exact absurd rfl hne
  | cons c rest ih =>
      obtain ⟨d, hd⟩ := Option.isSome_iff_exists.mp (h c List.mem_cons_self)
      have hdigit : digitOf? r c = some d := by simp [digitOf?, hd]
      rw [digitsOf?, hdigit]
      cases rest with
      | nil => simp [digitsOf?, hd]
      | cons c' rest =>
          rw [ih (fun c hc => h c (List.mem_cons_of_mem _ hc)) (by simp) false]
          simp [hd]

private theorem dropMark_of_digits {s : Text} (h : ∀ c ∈ s, r.isDigit c = true) :
    dropMark r s = s := by
  unfold dropMark
  split
  · next zero mark rest =>
      have hmark : r.isDigit mark = true := h mark (by simp)
      have hletters : r.isDigit (.char 'x') = false ∧ r.isDigit (.char 'X') = false := by
        cases r <;> decide
      rw [if_neg]
      rintro ⟨-, -, rfl | rfl⟩
      · rw [hletters.1] at hmark
        cases hmark
      · rw [hletters.2] at hmark
        cases hmark
  · rfl

private theorem isBlank_of_isPadding {c : CodePoint} (h : isPadding c = true) :
    Text.isBlank c = true := by
  simp only [isPadding, Bool.or_eq_true, Bool.and_eq_true, decide_eq_true_eq, beq_iff_eq] at h
  rcases h with (hcontrol | hspace) | hother
  · simp [Text.isBlank, hcontrol]
  · simp [Text.isBlank, hspace]
  · exact hother.2

private theorem trim_padding {s indent tail : Text} (h : Text.Solid s)
    (hindent : ∀ c ∈ indent, isPadding c = true) (htail : ∀ c ∈ tail, isPadding c = true) :
    Text.trimEnd isPadding ((indent ++ (s ++ tail)).dropWhile isPadding) = s := by
  have hkeep {c : CodePoint} (hc : Text.isBlank c = false) : isPadding c = false := by
    rw [Bool.eq_false_iff]
    intro hpadding
    rw [isBlank_of_isPadding hpadding] at hc
    cases hc
  have hleft : (s ++ tail).dropWhile isPadding = s ++ tail := by
    obtain ⟨⟨c, rest, rfl, hc⟩, -⟩ := h
    simp [hkeep hc]
  rw [List.dropWhile_append_of_pos hindent, hleft, Text.trimEnd_append s htail]
  obtain ⟨-, front, d, rfl, hd⟩ := h
  exact Text.trimEnd_concat front (hkeep hd)

theorem whole?_of_takeSign {s digits indent tail : Text} {negative : Bool} (h : Text.Solid s)
    (hindent : ∀ c ∈ indent, isPadding c = true) (htail : ∀ c ∈ tail, isPadding c = true)
    (hsign : takeSign s = (negative, digits)) (hdigits : ∀ c ∈ digits, r.isDigit c = true)
    (hne : digits ≠ []) (hshort : r = .decimal → digits.length ≤ digitLimit) :
    whole? r (indent ++ (s ++ tail)) = some (withSign negative (r.value digits)) := by
  have hvalue : (digits.map fun c => (r.digit? c).getD 0).foldl (fun n d => r.base * n + d) 0 =
      r.value digits := by
    simp only [Radix.value, List.foldl_map, Nat.mul_comm]
  have hlimit : ¬ (r = .decimal ∧
      digitLimit < (digits.map fun c => (r.digit? c).getD 0).length) := by
    rw [List.length_map]
    intro h
    exact absurd (hshort h.1) (Nat.not_le_of_lt h.2)
  simp only [whole?, trim_padding h hindent htail, hsign, dropMark_of_digits hdigits,
    digitsOf?_of_digits hdigits hne true, hlimit, if_false, hvalue]

theorem read?_of_decimal {s : Text} (h : ∀ c ∈ s, Radix.decimal.isDigit c = true)
    (hne : s ≠ []) (hshort : s.length ≤ digitLimit) :
    read? s = some (Radix.decimal.value s : Int) := by
  have hword : Text.IsWord s := ⟨hne, fun c hc => Radix.not_isBlank_of_isDigit (h c hc)⟩
  have hnone : ∀ c ∈ ([] : Text), isPadding c = true := List.forall_mem_nil _
  have hwhole := whole?_of_takeSign hword.solid hnone hnone (Radix.takeSign_of_digits h) h hne
    fun _ => hshort
  rw [List.nil_append, List.append_nil, whole?_decimal] at hwhole
  exact hwhole

end TeachAsm.Integer
