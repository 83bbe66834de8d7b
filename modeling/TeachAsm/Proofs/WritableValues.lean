import TeachAsm.Json.Misuse
import TeachAsm.Json.Parser
import TeachAsm.Number.Integer
import TeachAsm.Proofs.Numerals

/-!
# Values that can be written

What is read has integers that can be written again. Decimal digits are read up to the number that
is written, in a text that is an integer as in the body of a message; a number with a fraction or an
exponent is far smaller, since the format ends at about `10 ^ 308`.
-/

namespace TeachAsm

theorem Radix.isWritable_iff {n : Int} :
    Radix.isWritable n = true ↔ n.natAbs < 10 ^ digitLimit := by
  rw [isWritable, decide_eq_true_iff]
  exact Nat.length_toDigits_le_iff (by decide) (by decide)

private theorem natAbs_withSign (negative : Bool) (n : Nat) : (withSign negative n).natAbs = n := by
  cases negative <;> simp [withSign]

private theorem isWritable_withSign {negative : Bool} {n : Nat} (h : n < 10 ^ digitLimit) :
    Radix.isWritable (withSign negative n) = true := by
  rw [Radix.isWritable_iff, natAbs_withSign]
  exact h

private theorem foldl_digits_lt {digits : List Nat} (h : ∀ d ∈ digits, d < 10) (n : Nat) :
    digits.foldl (fun n d => 10 * n + d) n < (n + 1) * 10 ^ digits.length := by
  induction digits generalizing n with
  | nil => simp
  | cons d rest ih =>
      obtain ⟨hd, hrest⟩ := List.forall_mem_cons.mp h
      rw [List.foldl_cons, List.length_cons]
      calc rest.foldl (fun n d => 10 * n + d) (10 * n + d)
        _ < (10 * n + d + 1) * 10 ^ rest.length := ih hrest _
        _ ≤ ((n + 1) * 10) * 10 ^ rest.length := Nat.mul_le_mul_right _ (by omega)
        _ = (n + 1) * 10 ^ (rest.length + 1) := by rw [Nat.pow_succ, Nat.mul_assoc, Nat.mul_comm 10]

private theorem Radix.value_decimal_lt (digits : Text) :
    Radix.decimal.value digits < 10 ^ digits.length := by
  have hdigit : ∀ d ∈ digits.map fun c => (Radix.decimal.digit? c).getD 0, d < 10 := by
    intro d hd
    obtain ⟨c, -, rfl⟩ := List.mem_map.mp hd
    simp only [Radix.digit?, reduceCtorEq, false_and, if_false]
    split
    · simp only [Option.getD_some]
      omega
    · decide
  have hvalue := foldl_digits_lt hdigit 0
  simpa [Radix.value, Radix.base, List.foldl_map, Nat.mul_comm] using hvalue

namespace Integer

private theorem digit?_lt {c : CodePoint} {d : Nat} (h : digit? c = some d) : d < 10 := by
  rw [digit?, Option.map_eq_some_iff] at h
  obtain ⟨first, hfirst, rfl⟩ := h
  have hrange := List.find?_some hfirst
  simp only [Bool.and_eq_true, decide_eq_true_eq] at hrange
  omega

private theorem digits?_lt {pending : Bool} {s : Text} {digits : List Nat}
    (h : digits? pending s = some digits) : ∀ d ∈ digits, d < 10 := by
  induction s generalizing pending digits with
  | nil =>
      cases pending with
      | true => cases h
      | false =>
          cases h
          intro d hd
          cases hd
  | cons c rest ih =>
      rw [digits?] at h
      split at h
      · next first hfirst =>
          rw [Option.map_eq_some_iff] at h
          obtain ⟨later, hlater, rfl⟩ := h
          exact List.forall_mem_cons.mpr ⟨digit?_lt hfirst, ih hlater⟩
      · split at h
        · exact ih h
        · cases h

theorem isWritable_of_read? {s : Text} {n : Int} (h : read? s = some n) :
    Radix.isWritable n = true := by
  unfold read? at h
  dsimp only at h
  split at h
  · cases h
  · next digits hdigits =>
      split at h
      · cases h
      · next hshort =>
          cases h
          apply isWritable_withSign
          have hvalue := foldl_digits_lt (digits?_lt hdigits) 0
          rw [Nat.zero_add, Nat.one_mul] at hvalue
          exact hvalue.trans_le (Nat.pow_le_pow_right (by decide) (Nat.le_of_not_lt hshort))

end Integer

namespace Binary64

/-- The integer part of the number `mantissa * 2 ^ exponent`. -/
def wholePart (mantissa : Nat) (exponent : Int) : Nat :=
  (scale 2 mantissa 1 exponent).1 / (scale 2 mantissa 1 exponent).2

private theorem natAbs_truncate? {negative : Bool} {mantissa : Nat} {exponent n : Int}
    (h : (finite negative mantissa exponent).truncate? = some n) :
    n.natAbs = wholePart mantissa exponent := by
  simp only [truncate?, Option.some.injEq] at h
  rw [← h]
  split
  · exact (Int.natAbs_neg _).trans (Int.natAbs_natCast _)
  · exact Int.natAbs_natCast _

private theorem scale_of_nonneg (base n d : Nat) {k : Int} (h : 0 ≤ k) :
    scale base n d k = (n * base ^ k.toNat, d) := by
  rw [scale, if_pos h]
  rfl

private theorem scale_of_neg (base n d : Nat) {k : Int} (h : k < 0) :
    scale base n d k = (n, d * base ^ (-k).toNat) := by
  rw [scale, if_neg (Int.not_le.mpr h)]
  rfl

private theorem wholePart_of_nonneg (mantissa : Nat) {exponent : Int} (h : 0 ≤ exponent) :
    wholePart mantissa exponent = mantissa * 2 ^ exponent.toNat := by
  rw [wholePart, scale_of_nonneg _ _ _ h, Nat.div_one]

private theorem wholePart_of_neg (mantissa : Nat) {exponent : Int} (h : exponent < 0) :
    wholePart mantissa exponent = mantissa / 2 ^ (-exponent).toNat := by
  rw [wholePart, scale_of_neg _ _ _ h, Nat.one_mul]

/-- A mantissa that was rounded up to one bit more is halved, and the number stays the same. -/
private theorem wholePart_succ (mantissa : Nat) (exponent : Int) :
    wholePart mantissa (exponent + 1) = wholePart (2 * mantissa) exponent := by
  rcases Int.lt_or_le exponent 0 with hneg | hnonneg
  · rw [wholePart_of_neg _ hneg]
    have hpower : (-exponent).toNat = (-(exponent + 1)).toNat + 1 := by omega
    rw [hpower, Nat.pow_succ, Nat.mul_comm _ 2, Nat.mul_div_mul_left _ _ (by decide)]
    rcases Int.lt_or_le (exponent + 1) 0 with hneg' | hnonneg'
    · exact wholePart_of_neg _ hneg'
    · have hzero : exponent + 1 = 0 := by omega
      rw [wholePart_of_nonneg _ hnonneg', hzero]
      simp
  · have hpower : (exponent + 1).toNat = exponent.toNat + 1 := by omega
    rw [wholePart_of_nonneg _ hnonneg, wholePart_of_nonneg _ (by omega), hpower, Nat.pow_succ,
      Nat.mul_comm _ 2, Nat.mul_left_comm, Nat.mul_assoc]

private theorem roundDiv_le (n d : Nat) : roundDiv n d ≤ n / d + 1 := by
  unfold roundDiv
  dsimp only
  split
  · omega
  · split
    · omega
    · split <;> omega

/-- A mantissa that is rounded adds at most one unit in its last place to the fraction. -/
private theorem wholePart_roundDiv_le (n d : Nat) (exponent : Int) :
    wholePart (roundDiv (scale 2 n d (-exponent)).1 (scale 2 n d (-exponent)).2) exponent ≤
      n / d + 2 ^ exponent.toNat := by
  rcases Int.lt_or_le exponent 0 with hneg | hnonneg
  · rw [wholePart_of_neg _ hneg, scale_of_nonneg _ _ _ (by omega)]
    generalize (-exponent).toNat = k
    have hpos : 0 < 2 ^ k := Nat.pow_pos (by decide)
    have hround := roundDiv_le (n * 2 ^ k) d
    have hwhole : n * 2 ^ k / d / 2 ^ k = n / d := by
      rw [Nat.div_div_eq_div_mul, Nat.mul_div_mul_right _ _ hpos]
    calc roundDiv (n * 2 ^ k) d / 2 ^ k
      _ ≤ (n * 2 ^ k / d + 2 ^ k) / 2 ^ k := Nat.div_le_div_right (by omega)
      _ = n / d + 1 := by rw [Nat.add_div_right _ hpos, hwhole]
      _ ≤ n / d + 2 ^ exponent.toNat := Nat.add_le_add_left Nat.one_le_two_pow _
  · rw [wholePart_of_nonneg _ hnonneg]
    have hscale : scale 2 n d (-exponent) = (n, d * 2 ^ exponent.toNat) := by
      rcases Int.lt_or_eq_of_le hnonneg with hpos | rfl
      · rw [scale_of_neg _ _ _ (by omega), Int.neg_neg]
      · rw [scale_of_nonneg _ _ _ (by decide)]
        simp
    rw [hscale]
    generalize exponent.toNat = k
    calc roundDiv n (d * 2 ^ k) * 2 ^ k
      _ ≤ (n / (d * 2 ^ k) + 1) * 2 ^ k := Nat.mul_le_mul_right _ (roundDiv_le _ _)
      _ = n / d / 2 ^ k * 2 ^ k + 2 ^ k := by rw [Nat.add_mul, Nat.one_mul, Nat.div_div_eq_div_mul]
      _ ≤ n / d + 2 ^ k := Nat.add_le_add_right (Nat.div_mul_le_self _ _) _

private theorem natAbs_truncate?_ofFraction {negative : Bool} {n d : Nat} {k : Int}
    (h : (ofFraction negative n d).truncate? = some k) :
    k.natAbs ≤ n / d + 2 ^ maxExponent.toNat := by
  have hbound {mantissa : Nat} {exponent : Int} (hexponent : exponent ≤ maxExponent)
      (hround : wholePart mantissa exponent ≤ n / d + 2 ^ exponent.toNat)
      (hk : (finite negative mantissa exponent).truncate? = some k) :
      k.natAbs ≤ n / d + 2 ^ maxExponent.toNat := by
    have hpower : 2 ^ exponent.toNat ≤ 2 ^ maxExponent.toNat :=
      Nat.pow_le_pow_right (by decide) (Int.toNat_le_toNat hexponent)
    rw [natAbs_truncate? hk]
    omega
  unfold ofFraction at h
  split at h
  · rw [zero] at h
    apply hbound (by decide) _ h
    rw [wholePart_of_neg _ (by decide), Nat.zero_div]
    exact Nat.zero_le _
  · dsimp only at h
    generalize max minExponent _ = exponent at h
    have hround := wholePart_roundDiv_le n d exponent
    generalize roundDiv _ _ = mantissa at h hround
    split at h
    · next hfull =>
        rw [hfull, ← wholePart_succ] at hround
        dsimp only at h
        split at h
        · cases h
        · next hexponent =>
            have hpower : 2 ^ exponent.toNat ≤ 2 ^ (exponent + 1).toNat :=
              Nat.pow_le_pow_right (by decide) (by omega)
            exact hbound (Int.not_lt.mp hexponent) (by omega) h
    · dsimp only at h
      split at h
      · cases h
      · next hexponent => exact hbound (Int.not_lt.mp hexponent) hround h

private theorem lt_pow_length_toDigits (n : Nat) : n < 10 ^ (Nat.toDigits 10 n).length :=
  (Nat.length_toDigits_le_iff (by decide) Nat.length_toDigits_pos).mp (Nat.le_refl _)

private theorem scale_decimal_lt {digits bound : Nat} {power : Int}
    (h : power + (Nat.toDigits 10 digits).length ≤ bound) :
    (scale 10 digits 1 power).1 / (scale 10 digits 1 power).2 < 10 ^ bound := by
  have hdigits := lt_pow_length_toDigits digits
  generalize (Nat.toDigits 10 digits).length = length at h hdigits
  rcases Int.lt_or_le power 0 with hneg | hnonneg
  · rw [scale_of_neg _ _ _ hneg, Nat.one_mul]
    apply Nat.div_lt_of_lt_mul
    rw [Nat.mul_comm, ← Nat.pow_add]
    exact hdigits.trans_le (Nat.pow_le_pow_right (by decide) (by omega))
  · rw [scale_of_nonneg _ _ _ hnonneg, Nat.div_one]
    calc digits * 10 ^ power.toNat
      _ < 10 ^ length * 10 ^ power.toNat :=
          Nat.mul_lt_mul_of_pos_right hdigits (Nat.pow_pos (by decide))
      _ = 10 ^ (length + power.toNat) := (Nat.pow_add _ _ _).symm
      _ ≤ 10 ^ bound := Nat.pow_le_pow_right (by decide) (by omega)

/-- A decimal is written with few digits before its point, whatever number is nearest to it. -/
theorem isWritable_truncate?_ofDecimal {negative : Bool} {digits : Nat} {power n : Int}
    (h : (ofDecimal negative digits power).truncate? = some n) : Radix.isWritable n = true := by
  rw [Radix.isWritable_iff]
  unfold ofDecimal at h
  dsimp only at h
  split at h
  · rw [zero] at h
    rw [natAbs_truncate? h, wholePart_of_neg _ (by decide), Nat.zero_div]
    exact Nat.pow_pos (by decide)
  · split at h
    · cases h
    · next hpoint =>
        have hscale := @scale_decimal_lt digits 400 power (Int.not_lt.mp hpoint)
        have hfraction := natAbs_truncate?_ofFraction h
        have hsum : 10 ^ 400 + 2 ^ maxExponent.toNat < 10 ^ digitLimit := by decide +kernel
        exact (hfraction.trans_lt (Nat.add_lt_add_right hscale _)).trans hsum

end Binary64

namespace Json

/-- The integers of the value, and the integer parts of its numbers, can be written. -/
inductive Writable : Json → Prop
  | null : Writable .null
  | bool (b : Bool) : Writable (.bool b)
  | int {n : Int} (writable : Radix.isWritable n = true) : Writable (.int n)
  | real {x : Binary64} (writable : ∀ n, x.truncate? = some n → Radix.isWritable n = true) :
      Writable (.real x)
  | str (s : Text) : Writable (.str s)
  | arr {items : List Json} (writable : ∀ a ∈ items, Writable a) : Writable (.arr items)
  | obj {members : List (Text × Json)} (writable : ∀ e ∈ members, Writable e.2) :
      Writable (.obj members)

theorem Writable.find? {members : List (Text × Json)} (h : Writable (.obj members)) {name : String}
    {v : Json} (hv : Json.find? name members = some v) : v.Writable := by
  cases h with
  | obj writable => exact writable _ (Table.mem_of_find? hv)

private theorem decimalValue_lt {digits : List Char} (h : ¬ digitLimit < digits.length) :
    decimalValue digits < 10 ^ digitLimit := by
  have hvalue := Radix.value_decimal_lt (.ofChars digits)
  rw [Text.length_ofChars] at hvalue
  exact hvalue.trans_le (Nat.pow_le_pow_right (by decide) (Nat.le_of_not_lt h))

private theorem writable_number {s rest : List Char} {v : Json} (h : number s = .ok (v, rest)) :
    v.Writable := by
  unfold number at h
  split at h
  -- the sign does not count
  all_goals
    dsimp only at h
    split at h
    · cases h
    · split at h
      · split at h
        · cases h
        · next hshort =>
            cases h
            exact .int (isWritable_withSign (decimalValue_lt hshort))
      · cases h
        exact .real fun _ => Binary64.isWritable_truncate?_ofDecimal

private theorem writable_names {s : List Char} {name : List Char} {v : Json}
    (h : names.find? (fun e => e.1.isPrefixOf s) = some (name, v)) : v.Writable := by
  have hmem := List.mem_of_find?_eq_some h
  simp only [names, List.mem_cons, List.not_mem_nil, or_false, Prod.mk.injEq] at hmem
  rcases hmem with ⟨-, rfl⟩ | ⟨-, rfl⟩ | ⟨-, rfl⟩ | ⟨-, rfl⟩ | ⟨-, rfl⟩ | ⟨-, rfl⟩
  · exact .null
  · exact .bool true
  · exact .bool false
  all_goals
    refine .real fun n hn => ?_
    cases hn

/-- What the reader gives is writable, and so are the items and the members that it collects. -/
private theorem writable_of_fuel (fuel : Nat) :
    (∀ room s v rest, value fuel room s = .ok (v, rest) → v.Writable) ∧
    (∀ room read s v rest, (∀ a ∈ read, a.Writable) → items fuel room read s = .ok (v, rest) →
      v.Writable) ∧
    ∀ room read s v rest, (∀ e ∈ read, e.2.Writable) → members fuel room read s = .ok (v, rest) →
      v.Writable := by
  induction fuel with
  | zero => exact ⟨nofun, nofun, nofun⟩
  | succ fuel ih =>
      obtain ⟨hvalue, hitems, hmembers⟩ := ih
      refine ⟨?_, ?_, ?_⟩
      · intro room s v rest h
        unfold value at h
        split at h
        · split at h
          · cases h
          · cases h
            exact .str _
        · split at h
          · cases h
          · cases h
            exact .arr (List.forall_mem_nil _)
          · exact hitems _ _ _ _ _ (List.forall_mem_nil _) h
        · split at h
          · cases h
          · cases h
            exact .obj (List.forall_mem_nil _)
          · exact hmembers _ _ _ _ _ (List.forall_mem_nil _) h
        · split at h
          · next hname =>
              cases h
              exact writable_names hname
          · exact writable_number h
      · intro room read s v rest hread h
        unfold items at h
        split at h
        · cases h
        · next first after hfirst =>
            have hcons := List.forall_mem_cons.mpr ⟨hvalue _ _ _ _ hfirst, hread⟩
            split at h
            · exact hitems _ _ _ _ _ hcons h
            · cases h
              exact .arr fun a ha => hcons a (List.mem_reverse.mp ha)
            · cases h
      · intro room read s v rest hread h
        unfold members at h
        split at h
        · split at h
          · cases h
          · split at h
            · split at h
              · cases h
              · next first after hfirst =>
                  have hput (key : Text) : ∀ e ∈ Table.put key first read, e.2.Writable := by
                    intro e he
                    rcases Table.mem_of_mem_put he with rfl | he
                    · exact hvalue _ _ _ _ hfirst
                    · exact hread e he
                  dsimp only at h
                  split at h
                  · exact hmembers _ _ _ _ _ (hput _) h
                  · cases h
                    exact .obj (hput _)
                  · cases h
            · cases h
        · cases h

theorem writable_of_parse {nesting : Nat} {s : List Char} {v : Json}
    (h : parse nesting s = .ok v) : v.Writable := by
  unfold parse at h
  split at h
  · cases h
  · split at h
    · cases h
    · next first rest hfirst =>
        split at h
        · cases h
          exact (writable_of_fuel _).1 _ _ _ _ hfirst
        · cases h

theorem Writable.member {v : Json} (h : v.Writable) {name : String} {a : Json}
    (ha : v.member name = .ok (some a)) : a.Writable := by
  cases v with
  | obj members => exact h.find? (Except.ok.inj ha)
  | _ => cases ha

theorem Writable.orEmpty {members : List (Text × Json)} (h : Writable (.obj members))
    (name : String) : (orEmpty (Json.find? name members)).Writable := by
  have hempty : (Json.obj []).Writable := .obj (List.forall_mem_nil _)
  unfold Json.orEmpty
  split
  · next hfound =>
      split
      · exact h.find? hfound
      · exact hempty
  · exact hempty

end Json

end TeachAsm
