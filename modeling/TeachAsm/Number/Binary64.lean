/-!
# Double precision numbers

A finite number is a signed mantissa below `2 ^ 53` times a power of two that is at least
`2 ^ -1074`. Decimals are rounded to the nearest number, and a tie goes to the even mantissa.
-/

namespace TeachAsm

inductive Binary64 where
  /-- The number `mantissa * 2 ^ exponent`, or its negative. -/
  | finite (negative : Bool) (mantissa : Nat) (exponent : Int)
  | infinity (negative : Bool)
  | nan
deriving DecidableEq, Repr

/-- The quotient rounded to the nearest integer, a tie to the even one. -/
def roundDiv (n d : Nat) : Nat :=
  let q := n / d
  let r := 2 * (n % d)
  if r < d then q else if d < r then q + 1 else if q % 2 = 0 then q else q + 1

/-- The fraction `n / d` times `base ^ k`, as a numerator and a denominator. -/
def scale (base n d : Nat) (k : Int) : Nat × Nat :=
  if 0 ≤ k then (n * base.pow k.toNat, d) else (n, d * base.pow (-k).toNat)

namespace Binary64

def minExponent : Int := -1074

def maxExponent : Int := 971

/-- The least mantissa that uses all 53 bits, which is `2 ^ 52`. -/
def fullMantissa : Nat := 4503599627370496

def zero (negative : Bool) : Binary64 := finite negative 0 minExponent

def ofFraction (negative : Bool) (n d : Nat) : Binary64 :=
  if n = 0 then zero negative
  else
    let guess : Int := (Nat.log2 n : Int) - Nat.log2 d - 52
    let (gn, gd) := scale 2 n d (-guess)
    let exponent := max minExponent (if gn < fullMantissa * gd then guess - 1 else guess)
    let (sn, sd) := scale 2 n d (-exponent)
    let mantissa := roundDiv sn sd
    let (mantissa, exponent) :=
      if mantissa = 2 * fullMantissa then (fullMantissa, exponent + 1) else (mantissa, exponent)
    if maxExponent < exponent then infinity negative else finite negative mantissa exponent

/-- The number nearest to `digits * 10 ^ power`. Far outside the range of the format the fraction
is not built. -/
def ofDecimal (negative : Bool) (digits : Nat) (power : Int) : Binary64 :=
  let point : Int := power + (Nat.toDigits 10 digits).length
  if digits = 0 ∨ point < -400 then zero negative
  else if 400 < point then infinity negative
  else
    let (n, d) := scale 10 digits 1 power
    ofFraction negative n d

def truncate? : Binary64 → Option Int
  | finite negative mantissa exponent =>
    let (n, d) := scale 2 mantissa 1 exponent
    some (if negative then -((n / d : Nat) : Int) else (n / d : Nat))
  | _ => none

def isIntegral : Binary64 → Bool
  | finite _ mantissa exponent =>
    let (n, d) := scale 2 mantissa 1 exponent
    n % d == 0
  | _ => false

def isZero : Binary64 → Bool
  | finite _ mantissa _ => mantissa == 0
  | _ => false

def isBelow (x : Binary64) (bound : Nat) : Bool :=
  match x with
  | finite negative mantissa exponent =>
    let (n, d) := scale 2 mantissa 1 exponent
    (!negative || mantissa == 0) && n / d < bound
  | _ => false

/-- How many powers of ten a fraction below one lacks to reach one; `fuel` bounds the search. -/
def shiftToOne : Nat → Nat → Nat → Nat
  | 0, _, _ => 0
  | fuel + 1, n, d => if d ≤ n then 0 else shiftToOne fuel (10 * n) d + 1

/-- The place of the decimal point: the fraction is at least `10 ^ (point - 1)` and below
`10 ^ point`. -/
def pointOf (n d : Nat) : Int :=
  if d ≤ n then ((Nat.toDigits 10 (n / d)).length : Int) else 1 - (shiftToOne 400 n d : Nat)

/-- A decimal of `count` digits that reads back as the positive number `x`, the nearer one if two
do: an integer and the power of ten that it is multiplied with. -/
def decimalOf? (x : Binary64) (n d : Nat) (count : Nat) : Option (Nat × Int) :=
  let shift : Int := count - pointOf n d
  let (sn, sd) := scale 10 n d shift
  let low := sn / sd
  let rest := 2 * (sn % sd)
  let reads (digits : Nat) : Bool := ofDecimal false digits (-shift) == x
  let nearer := if rest < sd ∨ (rest = sd ∧ low % 2 = 0) then low else low + 1
  let farther := if nearer = low then low + 1 else low
  if reads nearer then some (nearer, -shift)
  else if reads farther then some (farther, -shift)
  else none

def shortestFrom (x : Binary64) (n d : Nat) : List Nat → Nat × Int
  | [] => (0, 0)
  | count :: rest => (decimalOf? x n d count).getD (shortestFrom x n d rest)

/-- The fewest digits that read back, without trailing zeros, and the place of the decimal point
before them. -/
def shortest (mantissa : Nat) (exponent : Int) : List Char × Int :=
  let (n, d) := scale 2 mantissa 1 exponent
  let counts := (List.range 17).map (· + 1)
  let (digits, power) := shortestFrom (finite false mantissa exponent) n d counts
  let written := Nat.toDigits 10 digits
  let trimmed := (written.reverse.dropWhile (· == '0')).reverse
  (trimmed, power + written.length)

/-- The decimal text of a positive number. Between `10 ^ -4` and `10 ^ 16` it is positional and has
a digit after the point; outside it has an exponent of at least two digits. -/
def renderPositive (mantissa : Nat) (exponent : Int) : List Char :=
  let (digits, point) := shortest mantissa exponent
  if point < -3 ∨ 16 < point then
    let power := point - 1
    let powerDigits := Nat.toDigits 10 power.natAbs
    let fraction := match digits with
      | [] => []
      | [d] => [d]
      | d :: rest => d :: '.' :: rest
    fraction ++ 'e' :: (if power < 0 then '-' else '+') ::
      (List.replicate (2 - powerDigits.length) '0' ++ powerDigits)
  else if point ≤ 0 then '0' :: '.' :: (List.replicate (-point).toNat '0' ++ digits)
  else
    let whole := point.toNat
    if digits.length ≤ whole then
      digits ++ List.replicate (whole - digits.length) '0' ++ ['.', '0']
    else digits.take whole ++ '.' :: digits.drop whole

def render? : Binary64 → Option (List Char)
  | finite negative mantissa exponent =>
    some ((if negative then ['-'] else []) ++
      (if mantissa = 0 then ['0', '.', '0'] else renderPositive mantissa exponent))
  | _ => none

end Binary64

end TeachAsm
