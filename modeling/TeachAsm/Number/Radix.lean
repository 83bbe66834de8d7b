import TeachAsm.Text.Basic

/-!
# Leading integers

A number is read from the front of a text: blanks, at most one sign, and the longest run of ASCII
digits of the radix. What follows the run is ignored. Decimal runs have a length limit, when they
are read and when they are written.
-/

namespace TeachAsm

inductive Radix where
  | decimal
  | hexadecimal
deriving DecidableEq, Repr

structure TooManyDigits where
  count : Nat
deriving DecidableEq, Repr

/-- The longest run of decimal digits that is read as a number, or written for one. -/
def digitLimit : Nat := 4300

def TooManyDigits.message (e : TooManyDigits) : String :=
  s!"Exceeds the limit ({digitLimit} digits) for integer string conversion: value has " ++
    s!"{e.count} digits; use sys.set_int_max_str_digits() to increase the limit"

/-- Split off one sign; the flag is true for a minus. -/
def takeSign : Text → Bool × Text
  | .char '-' :: rest => (true, rest)
  | .char '+' :: rest => (false, rest)
  | s => (false, s)

def withSign (negative : Bool) (n : Nat) : Int :=
  if negative then -(n : Int) else n

namespace Radix

def base : Radix → Nat
  | decimal => 10
  | hexadecimal => 16

def ofBase? (n : Int) : Option Radix :=
  if n = 10 then some decimal else if n = 16 then some hexadecimal else none

def digit? (r : Radix) (c : CodePoint) : Option Nat :=
  let n := c.toNat
  if 48 ≤ n ∧ n ≤ 57 then some (n - 48)
  else if r = hexadecimal ∧ 65 ≤ n ∧ n ≤ 70 then some (n - 55)
  else if r = hexadecimal ∧ 97 ≤ n ∧ n ≤ 102 then some (n - 87)
  else none

def isDigit (r : Radix) (c : CodePoint) : Bool := (r.digit? c).isSome

/-- The number that a run of digits denotes, most significant digit first. -/
def value (r : Radix) (digits : Text) : Nat :=
  digits.foldl (fun n c => n * r.base + (r.digit? c).getD 0) 0

def leadingDigits (r : Radix) (s : Text) : Bool × Text :=
  let (negative, rest) := takeSign (Text.stripLeft s)
  (negative, rest.takeWhile r.isDigit)

def leading? (r : Radix) (s : Text) : Option Int :=
  let (negative, digits) := r.leadingDigits s
  if digits.isEmpty then none else some (withSign negative (r.value digits))

/-- The integer that a text starts with, unless its decimal digits are too many. -/
def read (r : Radix) (s : Text) : Except TooManyDigits (Option Int) :=
  let digits := (r.leadingDigits s).2
  if r = decimal ∧ digitLimit < digits.length then .error ⟨digits.length⟩
  else .ok (r.leading? s)

/-- An integer as text: a minus if it is negative, and digits without leading zeros. Letters are
lower case. -/
def render (r : Radix) (n : Int) : List Char :=
  (if n < 0 then ['-'] else []) ++ Nat.toDigits r.base n.natAbs

def text (r : Radix) (n : Int) : Text := .ofChars (r.render n)

/-- Decimal text is written for integers of at most `digitLimit` digits. -/
def isWritable (n : Int) : Bool := decide ((Nat.toDigits 10 n.natAbs).length ≤ digitLimit)

def write? (n : Int) : Option Text := if isWritable n then some (decimal.text n) else none

end Radix

end TeachAsm
