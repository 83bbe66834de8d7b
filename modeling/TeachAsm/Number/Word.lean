import TeachAsm.Number.Radix

/-!
# Words and addresses of the machine

The memory has 4096 words of 16 bits. An address is written with hexadecimal digits only; a
literal is a signed decimal or hexadecimal number that fits a word.
-/

namespace TeachAsm

def memorySize : Nat := 4096

def wordMin : Int := -32768

def wordMax : Int := 32767

def fitsWord (n : Int) : Bool := wordMin ≤ n && n ≤ wordMax

/-- An address: one or more hexadecimal digits and nothing else, inside memory. -/
def address? (s : Text) : Option Nat :=
  let n := Radix.hexadecimal.value s
  if !s.isEmpty && s.all Radix.hexadecimal.isDigit && n < memorySize then some n else none

/-- A decimal literal: the integer that the text starts with, if it fits a word. -/
def decimalWord (s : Text) : Except TooManyDigits (Option Int) :=
  (Radix.decimal.read s).map (·.filter fitsWord)

/-- A hexadecimal literal: between blanks, at most one sign and one or more digits and nothing
else, with a value that fits a word. -/
def hexWord? (s : Text) : Option Int :=
  let (negative, digits) := takeSign (Text.strip s)
  let n := withSign negative (Radix.hexadecimal.value digits)
  if !digits.isEmpty && digits.all Radix.hexadecimal.isDigit && fitsWord n then some n else none

end TeachAsm
