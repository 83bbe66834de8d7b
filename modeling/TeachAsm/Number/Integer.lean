import TeachAsm.Number.Radix

/-!
# Whole integers

An integer that fills a text: between blanks, at most one sign and one or more decimal digits of
any script, where a single underscore may stand between two digits.
-/

namespace TeachAsm.Integer

/-- The zeros of the decimal digits of Unicode 14; the nine digits after each zero follow it. -/
def zeros : List Nat :=
  [0x30, 0x660, 0x6F0, 0x7C0, 0x966, 0x9E6, 0xA66, 0xAE6, 0xB66, 0xBE6, 0xC66, 0xCE6, 0xD66,
   0xDE6, 0xE50, 0xED0, 0xF20, 0x1040, 0x1090, 0x17E0, 0x1810, 0x1946, 0x19D0, 0x1A80, 0x1A90,
   0x1B50, 0x1BB0, 0x1C40, 0x1C50, 0xA620, 0xA8D0, 0xA900, 0xA9D0, 0xA9F0, 0xAA50, 0xABF0, 0xFF10,
   0x104A0, 0x10D30, 0x11066, 0x110F0, 0x11136, 0x111D0, 0x112F0, 0x11450, 0x114D0, 0x11650,
   0x116C0, 0x11730, 0x118E0, 0x11950, 0x11C50, 0x11D50, 0x11DA0, 0x16A60, 0x16AC0, 0x16B50,
   0x1D7CE, 0x1D7D8, 0x1D7E2, 0x1D7EC, 0x1D7F6, 0x1E140, 0x1E2F0, 0x1E950, 0x1FBF0]

def digit? (c : CodePoint) : Option Nat :=
  let n := c.toNat
  (zeros.find? (fun z => z ≤ n && n < z + 10)).map (n - ·)

/-- The blanks that may surround an integer. The information separators are not among them. -/
def isPadding (c : CodePoint) : Bool :=
  let n := c.toNat
  (0x09 ≤ n && n ≤ 0x0D) || n == 0x20 || (0x7F < n && Text.isBlank c)

/-- The digits of a text in which single underscores stand between digits; `pending` tells that a
digit has to come next. -/
def digits? : Bool → Text → Option (List Nat)
  | pending, [] => if pending then none else some []
  | pending, c :: rest =>
    match digit? c with
    | some d => (digits? false rest).map (d :: ·)
    | none => if c == '_' && !pending then digits? true rest else none

/-- The integer that a text denotes; a text with too many digits denotes none. -/
def read? (s : Text) : Option Int :=
  let (negative, rest) := takeSign (Text.trimEnd isPadding (s.dropWhile isPadding))
  match digits? true rest with
  | none => none
  | some digits =>
    if digitLimit < digits.length then none
    else some (withSign negative (digits.foldl (fun n d => 10 * n + d) 0))

end TeachAsm.Integer
