/-!
# UTF-8

Bytes are decoded one at a time. A refusal names the bytes that start no character: the longest
run that a character could have started with, or one byte that starts none.
-/

namespace TeachAsm.Utf8

inductive Reason where
  | invalidStart
  | invalidContinuation
  | unexpectedEnd
deriving DecidableEq, Repr

def Reason.message : Reason → String
  | invalidStart => "invalid start byte"
  | invalidContinuation => "invalid continuation byte"
  | unexpectedEnd => "unexpected end of data"

/-- Bytes that are no text: where they start, the first one, how many there are, and why. -/
structure Refusal where
  position : Nat
  first : UInt8
  count : Nat
  reason : Reason
deriving DecidableEq, Repr

def byteHex (b : UInt8) : List Char :=
  [Nat.digitChar (b.toNat / 16), Nat.digitChar (b.toNat % 16)]

def Refusal.message (r : Refusal) : String :=
  if r.count = 1 then
    "'utf-8' codec can't decode byte 0x" ++ String.ofList (byteHex r.first) ++
      s!" in position {r.position}: " ++ r.reason.message
  else
    s!"'utf-8' codec can't decode bytes in position {r.position}-{r.position + r.count - 1}: " ++
      r.reason.message

/-- A character of which some bytes are read: the bytes that are still to come, the range of the
next one, and the value so far. -/
structure Pending where
  start : Nat
  first : UInt8
  count : Nat := 1
  missing : Nat
  low : Nat := 0x80
  high : Nat := 0xBF
  value : Nat
deriving DecidableEq, Repr

/-- The character that a byte above `0x7F` starts. The second byte of some is limited, which rules
out surrogates, longer forms of a shorter character and values past the last code point. -/
def lead? (position : Nat) (b : UInt8) : Option Pending :=
  let n := b.toNat
  if 0xC2 ≤ n ∧ n ≤ 0xDF then
    some { start := position, first := b, missing := 1, value := n - 0xC0 }
  else if 0xE0 ≤ n ∧ n ≤ 0xEF then
    some { start := position, first := b, missing := 2, value := n - 0xE0
           low := if n = 0xE0 then 0xA0 else 0x80
           high := if n = 0xED then 0x9F else 0xBF }
  else if 0xF0 ≤ n ∧ n ≤ 0xF4 then
    some { start := position, first := b, missing := 3, value := n - 0xF0
           low := if n = 0xF0 then 0x90 else 0x80
           high := if n = 0xF4 then 0x8F else 0xBF }
  else none

/-- Decode from a position on; `read` holds the characters before, in reverse. -/
def decodeFrom : Nat → Option Pending → List Char → List UInt8 → Except Refusal (List Char)
  | _, none, read, [] => .ok read.reverse
  | _, some p, _, [] => .error ⟨p.start, p.first, p.count, .unexpectedEnd⟩
  | position, none, read, b :: rest =>
    if b.toNat < 0x80 then decodeFrom (position + 1) none (Char.ofNat b.toNat :: read) rest
    else match lead? position b with
      | some p => decodeFrom (position + 1) (some p) read rest
      | none => .error ⟨position, b, 1, .invalidStart⟩
  | position, some p, read, b :: rest =>
    if p.low ≤ b.toNat ∧ b.toNat ≤ p.high then
      let value := p.value * 64 + b.toNat % 64
      if p.missing = 1 then decodeFrom (position + 1) none (Char.ofNat value :: read) rest
      else decodeFrom (position + 1)
        (some { start := p.start, first := p.first, count := p.count + 1
                missing := p.missing - 1, value }) read rest
    else .error ⟨p.start, p.first, p.count, .invalidContinuation⟩

def decode (bytes : List UInt8) : Except Refusal (List Char) := decodeFrom 0 none [] bytes

def encode (s : List Char) : List UInt8 := s.flatMap String.utf8EncodeChar

end TeachAsm.Utf8
