import TeachAsm.Json.Parser
import TeachAsm.Json.Printer
import TeachAsm.Number.Integer
import TeachAsm.Server.Message
import TeachAsm.Text.Utf8

/-!
# Frames

A message travels as header lines, a blank line, and a body whose length in bytes one header
gives. Reading takes one frame off a stream of bytes and leaves the rest.
-/

namespace TeachAsm.Frame

inductive Fault where
  | longLine
  | endlessLine
  | negativeLength
  | digits (e : TooManyDigits)
  | tooDeep (c : Json.Container)
deriving DecidableEq, Repr

def Fault.message : Fault → String
  | longLine => "Separator is found, but chunk is longer than limit"
  | endlessLine => "Separator is not found, and chunk exceed the limit"
  | negativeLength => "readexactly size can not be less than zero"
  | digits e => e.message
  | tooDeep c =>
      "maximum recursion depth exceeded while decoding a JSON " ++ c.name ++
        " from a unicode string"

/-- What reading a frame gives, and the bytes that are left. -/
inductive Reading where
  | message (value : Json) (rest : List UInt8)
  | ended (rest : List UInt8)
  | refused (e : ProtocolError) (rest : List UInt8)
  | failed (e : Fault) (rest : List UInt8)
  | incomplete (received expected : Nat)
deriving DecidableEq

/-- A byte of a header as a character; only ASCII is told apart. -/
def headerChar (b : UInt8) : CodePoint :=
  if b.toNat < 0x80 then Char.ofNat b.toNat else Char.ofNat 0xFFFD

def lengthHeader : Text := "content-length"

/-- The value of the length header after one more header line; the last one counts. -/
def addHeader (length : Option Text) (line : Text) : Option Text :=
  let name := (Text.strip (Text.beforeFirst (.char ':') line)).map CodePoint.toLower
  if name = lengthHeader then
    some (Text.strip ((line.dropWhile (· != .char ':')).drop 1))
  else length

def lineLimit : Nat := 65536

inductive Header where
  | complete (length : Option Text) (rest : List UInt8)
  | failed (e : Fault) (rest : List UInt8)
  | ended
deriving DecidableEq

def Header.rest : Header → List UInt8
  | complete _ rest => rest
  | failed _ rest => rest
  | ended => []

/-- Read header lines up to a blank one. The line in hand is kept in reverse. -/
def readHeader : List UInt8 → Option Text → List UInt8 → Header
  | line, length, [] =>
    if lineLimit < line.length then .failed .endlessLine []
    -- a last line without a line feed may be blank
    else if !line.isEmpty && (Text.strip (line.reverse.map headerChar)).isEmpty then
      .complete length []
    else .ended
  | line, length, b :: rest =>
    if b = 10 then
      if lineLimit < line.length then .failed .longLine rest
      else
        let text := Text.strip ((b :: line).reverse.map headerChar)
        if text.isEmpty then .complete length rest else readHeader [] (addHeader length text) rest
    else readHeader (b :: line) length rest

/-- Reading a header takes at least one byte, counting those of the line in hand. -/
theorem readHeader_shorter {line bytes : List UInt8} {length : Option Text}
    (h : readHeader line length bytes ≠ .ended) :
    (readHeader line length bytes).rest.length < line.length + bytes.length := by
  induction bytes generalizing line length with
  | nil =>
    cases line with
    | nil => simp [readHeader] at h
    | cons b line =>
      simp only [readHeader]
      split
      · simp [Header.rest]
      · split <;> simp [Header.rest]
  | cons b bytes ih =>
    simp only [readHeader] at h ⊢
    split at h
    · next hb =>
      rw [if_pos hb]
      split at h
      · next hl =>
        rw [if_pos hl]
        simp only [Header.rest, List.length_cons]
        omega
      · next hl =>
        rw [if_neg hl]
        split at h
        · next ht =>
          rw [if_pos ht]
          simp only [Header.rest, List.length_cons]
          omega
        · next ht =>
          rw [if_neg ht]
          have := ih h
          simp only [List.length_nil, List.length_cons] at this ⊢
          omega
    · next hb =>
      rw [if_neg hb]
      have := ih h
      simp only [List.length_cons] at this ⊢
      omega

/-- How many arrays and objects may be open at once: in a body that is read, and in a message that
is written. Whoever takes messages that are not written takes them all. -/
structure Nesting where
  read : Nat
  write : Option Nat := none
deriving DecidableEq, Repr

def Nesting.allows (nesting : Nesting) (message : Json) : Bool :=
  nesting.write.all (message.depth ≤ ·)

def badBody (reason : String) : ProtocolError := .parseError ("Invalid JSON body: " ++ reason)

def readBody (nesting : Nesting) (body rest : List UInt8) : Reading :=
  match Utf8.decode body with
  | .error e => .refused (badBody e.message) rest
  | .ok text =>
    match Json.parse nesting.read text with
    | .error (.malformed problem left) => .refused (badBody (problem.display text left)) rest
    | .error (.digits e) => .failed (.digits e) rest
    | .error (.tooDeep c) => .failed (.tooDeep c) rest
    | .ok .null => .ended rest
    | .ok value => .message value rest

def read (nesting : Nesting) (bytes : List UInt8) : Reading :=
  match readHeader [] none bytes with
  | .ended => .ended []
  | .failed e rest => .failed e rest
  | .complete length rest =>
    match length.bind Integer.read? with
    | none => .refused (.parseError "Missing or invalid Content-Length header") rest
    | some n =>
      if n < 0 then .failed .negativeLength rest
      else if rest.length < n.toNat then .incomplete rest.length n.toNat
      else readBody nesting (rest.take n.toNat) (rest.drop n.toNat)

/-- How many bytes a stream lacks for a whole frame, once it holds a header that a line feed
ends. More bytes than these do not change what reading the frame gives. -/
def missing? (bytes : List UInt8) : Option Nat :=
  let header := readHeader [] none bytes
  if bytes.getD (bytes.length - header.rest.length - 1) 0 = 10 then
    match header with
    | .ended => none
    | .failed _ _ => some 0
    | .complete length rest => some (((length.bind Integer.read?).getD 0).toNat - rest.length)
  else none

/-- The text of a frame; all its characters are ASCII. A message that nests too deep has none. -/
def encode (nesting : Nesting) (message : Json) : Option (List Char) :=
  if nesting.allows message then
    let body := message.render
    some ("Content-Length: ".toList ++ Radix.decimal.render body.length ++
      ['\r', '\n', '\r', '\n'] ++ body)
  else none

end TeachAsm.Frame
