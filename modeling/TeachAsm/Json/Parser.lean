import TeachAsm.Json.Value

/-!
# Reading JSON

A text is read from left to right, so of two errors the earlier one is met. The names of the
numbers without digits are accepted, and the last member of a repeated key wins in the place of
the first one. Arrays and objects nest only so deep; one too many is refused where it opens.
-/

namespace TeachAsm.Json

inductive Container where
  | array
  | object
deriving DecidableEq, Repr

def Container.name : Container → String
  | array => "array"
  | object => "object"

/-- What is wrong where a text stops being the text of a value. -/
inductive Problem where
  | byteOrderMark
  | value
  | key
  | colon
  | comma
  | extra
  /-- A string that is never closed; its opening quote is the place. -/
  | openString
  | control
  | escape
  | unit
deriving DecidableEq, Repr

def Problem.message : Problem → String
  | byteOrderMark => "Unexpected UTF-8 BOM (decode using utf-8-sig)"
  | value => "Expecting value"
  | key => "Expecting property name enclosed in double quotes"
  | colon => "Expecting ':' delimiter"
  | comma => "Expecting ',' delimiter"
  | extra => "Extra data"
  | openString => "Unterminated string starting at"
  | control => "Invalid control character at"
  | escape => "Invalid \\escape"
  | unit => "Invalid \\uXXXX escape"

/-- A problem of a text at the place where a rest of it starts. Lines and columns count from one. -/
def Problem.display (problem : Problem) (text rest : List Char) : String :=
  let before := text.take (text.length - rest.length)
  let line := before.count '\n' + 1
  let column := (before.reverse.takeWhile (· != '\n')).length + 1
  problem.message ++ s!": line {line} column {column} (char {before.length})"

inductive ParseError where
  /-- The text goes wrong where this rest of it starts. -/
  | malformed (problem : Problem) (rest : List Char)
  | digits (e : TooManyDigits)
  /-- An array or an object inside as many others as may be open. -/
  | tooDeep (c : Container)
deriving DecidableEq, Repr

def isSpace (c : Char) : Bool := c == ' ' || c == '\t' || c == '\n' || c == '\r'

def skipSpace (s : List Char) : List Char := s.dropWhile isSpace

def isDigit (c : Char) : Bool := Radix.decimal.isDigit c

def decimalValue (digits : List Char) : Nat := Radix.decimal.value (.ofChars digits)

def unit? (a b c d : Char) : Option Nat :=
  if [a, b, c, d].all (fun c => Radix.hexadecimal.isDigit c) then
    some (Radix.hexadecimal.value [a, b, c, d])
  else none

def isHighSurrogate (n : Nat) : Bool := 0xD800 ≤ n && n < 0xDC00

def isLowSurrogate (n : Nat) : Bool := 0xDC00 ≤ n && n < 0xE000

def joinSurrogates (high low : Nat) : Char :=
  Char.ofNat (0x10000 + (high - 0xD800) * 0x400 + (low - 0xDC00))

def unitPoint (n : Nat) : CodePoint :=
  if h : 0xD800 ≤ n ∧ n < 0xE000 then .surrogate ⟨n - 0xD800, by omega⟩ else .char (Char.ofNat n)

def shortEscape? (c : Char) : Option Char :=
  if c = '"' ∨ c = '\\' ∨ c = '/' then some c
  else if c = 'b' then some (Char.ofNat 0x08)
  else if c = 'f' then some (Char.ofNat 0x0C)
  else if c = 'n' then some '\n'
  else if c = 'r' then some '\r'
  else if c = 't' then some '\t'
  else none

/-- What was read of a string: the code points in reverse, and a high surrogate that waits for the
low one. -/
structure Reading where
  points : Text := []
  high : Option Nat := none

namespace Reading

def flush (r : Reading) : Text :=
  match r.high with
  | some h => unitPoint h :: r.points
  | none => r.points

def add (r : Reading) (c : CodePoint) : Reading := ⟨c :: r.flush, none⟩

/-- A low surrogate completes the high one that waits; a high one waits in turn. -/
def addUnit (r : Reading) (n : Nat) : Reading :=
  match r.high with
  | some h =>
    if isLowSurrogate n then ⟨joinSurrogates h n :: r.points, none⟩
    else if isHighSurrogate n then ⟨r.flush, some n⟩
    else r.add (unitPoint n)
  | none => if isHighSurrogate n then ⟨r.points, some n⟩ else r.add (unitPoint n)

end Reading

/-- The text up to the closing quote, with what follows it. A string that is not closed is shown
from its start. -/
def stringTail (start : List Char) (r : Reading) :
    List Char → Except ParseError (Text × List Char)
  | [] => .error (.malformed .openString start)
  | '"' :: rest => .ok (r.flush.reverse, rest)
  | '\\' :: 'u' :: a :: b :: c :: d :: rest =>
    match unit? a b c d with
    | none => .error (.malformed .unit ('u' :: a :: b :: c :: d :: rest))
    | some n =>
      -- four digits at the very end are taken for too few
      if rest.isEmpty then .error (.malformed .unit ['u', a, b, c, d])
      else stringTail start (r.addUnit n) rest
  | '\\' :: 'u' :: rest => .error (.malformed .unit ('u' :: rest))
  | '\\' :: c :: rest =>
    match shortEscape? c with
    | none => .error (.malformed .escape ('\\' :: c :: rest))
    | some c' => stringTail start (r.add c') rest
  | c :: rest =>
    if c == '\\' then .error (.malformed .openString start)
    else if c.toNat < 0x20 then .error (.malformed .control (c :: rest))
    else stringTail start (r.add c) rest

def fraction (s : List Char) : List Char × List Char :=
  match s with
  | '.' :: rest =>
    let digits := rest.takeWhile isDigit
    if digits.isEmpty then ([], s) else (digits, rest.dropWhile isDigit)
  | _ => ([], s)

def power? (s : List Char) : Option Int × List Char :=
  match s with
  | c :: rest =>
    if c = 'e' ∨ c = 'E' then
      let (negative, unsigned) := match rest with
        | '-' :: rest => (true, rest)
        | '+' :: rest => (false, rest)
        | rest => (false, rest)
      let digits := unsigned.takeWhile isDigit
      if digits.isEmpty then (none, s)
      else (some (withSign negative (decimalValue digits)), unsigned.dropWhile isDigit)
    else (none, s)
  | [] => (none, s)

/-- The digits before a point: a zero, or digits that start with none. -/
def whole (s : List Char) : List Char × List Char :=
  match s with
  | '0' :: rest => (['0'], rest)
  | s => (s.takeWhile isDigit, s.dropWhile isDigit)

def number (s : List Char) : Except ParseError (Json × List Char) :=
  let (negative, unsigned) := match s with
    | '-' :: rest => (true, rest)
    | s => (false, s)
  let (digits, afterDigits) := whole unsigned
  if digits.isEmpty then .error (.malformed .value s)
  else
    let (places, afterPlaces) := fraction afterDigits
    let (power, rest) := power? afterPlaces
    if places.isEmpty && power.isNone then
      if digitLimit < digits.length then .error (.digits ⟨digits.length⟩)
      else .ok (.int (withSign negative (decimalValue digits)), rest)
    else
      .ok (.real (.ofDecimal negative (decimalValue (digits ++ places))
        (power.getD 0 - places.length)), rest)

def names : List (List Char × Json) :=
  [("null".toList, .null), ("true".toList, .bool true), ("false".toList, .bool false),
   ("NaN".toList, .real .nan), ("Infinity".toList, .real (.infinity false)),
   ("-Infinity".toList, .real (.infinity true))]

mutual

/-- The value that a text starts with, and what follows it. At most `room` arrays and objects are
open at once; `fuel` bounds the steps. -/
def value : Nat → Nat → List Char → Except ParseError (Json × List Char)
  | 0, _, s => .error (.malformed .value s)
  | fuel + 1, room, s =>
    match s with
    | '"' :: rest =>
      match stringTail s {} rest with
      | .error e => .error e
      | .ok (text, rest) => .ok (.str text, rest)
    | '[' :: rest =>
      match room, skipSpace rest with
      | 0, _ => .error (.tooDeep .array)
      | _ + 1, ']' :: rest => .ok (.arr [], rest)
      | room + 1, rest => items fuel room [] rest
    | '\x7b' :: rest =>
      match room, skipSpace rest with
      | 0, _ => .error (.tooDeep .object)
      | _ + 1, '\x7d' :: rest => .ok (.obj [], rest)
      | room + 1, rest => members fuel room [] rest
    | s =>
      match names.find? (fun e => e.1.isPrefixOf s) with
      | some (name, v) => .ok (v, s.drop name.length)
      | none => number s

/-- The items up to the closing bracket; `read` holds the items before, in reverse. -/
def items : Nat → Nat → List Json → List Char → Except ParseError (Json × List Char)
  | 0, _, _, s => .error (.malformed .value s)
  | fuel + 1, room, read, s =>
    match value fuel room s with
    | .error e => .error e
    | .ok (v, rest) =>
      match skipSpace rest with
      | ',' :: rest => items fuel room (v :: read) (skipSpace rest)
      | ']' :: rest => .ok (.arr (v :: read).reverse, rest)
      | rest => .error (.malformed .comma rest)

def members : Nat → Nat → List (Text × Json) → List Char → Except ParseError (Json × List Char)
  | 0, _, _, s => .error (.malformed .key s)
  | fuel + 1, room, read, s =>
    match s with
    | '"' :: rest =>
      match stringTail s {} rest with
      | .error e => .error e
      | .ok (key, rest) =>
        match skipSpace rest with
        | ':' :: rest =>
          match value fuel room (skipSpace rest) with
          | .error e => .error e
          | .ok (v, rest) =>
            let read := Table.put key v read
            match skipSpace rest with
            | ',' :: rest => members fuel room read (skipSpace rest)
            | '\x7d' :: rest => .ok (.obj read, rest)
            | rest => .error (.malformed .comma rest)
        | rest => .error (.malformed .colon rest)
    | s => .error (.malformed .key s)

end

/-- The value that fills a text, with at most `nesting` arrays and objects open at once. -/
def parse (nesting : Nat) (s : List Char) : Except ParseError Json :=
  if s.head? = some (Char.ofNat 0xFEFF) then .error (.malformed .byteOrderMark s)
  else
    match value (2 * s.length + 2) nesting (skipSpace s) with
    | .error e => .error e
    | .ok (v, rest) =>
      match skipSpace rest with
      | [] => .ok v
      | rest => .error (.malformed .extra rest)

end TeachAsm.Json
