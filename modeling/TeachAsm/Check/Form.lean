import TeachAsm.Check.Spelling

/-!
# Form of statements

Operands are checked on the source lines above the first `END`, and unresolved labels and
statements with a stray operand in the memory image. The scan of the image goes by address; it
ends at a cell with the word `END`, and at a cell that mentions `ORG` it follows a jump forward or
ends. Every scan ends when the budget is exhausted.
-/

namespace TeachAsm

namespace Line

def operandProblem (l : Line) : Except Fault (Option Problem) :=
  match l.mnemonic? with
  | some .ORG =>
    if l.words.length = 1 then .ok (some .missingOrigin)
    else if (address? l.operandWord).isNone || 2 < l.words.length then .ok (some .invalidOrigin)
    else .ok none
  | some .DEC =>
    match decimalWord l.operand with
    | .error e => .error (.digits e)
    | .ok none => .ok (some .invalidDecimal)
    | .ok (some _) => .ok none
  | some .HEX => .ok (if (hexWord? l.operand).isNone then some .invalidHexadecimal else none)
  | some m =>
    if m.family = .memoryReference ∧ 2 < l.words.length ∧ l.words.getD 2 [] ≠ indirectMark then
      .ok (some .invalidMark)
    else .ok none
  | none => .ok none

end Line

structure SourceScan where
  ledger : Ledger
  seenEnd : Bool := false
  seenHalt : Bool := false
deriving DecidableEq

def reportBelowEnd : Ledger → List Line → Ledger
  | ledger, [] => ledger
  | ledger, l :: rest =>
    if l.isBlank then reportBelowEnd ledger rest
    else match ledger.emit? ⟨l.wholeRange, .belowEnd⟩ with
      | none => ledger
      | some ledger => reportBelowEnd ledger rest

def scanSource : SourceScan → List Line → Except Fault SourceScan
  | s, [] => .ok s
  | s, l :: rest =>
    if s.ledger.exhausted then .ok s
    else if l.isBlank then scanSource s rest
    else match l.mnemonic? with
      | some .END => .ok { s with ledger := reportBelowEnd s.ledger rest, seenEnd := true }
      | some .HLT => scanSource { s with seenHalt := true } rest
      | _ =>
        match l.operandProblem with
        | .error f => .error f
        | .ok p => scanSource { s with ledger := s.ledger.report l.statementRange p } rest

/-- Report an `END` and an `HLT` that the scan has not met. -/
def SourceScan.close (s : SourceScan) (last : Range) : Ledger :=
  let ledger := s.ledger.report last (if s.seenEnd then none else some .missingEnd)
  ledger.report last (if s.seenHalt then none else some .missingHalt)

/-- The source lines: operands, statements below `END`, and a missing `END` or `HLT`, which is
shown on the last line. -/
def checkSource (ledger : Ledger) (lines : List Line) : Except Fault Ledger :=
  (scanSource { ledger } lines).map (·.close (.wholeLine (lines.length - 1 : Int)))

namespace Cell

def endsScan (c : Cell) : Bool := c.words.contains (Mnemonic.spelling .END)

def mentionsOrigin (c : Cell) : Bool := Text.occursIn (Mnemonic.spelling .ORG) c.text

def formProblem? (c : Cell) : Option Problem :=
  if c.kind = .unresolved then some (.unresolvedLabel c.symbol)
  else if Family.registerReference.occursInText c.text &&
      !Family.registerReference.endsText c.text then some .malformedRegister
  else if Family.inputOutput.occursInText c.text &&
      !Family.inputOutput.endsText c.text then some .malformedTransfer
  else none

end Cell

def jumpColumn : Nat := 16

/-- The characters of a text that a jump is read from: between the letter after the `O` of `ORG`,
given by the position of the `O`, and column 16. -/
def jumpText (text : Text) (position : Nat) : Text :=
  let first := position + 1
  Text.strip ((text.take (max first jumpColumn)).drop (min first jumpColumn))

/-- The jump of a text that mentions `ORG`: the decimal integer that its characters start with.
Inside the first 16 columns they start with `RG`, so there is none. -/
def originJump (text : Text) : Except Fault (Option Int) :=
  match Text.indexOf? (Mnemonic.spelling .ORG) text with
  | none => .error .noOccurrence
  | some position => (Radix.decimal.read (jumpText text position)).mapError .digits

def checkCellForms : Ledger → Nat → List (Nat × Cell) → Except Fault Ledger
  | ledger, _, [] => .ok ledger
  | ledger, first, (address, c) :: rest =>
    if address < first then checkCellForms ledger first rest
    else if c.endsScan || ledger.exhausted then .ok ledger
    else if c.mentionsOrigin then
      match originJump c.text with
      | .error f => .error f
      | .ok none => .ok ledger
      | .ok (some jump) =>
        -- only a jump forward is followed
        if jump + 1 ≤ address then .ok ledger
        else checkCellForms ledger (jump + 1).toNat rest
    else checkCellForms (ledger.report c.range c.formProblem?) first rest

def checkForm (ledger : Ledger) (lines : List Line) (image : Image) : Except Fault Ledger := do
  let ledger ← checkSource ledger lines
  checkCellForms ledger 0 image.cells

end TeachAsm
