import TeachAsm.Line

/-!
# Location counter

A walk over the lines assigns addresses. What a line does to the counter is given by a reading of
the line; two readings are used. The label reading looks at the first word before the first
separator, the statement reading at the first word after the last one. They differ only on
labelled lines that mention `ORG` or `END`.
-/

namespace TeachAsm

/-- What a line does to the location counter. -/
inductive Step where
  | skip
  /-- Set the counter, or leave it when the address is not valid. -/
  | origin (address : Option Nat)
  | stop
  | occupy
deriving DecidableEq, Repr

/-- A line that occupies a word, and the counter at that line. -/
structure Placement where
  address : Nat
  line : Line
deriving DecidableEq, Repr

/-- The lines that occupy a word, from a value of the counter on. -/
def place (reading : Line → Step) : Nat → List Line → List Placement
  | _, [] => []
  | counter, l :: rest =>
    match reading l with
    | .skip => place reading counter rest
    | .origin address => place reading (address.getD counter) rest
    | .stop => []
    | .occupy => ⟨counter, l⟩ :: place reading (counter + 1) rest

namespace Line

def labelStep (l : Line) : Step :=
  if l.isBlank then .skip
  else match Mnemonic.ofWord? l.label with
    | some .ORG => .origin (address? ((Text.words l.stripped).getD 1 []))
    | some .END => .stop
    | _ => .occupy

def statementStep (l : Line) : Step :=
  if l.isBlank then .skip
  else match l.mnemonic? with
    | some .ORG => .origin (address? l.operandWord)
    | some .END => .stop
    | _ => .occupy

end Line

end TeachAsm
