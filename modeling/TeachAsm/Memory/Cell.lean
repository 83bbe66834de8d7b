import TeachAsm.Line
import TeachAsm.Table

/-!
# Memory cells

A cell holds the statement that was laid out at its address. In a memory reference the decimal
address stands in place of the operand that names it.
-/

namespace TeachAsm

inductive CellKind where
  | empty
  | reference
  /-- A memory reference whose operand is neither. -/
  | unresolved
  | verbatim
deriving DecidableEq, Repr

structure Cell where
  text : Text := []
  kind : CellKind := .empty
  mnemonic : Text := []
  target : Option Int := none
  indirect : Bool := false
  symbol : Option Text := none
  line : Option Int := none
deriving DecidableEq, Repr

instance : Inhabited Cell := ⟨{}⟩

namespace Cell

def words (c : Cell) : List Text := Text.words c.text

def mnemonic? (c : Cell) : Option Mnemonic := Mnemonic.ofWord? c.mnemonic

def operand (c : Cell) : Text :=
  Text.strip ((Text.strip (Text.afterLast labelSeparator c.text)).drop c.mnemonic.length)

def literal (c : Cell) : Except TooManyDigits (Option Int) :=
  TeachAsm.literal c.mnemonic c.operand

def referenceText (mnemonic operand : Text) (indirect : Bool) : Text :=
  let space : CodePoint := ' '
  mnemonic ++ space :: operand ++ (if indirect then space :: indirectMark else [])

def unresolvedWord (symbol : Text) (line : Nat) : Text :=
  "UNK-" ++ symbol ++ "|" ++ Radix.decimal.text line

end Cell

namespace Line

def isReference (l : Line) : Bool := Family.memoryReference.hasWord l.mnemonic

/-- The mark for indirect addressing stands after the operand. -/
def isIndirect (l : Line) : Bool := (l.words.drop 2).contains indirectMark

/-- The address that the operand refers to: a label comes before a hexadecimal address. -/
def target? (l : Line) (symbols : Table Text Nat) : Option Nat :=
  (symbols.get? l.operandWord).or (address? l.operandWord)

def cell (l : Line) (symbols : Table Text Nat) : Cell :=
  if l.isReference then
    match l.target? symbols with
    | some target =>
      { text := Cell.referenceText l.mnemonic (Radix.decimal.text target) l.isIndirect
        kind := .reference
        mnemonic := l.mnemonic
        target := some target
        indirect := l.isIndirect
        line := some (l.index + 1) }
    | none =>
      { text := Cell.referenceText l.mnemonic (Cell.unresolvedWord l.operandWord (l.index + 1))
          l.isIndirect
        kind := .unresolved
        mnemonic := l.mnemonic
        indirect := l.isIndirect
        symbol := some l.operandWord
        line := some (l.index + 1) }
  else
    { text := l.stripped, kind := .verbatim, mnemonic := l.mnemonic, line := some (l.index + 1) }

end Line

end TeachAsm
