import TeachAsm.Vocabulary

/-!
# Source lines

A document has one line per piece between line feeds. A line without its comment is cut into a
label candidate, the first word before the first separator, and a statement, what stands after
the last separator.
-/

namespace TeachAsm

structure Line where
  index : Nat
  raw : Text
deriving DecidableEq, Repr

def isBlankOrComment (s : Text) : Bool :=
  match Text.stripLeft s with
  | [] => true
  | c :: _ => commentMarks.contains c

/-- Cut at the first `/`; if there is none, at the first `;`; if there is none, at the first `#`.
A line that holds no statement is left as it is. -/
def stripComment (s : Text) : Text :=
  if isBlankOrComment s then s
  else match commentMarks.find? (fun mark => s.contains mark) with
    | some mark => Text.beforeFirst mark s
    | none => s

namespace Line

def text (l : Line) : Text := stripComment l.raw

def stripped (l : Line) : Text := Text.strip l.text

def isBlank (l : Line) : Bool := isBlankOrComment l.text

def hasLabel (l : Line) : Bool := l.text.contains labelSeparator

def label (l : Line) : Text :=
  (Text.words (Text.beforeFirst labelSeparator l.stripped)).headD []

def statement (l : Line) : Text :=
  Text.strip (Text.afterLast labelSeparator l.stripped)

def column (l : Line) : Nat :=
  let tail := Text.afterLast labelSeparator l.text
  l.text.length - tail.length + (tail.takeWhile Text.isBlank).length

def words (l : Line) : List Text := Text.words l.statement

def mnemonic (l : Line) : Text := l.words.headD []

def mnemonic? (l : Line) : Option Mnemonic := Mnemonic.ofWord? l.mnemonic

def operand (l : Line) : Text :=
  Text.strip (l.statement.drop l.mnemonic.length)

def operandWord (l : Line) : Text := l.words.getD 1 []

def states (l : Line) (m : Mnemonic) : Bool := !l.isBlank && l.mnemonic? == some m

end Line

def sourceLines (text : Text) : List Line :=
  (Text.lines text).zipIdx.map (fun (piece, i) => ⟨i, Text.trimEnd (· == '\r') piece⟩)

theorem length_sourceLines (text : Text) :
    (sourceLines text).length = (Text.lines text).length := by
  simp [sourceLines]

end TeachAsm
