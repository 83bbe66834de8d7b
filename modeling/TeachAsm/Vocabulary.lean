import TeachAsm.Number.Word

/-!
# Vocabulary of the assembly language

The mnemonics fall into four families. A statement is `[LBL,] MNEMONIC [OPERAND [I]]`: labels have
at most three characters and are no mnemonic, and the mark `I` asks for indirect addressing.
-/

namespace TeachAsm

inductive Mnemonic where
  | ORG | END | DEC | HEX
  | AND | ADD | LDA | STA | BUN | BSA | ISZ
  | CLA | CLE | CMA | CME | CIR | CIL
  | INC | SPA | SNA | SZA | SZE | HLT
  | INP | OUT | SKI | SKO | ION | IOF
deriving DecidableEq, Repr

/-- What a mnemonic acts on: the assembler itself, a memory word given by an address, the
registers, or the input and output lines. -/
inductive Family where
  | pseudo
  | memoryReference
  | registerReference
  | inputOutput
deriving DecidableEq, Repr

namespace Mnemonic

def all : List Mnemonic :=
  [.ORG, .END, .DEC, .HEX,
   .AND, .ADD, .LDA, .STA, .BUN, .BSA, .ISZ,
   .CLA, .CLE, .CMA, .CME, .CIR, .CIL, .INC, .SPA, .SNA, .SZA, .SZE, .HLT,
   .INP, .OUT, .SKI, .SKO, .ION, .IOF]

def spelling : Mnemonic → Text
  | .ORG => ['O', 'R', 'G']
  | .END => ['E', 'N', 'D']
  | .DEC => ['D', 'E', 'C']
  | .HEX => ['H', 'E', 'X']
  | .AND => ['A', 'N', 'D']
  | .ADD => ['A', 'D', 'D']
  | .LDA => ['L', 'D', 'A']
  | .STA => ['S', 'T', 'A']
  | .BUN => ['B', 'U', 'N']
  | .BSA => ['B', 'S', 'A']
  | .ISZ => ['I', 'S', 'Z']
  | .CLA => ['C', 'L', 'A']
  | .CLE => ['C', 'L', 'E']
  | .CMA => ['C', 'M', 'A']
  | .CME => ['C', 'M', 'E']
  | .CIR => ['C', 'I', 'R']
  | .CIL => ['C', 'I', 'L']
  | .INC => ['I', 'N', 'C']
  | .SPA => ['S', 'P', 'A']
  | .SNA => ['S', 'N', 'A']
  | .SZA => ['S', 'Z', 'A']
  | .SZE => ['S', 'Z', 'E']
  | .HLT => ['H', 'L', 'T']
  | .INP => ['I', 'N', 'P']
  | .OUT => ['O', 'U', 'T']
  | .SKI => ['S', 'K', 'I']
  | .SKO => ['S', 'K', 'O']
  | .ION => ['I', 'O', 'N']
  | .IOF => ['I', 'O', 'F']

def family : Mnemonic → Family
  | .ORG | .END | .DEC | .HEX => .pseudo
  | .AND | .ADD | .LDA | .STA | .BUN | .BSA | .ISZ => .memoryReference
  | .CLA | .CLE | .CMA | .CME | .CIR | .CIL
  | .INC | .SPA | .SNA | .SZA | .SZE | .HLT => .registerReference
  | .INP | .OUT | .SKI | .SKO | .ION | .IOF => .inputOutput

def description : Mnemonic → String
  | .ORG => "Change the address origin for the following instructions."
  | .END => "Point the assembler to stop looking for instructions below this point."
  | .DEC => "Point the assembler that the next value is using decimal notation."
  | .HEX => "Point the assembler that the next value is using hexadecimal notation."
  | .AND => "AND Operation between the Accumulator and the value specified at the given " ++
      "address."
  | .ADD => "ADD Operation between the Accumulator and the value specified at the given " ++
      "address."
  | .LDA => "Load the value specified at the given address into the Accumulator."
  | .STA => "Store the value contained in the Accumulator into the given address."
  | .BUN => "Jump to the given address."
  | .BSA => "Jump to the address next the given address, and store the current value of " ++
      "the PC into the given address."
  | .ISZ => "Increment the value specified at the given address, and if the value is 0 " ++
      "skip the next instruction."
  | .CLA => "Clear the Accumulator."
  | .CLE => "Clear the Extension Register."
  | .CMA => "Complement the Accumulator."
  | .CME => "Complement the Extension Register."
  | .CIR => "Shift to the right all the bits contained in the Accumulator, considering the " ++
      "Extension Register as the 17th bit of the Accumulator."
  | .CIL => "Shift to the left all the bits contained in the Accumulator, considering the " ++
      "Extension Register as the 17th bit of the Accumulator."
  | .INC => "Increment the Accumulator."
  | .SPA => "Skip the next instruction if the Accumulator contains a positive value."
  | .SNA => "Skip the next instruction if the Accumulator contains a negative value."
  | .SZA => "Skip the next instruction if the Accumulator is 0."
  | .SZE => "Skip the next instruction if the Extension Register is 0."
  | .HLT => "Stop the machine."
  | .INP => "Read the 16-bits word input from the keyboard as an ASCII value."
  | .OUT => "Print on the terminal the value of the Accumulator as an ASCII value."
  | .SKI => "Skip the next instruction if the Interrupt flag is true."
  | .SKO => "Skip the next instruction if the Interrupt flag is false."
  | .ION => "Enable the Interrupt mode."
  | .IOF => "Disable the Interrupt mode."

def ofWord? (word : Text) : Option Mnemonic :=
  all.find? (fun m => m.spelling == word)

def skips (m : Mnemonic) : Bool := m ∈ [.ISZ, .SPA, .SNA, .SZA, .SZE]

def jumps (m : Mnemonic) : Bool := m ∈ [.BUN, .BSA]

theorem mem_all (m : Mnemonic) : m ∈ all := by cases m <;> decide

theorem ofWord?_spelling (m : Mnemonic) : ofWord? m.spelling = some m := by cases m <;> decide

theorem spelling_of_ofWord? {word : Text} {m : Mnemonic} (h : ofWord? word = some m) :
    m.spelling = word := by
  simpa using List.find?_some h

end Mnemonic

namespace Family

def mnemonics (f : Family) : List Mnemonic := Mnemonic.all.filter (fun m => m.family == f)

def hasWord (f : Family) (word : Text) : Bool :=
  ((Mnemonic.ofWord? word).map Mnemonic.family) == some f

/-- The last word of the text is a mnemonic of the family, so nothing follows the mnemonic. -/
def endsText (f : Family) (text : Text) : Bool :=
  f.hasWord ((Text.words text).getLast?.getD [])

/-- Some mnemonic of the family occurs anywhere in the text. -/
def occursInText (f : Family) (text : Text) : Bool :=
  f.mnemonics.any (fun m => Text.occursIn m.spelling text)

end Family

/-- The characters that start a comment, in the order in which they are looked for. -/
def commentMarks : List CodePoint := ['/', ';', '#']

def labelSeparator : CodePoint := ','

def indirectMark : Text := ['I']

def indirectDescription : String :=
  "Point the assembler to read the instruction using the indirect memory address cycle."

def maxLabelLength : Nat := 3

/-- Words that are no label. The empty word is among them, so that a separator with nothing
before it names no label. -/
def reservedWords : List Text :=
  Mnemonic.all.map Mnemonic.spelling ++ [indirectMark, []]

def isLabel (word : Text) : Bool :=
  word.length ≤ maxLabelLength && !reservedWords.contains word

/-- The value of a literal statement: `DEC` reads its operand as a decimal and `HEX` as a
hexadecimal word; no other statement has one. -/
def literal (mnemonic operand : Text) : Except TooManyDigits (Option Int) :=
  match Mnemonic.ofWord? mnemonic with
  | some .DEC => decimalWord operand
  | some .HEX => .ok (hexWord? operand)
  | _ => .ok none

end TeachAsm
