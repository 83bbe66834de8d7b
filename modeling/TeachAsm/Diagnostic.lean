import TeachAsm.Memory.Cell

/-!
# Diagnostics

A diagnostic is a problem and the place it is shown at. Problems are causes; their wording and
their severity are given here once.
-/

namespace TeachAsm

/-- A place in a document: a line from 0 and a column from 0. -/
structure Position where
  line : Int
  character : Nat
deriving DecidableEq, Repr

structure Range where
  start : Position
  stop : Position
deriving DecidableEq, Repr

/-- A column that stands for the end of a line: the largest signed number of 32 bits. -/
def endOfLine : Nat := 2147483647

namespace Range

def wholeLine (line : Int) : Range := ⟨⟨line, 0⟩, ⟨line, endOfLine⟩⟩

def columns (line : Int) (first last : Nat) : Range := ⟨⟨line, first⟩, ⟨line, last⟩⟩

end Range

def Line.wholeRange (l : Line) : Range := .wholeLine l.index

def Line.statementRange (l : Line) : Range := .columns l.index l.column l.raw.length

/-- The source line of a cell; a cell that has none is shown on the first line. -/
def Cell.range (c : Cell) : Range :=
  .wholeLine (match c.line with
    | some line => if line = 0 then 0 else line - 1
    | none => 0)

inductive Severity where
  | error
  | warning
  | information
deriving DecidableEq, Repr

namespace Severity

def code : Severity → Nat
  | error => 1
  | warning => 2
  | information => 3

def name : Severity → String
  | error => "error"
  | warning => "warning"
  | information => "information"

end Severity

inductive Problem where
  | unknownKeyword (word : Text)
  | missingOrigin
  | invalidOrigin
  | invalidDecimal
  | invalidHexadecimal
  | invalidMark
  | belowEnd
  | missingEnd
  | missingHalt
  | unresolvedLabel (symbol : Option Text)
  | malformedRegister
  | malformedTransfer
  /-- An origin that an earlier line, counted from 1, has set before. -/
  | duplicateOrigin (firstLine : Nat)
  | invalidTarget
  | unreachableHalt
  | duplicateLabel (label : Text) (previousLine : Nat)
  | unusedLabel (label : Text)
  | invalidLabel (word : Text)
deriving DecidableEq, Repr

namespace Problem

def severity : Problem → Severity
  | missingOrigin | invalidOrigin | missingEnd | missingHalt | malformedRegister
  | malformedTransfer | duplicateOrigin _ | invalidLabel _ => .error
  | unknownKeyword _ | invalidDecimal | invalidHexadecimal | invalidMark | unresolvedLabel _
  | invalidTarget | unreachableHalt | duplicateLabel _ _ => .warning
  | belowEnd | unusedLabel _ => .information

def message : Problem → Text
  | unknownKeyword word => "Invalid keyword: " ++ word
  | missingOrigin => "Missing origin address."
  | invalidOrigin => "Invalid origin address."
  | invalidDecimal => "Invalid decimal value."
  | invalidHexadecimal => "Invalid hexadecimal value."
  | invalidMark => "Invalid IMA keyword."
  | belowEnd => "Instructions under END pseudo-instructions will be ignored by the " ++
      "assembler, you should comment or remove it."
  | missingEnd => "Missing END instruction."
  | missingHalt => "Missing HLT instruction will generate an infinite-loop."
  | unresolvedLabel (some symbol) => "Unresolved label " ++ symbol ++ "."
  | unresolvedLabel none => "Unresolved label None."
  | malformedRegister => "Invalid RRI instruction syntax."
  | malformedTransfer => "Invalid IO instruction syntax."
  | duplicateOrigin line =>
      s!"ORG Instructions duplicate at line {line}, " ++
        "causing an overwrite of the previous instructions."
  | invalidTarget => "The instruction address is pointing to an invalid memory address."
  | unreachableHalt => "The HLT instruction can't be reached, make sure that the previous jump " ++
      "instruction could be skipped."
  | duplicateLabel label line =>
      "Duplicate label: \"" ++ label ++ s!"\" at previous line {line}"
  | unusedLabel label => "Unused label: \"" ++ label ++
      "\", is better to remove it to prevent bad usage of the RAM"
  | invalidLabel word => "Invalid label: \"" ++ word ++ "\""

end Problem

structure Diagnostic where
  range : Range
  problem : Problem
deriving DecidableEq, Repr

namespace Diagnostic

def severity (d : Diagnostic) : Severity := d.problem.severity

def message (d : Diagnostic) : Text := d.problem.message

def line (d : Diagnostic) : Int := d.range.start.line

def source : String := "pdp8-asm"

end Diagnostic

end TeachAsm
