import TeachAsm.Check.Form
import TeachAsm.Memory.Load

/-!
# Logic of programs

Origins that are set twice, memory references that do not lead to a literal, an `HLT` that an
unconditional jump hides, and the report on labels.
-/

namespace TeachAsm

namespace Line

/-- The origin that an `ORG` line names; what follows its hexadecimal digits is ignored. -/
def origin? (l : Line) : Option Int :=
  if l.states .ORG then Radix.hexadecimal.leading? l.operand else none

end Line

/-- Report each origin that an earlier line has set, as long as the budget lasts; `seen` pairs
origins with their first line. -/
def checkOrigins : Ledger → List (Int × Nat) → List Line → Ledger
  | ledger, _, [] => ledger
  | ledger, seen, l :: rest =>
    match l.origin? with
    | none => checkOrigins ledger seen rest
    | some origin =>
      match Table.find? origin seen with
      | none => checkOrigins ledger (seen ++ [(origin, l.index + 1)]) rest
      | some firstLine =>
        match ledger.emit? ⟨l.wholeRange, .duplicateOrigin firstLine⟩ with
        | none => ledger
        | some ledger => checkOrigins ledger seen rest

def Cell.value (c : Cell) : Except Fault (Option Int) := c.literal.mapError .digits

def isAddress (n : Int) : Bool := 0 ≤ n && n < memorySize

namespace Image

def fetch (image : Image) (position : Int) : Except Fault Cell :=
  (image.cellAt position).mapError .position

/-- The reference leads to a literal: the operand names its cell, or with indirect addressing the
cell that holds its address. -/
def leadsToLiteral (image : Image) (target : Int) (indirect : Bool) : Except Fault Bool := do
  if !isAddress target then return false
  let c ← image.fetch target
  let value ← c.value
  if !indirect then return value.isSome
  match value with
  | none => return false
  | some pointer =>
    if !isAddress pointer then return false
    let c ← image.fetch pointer
    let value ← c.value
    return value.isSome

/-- The word at an address can be reached only by skipping the jump before it, and nothing skips. -/
def hiddenByJump (image : Image) (address : Nat) : Except Fault Bool := do
  let jump ← image.fetch (address - 1)
  let before ← image.fetch (address - 2)
  return jump.mnemonic?.any Mnemonic.jumps && !before.mnemonic?.any Mnemonic.skips

def logicProblem (image : Image) (address : Nat) (c : Cell) : Except Fault (Option Problem) :=
  match c.kind with
  | .empty => .ok none
  | .reference =>
    match c.target with
    | none => .error .missingTarget
    | some target =>
      (image.leadsToLiteral target c.indirect).map
        (fun leads => if leads then none else some .invalidTarget)
  | .unresolved | .verbatim =>
    if c.mnemonic? = some .HLT ∧ 2 ≤ address then
      (image.hiddenByJump address).map
        (fun hidden => if hidden then some .unreachableHalt else none)
    else .ok none

def checkCellLogic (image : Image) : Ledger → List (Nat × Cell) → Except Fault Ledger
  | ledger, [] => .ok ledger
  | ledger, (address, c) :: rest =>
    if c.endsScan || ledger.exhausted then .ok ledger
    else match image.logicProblem address c with
      | .error f => .error f
      | .ok p => image.checkCellLogic (ledger.report c.range p) rest

end Image

def checkLogic (ledger : Ledger) (lines : List Line) (image : Image) : Except Fault Ledger :=
  image.checkCellLogic (checkOrigins ledger [] lines) image.cells

/-- Duplicate, unused and invalid labels. The budget does not bound this report. -/
def labelReport (r : Resolution) (unused : Table Text Nat) : List Diagnostic :=
  r.duplicates.values.map
      (fun d => ⟨.wholeLine d.line, .duplicateLabel d.label (d.previous.line + 1)⟩) ++
    unused.entries.map (fun e => ⟨.wholeLine e.2, .unusedLabel e.1⟩) ++
    r.invalid.entries.map (fun e => ⟨.wholeLine e.2, .invalidLabel e.1⟩)

end TeachAsm
