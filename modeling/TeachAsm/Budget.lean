import TeachAsm.Diagnostic
import TeachAsm.Memory.Image
import TeachAsm.Symbols

/-!
# Problem budget

The passes of one analysis share a budget. It runs out one short of its limit, and from then on no
pass reports anything. A pass keeps its diagnostics in a ledger beside the budget.
-/

namespace TeachAsm

/-- Why an analysis gives no answer. -/
inductive Fault where
  | digits (e : TooManyDigits)
  /-- The limit has too many digits to be written. -/
  | unwritable
  | undeclared (e : Undeclared)
  | missingTarget
  | position (e : PositionError)
  | noOccurrence
deriving DecidableEq, Repr

def Fault.message : Fault → String
  | digits e => e.message
  | unwritable => s!"Exceeds the limit ({digitLimit} digits) for integer string conversion; " ++
      "use sys.set_int_max_str_digits() to increase the limit"
  | undeclared e => e.message
  | missingTarget => "'<=' not supported between instances of 'int' and 'NoneType'"
  | position e => e.message
  | noOccurrence => "substring not found"

structure Budget where
  limit : Int
  count : Int := 0
deriving DecidableEq, Repr

namespace Budget

def exhausted (b : Budget) : Bool := b.count ≥ b.limit - 1

def spend (b : Budget) : Budget := { b with count := b.count + 1 }

end Budget

/-- The diagnostics of a pass so far, and what the passes have left of the budget. -/
structure Ledger where
  budget : Budget
  diagnostics : List Diagnostic := []
deriving DecidableEq

namespace Ledger

def exhausted (ledger : Ledger) : Bool := ledger.budget.exhausted

/-- Enter a diagnostic and spend one of the budget; nothing is entered once it is exhausted. -/
def emit? (ledger : Ledger) (d : Diagnostic) : Option Ledger :=
  if ledger.exhausted then none
  else some { budget := ledger.budget.spend, diagnostics := ledger.diagnostics ++ [d] }

def emit (ledger : Ledger) (d : Diagnostic) : Ledger := (ledger.emit? d).getD ledger

def report (ledger : Ledger) (range : Range) : Option Problem → Ledger
  | some p => ledger.emit ⟨range, p⟩
  | none => ledger

end Ledger

end TeachAsm
