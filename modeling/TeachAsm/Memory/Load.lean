import TeachAsm.Memory.Image
import TeachAsm.Symbols

/-!
# Loading a program

The second walk lays the statements out in memory. A label counts as used when it is the operand
of a memory reference on the walk, whether or not the statement fits into memory.
-/

namespace TeachAsm

def statements (lines : List Line) : List Placement := place Line.statementStep 0 lines

structure Memory where
  image : Image := .empty
  /-- The writes past the end of memory, in order; they leave no trace in the image. -/
  dropped : List (Nat × Cell) := []
  /-- Labels that no memory reference names, with the lines that declare them. -/
  unused : Table Text Nat := .empty
deriving DecidableEq

namespace Memory

instance : Inhabited Memory := ⟨{}⟩

def store (m : Memory) (address : Nat) (cell : Cell) : Memory :=
  match m.image.store? address cell with
  | some image => { m with image }
  | none => { m with dropped := m.dropped ++ [(address, cell)] }

def enter (symbols : Table Text Nat) (m : Memory) (p : Placement) : Memory :=
  let m := m.store p.address (p.line.cell symbols)
  if p.line.isReference then { m with unused := m.unused.erase p.line.operandWord } else m

end Memory

def load (lines : List Line) (r : Resolution) : Memory :=
  (statements lines).foldl (Memory.enter r.symbols) { unused := r.unused }

end TeachAsm
