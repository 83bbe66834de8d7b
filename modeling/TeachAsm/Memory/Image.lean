import TeachAsm.Memory.Cell

/-!
# Memory image

The image maps every address of the memory to a cell. Only cells that were written are held, in
the order of their addresses; every other address holds the empty cell.
-/

namespace TeachAsm

def putCell (address : Nat) (cell : Cell) : List (Nat × Cell) → List (Nat × Cell)
  | [] => [(address, cell)]
  | (a, c) :: rest =>
    if address < a then (address, cell) :: (a, c) :: rest
    else if a = address then (address, cell) :: rest
    else (a, c) :: putCell address cell rest

private theorem mem_addresses_putCell (address : Nat) (cell : Cell) (cells : List (Nat × Cell))
    (a : Nat) :
    a ∈ (putCell address cell cells).map Prod.fst ↔ a = address ∨ a ∈ cells.map Prod.fst := by
  induction cells with
  | nil => simp [putCell]
  | cons e rest ih =>
    obtain ⟨b, c⟩ := e
    simp only [putCell]
    split
    · simp
    · split
      · next h => subst h; simp
      · simp only [List.map_cons, List.mem_cons, ih]
        exact or_left_comm

private theorem pairwise_putCell (address : Nat) (cell : Cell) {cells : List (Nat × Cell)}
    (h : (cells.map Prod.fst).Pairwise (· < ·)) :
    ((putCell address cell cells).map Prod.fst).Pairwise (· < ·) := by
  induction cells with
  | nil => simp [putCell]
  | cons e rest ih =>
    obtain ⟨b, c⟩ := e
    simp only [List.map_cons, List.pairwise_cons] at h
    simp only [putCell]
    split
    · next hlt =>
      simp only [List.map_cons, List.pairwise_cons, List.mem_cons]
      refine ⟨?_, h⟩
      intro x hx
      cases hx with
      | inl hx => exact hx ▸ hlt
      | inr hx => exact Nat.lt_trans hlt (h.1 x hx)
    · split
      · next heq => subst heq; simpa only [List.map_cons, List.pairwise_cons] using h
      · next hge hne =>
        simp only [List.map_cons, List.pairwise_cons]
        refine ⟨?_, ih h.2⟩
        intro x hx
        cases (mem_addresses_putCell address cell rest x).mp hx with
        | inl hx => omega
        | inr hx => exact h.1 x hx

private theorem find?_putCell (address a : Nat) (cell : Cell) {cells : List (Nat × Cell)}
    (h : (cells.map Prod.fst).Pairwise (· < ·)) :
    Table.find? a (putCell address cell cells) =
      if a = address then some cell else Table.find? a cells := by
  induction cells with
  | nil => by_cases ha : address = a <;> simp [putCell, Table.find?, ha, eq_comm]
  | cons e rest ih =>
    obtain ⟨b, c⟩ := e
    simp only [List.map_cons, List.pairwise_cons] at h
    simp only [putCell]
    split
    · by_cases ha : address = a <;> simp [Table.find?, ha, eq_comm]
    · split
      · next heq =>
        subst heq
        by_cases ha : a = b
        · simp [Table.find?, ha]
        · simp [Table.find?, ha, Ne.symm ha]
      · next hge hne =>
        by_cases hb : b = a
        · subst hb; simp [Table.find?, hne]
        · simp [Table.find?, hb, ih h.2]

def isPosition (n : Int) : Bool := -0x8000000000000000 ≤ n && n < 0x8000000000000000

inductive PositionError where
  | outside
  | tooLarge
deriving DecidableEq, Repr

def PositionError.message : PositionError → String
  | outside => "list index out of range"
  | tooLarge => "cannot fit 'int' into an index-sized integer"

structure Image where
  cells : List (Nat × Cell)
  ascending : (cells.map Prod.fst).Pairwise (· < ·)
  bounded : ∀ a ∈ cells.map Prod.fst, a < memorySize
  /-- The source line of each written address that has one, from 1. -/
  lines : Table Nat Int
deriving DecidableEq

namespace Image

def empty : Image where
  cells := []
  ascending := .nil
  bounded := fun _ h => nomatch h
  lines := .empty

instance : Inhabited Image := ⟨empty⟩

def cell (image : Image) (address : Nat) : Cell :=
  (Table.find? address image.cells).getD {}

def store (image : Image) (address : Nat) (h : address < memorySize) (cell : Cell) : Image where
  cells := putCell address cell image.cells
  ascending := pairwise_putCell address cell image.ascending
  bounded := by
    intro a ha
    cases (mem_addresses_putCell address cell image.cells a).mp ha with
    | inl ha => exact ha ▸ h
    | inr ha => exact image.bounded a ha
  lines := match cell.line with
    | some line => image.lines.assign address line
    | none => image.lines

/-- Write a cell; outside memory nothing is written. -/
def store? (image : Image) (address : Int) (cell : Cell) : Option Image :=
  if h : 0 ≤ address ∧ address.toNat < memorySize then
    some (image.store address.toNat h.2 cell)
  else none

/-- The cell at a position; negative positions count from the end of memory. -/
def cellAt (image : Image) (position : Int) : Except PositionError Cell :=
  if 0 ≤ position ∧ position < memorySize then .ok (image.cell position.toNat)
  else if -(memorySize : Int) ≤ position ∧ position < 0 then
    .ok (image.cell (memorySize + position).toNat)
  else .error (if isPosition position then .outside else .tooLarge)

def lineOf? (image : Image) (address : Int) : Option Int :=
  if 0 ≤ address then image.lines.get? address.toNat else none

@[simp] theorem cell_store (image : Image) (address a : Nat) (h : address < memorySize)
    (c : Cell) : (image.store address h c).cell a = if a = address then c else image.cell a := by
  simp only [cell, store, find?_putCell address a c image.ascending]
  split <;> rfl

end Image

end TeachAsm
