import TeachAsm.Layout
import TeachAsm.Table
import TeachAsm.Text.Quoted

/-!
# Symbols

The first walk binds every label to the counter at the line that declares it. A later declaration
of the same label replaces the binding and is noted as a redeclaration, one per counter value.
-/

namespace TeachAsm

/-- Where a label is bound: the counter and the line of its latest declaration. -/
structure Declaration where
  address : Nat
  line : Nat
deriving DecidableEq, Repr

structure Redeclaration where
  label : Text
  line : Nat
  previous : Declaration
deriving DecidableEq, Repr

/-- A label has an address, and no line that declares it. -/
structure Undeclared where
  label : Text
deriving DecidableEq, Repr

def Undeclared.message (e : Undeclared) : String := String.ofList (Text.quoted e.label)

structure Resolution where
  symbols : Table Text Nat := .empty
  /-- The last redeclaration at each counter value. -/
  duplicates : Table Nat Redeclaration := .empty
  unused : Table Text Nat := .empty
  /-- Words that stand for a label and are none, with the last line that uses each. -/
  invalid : Table Text Nat := .empty
  declarations : Table Text Nat := .empty
deriving DecidableEq

namespace Resolution

/-- The declaration of a label that is bound already: its address and its line. -/
def previous? (r : Resolution) (label : Text) : Except Undeclared (Option Declaration) :=
  match r.symbols.get? label with
  | none => .ok none
  | some address =>
    match r.declarations.get? label with
    | none => .error ⟨label⟩
    | some line => .ok (some ⟨address, line⟩)

def declare (r : Resolution) (label : Text) (d : Declaration) : Except Undeclared Resolution :=
  (r.previous? label).map fun previous =>
    { symbols := r.symbols.assign label d.address
      duplicates := match previous with
        | none => r.duplicates
        | some previous => r.duplicates.assign d.address ⟨label, d.line, previous⟩
      unused := r.unused.assign label d.line
      invalid := r.invalid
      declarations := r.declarations.assign label d.line }

def enter (r : Resolution) (p : Placement) : Except Undeclared Resolution :=
  let l := p.line
  if !l.hasLabel then .ok r
  else if isLabel l.label then r.declare l.label ⟨p.address, l.index⟩
  else .ok { r with invalid := r.invalid.assign l.label l.index }

end Resolution

def resolve? (lines : List Line) : Except Undeclared Resolution :=
  (place Line.labelStep 0 lines).foldlM Resolution.enter {}

/-- The tables that the walk ends with. No walk fails. -/
def resolve (lines : List Line) : Resolution := (resolve? lines).toOption.getD {}

end TeachAsm
