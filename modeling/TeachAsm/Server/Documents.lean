import TeachAsm.Json.Misuse

/-!
# Open documents

Documents are kept under their identifiers in the order in which they were opened. Any scalar
value serves as an identifier, and numbers that are equal are the same identifier.
-/

namespace TeachAsm

/-- An identifier, equal exactly when the scalars are. -/
inductive Key where
  | nothing
  | integer (n : Int)
  | real (x : Binary64)
  | text (s : Text)
deriving DecidableEq

/-- The identifier that a value gives; false and true are 0 and 1. -/
def Key.of (v : Json) : Except Misuse Key :=
  match v with
  | .null => .ok .nothing
  | .bool b => .ok (.integer (if b then 1 else 0))
  | .int n => .ok (.integer n)
  | .real x => .ok (if x.isIntegral then .integer (x.truncate?.getD 0) else .real x)
  | .str s => .ok (.text s)
  | .arr _ | .obj _ => .error (.notKey v.kind)

structure Document where
  uri : Json
  /-- The text, which a client may set to any value. -/
  text : Json
  version : Option Json := none
deriving DecidableEq

structure Documents where
  table : Table Key Document := .empty
deriving DecidableEq

namespace Documents

def size (d : Documents) : Nat := d.table.size

def toList (d : Documents) : List Document := d.table.values

def get? (d : Documents) (key : Key) : Option Document := d.table.get? key

def contains (d : Documents) (key : Key) : Bool := d.table.contains key

def insert (d : Documents) (key : Key) (document : Document) : Documents :=
  ⟨d.table.assign key document⟩

/-- A document with a new text. A version is replaced only by a new one, and a document that is
not open is opened. -/
def revised (d : Documents) (key : Key) (uri text : Json) (version : Option Json) : Document :=
  match d.get? key with
  | none => ⟨uri, text, version⟩
  | some document => { document with text, version := version.or document.version }

def update (d : Documents) (key : Key) (uri text : Json) (version : Option Json) : Documents :=
  d.insert key (d.revised key uri text version)

def erase (d : Documents) (key : Key) : Documents := ⟨d.table.erase key⟩

/-- Close a document; the flag tells whether it was open. While no document is open the identifier
is not looked at, so it may be any value. -/
def close (d : Documents) (uri : Json) : Except Misuse (Documents × Bool) :=
  if d.size = 0 then .ok (d, false)
  else (Key.of uri).map (fun key => (d.erase key, d.contains key))

@[simp] theorem get?_insert (d : Documents) (key k : Key) (document : Document) :
    (d.insert key document).get? k = if k = key then some document else d.get? k :=
  Table.get?_assign ..

@[simp] theorem get?_erase (d : Documents) (key k : Key) :
    (d.erase key).get? k = if k = key then none else d.get? k :=
  Table.get?_erase ..

/-- Closing a document with a proper identifier erases it, whether or not documents are open. -/
theorem close_of_key (d : Documents) {uri : Json} {key : Key} (h : Key.of uri = .ok key) :
    d.close uri = .ok (d.erase key, d.contains key) := by
  unfold close
  split
  · next hd =>
    obtain ⟨⟨entries, distinct⟩⟩ := d
    obtain rfl : entries = [] := List.eq_nil_of_length_eq_zero hd
    rfl
  · simp [h, Except.map]

end Documents

end TeachAsm
