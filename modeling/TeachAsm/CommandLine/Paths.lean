import TeachAsm.Text.Basic

/-!
# Paths

A path is walked from a working directory, or from the root. Paths are printed without empty and
`.` components.
-/

namespace TeachAsm.CommandLine

inductive Entry where
  | file (bytes : List UInt8)
  | directory
deriving DecidableEq

def components (path : List Char) : List (List Char) := Text.splitWhen (· == '/') path

def plainComponents (path : List Char) : List (List Char) :=
  (components path).filter (fun c => !c.isEmpty && c != ['.'])

def joinComponents (cs : List (List Char)) : List Char := List.intercalate ['/'] cs

def displayPath (path : List Char) : List Char :=
  let rest := joinComponents (plainComponents path)
  if path.head? = some '/' then '/' :: rest
  else if rest.isEmpty then ['.']
  else rest

/-- Where a place is counted from: the root, or the directory some levels above the working
directory. -/
inductive Anchor where
  | root
  | above (levels : Nat)
deriving DecidableEq

/-- A place: the names that lead down to it from a directory. -/
structure Place where
  anchor : Anchor
  names : List (List Char)
deriving DecidableEq

namespace Place

def parent (p : Place) : Place :=
  if !p.names.isEmpty then { p with names := p.names.dropLast }
  else match p.anchor with
    | .root => p
    | .above levels => ⟨.above (levels + 1), []⟩

def step (p : Place) (component : List Char) : Place :=
  if component.isEmpty || component == ['.'] then p
  else if component == ['.', '.'] then p.parent
  else { p with names := p.names ++ [component] }

def start (path : List Char) : Place :=
  ⟨if path.head? = some '/' then .root else .above 0, []⟩

/-- The place that a path names as text: a `..` takes back the component before it, whether or not
a directory is there. -/
def ofPath (path : List Char) : Place := (components path).foldl step (start path)

def display (p : Place) : List Char :=
  match p.anchor with
  | .root => '/' :: joinComponents p.names
  | .above levels => displayPath (joinComponents (List.replicate levels ['.', '.'] ++ p.names))

def nameLimit : Nat := 255

def hasFileName (p : Place) : Bool :=
  p.names.getLast?.any (fun name => (String.ofList name).utf8ByteSize ≤ nameLimit)

end Place

/-- What a working directory holds. The directories on the way to an entry need not be listed, and
the last of two entries at one place counts. -/
structure FileTree where
  entries : List (List (List Char) × Entry) := []

namespace FileTree

def ofPaths (entries : List (List Char × Entry)) : FileTree :=
  ⟨entries.map (fun e => (plainComponents e.1, e.2))⟩

def below? (tree : FileTree) (names : List (List Char)) : Option Entry :=
  match (tree.entries.filter (fun e => e.1 == names)).getLast? with
  | some e => some e.2
  | none => if tree.entries.any (fun e => names.isPrefixOf e.1) then some .directory else none

def entryAt? (tree : FileTree) (p : Place) : Option Entry :=
  if p.names.isEmpty then some .directory
  else if p.anchor = .above 0 then tree.below? p.names
  else none

/-- Walk from a place; every component is looked up in a directory. -/
def walk (tree : FileTree) : Place → List (List Char) → Option Entry
  | p, [] => tree.entryAt? p
  | p, c :: rest =>
    if tree.entryAt? p = some .directory then tree.walk (p.step c) rest else none

def lookup (tree : FileTree) (path : List Char) : Option Entry :=
  if path.isEmpty then none else tree.walk (.start path) (components path)

end FileTree

end TeachAsm.CommandLine
