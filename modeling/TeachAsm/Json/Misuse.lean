import TeachAsm.Json.Value

/-!
# Values of the wrong kind

A message may hold any value in any place. This module says what is asked of a value, and how it
fails when the value is of another kind.
-/

namespace TeachAsm

/-- A use that a value does not support. -/
inductive Misuse where
  | noMember (kind member : String)
  | notKey (kind : String)
  | notComparable (kind : String)
  | notIndex (kind : String)
  | notBound
  | notContainer (kind : String)
  | notTextIndex
  | missingKey (key : String)
  | notIndexable (kind : String)
  | infinite
deriving DecidableEq, Repr

def Misuse.message : Misuse → String
  | noMember kind member => "'" ++ kind ++ "' object has no attribute '" ++ member ++ "'"
  | notKey kind => "unhashable type: '" ++ kind ++ "'"
  | notComparable kind =>
      "'<=' not supported between instances of 'int' and '" ++ kind ++ "'"
  | notIndex kind => "list indices must be integers or slices, not " ++ kind
  | notBound => "slice indices must be integers or None or have an __index__ method"
  | notContainer kind => "argument of type '" ++ kind ++ "' is not iterable"
  | notTextIndex => "string indices must be integers, not 'str'"
  | missingKey key => key
  | notIndexable kind => "'" ++ kind ++ "' object is not subscriptable"
  | infinite => "cannot convert float infinity to integer"

namespace Json

def member (v : Json) (name : String) : Except Misuse (Option Json) :=
  match v with
  | obj members => .ok (find? name members)
  | v => .error (.noMember v.kind "get")

/-- A value that counts as absent stands for the empty object. -/
def orEmpty (v : Option Json) : Json :=
  match v with
  | some v => if v.isPresent then v else obj []
  | none => obj []

end Json

end TeachAsm
