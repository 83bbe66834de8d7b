/-!
# Code points

Text is a list of code points. A client may escape one half of a UTF-16 pair without the other, so
a code point is a character or a surrogate that stands alone. Characters and strings are texts.
-/

namespace TeachAsm

inductive CodePoint where
  | char (c : Char)
  /-- A surrogate without its partner, counted from the first surrogate. -/
  | surrogate (n : Fin 0x800)
deriving DecidableEq, Repr

instance : Coe Char CodePoint := ⟨.char⟩

def hexDigits (width n : Nat) : List Char :=
  let digits := Nat.toDigits 16 n
  List.replicate (width - digits.length) '0' ++ digits

/-- A UTF-16 unit as an escape. -/
def unitEscape (n : Nat) : List Char := '\\' :: 'u' :: hexDigits 4 n

namespace CodePoint

def toNat : CodePoint → Nat
  | char c => c.toNat
  | surrogate n => 0xD800 + n

def written : CodePoint → List Char
  | char c => [c]
  | surrogate n => unitEscape (0xD800 + n)

def toLower : CodePoint → CodePoint
  | char c => c.toLower
  | surrogate n => surrogate n

end CodePoint

abbrev Text := List CodePoint

namespace Text

def ofChars (s : List Char) : Text := s.map .char

def ofString (s : String) : Text := ofChars s.toList

instance : Coe String Text := ⟨ofString⟩

def written (s : Text) : String := String.ofList (s.flatMap CodePoint.written)

@[simp] theorem ofChars_inj {s t : List Char} : ofChars s = ofChars t ↔ s = t :=
  ⟨List.map_inj_right (fun _ _ h => CodePoint.char.inj h) |>.mp, fun h => h ▸ rfl⟩

@[simp] theorem ofString_inj {s t : String} : ofString s = ofString t ↔ s = t := by
  simp [ofString, String.toList_inj]

@[simp] theorem ofChars_append (s t : List Char) : ofChars (s ++ t) = ofChars s ++ ofChars t :=
  List.map_append

theorem length_ofChars (s : List Char) : (ofChars s).length = s.length := List.length_map ..

end Text

end TeachAsm
