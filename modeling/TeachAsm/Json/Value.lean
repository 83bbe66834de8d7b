import TeachAsm.Number.Binary64
import TeachAsm.Number.Radix
import TeachAsm.Table
import TeachAsm.Text.Quoted

/-!
# JSON values

Integers and numbers with a fraction or an exponent are kept apart, and the members of an object
keep their order.
-/

namespace TeachAsm

inductive Json where
  | null
  | bool (b : Bool)
  | int (n : Int)
  | real (x : Binary64)
  | str (s : Text)
  | arr (items : List Json)
  | obj (members : List (Text × Json))
deriving Inhabited

namespace Json

mutual

def same : Json → Json → Bool
  | null, null => true
  | bool a, bool b => a == b
  | int a, int b => a == b
  | real a, real b => a == b
  | str a, str b => a == b
  | arr a, arr b => sameItems a b
  | obj a, obj b => sameMembers a b
  | _, _ => false

def sameItems : List Json → List Json → Bool
  | [], [] => true
  | a :: as, b :: bs => same a b && sameItems as bs
  | _, _ => false

def sameMembers : List (Text × Json) → List (Text × Json) → Bool
  | [], [] => true
  | (k, a) :: as, (l, b) :: bs => k == l && same a b && sameMembers as bs
  | _, _ => false

end

mutual

private theorem same_iff : ∀ a b : Json, same a b = true ↔ a = b
  | null, b => by cases b <;> simp [same]
  | bool _, b => by cases b <;> simp [same]
  | int _, b => by cases b <;> simp [same]
  | real _, b => by cases b <;> simp [same]
  | str _, b => by cases b <;> simp [same]
  | arr as, b => by cases b <;> simp [same, sameItems_iff as]
  | obj as, b => by cases b <;> simp [same, sameMembers_iff as]

private theorem sameItems_iff : ∀ as bs : List Json, sameItems as bs = true ↔ as = bs
  | [], bs => by cases bs <;> simp [sameItems]
  | a :: as, bs => by cases bs <;> simp [sameItems, same_iff a, sameItems_iff as]

private theorem sameMembers_iff : ∀ as bs : List (Text × Json), sameMembers as bs = true ↔ as = bs
  | [], bs => by cases bs <;> simp [sameMembers]
  | (k, a) :: as, bs => by
    cases bs with
    | nil => simp [sameMembers]
    | cons b bs =>
      obtain ⟨l, b⟩ := b
      simp [sameMembers, same_iff a, sameMembers_iff as, and_assoc]

end

instance : DecidableEq Json := fun a b => decidable_of_iff _ (same_iff a b)

mutual

/-- How many arrays and objects are open at once in a value, at most. -/
def depth : Json → Nat
  | arr items => depthItems items + 1
  | obj members => depthMembers members + 1
  | _ => 0

def depthItems : List Json → Nat
  | [] => 0
  | a :: rest => max (depth a) (depthItems rest)

def depthMembers : List (Text × Json) → Nat
  | [] => 0
  | (_, a) :: rest => max (depth a) (depthMembers rest)

end

def kind : Json → String
  | null => "NoneType"
  | bool _ => "bool"
  | int _ => "int"
  | real _ => "float"
  | str _ => "str"
  | arr _ => "list"
  | obj _ => "dict"

/-- Null, false, zero and everything empty count as absent. -/
def isPresent : Json → Bool
  | null => false
  | bool b => b
  | int n => n != 0
  | real x => !x.isZero
  | str s => !s.isEmpty
  | arr items => !items.isEmpty
  | obj members => !members.isEmpty

def nonNull? : Json → Option Json
  | null => none
  | v => some v

def find? (name : String) (members : List (Text × Json)) : Option Json :=
  Table.find? (Text.ofString name) members

def optionalMember (name : String) (value : Option Json) : List (Text × Json) :=
  value.toList.map (fun v => (Text.ofString name, v))

/-- A number with a fraction, with names for the values that have no digits. -/
def realText (nan infinity : List Char) (x : Binary64) : List Char :=
  match x with
  | .nan => nan
  | .infinity negative => (if negative then ['-'] else []) ++ infinity
  | x => x.render?.getD []

mutual

def inspect : Json → List Char
  | null => "None".toList
  | bool b => (if b then "True" else "False").toList
  | int n => Radix.decimal.render n
  | real x => realText "nan".toList "inf".toList x
  | str s => Text.quoted s
  | arr items => '[' :: inspectItems items
  | obj members => '\x7b' :: inspectMembers members

def inspectItems : List Json → List Char
  | [] => [']']
  | [a] => inspect a ++ [']']
  | a :: rest => inspect a ++ ',' :: ' ' :: inspectItems rest

def inspectMembers : List (Text × Json) → List Char
  | [] => ['\x7d']
  | [(k, a)] => Text.quoted k ++ ':' :: ' ' :: inspect a ++ ['\x7d']
  | (k, a) :: rest =>
    Text.quoted k ++ ':' :: ' ' :: inspect a ++ ',' :: ' ' :: inspectMembers rest

end

def display : Json → Text
  | str s => s
  | v => .ofChars (inspect v)

end Json

end TeachAsm
