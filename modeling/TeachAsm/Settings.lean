import TeachAsm.Journal
import TeachAsm.Json.Misuse
import TeachAsm.Number.Integer

/-!
# Settings

The only setting is the limit on the number of problems, a positive integer. It is read from a
payload of the editor or from the environment; a value that is no positive integer is ignored
with a warning, or refused when reading is strict.
-/

namespace TeachAsm

structure Settings where
  maxProblems : Int := 100
deriving DecidableEq, Repr

structure InvalidSetting where
  key : String
  value : Json
  reason : String
deriving DecidableEq

def InvalidSetting.message (e : InvalidSetting) : String :=
  "invalid setting " ++ e.key ++ "=" ++ String.ofList e.value.inspect ++ ": " ++ e.reason

inductive SettingsError where
  | invalid (e : InvalidSetting)
  | misuse (e : Misuse)
deriving DecidableEq

namespace SettingsError

def message : SettingsError → String
  | invalid e => e.message
  | misuse e => e.message

end SettingsError

namespace Settings

/-- The setting and the sections of a payload that may hold it, the newer section first. -/
def maxProblemsKey : String := "maxNumberOfProblems"

def sectionNames : List String := ["pdp8Assembly", "languageServerExample"]

def variableName : String := "PDP8_LSP_MAX_PROBLEMS"

/-- The integer that a value gives: an integer, the integer part of a number, or a text that
denotes an integer. -/
def toInteger? : Json → Except Misuse (Option Int)
  | .int n => .ok (some n)
  | .real (.infinity _) => .error .infinite
  | .real x => .ok x.truncate?
  | .str s => .ok (Integer.read? s)
  | _ => .ok none

def positive (key : String) (value : Json) : Except SettingsError Int :=
  match toInteger? value with
  | .error e => .error (.misuse e)
  | .ok (some n) =>
    if 1 ≤ n then .ok n else .error (.invalid ⟨key, value, "expected a positive integer"⟩)
  | .ok none => .error (.invalid ⟨key, value, "expected a positive integer"⟩)

/-- The part of a payload that holds the settings: the first section that is an object, or the
payload itself. -/
def sectionOf (members : List (Text × Json)) : List (Text × Json) :=
  match sectionNames.filterMap (fun name =>
    match Json.find? name members with
    | some (.obj inner) => some inner
    | _ => none) with
  | inner :: _ => inner
  | [] => members

def requested? (payload : Json) : Except Misuse (Option Json) :=
  if !payload.isPresent then .ok none
  else match payload with
    | .obj members => .ok ((Json.find? maxProblemsKey (sectionOf members)).bind Json.nonNull?)
    | v => .error (.noMember v.kind "get")

/-- Settings from a payload. An invalid value is an error if reading is strict; otherwise it is
noted and leaves the default. -/
def read (strict : Bool) (payload : Json) : Except SettingsError (Settings × List Record) :=
  match requested? payload with
  | .error e => .error (.misuse e)
  | .ok none => .ok ({}, [])
  | .ok (some value) =>
    match positive maxProblemsKey value with
    | .ok n => .ok ({ maxProblems := n }, [])
    | .error (.misuse e) => .error (.misuse e)
    | .error (.invalid e) =>
      if strict then .error (.invalid e)
      else .ok ({}, [⟨.warning, .settings, "Ignoring setting: " ++ e.message⟩])

def ofEnvironment (content : Option String) : Settings × List Record :=
  match content with
  | none => ({}, [])
  | some text =>
    if text.toList.isEmpty then ({}, [])
    else match positive variableName (.str text) with
      | .ok n => ({ maxProblems := n }, [])
      | .error e => ({}, [⟨.warning, .settings, "Ignoring environment: " ++ e.message⟩])

def display (s : Settings) : String :=
  "LSPSettings(max_number_of_problems=" ++ String.ofList (Radix.decimal.render s.maxProblems) ++ ")"

end Settings

end TeachAsm
