import TeachAsm.Number.Integer

/-!
# Command line arguments

Options and operands may be mixed; `--` ends the options. A long option takes its value after `=`
or from the next argument. Short options may be joined in one argument, and one that takes a value
takes the rest of it.
-/

namespace TeachAsm.CommandLine

inductive UsageError where
  | badParameter
  | missingParameter
  | noSuchOption
  | badOptionUsage
  | unexpectedArgument
deriving DecidableEq, Repr

inductive Switch where
  | maxProblems
  | format
  | logFile
  | verbose
  | version
  | help
deriving DecidableEq, Repr

namespace Switch

def long : Switch → List Char
  | maxProblems => "--max-problems".toList
  | format => "--format".toList
  | logFile => "--log-file".toList
  | verbose => "--verbose".toList
  | version => "--version".toList
  | help => "--help".toList

def short? : Switch → Option Char
  | maxProblems => some 'm'
  | format => some 'f'
  | verbose => some 'v'
  | logFile | version | help => none

def takesValue : Switch → Bool
  | maxProblems | format | logFile => true
  | verbose | version | help => false

def isEager : Switch → Bool
  | version | help => true
  | maxProblems | format | logFile | verbose => false

end Switch

/-- An option as it was given, with its value if it takes one. -/
abbrev Given := Switch × List Char

/-- The options of one argument, and the last of them if its value is the next argument. -/
abbrev Match := List Given × Option Switch

def matchShort (known : List Switch) : List Char → Except UsageError Match
  | [] => .ok ([], none)
  | c :: rest =>
    match known.find? (fun s => s.short? == some c) with
    | none => .error .noSuchOption
    | some s =>
      if s.takesValue then .ok (if rest.isEmpty then ([], some s) else ([(s, rest)], none))
      else (matchShort known rest).map (fun m => ((s, []) :: m.1, m.2))

/-- The options of one argument that starts with a dash. A long option is looked for first. -/
def matchArgument (known : List Switch) (argument : List Char) : Except UsageError Match :=
  let name := Text.beforeFirst '=' argument
  let value := if argument.contains '=' then some (argument.drop (name.length + 1)) else none
  match known.find? (fun s => s.long == name), value with
  | some s, some value =>
    if s.takesValue then .ok ([(s, value)], none) else .error .badOptionUsage
  | some s, none => .ok (if s.takesValue then ([], some s) else ([(s, [])], none))
  | none, _ =>
    if ['-', '-'].isPrefixOf argument then .error .noSuchOption
    else matchShort known (argument.drop 1)

structure Arguments where
  given : List Given := []
  operands : List (List Char) := []

namespace Arguments

def addGiven (given : List Given) (a : Arguments) : Arguments :=
  { a with given := given ++ a.given }

def addOperand (operand : List Char) (a : Arguments) : Arguments :=
  { a with operands := operand :: a.operands }

def parse (known : List Switch) : List (List Char) → Except UsageError Arguments
  | [] => .ok {}
  | argument :: rest =>
    if argument = ['-', '-'] then .ok { operands := rest }
    else if argument.head? = some '-' ∧ 1 < argument.length then
      match matchArgument known argument with
      | .error e => .error e
      | .ok (given, none) => (parse known rest).map (addGiven given)
      | .ok (given, some s) =>
        match rest with
        | [] => .error .badOptionUsage
        | value :: rest => (parse known rest).map (addGiven (given ++ [(s, value)]))
    else (parse known rest).map (addOperand argument)

def eager? (a : Arguments) : Option Switch :=
  (a.given.map Prod.fst).find? Switch.isEager

def has (a : Arguments) (s : Switch) : Bool := a.given.any (fun g => g.1 == s)

def value? (a : Arguments) (s : Switch) : Option (List Char) :=
  (a.given.reverse.find? (fun g => g.1 == s)).map Prod.snd

def maxProblems? (a : Arguments) : Except UsageError (Option Int) :=
  match a.value? .maxProblems with
  | none => .ok none
  | some text =>
    match Integer.read? (.ofChars text) with
    | some n => if 1 ≤ n then .ok (some n) else .error .badParameter
    | none => .error .badParameter

end Arguments

end TeachAsm.CommandLine
