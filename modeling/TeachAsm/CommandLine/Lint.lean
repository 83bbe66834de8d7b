import TeachAsm.Analysis
import TeachAsm.CommandLine.Arguments
import TeachAsm.CommandLine.Failure
import TeachAsm.CommandLine.Paths
import TeachAsm.Json.Printer

/-!
# Checking files

The command analyses files and prints their diagnostics, one a line or as one JSON array at the
end. Its status tells whether a problem of severity error was found.
-/

namespace TeachAsm.CommandLine.Lint

def name : String := "pdp8lint"

def version : String := "1.0.0"

def switches : List Switch := [.maxProblems, .format, .verbose, .version, .help]

structure Options where
  maxProblems : Option Int := none
  json : Bool := false
  verbose : Bool := false

abbrev Input := List Char × List UInt8

/-- The case of a letter does not count; the long `s` is an `s`. -/
def foldCase (s : List Char) : List Char :=
  s.map (fun c => if c.toNat = 0x17F then 's' else c.toLower)

def json? (a : Arguments) : Except UsageError Bool :=
  match (a.value? .format).map foldCase with
  | none => .ok false
  | some text =>
    if text = "json".toList then .ok true
    else if text = "text".toList then .ok false
    else .error .badParameter

def inputs (lookup : List Char → Option Entry) (operands : List (List Char)) :
    Except UsageError (List Input) :=
  if operands.isEmpty then .error .missingParameter
  else operands.mapM fun path =>
    match lookup path with
    | some (.file bytes) => .ok (path, bytes)
    | _ => .error .badParameter

def options (a : Arguments) : Except UsageError Options := do
  let maxProblems ← a.maxProblems?
  let json ← json? a
  return { maxProblems, json, verbose := a.has .verbose }

def diagnosticLine (path : List Char) (d : Diagnostic) : String :=
  let start := d.range.start
  String.ofList path ++ ":" ++ String.ofList (Radix.decimal.render (start.line + 1)) ++
    s!":{start.character + 1}: " ++ d.severity.name ++ ": " ++ d.message.written

def diagnosticEntry (path : List Char) (d : Diagnostic) : Json :=
  .obj (("file", .str (.ofChars path)) :: d.members)

structure Progress where
  stdout : List Char := []
  stderr : List String := []
  journal : List Record := []
  report : List Json := []
  hasErrors : Bool := false
  failure : Option Failure := none

def echo (s : String) : List Char := (plain s).toList ++ ['\n']

def checkFile (options : Options) (limit : Int) (input : Input) : Progress :=
  let path := displayPath input.1
  let opening : List String :=
    if options.verbose then [plain ("Analyzing " ++ String.ofList path ++ "...")] else []
  match Utf8.decode input.2 with
  | .error e => { stderr := opening, failure := some (.undecodable e) }
  | .ok decoded =>
    let text := Text.ofChars (unifyNewlines false [] decoded)
    let journal := analysisJournal limit text
    match analyze limit text with
    | .error e => { stderr := opening, journal, failure := some (.unexpected e.message) }
    | .ok diagnostics =>
      { stdout := if options.json then []
          else diagnostics.flatMap (fun d => echo (diagnosticLine path d))
        stderr := opening ++ (if options.verbose then
          [plain (String.ofList path ++ s!": {diagnostics.length} problem(s)")] else [])
        journal
        report := diagnostics.map (diagnosticEntry path)
        hasErrors := diagnostics.any (fun d => d.severity = .error) }

/-- Analyse files in order, up to the first failure. -/
def checkFiles (options : Options) (limit : Int) : List Input → Progress
  | [] => {}
  | input :: rest =>
    let first := checkFile options limit input
    match first.failure with
    | some _ => first
    | none =>
      let later := checkFiles options limit rest
      { stdout := first.stdout ++ later.stdout
        stderr := first.stderr ++ later.stderr
        journal := first.journal ++ later.journal
        report := first.report ++ later.report
        hasErrors := first.hasErrors || later.hasErrors
        failure := later.failure }

def check (environment : Option String) (options : Options) (files : List Input) : Outcome :=
  let (settings, warnings) := Settings.ofEnvironment environment
  let progress := checkFiles options (options.maxProblems.getD settings.maxProblems) files
  let journal := (warnings ++ progress.journal).filter (Record.isShown options.verbose)
  match progress.failure with
  | some failure =>
    { status := failure.status
      stdout := progress.stdout
      stderr := progress.stderr ++ failure.report options.verbose (some "Analysis") []
      journal }
  | none =>
    { status := if progress.hasErrors then .problems else .success
      stdout := progress.stdout ++
        (if options.json then (Json.arr progress.report).layOut 0 ++ ['\n'] else [])
      stderr := progress.stderr
      journal }

def usage : String := "Usage: pdp8lint [OPTIONS] INPUT_FILES...\n"

def run (lookup : List Char → Option Entry) (environment : Option String)
    (arguments : List (List Char)) : Except UsageError Outcome := do
  let a ← Arguments.parse switches arguments
  match a.eager? with
  | some .version => return { stdout := (name ++ ", version " ++ version ++ "\n").toList }
  | some _ => return { stdout := usage.toList }
  | none =>
    let options ← options a
    let files ← inputs lookup a.operands
    return check environment options files

end TeachAsm.CommandLine.Lint
