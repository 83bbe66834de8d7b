import TeachAsm.CommandLine.Arguments
import TeachAsm.CommandLine.Failure
import TeachAsm.CommandLine.Paths
import TeachAsm.Server.Session

/-!
# Serving an editor

The command runs a session on standard input. Only frames are written to standard output; the
journal goes to standard error or to a file.
-/

namespace TeachAsm.CommandLine.Serve

def switches : List Switch := [.maxProblems, .logFile, .verbose, .version, .help]

structure Options where
  maxProblems : Option Int := none
  logFile : Option Place := none
  verbose : Bool := false

/-- The file for the journal. A path that leads to a directory is refused; the file is at the place
that the path names as text. -/
def logFile? (lookup : List Char → Option Entry) (a : Arguments) :
    Except UsageError (Option Place) :=
  match a.value? .logFile with
  | none => .ok none
  | some path =>
    if lookup path = some .directory then .error .badParameter else .ok (some (.ofPath path))

def options (lookup : List Char → Option Entry) (a : Arguments) : Except UsageError Options := do
  let maxProblems ← a.maxProblems?
  let logFile ← logFile? lookup a
  if !a.operands.isEmpty then .error .unexpectedArgument
  return { maxProblems, logFile, verbose := a.has .verbose }

def canWrite (lookup : List Char → Option Entry) (file : Place) : Bool :=
  decide (lookup file.display ≠ some .directory) &&
    decide (lookup file.parent.display = some .directory) && file.hasFileName

/-- How deep messages may nest where a thousand calls may be open at once. -/
def usualNesting : Frame.Nesting := { read := 981, write := some 980 }

def session (nesting : Frame.Nesting) (settings : Settings) (stream : List UInt8) :
    List Char × List Record :=
  let transcript := Server.serve nesting { settings } stream
  ((transcript.sent.filterMap (Frame.encode nesting)).flatten, transcript.journal)

inductive Request where
  | finished (outcome : Outcome)
  | serving (options : Options) (settings : Settings) (warnings : List Record)

def serveBare (nesting : Frame.Nesting) (environment : Option String) (stream : List UInt8) :
    Outcome :=
  let (settings, warnings) := Settings.ofEnvironment environment
  let (stdout, journal) := session nesting settings stream
  { stdout, journal := (warnings ++ journal).filter (Record.isShown false) }

def usage : String := "Usage: pdp8-lsp [OPTIONS]\n"

/-- Read the arguments and the environment. A journal file that cannot be written ends the command
before it serves. -/
def start (lookup : List Char → Option Entry) (environment : Option String)
    (arguments : List (List Char)) : Except UsageError Request := do
  let a ← Arguments.parse switches arguments
  match a.eager? with
  | some .version =>
    return .finished { stdout := (serverName ++ ", version " ++ serverVersion ++ "\n").toList }
  | some _ => return .finished { stdout := usage.toList }
  | none =>
    let options ← options lookup a
    if options.logFile.any (fun file => !canWrite lookup file) then
      return .finished { status := .problems, journalFile := true }
    else
      let (settings, warnings) := Settings.ofEnvironment environment
      let maxProblems := options.maxProblems.getD settings.maxProblems
      return .serving options { maxProblems } warnings

/-- Run the command on its arguments and a whole stream. How deep messages may nest is up to what
the command runs on. -/
def run (nesting : Frame.Nesting) (lookup : List Char → Option Entry)
    (environment : Option String) (arguments : List (List Char)) (stream : List UInt8) :
    Except UsageError Outcome := do
  match ← start lookup environment arguments with
  | .finished outcome => return outcome
  | .serving options settings warnings =>
    let (stdout, journal) := session nesting settings stream
    return { stdout
             journal := (warnings ++ journal).filter (Record.isShown options.verbose)
             journalFile := options.logFile.isSome }

end TeachAsm.CommandLine.Serve
