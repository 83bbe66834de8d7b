import TeachAsm.CommandLine.Lint
import TeachAsm.CommandLine.Serve

/-!
# The program

The first argument names a command: one checks files, the other serves an editor on standard input
and output. All input and output is done here.
-/

namespace TeachAsm.CommandLine

def entryAt (path : List Char) : IO (Option Entry) := do
  let name := String.ofList path
  try
    if ← (← IO.FS.realPath name).isDir then return some .directory
    return some (.file (← IO.FS.readBinFile name).toList)
  catch _ => return none

def lookupOf (paths : List (List Char)) : IO (List Char → Option Entry) := do
  let found ← paths.mapM fun path => return (path, ← entryAt path)
  return fun path => (Table.find? path found).join

def environment : IO (Option String) := IO.getEnv Settings.variableName

def printLines (lines : List String) : IO Unit := do
  let stderr ← IO.getStderr
  for line in lines do stderr.putStrLn line

def showRecords (file : Option Place) (records : List Record) : IO Unit := do
  let lines := records.map Record.line
  match file with
  | none => printLines lines
  | some place =>
    IO.FS.withFile (String.ofList place.display) .append fun handle =>
      for line in lines do handle.putStrLn line

def finish (outcome : Outcome) : IO UInt32 := do
  showRecords none outcome.journal
  printLines outcome.stderr
  let stdout ← IO.getStdout
  stdout.putStr (String.ofList outcome.stdout)
  stdout.flush
  return UInt32.ofNat outcome.status.code

def refuse (usage : String) : IO UInt32 := do
  (← IO.getStderr).putStr usage
  return UInt32.ofNat ExitStatus.invalidArguments.code

def lint (arguments : List (List Char)) : IO UInt32 := do
  let operands := match Arguments.parse Lint.switches arguments with
    | .ok a => a.operands
    | .error _ => []
  match Lint.run (← lookupOf operands) (← environment) arguments with
  | .ok outcome => finish outcome
  | .error _ => refuse Lint.usage

/-- Read header lines of a frame and then the bytes that it still lacks. The bytes read before are
given in reverse; at the end of the input they are all there is. -/
partial def readFrame (stdin : IO.FS.Stream) (before : List UInt8) : IO (List UInt8) := do
  let bytes ← stdin.read 1
  match bytes.toList with
  | [] => return before.reverse
  | b :: _ =>
    let soFar := b :: before
    match if b = 10 then Frame.missing? soFar.reverse else none with
    | none => readFrame stdin soFar
    | some 0 => return soFar.reverse
    | some n => return soFar.reverse ++ (← stdin.read (USize.ofNat n)).toList

partial def serveInput (options : Serve.Options) (server : Server) : IO Unit := do
  let frame ← readFrame (← IO.getStdin) []
  let (turn, goesOn) := server.serveFrame Serve.usualNesting frame
  showRecords options.logFile (turn.journal.filter (Record.isShown options.verbose))
  let stdout ← IO.getStdout
  for message in turn.sent do
    stdout.putStr (String.ofList ((Frame.encode Serve.usualNesting message).getD []))
  stdout.flush
  if goesOn then serveInput options turn.server

def serve (arguments : List (List Char)) : IO UInt32 := do
  let paths := match Arguments.parse Serve.switches arguments with
    | .ok a => (a.value? .logFile).toList.flatMap fun path =>
        [path, (Place.ofPath path).display, (Place.ofPath path).parent.display]
    | .error _ => []
  match Serve.start (← lookupOf paths) (← environment) arguments with
  | .error _ => refuse Serve.usage
  | .ok (.finished outcome) => finish outcome
  | .ok (.serving options settings warnings) =>
    showRecords options.logFile (warnings.filter (Record.isShown options.verbose))
    serveInput options { settings }
    return UInt32.ofNat ExitStatus.success.code

end TeachAsm.CommandLine

open TeachAsm CommandLine in
def main (arguments : List String) : IO UInt32 :=
  match arguments with
  | command :: rest =>
    if command = Lint.name then lint (rest.map String.toList)
    else if command = serverName then serve (rest.map String.toList)
    else refuse (Lint.usage ++ Serve.usage)
  | [] => refuse (Lint.usage ++ Serve.usage)
