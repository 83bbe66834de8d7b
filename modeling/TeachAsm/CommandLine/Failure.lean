import TeachAsm.CommandLine.Terminal
import TeachAsm.Server.Message
import TeachAsm.Settings
import TeachAsm.Text.Utf8

/-!
# Failures of a command

Every failure is reported in one line and gives the command its exit status.
-/

namespace TeachAsm.CommandLine

inductive ExitStatus where
  | success
  | problems
  | invalidArguments
  | internal
deriving DecidableEq, Repr

def ExitStatus.code : ExitStatus → Nat
  | success => 0
  | problems => 1
  | invalidArguments => 2
  | internal => 3

inductive Failure where
  | setting (e : InvalidSetting)
  | protocol (e : ProtocolError)
  | badParameter (message : String)
  | unreadable (message : String)
  | undecodable (e : Utf8.Refusal)
  | unexpected (message : String)
deriving DecidableEq

namespace Failure

def status : Failure → ExitStatus
  | setting _ | badParameter _ | unreadable _ | undecodable _ => .invalidArguments
  | protocol _ => .problems
  | unexpected _ => .internal

/-- The line for a failure. An activity, if one is given, introduces the failures of the program
itself. -/
def line (activity : Option String) : Failure → String
  | setting e => introduction ++ e.message
  | protocol e => introduction ++ e.display.written
  | badParameter message | unreadable message => "Error: " ++ message
  | undecodable e => "Error: cannot decode source file: " ++ e.message
  | unexpected message => "Internal error: " ++ message
where
  introduction : String :=
    match activity with
    | some name => if name.isEmpty then "Error: " else name ++ " error: "
    | none => "Error: "

/-- The lines for a failure. An unexpected one is followed by a trace if detail is asked for. -/
def report (detail : Bool) (activity : Option String) (trace : List String) (f : Failure) :
    List String :=
  plain (f.line activity) ::
    match f with
    | unexpected _ => if detail then trace else []
    | _ => []

def emptyTrace : List String := ["NoneType: None"]

end Failure

structure Outcome where
  status : ExitStatus := .success
  stdout : List Char := []
  stderr : List String := []
  journal : List Record := []
  journalFile : Bool := false

end TeachAsm.CommandLine
