import TeachAsm.Analysis
import TeachAsm.Server.Documents
import TeachAsm.Server.Message
import TeachAsm.Settings

/-!
# Server

The state of a language server, and what handling one message gives: the next state, the messages
sent, the journal and a value or a failure.
-/

namespace TeachAsm

structure Server where
  documents : Documents := {}
  settings : Settings := {}
  shutdownRequested : Bool := false
  /-- False once the client has asked to exit. -/
  running : Bool := true
deriving DecidableEq

/-- A failure inside a handler that the protocol has no code of its own for. -/
inductive InternalError where
  | analysis (f : Fault)
  | setting (e : SettingsError)
  | misuse (e : Misuse)
deriving DecidableEq

def InternalError.message : InternalError → String
  | analysis f => f.message
  | setting e => e.message
  | misuse e => e.message

inductive Failure where
  | protocol (e : ProtocolError)
  | internal (e : InternalError)
deriving DecidableEq

/-- What a handler does. The state and the messages stand even if it fails. -/
structure Turn where
  server : Server
  sent : List Json := []
  journal : List Record := []
  outcome : Except Failure Json := .ok .null

namespace Turn

def fail (server : Server) (failure : Failure) : Turn := { server, outcome := .error failure }

def misuse (server : Server) (e : Misuse) : Turn := fail server (.internal (.misuse e))

end Turn

def Document.validate (limit : Int) (d : Document) : List Record × Except InternalError Json :=
  match d.text with
  | .str text =>
    let journal := analysisJournal limit text
    match analyze limit text with
    | .ok diagnostics =>
      (journal ++ [⟨.debug, .server, s!"Publishing {diagnostics.length} diagnostics for " ++
          d.uri.display⟩],
        .ok (Message.publishDiagnostics d.uri diagnostics d.version))
    | .error f => (journal, .error (.analysis f))
  | v => ([], .error (.misuse (.noMember v.kind "split")))

/-- What publishing the diagnostics of some documents does; it ends at the first failure. -/
structure Publication where
  sent : List Json := []
  journal : List Record := []
  failure : Option InternalError := none

def publishAll (limit : Int) : List Document → Publication
  | [] => {}
  | d :: rest =>
    match d.validate limit with
    | (journal, .error e) => { journal, failure := some e }
    | (journal, .ok message) =>
      let later := publishAll limit rest
      { sent := message :: later.sent
        journal := journal ++ later.journal
        failure := later.failure }

namespace Server

def publish (s : Server) (documents : List Document) : Turn :=
  let p := publishAll s.settings.maxProblems documents
  { server := s
    sent := p.sent
    journal := p.journal
    outcome := match p.failure with
      | some e => .error (.internal e)
      | none => .ok .null }

end Server

end TeachAsm
