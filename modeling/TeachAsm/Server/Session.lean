import TeachAsm.Server.Frame
import TeachAsm.Server.Handlers

/-!
# Sessions

A session reads frames from a stream and processes their messages in order, until the client exits
or the stream is over. A frame that cannot be read, or that holds no object, is noted and skipped.
-/

namespace TeachAsm

/-- What a session gives: the last state, every message sent, the journal, and the bytes that were
not read. -/
structure Transcript where
  server : Server
  sent : List Json := []
  journal : List Record := []
  rest : List UInt8 := []

namespace Transcript

def after (sent : List Json) (journal : List Record) (t : Transcript) : Transcript :=
  { t with sent := sent ++ t.sent, journal := journal ++ t.journal }

end Transcript

namespace Server

def droppedRecord (e : ProtocolError) : Record :=
  ⟨.warning, .server, "Dropping message: " ++ e.display⟩

def errorRecord : Record := ⟨.error, .server, "Server error"⟩

/-- What is sent of a reply: the messages, and then the response unless it nests too deep. -/
def Reply.written (nesting : Frame.Nesting) (r : Reply) : List Json :=
  r.sent ++ (r.response.filter nesting.allows).toList

/-- The journal of a reply; a response that cannot be written is noted. -/
def Reply.noted (nesting : Frame.Nesting) (r : Reply) : List Record :=
  r.journal ++ if r.response.all nesting.allows then [] else [errorRecord]

def serveFrame (nesting : Frame.Nesting) (s : Server) (bytes : List UInt8) : Transcript × Bool :=
  match Frame.read nesting bytes with
  | .ended rest => ({ server := s, rest }, false)
  | .incomplete _ _ => ({ server := s }, false)
  | .refused e rest => ({ server := s, journal := [droppedRecord e], rest }, true)
  | .failed _ rest => ({ server := s, journal := [errorRecord], rest }, true)
  | .message value rest =>
    match s.process value with
    | .error _ => ({ server := s, journal := [errorRecord], rest }, true)
    | .ok reply =>
      ({ server := reply.server
         sent := reply.written nesting
         journal := reply.noted nesting
         rest }, reply.server.running)

def serveFrames (nesting : Frame.Nesting) : Nat → Server → List UInt8 → Transcript
  | 0, s, bytes => { server := s, rest := bytes }
  | fuel + 1, s, bytes =>
    let (first, goesOn) := s.serveFrame nesting bytes
    if goesOn then (serveFrames nesting fuel first.server first.rest).after first.sent first.journal
    else first

/-- Serve a whole stream. Every frame takes a byte, so the stream is over before the frames. -/
def serve (nesting : Frame.Nesting) (s : Server) (bytes : List UInt8) : Transcript :=
  serveFrames nesting (bytes.length + 1) { s with running := true } bytes

end Server

end TeachAsm
