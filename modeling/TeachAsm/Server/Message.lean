import TeachAsm.Completion
import TeachAsm.Diagnostic
import TeachAsm.Json.Value

/-!
# Outgoing messages

The JSON of diagnostics, completions, notifications and responses, with members in the order in
which they are written.
-/

namespace TeachAsm

def Position.toJson (p : Position) : Json :=
  .obj [("line", .int p.line), ("character", .int p.character)]

def Range.toJson (r : Range) : Json :=
  .obj [("start", r.start.toJson), ("end", r.stop.toJson)]

def Diagnostic.members (d : Diagnostic) : List (Text × Json) :=
  [("range", d.range.toJson), ("message", .str d.message), ("severity", .int d.severity.code),
   ("source", .str Diagnostic.source)]

def Diagnostic.toJson (d : Diagnostic) : Json := .obj d.members

def Completion.toJson (c : Completion) : Json :=
  .obj [("label", .str c.word), ("kind", .int c.kind.code), ("detail", .str c.detail),
    ("documentation", .str c.detail)]

structure ProtocolError where
  code : Int
  message : Text
  data : Option Json := none
deriving DecidableEq

namespace ProtocolError

def parseError (message : Text) : ProtocolError := { code := -32700, message }

def methodNotFound (message : Text) : ProtocolError := { code := -32601, message }

def invalidParams (message : Text) : ProtocolError := { code := -32602, message }

def internalError (message : Text) : ProtocolError := { code := -32603, message }

def display (e : ProtocolError) : Text :=
  "[" ++ Radix.decimal.text e.code ++ "] " ++ e.message

def toJson (e : ProtocolError) : Json :=
  .obj (("code", .int e.code) :: ("message", .str e.message) :: Json.optionalMember "data" e.data)

end ProtocolError

namespace Message

def notification (method : String) (params : Json) : Json :=
  .obj [("jsonrpc", .str "2.0"), ("method", .str method), ("params", params)]

def result (id value : Json) : Json :=
  .obj [("jsonrpc", .str "2.0"), ("id", id), ("result", value)]

def error (id : Json) (e : ProtocolError) : Json :=
  .obj [("jsonrpc", .str "2.0"), ("id", id), ("error", e.toJson)]

def publishDiagnostics (uri : Json) (diagnostics : List Diagnostic) (version : Option Json) :
    Json :=
  notification "textDocument/publishDiagnostics"
    (.obj (("uri", uri) :: ("diagnostics", .arr (diagnostics.map Diagnostic.toJson)) ::
      Json.optionalMember "version" version))

end Message

end TeachAsm
