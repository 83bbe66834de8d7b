import TeachAsm.Server.Basic

/-!
# Handlers

What the server does for each method of the protocol. Documents are synchronised in full: the last
change of a document holds its whole text.
-/

namespace TeachAsm

inductive Method where
  | initializeServer
  | initialized
  | shutdown
  | exit
  | didOpen
  | didChange
  | didSave
  | didClose
  | completion
  | completionResolve
  | didChangeConfiguration
  | didChangeWatchedFiles
deriving DecidableEq, Repr

namespace Method

def all : List Method :=
  [.initializeServer, .initialized, .shutdown, .exit, .didOpen, .didChange, .didSave, .didClose,
   .completion, .completionResolve, .didChangeConfiguration, .didChangeWatchedFiles]

def name : Method → String
  | .initializeServer => "initialize"
  | .initialized => "initialized"
  | .shutdown => "shutdown"
  | .exit => "exit"
  | .didOpen => "textDocument/didOpen"
  | .didChange => "textDocument/didChange"
  | .didSave => "textDocument/didSave"
  | .didClose => "textDocument/didClose"
  | .completion => "textDocument/completion"
  | .completionResolve => "completionItem/resolve"
  | .didChangeConfiguration => "workspace/didChangeConfiguration"
  | .didChangeWatchedFiles => "workspace/didChangeWatchedFiles"

def ofName? (name : Text) : Option Method := all.find? (fun m => Text.ofString m.name == name)

end Method

def serverName : String := "pdp8-lsp"

def serverVersion : String := "1.0.0"

/-- The document that a message names: the members of its `textDocument` and the identifier. -/
def namedDocument (params : Json) : Except Failure (List (Text × Json) × Json) :=
  match params.member "textDocument" with
  | .error e => .error (.internal (.misuse e))
  | .ok (some (.obj item)) =>
    match Json.find? "uri" item with
    | some uri => .ok (item, uri)
    | none => .error (.protocol (.invalidParams "Missing textDocument.uri"))
  | .ok _ => .error (.protocol (.invalidParams "Missing textDocument.uri"))

def noFullText : Failure := .protocol (.invalidParams "Expected a full-text content change")

def changedText (change : Json) : Except Failure Json :=
  match change with
  | .obj members =>
    match Json.find? "text" members with
    | some text => .ok text
    | none => .error noFullText
  | .arr items =>
    if items.contains (.str "text") then .error (.internal (.misuse (.notIndex "str")))
    else .error noFullText
  | .str s =>
    if Text.occursIn (Text.ofString "text") s then .error (.internal (.misuse .notTextIndex))
    else .error noFullText
  | v => .error (.internal (.misuse (.notContainer v.kind)))

def lastText (changes : Json) : Except Failure Json :=
  if !changes.isPresent then .error noFullText
  else match changes with
    | .arr items =>
      match items.getLast? with
      | some change => changedText change
      | none => .error noFullText
    | .str _ => .error noFullText
    | .obj _ => .error (.internal (.misuse (.missingKey "-1")))
    | v => .error (.internal (.misuse (.notIndexable v.kind)))

namespace Server

def capabilities (workspaceFolders : Bool) : Json :=
  let sync : Json := .obj [("openClose", .bool true), ("change", .int 1),
    ("save", .obj [("includeText", .bool true)])]
  let folders : Json := .obj [("workspaceFolders", .obj [("supported", .bool true)])]
  let completion : Json := .obj [("resolveProvider", .bool true)]
  .obj (("textDocumentSync", sync) :: ("completionProvider", completion) ::
    Json.optionalMember "workspace" (if workspaceFolders then some folders else none))

def workspaceFolders (params : Json) : Except Misuse Bool := do
  let client := Json.orEmpty (← params.member "capabilities")
  let workspace := Json.orEmpty (← client.member "workspace")
  let folders ← workspace.member "workspaceFolders"
  return folders.any Json.isPresent

def handleInitialize (s : Server) (params : Json) : Turn :=
  match workspaceFolders params, params.member "initializationOptions" with
  | .error e, _ | _, .error e => .misuse s e
  | .ok folders, .ok options =>
    let answer : Json := .obj [("capabilities", capabilities folders),
      ("serverInfo", .obj [("name", .str serverName), ("version", .str serverVersion)])]
    match options.bind Json.nonNull? with
    | none => { server := s, outcome := .ok answer }
    | some options =>
      match Settings.read false options with
      | .error e => .fail s (.internal (.setting e))
      | .ok (settings, journal) => { server := { s with settings }, journal, outcome := .ok answer }

def handleDidOpen (s : Server) (params : Json) : Turn :=
  match namedDocument params with
  | .error e => .fail s e
  | .ok (item, uri) =>
    match Key.of uri with
    | .error e => .misuse s e
    | .ok key =>
      let document : Document :=
        { uri
          text := (Json.find? "text" item).getD (.str "")
          version := (Json.find? "version" item).bind Json.nonNull? }
      { s with documents := s.documents.insert key document }.publish [document]

def revise (s : Server) (uri text : Json) (version : Option Json) : Turn :=
  match Key.of uri with
  | .error e => .misuse s e
  | .ok key =>
    { s with documents := s.documents.update key uri text version }.publish
      [s.documents.revised key uri text version]

def handleDidChange (s : Server) (params : Json) : Turn :=
  match namedDocument params with
  | .error e => .fail s e
  | .ok (item, uri) =>
    match params.member "contentChanges" with
    | .error e => .misuse s e
    | .ok changes =>
      match lastText (changes.getD .null) with
      | .error e => .fail s e
      | .ok text => s.revise uri text ((Json.find? "version" item).bind Json.nonNull?)

def handleDidSave (s : Server) (params : Json) : Turn :=
  match namedDocument params with
  | .error e => .fail s e
  | .ok (_, uri) =>
    match params.member "text" with
    | .error e => .misuse s e
    | .ok text =>
      match text.bind Json.nonNull? with
      | some text => s.revise uri text none
      | none =>
        match Key.of uri with
        | .error e => .misuse s e
        | .ok key => s.publish (s.documents.get? key).toList

def handleDidClose (s : Server) (params : Json) : Turn :=
  match namedDocument params with
  | .error e => .fail s e
  | .ok (_, uri) =>
    match s.documents.close uri with
    | .error e => .misuse s e
    | .ok (documents, wasOpen) =>
      { server := { s with documents }
        sent := if wasOpen then [Message.publishDiagnostics uri [] none] else [] }

/-- A column: an integer, or none for the end of the line. -/
def column (v : Json) : Except Misuse (Option Int) :=
  match v with
  | .null => .ok none
  | .int n => .ok (some n)
  | .bool b => .ok (some (if b then 1 else 0))
  | _ => .error .notBound

def completionsAt (text line character : Json) : Except Misuse (List Completion) :=
  match text with
  | .str chars =>
    let onLine (n : Int) : Except Misuse (List Completion) :=
      if 0 ≤ n ∧ n < (Text.lines chars).length then
        (column character).map (fun c => Completion.suggest chars n c)
      else .ok []
    match line with
    | .int n => onLine n
    | .bool b => onLine (if b then 1 else 0)
    | .real x => if x.isBelow (Text.lines chars).length then .error (.notIndex "float") else .ok []
    | v => .error (.notComparable v.kind)
  | v => .error (.noMember v.kind "split")

def handleCompletion (s : Server) (params : Json) : Turn :=
  match namedDocument params with
  | .error e => .fail s e
  | .ok (_, uri) =>
    match Key.of uri with
    | .error e => .misuse s e
    | .ok key =>
      match s.documents.get? key with
      | none => { server := s, outcome := .ok (.arr []) }
      | some document =>
        let items : Except Misuse (List Completion) := do
          let position := Json.orEmpty (← params.member "position")
          let line ← position.member "line"
          let character ← position.member "character"
          completionsAt document.text (line.getD (.int 0)) (character.getD (.int 0))
        match items with
        | .error e => .misuse s e
        | .ok items => { server := s, outcome := .ok (.arr (items.map Completion.toJson)) }

def handleDidChangeConfiguration (s : Server) (params : Json) : Turn :=
  match params.member "settings" with
  | .error e => .misuse s e
  | .ok payload =>
    match Settings.read false (payload.getD .null) with
    | .error e => .fail s (.internal (.setting e))
    | .ok (settings, journal) =>
      let s' := { s with settings }
      let turn := s'.publish s'.documents.toList
      { turn with
        journal := journal ++ ⟨.debug, .server, "Settings changed: " ++ settings.display⟩ ::
          turn.journal }

def handle (s : Server) (method : Method) (params : Json) : Turn :=
  match method with
  | .initializeServer => s.handleInitialize params
  | .initialized =>
    { server := s
      journal := [⟨.info, .server, serverName ++ " " ++ serverVersion ++ " initialized"⟩] }
  | .shutdown => { server := { s with shutdownRequested := true } }
  | .exit => { server := { s with running := false } }
  | .didOpen => s.handleDidOpen params
  | .didChange => s.handleDidChange params
  | .didSave => s.handleDidSave params
  | .didClose => s.handleDidClose params
  | .completion => s.handleCompletion params
  | .completionResolve => { server := s, outcome := .ok params }
  | .didChangeConfiguration => s.handleDidChangeConfiguration params
  | .didChangeWatchedFiles => s.publish s.documents.toList

/-- Look a method up and handle it. An unknown method is refused only if an answer is due. -/
def dispatch (s : Server) (method params : Json) (answerDue : Bool) : Turn :=
  let unknown : Turn :=
    if answerDue then
      .fail s (.protocol (.methodNotFound ("Method not found: " ++ method.display)))
    else { server := s }
  match method with
  | .arr _ | .obj _ => .misuse s (.notKey method.kind)
  | .str name =>
    match Method.ofName? name with
    | some m => s.handle m params
    | none => unknown
  | _ => unknown

structure Reply where
  server : Server
  response : Option Json := none
  sent : List Json := []
  journal : List Record := []

def failureReport (method : Json) : Failure → Record × ProtocolError
  | .protocol e =>
    (⟨.warning, .server, method.display ++ ": " ++ e.display⟩, e)
  | .internal e =>
    (⟨.error, .server, method.display ++ " failed"⟩,
      .internalError ("Internal error: " ++ e.message))

/-- Process a message. It is answered exactly when it has an identifier that is not null. -/
def process (s : Server) (message : Json) : Except Misuse Reply :=
  match message with
  | .obj members =>
    let method := (Json.find? "method" members).getD (.str "")
    let params := Json.orEmpty (Json.find? "params" members)
    let id := (Json.find? "id" members).bind Json.nonNull?
    let turn := s.dispatch method params id.isSome
    match turn.outcome with
    | .ok value =>
      .ok { server := turn.server, sent := turn.sent, journal := turn.journal
            response := id.map (fun id => Message.result id value) }
    | .error failure =>
      let (record, e) := failureReport method failure
      .ok { server := turn.server, sent := turn.sent, journal := turn.journal ++ [record]
            response := id.map (fun id => Message.error id e) }
  | v => .error (.noMember v.kind "get")

end Server

end TeachAsm
