import TeachAsm.Server.Handlers

/-!
# Turns of the server

What handling a message can come to is said by two relations, one for messages about a document and
one for all, with a rule for each way in which a turn can go. The handlers are opened here only:
what they do to the documents, to the settings and to the flags is read off the rules.
-/

namespace TeachAsm

namespace Documents

/-- Every document is stored under the key of its identifier. -/
def Keyed (documents : Documents) : Prop :=
  ∀ key d, documents.get? key = some d → Key.of d.uri = .ok key

theorem contains_eq (documents : Documents) (key : Key) :
    documents.contains key = (documents.get? key).isSome :=
  rfl

theorem mem_toList_iff (documents : Documents) (d : Document) :
    d ∈ documents.toList ↔ ∃ key, documents.get? key = some d :=
  documents.table.mem_values_iff d

theorem Keyed.insert {documents : Documents} (h : documents.Keyed) {key : Key} {d : Document}
    (hkey : Key.of d.uri = .ok key) : (documents.insert key d).Keyed := by
  intro k e he
  rw [get?_insert] at he
  split at he
  · next hk =>
      cases he
      rw [hk]
      exact hkey
  · exact h k e he

theorem Keyed.erase {documents : Documents} (h : documents.Keyed) (key : Key) :
    (documents.erase key).Keyed := by
  intro k e he
  rw [get?_erase] at he
  split at he
  · cases he
  · exact h k e he

theorem Keyed.revised {documents : Documents} (h : documents.Keyed) {key : Key} {uri : Json}
    (hkey : Key.of uri = .ok key) (text : Json) (version : Option Json) :
    Key.of (documents.revised key uri text version).uri = .ok key := by
  unfold Documents.revised
  split
  · exact hkey
  · next d hd => exact h key d hd

end Documents

namespace Message

def method (members : List (Text × Json)) : Json := (Json.find? "method" members).getD (.str "")

def params (members : List (Text × Json)) : Json := Json.orEmpty (Json.find? "params" members)

def id? (members : List (Text × Json)) : Option Json :=
  (Json.find? "id" members).bind Json.nonNull?

/-- The identifier of the document that the parameters of a message name. -/
def document? (params : Json) : Option Json :=
  match params with
  | .obj members =>
    match Json.find? "textDocument" members with
    | some (.obj item) => Json.find? "uri" item
    | _ => none
  | _ => none

def documentKey? (params : Json) : Option Key :=
  (document? params).bind fun uri => (Key.of uri).toOption

/-- The payload of a new configuration. -/
def configuration (params : Json) : Json :=
  match params.member "settings" with
  | .ok payload => payload.getD .null
  | .error _ => .null

def options? (params : Json) : Option Json :=
  match params.member "initializationOptions" with
  | .ok options => options.bind Json.nonNull?
  | .error _ => none

theorem documentKey?_of {params uri : Json} {key : Key} (huri : document? params = some uri)
    (hkey : Key.of uri = .ok key) : documentKey? params = some key := by
  simp [documentKey?, huri, hkey, Except.toOption]

end Message

namespace Method

/-- The value can be looked up, and no method goes by it. -/
def Unknown (method : Json) : Prop :=
  (∃ key, Key.of method = .ok key) ∧ ∀ m : Method, method ≠ .str m.name

private theorem ofName?_name (m : Method) : ofName? m.name = some m := by
  cases m <;> simp [ofName?, all, name]

private theorem name_of_ofName? {name : Text} {m : Method} (h : ofName? name = some m) :
    name = Text.ofString m.name := by
  have hname := List.find?_some h
  rw [beq_iff_eq] at hname
  exact hname.symm

end Method

/-- The failures that handlers report, and those that they run into. -/
inductive Failure.OfHandler : Failure → Prop
  | noDocument : OfHandler (.protocol (.invalidParams "Missing textDocument.uri"))
  | noText : OfHandler noFullText
  | internal (e : InternalError) : OfHandler (.internal e)

/-- A message names a document or is refused for want of one. -/
theorem namedDocument_cases (params : Json) :
    (∃ item uri, namedDocument params = .ok (item, uri) ∧ Message.document? params = some uri) ∨
      ∃ failure, namedDocument params = .error failure ∧ failure.OfHandler ∧
        Message.document? params = none := by
  cases params with
  | obj members =>
      cases hmember : Json.find? "textDocument" members with
      | none =>
          right
          exact ⟨_, by simp [namedDocument, Json.member, hmember], .noDocument,
            by simp [Message.document?, hmember]⟩
      | some value =>
          cases value with
          | obj item =>
              cases huri : Json.find? "uri" item with
              | none =>
                  right
                  exact ⟨_, by simp [namedDocument, Json.member, hmember, huri], .noDocument,
                    by simp [Message.document?, hmember, huri]⟩
              | some uri =>
                  left
                  exact ⟨item, uri, by simp [namedDocument, Json.member, hmember, huri],
                    by simp [Message.document?, hmember, huri]⟩
          | _ =>
              right
              exact ⟨_, by simp [namedDocument, Json.member, hmember], .noDocument,
                by simp [Message.document?, hmember]⟩
  | _ =>
      right
      exact ⟨_, rfl, .internal _, rfl⟩

private theorem ofHandler_of_changedText {change : Json} {failure : Failure}
    (h : changedText change = .error failure) : failure.OfHandler := by
  unfold changedText at h
  split at h
  · split at h
    · cases h
    · cases h
      exact .noText
  · split at h <;> cases h
    · exact .internal _
    · exact .noText
  · split at h <;> cases h
    · exact .internal _
    · exact .noText
  · cases h
    exact .internal _

private theorem ofHandler_of_lastText {changes : Json} {failure : Failure}
    (h : lastText changes = .error failure) : failure.OfHandler := by
  unfold lastText at h
  split at h
  · cases h
    exact .noText
  · split at h
    · split at h
      · exact ofHandler_of_changedText h
      · cases h
        exact .noText
    · cases h
      exact .noText
    · cases h
      exact .internal _
    · cases h
      exact .internal _

/-- What handling a message about a document can come to. -/
inductive DocumentTurn (s : Server) (params : Json) : Turn → Prop
  | refused {failure : Failure} (fails : failure.OfHandler) :
      DocumentTurn s params (.fail s failure)
  | answered (value : Json) : DocumentTurn s params { server := s, outcome := .ok value }
  | stored {key : Key} {document : Document} (named : Message.documentKey? params = some key)
      (keyed : s.documents.Keyed → Key.of document.uri = .ok key) :
      DocumentTurn s params
        ({ s with documents := s.documents.insert key document }.publish [document])
  | shown {key : Key} (named : Message.documentKey? params = some key) :
      DocumentTurn s params (s.publish (s.documents.get? key).toList)
  /-- The document that it names is closed, and shows nothing if it was open. -/
  | closed {uri : Json} {key : Key} (named : Message.document? params = some uri)
      (hkey : Key.of uri = .ok key) :
      DocumentTurn s params
        { server := { s with documents := s.documents.erase key }
          sent := if s.documents.contains key then [Message.publishDiagnostics uri [] none]
            else [] }

namespace Server

variable {s : Server} {params : Json}

private theorem documentTurn_revise {uri : Json} (huri : Message.document? params = some uri)
    (text : Json) (version : Option Json) :
    DocumentTurn s params (s.revise uri text version) := by
  unfold revise
  split
  · exact .refused (.internal _)
  · next key hkey =>
      exact .stored (Message.documentKey?_of huri hkey) fun h => h.revised hkey text version

private theorem documentTurn_didOpen : DocumentTurn s params (s.handleDidOpen params) := by
  unfold handleDidOpen
  rcases namedDocument_cases params with ⟨item, uri, hnamed, huri⟩ | ⟨failure, hnamed, hfails, -⟩
  · simp only [hnamed]
    split
    · exact .refused (.internal _)
    · next key hkey => exact .stored (Message.documentKey?_of huri hkey) fun _ => hkey
  · simp only [hnamed]
    exact .refused hfails

private theorem documentTurn_didChange : DocumentTurn s params (s.handleDidChange params) := by
  unfold handleDidChange
  rcases namedDocument_cases params with ⟨item, uri, hnamed, huri⟩ | ⟨failure, hnamed, hfails, -⟩
  · simp only [hnamed]
    split
    · exact .refused (.internal _)
    · split
      · next hlast => exact .refused (ofHandler_of_lastText hlast)
      · exact documentTurn_revise huri _ _
  · simp only [hnamed]
    exact .refused hfails

private theorem documentTurn_didSave : DocumentTurn s params (s.handleDidSave params) := by
  unfold handleDidSave
  rcases namedDocument_cases params with ⟨item, uri, hnamed, huri⟩ | ⟨failure, hnamed, hfails, -⟩
  · simp only [hnamed]
    split
    · exact .refused (.internal _)
    · split
      · exact documentTurn_revise huri _ _
      · split
        · exact .refused (.internal _)
        · next key hkey => exact .shown (Message.documentKey?_of huri hkey)
  · simp only [hnamed]
    exact .refused hfails

private theorem documentTurn_didClose : DocumentTurn s params (s.handleDidClose params) := by
  unfold handleDidClose
  rcases namedDocument_cases params with ⟨item, uri, hnamed, huri⟩ | ⟨failure, hnamed, hfails, -⟩
  · simp only [hnamed]
    cases hkey : Key.of uri with
    | ok key =>
        simp only [s.documents.close_of_key hkey]
        exact .closed huri hkey
    | error e =>
        -- Without a key the close fails, unless no document is open.
        unfold Documents.close
        rw [hkey]
        by_cases hsize : s.documents.size = 0
        · simp only [hsize, if_true]
          exact .answered .null
        · simp only [hsize, if_false]
          exact .refused (.internal _)
  · simp only [hnamed]
    exact .refused hfails

private theorem documentTurn_completion : DocumentTurn s params (s.handleCompletion params) := by
  unfold handleCompletion
  rcases namedDocument_cases params with ⟨item, uri, hnamed, huri⟩ | ⟨failure, hnamed, hfails, -⟩
  · simp only [hnamed]
    split
    · exact .refused (.internal _)
    · split
      · exact .answered _
      · split
        · exact .refused (.internal _)
        · exact .answered _
  · simp only [hnamed]
    exact .refused hfails

end Server

def Method.aboutDocument : List Method :=
  [.didOpen, .didChange, .didSave, .didClose, .completion]

theorem Server.documentTurn_handle {s : Server} {params : Json} {m : Method}
    (h : m ∈ Method.aboutDocument) : DocumentTurn s params (s.handle m params) := by
  cases m with
  | didOpen => exact documentTurn_didOpen
  | didChange => exact documentTurn_didChange
  | didSave => exact documentTurn_didSave
  | didClose => exact documentTurn_didClose
  | completion => exact documentTurn_completion
  | _ => exact absurd h (by decide)

/-- What handling a message can come to. -/
inductive HandlerTurn (s : Server) (params : Json) : Method → Turn → Prop
  /-- It is about a document, or it is refused or answered and nothing else happens. -/
  | document {m : Method} {t : Turn} (goesOn : m ≠ .exit) (turn : DocumentTurn s params t) :
      HandlerTurn s params m t
  /-- The options of an `initialize` are the new settings, and nothing is published. -/
  | started {options value : Json} {settings : Settings} {journal : List Record}
      (brought : Message.options? params = some options)
      (read : Settings.read false options = .ok (settings, journal)) :
      HandlerTurn s params .initializeServer
        { server := { s with settings }, journal, outcome := .ok value }
  | initialized (journal : List Record) :
      HandlerTurn s params .initialized { server := s, journal }
  | shutdown : HandlerTurn s params .shutdown { server := { s with shutdownRequested := true } }
  | exit : HandlerTurn s params .exit { server := { s with running := false } }
  /-- All documents are published under the settings of a new configuration. -/
  | configured {settings : Settings} {journal : List Record} (noted : List Record)
      (read : Settings.read false (Message.configuration params) = .ok (settings, journal)) :
      HandlerTurn s params .didChangeConfiguration
        { { s with settings }.publish s.documents.toList with journal := noted }
  | reviewed : HandlerTurn s params .didChangeWatchedFiles (s.publish s.documents.toList)

namespace Server

variable {s : Server} {params : Json}

private theorem handlerTurn_initialize :
    HandlerTurn s params .initializeServer (s.handleInitialize params) := by
  have hother : Method.initializeServer ≠ .exit := by decide
  unfold handleInitialize
  split
  · exact .document hother (.refused (.internal _))
  · exact .document hother (.refused (.internal _))
  · next hmember =>
      dsimp only
      split
      · exact .document hother (.answered _)
      · next hvalue =>
          split
          · exact .document hother (.refused (.internal _))
          · next hread => exact .started (by simp [Message.options?, hmember, hvalue]) hread

private theorem handlerTurn_didChangeConfiguration :
    HandlerTurn s params .didChangeConfiguration (s.handleDidChangeConfiguration params) := by
  have hother : Method.didChangeConfiguration ≠ .exit := by decide
  unfold handleDidChangeConfiguration
  split
  · exact .document hother (.refused (.internal _))
  · next hmember =>
      split
      · exact .document hother (.refused (.internal _))
      · next hread => exact .configured _ (by simpa [Message.configuration, hmember] using hread)

theorem handlerTurn_handle (m : Method) : HandlerTurn s params m (s.handle m params) := by
  cases m with
  | initializeServer => exact handlerTurn_initialize
  | initialized => exact .initialized _
  | shutdown => exact .shutdown
  | exit => exact .exit
  | completionResolve => exact .document (by decide) (.answered params)
  | didChangeConfiguration => exact handlerTurn_didChangeConfiguration
  | didChangeWatchedFiles => exact .reviewed
  | _ => exact .document (by decide) (documentTurn_handle (by decide))

theorem dispatch_name (s : Server) (m : Method) (params : Json) (answerDue : Bool) :
    s.dispatch (.str m.name) params answerDue = s.handle m params := by
  simp only [dispatch, Method.ofName?_name]

def turn (s : Server) (members : List (Text × Json)) : Turn :=
  s.dispatch (Message.method members) (Message.params members) (Message.id? members).isSome

/-- A method is handled, or it is unknown, or it is no value that can be looked up. -/
theorem turn_cases (s : Server) (members : List (Text × Json)) :
    (∃ m : Method, Message.method members = .str m.name ∧
        s.turn members = s.handle m (Message.params members)) ∨
      Method.Unknown (Message.method members) ∧ s.turn members =
        (if (Message.id? members).isSome then
          .fail s (.protocol (.methodNotFound
            ("Method not found: " ++ (Message.method members).display)))
        else { server := s }) ∨
      (∃ e, Key.of (Message.method members) = .error e) ∧
        s.turn members = .misuse s (.notKey (Message.method members).kind) := by
  unfold turn
  generalize Message.method members = method
  cases method with
  | null | bool b | int n | real x => exact .inr (.inl ⟨⟨⟨_, rfl⟩, by simp⟩, rfl⟩)
  | arr items | obj members => exact .inr (.inr ⟨⟨_, rfl⟩, rfl⟩)
  | str name =>
      cases hm : Method.ofName? name with
      | some m =>
          rw [Method.name_of_ofName? hm]
          exact .inl ⟨m, rfl, s.dispatch_name m _ _⟩
      | none =>
          right; left
          refine ⟨⟨⟨.text name, rfl⟩, ?_⟩, by simp only [dispatch, hm]⟩
          rintro m hname
          rw [Json.str.inj hname, Method.ofName?_name] at hm
          cases hm

/-- What holds of the turns of handlers, and of the turns that leave the server alone because no
handler goes by the method, holds of every turn. -/
theorem turn_induction {s : Server} {members : List (Text × Json)} {p : Turn → Prop}
    (handled : ∀ m t, Message.method members = .str m.name →
      HandlerTurn s (Message.params members) m t → p t)
    (idle : ∀ outcome, (∀ m : Method, Message.method members ≠ .str m.name) →
      p { server := s, outcome }) :
    p (s.turn members) := by
  rcases s.turn_cases members with ⟨m, hm, hturn⟩ | ⟨hunknown, hturn⟩ | ⟨⟨e, hkey⟩, hturn⟩
  · rw [hturn]
    exact handled m _ hm (handlerTurn_handle m)
  · rw [hturn]
    split
    · exact idle _ hunknown.2
    · exact idle _ hunknown.2
  · rw [hturn]
    apply idle
    intro m hm
    rw [hm] at hkey
    cases hkey

end Server

/-- The response that a turn gives to a message with a method and an identifier. -/
def Turn.response (t : Turn) (method : Json) (id : Option Json) : Option Json :=
  id.map fun id =>
    match t.outcome with
    | .ok value => Message.result id value
    | .error failure => Message.error id (Server.failureReport method failure).2

/-- Processing an object takes one turn, and a response may follow it. -/
theorem Server.exists_reply (s : Server) (members : List (Text × Json)) :
    ∃ reply, s.process (.obj members) = .ok reply ∧ reply.server = (s.turn members).server ∧
      reply.sent = (s.turn members).sent ∧ reply.response =
        (s.turn members).response (Message.method members) (Message.id? members) := by
  let reply (journal : List Record) : Reply :=
    { server := (s.turn members).server
      response := (s.turn members).response (Message.method members) (Message.id? members)
      sent := (s.turn members).sent
      journal }
  cases houtcome : (s.turn members).outcome with
  | ok value =>
      refine ⟨reply (s.turn members).journal, ?_, rfl, rfl, rfl⟩
      show (match (s.turn members).outcome with | .ok _ => _ | .error _ => _) = _
      simp only [reply, Turn.response, houtcome]
      rfl
  | error failure =>
      refine ⟨reply ((s.turn members).journal ++
        [(failureReport (Message.method members) failure).1]), ?_, rfl, rfl, rfl⟩
      show (match (s.turn members).outcome with | .ok _ => _ | .error _ => _) = _
      simp only [reply, Turn.response, houtcome]
      rfl

theorem Server.turn_of_process {s : Server} {message : Json} {reply : Reply}
    (h : s.process message = .ok reply) :
    ∃ members, message = .obj members ∧ reply.server = (s.turn members).server ∧
      reply.sent = (s.turn members).sent := by
  cases message with
  | obj members =>
      obtain ⟨_, hprocess, hserver, hsent, -⟩ := s.exists_reply members
      rw [hprocess] at h
      cases h
      exact ⟨members, rfl, hserver, hsent⟩
  | _ => cases h

private theorem Server.ofHandler_of_publish {s : Server} {documents : List Document}
    {failure : Failure} (h : (s.publish documents).outcome = .error failure) :
    failure.OfHandler := by
  simp only [publish] at h
  split at h
  · cases h
    exact .internal _
  · cases h

namespace DocumentTurn

variable {s : Server} {params : Json} {t : Turn}

theorem ofHandler (h : DocumentTurn s params t) {failure : Failure}
    (hfails : t.outcome = .error failure) : failure.OfHandler := by
  cases h with
  | refused fails =>
      cases hfails
      exact fails
  | answered _ => cases hfails
  | stored _ _ => exact Server.ofHandler_of_publish hfails
  | shown _ => exact Server.ofHandler_of_publish hfails
  | closed _ _ => cases hfails

theorem server_eq (h : DocumentTurn s params t) :
    t.server = { s with documents := t.server.documents } := by
  cases h with
  | _ => rfl

theorem keyed (h : DocumentTurn s params t) (hkeyed : s.documents.Keyed) :
    t.server.documents.Keyed := by
  cases h with
  | refused _ => exact hkeyed
  | answered _ => exact hkeyed
  | stored _ hof => exact hkeyed.insert (hof hkeyed)
  | shown _ => exact hkeyed
  | closed _ _ => exact hkeyed.erase _

end DocumentTurn

namespace HandlerTurn

variable {s : Server} {m : Method} {params : Json} {t : Turn}

theorem ofHandler (h : HandlerTurn s params m t) {failure : Failure}
    (hfails : t.outcome = .error failure) : failure.OfHandler := by
  cases h with
  | document _ turn => exact turn.ofHandler hfails
  | configured _ _ => exact Server.ofHandler_of_publish hfails
  | reviewed => exact Server.ofHandler_of_publish hfails
  | _ => cases hfails

theorem keyed (h : HandlerTurn s params m t) (hkeyed : s.documents.Keyed) :
    t.server.documents.Keyed := by
  cases h with
  | document _ turn => exact turn.keyed hkeyed
  | _ => exact hkeyed

theorem running (h : HandlerTurn s params m t) : t.server.running = (s.running && m != .exit) := by
  cases h with
  | document goesOn turn =>
      rw [turn.server_eq]
      simp [goesOn]
  | exit => exact (Bool.and_false _).symm
  | _ => exact (Bool.and_true _).symm

end HandlerTurn

namespace Server

variable {s : Server}

theorem running_turn (members : List (Text × Json)) :
    (s.turn members).server.running = true ↔
      s.running = true ∧ Message.method members ≠ .str "exit" := by
  have hexit (m : Method) : Json.str m.name ≠ .str "exit" ↔ m ≠ .exit := by
    cases m <;> decide
  apply turn_induction (p := fun t => t.server.running = true ↔ _)
  · intro m t hm turn
    rw [turn.running, hm, hexit, Bool.and_eq_true, bne_iff_ne]
  · intro outcome hother
    exact (and_iff_left (hother .exit)).symm

theorem keyed_process (h : s.documents.Keyed) {message : Json} {reply : Reply}
    (hreply : s.process message = .ok reply) : reply.server.documents.Keyed := by
  obtain ⟨members, -, hserver, -⟩ := turn_of_process hreply
  rw [hserver]
  apply turn_induction (p := fun t => t.server.documents.Keyed)
  · exact fun m t _ turn => turn.keyed h
  · exact fun _ _ => h

end Server

end TeachAsm
