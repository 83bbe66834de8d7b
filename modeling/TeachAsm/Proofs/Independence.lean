import TeachAsm.Proofs.Publication

/-!
# Independence of documents

Messages about a document read and write what is stored under its key, and nothing else but the
settings. So what a client sees of one document is the same whichever messages about other
documents come in between.
-/

namespace TeachAsm

/-- Two servers have the same settings and store the same under a key. -/
structure Server.AgreeAt (key : Key) (s t : Server) : Prop where
  settings : s.settings = t.settings
  stored : s.documents.get? key = t.documents.get? key

/-- Two turns send the same and end alike, and leave servers that agree. -/
structure Turn.AgreeAt (key : Key) (a b : Turn) : Prop where
  server : a.server.AgreeAt key b.server
  sent : a.sent = b.sent
  outcome : a.outcome = b.outcome

namespace Server.AgreeAt

variable {key : Key} {s t r : Server}

theorem refl (key : Key) (s : Server) : s.AgreeAt key s := ⟨rfl, rfl⟩

theorem trans (h : s.AgreeAt key t) (h' : t.AgreeAt key r) : s.AgreeAt key r :=
  ⟨h.settings.trans h'.settings, h.stored.trans h'.stored⟩

theorem insert (h : s.AgreeAt key t) (document : Document) :
    AgreeAt key { s with documents := s.documents.insert key document }
      { t with documents := t.documents.insert key document } :=
  ⟨h.settings, by simp⟩

theorem fail (h : s.AgreeAt key t) (failure : Failure) :
    Turn.AgreeAt key (.fail s failure) (.fail t failure) :=
  ⟨h, rfl, rfl⟩

theorem publish (h : s.AgreeAt key t) (documents : List Document) :
    Turn.AgreeAt key (s.publish documents) (t.publish documents) where
  server := h
  sent := by simp only [Server.publish, h.settings]
  outcome := by simp only [Server.publish, h.settings]

end Server.AgreeAt

private theorem namedDocument_of_document? {params uri : Json}
    (h : Message.document? params = some uri) : ∃ item, namedDocument params = .ok (item, uri) := by
  rcases namedDocument_cases params with ⟨item, uri', hnamed, huri⟩ | ⟨failure, -, -, hnone⟩
  · rw [h] at huri
    cases huri
    exact ⟨item, hnamed⟩
  · rw [h] at hnone
    cases hnone

namespace Server

variable {key : Key} {s t : Server} {params uri : Json}

private theorem agreeAt_revise (h : s.AgreeAt key t) (hkey : Key.of uri = .ok key) (text : Json)
    (version : Option Json) :
    Turn.AgreeAt key (s.revise uri text version) (t.revise uri text version) := by
  have hrevised : s.documents.revised key uri text version =
      t.documents.revised key uri text version := by
    simp only [Documents.revised, h.stored]
  simp only [revise, hkey, Documents.update, hrevised]
  exact (h.insert _).publish _

private theorem agreeAt_didOpen (h : s.AgreeAt key t) (huri : Message.document? params = some uri)
    (hkey : Key.of uri = .ok key) :
    Turn.AgreeAt key (s.handleDidOpen params) (t.handleDidOpen params) := by
  obtain ⟨item, hnamed⟩ := namedDocument_of_document? huri
  simp only [handleDidOpen, hnamed, hkey]
  exact (h.insert _).publish _

private theorem agreeAt_didChange (h : s.AgreeAt key t) (huri : Message.document? params = some uri)
    (hkey : Key.of uri = .ok key) :
    Turn.AgreeAt key (s.handleDidChange params) (t.handleDidChange params) := by
  obtain ⟨item, hnamed⟩ := namedDocument_of_document? huri
  simp only [handleDidChange, hnamed]
  cases params.member "contentChanges" with
  | error e => exact h.fail _
  | ok changes =>
      dsimp only
      cases lastText (changes.getD .null) with
      | error e => exact h.fail _
      | ok text => exact agreeAt_revise h hkey _ _

private theorem agreeAt_didSave (h : s.AgreeAt key t) (huri : Message.document? params = some uri)
    (hkey : Key.of uri = .ok key) :
    Turn.AgreeAt key (s.handleDidSave params) (t.handleDidSave params) := by
  obtain ⟨item, hnamed⟩ := namedDocument_of_document? huri
  simp only [handleDidSave, hnamed]
  cases params.member "text" with
  | error e => exact h.fail _
  | ok text =>
      dsimp only
      cases text.bind Json.nonNull? with
      | some text => exact agreeAt_revise h hkey _ _
      | none =>
          simp only [hkey, h.stored]
          exact h.publish _

private theorem agreeAt_didClose (h : s.AgreeAt key t) (huri : Message.document? params = some uri)
    (hkey : Key.of uri = .ok key) :
    Turn.AgreeAt key (s.handleDidClose params) (t.handleDidClose params) := by
  obtain ⟨item, hnamed⟩ := namedDocument_of_document? huri
  simp only [handleDidClose, hnamed, Documents.close_of_key _ hkey, Documents.contains_eq,
    h.stored]
  exact ⟨⟨h.settings, by simp⟩, rfl, rfl⟩

private theorem agreeAt_completion (h : s.AgreeAt key t)
    (huri : Message.document? params = some uri) (hkey : Key.of uri = .ok key) :
    Turn.AgreeAt key (s.handleCompletion params) (t.handleCompletion params) := by
  obtain ⟨item, hnamed⟩ := namedDocument_of_document? huri
  simp only [handleCompletion, hnamed, hkey, h.stored]
  cases t.documents.get? key with
  | none => exact ⟨h, rfl, rfl⟩
  | some document =>
      dsimp only
      split
      · exact h.fail _
      · exact ⟨h, rfl, rfl⟩

private theorem agreeAt_handle {m : Method} (hm : m ∈ Method.aboutDocument) (h : s.AgreeAt key t)
    (huri : Message.document? params = some uri) (hkey : Key.of uri = .ok key) :
    Turn.AgreeAt key (s.handle m params) (t.handle m params) := by
  cases m with
  | didOpen => exact agreeAt_didOpen h huri hkey
  | didChange => exact agreeAt_didChange h huri hkey
  | didSave => exact agreeAt_didSave h huri hkey
  | didClose => exact agreeAt_didClose h huri hkey
  | completion => exact agreeAt_completion h huri hkey
  | _ => exact absurd hm (by decide)

end Server

private theorem Message.ne_of_documentKey? {params : Json} {u : Text} {key : Key}
    (hother : document? params ≠ some (.str u)) (hnamed : documentKey? params = some key) :
    .text u ≠ key := by
  rintro rfl
  obtain ⟨uri, huri, hkey⟩ := Option.bind_eq_some_iff.mp hnamed
  cases hof : Key.of uri with
  | error e =>
      rw [hof] at hkey
      cases hkey
  | ok key =>
      rw [hof] at hkey
      cases hkey
      rw [(Key.of_eq_text_iff uri u).mp hof] at huri
      exact hother huri

private theorem Key.uri_ne_of_ne {uri : Json} {u : Text} {key : Key} (hkey : Key.of uri = .ok key)
    (hne : .text u ≠ key) : uri ≠ .str u := by
  rintro rfl
  cases hkey
  exact hne rfl

namespace DocumentTurn

variable {s : Server} {params : Json} {t : Turn} {u : Text}

private theorem agreeAt_of_other (h : DocumentTurn s params t)
    (hother : Message.document? params ≠ some (.str u)) : t.server.AgreeAt (.text u) s := by
  cases h with
  | refused _ => exact .refl _ s
  | answered _ => exact .refl _ s
  | stored named _ =>
      have hne := Message.ne_of_documentKey? hother named
      exact ⟨rfl, by simp [Server.publish, hne]⟩
  | shown _ => exact .refl _ s
  | closed named hkey =>
      have hne := Message.ne_of_documentKey? hother (Message.documentKey?_of named hkey)
      exact ⟨rfl, by simp [hne]⟩

private theorem published?_of_other (h : DocumentTurn s params t) (hkeyed : s.documents.Keyed)
    (hother : Message.document? params ≠ some (.str u)) {message : Json}
    (hsent : message ∈ t.sent) :
    Message.published? (.str u) message = none := by
  cases h with
  | refused _ => cases hsent
  | answered _ => cases hsent
  | @stored key document named keyed =>
      apply published?_of_mem_publishAll _ hsent
      intro d hd
      rw [List.mem_singleton.mp hd]
      exact Key.uri_ne_of_ne (keyed hkeyed) (Message.ne_of_documentKey? hother named)
  | @shown key named =>
      apply published?_of_mem_publishAll _ hsent
      intro d hd
      have hof := hkeyed key d (Option.mem_toList.mp hd)
      exact Key.uri_ne_of_ne hof (Message.ne_of_documentKey? hother named)
  | @closed uri key named hkey =>
      have huri : uri ≠ .str u := by
        rintro rfl
        exact hother named
      obtain ⟨params, -, hpublished⟩ := Message.published?_publishDiagnostics uri [] none
      dsimp only at hsent
      split at hsent
      · rw [List.mem_singleton.mp hsent, hpublished, if_neg huri]
      · cases hsent

end DocumentTurn

namespace Message

def isAboutDocument : Json → Bool
  | .obj members => Method.aboutDocument.any fun m => method members == .str m.name
  | _ => false

def names (u : Text) : Json → Bool
  | .obj members => document? (params members) == some (.str u)
  | _ => false

end Message

namespace Server

variable {s t : Server} {u : Text} {message : Json}

private theorem exists_handle (h : Message.isAboutDocument message = true) :
    ∃ members, message = .obj members ∧ ∃ m ∈ Method.aboutDocument, ∀ s : Server,
      s.turn members = s.handle m (Message.params members) := by
  cases message with
  | obj members =>
      obtain ⟨m, hm, hmethod⟩ := List.any_eq_true.mp h
      refine ⟨members, rfl, m, hm, ?_⟩
      intro s
      unfold turn
      rw [beq_iff_eq.mp hmethod, dispatch_name]
  | _ => cases h

/-- Servers that agree on a document answer a message about it alike, and go on agreeing. -/
private theorem agreeAt_process (habout : Message.isAboutDocument message = true)
    (hnames : Message.names u message = true) (h : s.AgreeAt (.text u) t) :
    ∃ a b, s.process message = .ok a ∧ t.process message = .ok b ∧ a.sent = b.sent ∧
      a.response = b.response ∧ a.server.AgreeAt (.text u) b.server := by
  obtain ⟨members, rfl, m, hm, hturn⟩ := exists_handle habout
  obtain ⟨a, ha, haserver, hasent, haresponse⟩ := s.exists_reply members
  obtain ⟨b, hb, hbserver, hbsent, hbresponse⟩ := t.exists_reply members
  have hagree : Turn.AgreeAt (.text u) (s.turn members) (t.turn members) := by
    rw [hturn, hturn]
    exact agreeAt_handle hm h (beq_iff_eq.mp hnames) rfl
  refine ⟨a, b, ha, hb, ?_, ?_, ?_⟩
  · rw [hasent, hbsent, hagree.sent]
  · rw [haresponse, hbresponse]
    simp only [Turn.response, hagree.outcome]
  · rw [haserver, hbserver]
    exact hagree.server

/-- A message about another document leaves this one alone and does not publish it. -/
private theorem process_of_other (habout : Message.isAboutDocument message = true)
    (hnames : Message.names u message = false) (hkeyed : s.documents.Keyed) :
    ∃ reply, s.process message = .ok reply ∧ reply.server.AgreeAt (.text u) s ∧
      ∀ notice ∈ reply.sent, Message.published? (.str u) notice = none := by
  obtain ⟨members, rfl, m, hm, hturn⟩ := exists_handle habout
  obtain ⟨reply, hprocess, hserver, hsent, -⟩ := s.exists_reply members
  have hother : Message.document? (Message.params members) ≠ some (.str u) := by
    intro hnamed
    simp [Message.names, hnamed] at hnames
  have hdocument : DocumentTurn s (Message.params members) (s.turn members) := by
    rw [hturn]
    exact documentTurn_handle hm
  refine ⟨reply, hprocess, ?_, ?_⟩
  · rw [hserver]
    exact hdocument.agreeAt_of_other hother
  · rw [hsent]
    intro notice hnotice
    exact hdocument.published?_of_other hkeyed hother hnotice

end Server

/-- Messages that were processed, each with its reply, and the server that they leave. -/
structure Exchange where
  replies : List (Json × Server.Reply)
  server : Server

/-- Process messages in order. One that is no object has no reply and changes nothing. -/
def Server.exchange (s : Server) : List Json → Exchange
  | [] => ⟨[], s⟩
  | message :: rest =>
    match s.process message with
    | .error _ => s.exchange rest
    | .ok reply =>
      let later := reply.server.exchange rest
      { later with replies := (message, reply) :: later.replies }

private theorem Server.exchange_cons {s : Server} {message : Json} {reply : Reply}
    (h : s.process message = .ok reply) (rest : List Json) :
    s.exchange (message :: rest) =
      { reply.server.exchange rest with
        replies := (message, reply) :: (reply.server.exchange rest).replies } := by
  rw [exchange, h]

/-- What a client sees of one document. -/
structure Account where
  published : List Json
  responses : List (Option Json)
  stored : Option Document
deriving DecidableEq

namespace Exchange

def account (u : Text) (x : Exchange) : Account where
  published := (x.replies.flatMap fun e => e.2.sent).filter fun message =>
    (Message.published? (.str u) message).isSome
  responses := (x.replies.filter fun e => Message.names u e.1).map fun e => e.2.response
  stored := x.server.documents.get? (.text u)

variable {u : Text} {message : Json} {x y : Exchange}

private theorem account_cons_congr {a b : Server.Reply} (hsent : a.sent = b.sent)
    (hresponse : a.response = b.response) (h : x.account u = y.account u) :
    { x with replies := (message, a) :: x.replies }.account u =
      { y with replies := (message, b) :: y.replies }.account u := by
  obtain ⟨hpublished, hresponses, hstored⟩ := Account.mk.inj h
  by_cases hnames : Message.names u message = true
  · simp [account, hsent, hresponse, hpublished, hresponses, hstored, hnames]
  · simp [account, hsent, hpublished, hresponses, hstored, hnames]

private theorem account_cons_of_other {reply : Server.Reply}
    (hnames : Message.names u message = false)
    (hsent : ∀ notice ∈ reply.sent, Message.published? (.str u) notice = none) :
    { x with replies := (message, reply) :: x.replies }.account u = x.account u := by
  have hnone : (reply.sent.filter fun notice => (Message.published? (.str u) notice).isSome) =
      [] := by
    apply List.filter_eq_nil_iff.mpr
    intro notice hnotice
    simp [hsent notice hnotice]
  simp [account, hnone, hnames]

end Exchange

namespace Server

/-- Dropping the messages about other documents does not change the account of a document. -/
private theorem account_exchange_filter {s t : Server} {u : Text} {messages : List Json}
    (hkeyed : s.documents.Keyed) (hagree : s.AgreeAt (.text u) t)
    (habout : ∀ message ∈ messages, Message.isAboutDocument message = true) :
    (s.exchange messages).account u =
      (t.exchange (messages.filter (Message.names u))).account u := by
  -- The two runs stay in step on the messages that are kept, and the left one alone takes the rest.
  induction messages generalizing s t with
  | nil => simp [exchange, Exchange.account, hagree.stored]
  | cons message rest ih =>
      obtain ⟨hmessage, hrest⟩ := List.forall_mem_cons.mp habout
      cases hnames : Message.names u message with
      | true =>
          obtain ⟨a, b, ha, hb, hsent, hresponse, hnext⟩ :=
            agreeAt_process hmessage hnames hagree
          rw [List.filter_cons_of_pos hnames, exchange_cons ha, exchange_cons hb]
          exact Exchange.account_cons_congr hsent hresponse
            (ih (keyed_process hkeyed ha) hnext hrest)
      | false =>
          obtain ⟨reply, hprocess, hkept, hsilent⟩ := process_of_other hmessage hnames hkeyed
          rw [List.filter_cons_of_neg (by simp [hnames]), exchange_cons hprocess,
            Exchange.account_cons_of_other hnames hsilent]
          exact ih (keyed_process hkeyed hprocess) (hkept.trans hagree) hrest

/-- What a client sees of a document comes from the messages that name it alone: messages about
other documents may be dropped, and any two runs with the same messages about it, in the same order,
give the same account. The server is any that keeps documents under their own keys. -/
theorem account_of_interleaving {s : Server} (hkeyed : s.documents.Keyed) {messages : List Json}
    (habout : ∀ message ∈ messages, Message.isAboutDocument message = true) (u : Text) :
    (s.exchange messages).account u =
        (s.exchange (messages.filter (Message.names u))).account u ∧
      ∀ others : List Json, (∀ message ∈ others, Message.isAboutDocument message = true) →
        others.filter (Message.names u) = messages.filter (Message.names u) →
        (s.exchange others).account u = (s.exchange messages).account u := by
  have halone := account_exchange_filter hkeyed (.refl (.text u) s) habout
  refine ⟨halone, ?_⟩
  intro others hothers hsame
  rw [halone, ← hsame]
  exact account_exchange_filter hkeyed (.refl (.text u) s) hothers

/-- A document fails to be analysed, is asked about and is saved, and another one comes and goes in
between or before. -/
theorem account_of_interleaving_pair :
    let send (m : Method) (uri : String) (members more : List (Text × Json)) : Json :=
      .obj [("method", .str m.name), ("id", .int 7), ("params", .obj
        (("textDocument", .obj (("uri", .str uri) :: members)) :: more))]
    let s : Server := { documents := Documents.insert {} (.text "a") ⟨.str "a", .str "END", none⟩ }
    let broken := send .didChange "a" []
      [("contentChanges", .arr [.obj [("text", .int 5)]])]
    let asked := send .completion "a" [] []
    let saved := send .didSave "a" [] [("text", .str "HLT")]
    let opened := send .didOpen "b" [("text", .str "END")] []
    let closed := send .didClose "b" [] []
    let messages := [broken, opened, asked, saved, closed]
    let others := [opened, closed, broken, asked, saved]
    s.documents.Keyed ∧ (∀ message ∈ messages, Message.isAboutDocument message = true) ∧
      (∀ message ∈ others, Message.isAboutDocument message = true) ∧
      others.filter (Message.names "a") = messages.filter (Message.names "a") ∧
      (s.exchange others).account "a" = (s.exchange messages).account "a" ∧
      ∃ account, (s.exchange messages).account "a" = account ∧ account.published.length = 1 ∧
        account.responses.length = 3 ∧
        account.stored = some ⟨.str "a", .str "HLT", none⟩ := by
  intro send s broken asked saved opened closed messages others
  have hkeyed : s.documents.Keyed := (Conversation.consistent_start {}).keyed.insert rfl
  have hsend {m : Method} (hm : m ∈ Method.aboutDocument) (uri : String)
      (members more : List (Text × Json)) :
      Message.isAboutDocument (send m uri members more) = true := by
    apply List.any_eq_true.mpr
    exact ⟨m, hm, by simp [Message.method, Json.find?, Table.find?]⟩
  have hbroken : Message.isAboutDocument broken = true := hsend (by decide) ..
  have hasked : Message.isAboutDocument asked = true := hsend (by decide) ..
  have hsaved : Message.isAboutDocument saved = true := hsend (by decide) ..
  have hopened : Message.isAboutDocument opened = true := hsend (by decide) ..
  have hclosed : Message.isAboutDocument closed = true := hsend (by decide) ..
  have habout : ∀ message ∈ messages, Message.isAboutDocument message = true := by
    simp [messages, hbroken, hasked, hsaved, hopened, hclosed]
  have hothers : ∀ message ∈ others, Message.isAboutDocument message = true := by
    simp [others, hbroken, hasked, hsaved, hopened, hclosed]
  have hsame : others.filter (Message.names "a") = messages.filter (Message.names "a") := by
    decide +kernel
  obtain ⟨halone, hinterleaved⟩ := account_of_interleaving hkeyed habout "a"
  refine ⟨hkeyed, habout, hothers, hsame, hinterleaved others hothers hsame, _, halone, ?_⟩
  decide +kernel

/-- Every server that messages lead to keeps documents under their own keys, so the account of a
document comes from the messages that name it whatever the client has sent before. -/
theorem account_exchange_after (settings : Settings) (earlier : List Json) {messages : List Json}
    (habout : ∀ message ∈ messages, Message.isAboutDocument message = true) (u : Text) :
    let s := (Conversation.after settings earlier).server
    (s.exchange messages).account u =
        (s.exchange (messages.filter (Message.names u))).account u ∧
      ∀ others : List Json, (∀ message ∈ others, Message.isAboutDocument message = true) →
        others.filter (Message.names u) = messages.filter (Message.names u) →
        (s.exchange others).account u = (s.exchange messages).account u := by
  intro s
  have hkeyed : s.documents.Keyed := Conversation.keyed_after settings earlier
  refine ⟨account_exchange_filter hkeyed (.refl _ s) habout, ?_⟩
  intro others hothers hsame
  calc (s.exchange others).account u
      = (s.exchange (others.filter (Message.names u))).account u :=
        account_exchange_filter hkeyed (.refl _ s) hothers
    _ = (s.exchange (messages.filter (Message.names u))).account u := by rw [hsame]
    _ = (s.exchange messages).account u :=
        (account_exchange_filter hkeyed (.refl _ s) habout).symm

end Server

end TeachAsm
