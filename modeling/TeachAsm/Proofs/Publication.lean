import TeachAsm.Proofs.Turns

/-!
# Published diagnostics

Along a conversation with a server, what was published last for a document is what its stored text
gives under the current settings, and a document that was closed shows nothing. The changes that
matter for this are read off the rules of a turn, and the rest follows from them.
-/

namespace TeachAsm

namespace Message

/-- The parameters of a message that publishes the diagnostics of a document. -/
def published? (uri : Json) : Json → Option (List (Text × Json))
  | .obj members =>
    match Json.find? "method" members, Json.find? "params" members with
    | some (.str method), some (.obj params) =>
      if method = Text.ofString "textDocument/publishDiagnostics" ∧
          Json.find? "uri" params = some uri then some params
      else none
    | _, _ => none
  | _ => none

/-- The parameters with which the diagnostics of a document were published last. -/
def lastPublished? (uri : Json) (sent : List Json) : Option (List (Text × Json)) :=
  (sent.filterMap (published? uri)).getLast?

/-- The parameters show a list of diagnostics, and a version if there is one. -/
def Shows (params : List (Text × Json)) (ds : List Diagnostic) (version : Option Json) : Prop :=
  Json.find? "diagnostics" params = some (.arr (ds.map Diagnostic.toJson)) ∧
    Json.find? "version" params = version

theorem published?_publishDiagnostics (u : Json) (ds : List Diagnostic) (version : Option Json) :
    ∃ params, Shows params ds version ∧ ∀ uri,
      published? uri (publishDiagnostics u ds version) = if u = uri then some params else none := by
  have hmethod : Text.ofString "jsonrpc" ≠ Text.ofString "method" := by decide
  have hparams : Text.ofString "jsonrpc" ≠ Text.ofString "params" ∧
      Text.ofString "method" ≠ Text.ofString "params" := by decide
  have hdiagnostics : Text.ofString "uri" ≠ Text.ofString "diagnostics" := by decide
  have hversion : Text.ofString "uri" ≠ Text.ofString "version" ∧
      Text.ofString "diagnostics" ≠ Text.ofString "version" := by decide
  refine ⟨("uri", u) :: ("diagnostics", .arr (ds.map Diagnostic.toJson)) ::
    Json.optionalMember "version" version, ⟨?_, ?_⟩, ?_⟩
  · simp [Json.find?, Table.find?, hdiagnostics]
  · cases version <;> simp [Json.find?, Table.find?, Json.optionalMember, hversion]
  · intro uri
    simp [published?, publishDiagnostics, notification, Json.find?, Table.find?, hmethod, hparams]

private theorem lastPublished?_append (uri : Json) (earlier later : List Json) :
    lastPublished? uri (earlier ++ later) =
      (lastPublished? uri later).or (lastPublished? uri earlier) := by
  simp [lastPublished?, List.getLast?_append]

private theorem lastPublished?_cons_of_ne {uri u : Json} (h : u ≠ uri) (ds : List Diagnostic)
    (version : Option Json) (later : List Json) :
    lastPublished? uri (publishDiagnostics u ds version :: later) = lastPublished? uri later := by
  obtain ⟨params, -, hpublished⟩ := published?_publishDiagnostics u ds version
  simp [lastPublished?, hpublished, h]

private theorem lastPublished?_cons (uri : Json) (ds : List Diagnostic) (version : Option Json)
    (later : List Json) : ∃ params, Shows params ds version ∧
      lastPublished? uri (publishDiagnostics uri ds version :: later) =
        (lastPublished? uri later).or (some params) := by
  obtain ⟨params, hshows, hpublished⟩ := published?_publishDiagnostics uri ds version
  refine ⟨params, hshows, ?_⟩
  rw [← List.singleton_append, lastPublished?_append]
  simp [lastPublished?, hpublished]

end Message

/-- The document holds a text, and its analysis succeeds. Any value may identify the document. -/
def Document.isSound (limit : Int) (d : Document) : Bool :=
  match d.text with
  | .str text => (analyze limit text).toOption.isSome
  | _ => false

theorem Document.exists_of_isSound {limit : Int} {d : Document} (h : d.isSound limit = true) :
    ∃ text ds, d.text = .str text ∧ analyze limit text = .ok ds := by
  unfold isSound at h
  split at h
  · next text htext =>
      cases hds : analyze limit text with
      | error f =>
          rw [hds] at h
          cases h
      | ok ds => exact ⟨text, ds, htext, hds⟩
  · cases h

theorem Document.validate_snd {limit : Int} {d : Document} {text : Text} {ds : List Diagnostic}
    (htext : d.text = .str text) (hds : analyze limit text = .ok ds) :
    (d.validate limit).2 = .ok (Message.publishDiagnostics d.uri ds d.version) := by
  simp [validate, htext, hds]

theorem publishAll_cons {limit : Int} {d : Document} (rest : List Document) {message : Json}
    (h : (d.validate limit).2 = .ok message) :
    (publishAll limit (d :: rest)).sent = message :: (publishAll limit rest).sent := by
  rw [publishAll]
  split
  · next hvalidate =>
      rw [hvalidate] at h
      cases h
  · next hvalidate =>
      rw [hvalidate] at h
      cases h
      rfl

/-- Publishing sound documents reaches exactly their identifiers. -/
private theorem lastPublished?_publishAll {limit : Int} {documents : List Document}
    (hsound : ∀ d ∈ documents, d.isSound limit = true) (uri : Json) :
    (∀ d ∈ documents, d.uri ≠ uri) ∧
        Message.lastPublished? uri (publishAll limit documents).sent = none ∨
      ∃ d ∈ documents, d.uri = uri ∧ ∃ text ds params, d.text = .str text ∧
        analyze limit text = .ok ds ∧
        Message.lastPublished? uri (publishAll limit documents).sent = some params ∧
        Message.Shows params ds d.version := by
  induction documents with
  | nil => exact .inl ⟨by simp, rfl⟩
  | cons d rest ih =>
      obtain ⟨text, ds, htext, hds⟩ := Document.exists_of_isSound (hsound d List.mem_cons_self)
      rw [publishAll_cons rest (Document.validate_snd htext hds)]
      have hrest := ih fun d hd => hsound d (List.mem_cons_of_mem _ hd)
      by_cases huri : d.uri = uri
      · subst huri
        obtain ⟨params, hshows, hlast⟩ := Message.lastPublished?_cons d.uri ds d.version
          (publishAll limit rest).sent
        rw [hlast]
        rcases hrest with ⟨-, hnone⟩ | ⟨e, he, heuri, text', ds', params', htext', hds', hlast',
          hshows'⟩
        · rw [hnone, Option.none_or]
          exact .inr ⟨d, List.mem_cons_self, rfl, text, ds, params, htext, hds, rfl, hshows⟩
        · rw [hlast', Option.some_or]
          exact .inr ⟨e, List.mem_cons_of_mem _ he, heuri, text', ds', params', htext', hds', rfl,
            hshows'⟩
      · rw [Message.lastPublished?_cons_of_ne huri]
        rcases hrest with ⟨hne, hnone⟩ | ⟨e, he, hfound⟩
        · refine .inl ⟨?_, hnone⟩
          intro e he
          rcases List.mem_cons.mp he with rfl | he
          · exact huri
          · exact hne e he
        · exact .inr ⟨e, List.mem_cons_of_mem _ he, hfound⟩

private theorem Document.eq_of_validate {limit : Int} {d : Document} {message : Json}
    (h : (d.validate limit).2 = .ok message) :
    ∃ ds, message = Message.publishDiagnostics d.uri ds d.version := by
  unfold validate at h
  split at h
  · dsimp only at h
    split at h
    · cases h
      exact ⟨_, rfl⟩
    · cases h
  · cases h

theorem publishAll_cons_error {limit : Int} {d : Document} (rest : List Document)
    {e : InternalError} (h : (d.validate limit).2 = .error e) :
    (publishAll limit (d :: rest)).sent = [] := by
  rw [publishAll]
  split
  · rfl
  · next hvalidate =>
      rw [hvalidate] at h
      cases h

private theorem exists_document_of_mem_publishAll {limit : Int} {documents : List Document}
    {message : Json} (h : message ∈ (publishAll limit documents).sent) :
    ∃ d ∈ documents, ∃ ds, message = Message.publishDiagnostics d.uri ds d.version := by
  induction documents with
  | nil => cases h
  | cons d rest ih =>
      cases hvalidate : (d.validate limit).2 with
      | error e =>
          rw [publishAll_cons_error rest hvalidate] at h
          cases h
      | ok first =>
          rw [publishAll_cons rest hvalidate] at h
          rcases List.mem_cons.mp h with rfl | hrest
          · exact ⟨d, List.mem_cons_self, Document.eq_of_validate hvalidate⟩
          · obtain ⟨e, he, hmessage⟩ := ih hrest
            exact ⟨e, List.mem_cons_of_mem _ he, hmessage⟩

theorem published?_of_mem_publishAll {limit : Int} {documents : List Document} {uri message : Json}
    (hother : ∀ d ∈ documents, d.uri ≠ uri) (h : message ∈ (publishAll limit documents).sent) :
    Message.published? uri message = none := by
  obtain ⟨d, hd, ds, rfl⟩ := exists_document_of_mem_publishAll h
  obtain ⟨params, -, hpublished⟩ := Message.published?_publishDiagnostics d.uri ds d.version
  rw [hpublished, if_neg (hother d hd)]

/-- What a server becomes and sends when it handles a message. -/
inductive Change (s : Server) : Server → List Json → Prop
  /-- Some stored documents are published, among them all that are new or that new settings
  concern. None is closed. -/
  | publish {s' : Server} (documents : List Document) (keyed : s'.documents.Keyed)
      (stored : ∀ d ∈ documents, ∃ key, s'.documents.get? key = some d)
      (covers : ∀ key d, s'.documents.get? key = some d →
        d ∈ documents ∨ s.documents.get? key = some d ∧ s'.settings = s.settings)
      (keeps : ∀ key, s'.documents.get? key = none → s.documents.get? key = none) :
      Change s s' (publishAll s'.settings.maxProblems documents).sent
  /-- A document is closed, and shows nothing if it was open. -/
  | close {uri : Json} {key : Key} (hkey : Key.of uri = .ok key) :
      Change s { s with documents := s.documents.erase key }
        (if s.documents.contains key then [Message.publishDiagnostics uri [] none] else [])

namespace Change

variable {s s' : Server}

theorem idle (h : s.documents.Keyed) (hdocuments : s'.documents = s.documents)
    (hsettings : s'.settings = s.settings) : Change s s' [] := by
  refine publish [] (hdocuments ▸ h) (by simp) ?_ ?_
  · intro key d hd
    exact .inr ⟨hdocuments ▸ hd, hsettings⟩
  · intro key hnone
    exact hdocuments ▸ hnone

theorem insert (h : s.documents.Keyed) {key : Key} {d : Document}
    (hkey : Key.of d.uri = .ok key) :
    Change s { s with documents := s.documents.insert key d }
      (publishAll s.settings.maxProblems [d]).sent := by
  refine publish [d] (h.insert hkey) ?_ ?_ ?_
  · intro e he
    rw [List.mem_singleton.mp he]
    exact ⟨key, by simp⟩
  · intro k e he
    rw [Documents.get?_insert] at he
    split at he
    · cases he
      exact .inl List.mem_cons_self
    · exact .inr ⟨he, rfl⟩
  · intro k hnone
    rw [Documents.get?_insert] at hnone
    split at hnone
    · cases hnone
    · exact hnone

private theorem publishStored (h : s.documents.Keyed) {documents : List Document}
    (hstored : ∀ d ∈ documents, ∃ key, s.documents.get? key = some d) :
    Change s s (publishAll s.settings.maxProblems documents).sent :=
  publish documents h hstored (fun _ _ hd => .inr ⟨hd, rfl⟩) fun _ hnone => hnone

theorem publishAll (h : s.documents.Keyed) (settings : Settings) :
    Change s { s with settings }
      (TeachAsm.publishAll settings.maxProblems s.documents.toList).sent := by
  refine publish s.documents.toList h ?_ ?_ fun _ hnone => hnone
  · intro d hd
    exact (s.documents.mem_toList_iff d).mp hd
  · intro key d hd
    exact .inl ((s.documents.mem_toList_iff d).mpr ⟨key, hd⟩)

private theorem of_documentTurn {params : Json} {t : Turn} (h : s.documents.Keyed)
    (turn : DocumentTurn s params t) : Change s t.server t.sent := by
  cases turn with
  | refused _ => exact .idle h rfl rfl
  | answered _ => exact .idle h rfl rfl
  | stored _ keyed => exact .insert h (keyed h)
  | @shown key _ => exact .publishStored h fun d hd => ⟨key, Option.mem_toList.mp hd⟩
  | closed _ hkey => exact .close hkey

/-- Settings that come with an `initialize` take effect silently, so no document may be open. -/
private theorem of_handlerTurn {m : Method} {params : Json} {t : Turn} (h : s.documents.Keyed)
    (hoptions : m = .initializeServer → (Message.options? params).isSome = true →
      s.documents.toList = [])
    (turn : HandlerTurn s params m t) : Change s t.server t.sent := by
  cases turn with
  | document _ turn => exact .of_documentTurn h turn
  | @started _ _ settings _ brought _ =>
      have hpublish := Change.publishAll h settings
      rw [hoptions rfl (by rw [brought]; rfl)] at hpublish
      exact hpublish
  | initialized _ => exact .idle h rfl rfl
  | shutdown => exact .idle h rfl rfl
  | exit => exact .idle h rfl rfl
  | configured _ _ => exact .publishAll h _
  | reviewed => exact .publishStored h fun d hd => (s.documents.mem_toList_iff d).mp hd

end Change

namespace Message

def bringsOptions : Json → Bool
  | .obj members =>
    Json.find? "method" members == some (.str "initialize") &&
      match (Json.orEmpty (Json.find? "params" members)).member "initializationOptions" with
      | .ok options => (options.bind Json.nonNull?).isSome
      | .error _ => false
  | _ => false

private theorem bringsOptions_obj {members : List (Text × Json)}
    (hmethod : method members = .str "initialize")
    (hbrought : (options? (params members)).isSome = true) :
    bringsOptions (.obj members) = true := by
  have hfind : Json.find? "method" members = some (.str "initialize") := by
    unfold method at hmethod
    cases hfind : Json.find? "method" members with
    | none =>
        rw [hfind] at hmethod
        exact absurd hmethod (by decide)
    | some value =>
        rw [hfind] at hmethod
        exact congrArg some hmethod
  unfold options? params at hbrought
  simp only [bringsOptions, hfind, beq_self_eq_true, Bool.true_and]
  split at hbrought
  · next hmember => simpa only [hmember] using hbrought
  · cases hbrought

end Message

private theorem Server.change_process {s : Server} (h : s.documents.Keyed) {message : Json}
    {reply : Reply} (hoptions : Message.bringsOptions message = true → s.documents.toList = [])
    (hreply : s.process message = .ok reply) : Change s reply.server reply.sent := by
  obtain ⟨members, rfl, hserver, hsent⟩ := turn_of_process hreply
  rw [hserver, hsent]
  apply turn_induction (p := fun t => Change s t.server t.sent)
  · intro m t hm turn
    refine .of_handlerTurn h ?_ turn
    rintro rfl hbrought
    exact hoptions (Message.bringsOptions_obj hm hbrought)
  · exact fun _ _ => .idle h rfl rfl

structure Conversation where
  server : Server
  sent : List Json := []

namespace Conversation

/-- Process a message. One that is no object is refused and changes nothing. -/
def step (x : Conversation) (message : Json) : Conversation :=
  match x.server.process message with
  | .ok reply => ⟨reply.server, x.sent ++ reply.sent⟩
  | .error _ => x

def after (settings : Settings) (messages : List Json) : Conversation :=
  messages.foldl step { server := { settings } }

def Sound (x : Conversation) : Prop :=
  ∀ d ∈ x.server.documents.toList, d.isSound x.server.settings.maxProblems = true

/-- What was published last for a document is what it gives now, or nothing if it is closed. -/
structure Consistent (x : Conversation) : Prop where
  keyed : x.server.documents.Keyed
  shown : ∀ u d, x.server.documents.get? (.text u) = some d → ∃ text ds params,
    d.text = .str text ∧ analyze x.server.settings.maxProblems text = .ok ds ∧
      Message.lastPublished? (.str u) x.sent = some params ∧ Message.Shows params ds d.version
  cleared : ∀ u, x.server.documents.get? (.text u) = none → ∀ params,
    Message.lastPublished? (.str u) x.sent = some params → Message.Shows params [] none

theorem consistent_start (settings : Settings) : (after settings []).Consistent where
  keyed := by
    intro key d hd
    cases hd
  shown := by
    intro u d hd
    cases hd
  cleared := by
    intro u _ message hlast
    cases hlast

end Conversation

theorem Key.of_eq_text_iff (uri : Json) (u : Text) : Key.of uri = .ok (.text u) ↔ uri = .str u := by
  cases uri with
  | real x =>
      simp only [Key.of, reduceCtorEq, iff_false]
      split <;> simp
  | _ => simp [Key.of]

namespace Conversation

variable {x : Conversation} {s : Server}

theorem Consistent.publish (h : x.Consistent) {documents : List Document}
    (keyed : s.documents.Keyed) (stored : ∀ d ∈ documents, ∃ key, s.documents.get? key = some d)
    (covers : ∀ key d, s.documents.get? key = some d →
      d ∈ documents ∨ x.server.documents.get? key = some d ∧ s.settings = x.server.settings)
    (keeps : ∀ key, s.documents.get? key = none → x.server.documents.get? key = none)
    (hsound : ∀ d ∈ s.documents.toList, d.isSound s.settings.maxProblems = true) :
    Consistent ⟨s, x.sent ++ (publishAll s.settings.maxProblems documents).sent⟩ := by
  have hpublished : ∀ d ∈ documents, d.isSound s.settings.maxProblems = true := by
    intro d hd
    exact hsound d ((s.documents.mem_toList_iff d).mpr (stored d hd))
  have hstored {u : Text} {d : Document} (hd : d ∈ documents) (huri : d.uri = .str u) :
      s.documents.get? (.text u) = some d := by
    obtain ⟨key, hkey⟩ := stored d hd
    have hof := keyed key d hkey
    rw [huri] at hof
    cases hof
    exact hkey
  refine ⟨keyed, ?_, ?_⟩
  · intro u d hd
    have huri : d.uri = .str u := (Key.of_eq_text_iff _ _).mp (keyed _ d hd)
    rw [Message.lastPublished?_append]
    -- what is not published now was stored before, under the same settings
    rcases lastPublished?_publishAll hpublished (.str u) with
      ⟨hother, hnone⟩ | ⟨e, he, heuri, text, ds, params, htext, hds, hlast, hshows⟩
    · rcases covers _ d hd with hmem | ⟨hbefore, hsettings⟩
      · exact absurd huri (hother d hmem)
      · rw [hnone, Option.none_or, hsettings]
        exact h.shown u d hbefore
    · have hsame := hstored he heuri
      rw [hd] at hsame
      cases hsame
      exact ⟨text, ds, params, htext, hds, by rw [hlast, Option.some_or], hshows⟩
  · intro u hnotStored params hlast
    rw [Message.lastPublished?_append] at hlast
    rcases lastPublished?_publishAll hpublished (.str u) with
      ⟨-, hnone⟩ | ⟨e, he, heuri, -⟩
    · rw [hnone, Option.none_or] at hlast
      exact h.cleared u (keeps _ hnotStored) params hlast
    · rw [hstored he heuri] at hnotStored
      cases hnotStored

theorem Consistent.close (h : x.Consistent) {uri : Json} {key : Key}
    (hkey : Key.of uri = .ok key) :
    Consistent ⟨{ x.server with documents := x.server.documents.erase key },
      x.sent ++ if x.server.documents.contains key then
        [Message.publishDiagnostics uri [] none] else []⟩ := by
  have hother {u : Text} (hne : Key.text u ≠ key) : uri ≠ .str u := by
    rintro rfl
    cases hkey
    exact hne rfl
  have hsent (u : Text) (hne : Key.text u ≠ key) :
      Message.lastPublished? (.str u) (if x.server.documents.contains key then
        [Message.publishDiagnostics uri [] none] else []) = none := by
    split
    · exact Message.lastPublished?_cons_of_ne (hother hne) _ _ _
    · rfl
  refine ⟨h.keyed.erase key, ?_, ?_⟩
  · intro u d hd
    simp only [Documents.get?_erase] at hd
    split at hd
    · cases hd
    · next hne =>
        simp only [Message.lastPublished?_append, hsent u hne, Option.none_or]
        exact h.shown u d hd
  · intro u hnotStored params hlast
    simp only [Documents.get?_erase] at hnotStored
    simp only [Message.lastPublished?_append] at hlast
    split at hnotStored
    · next heq =>
        -- closing an open document clears it; one that was not open was clear already
        subst heq
        obtain rfl := (Key.of_eq_text_iff uri u).mp hkey
        cases hopen : x.server.documents.get? (.text u) with
        | none =>
            rw [Documents.contains_eq, hopen] at hlast
            exact h.cleared u hopen params hlast
        | some d =>
            obtain ⟨empty, hshows, hempty⟩ := Message.lastPublished?_cons (.str u) [] none []
            rw [Documents.contains_eq, hopen, Option.isSome_some, if_pos rfl, hempty] at hlast
            cases hlast
            exact hshows
    · next hne =>
        rw [hsent u hne, Option.none_or] at hlast
        exact h.cleared u hnotStored params hlast

theorem Consistent.change (h : x.Consistent) {sent : List Json}
    (hchange : Change x.server s sent)
    (hsound : ∀ d ∈ s.documents.toList, d.isSound s.settings.maxProblems = true) :
    Consistent ⟨s, x.sent ++ sent⟩ := by
  cases hchange with
  | publish documents keyed stored covers keeps => exact h.publish keyed stored covers keeps hsound
  | close hkey => exact h.close hkey

theorem Consistent.step (h : x.Consistent) {message : Json}
    (hoptions : Message.bringsOptions message = true → x.server.documents.toList = [])
    (hsound : (x.step message).Sound) : (x.step message).Consistent := by
  cases hreply : x.server.process message with
  | error e =>
      rw [Conversation.step, hreply]
      exact h
  | ok reply =>
      rw [Conversation.step, hreply] at hsound ⊢
      exact h.change (Server.change_process h.keyed hoptions hreply) hsound

private theorem keyed_step {x : Conversation} (h : x.server.documents.Keyed) (message : Json) :
    (x.step message).server.documents.Keyed := by
  unfold step
  split
  · next reply hreply => exact Server.keyed_process h hreply
  · exact h

/-- Every server that a conversation reaches stores its documents under their own keys. -/
theorem keyed_after (settings : Settings) (messages : List Json) :
    (after settings messages).server.documents.Keyed := by
  have hrun (x : Conversation) (h : x.server.documents.Keyed) :
      (messages.foldl step x).server.documents.Keyed := by
    induction messages generalizing x with
    | nil => exact h
    | cons message messages ih => exact ih _ (keyed_step h message)
  exact hrun _ (consistent_start settings).keyed

/-- Whatever is stored on the way is sound, and no `initialize` with options comes while a document
is open. -/
structure Admissible (settings : Settings) (messages : List Json) : Prop where
  sound : ∀ n ≤ messages.length, (after settings (messages.take n)).Sound
  options : ∀ n, (h : n < messages.length) → Message.bringsOptions messages[n] = true →
    (after settings (messages.take n)).server.documents.toList = []

theorem after_concat (settings : Settings) (messages : List Json) (message : Json) :
    after settings (messages ++ [message]) = (after settings messages).step message := by
  simp [after]

private theorem consistent_after {settings : Settings} {messages : List Json}
    (h : Admissible settings messages) {n : Nat} (hn : n ≤ messages.length) :
    (after settings (messages.take n)).Consistent := by
  induction n with
  | zero => exact consistent_start settings
  | succ n ih =>
      have hlt : n < messages.length := hn
      have htake : messages.take (n + 1) = messages.take n ++ [messages[n]] :=
        List.take_succ_eq_append_getElem hlt
      have hsound := h.sound (n + 1) hn
      rw [htake, after_concat] at hsound ⊢
      exact (ih (Nat.le_of_lt hlt)).step (h.options n hlt) hsound

/-- After every message, what was published last for a stored document are the diagnostics of its
text under the current limit, with its version; for one that is not stored, it is an empty list
without a version. -/
theorem published_eq_stored {settings : Settings} {messages : List Json}
    (h : Admissible settings messages) {n : Nat} (hn : n ≤ messages.length) (u : Text) :
    let x := after settings (messages.take n)
    (∀ d, x.server.documents.get? (.text u) = some d → ∃ text ds params, d.text = .str text ∧
      analyze x.server.settings.maxProblems text = .ok ds ∧
      Message.lastPublished? (.str u) x.sent = some params ∧ Message.Shows params ds d.version) ∧
    (x.server.documents.get? (.text u) = none → ∀ params,
      Message.lastPublished? (.str u) x.sent = some params → Message.Shows params [] none) := by
  have hconsistent := consistent_after h hn
  exact ⟨hconsistent.shown u, hconsistent.cleared u⟩

/-- A change without a version keeps the version of the document, and it is published with the
diagnostics of the new text. -/
theorem published_eq_stored_change :
    let document (members : List (Text × Json)) : Text × Json :=
      ("textDocument", .obj (("uri", .str "a") :: members))
    let notify (method : String) (params : List (Text × Json)) : Json :=
      .obj [("method", .str method), ("params", .obj params)]
    let messages : List Json :=
      [notify "textDocument/didOpen" [document [("text", .str "F"), ("version", .int 1)]],
        notify "textDocument/didChange"
          [document [], ("contentChanges", .arr [.obj [("text", .str "END")]])],
        notify "textDocument/didClose" [document []]]
    Admissible {} messages ∧ ∃ ds params, analyze 100 "END" = .ok ds ∧
      Message.lastPublished? (.str "a") (after {} (messages.take 2)).sent = some params ∧
      Message.Shows params ds (some (.int 1)) := by
  intro document notify messages
  have hadmissible : Admissible {} messages :=
    ⟨by unfold Sound; decide +kernel, by decide +kernel⟩
  have hstored : (after {} (messages.take 2)).server.documents.get? (.text "a") =
      some ⟨.str "a", .str "END", some (.int 1)⟩ := by decide +kernel
  have hlimit : (after {} (messages.take 2)).server.settings.maxProblems = 100 := by
    decide +kernel
  obtain ⟨text, ds, params, htext, hds, hlast, hshows⟩ :=
    (published_eq_stored hadmissible (by decide : 2 ≤ 3) "a").1 _ hstored
  cases htext
  rw [hlimit] at hds
  exact ⟨hadmissible, ds, params, hds, hlast, hshows⟩

end Conversation

end TeachAsm
