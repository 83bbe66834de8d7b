import TeachAsm.Proofs.Turns

/-!
# Turns that fail

A failure that the protocol has a code for comes before anything is done. Any other failure leaves
behind at most the document that the message names, and new settings only from a configuration.
-/

namespace TeachAsm

namespace Documents

def keys (documents : Documents) : List Key := documents.table.keys

def others (documents : Documents) (named : Option Key) : List (Key × Document) :=
  documents.table.entries.filter fun e => named ≠ some e.1

/-- Two stores differ in the named document only. One that is new comes last. -/
structure DifferAt (named : Option Key) (before after : Documents) : Prop where
  others : after.others named = before.others named
  keys : after.keys = before.keys ∨ ∃ key, named = some key ∧ after.keys = before.keys ++ [key]

theorem DifferAt.refl (named : Option Key) (documents : Documents) :
    DifferAt named documents documents :=
  ⟨rfl, .inl rfl⟩

theorem DifferAt.insert (documents : Documents) (key : Key) (document : Document) :
    DifferAt (some key) documents (documents.insert key document) where
  others := Table.filter_put (p := fun k => some key ≠ some k) (by simp) document
    documents.table.entries
  keys := by
    have hkeys : (documents.insert key document).keys = _ :=
      documents.table.keys_assign key document
    by_cases hmem : key ∈ documents.table.keys
    · rw [if_pos hmem] at hkeys
      exact .inl hkeys
    · rw [if_neg hmem] at hkeys
      exact .inr ⟨key, rfl, hkeys⟩

end Documents

def Turn.failure? (t : Turn) : Option Failure :=
  match t.outcome with
  | .ok _ => none
  | .error failure => some failure

private theorem Turn.outcome_of_failure? {t : Turn} {failure : Failure}
    (h : t.failure? = some failure) : t.outcome = .error failure := by
  unfold failure? at h
  split at h
  · cases h
  · next houtcome =>
      cases h
      exact houtcome

/-- What a server may have become, and sent, when a message fails. -/
def Failure.Leaves (failure : Failure) (method params : Json) (s s' : Server)
    (sent : List Json) : Prop :=
  match failure with
  | .protocol _ => s' = s ∧ sent = []
  | .internal _ =>
    Documents.DifferAt (Message.documentKey? params) s.documents s'.documents ∧
      (s'.settings ≠ s.settings → method = .str Method.didChangeConfiguration.name)

namespace Failure

variable {s s' : Server} {method params : Json} {failure : Failure}

private theorem leaves_same (failure : Failure) (method params : Json) (s : Server) :
    failure.Leaves method params s s [] := by
  cases failure with
  | protocol e => exact ⟨rfl, rfl⟩
  | internal e => exact ⟨.refl _ _, fun h => absurd rfl h⟩

/-- Publishing comes last, so a failure of it leaves what was done before. -/
private theorem leaves_publish {documents : List Document}
    (hfails : (s'.publish documents).outcome = .error failure)
    (hdocuments : Documents.DifferAt (Message.documentKey? params) s.documents s'.documents)
    (hsettings : s'.settings ≠ s.settings → method = .str Method.didChangeConfiguration.name) :
    failure.Leaves method params s s' (s'.publish documents).sent := by
  simp only [Server.publish] at hfails
  split at hfails
  · cases hfails
    exact ⟨hdocuments, hsettings⟩
  · cases hfails

private theorem leaves_of_documentTurn {t : Turn} (h : DocumentTurn s params t)
    (hfails : t.outcome = .error failure) :
    failure.Leaves method params s t.server t.sent := by
  cases h with
  | refused _ =>
      cases hfails
      exact leaves_same failure method params s
  | answered _ => cases hfails
  | @stored key document named _ =>
      apply leaves_publish hfails
      · rw [named]
        exact .insert s.documents key document
      · exact fun h => absurd rfl h
  | shown _ => exact leaves_publish hfails (.refl _ _) fun h => absurd rfl h
  | closed _ _ => cases hfails

private theorem leaves_of_handlerTurn {m : Method} {t : Turn} (h : HandlerTurn s params m t)
    (hfails : t.outcome = .error failure) :
    failure.Leaves (.str m.name) params s t.server t.sent := by
  cases h with
  | document _ turn => exact leaves_of_documentTurn turn hfails
  | configured _ _ => exact leaves_publish hfails (.refl _ _) fun _ => rfl
  | reviewed => exact leaves_publish hfails (.refl _ _) fun h => absurd rfl h
  | _ => cases hfails

end Failure

namespace Server

variable {s : Server} {members : List (Text × Json)} {failure : Failure}

private theorem leaves_of_turn (h : (s.turn members).outcome = .error failure) :
    failure.Leaves (Message.method members) (Message.params members) s
      (s.turn members).server (s.turn members).sent := by
  revert h
  apply turn_induction (p := fun t => t.outcome = .error failure →
    failure.Leaves (Message.method members) (Message.params members) s t.server t.sent)
  · intro m t hm turn hfails
    rw [hm]
    exact Failure.leaves_of_handlerTurn turn hfails
  · exact fun _ _ _ => Failure.leaves_same _ _ _ s

private theorem protocol_of_turn {e : ProtocolError}
    (h : (s.turn members).outcome = .error (.protocol e)) :
    Method.Unknown (Message.method members) ∧ (Message.id? members).isSome = true ∨
      e = .invalidParams "Missing textDocument.uri" ∨
      e = .invalidParams "Expected a full-text content change" := by
  rcases s.turn_cases members with ⟨m, -, hturn⟩ | ⟨hunknown, hturn⟩ | ⟨-, hturn⟩
  · rw [hturn] at h
    cases (handlerTurn_handle m).ofHandler h with
    | noDocument => exact .inr (.inl rfl)
    | noText => exact .inr (.inr rfl)
  · rw [hturn] at h
    by_cases hid : (Message.id? members).isSome = true
    · exact .inl ⟨hunknown, hid⟩
    · rw [if_neg hid] at h
      cases h
  · rw [hturn] at h
    cases h

/-- A failure that the protocol has a code for leaves the server as it was and sends nothing. Any
other failure changes at most the document that the message names, and settings only change with
a configuration. -/
theorem process_failed_keeps_rest (h : (s.turn members).failure? = some failure) :
    ∃ reply, s.process (.obj members) = .ok reply ∧
      (∀ e, failure = .protocol e → reply.server = s ∧ reply.sent = [] ∧
        (Method.Unknown (Message.method members) ∧ (Message.id? members).isSome = true ∨
          e = .invalidParams "Missing textDocument.uri" ∨
          e = .invalidParams "Expected a full-text content change")) ∧
      ∀ e, failure = .internal e →
        Documents.DifferAt (Message.documentKey? (Message.params members)) s.documents
          reply.server.documents ∧
        (reply.server.settings ≠ s.settings →
          Message.method members = .str "workspace/didChangeConfiguration") := by
  have hfails := Turn.outcome_of_failure? h
  have hleaves := leaves_of_turn hfails
  obtain ⟨reply, hprocess, hserver, hsent, -⟩ := s.exists_reply members
  rw [← hserver, ← hsent] at hleaves
  refine ⟨reply, hprocess, ?_, ?_⟩
  · rintro e rfl
    exact ⟨hleaves.1, hleaves.2, protocol_of_turn hfails⟩
  · rintro e rfl
    exact hleaves

/-- A change to a value that is no text stays behind in its place, and the other document is
kept. -/
theorem process_failed_keeps_rest_change :
    let first : Document := ⟨.str "a", .str "END", some (.int 1)⟩
    let second : Document := ⟨.str "b", .str "HLT", none⟩
    let documents : Documents := (Documents.insert {} (.text "a") first).insert (.text "b") second
    let s : Server := { documents }
    let members : List (Text × Json) := [("method", .str "textDocument/didChange"),
      ("params", .obj [("textDocument", .obj [("uri", .str "a")]),
        ("contentChanges", .arr [.obj [("text", .int 5)]])])]
    let failure : Failure := .internal (.misuse (.noMember "int" "split"))
    (s.turn members).failure? = some failure ∧
      ∃ reply, s.process (.obj members) = .ok reply ∧
        reply.server.documents.others (some (.text "a")) = [(.text "b", second)] ∧
        reply.server.settings = s.settings := by
  intro first second documents s members failure
  have hfails : (s.turn members).failure? = some failure := by decide +kernel
  have hnamed : Message.documentKey? (Message.params members) = some (.text "a") := by
    decide +kernel
  have hmethod : Message.method members ≠ .str "workspace/didChangeConfiguration" := by
    decide +kernel
  obtain ⟨reply, hprocess, -, hinternal⟩ := process_failed_keeps_rest hfails
  obtain ⟨hdocuments, hsettings⟩ := hinternal _ rfl
  rw [hnamed] at hdocuments
  refine ⟨hfails, reply, hprocess, ?_, ?_⟩
  · rw [hdocuments.others]
    decide +kernel
  · exact Decidable.not_not.mp fun hne => hmethod (hsettings hne)

end Server

end TeachAsm
