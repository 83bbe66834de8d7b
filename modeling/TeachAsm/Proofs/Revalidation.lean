import TeachAsm.Proofs.Publication

/-!
# Analysing all documents again

When watched files or the configuration change, the open documents are published in the order in
which they were opened, up to the first whose analysis fails. So a document is published exactly
once if it and all before it are sound, and the ones after an unsound one are left out.
-/

namespace TeachAsm

private theorem Documents.Keyed.pairwise_uri {documents : Documents} (h : documents.Keyed) :
    documents.toList.Pairwise fun d e => d.uri ≠ e.uri := by
  have hkeys : documents.table.entries.Pairwise fun a b => a.1 ≠ b.1 :=
    List.pairwise_map.mp documents.table.distinct
  have hof (e : Key × Document) (he : e ∈ documents.table.entries) :
      Key.of e.2.uri = .ok e.1 := by
    apply h
    exact Table.find?_of_mem documents.table.distinct he
  apply List.pairwise_map.mpr
  refine hkeys.imp_of_mem ?_
  intro a b ha hb hne huri
  have hsame := hof a ha
  rw [huri, hof b hb] at hsame
  exact hne (Except.ok.inj hsame).symm

private theorem Document.validate_of_not_isSound {limit : Int} {d : Document}
    (h : d.isSound limit = false) : ∃ e, (d.validate limit).2 = .error e := by
  unfold isSound at h
  unfold validate
  split
  · next text htext =>
      rw [htext] at h
      cases hds : analyze limit text with
      | ok ds =>
          simp only [hds] at h
          cases h
      | error f => exact ⟨.analysis f, rfl⟩
  · exact ⟨_, rfl⟩

section Order

variable {limit : Int} {earlier : List Document}

private theorem publishAll_append (h : ∀ d ∈ earlier, d.isSound limit = true)
    (rest : List Document) : (publishAll limit (earlier ++ rest)).sent =
      (publishAll limit earlier).sent ++ (publishAll limit rest).sent := by
  induction earlier with
  | nil => rfl
  | cons d earlier ih =>
      obtain ⟨text, ds, htext, hds⟩ := Document.exists_of_isSound (h d List.mem_cons_self)
      have hvalidate := Document.validate_snd htext hds
      have hrest := ih fun e he => h e (List.mem_cons_of_mem _ he)
      rw [List.cons_append, publishAll_cons _ hvalidate, publishAll_cons _ hvalidate, hrest,
        List.cons_append]

/-- Nothing after an unsound document is published. -/
private theorem publishAll_append_of_unsound (h : ∃ d ∈ earlier, d.isSound limit = false)
    (rest : List Document) :
    (publishAll limit (earlier ++ rest)).sent = (publishAll limit earlier).sent := by
  induction earlier with
  | nil =>
      obtain ⟨d, hd, -⟩ := h
      cases hd
  | cons d earlier ih =>
      by_cases hsound : d.isSound limit = true
      · obtain ⟨text, ds, htext, hds⟩ := Document.exists_of_isSound hsound
        have hvalidate := Document.validate_snd htext hds
        have hunsound : ∃ d ∈ earlier, d.isSound limit = false := by
          obtain ⟨e, he, hfalse⟩ := h
          rcases List.mem_cons.mp he with rfl | he
          · rw [hsound] at hfalse
            cases hfalse
          · exact ⟨e, he, hfalse⟩
        rw [List.cons_append, publishAll_cons _ hvalidate, publishAll_cons _ hvalidate,
          ih hunsound]
      · obtain ⟨e, hvalidate⟩ :=
          Document.validate_of_not_isSound (Bool.eq_false_iff.mpr hsound)
        rw [List.cons_append, publishAll_cons_error _ hvalidate,
          publishAll_cons_error _ hvalidate]

end Order

private theorem filterMap_publishAll_of_ne {limit : Int} {documents : List Document} {uri : Json}
    (h : ∀ d ∈ documents, d.uri ≠ uri) :
    (publishAll limit documents).sent.filterMap (Message.published? uri) = [] :=
  List.filterMap_eq_nil_iff.mpr fun _ hmessage => published?_of_mem_publishAll h hmessage

/-- Among documents with distinct identifiers, a sound one is published once if all before it are
sound, and not at all otherwise. -/
private theorem length_published_publishAll {limit : Int} {earlier later : List Document}
    {d : Document} (hdistinct : (earlier ++ d :: later).Pairwise fun a b => a.uri ≠ b.uri)
    (hsound : d.isSound limit = true) :
    ((publishAll limit (earlier ++ d :: later)).sent.filterMap (Message.published? d.uri)).length =
      if earlier.all (·.isSound limit) then 1 else 0 := by
  obtain ⟨-, hlater, hearlier⟩ := List.pairwise_append.mp hdistinct
  have hbefore : (publishAll limit earlier).sent.filterMap (Message.published? d.uri) = [] :=
    filterMap_publishAll_of_ne fun e he => hearlier e he d List.mem_cons_self
  by_cases hall : earlier.all (·.isSound limit) = true
  · have hafter : (publishAll limit later).sent.filterMap (Message.published? d.uri) = [] :=
      filterMap_publishAll_of_ne fun e he => ((List.pairwise_cons.mp hlater).1 e he).symm
    obtain ⟨text, ds, htext, hds⟩ := Document.exists_of_isSound hsound
    obtain ⟨params, -, hpublished⟩ := Message.published?_publishDiagnostics d.uri ds d.version
    rw [publishAll_append (List.all_eq_true.mp hall),
      publishAll_cons later (Document.validate_snd htext hds), List.filterMap_append, hbefore]
    simp [hpublished, hafter, hall]
  · have hunsound : ∃ e ∈ earlier, e.isSound limit = false := by
      simpa using hall
    rw [publishAll_append_of_unsound hunsound, hbefore, if_neg hall]
    rfl

namespace Message

/-- The settings under which a message has all documents analysed again: the present ones if
watched files change, and those of a configuration that can be read. -/
def review? (settings : Settings) (members : List (Text × Json)) : Option Settings :=
  if method members = .str "workspace/didChangeWatchedFiles" then some settings
  else if method members = .str "workspace/didChangeConfiguration" then
    match (params members).member "settings" with
    | .ok payload => (Settings.read false (payload.getD .null)).toOption.map Prod.fst
    | .error _ => none
  else none

end Message

private theorem Server.sent_of_review {s : Server} {members : List (Text × Json)}
    {settings : Settings} (h : Message.review? s.settings members = some settings) :
    (s.turn members).sent = (publishAll settings.maxProblems s.documents.toList).sent := by
  unfold Message.review? at h
  unfold turn
  split at h
  · next hmethod =>
      cases h
      rw [hmethod]
      show (s.dispatch (.str Method.didChangeWatchedFiles.name) _ _).sent = _
      rw [dispatch_name]
      rfl
  · split at h
    · next hmethod =>
        rw [hmethod]
        show (s.dispatch (.str Method.didChangeConfiguration.name) _ _).sent = _
        rw [dispatch_name]
        show (s.handleDidChangeConfiguration (Message.params members)).sent = _
        unfold handleDidChangeConfiguration
        split at h
        · next payload hpayload =>
            cases hread : Settings.read false (payload.getD .null) with
            | error e =>
                rw [hread] at h
                cases h
            | ok read =>
                rw [hread] at h
                cases h
                simp only [hpayload, hread]
                rfl
        · cases h
    · cases h

namespace Conversation

/-- However a server was reached, a message that has all documents analysed again publishes a sound
document exactly once if all documents before it are sound, and not at all otherwise. -/
theorem published_once_iff_earlier_sound {settings settings' : Settings} {messages : List Json}
    {members : List (Text × Json)} {earlier later : List Document} {d : Document}
    (hreview : Message.review? (after settings messages).server.settings members = some settings')
    (hopen : (after settings messages).server.documents.toList = earlier ++ d :: later)
    (hsound : d.isSound settings'.maxProblems = true) :
    ∃ reply, (after settings messages).server.process (.obj members) = .ok reply ∧
      (reply.sent.filterMap (Message.published? d.uri)).length =
        if earlier.all (·.isSound settings'.maxProblems) then 1 else 0 := by
  obtain ⟨reply, hprocess, -, hsent, -⟩ := (after settings messages).server.exists_reply members
  have hdistinct := (keyed_after settings messages).pairwise_uri
  rw [hopen] at hdistinct
  refine ⟨reply, hprocess, ?_⟩
  rw [hsent, Server.sent_of_review hreview, hopen]
  exact length_published_publishAll hdistinct hsound

/-- A sound document behind an unsound one is left out when watched files change, and a change of
the configuration brings it back once the other is closed. -/
theorem published_once_iff_earlier_sound_closed :
    let document (uri : String) (members : List (Text × Json)) : Text × Json :=
      ("textDocument", .obj (("uri", .str uri) :: members))
    let notify (method : String) (params : List (Text × Json)) : Json :=
      .obj [("method", .str method), ("params", .obj params)]
    let messages : List Json :=
      [notify "textDocument/didOpen" [document "a" [("text", .int 5)]],
        notify "textDocument/didOpen" [document "b" [("text", .str "END")]],
        notify "textDocument/didClose" [document "a" []]]
    let members : List (Text × Json) := [("method", .str "workspace/didChangeConfiguration"),
      ("params", .obj [("settings", .obj [("maxNumberOfProblems", .int 7)])])]
    let d : Document := ⟨.str "b", .str "END", none⟩
    Message.review? (after {} messages).server.settings members = some ⟨7⟩ ∧
      (after {} messages).server.documents.toList = [d] ∧ d.isSound 7 = true ∧
      ∃ reply, (after {} messages).server.process (.obj members) = .ok reply ∧
        (reply.sent.filterMap (Message.published? (.str "b"))).length = 1 := by
  intro document notify messages members d
  have hreview : Message.review? (after {} messages).server.settings members = some ⟨7⟩ := by
    decide +kernel
  have hopen : (after {} messages).server.documents.toList = [d] := by decide +kernel
  have hsound : d.isSound 7 = true := by decide +kernel
  have hfirst : (after {} messages).server.documents.toList = [] ++ d :: [] := hopen
  obtain ⟨reply, hprocess, hcount⟩ := published_once_iff_earlier_sound hreview hfirst hsound
  exact ⟨hreview, hopen, hsound, reply, hprocess, hcount⟩

/-- Of two open documents only the second is sound, and it is not published when watched files
change. -/
theorem unsound_document_silences_later :
    let notify (uri : String) (text : Json) : Json :=
      .obj [("method", .str "textDocument/didOpen"),
        ("params", .obj [("textDocument", .obj [("uri", .str uri), ("text", text)])])]
    let s := (after {} [notify "a" (.int 5), notify "b" (.str "END")]).server
    let members : List (Text × Json) := [("method", .str "workspace/didChangeWatchedFiles")]
    let d : Document := ⟨.str "b", .str "END", none⟩
    d ∈ s.documents.toList ∧ d.isSound s.settings.maxProblems = true ∧
      ∃ reply, s.process (.obj members) = .ok reply ∧
        reply.sent.filterMap (Message.published? d.uri) = [] := by
  intro notify s members d
  have hstored : d ∈ s.documents.toList := by decide +kernel
  have hsound : d.isSound s.settings.maxProblems = true := by decide +kernel
  have hsilent : (s.turn members).sent.filterMap (Message.published? d.uri) = [] := by
    decide +kernel
  obtain ⟨reply, hprocess, -, hsent, -⟩ := s.exists_reply members
  rw [← hsent] at hsilent
  exact ⟨hstored, hsound, reply, hprocess, hsilent⟩

end Conversation

end TeachAsm
