import TeachAsm.Proofs.Turns

/-!
# Responses

Every object is processed. It is answered exactly if it has an identifier, with the identifier and
either a result or an error, and the code of the error tells whether the method was unknown.
-/

namespace TeachAsm

namespace Message

def errorCode? (response : List (Text × Json)) : Option Int :=
  match Json.find? "error" response with
  | some (.obj error) =>
    match Json.find? "code" error with
    | some (.int code) => some code
    | _ => none
  | _ => none

/-- The members of a response answer those of a message. -/
structure Answers (members response : List (Text × Json)) : Prop where
  id : Json.find? "id" response = Json.find? "id" members
  either : (Json.find? "result" response).isSome ≠ (Json.find? "error" response).isSome
  code : (Json.find? "error" response).isSome = true →
    ∃ code ∈ [-32601, -32602, -32603], errorCode? response = some code
  unknown : errorCode? response = some (-32601) ↔ Method.Unknown (method members)

private theorem id?_eq_none_iff (members : List (Text × Json)) :
    id? members = none ↔
      Json.find? "id" members = none ∨ Json.find? "id" members = some .null := by
  unfold id?
  cases Json.find? "id" members with
  | none => simp
  | some v => cases v <;> simp [Json.nonNull?]

private theorem find?_of_id? {members : List (Text × Json)} {id : Json}
    (h : id? members = some id) : Json.find? "id" members = some id := by
  obtain ⟨v, hfind, hv⟩ := Option.bind_eq_some_iff.mp h
  cases v with
  | null => cases hv
  | _ =>
      cases hv
      exact hfind

private theorem exists_result (id value : Json) : ∃ response, result id value = .obj response ∧
    Json.find? "id" response = some id ∧ Json.find? "result" response = some value ∧
    Json.find? "error" response = none := by
  refine ⟨_, rfl, ?_, ?_, ?_⟩ <;> simp [Json.find?, Table.find?]

private theorem exists_error (id : Json) (e : ProtocolError) : ∃ response, error id e =
      .obj response ∧ Json.find? "id" response = some id ∧ Json.find? "result" response = none ∧
      Json.find? "error" response = some e.toJson ∧ errorCode? response = some e.code := by
  have hfind : Json.find? "error" [("jsonrpc", .str "2.0"), ("id", id), ("error", e.toJson)] =
      some e.toJson := by
    simp [Json.find?, Table.find?]
  refine ⟨_, rfl, ?_, ?_, hfind, ?_⟩
  · simp [Json.find?, Table.find?]
  · simp [Json.find?, Table.find?]
  · rw [errorCode?, hfind]
    simp [ProtocolError.toJson, Json.find?, Table.find?]

end Message

namespace Method

private theorem not_unknown_name (m : Method) : ¬ Unknown (.str m.name) :=
  fun h => h.2 m rfl

private theorem not_unknown_of_error {method : Json} {e : Misuse} (h : Key.of method = .error e) :
    ¬ Unknown method := by
  rintro ⟨⟨key, hkey⟩, -⟩
  rw [h] at hkey
  cases hkey

end Method

namespace Server

variable {s : Server} {members : List (Text × Json)}

private theorem code_of_ofHandler (method : Json) {failure : Failure} (h : failure.OfHandler) :
    (failureReport method failure).2.code = -32602 ∨
      (failureReport method failure).2.code = -32603 := by
  cases h with
  | noDocument => exact .inl rfl
  | noText => exact .inl rfl
  | internal e => exact .inr rfl

private theorem not_unknown_of_ok {value id : Json} (hid : Message.id? members = some id)
    (h : (s.turn members).outcome = .ok value) : ¬ Method.Unknown (Message.method members) := by
  rcases s.turn_cases members with ⟨m, hm, -⟩ | ⟨-, hturn⟩ | ⟨⟨e, hkey⟩, -⟩
  · rw [hm]
    exact m.not_unknown_name
  · rw [hturn, hid] at h
    cases h
  · exact Method.not_unknown_of_error hkey

private theorem code_of_error {failure : Failure} (h : (s.turn members).outcome = .error failure) :
    (failureReport (Message.method members) failure).2.code ∈ [-32601, -32602, -32603] ∧
      ((failureReport (Message.method members) failure).2.code = -32601 ↔
        Method.Unknown (Message.method members)) := by
  -- Any other failure has one of the other two codes.
  have hother (hfails : failure.OfHandler) (hknown : ¬ Method.Unknown (Message.method members)) :
      (failureReport (Message.method members) failure).2.code ∈ [-32601, -32602, -32603] ∧
        ((failureReport (Message.method members) failure).2.code = -32601 ↔
          Method.Unknown (Message.method members)) := by
    rcases code_of_ofHandler (Message.method members) hfails with hcode | hcode
    · rw [hcode]
      exact ⟨by decide, by simp [hknown]⟩
    · rw [hcode]
      exact ⟨by decide, by simp [hknown]⟩
  rcases s.turn_cases members with ⟨m, hm, hturn⟩ | ⟨hunknown, hturn⟩ | ⟨⟨e, hkey⟩, hturn⟩
  · rw [hturn] at h
    apply hother ((handlerTurn_handle m).ofHandler h)
    rw [hm]
    exact m.not_unknown_name
  · rw [hturn] at h
    split at h
    · cases h
      exact ⟨List.mem_cons_self, iff_of_true rfl hunknown⟩
    · cases h
  · rw [hturn] at h
    cases h
    exact hother (.internal _) (Method.not_unknown_of_error hkey)

private theorem answers_of_response {id response : Json} (hid : Message.id? members = some id)
    (h : (s.turn members).response (Message.method members) (some id) = some response) :
    ∃ answer, response = .obj answer ∧ Message.Answers members answer := by
  have hfind := Message.find?_of_id? hid
  cases houtcome : (s.turn members).outcome with
  | ok value =>
      simp only [Turn.response, houtcome, Option.map_some, Option.some_inj] at h
      obtain ⟨answer, hanswer, hanswerId, hresult, herror⟩ := Message.exists_result id value
      refine ⟨answer, by rw [← h, hanswer], ?_, ?_, ?_, ?_⟩
      · rw [hanswerId, hfind]
      · simp [hresult, herror]
      · simp [herror]
      · have hknown := not_unknown_of_ok hid houtcome
        simp [Message.errorCode?, herror, hknown]
  | error failure =>
      simp only [Turn.response, houtcome, Option.map_some, Option.some_inj] at h
      obtain ⟨answer, hanswer, hanswerId, hresult, herror, hcode⟩ :=
        Message.exists_error id (failureReport (Message.method members) failure).2
      obtain ⟨hmem, hunknown⟩ := code_of_error houtcome
      refine ⟨answer, by rw [← h, hanswer], ?_, ?_, ?_, ?_⟩
      · rw [hanswerId, hfind]
      · simp [hresult, herror]
      · exact fun _ => ⟨_, hmem, hcode⟩
      · rw [hcode, Option.some_inj]
        exact hunknown

/-- Processing fails exactly on a message that is no object, because it has no members to ask for.
An object is answered exactly if it has an identifier other than null. A message is a value that the
body of a frame was decoded to: its integers are short enough to be written, and its arrays and
objects are no deeper inside each other than a body may have them. -/
theorem process_answers_once (s : Server) (message : Json) :
    ((∃ e, s.process message = .error e) ↔ ∀ members, message ≠ .obj members) ∧
      (∀ e, s.process message = .error e → e = .noMember message.kind "get") ∧
      ∀ members, message = .obj members → ∃ reply, s.process message = .ok reply ∧
        (reply.response = none ↔
          Json.find? "id" members = none ∨ Json.find? "id" members = some .null) ∧
        ∀ response, reply.response = some response →
          ∃ answer, response = .obj answer ∧ Message.Answers members answer := by
  cases message with
  | obj members =>
      obtain ⟨reply, hprocess, -, -, hresponse⟩ := s.exists_reply members
      refine ⟨?_, ?_, ?_⟩
      · simp [hprocess]
      · simp [hprocess]
      · intro _ hmembers
        cases hmembers
        refine ⟨reply, hprocess, ?_, ?_⟩
        · rw [← Message.id?_eq_none_iff, hresponse]
          exact Option.map_eq_none_iff
        · intro response hsome
          rw [hresponse] at hsome
          cases hid : Message.id? members with
          | none =>
              rw [hid] at hsome
              cases hsome
          | some id =>
              rw [hid] at hsome
              exact answers_of_response hid hsome
  | _ => simp [process]

end Server

end TeachAsm
