import TeachAsm.Proofs.Framing
import TeachAsm.Proofs.Turns
import TeachAsm.Server.Session

/-!
# Sessions frame by frame

A session over a stream of whole frames takes their bodies one by one. What it does with a body is
one rule of a relation, and no body, however bad, moves the place at which the next frame starts.
-/

namespace TeachAsm

namespace Frame

variable {nesting : Nesting} {body : List UInt8}

/-- The value whose UTF-8 text a body is. -/
def content? (nesting : Nesting) (body : List UInt8) : Option Json :=
  match Utf8.decode body with
  | .error _ => none
  | .ok text => (Json.parse nesting.read text).toOption

/-- The body is not the text of a value, or the value is neither an object nor null. -/
def isDropped (nesting : Nesting) (body : List UInt8) : Bool :=
  match content? nesting body with
  | some .null | some (.obj _) => false
  | _ => true

private theorem readBody_of_none (h : content? nesting body = none) (rest : List UInt8) :
    (∃ e, readBody nesting body rest = .refused e rest) ∨
      ∃ e, readBody nesting body rest = .failed e rest := by
  unfold content? at h
  cases hdecode : Utf8.decode body with
  | error e => exact .inl ⟨badBody e.message, by simp only [readBody, hdecode]⟩
  | ok text =>
      rw [hdecode] at h
      cases hparse : Json.parse nesting.read text with
      | ok value =>
          simp only [hparse] at h
          cases h
      | error e =>
          cases e with
          | malformed problem left =>
              exact .inl ⟨badBody (problem.display text left),
                by simp only [readBody, hdecode, hparse]⟩
          | digits e => exact .inr ⟨.digits e, by simp only [readBody, hdecode, hparse]⟩
          | tooDeep c => exact .inr ⟨.tooDeep c, by simp only [readBody, hdecode, hparse]⟩

private theorem parse_of_content? {value : Json} (h : content? nesting body = some value) :
    ∃ text, Utf8.decode body = .ok text ∧ Json.parse nesting.read text = .ok value := by
  unfold content? at h
  split at h
  · cases h
  · next text htext =>
      refine ⟨text, htext, ?_⟩
      cases hparse : Json.parse nesting.read text with
      | error e =>
          rw [hparse] at h
          cases h
      | ok v =>
          rw [hparse] at h
          cases h
          rfl

private theorem readBody_of_null (h : content? nesting body = some .null) (rest : List UInt8) :
    readBody nesting body rest = .ended rest := by
  obtain ⟨text, htext, hparse⟩ := parse_of_content? h
  simp [readBody, htext, hparse]

private theorem readBody_of_some {value : Json} (h : content? nesting body = some value)
    (hvalue : value ≠ .null) (rest : List UInt8) :
    readBody nesting body rest = .message value rest := by
  obtain ⟨text, htext, hparse⟩ := parse_of_content? h
  cases value with
  | null => exact absurd rfl hvalue
  | bool b => simp [readBody, htext, hparse]
  | int n => simp [readBody, htext, hparse]
  | real x => simp [readBody, htext, hparse]
  | str s => simp [readBody, htext, hparse]
  | arr items => simp [readBody, htext, hparse]
  | obj members => simp [readBody, htext, hparse]

end Frame

namespace Server

def asksExit (members : List (Text × Json)) : Prop :=
  Json.find? "method" members = some (.str "exit")

private theorem asksExit_iff (members : List (Text × Json)) :
    asksExit members ↔ Message.method members = .str "exit" := by
  unfold asksExit Message.method
  cases Json.find? "method" members with
  | none => exact iff_of_false (by simp) (by decide)
  | some v => simp

/-- An object is always processed. It is answered exactly if it has an identifier, and the server
runs on unless it is asked to exit. -/
private theorem process_obj (s : Server) (members : List (Text × Json)) :
    ∃ reply, s.process (.obj members) = .ok reply ∧
      reply.response.isSome = ((Json.find? "id" members).bind Json.nonNull?).isSome ∧
      (reply.server.running = true ↔ s.running = true ∧ ¬ asksExit members) := by
  obtain ⟨reply, hprocess, hserver, -, hresponse⟩ := s.exists_reply members
  refine ⟨reply, hprocess, ?_, ?_⟩
  · rw [hresponse]
    exact Option.isSome_map
  · rw [hserver, running_turn, asksExit_iff]

end Server

/-- How a session goes over the bodies of its frames: the state it ends in, the messages it sends,
and the bodies that it leaves. -/
inductive Served (nesting : Frame.Nesting) :
    Server → List (List UInt8) → Server → List Json → List (List UInt8) → Prop
  | over (s : Server) : Served nesting s [] s [] []
  | dropped {s t : Server} {body : List UInt8} {bodies left : List (List UInt8)}
      {sent : List Json} (bad : Frame.isDropped nesting body = true)
      (later : Served nesting s bodies t sent left) :
      Served nesting s (body :: bodies) t sent left
  | null {s : Server} {body : List UInt8} (bodies : List (List UInt8))
      (holds : Frame.content? nesting body = some .null) :
      Served nesting s (body :: bodies) s [] bodies
  | processed {s t : Server} {body : List UInt8} {bodies left : List (List UInt8)}
      {sent : List Json} {members : List (Text × Json)} {reply : Server.Reply}
      (holds : Frame.content? nesting body = some (.obj members))
      (goesOn : ¬ Server.asksExit members) (replied : s.process (.obj members) = .ok reply)
      (later : Served nesting reply.server bodies t sent left) :
      Served nesting s (body :: bodies) t (reply.written nesting ++ sent) left
  /-- The session ends after the request to exit, which is answered if it has an identifier. -/
  | exit {s : Server} {body : List UInt8} (bodies : List (List UInt8))
      {members : List (Text × Json)} {reply : Server.Reply}
      (holds : Frame.content? nesting body = some (.obj members))
      (exits : Server.asksExit members) (replied : s.process (.obj members) = .ok reply)
      (answered : reply.response.isSome = ((Json.find? "id" members).bind Json.nonNull?).isSome) :
      Served nesting s (body :: bodies) reply.server (reply.written nesting) bodies

namespace Server

variable {nesting : Frame.Nesting} {s : Server} {body : List UInt8}

private theorem serveFrame_dropped (hlength : body.length < 10 ^ digitLimit)
    (h : Frame.isDropped nesting body = true) (rest : List UInt8) :
    ∃ journal, s.serveFrame nesting (Frame.pack body ++ rest) =
      ({ server := s, journal, rest }, true) := by
  unfold serveFrame
  rw [Frame.read_pack nesting hlength]
  cases hcontent : Frame.content? nesting body with
  | none =>
      rcases Frame.readBody_of_none hcontent rest with ⟨e, hread⟩ | ⟨e, hread⟩
      · rw [hread]
        exact ⟨_, rfl⟩
      · rw [hread]
        exact ⟨_, rfl⟩
  | some value =>
      rw [Frame.isDropped, hcontent] at h
      cases value with
      | null => cases h
      | obj members => cases h
      | _ =>
          rw [Frame.readBody_of_some hcontent (by simp)]
          exact ⟨_, rfl⟩

private theorem serveFrame_null (hlength : body.length < 10 ^ digitLimit)
    (h : Frame.content? nesting body = some .null) (rest : List UInt8) :
    s.serveFrame nesting (Frame.pack body ++ rest) = ({ server := s, rest }, false) := by
  rw [serveFrame, Frame.read_pack nesting hlength, Frame.readBody_of_null h]

private theorem serveFrame_obj (hlength : body.length < 10 ^ digitLimit)
    {members : List (Text × Json)} (h : Frame.content? nesting body = some (.obj members))
    {reply : Reply} (hreply : s.process (.obj members) = .ok reply) (rest : List UInt8) :
    s.serveFrame nesting (Frame.pack body ++ rest) =
      ({ server := reply.server, sent := reply.written nesting, journal := reply.noted nesting,
         rest }, reply.server.running) := by
  rw [serveFrame, Frame.read_pack nesting hlength, Frame.readBody_of_some h (by simp)]
  simp only [hreply]

private theorem serveFrames_of_goesOn {fuel : Nat} {bytes : List UInt8} {first : Transcript}
    (h : s.serveFrame nesting bytes = (first, true)) :
    serveFrames nesting (fuel + 1) s bytes =
      (serveFrames nesting fuel first.server first.rest).after first.sent first.journal := by
  rw [serveFrames, h]
  rfl

private theorem serveFrames_of_ends {fuel : Nat} {bytes : List UInt8} {first : Transcript}
    (h : s.serveFrame nesting bytes = (first, false)) :
    serveFrames nesting (fuel + 1) s bytes = first := by
  rw [serveFrames, h]
  rfl

/-- With fuel for every frame, a session follows the rules and leaves whole frames. -/
private theorem serveFrames_pack {bodies : List (List UInt8)} {fuel : Nat} {s : Server}
    (hlength : ∀ body ∈ bodies, body.length < 10 ^ digitLimit) (hfuel : bodies.length < fuel)
    (hrunning : s.running = true) :
    let t := serveFrames nesting fuel s (bodies.flatMap Frame.pack)
    ∃ left, Served nesting s bodies t.server t.sent left ∧
      t.rest = left.flatMap Frame.pack := by
  induction bodies generalizing fuel s with
  | nil =>
      obtain ⟨fuel, rfl⟩ : ∃ n, fuel = n + 1 := ⟨fuel - 1, by omega⟩
      have hend : s.serveFrame nesting [] = ({ server := s }, false) := rfl
      rw [List.flatMap_nil, serveFrames_of_ends hend]
      exact ⟨[], .over s, rfl⟩
  | cons body bodies ih =>
      obtain ⟨fuel, rfl⟩ : ∃ n, fuel = n + 1 := ⟨fuel - 1, by omega⟩
      rw [List.length_cons, Nat.add_lt_add_iff_right] at hfuel
      obtain ⟨hbody, hbodies⟩ := List.forall_mem_cons.mp hlength
      rw [List.flatMap_cons]
      -- a body that is no JSON and one that is no object are passed over in the same way
      have hdrop (h : Frame.isDropped nesting body = true) :
          let t := serveFrames nesting (fuel + 1) s (Frame.pack body ++ bodies.flatMap Frame.pack)
          ∃ left, Served nesting s (body :: bodies) t.server t.sent left ∧
            t.rest = left.flatMap Frame.pack := by
        obtain ⟨journal, hframe⟩ := serveFrame_dropped (s := s) hbody h (bodies.flatMap Frame.pack)
        obtain ⟨left, hlater, hrest⟩ := ih hbodies hfuel hrunning
        rw [serveFrames_of_goesOn hframe]
        exact ⟨left, .dropped h hlater, hrest⟩
      cases hcontent : Frame.content? nesting body with
      | none => exact hdrop (by rw [Frame.isDropped, hcontent])
      | some value =>
          cases value with
          | null =>
              rw [serveFrames_of_ends (serveFrame_null hbody hcontent _)]
              exact ⟨bodies, .null bodies hcontent, rfl⟩
          | obj members =>
              obtain ⟨reply, hreply, hanswered, hgoesOn⟩ := s.process_obj members
              have hframe := serveFrame_obj hbody hcontent hreply (bodies.flatMap Frame.pack)
              by_cases hexit : asksExit members
              · have hstop : reply.server.running = false := by simpa [hexit] using hgoesOn
                rw [hstop] at hframe
                rw [serveFrames_of_ends hframe]
                exact ⟨bodies, .exit bodies hcontent hexit hreply hanswered, rfl⟩
              · have hgo : reply.server.running = true := hgoesOn.mpr ⟨hrunning, hexit⟩
                obtain ⟨left, hlater, hrest⟩ := ih hbodies hfuel hgo
                rw [hgo] at hframe
                rw [serveFrames_of_goesOn hframe]
                exact ⟨left, .processed hcontent hexit hreply hlater, hrest⟩
          | _ => exact hdrop (by rw [Frame.isDropped, hcontent])

private theorem length_le_length_flatMap_pack (bodies : List (List UInt8)) :
    bodies.length ≤ (bodies.flatMap Frame.pack).length := by
  induction bodies with
  | nil => exact Nat.le_refl 0
  | cons body bodies ih =>
      have hfield : (Utf8.encode Frame.lengthField).length = 16 := by decide
      simp only [List.flatMap_cons, List.length_cons, Frame.pack, Frame.header,
        Utf8.encode_append, List.length_append, hfield]
      omega

/-- A session over whole frames acts body by body, and what it does not read is whole frames again:
those after a null or a request to exit. -/
theorem serve_pack (nesting : Frame.Nesting) (s : Server) {bodies : List (List UInt8)}
    (hlength : ∀ body ∈ bodies, body.length < 10 ^ digitLimit) :
    let t := s.serve nesting (bodies.flatMap Frame.pack)
    ∃ left, Served nesting { s with running := true } bodies t.server t.sent left ∧
      t.rest = left.flatMap Frame.pack := by
  have hfuel := length_le_length_flatMap_pack bodies
  exact serveFrames_pack hlength (by omega) rfl

/-- A byte that is no text, an array, a request, a request to exit, and one that comes too late. -/
theorem serve_pack_exit :
    let bodies : List (List UInt8) := [[0xFF], Utf8.encode "[1]".toList,
      Utf8.encode "\x7b\"id\": 1, \"method\": \"shutdown\"\x7d".toList,
      Utf8.encode "\x7b\"id\": 2, \"method\": \"exit\"\x7d".toList,
      Utf8.encode "\x7b\"id\": 3, \"method\": \"shutdown\"\x7d".toList]
    let nesting : Frame.Nesting := { read := 9, write := some 8 }
    let s : Server := {}
    let t := s.serve nesting (bodies.flatMap Frame.pack)
    (∀ body ∈ bodies, body.length < 10 ^ digitLimit) ∧
      t.sent = [Message.result (.int 1) .null, Message.result (.int 2) .null] ∧
      ∃ left, Served nesting { s with running := true } bodies t.server t.sent left ∧
        t.rest = left.flatMap Frame.pack := by
  intro bodies nesting s t
  have hlength : ∀ body ∈ bodies, body.length < 10 ^ digitLimit := by
    have hshort : ∀ body ∈ bodies, body.length < 10 ^ 2 := by decide +kernel
    have hlimit : 10 ^ 2 ≤ 10 ^ digitLimit := Nat.pow_le_pow_right (by decide) (by decide)
    intro body hbody
    exact Nat.lt_of_lt_of_le (hshort body hbody) hlimit
  refine ⟨hlength, by decide +kernel, ?_⟩
  exact s.serve_pack nesting hlength

end Server

end TeachAsm
