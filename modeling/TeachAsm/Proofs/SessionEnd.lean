import TeachAsm.Server.Session

/-!
# The end of a session

Reading a frame either ends the session or takes a byte off the stream, whatever the bytes are. So
a session over a finite stream ends: it makes at most one turn for each byte and one more, and its
result is the one that the rules of a session allow.
-/

namespace TeachAsm

namespace Frame

/-- The bytes that a reading leaves. A body that is cut short is taken as far as it goes. -/
def Reading.rest : Reading → List UInt8
  | message _ rest | ended rest | refused _ rest | failed _ rest => rest
  | incomplete _ _ => []

def Reading.endsSession : Reading → Bool
  | ended _ | incomplete _ _ => true
  | message _ _ | refused _ _ | failed _ _ => false

private theorem readHeader_isSuffix (line : List UInt8) (length : Option Text)
    (bytes : List UInt8) : (readHeader line length bytes).rest <:+ bytes := by
  induction bytes generalizing line length with
  | nil =>
      have hnil : (readHeader line length []).rest = [] := by
        rw [readHeader]
        split
        · rfl
        · split <;> rfl
      simp only [hnil, List.suffix_rfl]
  | cons b bytes ih =>
      rw [readHeader]
      split
      · split
        · exact List.suffix_cons b bytes
        · dsimp only
          split
          · exact List.suffix_cons b bytes
          · exact (ih _ _).trans (List.suffix_cons b bytes)
      · exact (ih _ _).trans (List.suffix_cons b bytes)

@[simp] theorem rest_readBody (nesting : Nesting) (body rest : List UInt8) :
    (readBody nesting body rest).rest = rest := by
  unfold readBody
  split
  · rfl
  · split <;> rfl

private theorem rest_read_isSuffix (nesting : Nesting) (bytes : List UInt8) :
    (read nesting bytes).rest <:+ (readHeader [] none bytes).rest := by
  rw [read]
  cases readHeader [] none bytes with
  | ended => exact List.suffix_rfl
  | failed e rest => exact List.suffix_rfl
  | complete length rest =>
      dsimp only [Header.rest]
      cases length.bind Integer.read? with
      | none => exact List.suffix_rfl
      | some n =>
          dsimp only
          split
          · exact List.suffix_rfl
          · split
            · exact List.nil_suffix
            · rw [rest_readBody]
              exact List.drop_suffix _ _

/-- A reading that does not end the session takes at least one byte. -/
private theorem read_takes {nesting : Nesting} {bytes : List UInt8}
    (h : (read nesting bytes).endsSession = false) :
    ∃ taken, taken ≠ [] ∧ bytes = taken ++ (read nesting bytes).rest := by
  have hheader : readHeader [] none bytes ≠ .ended := by
    intro hended
    rw [read, hended] at h
    cases h
  have hshorter := readHeader_shorter hheader
  have hrest := rest_read_isSuffix nesting bytes
  have hlength := hrest.length_le
  obtain ⟨taken, htaken⟩ := hrest.trans (readHeader_isSuffix [] none bytes)
  refine ⟨taken, ?_, htaken.symm⟩
  rintro rfl
  rw [List.nil_append] at htaken
  rw [htaken] at hlength
  rw [List.length_nil] at hshorter
  omega

private theorem length_rest_lt {nesting : Nesting} {bytes : List UInt8} {reading : Reading}
    (hread : read nesting bytes = reading) (h : reading.endsSession = false) :
    reading.rest.length < bytes.length := by
  rw [← hread] at h ⊢
  obtain ⟨taken, hne, hbytes⟩ := read_takes h
  have hpos := List.length_pos_iff.mpr hne
  have hlength := congrArg List.length hbytes
  rw [List.length_append] at hlength
  omega

end Frame

/-- The rules of a session: a server, a stream, the number of turns and what the session gives. A
turn reads one frame; there is one as long as the server runs. -/
inductive Session (nesting : Frame.Nesting) : Server → List UInt8 → Nat → Transcript → Prop
  | stopped {s : Server} (bytes : List UInt8) (stopped : s.running = false) :
      Session nesting s bytes 0 { server := s, rest := bytes }
  /-- The stream is over, a body is null, or the stream ends inside a body. -/
  | ended {s : Server} {bytes : List UInt8} (running : s.running = true)
      (ends : (Frame.read nesting bytes).endsSession = true) :
      Session nesting s bytes 1 { server := s, rest := (Frame.read nesting bytes).rest }
  | refused {s : Server} {bytes rest : List UInt8} {e : ProtocolError} {turns : Nat}
      {t : Transcript} (running : s.running = true)
      (reads : Frame.read nesting bytes = .refused e rest)
      (later : Session nesting s rest turns t) :
      Session nesting s bytes (turns + 1) (t.after [] [Server.droppedRecord e])
  | failed {s : Server} {bytes rest : List UInt8} {e : Frame.Fault} {turns : Nat}
      {t : Transcript} (running : s.running = true)
      (reads : Frame.read nesting bytes = .failed e rest)
      (later : Session nesting s rest turns t) :
      Session nesting s bytes (turns + 1) (t.after [] [Server.errorRecord])
  | unprocessed {s : Server} {bytes rest : List UInt8} {value : Json} {e : Misuse} {turns : Nat}
      {t : Transcript} (running : s.running = true)
      (reads : Frame.read nesting bytes = .message value rest)
      (fails : s.process value = .error e) (later : Session nesting s rest turns t) :
      Session nesting s bytes (turns + 1) (t.after [] [Server.errorRecord])
  | processed {s : Server} {bytes rest : List UInt8} {value : Json} {reply : Server.Reply}
      {turns : Nat} {t : Transcript} (running : s.running = true)
      (reads : Frame.read nesting bytes = .message value rest)
      (replied : s.process value = .ok reply) (later : Session nesting reply.server rest turns t) :
      Session nesting s bytes (turns + 1)
        (t.after (reply.written nesting) (reply.noted nesting))

namespace Session

variable {nesting : Frame.Nesting} {s : Server} {bytes : List UInt8} {turns : Nat} {t : Transcript}

private theorem succ_turns_le {reading : Frame.Reading} (reads : Frame.read nesting bytes = reading)
    (goesOn : reading.endsSession = false) (ih : turns ≤ reading.rest.length + 1) :
    turns + 1 ≤ bytes.length + 1 := by
  have hlt := Frame.length_rest_lt reads goesOn
  omega

private theorem turns_le (h : Session nesting s bytes turns t) : turns ≤ bytes.length + 1 := by
  induction h with
  | stopped bytes stopped => exact Nat.zero_le _
  | ended running ends => exact Nat.le_add_left 1 _
  | refused running reads later ih => exact succ_turns_le reads rfl ih
  | failed running reads later ih => exact succ_turns_le reads rfl ih
  | unprocessed running reads fails later ih => exact succ_turns_le reads rfl ih
  | processed running reads replied later ih => exact succ_turns_le reads rfl ih

end Session

/-- Whatever the stream, the rules lead to an end. -/
private theorem exists_session (nesting : Frame.Nesting) (s : Server) (bytes : List UInt8) :
    ∃ turns t, Session nesting s bytes turns t := by
  induction hlength : bytes.length using Nat.strongRecOn generalizing s bytes with
  | ind length ih =>
      subst hlength
      cases hrunning : s.running with
      | false => exact ⟨_, _, .stopped bytes hrunning⟩
      | true =>
          cases hread : Frame.read nesting bytes with
          | ended rest => exact ⟨_, _, .ended hrunning (by rw [hread]; rfl)⟩
          | incomplete received expected => exact ⟨_, _, .ended hrunning (by rw [hread]; rfl)⟩
          | refused e rest =>
              have hlt := Frame.length_rest_lt hread rfl
              obtain ⟨turns, t, hlater⟩ := ih rest.length hlt s rest rfl
              exact ⟨_, _, .refused hrunning hread hlater⟩
          | failed e rest =>
              have hlt := Frame.length_rest_lt hread rfl
              obtain ⟨turns, t, hlater⟩ := ih rest.length hlt s rest rfl
              exact ⟨_, _, .failed hrunning hread hlater⟩
          | message value rest =>
              have hlt := Frame.length_rest_lt hread rfl
              cases hprocess : s.process value with
              | error e =>
                  obtain ⟨turns, t, hlater⟩ := ih rest.length hlt s rest rfl
                  exact ⟨_, _, .unprocessed hrunning hread hprocess hlater⟩
              | ok reply =>
                  obtain ⟨turns, t, hlater⟩ := ih rest.length hlt reply.server rest rfl
                  exact ⟨_, _, .processed hrunning hread hprocess hlater⟩

namespace Session

variable {nesting : Frame.Nesting} {s : Server} {bytes : List UInt8} {turns : Nat} {t : Transcript}

/-- With fuel for every turn, serving frames gives what the rules give. -/
private theorem serveFrames_eq (h : Session nesting s bytes turns t) {fuel : Nat}
    (hfuel : turns ≤ fuel) (hrunning : s.running = true) :
    Server.serveFrames nesting fuel s bytes = t := by
  induction h generalizing fuel with
  | stopped bytes stopped =>
      rw [stopped] at hrunning
      cases hrunning
  | @ended s bytes running ends =>
      obtain ⟨fuel, rfl⟩ : ∃ n, fuel = n + 1 := ⟨fuel - 1, by omega⟩
      rw [Server.serveFrames, Server.serveFrame]
      cases hread : Frame.read nesting bytes with
      | ended rest => rfl
      | incomplete received expected => rfl
      | _ =>
          rw [hread] at ends
          cases ends
  | refused running reads later ih =>
      obtain ⟨fuel, rfl⟩ : ∃ n, fuel = n + 1 := ⟨fuel - 1, by omega⟩
      have hlater := ih (Nat.le_of_succ_le_succ hfuel) running
      rw [Server.serveFrames, Server.serveFrame, reads, ← hlater]
      rfl
  | failed running reads later ih =>
      obtain ⟨fuel, rfl⟩ : ∃ n, fuel = n + 1 := ⟨fuel - 1, by omega⟩
      have hlater := ih (Nat.le_of_succ_le_succ hfuel) running
      rw [Server.serveFrames, Server.serveFrame, reads, ← hlater]
      rfl
  | unprocessed running reads fails later ih =>
      obtain ⟨fuel, rfl⟩ : ∃ n, fuel = n + 1 := ⟨fuel - 1, by omega⟩
      have hlater := ih (Nat.le_of_succ_le_succ hfuel) running
      rw [Server.serveFrames, Server.serveFrame, reads, ← hlater]
      simp only [fails]
      rfl
  | @processed s bytes rest value reply turns t running reads replied later ih =>
      obtain ⟨fuel, rfl⟩ : ∃ n, fuel = n + 1 := ⟨fuel - 1, by omega⟩
      rw [Server.serveFrames, Server.serveFrame, reads]
      simp only [replied]
      cases hgoesOn : reply.server.running with
      | true =>
          rw [← ih (Nat.le_of_succ_le_succ hfuel) hgoesOn]
          rfl
      | false =>
          -- after a request to exit there is no turn left
          cases later with
          | stopped rest stopped => simp [Transcript.after]
          | _ running => simp [hgoesOn] at running

end Session

namespace Server

/-- A session over a finite stream ends. An empty stream ends it, a reading that does not end it
takes at least one byte, and so it has at most one turn more than there are bytes. Its result is the
only one that the rules allow. -/
theorem serve_ends (nesting : Frame.Nesting) (s : Server) (bytes : List UInt8) :
    Frame.read nesting [] = .ended [] ∧
      (∀ stream, (∀ rest, Frame.read nesting stream ≠ .ended rest) →
        (∀ received expected, Frame.read nesting stream ≠ .incomplete received expected) →
        ∃ taken, taken ≠ [] ∧ stream = taken ++ (Frame.read nesting stream).rest) ∧
      (∃ turns, Session nesting { s with running := true } bytes turns (s.serve nesting bytes)) ∧
      ∀ turns t, Session nesting { s with running := true } bytes turns t →
        turns ≤ bytes.length + 1 ∧ t = s.serve nesting bytes := by
  have hserve {turns : Nat} {t : Transcript}
      (h : Session nesting { s with running := true } bytes turns t) : s.serve nesting bytes = t :=
    h.serveFrames_eq h.turns_le rfl
  refine ⟨rfl, ?_, ?_, ?_⟩
  · intro stream hended hincomplete
    apply Frame.read_takes
    cases hread : Frame.read nesting stream with
    | ended rest => exact absurd hread (hended rest)
    | incomplete received expected => exact absurd hread (hincomplete received expected)
    | _ => rfl
  · obtain ⟨turns, t, h⟩ := exists_session nesting { s with running := true } bytes
    rw [hserve h]
    exact ⟨turns, h⟩
  · intro turns t h
    exact ⟨h.turns_le, (hserve h).symm⟩

/-- A header without a length, a negative length, and a header that is cut short. -/
example :
    let t := ({} : Server).serve { read := 9 }
      (Utf8.encode "X\n\r\nContent-Length: -1\n\nContent-Le".toList)
    t.journal.length = 2 ∧ t.sent = [] ∧ t.rest = [] := by
  decide +kernel

end Server

end TeachAsm
