import TeachAsm.CommandLine.Lint
import TeachAsm.CommandLine.Serve
import TeachAsm.Proofs.FaultFreedom
import TeachAsm.Proofs.ValidSettings
import TeachAsm.Proofs.WritableValues

/-!
# Limits that can be written

An analysis notes its limit, and fails if the limit has more digits than are written. No argument,
no environment and no message asks for such a limit, since as many digits are not read either. So
what the commands and a session analyse fails on its own digits only.
-/

namespace TeachAsm

namespace Settings

theorem StandsFor.isWritable {value : Json} {n : Int} (h : StandsFor value n)
    (hvalue : value.Writable) : Radix.isWritable n = true := by
  cases h with
  | int n =>
      cases hvalue with
      | int writable => exact writable
  | real whole =>
      cases hvalue with
      | real writable => exact writable n whole
  | text reads => exact Integer.isWritable_of_read? reads

private theorem isWritable_of_positive {key : String} {value : Json} {n : Int}
    (hvalue : value.Writable) (h : positive key value = .ok n) : Radix.isWritable n = true := by
  unfold positive at h
  split at h
  · cases h
  · next hstands =>
      split at h
      · cases h
        exact (toInteger?_eq_some_iff.mp hstands).isWritable hvalue
      · cases h
  · cases h

private theorem writable_section {members inner : List (Text × Json)}
    (hmembers : Json.Writable (.obj members)) (h : Section members inner) :
    Json.Writable (.obj inner) := by
  cases h with
  | newer found => exact hmembers.find? found
  | older _ found => exact hmembers.find? found
  | whole _ _ => exact hmembers

private theorem writable_of_requested? {payload value : Json} (hpayload : payload.Writable)
    (h : requested? payload = .ok (some value)) : value.Writable := by
  cases payload with
  | obj members =>
      have hsection : Section members (sectionOf members) := section_iff.mpr rfl
      rw [requested?_of_section hsection, Except.ok.injEq, Option.bind_eq_some_iff] at h
      obtain ⟨found, hfound, hvalue⟩ := h
      rw [nonNull?_eq] at hvalue
      split at hvalue <;> cases hvalue
      exact (writable_section hpayload hsection).find? hfound
  | _ =>
      unfold requested? at h
      split at h <;> cases h

theorem isWritable_of_read {strict : Bool} {payload : Json} {s : Settings} {journal : List Record}
    (hpayload : payload.Writable) (h : read strict payload = .ok (s, journal)) :
    Radix.isWritable s.maxProblems = true := by
  have hdefault : Radix.isWritable 100 = true := by decide
  unfold read at h
  split at h
  · cases h
  · cases h
    exact hdefault
  · next value hrequested =>
      split at h
      · next hpositive =>
          cases h
          exact isWritable_of_positive (writable_of_requested? hpayload hrequested) hpositive
      · cases h
      · split at h <;> cases h
        exact hdefault

theorem isWritable_ofEnvironment (content : Option String) :
    Radix.isWritable (ofEnvironment content).1.maxProblems = true := by
  have hdefault : Radix.isWritable 100 = true := by decide
  unfold ofEnvironment
  split
  · exact hdefault
  · split
    · exact hdefault
    · split
      · next hpositive => exact isWritable_of_positive (.str _) hpositive
      · exact hdefault

end Settings

private theorem Message.writable_options? {params options : Json} (hparams : params.Writable)
    (h : options? params = some options) : options.Writable := by
  unfold options? at h
  split at h
  · next hmember =>
      rw [Option.bind_eq_some_iff] at h
      obtain ⟨found, rfl, hvalue⟩ := h
      rw [Settings.nonNull?_eq] at hvalue
      split at hvalue <;> cases hvalue
      exact hparams.member hmember
  · cases h

private theorem Message.writable_configuration {params : Json} (hparams : params.Writable) :
    (configuration params).Writable := by
  unfold configuration
  split
  · next payload hmember =>
      cases payload with
      | none => exact .null
      | some value => exact hparams.member hmember
  · exact .null

theorem Frame.writable_of_read {nesting : Nesting} {bytes rest : List UInt8} {message : Json}
    (h : read nesting bytes = .message message rest) : message.Writable := by
  unfold read at h
  split at h
  · cases h
  · cases h
  · split at h
    · cases h
    · split at h
      · cases h
      · split at h
        · cases h
        · unfold readBody at h
          split at h
          · cases h
          · split at h <;> cases h
            next hparse => exact Json.writable_of_parse hparse

namespace Server

variable {s : Server}

private theorem isWritable_of_handlerTurn {params : Json} {m : Method} {t : Turn}
    (hparams : params.Writable) (hs : Radix.isWritable s.settings.maxProblems = true)
    (h : HandlerTurn s params m t) : Radix.isWritable t.server.settings.maxProblems = true := by
  cases h with
  | document _ turn =>
      rw [turn.server_eq]
      exact hs
  | started brought read =>
      exact Settings.isWritable_of_read (Message.writable_options? hparams brought) read
  | configured _ read =>
      exact Settings.isWritable_of_read (Message.writable_configuration hparams) read
  | _ => exact hs

theorem isWritable_process {message : Json} {reply : Reply} (hmessage : message.Writable)
    (hs : Radix.isWritable s.settings.maxProblems = true) (h : s.process message = .ok reply) :
    Radix.isWritable reply.server.settings.maxProblems = true := by
  obtain ⟨members, rfl, hserver, -⟩ := turn_of_process h
  rw [hserver]
  apply turn_induction (p := fun t => Radix.isWritable t.server.settings.maxProblems = true)
  · exact fun m t _ turn => isWritable_of_handlerTurn (hmessage.orEmpty "params") hs turn
  · exact fun _ _ => hs

private theorem isWritable_serveFrame (nesting : Frame.Nesting) (bytes : List UInt8)
    (hs : Radix.isWritable s.settings.maxProblems = true) :
    Radix.isWritable (s.serveFrame nesting bytes).1.server.settings.maxProblems = true := by
  unfold serveFrame
  split
  · exact hs
  · exact hs
  · exact hs
  · exact hs
  · next hread =>
      split
      · exact hs
      · next hprocess => exact isWritable_process (Frame.writable_of_read hread) hs hprocess

private theorem isWritable_serveFrames (nesting : Frame.Nesting) (fuel : Nat) (bytes : List UInt8)
    (hs : Radix.isWritable s.settings.maxProblems = true) :
    Radix.isWritable (serveFrames nesting fuel s bytes).server.settings.maxProblems = true := by
  induction fuel generalizing s bytes with
  | zero => exact hs
  | succ fuel ih =>
      have hfirst := isWritable_serveFrame nesting bytes hs
      rw [serveFrames]
      dsimp only
      split
      · exact ih _ hfirst
      · exact hfirst

/-- Whatever bytes a session reads, the limit that it ends with can be written. -/
theorem isWritable_serve (nesting : Frame.Nesting) (bytes : List UInt8)
    (hs : Radix.isWritable s.settings.maxProblems = true) :
    Radix.isWritable (s.serve nesting bytes).server.settings.maxProblems = true :=
  isWritable_serveFrames nesting _ bytes hs

end Server

/-- With a limit that can be written, an analysis fails on the digits of its text only. -/
theorem Analysis.exists_digits_of_run {limit : Int} {text : Text} {f : Fault}
    (hlimit : Radix.isWritable limit = true) (h : run limit text = .error f) :
    ∃ e, f = .digits e ∧ LongRun text e.count := by
  rcases fails_of_run h with hdigits | ⟨-, -, hlong⟩
  · exact hdigits
  · rw [hlimit] at hlong
    cases hlong

namespace CommandLine

private theorem isWritable_of_maxProblems? {a : Arguments} {maxProblems : Option Int}
    (h : a.maxProblems? = .ok maxProblems) (environment : Option String) :
    Radix.isWritable (maxProblems.getD (Settings.ofEnvironment environment).1.maxProblems) =
      true := by
  have henvironment := Settings.isWritable_ofEnvironment environment
  unfold Arguments.maxProblems? at h
  split at h
  · cases h
    exact henvironment
  · split at h
    · next hread =>
        split at h <;> cases h
        exact Integer.isWritable_of_read? hread
    · cases h

/-- The files that are checked fail on their digits only, whatever limit is asked for. -/
theorem Lint.exists_digits_of_run {a : Arguments} {options : Options}
    (h : Lint.options a = .ok options) {environment : Option String} {text : Text} {f : Fault}
    (hf : Analysis.run (options.maxProblems.getD
      (Settings.ofEnvironment environment).1.maxProblems) text = .error f) :
    ∃ e, f = .digits e ∧ LongRun text e.count := by
  refine Analysis.exists_digits_of_run ?_ hf
  simp only [Lint.options, bind, Except.bind] at h
  split at h
  · cases h
  · next hmaximum =>
      split at h <;> cases h
      exact isWritable_of_maxProblems? hmaximum environment

private theorem Serve.isWritable_of_options {lookup : List Char → Option Entry} {a : Arguments}
    {options : Options} (h : Serve.options lookup a = .ok options) (environment : Option String) :
    Radix.isWritable (options.maxProblems.getD
      (Settings.ofEnvironment environment).1.maxProblems) = true := by
  simp only [Serve.options, bind, Except.bind] at h
  split at h
  · cases h
  · next hmaximum =>
      split at h
      · cases h
      · split at h
        · cases h
        · cases h
          exact isWritable_of_maxProblems? hmaximum environment

/-- After any stream the texts that an editor hands over fail on their digits only, whatever limit
the arguments, the environment and the messages have asked for. -/
theorem Serve.exists_digits_of_run {lookup : List Char → Option Entry}
    {environment : Option String} {arguments : List (List Char)} {options : Options}
    {settings : Settings} {warnings : List Record}
    (h : Serve.start lookup environment arguments = .ok (.serving options settings warnings))
    {nesting : Frame.Nesting} {stream : List UInt8} {text : Text} {f : Fault}
    (hf : Analysis.run (Server.serve nesting { settings } stream).server.settings.maxProblems text =
      .error f) :
    ∃ e, f = .digits e ∧ LongRun text e.count := by
  refine Analysis.exists_digits_of_run (Server.isWritable_serve nesting stream ?_) hf
  simp only [start, bind, Except.bind] at h
  split at h
  · cases h
  · split at h
    · cases h
    · cases h
    · split at h
      · cases h
      · next found hfound =>
          split at h <;> cases h
          exact isWritable_of_options hfound environment

end CommandLine

end TeachAsm
