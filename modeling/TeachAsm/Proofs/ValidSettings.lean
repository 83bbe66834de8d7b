import TeachAsm.Proofs.Independence

/-!
# Valid settings

Whatever a payload asks for, reading it gives a limit of at least one or refuses the payload as a
whole. Strict reading and reading with warnings differ only in what becomes of a value that is no
limit. A server takes its settings from there alone, so no message leaves it with an invalid limit.
-/

namespace TeachAsm

inductive Json.Finite : Json → Prop
  | null : Finite .null
  | bool (b : Bool) : Finite (.bool b)
  | int (n : Int) : Finite (.int n)
  | real (negative : Bool) (mantissa : Nat) (exponent : Int) :
      Finite (.real (.finite negative mantissa exponent))
  | str (s : Text) : Finite (.str s)
  | arr {items : List Json} (finite : ∀ a ∈ items, Finite a) : Finite (.arr items)
  | obj {members : List (Text × Json)} (finite : ∀ e ∈ members, Finite e.2) :
      Finite (.obj members)

theorem Json.Finite.find? {members : List (Text × Json)} (h : Finite (.obj members)) {name : String}
    {v : Json} (hv : Json.find? name members = some v) : v.Finite := by
  cases h with
  | obj finite => exact finite _ (Table.mem_of_find? hv)

namespace Settings

/-- The members of a payload that the limit is looked up in: those of the newer section if it is an
object, else those of the older one if it is, else those of the payload itself. -/
inductive Section (members : List (Text × Json)) : List (Text × Json) → Prop
  | newer {inner : List (Text × Json)}
      (found : Json.find? "pdp8Assembly" members = some (.obj inner)) : Section members inner
  | older {inner : List (Text × Json)}
      (noNewer : ∀ other, Json.find? "pdp8Assembly" members ≠ some (.obj other))
      (found : Json.find? "languageServerExample" members = some (.obj inner)) :
      Section members inner
  | whole (noNewer : ∀ other, Json.find? "pdp8Assembly" members ≠ some (.obj other))
      (noOlder : ∀ other, Json.find? "languageServerExample" members ≠ some (.obj other)) :
      Section members members

/-- The integer that a value stands for. A truth value stands for none. -/
inductive StandsFor : Json → Int → Prop
  | int (n : Int) : StandsFor (.int n) n
  | real {x : Binary64} {n : Int} (whole : x.truncate? = some n) : StandsFor (.real x) n
  | text {s : Text} {n : Int} (reads : Integer.read? s = some n) : StandsFor (.str s) n

/-- What becomes of the value for the limit. -/
inductive Grants (value : Json) : Except SettingsError Settings → Prop
  | unasked (null : value = .null) : Grants value (.ok { maxProblems := 100 })
  | limit {n : Int} (integer : StandsFor value n) (positive : 1 ≤ n) :
      Grants value (.ok { maxProblems := n })
  | refused (asked : value ≠ .null) (noLimit : ∀ n, StandsFor value n → n < 1) :
      Grants value
        (.error (.invalid ⟨"maxNumberOfProblems", value, "expected a positive integer"⟩))

def objectAt? (members : List (Text × Json)) (name : String) : Option (List (Text × Json)) :=
  match Json.find? name members with
  | some (.obj inner) => some inner
  | _ => none

private theorem objectAt?_eq_some_iff {members inner : List (Text × Json)} {name : String} :
    objectAt? members name = some inner ↔ Json.find? name members = some (.obj inner) := by
  unfold objectAt?
  split
  · next hfound => simp [hfound]
  · next hother =>
      rw [iff_false_left nofun]
      exact hother inner

private theorem objectAt?_eq_none_iff {members : List (Text × Json)} {name : String} :
    objectAt? members name = none ↔ ∀ other, Json.find? name members ≠ some (.obj other) := by
  rw [Option.eq_none_iff_forall_ne_some]
  exact forall_congr' fun other => not_congr objectAt?_eq_some_iff

private theorem sectionOf_eq (members : List (Text × Json)) :
    sectionOf members = ((objectAt? members "pdp8Assembly").or
      (objectAt? members "languageServerExample")).getD members := by
  have hhead : sectionOf members =
      (sectionNames.filterMap (objectAt? members)).head?.getD members := by
    unfold sectionOf
    split
    · next inner rest hfound =>
        have hsections : sectionNames.filterMap (objectAt? members) = inner :: rest := hfound
        rw [hsections]
        rfl
    · next hnone =>
        have hsections : sectionNames.filterMap (objectAt? members) = [] := hnone
        rw [hsections]
        rfl
  rw [hhead]
  cases hnewer : objectAt? members "pdp8Assembly" <;>
    cases holder : objectAt? members "languageServerExample" <;>
    simp [sectionNames, hnewer, holder]

theorem section_iff {members inner : List (Text × Json)} :
    Section members inner ↔ sectionOf members = inner := by
  rw [sectionOf_eq]
  constructor
  · intro h
    cases h with
    | newer found =>
        rw [objectAt?_eq_some_iff.mpr found]
        rfl
    | older noNewer found =>
        rw [objectAt?_eq_none_iff.mpr noNewer, objectAt?_eq_some_iff.mpr found]
        rfl
    | whole noNewer noOlder =>
        rw [objectAt?_eq_none_iff.mpr noNewer, objectAt?_eq_none_iff.mpr noOlder]
        rfl
  · rintro rfl
    cases hnewer : objectAt? members "pdp8Assembly" with
    | some inner => exact .newer (objectAt?_eq_some_iff.mp hnewer)
    | none =>
        have noNewer := objectAt?_eq_none_iff.mp hnewer
        cases holder : objectAt? members "languageServerExample" with
        | some inner => exact .older noNewer (objectAt?_eq_some_iff.mp holder)
        | none => exact .whole noNewer (objectAt?_eq_none_iff.mp holder)

private theorem finite_section {members inner : List (Text × Json)}
    (hfinite : Json.Finite (.obj members)) (h : Section members inner) :
    Json.Finite (.obj inner) := by
  cases h with
  | newer found => exact hfinite.find? found
  | older _ found => exact hfinite.find? found
  | whole _ _ => exact hfinite

theorem toInteger?_eq_some_iff {value : Json} {n : Int} :
    toInteger? value = .ok (some n) ↔ StandsFor value n := by
  constructor
  · intro h
    unfold toInteger? at h
    split at h
    · cases h
      exact .int n
    · cases h
    · exact .real (Except.ok.inj h)
    · exact .text (Except.ok.inj h)
    · cases h
  · intro h
    cases h with
    | int n => rfl
    | text reads => rw [toInteger?, reads]
    | @real x _ whole =>
        cases x with
        | finite negative mantissa exponent => exact congrArg Except.ok whole
        | infinity negative => cases whole
        | nan => cases whole

private theorem exists_toInteger? {value : Json} (h : value.Finite) :
    ∃ n?, toInteger? value = .ok n? := by
  cases h <;> exact ⟨_, rfl⟩

private theorem grants_positive {value : Json} (hfinite : value.Finite) (hasked : value ≠ .null) :
    Grants value ((positive maxProblemsKey value).map Settings.mk) := by
  obtain ⟨n?, hn?⟩ := exists_toInteger? hfinite
  have hstands (n : Int) : StandsFor value n ↔ n? = some n := by
    rw [← toInteger?_eq_some_iff, hn?, Except.ok.injEq]
  unfold positive
  rw [hn?]
  cases n? with
  | none =>
      refine .refused hasked ?_
      intro n hn
      cases (hstands n).mp hn
  | some n =>
      by_cases hn : 1 ≤ n
      · simp only [hn, if_true]
        exact .limit ((hstands n).mpr rfl) hn
      · simp only [hn, if_false]
        refine .refused hasked ?_
        intro m hm
        cases (hstands m).mp hm
        omega

theorem nonNull?_eq (value : Json) :
    value.nonNull? = if value = .null then none else some value := by
  cases value <;> simp [Json.nonNull?]

theorem requested?_of_section {members inner : List (Text × Json)}
    (h : Section members inner) :
    requested? (.obj members) = .ok ((Json.find? maxProblemsKey inner).bind Json.nonNull?) := by
  by_cases hempty : members = []
  · subst hempty
    rw [section_iff] at h
    subst h
    rfl
  · have hpresent : (Json.obj members).isPresent = true := by
      simpa [Json.isPresent] using hempty
    simp only [requested?, hpresent, Bool.not_true, Bool.false_eq_true, if_false,
      section_iff.mp h]

private theorem grants_read_true {members inner : List (Text × Json)}
    (hfinite : Json.Finite (.obj members)) (h : Section members inner) :
    Grants ((Json.find? "maxNumberOfProblems" inner).getD .null)
      ((read true (.obj members)).map Prod.fst) := by
  unfold read
  rw [requested?_of_section h]
  change Grants ((Json.find? maxProblemsKey inner).getD .null) _
  cases hfound : Json.find? maxProblemsKey inner with
  | none => exact .unasked rfl
  | some value =>
      have hvalue : value.Finite := (finite_section hfinite h).find? hfound
      rw [Option.bind_some, nonNull?_eq, Option.getD_some]
      by_cases hnull : value = .null
      · rw [if_pos hnull]
        exact .unasked hnull
      · rw [if_neg hnull]
        have hgrants := grants_positive hvalue hnull
        dsimp only
        cases hpositive : positive maxProblemsKey value with
        | ok n =>
            rw [hpositive] at hgrants
            exact hgrants
        | error e =>
            rw [hpositive] at hgrants
            cases e <;> exact hgrants

private theorem read_of_absent {payload : Json} (h : payload.isPresent = false) (strict : Bool) :
    read strict payload = .ok ({}, []) := by
  simp [read, requested?, h]

private theorem read_of_not_obj {payload : Json} (hpresent : payload.isPresent = true)
    (h : ∀ members, payload ≠ .obj members) (strict : Bool) :
    read strict payload = .error (.misuse (.noMember payload.kind "get")) := by
  unfold read requested?
  rw [hpresent, Bool.not_true, if_neg Bool.false_ne_true]
  cases payload with
  | obj members => exact absurd rfl (h members)
  | _ => rfl

/-- What reading with warnings makes of an outcome of strict reading. -/
def excuse : Except SettingsError (Settings × List Record) →
    Except SettingsError (Settings × List Record)
  | .error (.invalid e) => .ok ({}, [⟨.warning, .settings, "Ignoring setting: " ++ e.message⟩])
  | outcome => outcome

/-- The two modes differ in what becomes of an invalid value, and in nothing else. -/
private theorem read_false (payload : Json) : read false payload = excuse (read true payload) := by
  unfold read
  cases requested? payload with
  | error e => rfl
  | ok value? =>
      cases value? with
      | none => rfl
      | some value =>
          cases hpositive : positive maxProblemsKey value with
          | ok n => simp only [hpositive, excuse]
          | error e =>
              cases e with
              | misuse e => simp only [hpositive, excuse]
              | invalid e => simp only [hpositive, excuse, if_true, Bool.false_eq_true, if_false]

private theorem journal_of_read_true {payload : Json} {s : Settings} {journal : List Record}
    (h : read true payload = .ok (s, journal)) : journal = [] := by
  unfold read at h
  split at h
  · cases h
  · cases h
    rfl
  · split at h <;> cases h
    rfl

private theorem read_false_of_ok {payload : Json} {s : Settings} {journal : List Record}
    (h : read true payload = .ok (s, journal)) :
    journal = [] ∧ read false payload = .ok (s, []) := by
  have hjournal := journal_of_read_true h
  rw [read_false, h, hjournal]
  exact ⟨rfl, rfl⟩

private theorem read_false_of_invalid {payload : Json} {e : InvalidSetting}
    (h : read true payload = .error (.invalid e)) :
    ∃ r : Record, r.level = .warning ∧ read false payload = .ok ({ maxProblems := 100 }, [r]) := by
  rw [read_false, h]
  exact ⟨_, rfl, rfl⟩

private theorem one_le_of_positive {key : String} {value : Json} {n : Int}
    (h : positive key value = .ok n) : 1 ≤ n := by
  unfold positive at h
  split at h
  · cases h
  · split at h
    · next hn =>
        cases h
        exact hn
    · cases h
  · cases h

private theorem one_le_of_read {strict : Bool} {payload : Json} {s : Settings}
    {journal : List Record} (h : read strict payload = .ok (s, journal)) : 1 ≤ s.maxProblems := by
  unfold read at h
  split at h
  · cases h
  · cases h
    decide
  · split at h
    · next hpositive =>
        cases h
        exact one_le_of_positive hpositive
    · cases h
    · split at h
      · cases h
      · cases h
        decide

/-- What reading a payload comes to, with warnings and strictly. -/
structure Reading (payload : Json) : Prop where
  /-- Only a payload that counts as present and is no object is refused. -/
  refused : ∀ e, read false payload = .error e ↔ payload.isPresent = true ∧
    (∀ members, payload ≠ .obj members) ∧ e = .misuse (.noMember payload.kind "get")
  valid : payload.isPresent = false ∨ (∃ members, payload = .obj members) →
    ∃ s journal, read false payload = .ok (s, journal) ∧ 1 ≤ s.maxProblems
  strict : ∀ s journal, read true payload = .ok (s, journal) →
    journal = [] ∧ read false payload = .ok (s, [])
  warned : ∀ e, read true payload = .error (.invalid e) →
    ∃ r : Record, r.level = .warning ∧ read false payload = .ok ({ maxProblems := 100 }, [r])
  absent : payload.isPresent = false → read true payload = .ok ({ maxProblems := 100 }, [])
  looked : ∀ members inner, payload = .obj members → Section members inner →
    Grants ((Json.find? "maxNumberOfProblems" inner).getD .null)
      ((read true payload).map Prod.fst)

private theorem read_ne_error {payload : Json} (hfinite : payload.Finite)
    (h : payload.isPresent = false ∨ ∃ members, payload = .obj members) (e : SettingsError) :
    read false payload ≠ .error e := by
  rcases h with habsent | ⟨members, rfl⟩
  · rw [read_of_absent habsent]
    exact nofun
  · have hgrants := grants_read_true hfinite (section_iff.mpr rfl)
    cases hstrict : read true (.obj members) with
    | ok result =>
        rw [(read_false_of_ok hstrict).2]
        exact nofun
    | error e =>
        rw [hstrict] at hgrants
        cases hgrants with
        | refused _ _ =>
            obtain ⟨r, -, hread⟩ := read_false_of_invalid hstrict
            rw [hread]
            exact nofun

private theorem reading_of_finite {payload : Json} (h : payload.Finite) : Reading payload where
  refused := by
    intro e
    by_cases hgood : payload.isPresent = false ∨ ∃ members, payload = .obj members
    · refine iff_of_false (read_ne_error h hgood e) ?_
      rintro ⟨hpresent, hother, -⟩
      rcases hgood with habsent | ⟨members, hobj⟩
      · rw [habsent] at hpresent
        cases hpresent
      · exact hother members hobj
    · rw [not_or, Bool.not_eq_false, not_exists] at hgood
      rw [read_of_not_obj hgood.1 hgood.2, Except.error.injEq, eq_comm]
      exact ⟨fun he => ⟨hgood.1, hgood.2, he⟩, fun he => he.2.2⟩
  valid := by
    intro hgood
    cases hread : read false payload with
    | error e => exact absurd hread (read_ne_error h hgood e)
    | ok result => exact ⟨result.1, result.2, rfl, one_le_of_read hread⟩
  strict := fun s journal => read_false_of_ok
  warned := fun e => read_false_of_invalid
  absent := fun habsent => read_of_absent habsent true
  looked := by
    rintro members inner rfl hsection
    exact grants_read_true h hsection

end Settings

/-- What messages may do to the settings and to a request to shut down. -/
structure Server.Keeps (s t : Server) : Prop where
  settings : t.settings = s.settings ∨
    ∃ payload journal, Settings.read false payload = .ok (t.settings, journal)
  shutdown : s.shutdownRequested = true → t.shutdownRequested = true

namespace Server

variable {s : Server} {params : Json}

theorem Keeps.refl (s : Server) : s.Keeps s := ⟨.inl rfl, id⟩

theorem Keeps.limit {t : Server} (h : s.Keeps t) (hs : 1 ≤ s.settings.maxProblems) :
    1 ≤ t.settings.maxProblems := by
  rcases h.settings with hsame | ⟨payload, journal, hread⟩
  · rw [hsame]
    exact hs
  · exact Settings.one_le_of_read hread

private theorem keeps_of_handlerTurn {m : Method} {t : Turn} (h : HandlerTurn s params m t) :
    s.Keeps t.server := by
  cases h with
  | document _ turn =>
      rw [turn.server_eq]
      exact ⟨.inl rfl, id⟩
  | started _ read => exact ⟨.inr ⟨_, _, read⟩, id⟩
  | initialized _ => exact .refl s
  | shutdown => exact ⟨.inl rfl, fun _ => rfl⟩
  | exit => exact ⟨.inl rfl, id⟩
  | configured _ read => exact ⟨.inr ⟨_, _, read⟩, id⟩
  | reviewed => exact .refl s

private theorem keeps_process {message : Json} {reply : Reply} (h : s.process message = .ok reply) :
    s.Keeps reply.server := by
  obtain ⟨members, -, hserver, -⟩ := turn_of_process h
  rw [hserver]
  apply turn_induction (p := fun t => s.Keeps t.server)
  · exact fun m t _ turn => keeps_of_handlerTurn turn
  · exact fun _ _ => .refl s

/-- What every message keeps holds of the server after all of them. -/
private theorem exchange_induction {p : Server → Prop} (hstep : ∀ s t, Keeps s t → p s → p t)
    {s : Server} (messages : List Json) (h : p s) : p (s.exchange messages).server := by
  induction messages generalizing s with
  | nil => exact h
  | cons message rest ih =>
      rw [exchange]
      cases hprocess : s.process message with
      | error e => exact ih h
      | ok reply => exact ih (hstep s reply.server (keeps_process hprocess) h)

/-- A payload without infinite numbers is refused only as a whole; otherwise it gives a limit of at
least one, which is taken from one of two sections or from the payload itself. Strict reading gives
the same limit, or an error where there is a warning otherwise. So a server with a valid limit has
one after any messages, and once it was asked to shut down it does not forget. -/
theorem settings_stay_valid :
    (∀ payload : Json, payload.Finite → Settings.Reading payload) ∧
    ∀ (s : Server) (messages : List Json),
      (1 ≤ s.settings.maxProblems → 1 ≤ (s.exchange messages).server.settings.maxProblems) ∧
      (s.shutdownRequested = true → (s.exchange messages).server.shutdownRequested = true) := by
  refine ⟨fun payload h => Settings.reading_of_finite h, ?_⟩
  intro s messages
  constructor
  · exact exchange_induction (p := fun t => 1 ≤ t.settings.maxProblems)
      (fun _ _ h => h.limit) messages
  · exact exchange_induction (p := fun t => t.shutdownRequested = true)
      (fun _ _ h => h.shutdown) messages

/-- The newer section asks for no problem at all, which is no limit, though the payload itself has
one; and the configuration comes after the client has asked to shut down. -/
theorem settings_stay_valid_zero :
    let payload : Json := .obj [("maxNumberOfProblems", .int 7),
      ("pdp8Assembly", .obj [("maxNumberOfProblems", .int 0)])]
    let configuration : Json := .obj [("method", .str "workspace/didChangeConfiguration"),
      ("params", .obj [("settings", payload)])]
    let s : Server := { settings := { maxProblems := 1 }, shutdownRequested := true }
    (∃ r : Record, r.level = .warning ∧
      Settings.read false payload = .ok ({ maxProblems := 100 }, [r])) ∧
    1 ≤ (s.exchange [configuration]).server.settings.maxProblems ∧
    (s.exchange [configuration]).server.shutdownRequested = true := by
  intro payload configuration s
  obtain ⟨hread, hkeep⟩ := settings_stay_valid
  have hfinite : payload.Finite := by
    have hsection : Json.Finite (.obj [("maxNumberOfProblems", .int 0)]) := by
      refine .obj ?_
      rintro _ (_ | ⟨_, hnone⟩)
      · exact .int 0
      · cases hnone
    refine .obj ?_
    rintro _ (_ | ⟨_, _ | ⟨_, hnone⟩⟩)
    · exact .int 7
    · exact hsection
    · cases hnone
  have hstrict : Settings.read true payload =
      .error (.invalid ⟨"maxNumberOfProblems", .int 0, "expected a positive integer"⟩) := by
    rfl
  obtain ⟨hlimit, hshutdown⟩ := hkeep s [configuration]
  exact ⟨(hread payload hfinite).warned _ hstrict, hlimit (by decide), hshutdown rfl⟩

end Server

end TeachAsm
