import TeachAsm.Json.Parser
import TeachAsm.Json.Printer
import TeachAsm.Proofs.Numerals

/-!
# Reading what was written

A value that JSON text can carry reads back from its one-line form. The reader stops right behind
the value, so the statement is about a value with any text behind it that cannot extend it.
-/

namespace TeachAsm.Json

/-- A value that JSON text carries unchanged: its integers have few enough digits, its strings hold
whole characters, the keys of an object differ, and at most so many arrays and objects are open at
once. -/
inductive Carried : Nat → Json → Prop
  | null (room : Nat) : Carried room .null
  | bool (room : Nat) (b : Bool) : Carried room (.bool b)
  | int (room : Nat) {n : Int} (digits : n.natAbs < 10 ^ digitLimit) : Carried room (.int n)
  | str (room : Nat) (s : List Char) : Carried room (.str (.ofChars s))
  | arr {room : Nat} {items : List Json} (carried : ∀ a ∈ items, Carried room a) :
      Carried (room + 1) (.arr items)
  | obj {room : Nat} {members : List (Text × Json)} (distinct : (members.map Prod.fst).Nodup)
      (keys : ∀ e ∈ members, ∃ s, e.1 = Text.ofChars s)
      (carried : ∀ e ∈ members, Carried room e.2) : Carried (room + 1) (.obj members)

/-- The text is over, or goes on with a character that stands behind a value. -/
def Stops (rest : List Char) : Prop := ∀ c ∈ rest.head?, c = ',' ∨ c = ']' ∨ c = '\x7d'

private theorem stops_nil : Stops [] := by
  simp [Stops]

private theorem stops_cons {c : Char} (h : c = ',' ∨ c = ']' ∨ c = '\x7d') (rest : List Char) :
    Stops (c :: rest) := by
  simpa [Stops] using h

private theorem stringTail_unitEscape (start : List Char) (r : Reading) {n : Nat} (h : n < 0x10000)
    {rest : List Char} (hrest : rest ≠ []) :
    stringTail start r (unitEscape n ++ rest) = stringTail start (r.addUnit n) rest := by
  have hlength : (hexDigits 4 n).length = 4 := length_hexDigits (by decide) h
  have hdigit := isDigit_hexDigits 4 n
  have hvalue := value_hexDigits 4 n
  match hdigits : hexDigits 4 n with
  | [a, b, c, d] =>
      rw [hdigits] at hdigit hvalue
      have hunit : unit? a b c d = some n := by
        have hall : [a, b, c, d].all (fun c => Radix.hexadecimal.isDigit c) = true :=
          List.all_eq_true.mpr hdigit
        rw [unit?, if_pos hall]
        exact congrArg some hvalue
      simp only [unitEscape, hdigits, List.cons_append, List.nil_append, stringTail, hunit,
        List.isEmpty_iff, hrest, if_false]
  | [] | [_] | [_, _] | [_, _, _] | _ :: _ :: _ :: _ :: _ :: _ => simp [hdigits] at hlength

private theorem addUnit_of_char {points : Text} {c : Char} (h : c.toNat < 0x10000) :
    (⟨points, none⟩ : Reading).addUnit c.toNat = ⟨.char c :: points, none⟩ := by
  have hvalid : c.toNat < 0xD800 ∨ 0xDFFF < c.toNat ∧ c.toNat < 0x110000 := c.valid
  have hhigh : isHighSurrogate c.toNat = false := by
    simp only [isHighSurrogate, Bool.and_eq_false_iff, decide_eq_false_iff_not]
    omega
  have hpoint : unitPoint c.toNat = .char c := by
    have hrange : ¬ (0xD800 ≤ c.toNat ∧ c.toNat < 0xE000) := by omega
    rw [unitPoint, dif_neg hrange, Char.ofNat_toNat]
  simp [Reading.addUnit, Reading.add, Reading.flush, hhigh, hpoint]

private theorem addUnit_pair {points : Text} {c : Char} {high low : Nat}
    (hhigh : high = 0xD800 + (c.toNat - 0x10000) / 0x400)
    (hlow : low = 0xDC00 + (c.toNat - 0x10000) % 0x400) (h : 0x10000 ≤ c.toNat) :
    ((⟨points, none⟩ : Reading).addUnit high).addUnit low = ⟨.char c :: points, none⟩ := by
  have hvalid : c.toNat < 0xD800 ∨ 0xDFFF < c.toNat ∧ c.toNat < 0x110000 := c.valid
  have hhigh' : isHighSurrogate high = true := by
    simp only [isHighSurrogate, Bool.and_eq_true, decide_eq_true_eq]
    omega
  have hlow' : isLowSurrogate low = true := by
    simp only [isLowSurrogate, Bool.and_eq_true, decide_eq_true_eq]
    omega
  have hjoin : joinSurrogates high low = c := by
    have hnat : 0x10000 + (high - 0xD800) * 0x400 + (low - 0xDC00) = c.toNat := by omega
    rw [joinSurrogates, hnat, Char.ofNat_toNat]
  simp only [Reading.addUnit, hhigh', hlow', hjoin, if_true]

private theorem stringTail_shortEscape (start : List Char) (r : Reading) {c c' : Char}
    (hunit : c ≠ 'u') (hescape : shortEscape? c = some c') (rest : List Char) :
    stringTail start r ('\\' :: c :: rest) = stringTail start (r.add (.char c')) rest := by
  rw [stringTail]
  · rw [hescape]
  · exact fun _ _ _ _ _ heq _ => hunit heq
  · exact fun heq => hunit heq

private theorem stringTail_plain (start : List Char) (r : Reading) {c : Char} (hquote : c ≠ '"')
    (hslash : c ≠ '\\') (hlow : ¬ c.toNat < 0x20) (rest : List Char) :
    stringTail start r (c :: rest) = stringTail start (r.add (.char c)) rest := by
  rw [stringTail]
  · simp [hslash, hlow]
  · exact hquote
  · exact fun _ _ _ _ _ heq _ => hslash heq
  · exact fun _ heq _ => hslash heq
  · exact fun _ _ heq _ => hslash heq

private theorem stringTail_escaped (start : List Char) (points : Text) (c : Char) {rest : List Char}
    (hrest : rest ≠ []) :
    stringTail start ⟨points, none⟩ (escaped (.char c) ++ rest) =
      stringTail start ⟨.char c :: points, none⟩ rest := by
  have hofNat {n : Nat} (h : c.toNat = n) : Char.ofNat n = c := by rw [← h, Char.ofNat_toNat]
  have hshort {d : Char} (hunit : d ≠ 'u') (hescape : shortEscape? d = some c) :
      stringTail start ⟨points, none⟩ ('\\' :: d :: rest) =
        stringTail start ⟨.char c :: points, none⟩ rest :=
    stringTail_shortEscape start _ hunit hescape rest
  simp only [escaped]
  split
  · next h => rcases h with rfl | rfl <;> exact hshort (by decide) rfl
  split
  · next h => exact hshort (by decide) (by rw [h]; rfl)
  split
  · next h => exact hshort (by decide) (by rw [h]; rfl)
  split
  · next h => exact hshort (by decide) (by rw [h]; rfl)
  split
  · next h => exact hshort (by decide) (by rw [← hofNat h]; rfl)
  split
  · next h => exact hshort (by decide) (by rw [← hofNat h]; rfl)
  split
  · next hquote _ _ _ _ _ h =>
      obtain ⟨hquote, hslash⟩ := not_or.mp hquote
      exact stringTail_plain start _ hquote hslash (by omega) rest
  split
  · next h => rw [stringTail_unitEscape _ _ h hrest, addUnit_of_char h]
  · next h =>
      have hvalid : c.toNat < 0xD800 ∨ 0xDFFF < c.toNat ∧ c.toNat < 0x110000 := c.valid
      have hsecond (n : Nat) : unitEscape n ++ rest ≠ [] := by simp [unitEscape]
      rw [List.append_assoc, stringTail_unitEscape _ _ (by omega) (hsecond _),
        stringTail_unitEscape _ _ (by omega) hrest, addUnit_pair rfl rfl (by omega)]

private theorem stringTail_renderString (start : List Char) (points : Text) (s rest : List Char) :
    stringTail start ⟨points, none⟩ ((Text.ofChars s).flatMap escaped ++ '"' :: rest) =
      .ok (points.reverse ++ Text.ofChars s, rest) := by
  induction s generalizing points with
  | nil => simp [Text.ofChars, stringTail, Reading.flush]
  | cons c s ih =>
      have hcons : (Text.ofChars (c :: s)).flatMap escaped =
          escaped (.char c) ++ (Text.ofChars s).flatMap escaped := rfl
      rw [hcons, List.append_assoc, stringTail_escaped _ _ _ (by simp), ih]
      simp [Text.ofChars]

private theorem not_isDigit_of_stops {rest : List Char} (h : Stops rest) :
    ∀ c ∈ rest.head?, isDigit c = false := by
  intro c hc
  rcases h c hc with rfl | rfl | rfl <;> decide

private theorem takeWhile_isDigit {digits rest : List Char}
    (hdigits : ∀ c ∈ digits, isDigit c = true) (hrest : Stops rest) :
    (digits ++ rest).takeWhile isDigit = digits := by
  rw [List.takeWhile_append_of_pos hdigits]
  cases rest with
  | nil => simp
  | cons c rest => simp [not_isDigit_of_stops hrest c rfl]

private theorem dropWhile_isDigit {digits rest : List Char}
    (hdigits : ∀ c ∈ digits, isDigit c = true) (hrest : Stops rest) :
    (digits ++ rest).dropWhile isDigit = rest := by
  rw [List.dropWhile_append_of_pos hdigits]
  cases rest with
  | nil => rfl
  | cons c rest => simp [not_isDigit_of_stops hrest c rfl]

private theorem whole_toDigits (n : Nat) {rest : List Char} (hrest : Stops rest) :
    whole (Nat.toDigits 10 n ++ rest) = (Nat.toDigits 10 n, rest) := by
  rcases Nat.eq_zero_or_pos n with rfl | hpos
  · rfl
  · obtain ⟨c, tail, hdigits, hc⟩ := head_toDigits_ne_zero (by decide) hpos (Nat.le_refl 10)
    have hall : ∀ c ∈ Nat.toDigits 10 n, isDigit c = true := Radix.decimal.isDigit_toDigits n
    have htake := takeWhile_isDigit hall hrest
    have hdrop := dropWhile_isDigit hall hrest
    rw [hdigits, List.cons_append] at htake hdrop ⊢
    unfold whole
    split
    · next heq => exact absurd (List.cons.inj heq).1 hc
    · rw [htake, hdrop]

private theorem fraction_of_stops {rest : List Char} (h : Stops rest) :
    fraction rest = ([], rest) := by
  unfold fraction
  split
  · next tail =>
      exact absurd (h '.' rfl) (by decide)
  · rfl

private theorem power?_of_stops {rest : List Char} (h : Stops rest) :
    power? rest = (none, rest) := by
  cases rest with
  | nil => rfl
  | cons c tail =>
      have hletter : ¬ (c = 'e' ∨ c = 'E') := by
        rcases h c rfl with rfl | rfl | rfl <;> decide
      simp [power?, hletter]

private theorem number_render {n : Int} (hn : n.natAbs < 10 ^ digitLimit) {rest : List Char}
    (hrest : Stops rest) : number (Radix.decimal.render n ++ rest) = .ok (.int n, rest) := by
  have hlength : ¬ digitLimit < (Nat.toDigits 10 n.natAbs).length :=
    Nat.not_lt.mpr ((Nat.length_toDigits_le_iff (by decide) (by decide)).mpr hn)
  have hvalue : decimalValue (Nat.toDigits 10 n.natAbs) = n.natAbs :=
    Radix.decimal.value_toDigits n.natAbs
  have hwhole := whole_toDigits n.natAbs hrest
  by_cases hsign : n < 0
  · have hrender : Radix.decimal.render n = '-' :: Nat.toDigits 10 n.natAbs := by
      simp [Radix.render, hsign, Radix.base]
    have hwith : withSign true n.natAbs = n := by
      simp only [withSign, if_true]
      omega
    simp [hrender, number, hwhole, Nat.toDigits_ne_nil, fraction_of_stops hrest,
      power?_of_stops hrest, hlength, hvalue, hwith]
  · have hrender : Radix.decimal.render n = Nat.toDigits 10 n.natAbs := by
      simp [Radix.render, hsign, Radix.base]
    have hwith : withSign false n.natAbs = n := by
      simp only [withSign, Bool.false_eq_true, if_false]
      omega
    have hminus : ∀ tail, Nat.toDigits 10 n.natAbs ++ rest ≠ '-' :: tail := by
      intro tail heq
      cases hdigits : Nat.toDigits 10 n.natAbs with
      | nil => exact Nat.toDigits_ne_nil hdigits
      | cons c digits =>
          have hc : Radix.decimal.isDigit (.char c) = true :=
            Radix.decimal.isDigit_toDigits n.natAbs c (hdigits ▸ List.mem_cons_self)
          rw [hdigits, List.cons_append] at heq
          rw [(List.cons.inj heq).1] at hc
          revert hc
          decide
    rw [hrender]
    generalize hs : Nat.toDigits 10 n.natAbs ++ rest = s at hminus hwhole
    simp [number, hwhole, Nat.toDigits_ne_nil, fraction_of_stops hrest,
      power?_of_stops hrest, hlength, hvalue, hwith]

/-- The digits of an integer, with its sign, start with neither a blank nor a bracket nor a
letter. -/
private theorem render_int_head (n : Int) : ∃ c tail, Radix.decimal.render n = c :: tail ∧
    (c = '-' ∧ (∃ d tail', tail = d :: tail' ∧ isDigit d = true) ∨ isDigit c = true) := by
  cases hdigits : Nat.toDigits 10 n.natAbs with
  | nil => exact absurd hdigits Nat.toDigits_ne_nil
  | cons d digits =>
      have hd : isDigit d = true :=
        Radix.decimal.isDigit_toDigits n.natAbs d (hdigits ▸ List.mem_cons_self)
      by_cases hsign : n < 0
      · exact ⟨'-', d :: digits, by simp [Radix.render, hsign, Radix.base, hdigits],
          .inl ⟨rfl, d, digits, rfl, hd⟩⟩
      · exact ⟨d, digits, by simp [Radix.render, hsign, Radix.base, hdigits], .inr hd⟩

theorem toNat_of_isDigit {c : Char} (h : isDigit c = true) : 48 ≤ c.toNat ∧ c.toNat ≤ 57 := by
  simpa [isDigit, Radix.isDigit, Radix.digit?, CodePoint.toNat] using h

private theorem render_head {room : Nat} {v : Json} (h : Carried room v) :
    ∃ c tail, render v = c :: tail ∧ isSpace c = false ∧ c ≠ ']' := by
  cases h with
  | null => exact ⟨'n', _, rfl, by decide, by decide⟩
  | bool _ b => cases b <;> exact ⟨_, _, rfl, by decide, by decide⟩
  | int _ _ =>
      obtain ⟨c, tail, hrender, ⟨rfl, -⟩ | hc⟩ := render_int_head _
      · exact ⟨'-', tail, hrender, by decide, by decide⟩
      · have hrange := toNat_of_isDigit hc
        refine ⟨c, tail, hrender, ?_, ?_⟩
        · rw [Bool.eq_false_iff]
          intro hspace
          simp only [isSpace, Bool.or_eq_true, beq_iff_eq] at hspace
          rcases hspace with ((rfl | rfl) | rfl) | rfl <;> exact absurd hrange (by decide)
        · rintro rfl
          exact absurd hrange (by decide)
  | str _ s => exact ⟨'"', _, rfl, by decide, by decide⟩
  | arr _ => exact ⟨'[', _, rfl, by decide, by decide⟩
  | obj _ _ _ => exact ⟨'\x7b', _, rfl, by decide, by decide⟩

private theorem skipSpace_cons {c : Char} (h : isSpace c = false) (tail : List Char) :
    skipSpace (c :: tail) = c :: tail := by
  simp [skipSpace, h]

private theorem skipSpace_render {room : Nat} {v : Json} (h : Carried room v) (rest : List Char) :
    skipSpace (render v ++ rest) = render v ++ rest := by
  obtain ⟨c, tail, hrender, hspace, -⟩ := render_head h
  rw [hrender]
  exact skipSpace_cons hspace _

/-- With enough fuel the value is read from its written form, and what stands behind it is left. -/
def Reads (room : Nat) (v : Json) : Prop :=
  ∀ fuel rest, 2 * (render v).length < fuel → Stops rest →
    value fuel room (render v ++ rest) = .ok (v, rest)

private theorem value_of_number {c : Char} {tail : List Char} (fuel room : Nat)
    (hname : names.find? (fun e => e.1.isPrefixOf (c :: tail)) = none)
    (hquote : c ≠ '"') (hbracket : c ≠ '[') (hbrace : c ≠ '\x7b') :
    value (fuel + 1) room (c :: tail) = number (c :: tail) := by
  rw [value]
  · rw [hname]
  · exact fun rest heq => hquote (List.cons.inj heq).1
  · exact fun rest heq => hbracket (List.cons.inj heq).1
  · exact fun rest heq => hbrace (List.cons.inj heq).1

private theorem reads_int (room : Nat) {n : Int} (hn : n.natAbs < 10 ^ digitLimit) :
    Reads room (.int n) := by
  intro fuel rest hfuel hrest
  obtain ⟨fuel, rfl⟩ := Nat.exists_eq_add_one_of_ne_zero (by omega : fuel ≠ 0)
  have hnumber := number_render hn hrest
  obtain ⟨c, tail, hrender, hc⟩ := render_int_head n
  rw [render, hrender, List.cons_append]
  rw [hrender, List.cons_append] at hnumber
  rcases hc with ⟨rfl, d, tail', rfl, hd⟩ | hc
  · have hletter : 'I' ≠ d := by
      rintro rfl
      exact absurd hd (by decide)
    rw [value_of_number _ _ _ (by decide) (by decide) (by decide), hnumber]
    simp [names, hletter]
  · have hne (d : Char) (hd : isDigit d = false) : d ≠ c := by
      rintro rfl
      rw [hc] at hd
      cases hd
    rw [value_of_number _ _ _ (hne _ (by decide)).symm (hne _ (by decide)).symm
      (hne _ (by decide)).symm, hnumber]
    simp [names, hne 'n' (by decide), hne 't' (by decide), hne 'f' (by decide),
      hne 'N' (by decide), hne 'I' (by decide), hne '-' (by decide)]

private theorem reads_str (room : Nat) (s : List Char) : Reads room (.str (.ofChars s)) := by
  intro fuel rest hfuel hrest
  obtain ⟨fuel, rfl⟩ := Nat.exists_eq_add_one_of_ne_zero (by omega : fuel ≠ 0)
  simp [render, renderString, value, stringTail_renderString]

private theorem renderItems_cons (a b : Json) (as : List Json) :
    renderItems (a :: b :: as) = render a ++ ',' :: ' ' :: renderItems (b :: as) := by
  simp [renderItems]

private theorem renderMembers_cons (k : Text) (a : Json) (e : Text × Json)
    (ms : List (Text × Json)) : renderMembers ((k, a) :: e :: ms) = renderString k ++
      ':' :: ' ' :: render a ++ ',' :: ' ' :: renderMembers (e :: ms) := by
  simp [renderMembers]

private theorem skipSpace_blank {c : Char} (h : isSpace c = false) (tail : List Char) :
    skipSpace (' ' :: c :: tail) = c :: tail :=
  skipSpace_cons h tail

private theorem renderItems_head {room : Nat} {as : List Json} (hne : as ≠ [])
    (h : ∀ a ∈ as, Carried room a) :
    ∃ c tail, renderItems as = c :: tail ∧ isSpace c = false ∧ c ≠ ']' := by
  match as with
  | [a] =>
      obtain ⟨c, tail, hrender, hc⟩ := render_head (h a List.mem_cons_self)
      exact ⟨c, tail ++ [']'], by rw [renderItems, hrender, List.cons_append], hc⟩
  | a :: b :: as =>
      obtain ⟨c, tail, hrender, hc⟩ := render_head (h a List.mem_cons_self)
      exact ⟨c, _, by rw [renderItems_cons, hrender, List.cons_append], hc⟩

private theorem items_render {room : Nat} {as : List Json} (hne : as ≠ [])
    (hcarried : ∀ a ∈ as, Carried room a) (hreads : ∀ a ∈ as, Reads room a) {fuel : Nat}
    (hfuel : 2 * (renderItems as).length < fuel) (read : List Json) (rest : List Char) :
    items fuel room read (renderItems as ++ rest) = .ok (.arr (read.reverse ++ as), rest) := by
  induction as generalizing fuel read with
  | nil => exact absurd rfl hne
  | cons a as ih =>
      obtain ⟨fuel, rfl⟩ := Nat.exists_eq_add_one_of_ne_zero (by omega : fuel ≠ 0)
      have hhead := hreads a List.mem_cons_self fuel
      cases as with
      | nil =>
          simp only [renderItems, List.length_append, List.length_singleton] at hfuel
          have hvalue := hhead (']' :: rest) (by omega) (stops_cons (by decide) rest)
          have hclose := skipSpace_cons (by decide : isSpace ']' = false) rest
          simp [renderItems, items, hvalue, hclose]
      | cons b as =>
          simp only [renderItems_cons, List.length_append, List.length_cons] at hfuel
          have hcarried' : ∀ a ∈ b :: as, Carried room a :=
            fun a ha => hcarried a (List.mem_cons_of_mem _ ha)
          have hlater := ih (by simp) hcarried' (fun a ha => hreads a (List.mem_cons_of_mem _ ha))
            (by omega : _ < fuel) (a :: read)
          obtain ⟨c, tail, hitems, hspace, -⟩ := renderItems_head (by simp) hcarried'
          have hvalue := hhead (',' :: ' ' :: (renderItems (b :: as) ++ rest)) (by omega)
            (stops_cons (by decide) _)
          have hcomma := skipSpace_cons (by decide : isSpace ',' = false)
            (' ' :: (renderItems (b :: as) ++ rest))
          rw [renderItems_cons, List.append_assoc, List.cons_append, List.cons_append, items,
            hvalue]
          simp only [hcomma]
          rw [hitems, List.cons_append, skipSpace_blank hspace, ← List.cons_append, ← hitems,
            hlater]
          simp

private theorem put_of_not_mem {key : Text} {members : List (Text × Json)} (v : Json)
    (h : key ∉ members.map Prod.fst) : Table.put key v members = members ++ [(key, v)] := by
  induction members with
  | nil => rfl
  | cons e rest ih =>
      rw [List.map_cons, List.mem_cons, not_or] at h
      rw [Table.put, if_neg (Ne.symm h.1), ih h.2, List.cons_append]

private theorem renderMembers_head {ms : List (Text × Json)} (hne : ms ≠ []) :
    ∃ tail, renderMembers ms = '"' :: tail := by
  match ms with
  | [(k, a)] => exact ⟨_, rfl⟩
  | (k, a) :: e :: ms => exact ⟨_, rfl⟩

private theorem members_render {room : Nat} {ms : List (Text × Json)} (hne : ms ≠ [])
    (hkeys : ∀ e ∈ ms, ∃ s, e.1 = Text.ofChars s) (hcarried : ∀ e ∈ ms, Carried room e.2)
    (hreads : ∀ e ∈ ms, Reads room e.2) {fuel : Nat}
    (hfuel : 2 * (renderMembers ms).length < fuel) (read : List (Text × Json))
    (hdistinct : ((read ++ ms).map Prod.fst).Nodup) (rest : List Char) :
    members fuel room read (renderMembers ms ++ rest) = .ok (.obj (read ++ ms), rest) := by
  induction ms generalizing fuel read with
  | nil => exact absurd rfl hne
  | cons e ms ih =>
      obtain ⟨fuel, rfl⟩ := Nat.exists_eq_add_one_of_ne_zero (by omega : fuel ≠ 0)
      obtain ⟨key, v⟩ := e
      obtain ⟨k, rfl⟩ : ∃ s, key = Text.ofChars s := hkeys _ List.mem_cons_self
      have hhead : ∀ rest, 2 * (render v).length < fuel → Stops rest →
          value fuel room (render v ++ rest) = .ok (v, rest) :=
        hreads _ List.mem_cons_self fuel
      have hvalue (rest : List Char) : skipSpace (' ' :: (render v ++ rest)) = render v ++ rest :=
        skipSpace_render (hcarried _ List.mem_cons_self) rest
      -- a key that comes for the first time goes to the end
      have hput : Table.put (Text.ofChars k) v read = read ++ [(Text.ofChars k, v)] := by
        apply put_of_not_mem
        rw [List.map_append, List.nodup_append] at hdistinct
        exact fun hmem => hdistinct.2.2 _ hmem _ List.mem_cons_self rfl
      have hcolon (rest : List Char) := skipSpace_cons (by decide : isSpace ':' = false) rest
      cases ms with
      | nil =>
          simp only [renderMembers, List.length_append, List.length_cons, List.length_nil] at hfuel
          have hread := hhead ('\x7d' :: rest) (by omega) (stops_cons (by decide) rest)
          have hclose := skipSpace_cons (by decide : isSpace '\x7d' = false) rest
          simp [renderMembers, renderString, members, stringTail_renderString, hcolon, hvalue, hput,
            hread, hclose]
      | cons e ms =>
          simp only [renderMembers_cons, List.length_append, List.length_cons] at hfuel
          have hlater := ih (by simp) (fun e he => hkeys e (List.mem_cons_of_mem _ he))
            (fun e he => hcarried e (List.mem_cons_of_mem _ he))
            (fun e he => hreads e (List.mem_cons_of_mem _ he)) (by omega : _ < fuel)
            (read ++ [(Text.ofChars k, v)]) (by simpa using hdistinct)
          have hread := hhead (',' :: ' ' :: (renderMembers (e :: ms) ++ rest)) (by omega)
            (stops_cons (by decide) _)
          have hcomma := skipSpace_cons (by decide : isSpace ',' = false)
            (' ' :: (renderMembers (e :: ms) ++ rest))
          obtain ⟨tail, hmembers⟩ := renderMembers_head (by simp : e :: ms ≠ [])
          have hspace : skipSpace (' ' :: (renderMembers (e :: ms) ++ rest)) =
              renderMembers (e :: ms) ++ rest := by
            rw [hmembers]
            rfl
          simp [renderMembers_cons, renderString, members, stringTail_renderString, hcolon, hvalue,
            hput, hread, hcomma, hspace, hlater]

/-- A carried value reads back from its written form. -/
theorem Carried.reads {room : Nat} {v : Json} (h : Carried room v) : Reads room v := by
  induction h with
  | null room =>
      intro fuel rest hfuel hrest
      obtain ⟨fuel, rfl⟩ := Nat.exists_eq_add_one_of_ne_zero (by omega : fuel ≠ 0)
      simp [render, value, names]
  | bool room b =>
      intro fuel rest hfuel hrest
      obtain ⟨fuel, rfl⟩ := Nat.exists_eq_add_one_of_ne_zero (by omega : fuel ≠ 0)
      cases b <;> simp [render, value, names]
  | int room hn => exact reads_int room hn
  | str room s => exact reads_str room s
  | @arr room as carried ih =>
      intro fuel rest hfuel hrest
      obtain ⟨fuel, rfl⟩ := Nat.exists_eq_add_one_of_ne_zero (by omega : fuel ≠ 0)
      simp only [render, List.length_cons] at hfuel
      by_cases hne : as = []
      · subst hne
        rfl
      · have hitems := items_render hne carried ih (by omega : _ < fuel) [] rest
        obtain ⟨c, tail, hrender, hspace, hclose⟩ := renderItems_head hne carried
        rw [hrender, List.cons_append] at hitems
        simp only [render, hrender, List.cons_append, value, skipSpace_cons hspace]
        split
        · next heq => cases heq
        · next heq => exact absurd (List.cons.inj heq).1 hclose
        · next hroom _ =>
            cases hroom
            exact hitems
  | @obj room ms distinct keys carried ih =>
      intro fuel rest hfuel hrest
      obtain ⟨fuel, rfl⟩ := Nat.exists_eq_add_one_of_ne_zero (by omega : fuel ≠ 0)
      simp only [render, List.length_cons] at hfuel
      by_cases hne : ms = []
      · subst hne
        rfl
      · have hmembers := members_render hne keys carried ih (by omega : _ < fuel) []
          distinct rest
        obtain ⟨tail, hrender⟩ := renderMembers_head hne
        rw [hrender, List.cons_append] at hmembers
        have hquote := skipSpace_cons (by decide : isSpace '"' = false) (tail ++ rest)
        simp only [render, hrender, List.cons_append, value, hquote]
        exact hmembers

/-- The form in which a closed list of characters is checked: the bounded quantifier itself may be
decided by a search through all characters. -/
theorem isAscii_of_all {s : List Char} (h : s.all (fun c => c.toNat < 0x80) = true) :
    ∀ c ∈ s, c.toNat < 0x80 := by
  simpa using h

private theorem isAscii_hexDigits {width n : Nat} : ∀ c ∈ hexDigits width n, c.toNat < 0x80 := by
  intro c hc
  have hdigit := isDigit_hexDigits width n c hc
  simp only [Radix.isDigit, Radix.digit?, CodePoint.toNat] at hdigit
  by_contra hlarge
  simp [show ¬ c.toNat ≤ 57 by omega, show ¬ c.toNat ≤ 70 by omega,
    show ¬ c.toNat ≤ 102 by omega] at hdigit

private theorem isAscii_unitEscape {n : Nat} : ∀ c ∈ unitEscape n, c.toNat < 0x80 := by
  intro c hc
  simp only [unitEscape, List.mem_cons] at hc
  rcases hc with rfl | rfl | hc
  · decide
  · decide
  · exact isAscii_hexDigits c hc

private theorem isAscii_escaped (p : CodePoint) : ∀ c ∈ escaped p, c.toNat < 0x80 := by
  have hshort {c d : Char} (hc : c.toNat < 0x80) (h : d ∈ ['\\', c]) : d.toNat < 0x80 := by
    simp only [List.mem_cons, List.not_mem_nil, or_false] at h
    rcases h with rfl | rfl
    · decide
    · exact hc
  intro d hd
  cases p with
  | surrogate n => exact isAscii_unitEscape d hd
  | char c =>
      simp only [escaped] at hd
      split at hd
      · next h => rcases h with rfl | rfl <;> exact hshort (by decide) hd
      split at hd
      · exact hshort (by decide) hd
      split at hd
      · exact hshort (by decide) hd
      split at hd
      · exact hshort (by decide) hd
      split at hd
      · exact hshort (by decide) hd
      split at hd
      · exact hshort (by decide) hd
      split at hd
      · next h =>
          rw [List.mem_singleton.mp hd]
          omega
      split at hd
      · exact isAscii_unitEscape d hd
      · rcases List.mem_append.mp hd with hd | hd <;> exact isAscii_unitEscape d hd

private theorem isAscii_renderString (s : Text) : ∀ c ∈ renderString s, c.toNat < 0x80 := by
  intro c hc
  simp only [renderString, List.cons_append, List.mem_cons, List.mem_append, List.mem_flatMap,
    List.not_mem_nil, or_false] at hc
  rcases hc with rfl | ⟨p, -, hc⟩ | rfl
  · decide
  · exact isAscii_escaped p c hc
  · decide

private theorem isAscii_render_int (n : Int) : ∀ c ∈ Radix.decimal.render n, c.toNat < 0x80 := by
  intro c hc
  rcases List.mem_append.mp hc with hc | hc
  · split at hc
    · rw [List.mem_singleton.mp hc]
      decide
    · cases hc
  · have hrange := toNat_of_isDigit (Radix.decimal.isDigit_toDigits n.natAbs c hc)
    omega

private theorem isAscii_renderItems {as : List Json}
    (h : ∀ a ∈ as, ∀ c ∈ render a, c.toNat < 0x80) : ∀ c ∈ renderItems as, c.toNat < 0x80 := by
  induction as with
  | nil => exact isAscii_of_all (by decide)
  | cons a as ih =>
      have hhead := h a List.mem_cons_self
      intro c hc
      cases as with
      | nil =>
          simp only [renderItems, List.mem_append, List.mem_singleton] at hc
          rcases hc with hc | rfl
          · exact hhead c hc
          · decide
      | cons b as =>
          rw [renderItems_cons, List.mem_append, List.mem_cons, List.mem_cons] at hc
          rcases hc with hc | rfl | rfl | hc
          · exact hhead c hc
          · decide
          · decide
          · exact ih (fun a ha => h a (List.mem_cons_of_mem _ ha)) c hc

private theorem isAscii_renderMembers {ms : List (Text × Json)}
    (h : ∀ e ∈ ms, ∀ c ∈ render e.2, c.toNat < 0x80) :
    ∀ c ∈ renderMembers ms, c.toNat < 0x80 := by
  induction ms with
  | nil => exact isAscii_of_all (by decide)
  | cons e ms ih =>
      obtain ⟨k, a⟩ := e
      have hkey := isAscii_renderString k
      have hhead : ∀ c ∈ render a, c.toNat < 0x80 := h _ List.mem_cons_self
      intro c hc
      cases ms with
      | nil =>
          simp only [renderMembers, List.mem_append, List.mem_cons, List.not_mem_nil,
            or_false] at hc
          rcases hc with (hc | rfl | rfl | hc) | rfl
          · exact hkey c hc
          · decide
          · decide
          · exact hhead c hc
          · decide
      | cons e ms =>
          simp only [renderMembers_cons, List.mem_append, List.mem_cons] at hc
          rcases hc with (hc | rfl | rfl | hc) | rfl | rfl | hc
          · exact hkey c hc
          · decide
          · decide
          · exact hhead c hc
          · decide
          · decide
          · exact ih (fun e he => h e (List.mem_cons_of_mem _ he)) c hc

theorem Carried.isAscii {room : Nat} {v : Json} (h : Carried room v) :
    ∀ c ∈ render v, c.toNat < 0x80 := by
  induction h with
  | null => exact isAscii_of_all (by decide)
  | bool _ b => cases b <;> exact isAscii_of_all (by decide)
  | int _ _ => exact isAscii_render_int _
  | str _ s => exact isAscii_renderString _
  | arr _ ih =>
      intro c hc
      rcases List.mem_cons.mp hc with rfl | hc
      · decide
      · exact isAscii_renderItems ih c hc
  | obj _ _ _ ih =>
      intro c hc
      rcases List.mem_cons.mp hc with rfl | hc
      · decide
      · exact isAscii_renderMembers ih c hc

/-- Reading inverts writing. -/
theorem parse_render {nesting : Nat} {v : Json} (h : Carried nesting v) :
    parse nesting (render v) = .ok v := by
  have hread := h.reads (2 * (render v).length + 2) [] (by omega) stops_nil
  have hskip := skipSpace_render h []
  have hmark : (render v).head? ≠ some (Char.ofNat 0xFEFF) := by
    intro hhead
    have hascii := h.isAscii _ (List.mem_of_head? hhead)
    exact absurd hascii (by decide)
  rw [List.append_nil] at hread hskip
  rw [parse, if_neg hmark, hskip, hread]
  rfl

end TeachAsm.Json
