import TeachAsm.Proofs.JsonRoundTrip
import TeachAsm.Proofs.WholeIntegers
import TeachAsm.Server.Frame

/-!
# Frames on a stream

A frame is read back from its bytes, whatever follows it on the stream. The header is ASCII and
ends at its blank line, so a body may hold any bytes, and messages in a row are read in order.
-/

namespace TeachAsm

namespace Utf8

private theorem utf8EncodeChar_of_ascii {c : Char} (h : c.toNat < 0x80) :
    String.utf8EncodeChar c = [UInt8.ofNat c.toNat] := by
  have hle : c.val.toNat ≤ 127 := by
    have : c.val.toNat < 0x80 := h
    omega
  rw [String.utf8EncodeChar, if_pos hle]
  rfl

private theorem toNat_ofNat_of_ascii {c : Char} (h : c.toNat < 0x80) :
    (UInt8.ofNat c.toNat).toNat = c.toNat := by
  rw [UInt8.toNat_ofNat']
  omega

private theorem encode_of_ascii {s : List Char} (h : ∀ c ∈ s, c.toNat < 0x80) :
    encode s = s.map fun c => UInt8.ofNat c.toNat := by
  induction s with
  | nil => rfl
  | cons c s ih =>
      have hcons : encode (c :: s) = String.utf8EncodeChar c ++ encode s := rfl
      rw [hcons, utf8EncodeChar_of_ascii (h c List.mem_cons_self),
        ih fun d hd => h d (List.mem_cons_of_mem _ hd)]
      rfl

theorem encode_append (s t : List Char) : encode (s ++ t) = encode s ++ encode t :=
  List.flatMap_append

private theorem length_encode_of_ascii {s : List Char} (h : ∀ c ∈ s, c.toNat < 0x80) :
    (encode s).length = s.length := by
  rw [encode_of_ascii h, List.length_map]

private theorem decodeFrom_encode {s : List Char} (h : ∀ c ∈ s, c.toNat < 0x80) (position : Nat)
    (read : List Char) :
    decodeFrom position none read (encode s) = .ok (read.reverse ++ s) := by
  rw [encode_of_ascii h]
  induction s generalizing position read with
  | nil => simp [decodeFrom]
  | cons c s ih =>
      have hc := h c List.mem_cons_self
      rw [List.map_cons, decodeFrom, toNat_ofNat_of_ascii hc, if_pos hc, Char.ofNat_toNat,
        ih fun d hd => h d (List.mem_cons_of_mem _ hd)]
      simp

private theorem decode_encode {s : List Char} (h : ∀ c ∈ s, c.toNat < 0x80) :
    decode (encode s) = .ok s :=
  decodeFrom_encode h 0 []

end Utf8

namespace Frame

def lengthField : List Char := "Content-Length: ".toList

def headerEnd : List Char := ['\r', '\n', '\r', '\n']

def header (length : Nat) : List Char :=
  lengthField ++ Radix.decimal.render length ++ headerEnd

/-- A body as it travels: its header and its bytes. -/
def pack (body : List UInt8) : List UInt8 := Utf8.encode (header body.length) ++ body

private theorem headerChar_of_ascii {c : Char} (h : c.toNat < 0x80) :
    headerChar (UInt8.ofNat c.toNat) = .char c := by
  rw [headerChar, Utf8.toNat_ofNat_of_ascii h, if_pos h, Char.ofNat_toNat]

private theorem map_headerChar_encode {s : List Char} (h : ∀ c ∈ s, c.toNat < 0x80) :
    (Utf8.encode s).map headerChar = Text.ofChars s := by
  rw [Utf8.encode_of_ascii h, List.map_map]
  exact List.map_congr_left fun c hc => headerChar_of_ascii (h c hc)

private theorem readHeader_append {front : List UInt8} (h : 10 ∉ front) (line : List UInt8)
    (length : Option Text) (rest : List UInt8) :
    readHeader line length (front ++ rest) = readHeader (front.reverse ++ line) length rest := by
  induction front generalizing line with
  | nil => rfl
  | cons b front ih =>
      rw [List.mem_cons, not_or] at h
      rw [List.cons_append, readHeader, if_neg (Ne.symm h.1), ih h.2]
      simp

private theorem readHeader_line {s : List Char} (hascii : ∀ c ∈ s, c.toNat < 0x80)
    (hfeed : '\n' ∉ s) (hshort : s.length ≤ lineLimit) (length : Option Text) (rest : List UInt8) :
    readHeader [] length (Utf8.encode s ++ 10 :: rest) =
      if (Text.strip (.ofChars (s ++ ['\n']))).isEmpty then .complete length rest
      else readHeader [] (addHeader length (Text.strip (.ofChars (s ++ ['\n'])))) rest := by
  have hbytes : 10 ∉ Utf8.encode s := by
    rw [Utf8.encode_of_ascii hascii, List.mem_map]
    rintro ⟨c, hc, heq⟩
    have hnat : c.toNat = 10 := by
      rw [← Utf8.toNat_ofNat_of_ascii (hascii c hc), heq]
      rfl
    have hc' : c = '\n' := by rw [← Char.ofNat_toNat c, hnat]
    exact hfeed (hc' ▸ hc)
  have hline : ¬ lineLimit < ((Utf8.encode s).reverse ++ []).length := by
    rw [List.append_nil, List.length_reverse, Utf8.length_encode_of_ascii hascii]
    omega
  have htext : (10 :: ((Utf8.encode s).reverse ++ [])).reverse.map headerChar =
      Text.ofChars (s ++ ['\n']) := by
    simp only [List.append_nil, List.reverse_cons, List.reverse_reverse, List.map_append,
      map_headerChar_encode hascii, Text.ofChars_append]
    rfl
  rw [readHeader_append hbytes, readHeader, if_pos rfl, if_neg hline, htext]

private theorem isAscii_lengthField : ∀ c ∈ lengthField, c.toNat < 0x80 :=
  Json.isAscii_of_all (by decide)

private theorem ofChars_lengthField :
    Text.ofChars lengthField = Text.ofString "Content-Length" ++ [.char ':', .char ' '] := by
  decide

private theorem addHeader_lengthField {digits : Text} (h : Text.IsWord digits)
    (length : Option Text) :
    addHeader length (Text.ofChars lengthField ++ digits) = some digits := by
  have hline : Text.ofChars lengthField ++ digits =
      Text.ofString "Content-Length" ++ .char ':' :: (.char ' ' :: digits) := by
    rw [ofChars_lengthField, List.append_assoc]
    rfl
  have hname : (Text.strip (Text.ofString "Content-Length")).map CodePoint.toLower =
      lengthHeader := by decide
  have hbefore : ∀ c ∈ Text.ofString "Content-Length", (c != .char ':') = true := by decide
  have hvalue : Text.strip (.char ' ' :: digits) = digits := by
    have hgap : Text.Blanks [.char ' '] := by decide
    simpa using h.solid.strip_eq hgap Text.blanks_nil
  rw [hline, addHeader, Text.beforeFirst_append (by decide), hname]
  simp [List.dropWhile_append_of_pos hbefore, hvalue]

private theorem readHeader_header {n : Nat} (h : n < 10 ^ digitLimit) (rest : List UInt8) :
    readHeader [] none (Utf8.encode (header n) ++ rest) =
      .complete (some (.ofChars (Nat.toDigits 10 n))) rest := by
  have hdigit := Radix.decimal.isDigit_toDigits n
  have hword : Text.IsWord (.ofChars (Nat.toDigits 10 n)) :=
    ⟨by simp [Text.ofChars, Nat.toDigits_ne_nil],
      fun c hc => Radix.not_isBlank_of_isDigit (Radix.decimal.isDigit_ofChars_toDigits n c hc)⟩
  have hlength : (Nat.toDigits 10 n).length ≤ digitLimit :=
    (Nat.length_toDigits_le_iff (by decide) (by decide)).mpr h
  let first := lengthField ++ Nat.toDigits 10 n ++ ['\r']
  have hbytes : Utf8.encode (header n) ++ rest =
      Utf8.encode first ++ 10 :: (Utf8.encode ['\r'] ++ 10 :: rest) := by
    have hheader : header n = first ++ ['\n', '\r', '\n'] := by
      simp [header, first, headerEnd, Radix.render_natCast, Radix.base]
    have hend : Utf8.encode ['\n', '\r', '\n'] = 10 :: (Utf8.encode ['\r'] ++ [10]) := by decide
    rw [hheader, Utf8.encode_append, hend]
    simp
  have hascii : ∀ c ∈ first, c.toNat < 0x80 := by
    intro c hc
    simp only [first, List.mem_append, List.mem_singleton] at hc
    rcases hc with (hc | hc) | rfl
    · exact isAscii_lengthField c hc
    · have hrange := Json.toNat_of_isDigit (hdigit c hc)
      omega
    · decide
  have hfeed : '\n' ∉ first := by
    intro hc
    simp only [first, List.mem_append, List.mem_singleton] at hc
    rcases hc with (hc | hc) | hc
    · exact absurd hc (by decide)
    · exact absurd (hdigit _ hc) (by decide)
    · exact absurd hc (by decide)
  have hshort : first.length ≤ lineLimit := by
    have hfield : lengthField.length = 16 := by decide
    have hlimit : digitLimit + 17 ≤ lineLimit := by decide
    simp only [first, List.length_append, List.length_singleton, hfield]
    omega
  have hstrip : Text.strip (.ofChars (first ++ ['\n'])) =
      Text.ofChars lengthField ++ .ofChars (Nat.toDigits 10 n) := by
    have hfield : Text.IsWord (Text.ofString "Content-Length" ++ [.char ':']) := by decide
    have hsolid := hfield.solid.of_append hword.solid [.char ' ']
    have htext : Text.ofChars (first ++ ['\n']) = (Text.ofString "Content-Length" ++ [.char ':']) ++
        ([.char ' '] ++ Text.ofChars (Nat.toDigits 10 n)) ++ [.char '\r', .char '\n'] := by
      simp only [first, Text.ofChars_append, ofChars_lengthField, List.append_assoc]
      rfl
    have hends : Text.Blanks [.char '\r', .char '\n'] := by decide
    have hline := hsolid.strip_eq Text.blanks_nil hends
    rw [List.nil_append] at hline
    rw [htext, hline, ofChars_lengthField]
    simp
  have hempty : (Text.ofChars lengthField ++ Text.ofChars (Nat.toDigits 10 n)).isEmpty = false := by
    rw [ofChars_lengthField]
    rfl
  have hblank : (Text.strip (.ofChars (['\r'] ++ ['\n']))).isEmpty = true := by decide
  rw [hbytes, readHeader_line hascii hfeed hshort, hstrip, hempty, if_neg (by decide),
    addHeader_lengthField hword,
    readHeader_line (Json.isAscii_of_all (by decide)) (by decide) (by decide), hblank, if_pos rfl]

/-- Reading a frame takes its header and its body off the stream. -/
theorem read_pack (nesting : Nesting) {body : List UInt8} (h : body.length < 10 ^ digitLimit)
    (rest : List UInt8) : read nesting (pack body ++ rest) = readBody nesting body rest := by
  have hlength : (Text.ofChars (Nat.toDigits 10 body.length)).length ≤ digitLimit := by
    rw [Text.length_ofChars]
    exact (Nat.length_toDigits_le_iff (by decide) (by decide)).mpr h
  have hnumber : Integer.read? (.ofChars (Nat.toDigits 10 body.length)) =
      some (body.length : Int) := by
    have hread := Integer.read?_of_decimal (Radix.decimal.isDigit_ofChars_toDigits body.length)
      (by simp [Text.ofChars, Nat.toDigits_ne_nil]) hlength
    rw [Radix.value_toDigits] at hread
    exact hread
  have hpositive : ¬ (body.length : Int) < 0 := by omega
  have hwhole : ¬ (body ++ rest).length < body.length := by
    simp
  rw [read, pack, List.append_assoc, readHeader_header h]
  simp only [Option.bind_some, hnumber, hpositive, hwhole, if_false, Int.toNat_natCast,
    List.take_left, List.drop_left]

def bytes? (nesting : Nesting) (message : Json) : Option (List UInt8) :=
  (encode nesting message).map Utf8.encode

/-- A message that one frame can carry: it is not null, it nests no deeper than a body and a message
that is written may, and the length of its text has few enough digits. -/
structure Transportable (nesting : Nesting) (message : Json) : Prop where
  carried : message.Carried nesting.read
  writable : nesting.allows message = true
  nonNull : message ≠ .null
  length : message.render.length < 10 ^ digitLimit

variable {nesting : Nesting} {message : Json}

private theorem bytes?_eq_pack (h : Transportable nesting message) :
    bytes? nesting message = some (pack (Utf8.encode message.render)) := by
  have hencode : encode nesting message =
      some (header message.render.length ++ message.render) := by
    rw [encode, if_pos h.writable]
    rfl
  rw [bytes?, hencode, Option.map_some, Utf8.encode_append, pack,
    Utf8.length_encode_of_ascii h.carried.isAscii]

private theorem read_pack_render (h : Transportable nesting message) (rest : List UInt8) :
    read nesting (pack (Utf8.encode message.render) ++ rest) = .message message rest := by
  have hascii := h.carried.isAscii
  have hlength : (Utf8.encode message.render).length < 10 ^ digitLimit := by
    rw [Utf8.length_encode_of_ascii hascii]
    exact h.length
  rw [read_pack nesting hlength, readBody, Utf8.decode_encode hascii]
  simp only [Json.parse_render h.carried]
  split
  · next heq => cases heq
  · next heq => cases heq
  · next heq => cases heq
  · next heq => exact absurd (Except.ok.inj heq) h.nonNull
  · next heq => rw [Except.ok.inj heq]

/-- Read so many messages in a row, with the bytes that are left; there is no answer unless every
frame gives a message. -/
def readMessages (nesting : Nesting) : Nat → List UInt8 → Option (List Json × List UInt8)
  | 0, stream => some ([], stream)
  | count + 1, stream =>
    match read nesting stream with
    | .message m rest =>
      (readMessages nesting count rest).map fun (later, rest) => (m :: later, rest)
    | _ => none

/-- Messages that are written one after the other are read in the same order, and reading stops
right behind the last one. -/
theorem readMessages_bytes {messages : List Json} (h : ∀ m ∈ messages, Transportable nesting m)
    (rest : List UInt8) :
    ∃ frames, messages.mapM (bytes? nesting) = some frames ∧
      readMessages nesting messages.length (frames.flatten ++ rest) = some (messages, rest) := by
  induction messages with
  | nil => exact ⟨[], rfl, rfl⟩
  | cons m later ih =>
      obtain ⟨hm, hlater⟩ := List.forall_mem_cons.mp h
      obtain ⟨frames, hframes, hread⟩ := ih hlater
      refine ⟨pack (Utf8.encode m.render) :: frames, ?_, ?_⟩
      · rw [List.mapM_cons, bytes?_eq_pack hm, hframes]
        rfl
      · rw [List.length_cons, List.flatten_cons, List.append_assoc, readMessages,
          read_pack_render hm]
        simp only [hread, Option.map_some]

/-- An object with a character past the first plane in an array, and a string that is all quotes and
line ends, before bytes that are no frame. No message may nest deeper than the first one does. -/
theorem readMessages_bytes_pair :
    let messages : List Json :=
      [.obj [(.ofChars ['k', 'é'], .arr [.int (-120), .null, .str (.ofChars ['😀', '/'])])],
        .str (.ofChars ['"', '\r', '\n'])]
    let nesting : Nesting := { read := 2, write := some 2 }
    (∀ m ∈ messages, Transportable nesting m) ∧
      ∃ frames, messages.mapM (bytes? nesting) = some frames ∧
        readMessages nesting 2 (frames.flatten ++ [0x43, 0xFF]) =
          some (messages, [0x43, 0xFF]) := by
  intro messages nesting
  have hall : ∀ m ∈ messages, Transportable nesting m := by
    have hdigits {n : Nat} (h : n < 10 ^ 3) : n < 10 ^ digitLimit :=
      Nat.lt_of_lt_of_le h (Nat.pow_le_pow_right (by decide) (by decide))
    intro m hm
    simp only [messages, List.mem_cons, List.not_mem_nil, or_false] at hm
    rcases hm with rfl | rfl
    · refine ⟨?_, by decide +kernel, by simp, hdigits (by decide +kernel)⟩
      refine .obj (by decide) (by simp) ?_
      simp only [List.mem_singleton, forall_eq]
      refine .arr ?_
      simp only [List.mem_cons, List.not_mem_nil, or_false, forall_eq_or_imp, forall_eq]
      exact ⟨.int _ (hdigits (by decide)), .null _, .str _ _⟩
    · exact ⟨.str _ _, by decide +kernel, by simp, hdigits (by decide +kernel)⟩
  exact ⟨hall, readMessages_bytes hall _⟩

end Frame

end TeachAsm
