import TeachAsm.Proofs.CleanProgram

/-!
# Loading clean programs

The two walks bind the labels of a clean program to the addresses of its layout, and its image holds
one cell per statement. The text of a cell is made of the words of its statement, so nothing that a
scan looks for stands in it but the mnemonic.
-/

namespace TeachAsm

/-- The mnemonics that a scan looks for anywhere in the text of a cell. -/
def Mnemonic.isSought (m : Mnemonic) : Bool :=
  m = .ORG || m = .END || m.family == .registerReference || m.family == .inputOutput

/-- No mnemonic that is sought occurs in the word. -/
def IsInert (word : Text) : Prop :=
  ∀ m : Mnemonic, m.isSought = true → ¬ m.spelling <:+: word

theorem length_spelling (m : Mnemonic) : m.spelling.length = 3 := by
  cases m <;> rfl

/-- Digits and signs spell no mnemonic that is sought, though hexadecimal digits spell others. -/
private theorem isInert_of_digits {word : Text}
    (h : ∀ c ∈ word, c = .char '+' ∨ c = .char '-' ∨ Radix.hexadecimal.isDigit c = true) :
    IsInert word := by
  have hletter : ∀ m : Mnemonic, m.isSought = true → ∃ c ∈ m.spelling,
      c ≠ .char '+' ∧ c ≠ .char '-' ∧ Radix.hexadecimal.isDigit c = false := by
    intro m
    cases m <;> decide
  intro m hm hpiece
  obtain ⟨c, hc, hplus, hminus, hdigit⟩ := hletter m hm
  rcases h c (hpiece.subset hc) with hc | hc | hc
  · exact hplus hc
  · exact hminus hc
  · rw [hdigit] at hc
    cases hc

private theorem isInert_of_length {word : Text} (h : word.length < 3) : IsInert word := by
  intro m _ hpiece
  have hlength := hpiece.length_le
  rw [length_spelling] at hlength
  omega

private theorem isInert_labelWord {label : Text} (h : IsPlainLabel label) :
    IsInert (label ++ [labelSeparator]) := by
  intro m _ hpiece
  have hlabel : m.spelling <:+: label := by
    have hspelling := not_mem_of_not_isPunctuation (isToken_spelling m).2
      (by decide : isPunctuation labelSeparator = true)
    have hcomma := not_mem_of_not_isPunctuation h.token.2
      (by decide : isPunctuation labelSeparator = true)
    have hfree {s : Text} (hs : labelSeparator ∉ s) : ∀ c ∈ s, (c == labelSeparator) = false := by
      intro c hc
      rw [beq_eq_false_iff_ne]
      rintro rfl
      exact hs hc
    obtain ⟨part, hpart, hin⟩ := Text.exists_splitWhen_of_isInfix (hfree hspelling) hpiece
    rw [Text.splitWhen_append (hfree hcomma) (by simp)] at hpart
    rcases List.mem_cons.mp hpart with rfl | hpart
    · exact hin
    · rw [List.mem_singleton.mp hpart] at hin
      exact absurd (List.infix_nil.mp hin) (isToken_spelling m).1.1
  have hlength : m.spelling.length = label.length := by
    have hle := hlabel.length_le
    have hshort := h.short
    rw [length_spelling] at hle ⊢
    simp only [maxLabelLength] at hshort
    omega
  rw [← hlabel.eq_of_length hlength] at h
  exact h.unreserved (List.mem_append_left _ (List.mem_map_of_mem m.mem_all))

theorem eq_of_spelling_isInfix {m m' : Mnemonic} (h : m.spelling <:+: m'.spelling) : m = m' := by
  have hspelling := h.eq_of_length (by rw [length_spelling, length_spelling])
  have hword := Mnemonic.ofWord?_spelling m
  rw [hspelling, Mnemonic.ofWord?_spelling] at hword
  exact (Option.some.inj hword).symm

namespace Cell

variable {c : Cell} {m : Mnemonic} {front back : List Text}

theorem eq_of_occursIn (hwords : Text.words c.text = front ++ m.spelling :: back)
    (hfront : ∀ word ∈ front, IsInert word) (hback : ∀ word ∈ back, IsInert word)
    {sought : Mnemonic} (hsought : sought.isSought = true)
    (h : Text.occursIn sought.spelling c.text = true) :
    sought = m := by
  rw [Text.occursIn_iff_isInfix] at h
  obtain ⟨word, hword, hpiece⟩ := Text.exists_word_of_isInfix (isToken_spelling sought).1 h
  rw [hwords] at hword
  rcases List.mem_append.mp hword with hword | hword
  · exact absurd hpiece (hfront word hword sought hsought)
  · rcases List.mem_cons.mp hword with rfl | hword
    · exact eq_of_spelling_isInfix hpiece
    · exact absurd hpiece (hback word hword sought hsought)

theorem mentionsOrigin_of_words (hwords : Text.words c.text = front ++ m.spelling :: back)
    (hfront : ∀ word ∈ front, IsInert word) (hback : ∀ word ∈ back, IsInert word)
    (hm : m ≠ .ORG) : c.mentionsOrigin = false := by
  by_contra hmentions
  rw [Bool.not_eq_false] at hmentions
  exact hm (eq_of_occursIn hwords hfront hback rfl hmentions).symm

theorem endsScan_of_words (hwords : Text.words c.text = front ++ m.spelling :: back)
    (hfront : ∀ word ∈ front, IsInert word) (hback : ∀ word ∈ back, IsInert word)
    (hm : m ≠ .END) : c.endsScan = false := by
  by_contra hends
  rw [Bool.not_eq_false, endsScan, List.contains_iff_mem] at hends
  have hoccurs : Text.occursIn (Mnemonic.spelling .END) c.text = true := by
    rw [Text.occursIn_iff_isInfix]
    exact Text.words_isInfix hends
  exact hm (eq_of_occursIn hwords hfront hback rfl hoccurs).symm

theorem formProblem?_of_words (hwords : Text.words c.text = front ++ m.spelling :: back)
    (hfront : ∀ word ∈ front, IsInert word) (hback : ∀ word ∈ back, IsInert word)
    (hlast : m.family = .registerReference ∨ m.family = .inputOutput → back = [])
    (hkind : c.kind ≠ .unresolved) : c.formProblem? = none := by
  have hends {f : Family} (hf : f = .registerReference ∨ f = .inputOutput)
      (hoccurs : f.occursInText c.text = true) : f.endsText c.text = true := by
    obtain ⟨sought, hmem, hoccurs⟩ := List.any_eq_true.mp hoccurs
    have hfamily : sought.family = f := by simpa using (List.mem_filter.mp hmem).2
    have hsought : sought.isSought = true := by
      rcases hf with rfl | rfl <;> simp [Mnemonic.isSought, hfamily]
    have hsame := eq_of_occursIn hwords hfront hback hsought hoccurs
    rw [hsame] at hfamily
    rw [hlast (hfamily ▸ hf)] at hwords
    rw [Family.endsText, hwords, List.getLast?_concat, Option.getD_some, Family.hasWord,
      Mnemonic.ofWord?_spelling, Option.map_some, hfamily, beq_self_eq_true]
  have hmalformed {f : Family} (hf : f = .registerReference ∨ f = .inputOutput) :
      (f.occursInText c.text && !f.endsText c.text) = false := by
    cases hoccurs : f.occursInText c.text with
    | false => rfl
    | true => simp [hends hf hoccurs]
  simp [formProblem?, hkind, hmalformed]

end Cell

namespace Image

theorem mem_or_cell_eq_empty (image : Image) (address : Nat) :
    (address, image.cell address) ∈ image.cells ∨ image.cell address = {} := by
  cases hfound : Table.find? address image.cells with
  | none => exact .inr (by rw [cell, hfound]; rfl)
  | some c =>
      have hcell : image.cell address = c := by rw [cell, hfound]; rfl
      exact .inl (hcell ▸ Table.mem_of_find? hfound)

theorem cell_of_mem (image : Image) {address : Nat} {c : Cell} (h : (address, c) ∈ image.cells) :
    image.cell address = c := by
  have hdistinct : (image.cells.map Prod.fst).Nodup := image.ascending.imp Nat.ne_of_lt
  rw [cell, Table.find?_of_mem hdistinct h]
  rfl

theorem cell_store?_of_ne (image : Image) {address a : Nat} (h : address ≠ a) (c : Cell) :
    ((image.store? address c).getD image).cell a = image.cell a := by
  unfold store?
  split
  · simp [Ne.symm h]
  · rfl

theorem cell_store?_self (image : Image) {address : Nat} (h : address < memorySize) (c : Cell) :
    ((image.store? address c).getD image).cell address = c := by
  simp [store?, h]

theorem cell_foldl_of_ne (image : Image) (writes : List (Nat × Cell)) {a : Nat}
    (h : ∀ w ∈ writes, w.1 ≠ a) :
    (writes.foldl (fun image w => (image.store? w.1 w.2).getD image) image).cell a =
      image.cell a := by
  induction writes generalizing image with
  | nil => rfl
  | cons w rest ih =>
      rw [List.foldl_cons, ih _ fun v hv => h v (List.mem_cons_of_mem _ hv)]
      exact cell_store?_of_ne image (h w List.mem_cons_self) w.2

/-- A write that none at the same address follows is found. -/
theorem cell_ofWrites_append (earlier later : List (Nat × Cell)) {address : Nat} (c : Cell)
    (hbound : address < memorySize) (hlater : ∀ w ∈ later, w.1 ≠ address) :
    (ofWrites (earlier ++ (address, c) :: later)).cell address = c := by
  rw [ofWrites, List.foldl_append, List.foldl_cons, cell_foldl_of_ne _ _ hlater]
  exact cell_store?_self _ hbound c

private theorem cell_ofWrites {writes : List (Nat × Cell)} (hdistinct : (writes.map Prod.fst).Nodup)
    {w : Nat × Cell} (hw : w ∈ writes) (hbound : w.1 < memorySize) :
    (ofWrites writes).cell w.1 = w.2 := by
  obtain ⟨earlier, later, rfl⟩ := List.append_of_mem hw
  rw [List.map_append, List.map_cons, List.nodup_append, List.nodup_cons] at hdistinct
  have hlater : ∀ v ∈ later, v.1 ≠ w.1 := by
    intro v hv heq
    exact hdistinct.2.1.1 (heq ▸ List.mem_map_of_mem hv)
  exact cell_ofWrites_append earlier later w.2 hbound hlater

theorem hiddenByJump_eq {image : Image} {address : Nat} (hlow : 2 ≤ address)
    (hhigh : address < memorySize) :
    image.hiddenByJump address = .ok ((image.cell (address - 1)).mnemonic?.any Mnemonic.jumps &&
      !(image.cell (address - 2)).mnemonic?.any Mnemonic.skips) := by
  have hfetch {back : Nat} (hback : back ≤ 2) :
      image.fetch ((address : Int) - back) = .ok (image.cell (address - back)) := by
    have hinside : isAddress ((address : Int) - back) = true := by
      rw [isAddress_iff]
      omega
    have hnat : ((address : Int) - back).toNat = address - back := by omega
    rw [image.fetch_of_isAddress hinside, hnat]
  have hone : image.fetch ((address : Int) - 1) = .ok (image.cell (address - 1)) :=
    hfetch (by decide : 1 ≤ 2)
  have htwo : image.fetch ((address : Int) - 2) = .ok (image.cell (address - 2)) :=
    hfetch (Nat.le_refl 2)
  rw [hiddenByJump, hone, htwo]
  rfl

end Image

namespace Bindings

variable {placements : List Placement} {b : Bindings} {label : Text}

private theorem get?_labels_foldl_of_not_mem
    (h : label ∉ declaredLabels (placements.map Placement.line)) :
    (placements.foldl enter b).labels.get? label = b.labels.get? label := by
  induction placements generalizing b with
  | nil => rfl
  | cons p rest ih =>
      rw [List.map_cons] at h
      rw [List.foldl_cons]
      cases hdeclares : p.line.declares with
      | false =>
          rw [declaredLabels_cons_of_not_declares hdeclares] at h
          rw [ih h, (enter_of_not_declares hdeclares b).1]
      | true =>
          rw [declaredLabels_cons_of_declares hdeclares, List.mem_cons, not_or] at h
          rw [ih h.2, enter_of_declares hdeclares, declare, Table.get?_assign, if_neg h.1]

private theorem get?_labels_foldl
    (hdistinct : (declaredLabels (placements.map Placement.line)).Nodup) {p : Placement}
    (hp : p ∈ placements) (hdeclares : p.line.declares = true) :
    (placements.foldl enter b).labels.get? p.line.label = some ⟨p.address, p.line.index⟩ := by
  induction placements generalizing b with
  | nil => cases hp
  | cons q rest ih =>
      rw [List.map_cons] at hdistinct
      rw [List.foldl_cons]
      have hrest : (declaredLabels (rest.map Placement.line)).Nodup := by
        cases hq : q.line.declares with
        | false => rwa [declaredLabels_cons_of_not_declares hq] at hdistinct
        | true =>
            rw [declaredLabels_cons_of_declares hq] at hdistinct
            exact hdistinct.of_cons
      rcases List.mem_cons.mp hp with rfl | hp
      · rw [declaredLabels_cons_of_declares hdeclares, List.nodup_cons] at hdistinct
        rw [get?_labels_foldl_of_not_mem hdistinct.1, enter_of_declares hdeclares, declare,
          Table.get?_assign, if_pos rfl]
      · exact ih hrest hp

end Bindings

theorem Line.Reads.declares_iff {l : Line} {s : Statement} (h : l.Reads (.statement s)) :
    l.declares = s.label.isSome := by
  have hshows := h.shows s.body.mnemonic rfl
  have hlabel : l.hasLabel = s.label.isSome := hshows.hasLabel
  cases hs : s.label with
  | none => simp [Line.declares, hlabel, hs]
  | some label =>
      have hvalid : isLabel label = true := (isPlainLabel_iff.mp (h.valid.1 label hs)).2
      simp [Line.declares, hlabel, hs, hshows.label label hs, hvalid]

theorem declaredLabels_eq {placements : List Placement} {placed : List (Nat × Statement)}
    (h : List.Forall₂ Placement.Reads placements placed) :
    declaredLabels (placements.map Placement.line) = placed.filterMap fun e => e.2.label := by
  induction h with
  | nil => rfl
  | cons hfirst hrest ih =>
      rename_i p e placements placed
      have hdeclares := hfirst.line.declares_iff
      rw [List.map_cons]
      cases hlabel : e.2.label with
      | none =>
          rw [hlabel] at hdeclares
          rw [declaredLabels_cons_of_not_declares hdeclares, ih, List.filterMap_cons, hlabel]
      | some label =>
          rw [hlabel] at hdeclares
          rw [declaredLabels_cons_of_declares hdeclares, ih, List.filterMap_cons, hlabel,
            (hfirst.line.shows _ rfl).label label hlabel]

theorem labels_layout_sublist (counter : Nat) (items : List Item) :
    ((layout counter items).filterMap fun e => e.2.label).Sublist
      (items.filterMap Item.label?) := by
  induction items generalizing counter with
  | nil => exact .slnil
  | cons item rest ih =>
      cases item with
      | blank => exact ih counter
      | origin digits => exact ih _
      | stop => exact List.nil_sublist _
      | statement s =>
          rw [layout, List.filterMap_cons, List.filterMap_cons]
          cases hlabel : s.label with
          | none => simpa [Item.label?, hlabel] using ih (counter + 1)
          | some label => simpa [Item.label?, hlabel] using (ih (counter + 1)).cons_cons label

section

variable {lines : List Line} {placed : List (Nat × Statement)}
  (hcontested : ∀ l ∈ lines, l.isContested = false)
  (hplaced : List.Forall₂ Placement.Reads (statements lines) placed)
  (hdistinct : (placed.filterMap fun e => e.2.label).Nodup)

include hcontested hplaced

private theorem get?_symbols_of_unlabelled {word : Text} (h : ∀ e ∈ placed, e.2.label ≠ some word) :
    (resolve lines).symbols.get? word = none := by
  have hundeclared : word ∉ declaredLabels ((statements lines).map Placement.line) := by
    rw [declaredLabels_eq hplaced, List.mem_filterMap]
    rintro ⟨e, he, hlabel⟩
    exact h e he hlabel
  rw [resolve_eq, Bindings.get?_symbols_tables, bindings_eq_foldl hcontested,
    Bindings.get?_labels_foldl_of_not_mem hundeclared]
  rfl

include hdistinct

private theorem get?_symbols_of_label {e : Nat × Statement} (he : e ∈ placed) {label : Text}
    (hlabel : e.2.label = some label) : (resolve lines).symbols.get? label = some e.1 := by
  obtain ⟨p, hp, hreads⟩ := exists_related_of_mem_right hplaced he
  have hdeclares : p.line.declares = true := by rw [hreads.line.declares_iff, hlabel]; rfl
  have hword : p.line.label = label := (hreads.line.shows _ rfl).label label hlabel
  rw [← declaredLabels_eq hplaced] at hdistinct
  have hfound := Bindings.get?_labels_foldl (b := {}) hdistinct hp hdeclares
  rw [hword] at hfound
  rw [resolve_eq, Bindings.get?_symbols_tables, bindings_eq_foldl hcontested, hfound,
    Option.map_some, hreads.address]

/-- A memory reference is resolved to what its operand stands for. -/
private theorem target?_of_denotes {l : Line} {target : Nat}
    (h : Denotes placed l.operandWord target) :
    l.target? (resolve lines).symbols = some target := by
  cases h with
  | label isPlaced isLabel =>
      rw [Line.target?, get?_symbols_of_label hcontested hplaced hdistinct isPlaced isLabel,
        Option.some_or]
  | address unlabelled isAddress =>
      rw [Line.target?, get?_symbols_of_unlabelled hcontested hplaced unlabelled, isAddress,
        Option.none_or]

end

/-- What the passes need to know of the cell of a statement. -/
structure Cell.Holds (c : Cell) (placed : List (Nat × Statement)) (s : Statement) : Prop where
  mnemonic : c.mnemonic = s.body.mnemonic.spelling
  words : ∃ front back, Text.words c.text = front ++ s.body.mnemonic.spelling :: back ∧
    (∀ word ∈ front, IsInert word) ∧ (∀ word ∈ back, IsInert word) ∧
    (s.body.mnemonic.family = .registerReference ∨ s.body.mnemonic.family = .inputOutput →
      back = [])
  literal : ∀ value, s.body.value? = some value → c.literal = .ok (some value)
  reference : ∀ m operand indirect, s.body = .reference m operand indirect →
    c.kind = .reference ∧ c.indirect = indirect ∧
      ∀ target : Nat, Denotes placed operand target → c.target = some (target : Int)
  verbatim : (∀ m operand indirect, s.body ≠ .reference m operand indirect) → c.kind = .verbatim

theorem isWord_decimal_text (n : Nat) : Text.IsWord (Radix.decimal.text n) :=
  ⟨Radix.decimal.text_natCast_ne_nil n,
    fun c hc => Radix.not_isBlank_of_isDigit (isDigit_decimal_text n c hc)⟩

theorem isInert_referenceOperands (target : Nat) (indirect : Bool) :
    ∀ word ∈ Radix.decimal.text target :: (if indirect then [indirectMark] else []),
      IsInert word := by
  intro word hword
  rcases List.mem_cons.mp hword with rfl | hword
  · have hdigits := isDigit_decimal_text target
    exact isInert_of_digits fun c hc => .inr (.inr (Radix.isDigit_hexadecimal (hdigits c hc)))
  · cases indirect with
    | false => cases hword
    | true =>
        rw [List.mem_singleton.mp hword]
        exact isInert_of_length (by decide)

theorem words_referenceText (m : Mnemonic) {word : Text} (h : Text.IsWord word) (indirect : Bool) :
    Text.words (Cell.referenceText m.spelling word indirect) =
      m.spelling :: word :: (if indirect then [indirectMark] else []) := by
  have hmark : Text.IsWord indirectMark := by decide
  have hwords : ∀ piece ∈ m.spelling :: word :: (if indirect then [indirectMark] else []),
      Text.IsWord piece := by
    cases indirect <;> simp [(isToken_spelling m).1, h, hmark]
  have htext : Cell.referenceText m.spelling word indirect = List.intercalate [.char ' ']
      (m.spelling :: word :: (if indirect then [indirectMark] else [])) := by
    cases indirect <;> simp [Cell.referenceText, List.intercalate]
  rw [htext, (Text.spaced_intercalate hwords).words_eq]

namespace Line.Reads

variable {l : Line} {s : Statement} (h : l.Reads (.statement s))

include h

private theorem isInert_labelWords : ∀ word ∈ labelWords s.label, IsInert word := by
  cases hlabel : s.label with
  | none =>
      intro word hword
      cases hword
  | some label =>
      intro word hword
      rw [List.mem_singleton.mp hword]
      exact isInert_labelWord (h.valid.1 label hlabel)

private theorem holds_of_verbatim
    (hbody : ∀ m operand indirect, s.body ≠ .reference m operand indirect)
    (hfamily : s.body.mnemonic.family ≠ .memoryReference)
    (hinert : ∀ word ∈ s.body.operands, IsInert word)
    (hlast : s.body.mnemonic.family = .registerReference ∨
      s.body.mnemonic.family = .inputOutput → s.body.operands = [])
    (hliteral : ∀ value, s.body.value? = some value →
      literal l.mnemonic l.operand = .ok (some value))
    (symbols : Table Text Nat) (placed : List (Nat × Statement)) :
    (l.cell symbols).Holds placed s := by
  have hshows := h.shows s.body.mnemonic rfl
  have hreference : l.isReference = false := by simpa [hshows.isReference] using hfamily
  constructor
  · rw [l.cell_mnemonic, hshows.mnemonic]
  · rw [cell_text_verbatim hreference]
    exact ⟨_, _, hshows.textWords, h.isInert_labelWords, hinert, hlast⟩
  · intro value hvalue
    rw [Cell.literal, l.cell_mnemonic, cell_operand_verbatim hreference, hliteral value hvalue]
  · intro m operand indirect hbody'
    exact absurd hbody' (hbody m operand indirect)
  · intro _
    simp [Line.cell, hreference]

private theorem cell_of_reference {m : Mnemonic} {operand : Text} {indirect : Bool} {target : Nat}
    {symbols : Table Text Nat} (hbody : s.body = .reference m operand indirect)
    (htarget : l.target? symbols = some target) :
    l.cell symbols =
      { text := Cell.referenceText m.spelling (Radix.decimal.text target) indirect
        kind := .reference
        mnemonic := m.spelling
        target := some (target : Int)
        indirect := indirect
        line := some (l.index + 1) } := by
  have hshows := h.shows m (by rw [Item.mnemonic?, hbody]; rfl)
  have hfamily : m.family = .memoryReference := by
    have hvalid := h.valid.2
    rw [hbody] at hvalid
    exact hvalid
  have hreference : l.isReference = true := by rw [hshows.isReference, hfamily]; rfl
  have hindirect : l.isIndirect = indirect := by
    rw [isIndirect, hshows.words, Item.operands, hbody]
    cases indirect <;> simp [Body.operands]
  simp [Line.cell, hreference, htarget, hindirect, hshows.mnemonic]

private theorem holds_of_reference {m : Mnemonic} {operand : Text} {indirect : Bool} {target : Nat}
    {symbols : Table Text Nat} {placed : List (Nat × Statement)}
    (hbody : s.body = .reference m operand indirect) (hdenotes : Denotes placed operand target)
    (hsymbols : ∀ target, Denotes placed operand target → l.target? symbols = some target) :
    (l.cell symbols).Holds placed s := by
  have hm : s.body.mnemonic = m := by rw [hbody]; rfl
  rw [h.cell_of_reference hbody (hsymbols target hdenotes)]
  constructor
  · rw [hm]
  · have hwords := words_referenceText m (isWord_decimal_text target) indirect
    refine ⟨[], _, by rw [hm]; exact hwords, ?_, isInert_referenceOperands target indirect, ?_⟩
    · intro word hword
      cases hword
    · have hvalid := h.valid.2
      rw [hbody] at hvalid
      rw [hm, show m.family = .memoryReference from hvalid]
      rintro (hother | hother) <;> cases hother
  · intro value hvalue
    rw [hbody] at hvalue
    cases hvalue
  · intro m' operand' indirect' hbody'
    rw [hbody'] at hbody
    cases hbody
    refine ⟨rfl, rfl, ?_⟩
    intro target' hdenotes'
    have htarget := hsymbols target hdenotes
    rw [hsymbols target' hdenotes'] at htarget
    cases htarget
    rfl
  · intro hother
    exact absurd hbody (hother m operand indirect)

/-- The cell of a line holds the statement that the line says. -/
private theorem holds_cell {symbols : Table Text Nat} {placed : List (Nat × Statement)}
    (htarget : ∀ m operand indirect, s.body = .reference m operand indirect →
      ∃ target, Denotes placed operand target)
    (hsymbols : ∀ target, Denotes placed l.operandWord target → l.target? symbols = some target) :
    (l.cell symbols).Holds placed s := by
  have hvalid := h.valid.2
  have hshows := h.shows s.body.mnemonic rfl
  cases hbody : s.body with
  | plain m =>
      rw [hbody] at hvalid
      apply h.holds_of_verbatim
      · simp [hbody]
      · rw [hbody]
        rcases hvalid with hvalid | hvalid <;> simp [Body.mnemonic, hvalid]
      · simp [hbody, Body.operands]
      · simp [hbody, Body.operands]
      · simp [hbody, Body.value?]
  | literal r n =>
      rw [hbody] at hvalid
      have hoperand : l.operand = n.text := by
        apply hshows.operand
        rw [Item.operands, hbody]
        rfl
      have hmnemonic : Mnemonic.ofWord? l.mnemonic = some r.mnemonic := by
        rw [hshows.mnemonic, Mnemonic.ofWord?_spelling, hbody]
        rfl
      have hpseudo : r.mnemonic.family = .pseudo := by cases r <;> rfl
      apply h.holds_of_verbatim
      · simp [hbody]
      · simp [hbody, Body.mnemonic, hpseudo]
      · intro word hword
        rw [hbody] at hword
        rw [List.mem_singleton.mp hword]
        apply isInert_of_digits
        intro c hc
        rcases Numeral.mem_text hc hvalid with hc | hc | hc
        · exact .inl hc
        · exact .inr (.inl hc)
        · exact .inr (.inr (Radix.isDigit_hexadecimal hc))
      · simp [hbody, Body.mnemonic, hpseudo]
      · intro value hvalue
        rw [hbody] at hvalue
        cases hvalue
        cases r with
        | decimal =>
            rw [literal, hmnemonic, hoperand]
            exact Numeral.decimalWord_text hvalid
        | hexadecimal =>
            rw [literal, hmnemonic, hoperand]
            exact congrArg Except.ok (Numeral.hexWord?_text hvalid)
  | reference m operand indirect =>
      obtain ⟨target, hdenotes⟩ := htarget m operand indirect hbody
      have hword : l.operandWord = operand := by
        apply hshows.operandWord
        rw [Item.operands, hbody]
        rfl
      rw [hword] at hsymbols
      exact h.holds_of_reference hbody hdenotes hsymbols

end Line.Reads

/-- The image holds the statements that are laid out, and nothing else. -/
structure Image.Holds (image : Image) (placed : List (Nat × Statement)) : Prop where
  cell : ∀ e ∈ placed, (image.cell e.1).Holds placed e.2
  written : ∀ w ∈ image.cells, ∃ e ∈ placed, w.1 = e.1 ∧ w.2.Holds placed e.2

theorem not_isContested_of_reads {lines : List Line} {items : List Item}
    (hreads : List.Forall₂ Line.Reads lines items) : ∀ l ∈ lines, l.isContested = false := by
  intro l hl
  obtain ⟨item, -, h⟩ := exists_related_of_mem hreads hl
  exact h.isContested

theorem Clean.distinct_labels_layout {items : List Item} (h : Clean items) :
    ((layout 0 items).filterMap fun e => e.2.label).Nodup :=
  h.distinctLabels.sublist (labels_layout_sublist 0 items)

theorem Clean.holds_image {lines : List Line} {items : List Item} (h : Clean items)
    (hreads : List.Forall₂ Line.Reads lines items) :
    (load lines (resolve lines)).image.Holds (layout 0 items) := by
  have hcontested := not_isContested_of_reads hreads
  have hplaced : List.Forall₂ Placement.Reads (statements lines) (layout 0 items) :=
    place_reads hreads 0
  have hcell {p : Placement} {e : Nat × Statement} (he : e ∈ layout 0 items) (hp : p.Reads e) :
      (p.line.cell (resolve lines).symbols).Holds (layout 0 items) e.2 := by
    apply hp.line.holds_cell
    · intro m operand indirect hbody
      obtain ⟨target, hdenotes, -⟩ := h.targets e he m operand indirect hbody
      exact ⟨target, hdenotes⟩
    · intro target hdenotes
      exact target?_of_denotes hcontested hplaced h.distinct_labels_layout hdenotes
  rw [load_image]
  constructor
  · intro e he
    obtain ⟨p, hp, hreads⟩ := exists_related_of_mem_right hplaced he
    have haddresses : (statements lines).map Placement.address = (layout 0 items).map Prod.fst := by
      rw [← List.forall₂_eq_eq_eq, List.forall₂_map_left_iff, List.forall₂_map_right_iff]
      exact hplaced.imp fun _ _ hreads => hreads.address
    have hdistinct : (((statements lines).map
        fun p => (p.address, p.line.cell (resolve lines).symbols)).map Prod.fst).Nodup := by
      rw [List.map_map]
      exact haddresses ▸ h.separate
    have hbound : p.address < memorySize := hreads.address ▸ h.bounded e he
    rw [← hreads.address, Image.cell_ofWrites hdistinct (List.mem_map_of_mem hp) hbound]
    dsimp only
    exact hcell he hreads
  · intro w hw
    obtain ⟨p, hp, rfl⟩ := List.mem_map.mp (Image.mem_of_mem_ofWrites hw)
    obtain ⟨e, he, hreads⟩ := exists_related_of_mem hplaced hp
    refine ⟨e, he, hreads.address, ?_⟩
    dsimp only
    exact hcell he hreads

end TeachAsm
