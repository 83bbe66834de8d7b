import TeachAsm.Proofs.Contents
import TeachAsm.Proofs.MemoryScan

/-!
# The text of references

A memory reference stands in memory as a text: its mnemonic, a number or the symbol that is not
resolved with its line, and the mark for indirect addressing. These are the words of the text, so
each of them can be read back, and in a resolved reference no scan finds what it looks for.
-/

namespace TeachAsm

private theorem Text.not_mem_afterLast {α : Type} [BEq α] [LawfulBEq α] (separator : α)
    (s : List α) : separator ∉ afterLast separator s := by
  intro h
  rw [afterLast, List.mem_reverse] at h
  simpa using List.mem_takeWhile_imp h

namespace Cell

/-- The words of the text are the mnemonic, one more word, and `I` if the cell is indirect; the
operand is what stands behind the mnemonic. -/
structure Encodes (c : Cell) (word : Text) : Prop where
  words : c.words = c.mnemonic :: word :: (if c.indirect then [indirectMark] else [])
  text : c.text = c.mnemonic ++ .char ' ' :: c.operand

/-- The scan of memory finds nothing in the cell, neither the words that end it nor a statement to
check, and goes on with the next address. -/
structure Unnoticed (c : Cell) : Prop where
  noOrigin : Text.occursIn (Mnemonic.spelling .ORG) c.text = false
  noEnd : Mnemonic.spelling .END ∉ c.words
  noRegister : Family.registerReference.occursInText c.text = false
  noTransfer : Family.inputOutput.occursInText c.text = false
  goesOn : ∀ address later, c.findingsThen address later = later (address + 1)

def operandText (word : Text) (indirect : Bool) : Text :=
  word ++ (if indirect then .char ' ' :: indirectMark else [])

private theorem referenceText_eq (mnemonic word : Text) (indirect : Bool) :
    referenceText mnemonic word indirect = mnemonic ++ .char ' ' :: operandText word indirect := by
  simp [referenceText, operandText]

private theorem solid_operandText {word : Text} (h : Text.IsWord word) (indirect : Bool) :
    Text.Solid (operandText word indirect) := by
  cases indirect with
  | false => simpa [operandText] using h.solid
  | true =>
      have hmark : Text.IsWord indirectMark := by decide
      exact h.solid.of_append hmark.solid [.char ' ']

section

variable {c : Cell} {m : Mnemonic} {word : Text} (hm : c.mnemonic = m.spelling)
  (htext : c.text = referenceText c.mnemonic word c.indirect) (hword : Text.IsWord word)

include hm htext hword

private theorem operand_of_text (hseparator : labelSeparator ∉ word) :
    c.operand = operandText word c.indirect := by
  have hsolid := solid_operandText hword c.indirect
  have hfree : labelSeparator ∉ c.text := by
    have hspelling := not_mem_of_not_isPunctuation (isToken_spelling m).2
      (by decide : isPunctuation labelSeparator = true)
    have hmark : labelSeparator ∉ (.char ' ' :: indirectMark : Text) := by decide
    rw [htext, hm, referenceText]
    cases c.indirect <;> simp_all [labelSeparator]
  have hstrip : Text.strip c.text = c.text := by
    have hwhole := (isToken_spelling m).1.solid.of_append hsolid [.char ' ']
    have hblanks := hwhole.strip_eq Text.blanks_nil Text.blanks_nil
    rw [List.nil_append, List.append_nil] at hblanks
    rw [htext, referenceText_eq, hm]
    exact hblanks
  have hgap : Text.Blanks [.char ' '] := by decide
  have hrest := hsolid.strip_eq hgap Text.blanks_nil
  rw [List.append_nil] at hrest
  rw [operand, Text.afterLast_of_not_mem hfree, hstrip, htext, referenceText_eq, List.drop_left]
  exact hrest

private theorem encodes_of_text (hseparator : labelSeparator ∉ word) : c.Encodes word := by
  constructor
  · rw [words, htext, hm]
    exact words_referenceText m hword c.indirect
  · rw [operand_of_text hm htext hword hseparator, htext, referenceText_eq]

end

private theorem read_operandText {target : Nat} (indirect : Bool)
    (hshort : (Radix.decimal.text target).length ≤ digitLimit) :
    Radix.decimal.read (operandText (Radix.decimal.text target) indirect) = .ok (some target) := by
  have hnumeral : Radix.decimal.IsNumeral (Radix.decimal.text target) :=
    ⟨Radix.decimal.text_natCast_ne_nil target, isDigit_decimal_text target⟩
  have htail : ∀ c ∈ (if indirect then .char ' ' :: indirectMark else [] : Text).head?,
      Text.isBlank c = true := by
    cases indirect <;> decide
  have hleads := Numeral.leads_of_word hnumeral htail
  rw [operandText, Radix.read_decimal_of_leads hleads hshort, Numeral.value_absent,
    Radix.value_text]

/-- The text of a resolved reference shows the scans nothing. -/
private theorem unnoticed_of_text {c : Cell} {m : Mnemonic} {target : Nat}
    (hfamily : m.family = .memoryReference) (hkind : c.kind = .reference)
    (hwords : c.words = m.spelling :: Radix.decimal.text target ::
      (if c.indirect then [indirectMark] else [])) : c.Unnoticed := by
  have hsplit : Text.words c.text = [] ++ m.spelling :: Radix.decimal.text target ::
      (if c.indirect then [indirectMark] else []) := hwords
  have hfront : ∀ word ∈ ([] : List Text), IsInert word := List.forall_mem_nil _
  have hback := isInert_referenceOperands target c.indirect
  have hnone {f : Family} (hf : f = .registerReference ∨ f = .inputOutput) :
      f.occursInText c.text = false := by
    rw [Bool.eq_false_iff]
    intro hoccurs
    obtain ⟨sought, hmem, hoccurs⟩ := List.any_eq_true.mp hoccurs
    have hsame : sought.family = f := by simpa using (List.mem_filter.mp hmem).2
    have hsought : sought.isSought = true := by
      rcases hf with rfl | rfl <;> simp [Mnemonic.isSought, hsame]
    rw [eq_of_occursIn hsplit hfront hback hsought hoccurs, hfamily] at hsame
    rcases hf with rfl | rfl <;> cases hsame
  have horigin : c.mentionsOrigin = false := by
    apply mentionsOrigin_of_words hsplit hfront hback
    rintro rfl
    cases hfamily
  have hend : c.endsScan = false := by
    apply endsScan_of_words hsplit hfront hback
    rintro rfl
    cases hfamily
  refine ⟨horigin, by simpa [endsScan] using hend, hnone (.inl rfl), hnone (.inr rfl), ?_⟩
  intro address later
  have hform : c.formProblem? = none := by
    simp [formProblem?, hkind, hnone (.inl rfl), hnone (.inr rfl)]
  rw [findingsThen, hend, horigin, hform]
  rfl

private theorem unresolvedWord_inj {symbol symbol' : Text} {line line' : Nat}
    (h : unresolvedWord symbol line = unresolvedWord symbol' line') :
    symbol = symbol' ∧ line = line' := by
  have hbar (n : Nat) : CodePoint.char '|' ∉ Radix.decimal.text n :=
    not_mem_decimal_text (by decide) n
  have hsplit (symbol : Text) (line : Nat) : unresolvedWord symbol line =
      Text.ofString "UNK-" ++ symbol ++ .char '|' :: Radix.decimal.text line := by
    have hmark : Text.ofString "|" = [.char '|'] := by decide
    simp [unresolvedWord, hmark]
  rw [hsplit, hsplit] at h
  -- the digits hold no bar, so the last bar is the one in front of them
  have hdigits := congrArg (Text.afterLast (.char '|')) h
  rw [Text.afterLast_append (hbar line), Text.afterLast_append (hbar line')] at hdigits
  have hline := congrArg Radix.decimal.value hdigits
  rw [Radix.value_text, Radix.value_text] at hline
  rw [hdigits, List.append_cancel_right_eq, List.append_cancel_left_eq] at h
  exact ⟨h, hline⟩

/-- A text gives back the word and the fields that it is made of. -/
private theorem Encodes.eq_of_text {c c' : Cell} {word word' : Text} (h : c.Encodes word)
    (h' : c'.Encodes word') (htext : c.text = c'.text) :
    c.mnemonic = c'.mnemonic ∧ word = word' ∧ c.indirect = c'.indirect := by
  have hwords : c.words = c'.words := congrArg Text.words htext
  rw [h.words, h'.words, List.cons.injEq, List.cons.injEq] at hwords
  obtain ⟨hmnemonic, hword, hmark⟩ := hwords
  refine ⟨hmnemonic, hword, ?_⟩
  cases hindirect : c.indirect with
  | false => cases hindirect' : c'.indirect <;> simp_all
  | true => cases hindirect' : c'.indirect <;> simp_all

/-- The text of a cell tells the address that it refers to. -/
structure Resolved (c : Cell) (target : Nat) : Prop where
  refersTo : c.target = some (target : Int)
  encodes : c.Encodes (Radix.decimal.text target)
  reads : (Radix.decimal.text target).length ≤ digitLimit →
    Radix.decimal.read c.operand = .ok (some (target : Int))
  unnoticed : c.Unnoticed

/-- The text of a cell tells the symbol that is not resolved, and its line. -/
structure Unresolved (c : Cell) (symbol : Text) (line : Nat) : Prop where
  names : c.symbol = some symbol
  standsOn : c.line = some (line : Int)
  encodes : c.Encodes (unresolvedWord symbol line)

private theorem Resolved.eq_of_text {c c' : Cell} {target target' : Nat} (h : c.Resolved target)
    (h' : c'.Resolved target') (htext : c.text = c'.text) :
    c.mnemonic = c'.mnemonic ∧ c.target = c'.target ∧ c.indirect = c'.indirect := by
  obtain ⟨hmnemonic, hword, hindirect⟩ := h.encodes.eq_of_text h'.encodes htext
  have htarget := congrArg Radix.decimal.value hword
  rw [Radix.value_text, Radix.value_text] at htarget
  refine ⟨hmnemonic, ?_, hindirect⟩
  rw [h.refersTo, h'.refersTo, htarget]

private theorem Unresolved.eq_of_text {c c' : Cell} {symbol symbol' : Text} {line line' : Nat}
    (h : c.Unresolved symbol line) (h' : c'.Unresolved symbol' line') (htext : c.text = c'.text) :
    c.mnemonic = c'.mnemonic ∧ c.symbol = c'.symbol ∧ c.line = c'.line ∧
      c.indirect = c'.indirect := by
  obtain ⟨hmnemonic, hword, hindirect⟩ := h.encodes.eq_of_text h'.encodes htext
  obtain ⟨hsymbol, hline⟩ := unresolvedWord_inj hword
  refine ⟨hmnemonic, ?_, ?_, hindirect⟩
  · rw [h.names, h'.names, hsymbol]
  · rw [h.standsOn, h'.standsOn, hline]

end Cell

namespace Line

private theorem not_mem_operandWord (l : Line) : labelSeparator ∉ l.operandWord := by
  intro h
  have hstatement : labelSeparator ∈ l.statement := l.operandWord_isInfix.subset h
  exact Text.not_mem_afterLast _ _ ((Text.strip_isInfix _).subset hstatement)

section

variable {l : Line} (hl : l.isReference = true)

include hl

private theorem exists_spelling_cell (symbols : Table Text Nat) :
    ∃ m : Mnemonic, m.family = .memoryReference ∧ (l.cell symbols).mnemonic = m.spelling := by
  obtain ⟨m, hfamily, hm⟩ := Family.exists_mnemonic hl
  exact ⟨m, hfamily, by rw [cell_mnemonic, ← Mnemonic.spelling_of_ofWord? hm]⟩

variable {symbols : Table Text Nat}

private theorem resolved_cell {target : Nat} (htarget : l.target? symbols = some target) :
    (l.cell symbols).Resolved target := by
  obtain ⟨m, hfamily, hmnemonic⟩ := exists_spelling_cell hl symbols
  have hindirect : (l.cell symbols).indirect = l.isIndirect := by simp [cell, hl, htarget]
  have htext : (l.cell symbols).text = Cell.referenceText (l.cell symbols).mnemonic
      (Radix.decimal.text target) (l.cell symbols).indirect := by
    rw [cell_text_reference hl htarget, cell_mnemonic, hindirect]
  have hword := isWord_decimal_text target
  have hseparator : labelSeparator ∉ Radix.decimal.text target :=
    not_mem_decimal_text (by decide) target
  have hencodes := Cell.encodes_of_text hmnemonic htext hword hseparator
  refine ⟨by simp [cell, hl, htarget], hencodes, ?_, ?_⟩
  · intro hshort
    rw [Cell.operand_of_text hmnemonic htext hword hseparator]
    exact Cell.read_operandText _ hshort
  · have hwords := hencodes.words
    rw [hmnemonic] at hwords
    exact Cell.unnoticed_of_text hfamily (by simp [cell, hl, htarget]) hwords

private theorem unresolved_cell (htarget : l.target? symbols = none) :
    (l.cell symbols).Unresolved l.operandWord (l.index + 1) := by
  obtain ⟨m, hfamily, hmnemonic⟩ := exists_spelling_cell hl symbols
  have hindirect : (l.cell symbols).indirect = l.isIndirect := by simp [cell, hl, htarget]
  have htext : (l.cell symbols).text = Cell.referenceText (l.cell symbols).mnemonic
      (Cell.unresolvedWord l.operandWord (l.index + 1)) (l.cell symbols).indirect := by
    rw [cell_text_unresolved hl htarget, cell_mnemonic, hindirect]
  have hseparator : labelSeparator ∉ Cell.unresolvedWord l.operandWord (l.index + 1) := by
    have hfixed : labelSeparator ∉ Text.ofString "UNK-" ++ Text.ofString "|" := by decide
    intro hmem
    simp only [Cell.unresolvedWord, List.mem_append] at hmem hfixed
    rw [not_or] at hfixed
    rcases hmem with ((hmem | hmem) | hmem) | hmem
    · exact hfixed.1 hmem
    · exact l.not_mem_operandWord hmem
    · exact hfixed.2 hmem
    · exact not_mem_decimal_text (by decide) _ hmem
  have hline : (l.cell symbols).line = some ((l.index + 1 : Nat) : Int) := by
    rw [l.line_cell symbols, Int.natCast_succ]
  refine ⟨by simp [cell, hl, htarget], hline, ?_⟩
  exact Cell.encodes_of_text hmnemonic htext (l.isWord_unresolvedWord _) hseparator

end

private theorem exists_resolved_of_kind {l : Line} {symbols : Table Text Nat}
    (h : (l.cell symbols).kind = .reference) : ∃ target, (l.cell symbols).Resolved target := by
  cases hl : l.isReference with
  | false => simp [cell, hl] at h
  | true =>
      cases htarget : l.target? symbols with
      | none => simp [cell, hl, htarget] at h
      | some target => exact ⟨target, resolved_cell hl htarget⟩

private theorem exists_unresolved_of_kind {l : Line} {symbols : Table Text Nat}
    (h : (l.cell symbols).kind = .unresolved) :
    ∃ symbol line, (l.cell symbols).Unresolved symbol line := by
  cases hl : l.isReference with
  | false => simp [cell, hl] at h
  | true =>
      cases htarget : l.target? symbols with
      | none => exact ⟨_, _, unresolved_cell hl htarget⟩
      | some target => simp [cell, hl, htarget] at h

end Line

/-- The cells that the statements of a text are laid out as, also those that a later statement
replaces and those past the end of memory. -/
def loadedCells (text : Text) : List Cell :=
  (statements (sourceLines text)).map fun w => w.line.cell (resolve (sourceLines text)).symbols

private theorem mem_loadedCells_of_kind {text : Text} {address : Nat}
    (h : ((load (sourceLines text) (resolve (sourceLines text))).image.cell address).kind ≠
      .empty) :
    (load (sourceLines text) (resolve (sourceLines text))).image.cell address ∈
      loadedCells text := by
  have hempty : ({} : Cell).kind ≠ .empty → ({} : Cell) ∈ loadedCells text :=
    fun hkind => absurd rfl hkind
  have hcell : ∀ l, LaidOut (sourceLines text) address l →
      (l.cell (resolve (sourceLines text)).symbols).kind ≠ .empty →
        l.cell (resolve (sourceLines text)).symbols ∈ loadedCells text := by
    intro l hlaid _
    rw [laidOut_iff] at hlaid
    exact List.mem_map.mpr ⟨_, hlaid, rfl⟩
  exact forall_cell_load _ (p := fun c => c.kind ≠ .empty → c ∈ loadedCells text) hempty hcell h

/-- Whatever the text and its operands, the cells of memory references are texts from which their
fields can be read back, and a scan passes over those that are resolved. -/
theorem reference_text_faithful (text : Text) :
    let image := (load (sourceLines text) (resolve (sourceLines text))).image
    (∀ address, (image.cell address).kind ≠ .empty → image.cell address ∈ loadedCells text) ∧
    (∀ c ∈ loadedCells text, c.kind = .reference → ∃ target, c.Resolved target) ∧
    (∀ c ∈ loadedCells text, c.kind = .unresolved → ∃ symbol line, c.Unresolved symbol line) ∧
    (∀ text', ∀ c ∈ loadedCells text, ∀ c' ∈ loadedCells text', c.kind = c'.kind →
      c.text = c'.text →
        (c.kind = .reference → c.mnemonic = c'.mnemonic ∧ c.target = c'.target ∧
          c.indirect = c'.indirect) ∧
        (c.kind = .unresolved → c.mnemonic = c'.mnemonic ∧ c.symbol = c'.symbol ∧
          c.line = c'.line ∧ c.indirect = c'.indirect)) := by
  intro image
  have hresolved (text : Text) : ∀ c ∈ loadedCells text, c.kind = .reference →
      ∃ target, c.Resolved target := by
    intro c hc hkind
    obtain ⟨w, -, rfl⟩ := List.mem_map.mp hc
    exact Line.exists_resolved_of_kind hkind
  have hunresolved (text : Text) : ∀ c ∈ loadedCells text, c.kind = .unresolved →
      ∃ symbol line, c.Unresolved symbol line := by
    intro c hc hkind
    obtain ⟨w, -, rfl⟩ := List.mem_map.mp hc
    exact Line.exists_unresolved_of_kind hkind
  refine ⟨fun address => mem_loadedCells_of_kind, hresolved text, hunresolved text, ?_⟩
  intro text' c hc c' hc' hkind htext
  constructor
  · intro hreference
    obtain ⟨target, h⟩ := hresolved text c hc hreference
    obtain ⟨target', h'⟩ := hresolved text' c' hc' (hkind ▸ hreference)
    exact h.eq_of_text h' htext
  · intro hnone
    obtain ⟨symbol, line, h⟩ := hunresolved text c hc hnone
    obtain ⟨symbol', line', h'⟩ := hunresolved text' c' hc' (hkind ▸ hnone)
    exact h.eq_of_text h' htext

/-- A symbol may look like the end of such a word, and a label like any address. -/
theorem reference_text_faithful_bar :
    let text : Text := .ofString "ADD UNK-X|1\nA, LDA A I\nEND"
    (∃ c ∈ loadedCells text, c.kind = .reference ∧ ∃ target, c.Resolved target) ∧
    (∃ c ∈ loadedCells text, c.kind = .unresolved ∧ ∃ symbol line, c.Unresolved symbol line) := by
  intro text
  obtain ⟨-, hresolved, hunresolved, -⟩ := reference_text_faithful text
  let symbols := (resolve (sourceLines text)).symbols
  let first : Line := ⟨0, .ofString "ADD UNK-X|1"⟩
  let second : Line := ⟨1, .ofString "A, LDA A I"⟩
  have hfirst : first.cell symbols ∈ loadedCells text := by decide +kernel
  have hsecond : second.cell symbols ∈ loadedCells text := by decide +kernel
  have hreference : (second.cell symbols).kind = .reference := by decide +kernel
  have hnone : (first.cell symbols).kind = .unresolved := by decide +kernel
  exact ⟨⟨_, hsecond, hreference, hresolved _ hsecond hreference⟩,
    ⟨_, hfirst, hnone, hunresolved _ hfirst hnone⟩⟩

end TeachAsm
