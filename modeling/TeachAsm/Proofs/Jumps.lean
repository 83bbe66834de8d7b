import TeachAsm.Proofs.Loading

/-!
# Jumps of the memory scan

The scan of memory looks for `ORG` and for digits in the text of a cell. A text that goes on with
characters that do not spell `ORG` is read as before. So the number of the source line, with which
the text of an unresolved reference ends, has no part in what the scan does.
-/

namespace TeachAsm

namespace Text

variable {α : Type}

private theorem isPrefix_append_iff {piece s tail : List α} (h : ∀ c ∈ piece, c ∉ tail) :
    piece <+: s ++ tail ↔ piece <+: s := by
  constructor
  · intro hpiece
    rcases List.prefix_or_prefix_of_prefix hpiece (List.prefix_append s tail) with hshort | hlong
    · exact hshort
    · obtain ⟨rest, rfl⟩ := hlong
      have hrest : rest <+: tail := (List.prefix_append_right_inj s).mp hpiece
      cases rest with
      | nil => simp
      | cons c cs =>
          have hc : c ∈ tail := hrest.subset List.mem_cons_self
          exact absurd hc (h c (List.mem_append_right s List.mem_cons_self))
  · intro hpiece
    exact hpiece.trans (List.prefix_append s tail)

private theorem indexOf?_append [BEq α] [LawfulBEq α] {piece tail : List α} (hne : piece ≠ [])
    (h : ∀ c ∈ piece, c ∉ tail) (s : List α) :
    indexOf? piece (s ++ tail) = indexOf? piece s := by
  induction s with
  | nil =>
      have hnil : indexOf? piece [] = none := by simp [indexOf?, hne]
      rw [List.nil_append, hnil, ← Option.isNone_iff_eq_none, ← Option.not_isSome, isSome_indexOf?,
        Bool.not_eq_true', Bool.eq_false_iff, ne_eq, occursIn_iff_isInfix]
      intro hoccurs
      obtain ⟨c, hc⟩ := List.exists_mem_of_ne_nil piece hne
      exact h c hc (hoccurs.subset hc)
  | cons c cs ih =>
      have hhere : piece.isPrefixOf (c :: cs ++ tail) = piece.isPrefixOf (c :: cs) := by
        rw [Bool.eq_iff_iff, List.isPrefixOf_iff_prefix, List.isPrefixOf_iff_prefix,
          isPrefix_append_iff h]
      rw [List.cons_append] at hhere ⊢
      rw [indexOf?, indexOf?, hhere, ih]

end Text

private theorem read_of_letter {s : Text} (h : ∀ c ∈ s.head?, Text.isBlank c = false ∧
    Radix.decimal.isDigit c = false ∧ c ≠ .char '+' ∧ c ≠ .char '-') :
    Radix.decimal.read s = .ok none := by
  have hnone : (Radix.decimal.leadingDigits s).2 = [] := by
    cases s with
    | nil => rfl
    | cons c cs =>
        obtain ⟨hblank, hdigit, hplus, hminus⟩ := h c rfl
        have hleft : Text.stripLeft (c :: cs) = c :: cs := by simp [Text.stripLeft, hblank]
        have hsign : takeSign (c :: cs) = (false, c :: cs) := by
          unfold takeSign
          split
          · next heq => exact absurd (List.cons.inj heq).1 hminus
          · next heq => exact absurd (List.cons.inj heq).1 hplus
          · rfl
        simp [Radix.leadingDigits, hleft, hsign, hdigit]
  simp [Radix.read, Radix.leading?, hnone]

private theorem head?_jumpText {text : Text} {position : Nat}
    (h : Mnemonic.spelling .ORG <+: text.drop position) (hearly : position + 1 ≤ jumpColumn) :
    ∀ c ∈ (jumpText text position).head?, c = .char 'R' := by
  obtain ⟨rest, hrest⟩ := h
  have hdrop : text.drop (position + 1) = .char 'R' :: .char 'G' :: rest := by
    rw [← List.drop_drop, ← hrest]
    rfl
  unfold jumpText
  dsimp only
  rw [Nat.max_eq_right hearly, Nat.min_eq_left hearly, List.drop_take, hdrop]
  generalize jumpColumn - (position + 1) = width
  cases width with
  | zero =>
      intro c hc
      cases hc
  | succ width =>
      have hleft : Text.stripLeft (.char 'R' :: (CodePoint.char 'G' :: rest).take width) =
          .char 'R' :: (CodePoint.char 'G' :: rest).take width := by
        rw [Text.stripLeft, List.dropWhile_cons_of_neg (by decide)]
      intro c hc
      rw [List.take_succ_cons, Text.strip, hleft] at hc
      have hprefix := Text.trimEnd_isPrefix Text.isBlank
        (.char 'R' :: (CodePoint.char 'G' :: rest).take width)
      have hmem := List.head?_eq_some_iff.mp hc
      obtain ⟨tail, htail⟩ := hmem
      rw [htail, List.cons_prefix_cons] at hprefix
      exact hprefix.1

/-- A text whose first `ORG` starts inside the columns of a jump has none. -/
theorem originJump_of_early {text : Text} {position : Nat}
    (h : Text.indexOf? (Mnemonic.spelling .ORG) text = some position)
    (hearly : position + 1 ≤ jumpColumn) : originJump text = .ok none := by
  have hhead := head?_jumpText (Text.isPrefix_of_indexOf? h) hearly
  have hread : Radix.decimal.read (jumpText text position) = .ok none := by
    apply read_of_letter
    intro c hc
    rw [hhead c hc]
    decide
  simp only [originJump, h, hread]
  rfl

private theorem originJump_append {tail : Text} (h : ∀ c ∈ Mnemonic.spelling .ORG, c ∉ tail)
    (s : Text) : originJump (s ++ tail) = originJump s := by
  have hindex := Text.indexOf?_append (isToken_spelling .ORG).1.1 h s
  cases hposition : Text.indexOf? (Mnemonic.spelling .ORG) s with
  | none =>
      rw [hposition] at hindex
      simp only [originJump, hindex, hposition]
  | some position =>
      rw [hposition] at hindex
      by_cases hearly : position + 1 ≤ jumpColumn
      · rw [originJump_of_early hindex hearly, originJump_of_early hposition hearly]
      · have hinside : position + 1 ≤ s.length := by
          have hlength := (Text.isPrefix_of_indexOf? hposition).length_le
          rw [length_spelling, List.length_drop] at hlength
          omega
        have hjump : jumpText (s ++ tail) position = jumpText s position := by
          unfold jumpText
          dsimp only
          rw [Nat.max_eq_left (by omega), List.take_append_of_le_length hinside]
        simp only [originJump, hindex, hposition, hjump]

section

variable (mnemonic symbol : Text) (line : Nat) (indirect : Bool)

def Cell.unresolvedFront : Text := mnemonic ++ .char ' ' :: (Text.ofString "UNK-" ++ symbol)

def Cell.unresolvedBack : Text :=
  Text.ofString "|" ++ Radix.decimal.text line ++
    (if indirect then .char ' ' :: indirectMark else [])

private theorem Cell.referenceText_unresolved :
    referenceText mnemonic (unresolvedWord symbol line) indirect =
      unresolvedFront mnemonic symbol ++ unresolvedBack line indirect := by
  simp [referenceText, unresolvedWord, unresolvedFront, unresolvedBack]

private theorem Cell.not_mem_unresolvedBack :
    ∀ c ∈ Mnemonic.spelling .ORG, c ∉ unresolvedBack line indirect := by
  have hfixed : ∀ c ∈ Mnemonic.spelling .ORG, Radix.decimal.isDigit c = false ∧
      c ∉ Text.ofString "|" ∧ c ∉ (.char ' ' :: indirectMark : Text) := by
    decide
  intro c hc hmem
  obtain ⟨hdigit, hbar, hmark⟩ := hfixed c hc
  rcases List.mem_append.mp hmem with hmem | hmem
  · rcases List.mem_append.mp hmem with hmem | hmem
    · exact hbar hmem
    · exact not_mem_decimal_text hdigit line hmem
  · cases indirect with
    | false => cases hmem
    | true => exact hmark hmem

end

namespace Line

theorem isWord_unresolvedWord (l : Line) (line : Nat) :
    Text.IsWord (Cell.unresolvedWord l.operandWord line) := by
  have hfixed : ∀ c ∈ Text.ofString "UNK-" ++ Text.ofString "|", Text.isBlank c = false := by decide
  have hsymbol : ∀ c ∈ l.operandWord, Text.isBlank c = false := by
    rw [operandWord, List.getD_eq_getElem?_getD]
    cases hword : l.words[1]? with
    | none => simp
    | some word => exact (Text.words_clean _ word (List.mem_of_getElem? hword)).2
  constructor
  · intro hempty
    cases hempty
  · intro c hc
    simp only [Cell.unresolvedWord, List.mem_append] at hc
    rcases hc with ((hc | hc) | hc) | hc
    · exact hfixed c (List.mem_append_left _ hc)
    · exact hsymbol c hc
    · exact hfixed c (List.mem_append_right _ hc)
    · exact Radix.not_isBlank_of_isDigit (isDigit_decimal_text _ c hc)

section

variable {l : Line} (hl : l.isReference = true) {symbols : Table Text Nat}
  (htarget : l.target? symbols = none)

include hl htarget

theorem endsScan_unresolved : (l.cell symbols).endsScan = false := by
  obtain ⟨m, hfamily, hm⟩ := Family.exists_mnemonic hl
  have hwords : (l.cell symbols).words = m.spelling ::
      Cell.unresolvedWord l.operandWord (l.index + 1) ::
        (if l.isIndirect then [indirectMark] else []) := by
    rw [Cell.words, cell_text_unresolved hl htarget, ← Mnemonic.spelling_of_ofWord? hm]
    exact words_referenceText m (l.isWord_unresolvedWord _) l.isIndirect
  rw [Bool.eq_false_iff, ne_eq, Cell.endsScan, hwords, List.contains_iff_mem]
  intro hend
  rcases List.mem_cons.mp hend with hend | hend
  · have hsame : Mnemonic.END = m := eq_of_spelling_isInfix (hend ▸ List.infix_rfl)
    subst hsame
    cases hfamily
  · rcases List.mem_cons.mp hend with hend | hend
    · have hhead := congrArg List.head? hend
      simp [Cell.unresolvedWord, Mnemonic.spelling, Text.ofString, Text.ofChars] at hhead
    · split at hend
      · rw [List.mem_singleton] at hend
        revert hend
        decide
      · cases hend

theorem mentionsOrigin_unresolved : (l.cell symbols).mentionsOrigin =
    Text.occursIn (Mnemonic.spelling .ORG) (Cell.unresolvedFront l.mnemonic l.operandWord) := by
  rw [Cell.mentionsOrigin, cell_text_unresolved hl htarget, Cell.referenceText_unresolved,
    ← Text.isSome_indexOf?, ← Text.isSome_indexOf?,
    Text.indexOf?_append (isToken_spelling .ORG).1.1 (Cell.not_mem_unresolvedBack _ _)]

theorem originJump_unresolved : originJump (l.cell symbols).text =
    originJump (Cell.unresolvedFront l.mnemonic l.operandWord) := by
  rw [cell_text_unresolved hl htarget, Cell.referenceText_unresolved,
    originJump_append (Cell.not_mem_unresolvedBack _ _)]

end

end Line

end TeachAsm
