import TeachAsm.Proofs.BlankLines

/-!
# The parts of a line

A document is cut into lines, and a line is looked at in many ways: without its comment, stripped,
as a label candidate, as a statement with a column, as words, as a mnemonic and an operand. Each
view is taken from the line on its own. They fit together for any number of separators, any blanks
and any mix of comment marks.
-/

namespace TeachAsm

namespace Text

private theorem intercalate_lines (text : Text) :
    List.intercalate [.char '\n'] (lines text) = text := by
  induction text with
  | nil => rfl
  | cons c cs ih =>
      obtain ⟨first, rest, hlines⟩ := List.exists_cons_of_ne_nil (splitWhen_ne_nil _ cs)
      have hbreak : List.intercalate [.char '\n'] ([] :: first :: rest) =
          .char '\n' :: List.intercalate [.char '\n'] (first :: rest) := by
        simp [List.intercalate]
      have hinside : List.intercalate [.char '\n'] ((c :: first) :: rest) =
          c :: List.intercalate [.char '\n'] (first :: rest) := by
        cases rest <;> simp [List.intercalate]
      rw [lines, hlines] at ih
      rw [lines, splitWhen_cons, hlines]
      split
      · next hc => rw [hbreak, ih, beq_iff_eq.mp hc]
      · rw [hinside, ih]

private theorem getLast?_trimEnd {α : Type} {p : α → Bool} {s : List α} {c : α}
    (h : (trimEnd p s).getLast? = some c) : p c = false := by
  rw [trimEnd, List.getLast?_reverse] at h
  obtain ⟨rest, hrest⟩ := List.head?_eq_some_iff.mp h
  exact head_dropWhile hrest

private theorem strip_eq_nil_iff {s : Text} : strip s = [] ↔ Blanks s := by
  constructor
  · intro h c hc
    cases hblank : isBlank c with
    | true => rfl
    | false =>
        have hmem := mem_strip hblank hc
        rw [h] at hmem
        cases hmem
  · intro h
    rw [strip, stripLeft, List.dropWhile_eq_nil_iff.mpr h]
    rfl

private theorem blanks_or_exists_first (s : Text) : Blanks s ∨ ∃ indent c rest,
    s = indent ++ c :: rest ∧ Blanks indent ∧ isBlank c = false := by
  have hsplit := List.takeWhile_append_dropWhile (p := isBlank) (l := s)
  cases hrest : s.dropWhile isBlank with
  | nil => exact .inl (List.dropWhile_eq_nil_iff.mp hrest)
  | cons c rest =>
      exact .inr ⟨s.takeWhile isBlank, c, rest, by rw [← hrest, hsplit],
        fun _ => List.mem_takeWhile_imp, head_dropWhile hrest⟩

end Text

private theorem isBlankOrComment_of_first {indent : Text} (h : Text.Blanks indent) {c : CodePoint}
    (hc : Text.isBlank c = false) (rest : Text) :
    isBlankOrComment (indent ++ c :: rest) = commentMarks.contains c := by
  have hleft : Text.stripLeft (c :: rest) = c :: rest := List.dropWhile_cons_of_neg (by simp [hc])
  rw [isBlankOrComment, Text.stripLeft_append h, hleft]

private theorem isBlankOrComment_of_blanks {s : Text} (h : Text.Blanks s) :
    isBlankOrComment s = true := by
  have hleft : Text.stripLeft s = [] := List.dropWhile_eq_nil_iff.mpr h
  rw [isBlankOrComment, hleft]

private theorem isBlankOrComment_iff {s : Text} : isBlankOrComment s = true ↔
    Text.strip s = [] ∨ ∃ indent mark rest,
      s = indent ++ mark :: rest ∧ Text.Blanks indent ∧ mark ∈ commentMarks := by
  constructor
  · intro h
    rcases Text.blanks_or_exists_first s with hblank | ⟨indent, c, rest, rfl, hindent, hc⟩
    · exact .inl (Text.strip_eq_nil_iff.mpr hblank)
    · rw [isBlankOrComment_of_first hindent hc] at h
      exact .inr ⟨indent, c, rest, rfl, hindent, by simpa using h⟩
  · intro h
    rcases h with hblank | ⟨indent, mark, rest, rfl, hindent, hmark⟩
    · exact isBlankOrComment_of_blanks (Text.strip_eq_nil_iff.mp hblank)
    · rw [isBlankOrComment_of_first hindent (isBlank_of_mem_commentMarks hmark)]
      simpa using hmark

private theorem isBlankOrComment_eq_false_iff {s : Text} : isBlankOrComment s = false ↔
    ∃ indent c rest, s = indent ++ c :: rest ∧ Text.Blanks indent ∧ Text.isBlank c = false ∧
      c ∉ commentMarks := by
  constructor
  · intro h
    rcases Text.blanks_or_exists_first s with hblank | ⟨indent, c, rest, rfl, hindent, hc⟩
    · rw [isBlankOrComment_of_blanks hblank] at h
      cases h
    · rw [isBlankOrComment_of_first hindent hc] at h
      exact ⟨indent, c, rest, rfl, hindent, hc, by simpa using h⟩
  · intro h
    obtain ⟨indent, c, rest, rfl, hindent, hc, hmark⟩ := h
    rw [isBlankOrComment_of_first hindent hc]
    simpa using hmark

private theorem exists_comment (s : Text) :
    ∃ comment, s = stripComment s ++ comment ∧ ∀ c ∈ comment.head?, c ∈ commentMarks := by
  have hwhole : ∃ comment, s = s ++ comment ∧ ∀ c ∈ comment.head?, c ∈ commentMarks :=
    ⟨[], (List.append_nil s).symm, by simp⟩
  unfold stripComment
  split
  · exact hwhole
  · split
    · next mark hmark =>
        refine ⟨s.dropWhile (· != mark), List.takeWhile_append_dropWhile.symm, ?_⟩
        intro c hc
        obtain ⟨rest, hrest⟩ := List.head?_eq_some_iff.mp hc
        have heq : c = mark := by simpa using Text.head_dropWhile hrest
        exact heq ▸ List.mem_of_find?_eq_some hmark
    · exact hwhole

private theorem isBlankOrComment_stripComment (s : Text) :
    isBlankOrComment (stripComment s) = isBlankOrComment s := by
  cases hs : isBlankOrComment s with
  | true => rw [stripComment, if_pos hs, hs]
  | false =>
      obtain ⟨indent, c, rest, heq, hindent, hc, hmark⟩ := isBlankOrComment_eq_false_iff.mp hs
      have hfront {mark : CodePoint} (hmem : mark ∈ commentMarks) :
          ∀ d ∈ indent ++ [c], (d != mark) = true := by
        intro d hd
        rw [bne_iff_ne]
        rintro rfl
        rcases List.mem_append.mp hd with hd | hd
        · have hblank := hindent d hd
          rw [isBlank_of_mem_commentMarks hmem] at hblank
          cases hblank
        · exact hmark (List.mem_singleton.mp hd ▸ hmem)
      rw [stripComment, if_neg (by simp [hs])]
      split
      · next mark hfind =>
          have hcut : Text.beforeFirst mark s = indent ++ c :: Text.beforeFirst mark rest := by
            rw [heq, List.append_cons, Text.beforeFirst,
              List.takeWhile_append_of_pos (hfront (List.mem_of_find?_eq_some hfind)),
              ← List.append_cons, Text.beforeFirst]
          exact isBlankOrComment_eq_false_iff.mpr ⟨indent, c, _, hcut, hindent, hc, hmark⟩
      · exact hs

namespace Line

/-- The views of a line fit together. -/
structure Coherent (l : Line) : Prop where
  /-- The text is the start of the raw line, and what is cut off starts with a comment mark. -/
  cut : ∃ comment, l.raw = l.text ++ comment ∧ ∀ c ∈ comment.head?, c ∈ commentMarks
  blank : l.isBlank = true ↔ Text.strip l.raw = [] ∨ ∃ indent mark rest,
    l.raw = indent ++ mark :: rest ∧ Text.Blanks indent ∧ mark ∈ commentMarks
  /-- A line with a statement has a first character that starts no comment. -/
  stated : l.isBlank = false → ∃ indent c rest, l.text = indent ++ c :: rest ∧
    Text.Blanks indent ∧ Text.isBlank c = false ∧ c ∉ commentMarks
  column_le : l.column ≤ l.text.length
  textFrom : l.statement <+: l.text.drop l.column
  rawFrom : l.statement <+: l.raw.drop l.column
  gap : ∃ gap, Text.Blanks gap ∧ l.statement = l.mnemonic ++ (gap ++ l.operand) ∧
    (gap = [] ↔ l.operand = [])
  words : l.statement ≠ [] → l.words = l.mnemonic :: Text.words l.operand
  unlabelled : labelSeparator ∉ l.text → l.label = l.mnemonic ∧ Text.words l.stripped = l.words

private theorem gap_of_statement (l : Line) : ∃ gap, Text.Blanks gap ∧
    l.statement = l.mnemonic ++ (gap ++ l.operand) ∧ (gap = [] ↔ l.operand = []) := by
  rcases l.statement_eq_nil_or_solid with hnil | hsolid
  · have hoperand : l.operand = [] := by
      rw [operand, hnil, List.drop_nil]
      rfl
    exact ⟨[], Text.blanks_nil, by simp [hnil, mnemonic_eq_nil hnil, hoperand], by simp [hoperand]⟩
  · obtain ⟨-, gap, hgap, hstatement, hparts⟩ := exists_gap hsolid
    refine ⟨gap, hgap, hstatement, ?_⟩
    rcases hparts with ⟨hnone, hoperand⟩ | ⟨hne, -, hoperand⟩
    · simp [hnone, hoperand]
    · obtain ⟨front, d, hlast, -⟩ := hoperand
      simp [hne, hlast]

private theorem coherent (l : Line) : l.Coherent where
  cut := exists_comment l.raw
  blank := by
    rw [isBlank, text, isBlankOrComment_stripComment]
    exact isBlankOrComment_iff
  stated := isBlankOrComment_eq_false_iff.mp
  column_le := l.column_le_length_text
  textFrom := by
    rw [drop_column_text]
    exact Text.afterLast_strip_isPrefix (by decide) l.text
  rawFrom := l.statement_isPrefix_drop_column
  gap := l.gap_of_statement
  words := by
    intro h
    exact words_eq_cons (l.statement_eq_nil_or_solid.resolve_left h)
  unlabelled := by
    intro h
    have hlabel : l.hasLabel = false := by simpa [hasLabel] using h
    exact ⟨label_of_not_hasLabel hlabel, by rw [Line.words, statement_of_not_hasLabel hlabel]⟩

/-- The line is a piece of a document at its position, without the carriage returns that end it. -/
structure IsPiece (l : Line) (piece : Text) (position : Nat) : Prop where
  index : l.index = position
  raw : ∃ count, piece = l.raw ++ List.replicate count (.char '\r')
  trimmed : l.raw.getLast? ≠ some (.char '\r')

private theorem isPiece_ofPiece (piece : Text) (position : Nat) :
    (ofPiece (piece, position)).IsPiece piece position := by
  obtain ⟨tail, hsplit, htail⟩ := Text.exists_trimEnd (· == .char '\r') piece
  refine ⟨rfl, ⟨tail.length, ?_⟩, ?_⟩
  · have hreturns : tail = List.replicate tail.length (.char '\r') :=
      List.eq_replicate_of_mem fun c hc => beq_iff_eq.mp (htail c hc)
    rw [← hreturns]
    exact hsplit
  · intro hlast
    have hnot := Text.getLast?_trimEnd hlast
    rw [beq_self_eq_true] at hnot
    cases hnot

end Line

/-- A document has one line for each piece between its line feeds, in order, and the views of every
line fit together. -/
theorem sourceLines_decompose (text : Text) :
    (List.intercalate [.char '\n'] (Text.lines text) = text ∧
      ∀ piece ∈ Text.lines text, .char '\n' ∉ piece) ∧
    (sourceLines text).length = (Text.lines text).length ∧
    (∀ (i : Nat) (l : Line), (sourceLines text)[i]? = some l →
      ∃ piece, (Text.lines text)[i]? = some piece ∧ l.IsPiece piece i) ∧
    ∀ l : Line, l.Coherent := by
  refine ⟨⟨Text.intercalate_lines text, fun _ => Text.not_mem_of_mem_lines⟩,
    length_sourceLines text, ?_, Line.coherent⟩
  intro i l hl
  rw [getElem?_sourceLines_eq, Option.map_eq_some_iff] at hl
  obtain ⟨piece, hpiece, rfl⟩ := hl
  exact ⟨piece, hpiece, Line.isPiece_ofPiece piece i⟩

/-- Two separators, blanks of other kinds and a semicolon before the slash that is cut at. -/
theorem sourceLines_decompose_separators :
    let text := Text.ofString "A,\u3000B,\tLDA\u2003X ; a/b\r\r\nEND"
    let l : Line := ⟨0, .ofString "A,\u3000B,\tLDA\u2003X ; a/b"⟩
    (sourceLines text)[0]? = some l ∧ l.IsPiece (.ofString "A,\u3000B,\tLDA\u2003X ; a/b\r\r") 0 ∧
    l.isBlank = false ∧ l.column = 6 ∧ l.statement = .ofString "LDA\u2003X ; a" ∧
    l.statement <+: l.raw.drop 6 ∧ l.words = l.mnemonic :: Text.words l.operand ∧
    l.operand = .ofString "X ; a" := by
  intro text l
  obtain ⟨-, -, hpieces, hcoherent⟩ := sourceLines_decompose text
  have hl : (sourceLines text)[0]? = some l := by decide +kernel
  obtain ⟨piece, hpiece, hstands⟩ := hpieces 0 l hl
  have hfirst : (Text.lines text)[0]? = some (.ofString "A,\u3000B,\tLDA\u2003X ; a/b\r\r") := by
    decide +kernel
  rw [hfirst, Option.some.injEq] at hpiece
  have hcolumn : l.column = 6 := by decide +kernel
  have hfrom := (hcoherent l).rawFrom
  rw [hcolumn] at hfrom
  exact ⟨hl, hpiece ▸ hstands, by decide +kernel, hcolumn, by decide +kernel, hfrom,
    (hcoherent l).words (by decide +kernel), by decide +kernel⟩

end TeachAsm
