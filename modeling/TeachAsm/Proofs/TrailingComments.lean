import TeachAsm.Proofs.BlankLines
import TeachAsm.Proofs.LineEndings
import TeachAsm.Proofs.Statement

/-!
# Comments behind statements

Lines are read through their text, and a comment is no part of it. So lines that differ in their
comments give the same labels and the same memory, and all that a diagnostic shows of a comment is
the column where a statement's line ends. A line without a statement has none with a comment behind
it either.
-/

namespace TeachAsm

/-- Lines with one number and one text, whatever comments they have. -/
structure Line.SameText (l l' : Line) : Prop where
  index : l'.index = l.index
  text : l'.text = l.text

theorem Line.SameText.cell {l l' : Line} (h : l.SameText l') (symbols : Table Text Nat) :
    l'.cell symbols = l.cell symbols := by
  simp only [Line.cell, Line.target?, Line.isIndirect, Line.isReference_congr h.text,
    Line.operandWord_congr h.text, Line.words_congr h.text, Line.mnemonic_congr h.text,
    Line.stripped_congr h.text, h.index]

theorem Line.SameText.wholeRange {l l' : Line} (h : l.SameText l') :
    l'.wholeRange = l.wholeRange := by
  rw [Line.wholeRange, h.index, ← Line.wholeRange]

section

variable {change : Line → Line} (hsame : ∀ l : Line, l.SameText (change l))

include hsame

private theorem statedLines_map (lines : List Line) :
    statedLines (lines.map change) = (statedLines lines).map change := by
  rw [statedLines, List.filter_map, statedLines]
  congr 2
  funext l
  rw [Function.comp_apply, Line.isBlank_congr (hsame l).text]

private theorem statements_map (lines : List Line) :
    statements (lines.map change) = (statements lines).map (Placement.map change) :=
  place_map (fun l => Line.statementStep_congr (hsame l).text) 0 lines

private theorem Bindings.enter_map (b : Bindings) (p : Placement) :
    b.enter (p.map change) = b.enter p := by
  have h := hsame p.line
  simp only [enter, Placement.map, Line.hasLabel_congr h.text, Line.label_congr h.text, h.index]

private theorem resolve_map (lines : List Line) : resolve (lines.map change) = resolve lines := by
  rw [resolve_eq, resolve_eq, bindings, bindings,
    place_map fun l => Line.labelStep_congr (hsame l).text, List.foldl_map]
  simp only [Bindings.enter_map hsame]

private theorem load_map (lines : List Line) (r : Resolution) :
    load (lines.map change) r = load lines r := by
  have henter (m : Memory) (p : Placement) :
      m.enter r.symbols (p.map change) = m.enter r.symbols p := by
    have h := hsame p.line
    simp only [Memory.enter, Placement.map, h.cell, Line.isReference_congr h.text,
      Line.operandWord_congr h.text]
  rw [load, load, statements_map hsame, List.foldl_map]
  simp only [henter]

private theorem originFindings_map (seen : List (Int × Nat)) (lines : List Line) :
    originFindings seen (lines.map change) = originFindings seen lines := by
  induction lines generalizing seen with
  | nil => rfl
  | cons l rest ih =>
      have h := hsame l
      simp only [List.map_cons, originFindings, Line.origin?_congr h.text, h.index, h.wholeRange,
        ih]

end

/-- A diagnostic of a statement on one line, with another column at its end. -/
def Diagnostic.endAt (line column : Nat) (d : Diagnostic) : Diagnostic :=
  if d.problem.site = .statement ∧ d.line = line then
    { d with range := { d.range with stop := { d.range.stop with character := column } } }
  else d

private theorem Diagnostic.endAt_of_site {d : Diagnostic} (h : d.problem.site ≠ .statement)
    (line column : Nat) : d.endAt line column = d :=
  if_neg fun hd => h hd.1

private theorem map_endAt_of_site {findings : List Finding} (line column : Nat)
    (h : ∀ d, .problem d ∈ findings → d.problem.site ≠ .statement) :
    findings.map (Finding.map (Diagnostic.endAt line column)) = findings := by
  refine (List.map_congr_left ?_).trans (List.map_id' findings)
  intro finding hfinding
  cases finding with
  | fault e => rfl
  | problem d =>
      exact congrArg Finding.problem (Diagnostic.endAt_of_site (h d hfinding) line column)

/-- The lines keep their text, and on one line the raw text ends at a column. -/
structure Recommented (change : Line → Line) (line column : Nat) (lines : List Line) : Prop where
  sameText : ∀ l : Line, l.SameText (change l)
  length : ∀ l ∈ lines, (change l).raw.length = if l.index = line then column else l.raw.length

namespace Recommented

variable {change : Line → Line} {line column : Nat} {lines : List Line}
  (h : Recommented change line column lines)

include h

private theorem follows : Follows (Diagnostic.endAt line column) change lines where
  text l := (h.sameText l).text
  statement l hl p hp := by
    have hline : (⟨l.statementRange, p⟩ : Diagnostic).line = l.index := rfl
    have hrange : (change l).statementRange = .columns l.index l.column (change l).raw.length := by
      rw [Line.statementRange, (h.sameText l).index, Line.column_congr (h.sameText l).text]
    rw [Diagnostic.endAt, hrange, h.length l hl, hline]
    by_cases hindex : l.index = line
    · rw [if_pos ⟨hp, congrArg _ hindex⟩, if_pos hindex]
      rfl
    · rw [if_neg fun hd => hindex (Int.ofNat.inj hd.2), if_neg hindex]
      rfl
  below l _ := by
    have hsite : Problem.belowEnd.site ≠ .statement := by decide
    rw [(h.sameText l).wholeRange]
    exact Diagnostic.endAt_of_site hsite line column

end Recommented

namespace Analysis

section

variable {change : Line → Line} {line column : Nat} {lines lines' : List Line}
  (h : Recommented change line column (statedLines lines))
  (hstated : statedLines lines' = (statedLines lines).map change)

include h hstated

private theorem resolve_recommented : resolve lines' = resolve lines := by
  rw [← resolve_statedLines, hstated, resolve_map h.sameText, resolve_statedLines]

private theorem load_recommented (r : Resolution) : load lines' r = load lines r := by
  rw [← load_statedLines, hstated, load_map h.sameText, load_statedLines]

private theorem findings_recommented (hlength : lines'.length = lines.length) (image : Image) :
    findings lines' image =
      (findings lines image).map (Finding.map (Diagnostic.endAt line column)) := by
  have hspelling : spellingFindings lines' =
      (spellingFindings lines).map (Finding.map (Diagnostic.endAt line column)) := by
    rw [← spellingFindings_statedLines, hstated, h.follows.spellingFindings_map,
      spellingFindings_statedLines]
  have hsource : sourceFindings lines' =
      (sourceFindings lines).map (Finding.map (Diagnostic.endAt line column)) := by
    have hlast (range : Range) (p : Problem) (hp : p.site = .document) :
        Diagnostic.endAt line column ⟨range, p⟩ = ⟨range, p⟩ := by
      apply Diagnostic.endAt_of_site
      rw [hp]
      decide
    rw [sourceFindings, ← scanFindings_statedLines, hstated, h.follows.scanFindings_map (hlast _),
      scanFindings_statedLines, hlength, ← sourceFindings]
  have horigins : originFindings [] lines' = originFindings [] lines := by
    rw [← originFindings_statedLines, hstated, originFindings_map h.sameText,
      originFindings_statedLines]
  have hforms : (cellFormFindings 0 image.cells).map
      (Finding.map (Diagnostic.endAt line column)) = cellFormFindings 0 image.cells := by
    apply map_endAt_of_site
    intro d hd
    rw [site_of_mem_cellFormFindings hd]
    decide
  have hrepeated : (originFindings [] lines).map (Finding.map (Diagnostic.endAt line column)) =
      originFindings [] lines := by
    apply map_endAt_of_site
    intro d hd
    rw [site_of_mem_originFindings hd]
    decide
  have hlogic : (cellLogicFindings image image.cells).map
      (Finding.map (Diagnostic.endAt line column)) = cellLogicFindings image image.cells := by
    apply map_endAt_of_site
    intro d hd
    rw [site_of_mem_cellLogicFindings hd]
    decide
  simp only [findings, formFindings, logicFindings, List.map_append, hspelling, hsource, horigins,
    hforms, hrepeated, hlogic]

end

end Analysis

def appendToLine (text : Text) (position : Nat) (tail : Text) : Text :=
  List.intercalate [.char '\n'] ((Text.lines text).modify position (· ++ tail))

private theorem lines_appendToLine (text : Text) (position : Nat) {tail : Text}
    (h : .char '\n' ∉ tail) : Text.lines (appendToLine text position tail) =
      (Text.lines text).modify position (· ++ tail) := by
  apply Text.lines_intercalate
  · rw [← List.length_pos_iff, List.length_modify, List.length_pos_iff]
    exact Text.splitWhen_ne_nil _ text
  · intro piece hpiece
    obtain ⟨i, hi⟩ := List.getElem?_of_mem hpiece
    rw [List.getElem?_modify] at hi
    obtain ⟨old, hold, rfl⟩ := Option.map_eq_some_iff.mp hi
    have hclean := Text.not_mem_of_mem_lines (List.mem_of_getElem? hold)
    split
    · rw [List.mem_append, not_or]
      exact ⟨hclean, h⟩
    · exact hclean

private theorem isBlankOrComment_append_mark {s : Text} (h : isBlankOrComment s = true)
    {mark : CodePoint} (hmark : mark ∈ commentMarks) (rest : Text) :
    isBlankOrComment (s ++ mark :: rest) = true := by
  unfold isBlankOrComment at h ⊢
  rw [Text.stripLeft_append_cons (isBlank_of_mem_commentMarks hmark)]
  cases hs : Text.stripLeft s with
  | nil => exact List.contains_iff_mem.mpr hmark
  | cons c cs =>
      rw [hs] at h
      exact h

section

variable {text piece comment : Text} {position : Nat}
  (hpiece : (Text.lines text)[position]? = some piece)
  (hmarks : ∀ mark ∈ commentMarks, mark ∉ piece) (hreturn : piece.getLast? ≠ some (.char '\r'))
  (hcomment : .char '\n' ∉ comment)

include hpiece hreturn hcomment

private theorem exists_sourceLines_appendToLine : ∃ above below,
    sourceLines text = above ++ ⟨position, piece⟩ :: below ∧
    sourceLines (appendToLine text position (.char '/' :: comment)) =
      above ++
        ⟨position, piece ++ .char '/' :: Text.trimEnd (· == .char '\r') comment⟩ :: below := by
  have htail : .char '\n' ∉ (.char '/' :: comment : Text) := by
    rw [List.mem_cons, not_or]
    exact ⟨by decide, hcomment⟩
  have htrim : Text.trimEnd (· == .char '\r') piece = piece := by
    apply List.rdropWhile_eq_self_iff.mpr
    intro hne hlast
    exact hreturn (by rw [List.getLast?_eq_some_getLast hne, beq_iff_eq.mp hlast])
  obtain ⟨hlt, -⟩ := List.getElem?_eq_some_iff.mp hpiece
  obtain ⟨above, old, below, hlines, hlength, hmodified⟩ :=
    List.exists_of_modify (· ++ .char '/' :: comment) hlt
  have hold : old = piece := by
    rw [hlines, ← hlength] at hpiece
    simpa using hpiece
  subst hold
  refine ⟨above.zipIdx.map Line.ofPiece, (below.zipIdx (position + 1)).map Line.ofPiece, ?_, ?_⟩
  · rw [sourceLines_eq, hlines, List.zipIdx_append, Nat.zero_add, hlength, List.zipIdx_cons,
      List.map_append, List.map_cons, Line.ofPiece, htrim]
  · rw [sourceLines_eq, lines_appendToLine text position htail, hmodified, List.zipIdx_append,
      Nat.zero_add, hlength, List.zipIdx_cons, List.map_append, List.map_cons, Line.ofPiece,
      Text.trimEnd_append_cons (by decide)]

private theorem length_sourceLines_appendToLine :
    (sourceLines (appendToLine text position (.char '/' :: comment))).length =
      (sourceLines text).length := by
  obtain ⟨above, below, hlines, hlines'⟩ :=
    exists_sourceLines_appendToLine hpiece hreturn hcomment
  rw [hlines, hlines', List.length_append, List.length_append, List.length_cons, List.length_cons]

private theorem appendToLine_ne_nil : appendToLine text position (.char '/' :: comment) ≠ [] := by
  intro hempty
  obtain ⟨above, below, -, hlines'⟩ := exists_sourceLines_appendToLine hpiece hreturn hcomment
  have hblank : sourceLines [] = [⟨0, []⟩] := rfl
  have hmem : (⟨position, piece ++ .char '/' :: Text.trimEnd (· == .char '\r') comment⟩ : Line) ∈
      sourceLines [] := by
    rw [← hempty, hlines']
    simp
  simp [hblank] at hmem

include hmarks

/-- Behind a statement a comment keeps the text of its line, and behind anything else it makes no
statement. -/
private theorem exists_recommented_appendToLine : ∃ change : Line → Line,
    Recommented change position
      (piece ++ .char '/' :: Text.trimEnd (· == .char '\r') comment).length
      (statedLines (sourceLines text)) ∧
    statedLines (sourceLines (appendToLine text position (.char '/' :: comment))) =
      (statedLines (sourceLines text)).map change := by
  obtain ⟨above, below, hlines, hlines'⟩ :=
    exists_sourceLines_appendToLine hpiece hreturn hcomment
  generalize hold : (⟨position, piece⟩ : Line) = old at hlines
  generalize hnew : (⟨position, piece ++ .char '/' :: Text.trimEnd (· == .char '\r') comment⟩ :
    Line) = new at hlines'
  have hmem : old ∈ sourceLines text := by simp [hlines]
  have hunique {l : Line} (hl : l ∈ sourceLines text) (hindex : l.index = position) : l = old :=
    eq_of_index_eq hl hmem (by rw [hindex, ← hold])
  have hfree : ∀ c ∈ piece, c ∉ commentMarks := fun c hc hmark => hmarks c hmark hc
  have htext : old.text = piece := by
    rw [← hold]
    exact stripComment_of_not_mem hfree
  have hpieceBlank : isBlankOrComment piece = old.isBlank := by rw [Line.isBlank, htext]
  -- A line without a statement drops out of both lists; any other is the one that changes.
  cases hblank : old.isBlank with
  | true =>
      have hblank' : new.isBlank = true := by
        rw [← hnew]
        exact Line.isBlank_of_raw
          (isBlankOrComment_append_mark (hpieceBlank.trans hblank) (by decide) _)
      refine ⟨id, ⟨fun _ => ⟨rfl, rfl⟩, ?_⟩, ?_⟩
      · intro l hl
        obtain ⟨hin, hstated⟩ := List.mem_filter.mp hl
        rw [if_neg fun hindex => by simp [hunique hin hindex, hblank] at hstated]
        rfl
      · rw [List.map_id, hlines, hlines', statedLines_append, statedLines_append,
          statedLines_cons_of_isBlank hblank, statedLines_cons_of_isBlank hblank']
  | false =>
      have hsame : old.SameText new := by
        refine ⟨by rw [← hold, ← hnew], ?_⟩
        rw [htext, ← hnew]
        exact stripComment_append_mark hfree (hpieceBlank.trans hblank) _
      have hpairwise := pairwise_index_sourceLines text
      rw [hlines, List.pairwise_append, List.pairwise_cons] at hpairwise
      obtain ⟨-, ⟨hbelow, -⟩, habove⟩ := hpairwise
      have hkeep {others : List Line} (hothers : old ∉ others) :
          (others.map fun l => if l = old then new else l) = others := by
        refine (List.map_congr_left ?_).trans (List.map_id' others)
        intro l hl
        exact if_neg fun heq : l = old => hothers (heq ▸ hl)
      have hchange : ∀ l : Line, l.SameText (if l = old then new else l) := by
        intro l
        split
        · next hl => exact hl ▸ hsame
        · exact ⟨rfl, rfl⟩
      refine ⟨fun l => if l = old then new else l, ⟨hchange, ?_⟩, ?_⟩
      · intro l hl
        have hin := (List.mem_filter.mp hl).1
        by_cases hindex : l.index = position
        · rw [if_pos hindex, hunique hin hindex, if_pos rfl, ← hnew]
        · rw [if_neg hindex, if_neg fun hl => hindex (by rw [hl, ← hold])]
      · rw [← statedLines_map hchange, hlines, hlines', List.map_append, List.map_cons, if_pos rfl,
          hkeep fun hin => Nat.lt_irrefl _ (habove old hin old List.mem_cons_self),
          hkeep fun hin => Nat.lt_irrefl _ (hbelow old hin)]

end

namespace Analysis

section

variable {change : Line → Line} {text text' : Text} {line column : Nat}
  (h : Recommented change line column (statedLines (sourceLines text)))
  (hstated : statedLines (sourceLines text') = (statedLines (sourceLines text)).map change)

include h hstated

private theorem analyze_recommented (limit : Int) (htext : text ≠ []) (htext' : text' ≠ [])
    (hlength : (sourceLines text').length = (sourceLines text).length) :
    analyze limit text' = (analyze limit text).map (List.map (Diagnostic.endAt line column)) := by
  have hresolve := resolve_recommented h hstated
  have hload := load_recommented h hstated
  have hfindings : textFindings text' =
      (textFindings text).map (Finding.map (Diagnostic.endAt line column)) := by
    rw [textFindings, textFindings, if_neg (by simpa using htext'), if_neg (by simpa using htext),
      hresolve, hload]
    exact findings_recommented h hstated hlength _
  have hlabels : textLabels text' = (textLabels text).map (Diagnostic.endAt line column) := by
    rw [textLabels, textLabels, if_neg (by simpa using htext'), if_neg (by simpa using htext)]
    dsimp only
    rw [hresolve, hload]
    refine ((List.map_congr_left ?_).trans (List.map_id' _)).symm
    intro d hd
    have hsite : d.problem.site ≠ .statement := by
      rw [site_of_mem_labelReport hd]
      decide
    exact Diagnostic.endAt_of_site hsite line column
  exact analyze_map htext htext' hfindings hlabels limit

end

/-- Carriage returns before the line feeds of a text, and a comment behind a line that has none,
change nothing that the text means. With the carriage returns the text has the same source lines,
the same analysis under every limit, and at every cursor the same completions. With the comment it
has the same labels and the same memory, and either the same failure or the same diagnostics in the
same order, where those of a statement on that line end where the line now ends. -/
theorem endings_and_comments_transparent (limit : Int) (text : Text) :
    (sourceLines text.crlf = sourceLines text ∧ run limit text.crlf = run limit text ∧
      ∀ line column, Completion.suggest text.crlf line column =
        Completion.suggest text line column) ∧
    ∀ (position : Nat) (piece comment : Text), text ≠ [] →
      (Text.lines text)[position]? = some piece →
      (∀ mark ∈ commentMarks, mark ∉ piece) → piece.getLast? ≠ some (.char '\r') →
      .char '\n' ∉ comment →
      let commented := appendToLine text position (.char '/' :: comment)
      resolve (sourceLines commented) = resolve (sourceLines text) ∧
        load (sourceLines commented) (resolve (sourceLines commented)) =
          load (sourceLines text) (resolve (sourceLines text)) ∧
        ∃ l, (sourceLines commented)[position]? = some l ∧
          analyze limit commented =
            (analyze limit text).map (List.map (Diagnostic.endAt position l.raw.length)) := by
  refine ⟨⟨sourceLines_crlf text, run_crlf limit text, Completion.suggest_crlf text⟩, ?_⟩
  intro position piece comment htext hpiece hmarks hreturn hcomment commented
  obtain ⟨change, hchange, hstated⟩ :=
    exists_recommented_appendToLine hpiece hmarks hreturn hcomment
  have hresolve := resolve_recommented hchange hstated
  refine ⟨hresolve, ?_, ⟨position, piece ++ .char '/' :: Text.trimEnd (· == .char '\r') comment⟩,
    ?_, ?_⟩
  · rw [hresolve, load_recommented hchange hstated]
  · obtain ⟨above, below, hlines, hlines'⟩ :=
      exists_sourceLines_appendToLine hpiece hreturn hcomment
    exact getElem?_of_mem_sourceLines (hlines' ▸ List.mem_append_right _ List.mem_cons_self)
  · exact analyze_recommented hchange hstated limit htext
      (appendToLine_ne_nil hpiece hreturn hcomment)
      (length_sourceLines_appendToLine hpiece hreturn hcomment)

/-- A comment with a separator and a carriage return behind an unknown keyword: the keyword is shown
to the end of the comment, and nothing else is reported in another place. -/
theorem endings_and_comments_transparent_keyword :
    let text : Text := .ofString "X, FOO\n DEC Z"
    let comment : Text := .ofString " a, b\r"
    let commented := appendToLine text 0 (.char '/' :: comment)
    let shown := List.map fun d : Diagnostic =>
      (d.problem, d.range.start.character, d.range.stop.character)
    run 100 text.crlf = run 100 text ∧
    (analyze 100 text).toOption.map shown =
      some [(.unknownKeyword (.ofString "FOO"), 3, 6), (.invalidDecimal, 1, 6),
        (.missingEnd, 0, endOfLine), (.missingHalt, 0, endOfLine),
        (.unusedLabel (.ofString "X"), 0, endOfLine)] ∧
    (analyze 100 commented).toOption.map shown =
      some [(.unknownKeyword (.ofString "FOO"), 3, 12), (.invalidDecimal, 1, 6),
        (.missingEnd, 0, endOfLine), (.missingHalt, 0, endOfLine),
        (.unusedLabel (.ofString "X"), 0, endOfLine)] := by
  intro text comment commented shown
  obtain ⟨⟨-, hrun, -⟩, hcommented⟩ := endings_and_comments_transparent 100 text
  have hpiece : (Text.lines text)[0]? = some (.ofString "X, FOO") := by decide
  obtain ⟨-, -, l, hl, hanalyze⟩ :=
    hcommented 0 _ comment (by decide) hpiece (by decide) (by decide) (by decide)
  have hend : (sourceLines commented)[0]?.map (·.raw.length) = some 12 := by decide +kernel
  have hlength : l.raw.length = 12 := by simpa [commented, hl] using hend
  refine ⟨hrun, by decide +kernel, ?_⟩
  rw [hanalyze, hlength]
  decide +kernel

end Analysis

end TeachAsm
