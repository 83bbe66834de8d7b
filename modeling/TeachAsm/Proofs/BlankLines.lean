import TeachAsm.Proofs.Renumbering

/-!
# Blank lines

A line without a statement is passed over by every walk and every scan, and all it does is to give
the lines below it other numbers. So a blank line or a comment that is put into a document moves the
diagnostics below it down by one line and changes nothing else about them.
-/

namespace TeachAsm

def statedLines (lines : List Line) : List Line := lines.filter fun l => !l.isBlank

theorem statedLines_cons_of_isBlank {l : Line} (h : l.isBlank = true) (rest : List Line) :
    statedLines (l :: rest) = statedLines rest :=
  List.filter_cons_of_neg (by simp [h])

private theorem statedLines_cons {l : Line} (h : l.isBlank = false) (rest : List Line) :
    statedLines (l :: rest) = l :: statedLines rest :=
  List.filter_cons_of_pos (by simp [h])

theorem statedLines_append (above below : List Line) :
    statedLines (above ++ below) = statedLines above ++ statedLines below :=
  List.filter_append above below

private theorem place_statedLines {reading : Line → Step}
    (h : ∀ l, l.isBlank = true → reading l = .skip) (counter : Nat) (lines : List Line) :
    place reading counter (statedLines lines) = place reading counter lines := by
  induction lines generalizing counter with
  | nil => rfl
  | cons l rest ih =>
      cases hblank : l.isBlank with
      | true =>
          rw [statedLines_cons_of_isBlank hblank, place, h l hblank]
          exact ih counter
      | false =>
          rw [statedLines_cons hblank, place, place]
          cases reading l with
          | skip => exact ih counter
          | origin address => exact ih _
          | stop => rfl
          | occupy => exact congrArg _ (ih _)

private theorem statements_statedLines (lines : List Line) :
    statements (statedLines lines) = statements lines :=
  place_statedLines (fun l h => by rw [Line.statementStep, if_pos h]) 0 lines

theorem resolve_statedLines (lines : List Line) : resolve (statedLines lines) = resolve lines := by
  rw [resolve, resolve, resolve?, resolve?,
    place_statedLines fun l h => by rw [Line.labelStep, if_pos h]]

theorem load_statedLines (lines : List Line) (r : Resolution) :
    load (statedLines lines) r = load lines r := by
  rw [load, load, statements_statedLines]

theorem spellingFindings_statedLines (lines : List Line) :
    spellingFindings (statedLines lines) = spellingFindings lines := by
  induction lines with
  | nil => rfl
  | cons l rest ih =>
      cases hblank : l.isBlank with
      | true =>
          rw [statedLines_cons_of_isBlank hblank,
            spellingFindings_cons rest (Line.states_of_isBlank hblank .END), ih]
          simp [Line.isMisspelt, hblank]
      | false =>
          rw [statedLines_cons hblank]
          cases hend : l.states .END with
          | true =>
              rw [spellingFindings, spellingFindings, aboveEnd_cons_of_end _ hend,
                aboveEnd_cons_of_end _ hend]
          | false => rw [spellingFindings_cons _ hend, spellingFindings_cons _ hend, ih]

private theorem belowFindings_statedLines (lines : List Line) :
    belowFindings (statedLines lines) = belowFindings lines := by
  rw [belowFindings, belowFindings, statedLines, List.filter_filter]
  simp only [Bool.and_self]

theorem scanFindings_statedLines (last : Range) (seenEnd seenHalt : Bool) (lines : List Line) :
    scanFindings last seenEnd seenHalt (statedLines lines) =
      scanFindings last seenEnd seenHalt lines := by
  induction lines generalizing seenHalt with
  | nil => rfl
  | cons l rest ih =>
      cases hblank : l.isBlank with
      | true =>
          rw [statedLines_cons_of_isBlank hblank,
            scanFindings_cons _ _ _ _ (Line.states_of_isBlank hblank .END), ih,
            Line.states_of_isBlank hblank .HLT, Bool.or_false]
          simp [Line.operandFindings, hblank]
      | false =>
          rw [statedLines_cons hblank]
          cases hend : l.states .END with
          | true =>
              rw [scanFindings_cons_of_end _ _ _ _ hend, scanFindings_cons_of_end _ _ _ _ hend,
                belowFindings_statedLines]
          | false =>
              rw [scanFindings_cons _ _ _ _ hend, scanFindings_cons _ _ _ _ hend, ih]

theorem originFindings_statedLines (seen : List (Int × Nat)) (lines : List Line) :
    originFindings seen (statedLines lines) = originFindings seen lines := by
  induction lines generalizing seen with
  | nil => rfl
  | cons l rest ih =>
      cases hblank : l.isBlank with
      | true =>
          have horigin : l.origin? = none := by
            rw [Line.origin?, Line.states_of_isBlank hblank, if_neg Bool.false_ne_true]
          rw [statedLines_cons_of_isBlank hblank, originFindings, horigin]
          exact ih seen
      | false => simp only [statedLines_cons hblank, originFindings, ih]

theorem Text.not_mem_of_mem_lines {text piece : Text} (h : piece ∈ Text.lines text) :
    .char '\n' ∉ piece := by
  intro hmem
  have hnot := splitWhen_clean _ text piece h _ hmem
  rw [beq_self_eq_true] at hnot
  cases hnot

theorem Text.lines_intercalate {pieces : List Text} (hne : pieces ≠ [])
    (h : ∀ piece ∈ pieces, .char '\n' ∉ piece) :
    Text.lines (List.intercalate [.char '\n'] pieces) = pieces := by
  have hclean {piece : Text} (hpiece : .char '\n' ∉ piece) :
      ∀ c ∈ piece, (c == .char '\n') = false := by
    intro c hc
    rw [beq_eq_false_iff_ne]
    rintro rfl
    exact hpiece hc
  induction pieces with
  | nil => exact absurd rfl hne
  | cons piece rest ih =>
      rw [List.forall_mem_cons] at h
      cases rest with
      | nil =>
          have hsingle : List.intercalate [.char '\n'] [piece] = piece := by simp [List.intercalate]
          rw [hsingle]
          exact splitWhen_of_clean (hclean h.1)
      | cons second rest =>
          have hcons : List.intercalate [.char '\n'] (piece :: second :: rest) =
              piece ++ .char '\n' :: List.intercalate [.char '\n'] (second :: rest) := by
            simp [List.intercalate]
          have hrest := ih (List.cons_ne_nil _ _) h.2
          rw [hcons]
          exact (splitWhen_append (hclean h.1) (by decide) _).trans (congrArg _ hrest)

/-- The text with a line put in before the line that has a position, or behind the last line if the
position is the number of lines. -/
def insertLine (text : Text) (position : Nat) (line : Text) : Text :=
  List.intercalate [.char '\n']
    ((Text.lines text).take position ++ line :: (Text.lines text).drop position)

def shiftFrom (position i : Nat) : Nat := if position ≤ i then i + 1 else i

private theorem lines_insertLine (text : Text) (position : Nat) {line : Text}
    (h : .char '\n' ∉ line) : Text.lines (insertLine text position line) =
      (Text.lines text).take position ++ line :: (Text.lines text).drop position := by
  apply Text.lines_intercalate
  · exact List.append_ne_nil_of_right_ne_nil _ (List.cons_ne_nil _ _)
  · intro piece hpiece
    rcases List.mem_append.mp hpiece with hpiece | hpiece
    · exact Text.not_mem_of_mem_lines (List.mem_of_mem_take hpiece)
    · rcases List.mem_cons.mp hpiece with rfl | hpiece
      · exact h
      · exact Text.not_mem_of_mem_lines (List.mem_of_mem_drop hpiece)

def Line.ofPiece (e : Text × Nat) : Line := ⟨e.2, Text.trimEnd (· == '\r') e.1⟩

theorem sourceLines_eq (text : Text) :
    sourceLines text = (Text.lines text).zipIdx.map Line.ofPiece := rfl

private theorem exists_sourceLines_insertLine {text line : Text} {position : Nat}
    (hposition : position ≤ (Text.lines text).length) (hline : .char '\n' ∉ line)
    (hblank : isBlankOrComment line = true) :
    ∃ above blank below, Line.isBlank blank = true ∧
      (sourceLines text).map (Line.renumber (shiftFrom position)) = above ++ below ∧
      sourceLines (insertLine text position line) = above ++ blank :: below := by
  have hlength : ((Text.lines text).take position).length = position := by
    rw [List.length_take, Nat.min_eq_left hposition]
  refine ⟨((Text.lines text).take position).zipIdx.map Line.ofPiece, Line.ofPiece (line, position),
    (((Text.lines text).drop position).zipIdx (position + 1)).map Line.ofPiece, ?_, ?_, ?_⟩
  · exact Line.isBlank_of_raw
      (isBlankOrComment_of_isPrefix (Text.trimEnd_isPrefix _ line) hblank)
  · have hsplit : sourceLines text = ((Text.lines text).take position).zipIdx.map Line.ofPiece ++
        (((Text.lines text).drop position).zipIdx position).map Line.ofPiece := by
      rw [sourceLines_eq]
      conv_lhs => rw [← List.take_append_drop position (Text.lines text)]
      rw [List.zipIdx_append, Nat.zero_add, hlength, List.map_append]
    rw [hsplit, List.map_append, List.map_map, List.map_map, List.zipIdx_succ, List.map_map]
    congr 1
    · apply List.map_congr_left
      intro e he
      have hbound := List.snd_lt_of_mem_zipIdx he
      rw [Nat.add_zero, hlength] at hbound
      simp [Line.ofPiece, Line.renumber, shiftFrom, Nat.not_le_of_lt hbound]
    · apply List.map_congr_left
      intro e he
      have hbound := List.le_snd_of_mem_zipIdx he
      simp [Line.ofPiece, Line.renumber, shiftFrom, hbound]
  · rw [sourceLines_eq, lines_insertLine text position hline, List.zipIdx_append, Nat.zero_add,
      hlength, List.zipIdx_cons, List.map_append, List.map_cons]

namespace Analysis

private theorem analyze_eq_collect (limit : Int) (text : Text) :
    analyze limit text = (collect ((textFindings text).take (limit - 1).toNat)).bind
      fun ds => if canNote limit text then .ok (ds ++ textLabels text) else .error .unwritable := by
  cases hcollect : collect ((textFindings text).take (limit - 1).toNat) with
  | error e =>
      have hledger := ledger_run_eq_collect limit text
      rw [hcollect] at hledger
      cases hrun : run limit text with
      | ok a =>
          rw [hrun] at hledger
          cases hledger
      | error e' =>
          rw [hrun] at hledger
          cases hledger
          rw [analyze, hrun]
          rfl
  | ok ds =>
      cases hnote : canNote limit text with
      | true =>
          obtain ⟨a, ha, hgated⟩ := run_of_collect hcollect hnote
          rw [analyze, ha, Except.map, diagnostics, hgated, labels_run ha]
          rfl
      | false =>
          rw [analyze, run_unwritable hcollect hnote]
          rfl

/-- Where findings and labels of a text only change their places, so does the whole analysis. -/
theorem analyze_map {change : Diagnostic → Diagnostic} {text text' : Text} (htext : text ≠ [])
    (htext' : text' ≠ [])
    (hfindings : textFindings text' = (textFindings text).map (Finding.map change))
    (hlabels : textLabels text' = (textLabels text).map change) (limit : Int) :
    analyze limit text' = (analyze limit text).map (List.map change) := by
  rw [analyze_eq_collect, analyze_eq_collect, hfindings, hlabels, ← List.map_take, collect_map,
    canNote_of_ne_nil htext, canNote_of_ne_nil htext']
  cases collect ((textFindings text).take (limit - 1).toNat) with
  | error e => rfl
  | ok ds =>
      cases Radix.isWritable limit with
      | false => rfl
      | true => simp only [Except.map, Except.bind, if_true, List.map_append]

section

variable {text line : Text} {position : Nat} (hposition : position ≤ (Text.lines text).length)
  (hline : .char '\n' ∉ line) (hblank : isBlankOrComment line = true)

include hposition hline hblank

private theorem statedLines_insertLine :
    statedLines (sourceLines (insertLine text position line)) =
      statedLines ((sourceLines text).map (Line.renumber (shiftFrom position))) := by
  obtain ⟨above, blank, below, hempty, hlines, hinserted⟩ :=
    exists_sourceLines_insertLine hposition hline hblank
  rw [hlines, hinserted, statedLines_append, statedLines_cons_of_isBlank hempty, statedLines_append]

private theorem resolve_insertLine : resolve (sourceLines (insertLine text position line)) =
    (resolve (sourceLines text)).renumber (shiftFrom position) := by
  rw [← resolve_statedLines, statedLines_insertLine hposition hline hblank, resolve_statedLines,
    resolve_renumber]

private theorem load_insertLine (r : Resolution) :
    load (sourceLines (insertLine text position line)) r =
      load ((sourceLines text).map (Line.renumber (shiftFrom position))) r := by
  rw [← load_statedLines, statedLines_insertLine hposition hline hblank, load_statedLines]

private theorem length_sourceLines_insertLine :
    (sourceLines (insertLine text position line)).length = (Text.lines text).length + 1 := by
  obtain ⟨above, blank, below, -, hlines, hinserted⟩ :=
    exists_sourceLines_insertLine hposition hline hblank
  have hlength := congrArg List.length hlines
  rw [List.length_map, length_sourceLines, List.length_append] at hlength
  rw [hinserted, List.length_append, List.length_cons, hlength]
  rfl

private theorem findings_insertLine {image image' : Image}
    (himage : image.Renumbered (shiftFrom position) image') :
    findings (sourceLines (insertLine text position line)) image' =
      (findings (sourceLines text) image).map
        (Finding.renumber (shiftFrom position) (Text.lines text).length) := by
  have hstated := statedLines_insertLine hposition hline hblank
  have hlast : ((sourceLines (insertLine text position line)).length - 1 : Int) =
      (Text.lines text).length := by
    rw [length_sourceLines_insertLine hposition hline hblank]
    omega
  have hspelling : spellingFindings (sourceLines (insertLine text position line)) =
      (spellingFindings (sourceLines text)).map
        (Finding.renumber (shiftFrom position) (Text.lines text).length) := by
    rw [← spellingFindings_statedLines, hstated, spellingFindings_statedLines,
      spellingFindings_renumber]
  have hsource : sourceFindings (sourceLines (insertLine text position line)) =
      (sourceFindings (sourceLines text)).map
        (Finding.renumber (shiftFrom position) (Text.lines text).length) := by
    rw [sourceFindings, hlast, ← scanFindings_statedLines, hstated, scanFindings_statedLines,
      scanFindings_renumber]
    rfl
  have horigins : originFindings [] (sourceLines (insertLine text position line)) =
      (originFindings [] (sourceLines text)).map
        (Finding.renumber (shiftFrom position) (Text.lines text).length) := by
    rw [← originFindings_statedLines, hstated, originFindings_statedLines,
      ← originFindings_renumber]
    rfl
  rw [findings, findings, formFindings, formFindings, logicFindings, logicFindings, hspelling,
    hsource, horigins, cellFormFindings_renumber (Text.lines text).length himage,
    cellLogicFindings_renumber (Text.lines text).length himage himage]
  simp only [List.map_append]

private theorem insertLine_ne_nil : insertLine text position line ≠ [] := by
  intro hempty
  have hlength := length_sourceLines_insertLine hposition hline hblank
  rw [hempty] at hlength
  have hsome : 0 < (Text.lines text).length :=
    List.length_pos_of_ne_nil (Text.splitWhen_ne_nil _ text)
  have hone : (sourceLines []).length = 1 := rfl
  omega

private theorem textFindings_insertLine (htext : text ≠ []) :
    textFindings (insertLine text position line) = (textFindings text).map
      (Finding.renumber (shiftFrom position) (Text.lines text).length) := by
  have hinserted := insertLine_ne_nil hposition hline hblank
  rw [textFindings, textFindings, if_neg (by simpa using hinserted), if_neg (by simpa using htext),
    resolve_insertLine hposition hline hblank, load_insertLine hposition hline hblank]
  exact findings_insertLine hposition hline hblank (renumbered_load _ _ _)

private theorem textLabels_insertLine (htext : text ≠ []) :
    textLabels (insertLine text position line) = (textLabels text).map
      (Diagnostic.renumber (shiftFrom position) (Text.lines text).length) := by
  have hinserted := insertLine_ne_nil hposition hline hblank
  rw [textLabels, textLabels, if_neg (by simpa using hinserted), if_neg (by simpa using htext)]
  dsimp only
  rw [resolve_insertLine hposition hline hblank, load_insertLine hposition hline hblank,
    unused_load_renumber, labelReport_renumber]

end

/-- A blank line or a comment that is put into a document moves diagnostics and does nothing else.
The analysis fails as it did, or gives the same diagnostics in the same order, where the numbers of
the lines at or below the new one grow by one, both where they are shown and where they are quoted,
and what is missing is shown on the new last line. Labels keep their addresses. -/
theorem analyze_insertLine {text : Text} (htext : text ≠ []) {position : Nat}
    (hposition : position ≤ (Text.lines text).length) {line : Text}
    (hblank : isBlankOrComment line = true) (hline : .char '\n' ∉ line) (limit : Int) :
    let moved := Diagnostic.renumber (shiftFrom position) (Text.lines text).length
    analyze limit (insertLine text position line) = (analyze limit text).map (List.map moved) ∧
    (∀ d, (moved d).severity = d.severity ∧
      (moved d).range.start.character = d.range.start.character ∧
      (moved d).range.stop.character = d.range.stop.character) ∧
    (resolve (sourceLines (insertLine text position line))).symbols =
      (resolve (sourceLines text)).symbols := by
  intro moved
  refine ⟨?_, ?_, ?_⟩
  · apply analyze_map htext (insertLine_ne_nil hposition hline hblank)
    · rw [textFindings_insertLine hposition hline hblank htext, Finding.renumber_eq_map]
    · exact textLabels_insertLine hposition hline hblank htext
  · intro d
    exact ⟨Diagnostic.severity_renumber _ _ d, rfl, rfl⟩
  · rw [resolve_insertLine hposition hline hblank]
    rfl

/-- A comment between an unresolved reference and a label that is declared twice: what is reported
on the lines below moves, and so does the line that the duplicate label is told apart from. -/
theorem analyze_insertLine_comment :
    let text : Text := .ofString "LDA FOO\nX, HLT\nX, CLA"
    let comment : Text := .ofString " / LDA X"
    (analyze 100 text).toOption.map (List.map fun d => (d.line, d.problem)) =
      some [(2, .missingEnd), (0, .unresolvedLabel (some (.ofString "FOO"))),
        (2, .duplicateLabel (.ofString "X") 2), (2, .unusedLabel (.ofString "X"))] ∧
    (analyze 100 (insertLine text 1 comment)).toOption.map (List.map fun d => (d.line, d.problem)) =
      some [(3, .missingEnd), (0, .unresolvedLabel (some (.ofString "FOO"))),
        (3, .duplicateLabel (.ofString "X") 3), (3, .unusedLabel (.ofString "X"))] := by
  intro text comment
  have hbefore : (analyze 100 text).toOption.map (List.map fun d => (d.line, d.problem)) =
      some [(2, .missingEnd), (0, .unresolvedLabel (some (.ofString "FOO"))),
        (2, .duplicateLabel (.ofString "X") 2), (2, .unusedLabel (.ofString "X"))] := by
    decide +kernel
  refine ⟨hbefore, ?_⟩
  have htext : text ≠ [] := by decide
  have hposition : 1 ≤ (Text.lines text).length := by decide
  have hblank : isBlankOrComment comment = true := by decide
  have hline : .char '\n' ∉ comment := by decide
  rw [(analyze_insertLine htext hposition hblank hline 100).1]
  decide +kernel

end Analysis

end TeachAsm
