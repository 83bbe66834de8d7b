import Mathlib.Data.List.Infix
import TeachAsm.Proofs.FaultFreedom
import TeachAsm.Proofs.Spacing

/-!
# Positions of diagnostics

Every diagnostic is shown on a line of the document. Which line that is, a diagnostic learns in
different ways: from the line itself, from the cell that the line was laid out as, or from a table
of the label walk. One relation says for all of them what stands on the line, and the column of a
statement is where the statement starts, comments and labels aside.
-/

namespace TeachAsm

namespace Text

variable {α : Type}

private theorem strip_isPrefix (s : Text) : strip s <+: stripLeft s :=
  trimEnd_isPrefix isBlank (stripLeft s)

private theorem drop_length_takeWhile (p : α → Bool) (s : List α) :
    s.drop (s.takeWhile p).length = s.dropWhile p := by
  calc
    s.drop (s.takeWhile p).length
      = (s.takeWhile p ++ s.dropWhile p).drop (s.takeWhile p).length := by
        rw [List.takeWhile_append_dropWhile]
    _ = s.dropWhile p := List.drop_left

theorem exists_last_separator {separator : α} {s : List α} (h : separator ∈ s) :
    ∃ front tail, s = front ++ separator :: tail ∧ separator ∉ tail := by
  have hreverse : separator ∈ s.reverse := List.mem_reverse.mpr h
  obtain ⟨tail, front, hs, hnot⟩ := List.eq_append_cons_of_mem hreverse
  refine ⟨front.reverse, tail.reverse, ?_, by simpa using hnot⟩
  rw [← List.reverse_reverse s, hs]
  simp

theorem afterLast_strip_isPrefix {separator : CodePoint} (h : isBlank separator = false)
    (s : Text) :
    strip (afterLast separator (strip s)) <+: stripLeft (afterLast separator s) := by
  by_cases hmem : separator ∈ s
  · obtain ⟨front, tail, rfl, htail⟩ := exists_last_separator hmem
    have htrim : trimEnd isBlank tail <+: tail := trimEnd_isPrefix isBlank tail
    have hnot : separator ∉ trimEnd isBlank tail := fun hin => htail (htrim.mem hin)
    rw [strip_append_cons h, afterLast_append hnot, afterLast_append htail]
    exact (strip_isPrefix _).trans (stripLeft_mono htrim)
  · have hnot : separator ∉ strip s := fun hin => hmem ((strip_isInfix s).mem hin)
    rw [afterLast_of_not_mem hnot, afterLast_of_not_mem hmem, strip_strip]
    exact strip_isPrefix s

end Text

namespace Line

theorem drop_column_text (l : Line) :
    l.text.drop l.column = Text.stripLeft (Text.afterLast labelSeparator l.text) := by
  have hsuffix := Text.afterLast_isSuffix labelSeparator l.text
  unfold column
  dsimp only
  generalize Text.afterLast labelSeparator l.text = tail at hsuffix ⊢
  obtain ⟨front, htext⟩ := hsuffix
  rw [← htext, List.length_append, Nat.add_sub_cancel_right, ← List.drop_drop, List.drop_left,
    Text.drop_length_takeWhile]
  rfl

theorem column_le_length_text (l : Line) : l.column ≤ l.text.length := by
  have hsuffix := (Text.afterLast_isSuffix labelSeparator l.text).length_le
  have htake : ((Text.afterLast labelSeparator l.text).takeWhile Text.isBlank).length ≤
      (Text.afterLast labelSeparator l.text).length := (List.takeWhile_prefix _).length_le
  unfold column
  dsimp only
  omega

theorem text_isPrefix_raw (l : Line) : l.text <+: l.raw := stripComment_isPrefix l.raw

private theorem column_le_length_raw (l : Line) : l.column ≤ l.raw.length :=
  l.column_le_length_text.trans l.text_isPrefix_raw.length_le

/-- The raw line, read from the column of the statement, begins with the statement. -/
theorem statement_isPrefix_drop_column (l : Line) : l.statement <+: l.raw.drop l.column := by
  have htext : l.statement <+: l.text.drop l.column := by
    rw [drop_column_text]
    exact Text.afterLast_strip_isPrefix (by decide) l.text
  exact htext.trans (List.IsPrefix.drop l.text_isPrefix_raw l.column)

end Line

/-- What a problem is about. -/
inductive Site where
  | statement
  | belowEnd
  | document
  | cell
  | origin
  | label
deriving DecidableEq

def Problem.site : Problem → Site
  | unknownKeyword _ | missingOrigin | invalidOrigin | invalidDecimal | invalidHexadecimal
  | invalidMark => .statement
  | belowEnd => .belowEnd
  | missingEnd | missingHalt => .document
  | unresolvedLabel _ | malformedRegister | malformedTransfer | invalidTarget
  | unreachableHalt => .cell
  | duplicateOrigin _ => .origin
  | duplicateLabel _ _ | unusedLabel _ | invalidLabel _ => .label

/-- Where an analysis of the lines may show a problem: one rule for each site. -/
inductive Shown (lines : List Line) : Diagnostic → Prop
  | statement {l : Line} {p : Problem} (about : p.site = .statement) (above : l ∈ aboveEnd lines)
      (stated : l.isBlank = false) : Shown lines ⟨l.statementRange, p⟩
  | belowEnd {l : Line} (below : l ∈ belowEnd lines) (stated : l.isBlank = false) :
      Shown lines ⟨l.wholeRange, .belowEnd⟩
  | missingEnd (none : ∀ l ∈ lines, l.states .END = false) :
      Shown lines ⟨.wholeLine (lines.length - 1 : Int), .missingEnd⟩
  | missingHalt : Shown lines ⟨.wholeLine (lines.length - 1 : Int), .missingHalt⟩
  | cell {w : Placement} {p : Problem} (about : p.site = .cell) (placed : w ∈ statements lines) :
      Shown lines ⟨w.line.wholeRange, p⟩
  | origin {earlier later : List Line} {l first : Line} (split : lines = earlier ++ l :: later)
      (states : l.states .ORG = true) (before : first ∈ earlier)
      (repeated : first.origin? = l.origin?) :
      Shown lines ⟨l.wholeRange, .duplicateOrigin (first.index + 1)⟩
  | label {w : Placement} {p : Problem} (about : p.site = .label)
      (placed : w ∈ place Line.labelStep 0 lines) : Shown lines ⟨w.line.wholeRange, p⟩

private theorem exists_problem_of_mem_ofCheck {range : Range}
    {check : Except Fault (Option Problem)} {d : Diagnostic}
    (h : .problem d ∈ Finding.ofCheck range check) :
    ∃ p, check = .ok (some p) ∧ d = ⟨range, p⟩ := by
  match check with
  | .error f => simp [Finding.ofCheck] at h
  | .ok none => simp [Finding.ofCheck] at h
  | .ok (some p) =>
      simp only [Finding.ofCheck, List.mem_singleton, Finding.problem.injEq] at h
      exact ⟨p, rfl, h⟩

theorem Line.site_of_operandProblem {l : Line} {p : Problem}
    (h : l.operandProblem = .ok (some p)) : p.site = .statement := by
  unfold operandProblem at h
  split at h
  · split at h
    · cases h
      rfl
    · split at h
      · cases h
        rfl
      · cases h
  · split at h
    · cases h
    · cases h
      rfl
    · cases h
  · split at h
    · cases h
      rfl
    · cases h
  · split at h
    · cases h
      rfl
    · cases h
  · cases h

theorem Cell.site_of_formProblem? {c : Cell} {p : Problem} (h : c.formProblem? = some p) :
    p.site = .cell := by
  unfold formProblem? at h
  split at h
  · cases h
    rfl
  · split at h
    · cases h
      rfl
    · split at h
      · cases h
        rfl
      · cases h

private theorem Cell.site_of_formDiagnostic? {c : Cell} {d : Diagnostic}
    (h : c.formDiagnostic? = some d) : ∃ p, p.site = .cell ∧ d = ⟨c.range, p⟩ := by
  obtain ⟨p, hp, rfl⟩ := Option.map_eq_some_iff.mp h
  exact ⟨p, site_of_formProblem? hp, rfl⟩

theorem eq_some_of_map_ite {x : Except Fault Bool} {p q : Option Problem} {r : Problem}
    (h : x.map (fun b => if b then p else q) = .ok (some r)) : p = some r ∨ q = some r := by
  cases x with
  | error f => cases h
  | ok b =>
      rw [Except.map, Except.ok.injEq] at h
      cases b with
      | true => exact .inl h
      | false => exact .inr h

theorem Image.problem_of_logicProblem {image : Image} {address : Nat} {c : Cell} {p : Problem}
    (h : image.logicProblem address c = .ok (some p)) :
    p = .invalidTarget ∨ p = .unreachableHalt := by
  have hother (h : (if c.mnemonic? = some .HLT ∧ 2 ≤ address then
      (image.hiddenByJump address).map
        (fun hidden => if hidden then some Problem.unreachableHalt else none)
      else .ok none) = .ok (some p)) : p = .invalidTarget ∨ p = .unreachableHalt := by
    split at h
    · rcases eq_some_of_map_ite h with h | h <;> cases h
      exact .inr rfl
    · cases h
  unfold logicProblem at h
  split at h
  · cases h
  · split at h
    · cases h
    · rcases eq_some_of_map_ite h with h | h <;> cases h
      exact .inl rfl
  · exact hother h
  · exact hother h

theorem Image.site_of_logicProblem {image : Image} {address : Nat} {c : Cell} {p : Problem}
    (h : image.logicProblem address c = .ok (some p)) : p.site = .cell := by
  rcases problem_of_logicProblem h with rfl | rfl <;> rfl

private theorem shown_of_mem_spellingFindings {lines : List Line} {d : Diagnostic}
    (h : .problem d ∈ spellingFindings lines) : Shown lines d := by
  obtain ⟨l, hl, hd⟩ := List.mem_map.mp h
  obtain ⟨habove, hmisspelt⟩ := List.mem_filter.mp hl
  have hstated : l.isBlank = false := by
    simp only [Line.isMisspelt, Bool.and_eq_true, Bool.not_eq_true'] at hmisspelt
    exact hmisspelt.1
  cases hd
  exact .statement rfl habove hstated

private theorem shown_of_mem_sourceFindings {lines : List Line} {d : Diagnostic}
    (h : .problem d ∈ sourceFindings lines) : Shown lines d := by
  simp only [sourceFindings, scanFindings, List.mem_append, List.mem_flatMap] at h
  rcases h with ⟨l, habove, hd⟩ | hd | hd | hd
  · cases hblank : l.isBlank with
    | true => simp [Line.operandFindings, hblank] at hd
    | false =>
        rw [Line.operandFindings, hblank, if_neg Bool.false_ne_true] at hd
        obtain ⟨p, hp, rfl⟩ := exists_problem_of_mem_ofCheck hd
        exact .statement (Line.site_of_operandProblem hp) habove hblank
  · obtain ⟨l, hl, hd⟩ := List.mem_map.mp hd
    obtain ⟨hbelow, hstated⟩ := List.mem_filter.mp hl
    cases hd
    exact .belowEnd hbelow (by simpa using hstated)
  · obtain ⟨p, hp, rfl⟩ := exists_problem_of_mem_ofCheck hd
    split at hp
    · cases hp
    · next hnone =>
        cases hp
        exact .missingEnd (by simpa using hnone)
  · obtain ⟨p, hp, rfl⟩ := exists_problem_of_mem_ofCheck hd
    split at hp
    · cases hp
    · cases hp
      exact .missingHalt

private theorem Line.states_of_origin? {l : Line} {origin : Int} (h : l.origin? = some origin) :
    l.states .ORG = true := by
  by_contra hnot
  rw [origin?, if_neg hnot] at h
  cases h

theorem exists_repeated_of_mem_originFindings (front : List Line) {rest : List Line}
    {seen : List (Int × Nat)} {d : Diagnostic}
    (hseen : ∀ e ∈ seen, ∃ l ∈ front, l.origin? = some e.1 ∧ e.2 = l.index + 1)
    (h : .problem d ∈ originFindings seen rest) :
    ∃ earlier l later first, front ++ rest = earlier ++ l :: later ∧ l.states .ORG = true ∧
      first ∈ earlier ∧ first.origin? = l.origin? ∧
      d = ⟨l.wholeRange, .duplicateOrigin (first.index + 1)⟩ := by
  -- The scan knows the lines in front by their origins only, so the front grows with it.
  induction rest generalizing front seen with
  | nil => cases h
  | cons l rest ih =>
      have hfront {seen : List (Int × Nat)}
          (hseen : ∀ e ∈ seen, ∃ l' ∈ front, l'.origin? = some e.1 ∧ e.2 = l'.index + 1) :
          ∀ e ∈ seen, ∃ l' ∈ front ++ [l], l'.origin? = some e.1 ∧ e.2 = l'.index + 1 := by
        intro e he
        obtain ⟨l', hl', hfound⟩ := hseen e he
        exact ⟨l', List.mem_append_left _ hl', hfound⟩
      rw [List.append_cons]
      rw [originFindings] at h
      cases horigin : l.origin? with
      | none =>
          simp only [horigin] at h
          exact ih _ (hfront hseen) h
      | some origin =>
          cases hfind : Table.find? origin seen with
          | none =>
              simp only [horigin, hfind] at h
              refine ih _ ?_ h
              intro e he
              rcases List.mem_append.mp he with he | he
              · exact hfront hseen e he
              · rw [List.mem_singleton] at he
                subst he
                exact ⟨l, by simp, horigin, rfl⟩
          | some firstLine =>
              simp only [horigin, hfind] at h
              rcases List.mem_cons.mp h with h | h
              · cases h
                obtain ⟨first, hfirst, hsame, rfl⟩ := hseen _ (Table.mem_of_find? hfind)
                rw [← List.append_cons]
                exact ⟨front, l, rest, first, rfl, Line.states_of_origin? horigin, hfirst,
                  hsame.trans horigin.symm, rfl⟩
              · exact ih _ (hfront hseen) h

theorem exists_cell_of_mem_cellFormFindings {first : Nat} {cells : List (Nat × Cell)}
    {d : Diagnostic} (h : .problem d ∈ cellFormFindings first cells) :
    ∃ e ∈ cells, e.2.isChecked = true ∧ e.2.formDiagnostic? = some d := by
  induction cells generalizing first with
  | nil => cases h
  | cons e rest ih =>
      obtain ⟨address, c⟩ := e
      have hlater {first : Nat} (h : .problem d ∈ cellFormFindings first rest) :
          ∃ e ∈ (address, c) :: rest, e.2.isChecked = true ∧ e.2.formDiagnostic? = some d := by
        obtain ⟨e, he, hd⟩ := ih h
        exact ⟨e, List.mem_cons_of_mem _ he, hd⟩
      rw [cellFormFindings] at h
      split at h
      · exact hlater h
      split at h
      · cases h
      split at h
      · split at h
        · simp at h
        · cases h
        · split at h
          · cases h
          · exact hlater h
      · next hends hmentions =>
          rcases List.mem_append.mp h with h | h
          · obtain ⟨p, hp, rfl⟩ := exists_problem_of_mem_ofCheck h
            rw [Except.ok.injEq] at hp
            refine ⟨(address, c), List.mem_cons_self, ?_, ?_⟩
            · simp [Cell.isChecked, hends, hmentions]
            · rw [Cell.formDiagnostic?, hp, Option.map_some]
          · exact hlater h

theorem exists_cell_of_mem_cellLogicFindings {image : Image} {cells : List (Nat × Cell)}
    {d : Diagnostic} (h : .problem d ∈ cellLogicFindings image cells) :
    ∃ e ∈ cells, ∃ p, image.logicProblem e.1 e.2 = .ok (some p) ∧ d = ⟨e.2.range, p⟩ := by
  obtain ⟨e, he, hd⟩ := List.mem_flatMap.mp h
  obtain ⟨p, hp, hd⟩ := exists_problem_of_mem_ofCheck hd
  exact ⟨e, List.takeWhile_subset _ he, p, hp, hd⟩

theorem Line.range_cell (l : Line) (symbols : Table Text Nat) :
    (l.cell symbols).range = l.wholeRange := by
  have hpositive : (l.index : Int) + 1 ≠ 0 := by omega
  simp only [Cell.range, l.line_cell symbols, if_neg hpositive, wholeRange]
  rw [Int.add_sub_cancel]

/-- A written cell is shown on the line of the statement that wrote it. -/
private theorem shown_of_cell {lines : List Line} {r : Resolution} {e : Nat × Cell} {p : Problem}
    (he : e ∈ (load lines r).image.cells) (about : p.site = .cell) :
    Shown lines ⟨e.2.range, p⟩ := by
  obtain ⟨w, hw, rfl⟩ := exists_placement_of_mem_cells he
  rw [Line.range_cell]
  exact .cell about hw

private theorem shown_of_mem_findings {lines : List Line} {r : Resolution} {d : Diagnostic}
    (h : .problem d ∈ Analysis.findings lines (load lines r).image) : Shown lines d := by
  simp only [Analysis.findings, formFindings, logicFindings, List.mem_append] at h
  rcases h with h | (h | h) | (h | h)
  · exact shown_of_mem_spellingFindings h
  · exact shown_of_mem_sourceFindings h
  · obtain ⟨e, he, -, hd⟩ := exists_cell_of_mem_cellFormFindings h
    obtain ⟨p, hp, rfl⟩ := Cell.site_of_formDiagnostic? hd
    exact shown_of_cell he hp
  · obtain ⟨earlier, l, later, first, hsplit, hstates, hbefore, hsame, rfl⟩ :=
      exists_repeated_of_mem_originFindings [] (List.forall_mem_nil _) h
    exact .origin hsplit hstates hbefore hsame
  · obtain ⟨e, he, p, hp, rfl⟩ := exists_cell_of_mem_cellLogicFindings h
    exact shown_of_cell he (Image.site_of_logicProblem hp)

theorem site_of_mem_spellingFindings {lines : List Line} {d : Diagnostic}
    (h : .problem d ∈ spellingFindings lines) : d.problem.site = .statement := by
  obtain ⟨l, -, hd⟩ := List.mem_map.mp h
  cases hd
  rfl

theorem Line.site_of_mem_operandFindings {l : Line} {d : Diagnostic}
    (h : .problem d ∈ l.operandFindings) : d.problem.site = .statement := by
  unfold operandFindings at h
  split at h
  · cases h
  · obtain ⟨p, hp, rfl⟩ := exists_problem_of_mem_ofCheck h
    exact site_of_operandProblem hp

theorem site_of_mem_sourceFindings {lines : List Line} {d : Diagnostic}
    (h : .problem d ∈ sourceFindings lines) : d.problem.site = .statement ∨
      d.problem.site = .belowEnd ∨ d.problem.site = .document := by
  simp only [sourceFindings, scanFindings, List.mem_append, List.mem_flatMap] at h
  rcases h with ⟨l, -, hd⟩ | hd | hd | hd
  · exact .inl (Line.site_of_mem_operandFindings hd)
  · obtain ⟨l, -, hd⟩ := List.mem_map.mp hd
    cases hd
    exact .inr (.inl rfl)
  · obtain ⟨p, hp, rfl⟩ := exists_problem_of_mem_ofCheck hd
    split at hp <;> cases hp
    exact .inr (.inr rfl)
  · obtain ⟨p, hp, rfl⟩ := exists_problem_of_mem_ofCheck hd
    split at hp <;> cases hp
    exact .inr (.inr rfl)

theorem site_of_mem_cellFormFindings {first : Nat} {cells : List (Nat × Cell)} {d : Diagnostic}
    (h : .problem d ∈ cellFormFindings first cells) : d.problem.site = .cell := by
  obtain ⟨e, -, -, hd⟩ := exists_cell_of_mem_cellFormFindings h
  obtain ⟨p, hp, rfl⟩ := Cell.site_of_formDiagnostic? hd
  exact hp

theorem site_of_mem_originFindings {lines : List Line} {d : Diagnostic}
    (h : .problem d ∈ originFindings [] lines) : d.problem.site = .origin := by
  obtain ⟨earlier, l, later, first, -, -, -, -, rfl⟩ :=
    exists_repeated_of_mem_originFindings [] (List.forall_mem_nil _) h
  rfl

theorem site_of_mem_cellLogicFindings {image : Image} {cells : List (Nat × Cell)} {d : Diagnostic}
    (h : .problem d ∈ cellLogicFindings image cells) : d.problem.site = .cell := by
  obtain ⟨e, -, p, hp, rfl⟩ := exists_cell_of_mem_cellLogicFindings h
  exact Image.site_of_logicProblem hp

/-- What the passes find about a cell they find in memory, and they find nothing about labels. -/
theorem mem_memory_of_mem_findings {lines : List Line} {image : Image} {d : Diagnostic}
    (h : .problem d ∈ Analysis.findings lines image) :
    d.problem.site ≠ .cell ∧ d.problem.site ≠ .label ∨
      .problem d ∈ cellFormFindings 0 image.cells ∨
      .problem d ∈ cellLogicFindings image image.cells := by
  simp only [Analysis.findings, formFindings, logicFindings, List.mem_append] at h
  rcases h with h | (h | h) | (h | h)
  · rw [site_of_mem_spellingFindings h]
    exact .inl (by decide)
  · rcases site_of_mem_sourceFindings h with hsite | hsite | hsite <;> rw [hsite] <;>
      exact .inl (by decide)
  · exact .inr (.inl h)
  · rw [site_of_mem_originFindings h]
    exact .inl (by decide)
  · exact .inr (.inr h)

theorem site_of_mem_findings {lines : List Line} {image : Image} {d : Diagnostic}
    (h : .problem d ∈ Analysis.findings lines image) : d.problem.site ≠ .label := by
  rcases mem_memory_of_mem_findings h with ⟨-, hsite⟩ | h | h
  · exact hsite
  · rw [site_of_mem_cellFormFindings h]
    decide
  · rw [site_of_mem_cellLogicFindings h]
    decide

/-- The tables of the label walk name lines of the placements only. -/
structure Bindings.Traced (placements : List Placement) (b : Bindings) : Prop where
  labels : ∀ e ∈ b.labels.entries, ∃ w ∈ placements, w.line.index = e.2.line
  duplicates : ∀ e ∈ b.duplicates.entries, ∃ w ∈ placements, w.line.index = e.2.line
  invalid : ∀ e ∈ b.invalid.entries, ∃ w ∈ placements, w.line.index = e.2

namespace Bindings

variable {placements : List Placement}

theorem Traced.declare {b : Bindings} (h : b.Traced placements) {w : Placement}
    (hw : w ∈ placements) (label : Text) :
    (b.declare label ⟨w.address, w.line.index⟩).Traced placements where
  labels := by
    intro e he
    rcases Table.mem_of_mem_put he with rfl | he
    · exact ⟨w, hw, rfl⟩
    · exact h.labels e he
  duplicates := by
    intro e he
    simp only [Bindings.declare] at he
    split at he
    · exact h.duplicates e he
    · rcases Table.mem_of_mem_put he with rfl | he
      · exact ⟨w, hw, rfl⟩
      · exact h.duplicates e he
  invalid := h.invalid

theorem Traced.enter {b : Bindings} (h : b.Traced placements) {w : Placement}
    (hw : w ∈ placements) : (b.enter w).Traced placements := by
  unfold Bindings.enter
  dsimp only
  split
  · exact h
  · split
    · exact h.declare hw _
    · refine ⟨h.labels, h.duplicates, ?_⟩
      intro e he
      rcases Table.mem_of_mem_put he with rfl | he
      · exact ⟨w, hw, rfl⟩
      · exact h.invalid e he

theorem Traced.foldl {b : Bindings} (h : b.Traced placements) {walked : List Placement}
    (hwalked : ∀ w ∈ walked, w ∈ placements) :
    (walked.foldl Bindings.enter b).Traced placements := by
  induction walked generalizing b with
  | nil => exact h
  | cons w rest ih =>
      have hfirst := h.enter (hwalked w List.mem_cons_self)
      exact ih hfirst fun v hv => hwalked v (List.mem_cons_of_mem _ hv)

end Bindings

private theorem traced_bindings (lines : List Line) :
    (bindings lines).Traced (place Line.labelStep 0 lines) := by
  have hnothing : ({} : Bindings).Traced (place Line.labelStep 0 lines) := by
    constructor <;> intro e he <;> cases he
  exact hnothing.foldl fun w hw => hw

private theorem entries_unusedIn_subset (r : Resolution) (placements : List Placement) :
    (r.unusedIn placements).entries ⊆ r.unused.entries := by
  have hfold (unused : Table Text Nat) : (placements.foldl (fun unused p =>
      if p.line.isReference then unused.erase p.line.operandWord else unused) unused).entries ⊆
        unused.entries := by
    induction placements generalizing unused with
    | nil => exact List.Subset.refl _
    | cons p rest ih =>
        rw [List.foldl_cons]
        refine List.Subset.trans (ih _) ?_
        split
        · exact List.filter_sublist.subset
        · exact List.Subset.refl _
  exact hfold r.unused

private theorem shown_of_mem_labelReport {lines : List Line} {d : Diagnostic}
    (h : d ∈ labelReport (resolve lines) (load lines (resolve lines)).unused) :
    Shown lines d := by
  have htraced := traced_bindings lines
  have hshown {p : Problem} {line : Nat} (about : p.site = .label)
      (hline : ∃ w ∈ place Line.labelStep 0 lines, w.line.index = line) :
      Shown lines ⟨.wholeLine line, p⟩ := by
    obtain ⟨w, hw, rfl⟩ := hline
    exact .label about hw
  rw [load_unused, resolve_eq] at h
  simp only [labelReport, List.mem_append, List.mem_map] at h
  rcases h with (⟨redeclaration, hmem, rfl⟩ | ⟨e, hmem, rfl⟩) | ⟨e, hmem, rfl⟩
  · obtain ⟨e, he, rfl⟩ := List.mem_map.mp hmem
    exact hshown rfl (htraced.duplicates e he)
  · obtain ⟨declared, hdeclared, rfl⟩ := List.mem_map.mp (entries_unusedIn_subset _ _ hmem)
    exact hshown rfl (htraced.labels declared hdeclared)
  · exact hshown rfl (htraced.invalid e hmem)

theorem site_of_mem_labelReport {r : Resolution} {unused : Table Text Nat} {d : Diagnostic}
    (h : d ∈ labelReport r unused) : d.problem.site = .label := by
  simp only [labelReport, List.mem_append, List.mem_map] at h
  rcases h with (⟨redeclaration, -, rfl⟩ | ⟨entry, -, rfl⟩) | ⟨entry, -, rfl⟩ <;> rfl

namespace Analysis

theorem mem_findings_of_mem_gated {limit : Int} {text : Text} {a : Analysis}
    (h : run limit text = .ok a) {d : Diagnostic} (hd : d ∈ a.gated) :
    .problem d ∈ findings (sourceLines text)
      (load (sourceLines text) (resolve (sourceLines text))).image := by
  have hmem : .problem d ∈ (textFindings text).take (limit - 1).toNat := by
    rw [eq_problems_of_collect (collect_of_run h).1]
    exact List.mem_map_of_mem hd
  have htext := List.mem_of_mem_take hmem
  unfold textFindings at htext
  split at htext
  · cases htext
  · exact htext

theorem shown_of_run {limit : Int} {text : Text} {a : Analysis} (h : run limit text = .ok a) :
    ∀ d ∈ a.diagnostics, Shown (sourceLines text) d := by
  intro d hd
  rcases List.mem_append.mp hd with hd | hd
  · exact shown_of_mem_findings (mem_findings_of_mem_gated h hd)
  · rw [(fields_run h).2.2] at hd
    exact shown_of_mem_labelReport hd

end Analysis

/-- The place of a diagnostic lies on the line. -/
structure Diagnostic.PointsAt (d : Diagnostic) (l : Line) : Prop where
  start : d.range.start.line = l.index
  stop : d.range.stop.line = l.index
  ordered : d.range.start.character ≤ d.range.stop.character
  width : d.range.stop.character = endOfLine ∨ d.range.stop.character = l.raw.length
  /-- Only what is missing is shown on a line without a statement. -/
  stated : l.isBlank = false ∨ d.problem = .missingEnd ∨ d.problem = .missingHalt
  statement : d.problem.site = .statement → l.statement <+: l.raw.drop d.range.start.character

private theorem Line.pointsAt_statementRange {l : Line} (hstated : l.isBlank = false)
    (p : Problem) : (⟨l.statementRange, p⟩ : Diagnostic).PointsAt l where
  start := rfl
  stop := rfl
  ordered := l.column_le_length_raw
  width := .inr rfl
  stated := .inl hstated
  statement := fun _ => l.statement_isPrefix_drop_column

private theorem Line.pointsAt_wholeRange {l : Line} {p : Problem} (hp : p.site ≠ .statement)
    (hstated : l.isBlank = false ∨ p = .missingEnd ∨ p = .missingHalt) :
    (⟨l.wholeRange, p⟩ : Diagnostic).PointsAt l where
  start := rfl
  stop := rfl
  ordered := Nat.zero_le _
  width := .inl rfl
  stated := hstated
  statement := fun h => absurd h hp

private theorem isBlank_of_mem_place {reading : Line → Step}
    (hskip : ∀ l : Line, l.isBlank = true → reading l = .skip) {counter : Nat} {lines : List Line}
    {w : Placement} (hw : w ∈ place reading counter lines) : w.line.isBlank = false := by
  obtain ⟨-, -, -, hstep⟩ := (mem_place_iff reading counter lines w).mp hw
  by_contra hblank
  rw [hskip w.line (by simpa using hblank)] at hstep
  cases hstep

theorem mem_of_mem_place {reading : Line → Step} {counter : Nat} {lines : List Line}
    {w : Placement} (hw : w ∈ place reading counter lines) : w.line ∈ lines :=
  (place_sublist reading counter lines).subset (List.mem_map_of_mem hw)

private theorem exists_last_line (text : Text) :
    ∃ l ∈ sourceLines text, (l.index : Int) = (sourceLines text).length - 1 := by
  have hpos : 0 < (sourceLines text).length := by
    rw [length_sourceLines]
    exact List.length_pos_iff.mpr (Text.splitWhen_ne_nil _ _)
  have hlast : (sourceLines text).length - 1 < (sourceLines text).length := by omega
  have hindex := getElem?_sourceLines (List.getElem?_eq_getElem hlast)
  exact ⟨_, List.getElem_mem hlast, by omega⟩

private theorem exists_pointsAt_of_shown {text : Text} {d : Diagnostic}
    (h : Shown (sourceLines text) d) : ∃ l ∈ sourceLines text, d.PointsAt l := by
  have habove : ∀ l ∈ aboveEnd (sourceLines text), l ∈ sourceLines text :=
    fun l hl => List.takeWhile_subset _ hl
  have hbelow : ∀ l ∈ belowEnd (sourceLines text), l ∈ sourceLines text :=
    fun l hl => ((List.drop_suffix _ _).trans (List.dropWhile_suffix _)).subset hl
  obtain ⟨last, hlast, hindex⟩ := exists_last_line text
  have hmissing {p : Problem} (hp : p.site ≠ .statement)
      (hp' : p = .missingEnd ∨ p = .missingHalt) :
      ∃ l ∈ sourceLines text,
        (⟨.wholeLine ((sourceLines text).length - 1 : Int), p⟩ : Diagnostic).PointsAt l := by
    rw [← hindex]
    exact ⟨last, hlast, Line.pointsAt_wholeRange hp (.inr hp')⟩
  cases h with
  | @statement l p about above stated =>
      exact ⟨l, habove l above, Line.pointsAt_statementRange stated p⟩
  | @belowEnd l below stated =>
      exact ⟨l, hbelow l below, Line.pointsAt_wholeRange (by decide) (.inl stated)⟩
  | missingEnd none => exact hmissing (by decide) (.inl rfl)
  | missingHalt => exact hmissing (by decide) (.inr rfl)
  | @cell w p about placed =>
      have hstated := isBlank_of_mem_place (fun l hl => by simp [Line.statementStep, hl]) placed
      exact ⟨w.line, mem_of_mem_place placed,
        Line.pointsAt_wholeRange (by rw [about]; decide) (.inl hstated)⟩
  | @origin earlier later l first split states before repeated =>
      have hmem : l ∈ sourceLines text := by
        rw [split]
        exact List.mem_append_right _ List.mem_cons_self
      have hstated : l.isBlank = false := by
        by_contra hblank
        rw [Line.states_of_isBlank (by simpa using hblank)] at states
        cases states
      exact ⟨l, hmem, Line.pointsAt_wholeRange (by simp [Problem.site]) (.inl hstated)⟩
  | @label w p about placed =>
      have hstated := isBlank_of_mem_place (fun l hl => by simp [Line.labelStep, hl]) placed
      exact ⟨w.line, mem_of_mem_place placed,
        Line.pointsAt_wholeRange (by rw [about]; decide) (.inl hstated)⟩

namespace Analysis

/-- Every diagnostic of an analysis points at the line of the document with its number. -/
theorem diagnostics_point_at_lines {limit : Int} {text : Text} {a : Analysis}
    (h : run limit text = .ok a) :
    ∀ d ∈ a.diagnostics, ∃ l, (sourceLines text)[l.index]? = some l ∧
      l.index < (Text.lines text).length ∧ d.PointsAt l := by
  intro d hd
  obtain ⟨l, hl, hpoints⟩ := exists_pointsAt_of_shown (shown_of_run h d hd)
  have hindex := getElem?_of_mem_sourceLines hl
  have hlength := (List.getElem?_eq_some_iff.mp hindex).1
  rw [length_sourceLines] at hlength
  exact ⟨l, hindex, hlength, hpoints⟩

/-- A labelled statement with a misspelt word and a comment, a cell, an unused label, and what is
missing, shown on a last line that is blank. -/
theorem diagnostics_point_at_lines_blank :
    let text : Text := .ofString "X, \t LAD 5 / load\n CLA 7\n"
    ∃ a, run 100 text = .ok a ∧
      a.diagnostics.map (fun d => (d.line, d.range.start.character)) =
        [(0, 5), (2, 0), (2, 0), (1, 0), (0, 0)] ∧
      ∀ d ∈ a.diagnostics, ∃ l, (sourceLines text)[l.index]? = some l ∧
        l.index < (Text.lines text).length ∧ d.PointsAt l := by
  intro text
  have heval : (run 100 text).toOption.map (fun a => a.diagnostics.map fun d =>
      (d.line, d.range.start.character)) = some [(0, 5), (2, 0), (2, 0), (1, 0), (0, 0)] := by
    decide +kernel
  cases hrun : run 100 text with
  | error f =>
      rw [hrun] at heval
      cases heval
  | ok a =>
      rw [hrun] at heval
      simp only [Except.toOption, Option.map_some, Option.some.injEq] at heval
      exact ⟨a, rfl, heval, diagnostics_point_at_lines hrun⟩

end Analysis

end TeachAsm
