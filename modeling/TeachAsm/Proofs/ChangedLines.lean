import TeachAsm.Proofs.Positions

/-!
# Changed lines

Lines are read through their text, so lines with the same text are read alike, whatever numbers and
comments they have. A walk places them where it placed the old lines, and a scan makes the findings
that it made about the old lines, each shown at the new line.
-/

namespace TeachAsm

namespace Line

variable {l l' : Line} (h : l'.text = l.text)

include h

theorem isBlank_congr : l'.isBlank = l.isBlank := congrArg isBlankOrComment h

theorem hasLabel_congr : l'.hasLabel = l.hasLabel := by rw [hasLabel, h, ← hasLabel]

theorem column_congr : l'.column = l.column := by rw [column, h, ← column]

theorem stripped_congr : l'.stripped = l.stripped := congrArg Text.strip h

theorem label_congr : l'.label = l.label := by rw [label, stripped_congr h, ← label]

private theorem statement_congr : l'.statement = l.statement := by
  rw [statement, stripped_congr h, ← statement]

theorem words_congr : l'.words = l.words := congrArg Text.words (statement_congr h)

theorem mnemonic_congr : l'.mnemonic = l.mnemonic := by rw [mnemonic, words_congr h, ← mnemonic]

private theorem mnemonic?_congr : l'.mnemonic? = l.mnemonic? :=
  congrArg Mnemonic.ofWord? (mnemonic_congr h)

private theorem operand_congr : l'.operand = l.operand := by
  rw [operand, statement_congr h, mnemonic_congr h, ← operand]

theorem operandWord_congr : l'.operandWord = l.operandWord := by
  rw [operandWord, words_congr h, ← operandWord]

private theorem states_congr (m : Mnemonic) : l'.states m = l.states m := by
  rw [states, isBlank_congr h, mnemonic?_congr h, ← states]

theorem labelStep_congr : l'.labelStep = l.labelStep := by
  rw [labelStep, isBlank_congr h, label_congr h, stripped_congr h, ← labelStep]

theorem statementStep_congr : l'.statementStep = l.statementStep := by
  rw [statementStep, isBlank_congr h, mnemonic?_congr h, operandWord_congr h, ← statementStep]

theorem isReference_congr : l'.isReference = l.isReference :=
  congrArg Family.memoryReference.hasWord (mnemonic_congr h)

private theorem isMisspelt_congr : l'.isMisspelt = l.isMisspelt := by
  rw [isMisspelt, isBlank_congr h, mnemonic?_congr h, ← isMisspelt]

private theorem operandProblem_congr : l'.operandProblem = l.operandProblem := by
  simp only [operandProblem, mnemonic?_congr h, words_congr h, operandWord_congr h,
    operand_congr h]

theorem origin?_congr : l'.origin? = l.origin? := by
  rw [origin?, states_congr h, operand_congr h, ← origin?]

end Line

def Placement.map (change : Line → Line) (p : Placement) : Placement :=
  { p with line := change p.line }

/-- A walk that reads other lines as it reads the old ones places them where these were placed. -/
theorem place_map {change : Line → Line} {reading : Line → Step}
    (h : ∀ l, reading (change l) = reading l) (counter : Nat) (lines : List Line) :
    place reading counter (lines.map change) =
      (place reading counter lines).map (Placement.map change) := by
  induction lines generalizing counter with
  | nil => rfl
  | cons l rest ih =>
      rw [List.map_cons, place, place, h]
      cases reading l with
      | skip => exact ih counter
      | origin address => exact ih _
      | stop => rfl
      | occupy => exact congrArg _ (ih _)

/-- The lines keep their text, and a change of diagnostics shows at each new line what a scan of the
old lines shows at the old one. -/
structure Follows (moved : Diagnostic → Diagnostic) (change : Line → Line) (lines : List Line) :
    Prop where
  text : ∀ l, (change l).text = l.text
  statement : ∀ l ∈ lines, ∀ p : Problem, p.site = .statement →
    moved ⟨l.statementRange, p⟩ = ⟨(change l).statementRange, p⟩
  below : ∀ l ∈ lines, moved ⟨l.wholeRange, .belowEnd⟩ = ⟨(change l).wholeRange, .belowEnd⟩

namespace Follows

variable {moved : Diagnostic → Diagnostic} {change : Line → Line} {lines : List Line}
  (h : Follows moved change lines)

include h

private theorem aboveEnd_map : aboveEnd (lines.map change) = (aboveEnd lines).map change := by
  rw [aboveEnd, List.takeWhile_map, aboveEnd]
  congr 2
  funext l
  rw [Function.comp_apply, Line.states_congr (h.text l)]

private theorem belowEnd_map : belowEnd (lines.map change) = (belowEnd lines).map change := by
  rw [belowEnd, List.dropWhile_map, ← List.map_drop, belowEnd]
  congr 3
  funext l
  rw [Function.comp_apply, Line.states_congr (h.text l)]

theorem spellingFindings_map :
    spellingFindings (lines.map change) = (spellingFindings lines).map (Finding.map moved) := by
  have hmisspelt : Line.isMisspelt ∘ change = Line.isMisspelt :=
    funext fun l => Line.isMisspelt_congr (h.text l)
  rw [spellingFindings, h.aboveEnd_map, List.filter_map, hmisspelt, List.map_map, spellingFindings,
    List.map_map]
  apply List.map_congr_left
  intro l hl
  have hmem : l ∈ lines := List.takeWhile_subset _ (List.mem_filter.mp hl).1
  rw [Function.comp_apply, Function.comp_apply, Finding.map, h.statement l hmem _ rfl,
    Line.mnemonic_congr (h.text l)]

private theorem operandFindings_map {l : Line} (hl : l ∈ lines) :
    (change l).operandFindings = l.operandFindings.map (Finding.map moved) := by
  rw [Line.operandFindings, Line.operandFindings, Line.isBlank_congr (h.text l),
    Line.operandProblem_congr (h.text l)]
  split
  · rfl
  · exact (Finding.ofCheck_map fun p hp =>
      h.statement l hl p (Line.site_of_operandProblem hp)).symm

private theorem belowFindings_map : belowFindings ((belowEnd lines).map change) =
    (belowFindings (belowEnd lines)).map (Finding.map moved) := by
  have hstated : (fun l : Line => !l.isBlank) ∘ change = fun l => !l.isBlank := by
    funext l
    rw [Function.comp_apply, Line.isBlank_congr (h.text l)]
  rw [belowFindings, List.filter_map, hstated, List.map_map, belowFindings, List.map_map]
  apply List.map_congr_left
  intro l hl
  have hmem : l ∈ lines :=
    List.dropWhile_subset _ (List.mem_of_mem_drop (List.mem_filter.mp hl).1)
  rw [Function.comp_apply, Function.comp_apply, Finding.map, h.below l hmem]

theorem scanFindings_map {last last' : Range}
    (hlast : ∀ p : Problem, p.site = .document → moved ⟨last, p⟩ = ⟨last', p⟩)
    (seenEnd seenHalt : Bool) : scanFindings last' seenEnd seenHalt (lines.map change) =
      (scanFindings last seenEnd seenHalt lines).map (Finding.map moved) := by
  have hstates (m : Mnemonic) (ls : List Line) :
      (ls.map change).any (·.states m) = ls.any (·.states m) := by
    rw [List.any_map]
    congr 1
    exact funext fun l => Line.states_congr (h.text l) m
  have hoperands : ((aboveEnd lines).map change).flatMap Line.operandFindings =
      ((aboveEnd lines).flatMap Line.operandFindings).map (Finding.map moved) := by
    rw [List.flatMap_map, List.map_flatMap]
    apply List.flatMap_congr
    intro l hl
    exact h.operandFindings_map (List.takeWhile_subset _ hl)
  have hmissing {p : Problem} (hp : p.site = .document) (seen : Bool) :
      (Finding.ofCheck last (.ok (if seen then none else some p))).map (Finding.map moved) =
        Finding.ofCheck last' (.ok (if seen then none else some p)) := by
    apply Finding.ofCheck_map
    intro q hq
    cases seen <;> cases hq
    exact hlast p hp
  rw [scanFindings, h.aboveEnd_map, h.belowEnd_map, hoperands, hstates, hstates,
    h.belowFindings_map, scanFindings, List.map_append, List.map_append, List.map_append,
    hmissing rfl, hmissing rfl]

end Follows

end TeachAsm
