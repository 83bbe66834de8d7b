import TeachAsm.Proofs.Silence

/-!
# Well-formed programs

What a silent analysis promises. Some scans can be led astray: by a labelled line that mentions
`ORG` or `END`, or by a cell that holds them. Without those, silence says of every line, every label
and every memory reference that it is in order.
-/

namespace TeachAsm

private theorem exists_end {lines : List Line} (h : ∃ l ∈ lines, l.states .END = true) :
    ∃ e, e.states .END = true ∧ lines = aboveEnd lines ++ e :: belowEnd lines := by
  have hsplit := List.takeWhile_append_dropWhile (p := fun l => !l.states .END) (l := lines)
  cases hrest : lines.dropWhile (fun l => !l.states .END) with
  | nil =>
      obtain ⟨l, hl, hend⟩ := h
      have hnone := List.dropWhile_eq_nil_iff.mp hrest l hl
      simp [hend] at hnone
  | cons e below =>
      refine ⟨e, by simpa using Text.head_dropWhile hrest, ?_⟩
      rw [belowEnd, hrest, List.drop_one, List.tail_cons, aboveEnd, ← hrest, hsplit]

/-- The lines of a program, its labels and its memory references are in order. -/
structure WellFormed (lines : List Line) (image : Image) : Prop where
  /-- There is a first `END`; below it stands nothing, and above it only mnemonics and an `HLT`. -/
  ended : ∃ above e below, lines = above ++ e :: below ∧ e.states .END = true ∧
    (∀ l ∈ above, l.states .END = false) ∧ (∀ l ∈ below, l.isBlank = true) ∧
    (∃ l ∈ above, l.states .HLT = true) ∧
    ∀ l ∈ above, l.isBlank = false → l.mnemonic?.isSome = true
  origins : ∀ l ∈ lines, l.states .ORG = true →
    l.words.length = 2 ∧ (address? l.operandWord).isSome = true
  distinctOrigins : ((lines.filter (·.states .ORG)).map fun l => address? l.operandWord).Nodup
  decimals : ∀ l ∈ lines, l.states .DEC = true → ∃ n, decimalWord l.operand = .ok (some n)
  hexadecimals : ∀ l ∈ lines, l.states .HEX = true → ∃ n, hexWord? l.operand = some n
  marks : ∀ l ∈ lines, l.isBlank = false → l.isReference = true →
    ∀ word, l.words[2]? = some word → word = indirectMark
  labels : ∀ l ∈ lines, l.isLabelled = true → isLabel l.label = true
  distinctLabels : ((lines.filter Line.isLabelled).map Line.label).Nodup
  usedLabels : ∀ l ∈ lines, l.isLabelled = true →
    ∃ l' ∈ lines, l'.isBlank = false ∧ l'.isReference = true ∧ l'.operandWord = l.label
  references : ∀ e ∈ image.cells, Family.memoryReference.hasWord e.2.mnemonic = true →
    e.2.kind = .reference ∧ ∃ target, e.2.target = some target ∧
      image.LeadsToLiteral target e.2.indirect

private theorem Line.kind_cell_of_isReference {l : Line} (h : l.isReference = true)
    (symbols : Table Text Nat) :
    (l.cell symbols).kind = .reference ∨ (l.cell symbols).kind = .unresolved := by
  cases htarget : l.target? symbols <;> simp [cell, h, htarget]

private theorem leadsToLiteral_of_silent {lines : List Line} {r : Resolution} {e : Nat × Cell}
    (he : e ∈ (load lines r).image.cells)
    (hword : Family.memoryReference.hasWord e.2.mnemonic = true)
    (hform : e.2.formProblem? = none)
    (hlogic : (load lines r).image.logicProblem e.1 e.2 = .ok none) :
    e.2.kind = .reference ∧ ∃ target, e.2.target = some target ∧
      (load lines r).image.LeadsToLiteral target e.2.indirect := by
  obtain ⟨l, -, hcell⟩ := exists_line_of_mem_cells he
  have hreference : l.isReference = true := by
    rw [Line.isReference, ← l.cell_mnemonic r.symbols, ← hcell]
    exact hword
  rcases l.kind_cell_of_isReference hreference r.symbols with hkind | hkind
  · obtain ⟨target, htarget⟩ := Line.exists_target_of_reference hkind
    rw [← hcell] at hkind htarget
    exact ⟨hkind, target, htarget, (Image.logicProblem_of_reference e.1 hkind htarget).mp hlogic⟩
  · rw [← hcell] at hkind
    simp [Cell.formProblem?, hkind] at hform

private theorem Line.isLabelled_iff {l : Line} :
    l.isLabelled = true ↔ l.isBlank = false ∧ l.hasLabel = true := by
  simp [isLabelled]

private theorem Line.isBlank_of_occupies {l : Line} (h : l.occupies = true) :
    l.isBlank = false := by
  by_contra hblank
  rw [Bool.not_eq_false] at hblank
  simp [occupies, statementStep, hblank] at h

private theorem Line.not_isLabelled_of_end {l : Line} (hcontested : l.isContested = false)
    (h : l.states .END = true) : l.isLabelled = false := by
  by_contra hlabelled
  have hoccupies := occupies_of_isLabelled hcontested (by simpa using hlabelled)
  rw [occupies, statementStep_eq_stop_iff.mpr h] at hoccupies
  cases hoccupies

section

variable {lines : List Line} (hsource : sourceFindings lines = [])

include hsource

private theorem operandProblem_of_silent {l : Line} (hl : l ∈ lines) (hblank : l.isBlank = false)
    (hmnemonic : l.mnemonic? ≠ some .END) : l.operandProblem = .ok none := by
  obtain ⟨hoperands, hbelow, hsomeEnd, -⟩ := sourceFindings_eq_nil_iff.mp hsource
  obtain ⟨e, hend, hlines⟩ := exists_end hsomeEnd
  rw [hlines] at hl
  rcases List.mem_append.mp hl with hl | hl
  · exact hoperands l hl hblank
  · rcases List.mem_cons.mp hl with rfl | hl
    · exact absurd (Line.states_iff.mp hend).2 hmnemonic
    · rw [hbelow l hl] at hblank
      cases hblank

private theorem operandProblem_of_states {l : Line} {m : Mnemonic} (hl : l ∈ lines)
    (hstates : l.states m = true) (hm : m ≠ .END) :
    l.mnemonic? = some m ∧ l.operandProblem = .ok none := by
  obtain ⟨hblank, hmnemonic⟩ := Line.states_iff.mp hstates
  exact ⟨hmnemonic, operandProblem_of_silent hsource hl hblank (by simpa [hmnemonic] using hm)⟩

private theorem origins_of_silent : ∀ l ∈ lines, l.states .ORG = true →
    l.words.length = 2 ∧ (address? l.operandWord).isSome = true := by
  intro l hl horg
  obtain ⟨hmnemonic, hproblem⟩ := operandProblem_of_states hsource hl horg (by decide)
  exact (Line.operandProblem_of_origin hmnemonic).mp hproblem

private theorem distinctOrigins_of_silent (h : originFindings [] lines = []) :
    ((lines.filter (·.states .ORG)).map fun l => address? l.operandWord).Nodup := by
  have hnodup := (originFindings_eq_nil_iff.mp h).1
  rw [List.Nodup, List.pairwise_filterMap] at hnodup
  rw [List.Nodup, List.pairwise_map, List.pairwise_filter]
  refine hnodup.imp_of_mem ?_
  intro l l' hl hl' hdistinct horg horg' hsame
  obtain ⟨-, hsome⟩ := origins_of_silent hsource l hl horg
  obtain ⟨a, ha⟩ := Option.isSome_iff_exists.mp hsome
  exact hdistinct a (Line.origin?_of_address? horg ha) a
    (Line.origin?_of_address? horg' (hsame ▸ ha)) rfl

private theorem filter_isLabelled (hcontested : ∀ l ∈ lines, l.isContested = false) :
    lines.filter Line.isLabelled =
      ((aboveEnd lines).filter Line.occupies).filter Line.hasLabel := by
  obtain ⟨-, hbelow, hsomeEnd, -⟩ := sourceFindings_eq_nil_iff.mp hsource
  obtain ⟨e, hend, hlines⟩ := exists_end hsomeEnd
  have habove : ∀ l ∈ aboveEnd lines, l ∈ lines :=
    (List.takeWhile_prefix _ : aboveEnd lines <+: lines).subset
  have he : e ∈ lines := by
    rw [hlines]
    exact List.mem_append_right _ List.mem_cons_self
  have hnone : (belowEnd lines).filter Line.isLabelled = [] := by
    rw [List.filter_eq_nil_iff]
    intro l hl
    simp [Line.isLabelled, hbelow l hl]
  calc
    lines.filter Line.isLabelled
      = (aboveEnd lines ++ e :: belowEnd lines).filter Line.isLabelled := by rw [← hlines]
    _ = (aboveEnd lines).filter Line.isLabelled := by
      rw [List.filter_append, List.filter_cons_of_neg, hnone, List.append_nil]
      simp [Line.not_isLabelled_of_end (hcontested e he) hend]
    _ = (aboveEnd lines).filter fun l => l.hasLabel && l.occupies := by
      refine List.filter_congr fun l hl => ?_
      cases hlabelled : l.isLabelled with
      | true =>
          have hoccupies := Line.occupies_of_isLabelled (hcontested l (habove l hl)) hlabelled
          have hlabel := (Line.isLabelled_iff.mp hlabelled).2
          rw [hoccupies, hlabel]
          rfl
      | false =>
          cases hoccupies : l.occupies with
          | false => simp
          | true =>
              have hblank := Line.isBlank_of_occupies hoccupies
              rw [Line.isLabelled, hblank, Bool.not_false, Bool.true_and] at hlabelled
              rw [hlabelled]
              rfl
    _ = ((aboveEnd lines).filter Line.occupies).filter Line.hasLabel := by rw [List.filter_filter]

/-- The tables of the label walk lose entries, but a report that is empty is so for all labelled
lines. -/
private theorem labels_of_silent (hcontested : ∀ l ∈ lines, l.isContested = false)
    (h : labelReport (resolve lines) (load lines (resolve lines)).unused = []) :
    (∀ l ∈ lines, l.isLabelled = true → isLabel l.label = true) ∧
      ((lines.filter Line.isLabelled).map Line.label).Nodup ∧
      ∀ l ∈ lines, l.isLabelled = true → ∃ l' ∈ lines, l'.isBlank = false ∧
        l'.isReference = true ∧ l'.operandWord = l.label := by
  obtain ⟨hvalid, hnodup, hused⟩ := (labelReport_load_eq_nil_iff hcontested).mp h
  have hfilter := filter_isLabelled hsource hcontested
  have hdeclared : (lines.filter Line.isLabelled).map Line.label =
      declaredLabels ((aboveEnd lines).filter Line.occupies) := by
    rw [hfilter, declaredLabels]
    refine congrArg _ (List.filter_congr fun l hl => ?_)
    cases hlabel : l.hasLabel with
    | false => simp [Line.declares, hlabel]
    | true => simp [Line.declares, hlabel, hvalid l hl hlabel]
  refine ⟨?_, hdeclared ▸ hnodup, ?_⟩
  · intro l hl hlabelled
    have hplaced : l ∈ (lines.filter Line.isLabelled) := List.mem_filter.mpr ⟨hl, hlabelled⟩
    rw [hfilter, List.mem_filter] at hplaced
    exact hvalid l hplaced.1 hplaced.2
  · intro l hl hlabelled
    have hlabel : l.label ∈ (lines.filter Line.isLabelled).map Line.label :=
      List.mem_map_of_mem (List.mem_filter.mpr ⟨hl, hlabelled⟩)
    rw [hdeclared] at hlabel
    obtain ⟨l', hl', hreference, hword⟩ := hused _ hlabel
    obtain ⟨habove, hoccupies⟩ := List.mem_filter.mp hl'
    have hmem : l' ∈ lines := (List.takeWhile_prefix _ : aboveEnd lines <+: lines).subset habove
    exact ⟨l', hmem, Line.isBlank_of_occupies hoccupies, hreference, hword⟩

end

namespace Analysis

/-- If an analysis with room for a finding reports nothing, no labelled line mentions `ORG` or
`END`, and no cell does, then the program is well formed. -/
theorem wellFormed_of_analyze {limit : Int} {text : Text} (hlimit : 2 ≤ limit) (htext : text ≠ [])
    (h : analyze limit text = .ok [])
    (hcontested : ∀ l ∈ sourceLines text, l.isContested = false)
    (hcells : ∀ e ∈ (load (sourceLines text) (resolve (sourceLines text))).image.cells,
      e.2.mentionsOrigin = false ∧ e.2.endsScan = false) :
    WellFormed (sourceLines text)
      (load (sourceLines text) (resolve (sourceLines text))).image := by
  obtain ⟨hfindings, hlabels⟩ := silent_of_analyze hlimit h
  have hnonempty : text.isEmpty = false := by simpa using htext
  simp only [textFindings, textLabels, hnonempty, Bool.false_eq_true, if_false] at hfindings hlabels
  -- From here on each pass says what its silence means.
  generalize sourceLines text = lines at *
  simp only [findings, formFindings, logicFindings, List.append_eq_nil_iff] at hfindings
  obtain ⟨hspelling, ⟨hsource, hform⟩, horigins, hlogic⟩ := hfindings
  rw [spellingFindings_eq_nil_iff] at hspelling
  rw [cellFormFindings_eq_nil_iff hcells] at hform
  rw [cellLogicFindings_eq_nil_iff fun e he => (hcells e he).2] at hlogic
  obtain ⟨-, hbelow, hsomeEnd, hhalt⟩ := sourceFindings_eq_nil_iff.mp hsource
  obtain ⟨e, hend, hlines⟩ := exists_end hsomeEnd
  obtain ⟨hvalid, hnodup, hused⟩ := labels_of_silent hsource hcontested hlabels
  exact {
    ended := ⟨aboveEnd lines, e, belowEnd lines, hlines, hend,
      fun l hl => states_end_of_mem_aboveEnd hl, hbelow, hhalt, hspelling⟩
    origins := origins_of_silent hsource
    distinctOrigins := distinctOrigins_of_silent hsource horigins
    decimals := by
      intro l hl hstates
      obtain ⟨hmnemonic, hproblem⟩ := operandProblem_of_states hsource hl hstates (by decide)
      exact (Line.operandProblem_of_decimal hmnemonic).mp hproblem
    hexadecimals := by
      intro l hl hstates
      obtain ⟨hmnemonic, hproblem⟩ := operandProblem_of_states hsource hl hstates (by decide)
      exact (Line.operandProblem_of_hexadecimal hmnemonic).mp hproblem
    marks := by
      intro l hl hblank hreference
      refine (Line.operandProblem_of_reference hreference).mp
        (operandProblem_of_silent hsource hl hblank ?_)
      intro hmnemonic
      rw [Line.isReference, Family.hasWord, ← Line.mnemonic?, hmnemonic] at hreference
      cases hreference
    labels := hvalid
    distinctLabels := hnodup
    usedLabels := hused
    references := fun e he hword => leadsToLiteral_of_silent he hword (hform e he) (hlogic e he) }

/-- A program that refers to a literal through a labelled pointer, with the least limit that leaves
room for a finding. -/
theorem wellFormed_of_analyze_pointer :
    let text : Text := .ofString "ORG 10\n LDA P I / indirect\n HLT\nP, HEX 13\n DEC -7\nEND\n"
    let lines := sourceLines text
    let image := (load lines (resolve lines)).image
    analyze 2 text = .ok [] ∧ (∀ l ∈ lines, l.isContested = false) ∧
      (∀ e ∈ image.cells, e.2.mentionsOrigin = false ∧ e.2.endsScan = false) ∧
      WellFormed lines image := by
  intro text lines image
  have hsilent : analyze 2 text = .ok [] := by decide +kernel
  have hcontested : ∀ l ∈ lines, l.isContested = false := by decide +kernel
  have hcells : ∀ e ∈ image.cells, e.2.mentionsOrigin = false ∧ e.2.endsScan = false := by
    decide +kernel
  exact ⟨hsilent, hcontested, hcells,
    wellFormed_of_analyze (by decide) (by decide) hsilent hcontested hcells⟩

end Analysis

end TeachAsm
