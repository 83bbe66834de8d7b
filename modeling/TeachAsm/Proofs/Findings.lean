import TeachAsm.Analysis

/-!
# Findings

What the scans of an analysis meet when no budget stops them: problems and failures, in order. A
ledger takes in a first part of a list of findings. Each scan, with its own way of leaving early,
enters its findings, so an analysis enters one list from its first pass to its last.
-/

namespace TeachAsm

/-- A diagnostic, or a failure that ends the analysis. -/
inductive Finding where
  | problem (d : Diagnostic)
  | fault (f : Fault)
deriving DecidableEq

def Finding.ofCheck (range : Range) : Except Fault (Option Problem) → List Finding
  | .error f => [.fault f]
  | .ok (some p) => [.problem ⟨range, p⟩]
  | .ok none => []

namespace Ledger

/-- Enter findings as long as the budget lasts. A failure counts only if the budget lasts up to
it. -/
def enter : Ledger → List Finding → Except Fault Ledger
  | ledger, [] => .ok ledger
  | ledger, .problem d :: rest =>
      if ledger.exhausted then .ok ledger else (ledger.emit d).enter rest
  | ledger, .fault f :: _ => if ledger.exhausted then .ok ledger else .error f

@[simp] theorem enter_nil (ledger : Ledger) : ledger.enter [] = .ok ledger := rfl

private theorem emit_of_exhausted {ledger : Ledger} (h : ledger.exhausted = true) (d : Diagnostic) :
    ledger.emit d = ledger := by
  simp [emit, emit?, h]

private theorem report_of_exhausted {ledger : Ledger} (h : ledger.exhausted = true) (range : Range)
    (p : Option Problem) : ledger.report range p = ledger := by
  cases p with
  | none => rfl
  | some p => exact emit_of_exhausted h _

private theorem emit?_of_not_exhausted {ledger : Ledger} (h : ledger.exhausted = false)
    (d : Diagnostic) : ledger.emit? d = some (ledger.emit d) := by
  simp [emit, emit?, h]

theorem enter_of_exhausted {ledger : Ledger} (h : ledger.exhausted = true)
    (findings : List Finding) : ledger.enter findings = .ok ledger := by
  cases findings with
  | nil => rfl
  | cons finding rest => cases finding <;> simp [enter, h]

theorem enter_problem (ledger : Ledger) (d : Diagnostic) (rest : List Finding) :
    ledger.enter (.problem d :: rest) = (ledger.emit d).enter rest := by
  by_cases h : ledger.exhausted = true
  · rw [emit_of_exhausted h, enter_of_exhausted h, enter_of_exhausted h]
  · simp [enter, h]

private theorem enter_append (ledger : Ledger) (first second : List Finding) :
    ledger.enter (first ++ second) = (ledger.enter first).bind (·.enter second) := by
  induction first generalizing ledger with
  | nil => rfl
  | cons finding rest ih =>
      cases finding with
      | problem d => rw [List.cons_append, enter_problem, enter_problem, ih]
      | fault f =>
          by_cases h : ledger.exhausted = true
          · rw [enter_of_exhausted h, enter_of_exhausted h]
            exact (enter_of_exhausted h second).symm
          · simp [enter, h, Except.bind]

private theorem enter_ofCheck {ledger : Ledger} (h : ledger.exhausted = false) (range : Range)
    (check : Except Fault (Option Problem)) (rest : List Finding) :
    ledger.enter (Finding.ofCheck range check ++ rest) =
      check.bind fun p => (ledger.report range p).enter rest := by
  cases check with
  | error f => simp [Finding.ofCheck, enter, h, Except.bind]
  | ok p =>
      cases p with
      | none => rfl
      | some p => exact enter_problem ledger _ rest

theorem enter_ofCheck_ok (ledger : Ledger) (range : Range) (p : Option Problem)
    (rest : List Finding) :
    ledger.enter (Finding.ofCheck range (.ok p) ++ rest) = (ledger.report range p).enter rest := by
  cases p with
  | none => rfl
  | some p => exact enter_problem ledger _ rest

/-- What a ledger holds already stays in front and has no bearing on what is entered. -/
theorem enter_diagnostics (b : Budget) (earlier : List Diagnostic) (findings : List Finding) :
    (⟨b, earlier⟩ : Ledger).enter findings =
      ((⟨b, []⟩ : Ledger).enter findings).map
        fun ledger => ⟨ledger.budget, earlier ++ ledger.diagnostics⟩ := by
  induction findings generalizing b earlier with
  | nil => simp [Except.map]
  | cons finding rest ih =>
      cases h : b.exhausted with
      | true =>
          have hfull (ds : List Diagnostic) : (⟨b, ds⟩ : Ledger).exhausted = true := h
          rw [enter_of_exhausted (hfull earlier), enter_of_exhausted (hfull [])]
          simp [Except.map]
      | false =>
          cases finding with
          | fault f => simp [enter, exhausted, h, Except.map]
          | problem d =>
              simp only [enter, exhausted, h, emit, emit?, Bool.false_eq_true, if_false,
                Option.getD_some, List.nil_append]
              rw [ih b.spend (earlier ++ [d]), ih b.spend [d]]
              cases (⟨b.spend, []⟩ : Ledger).enter rest <;> simp [Except.map]

end Ledger

def aboveEnd (lines : List Line) : List Line := lines.takeWhile (fun l => !l.states .END)

def belowEnd (lines : List Line) : List Line := (lines.dropWhile (fun l => !l.states .END)).drop 1

namespace Line

def isMisspelt (l : Line) : Bool := !l.isBlank && l.mnemonic?.isNone

def operandFindings (l : Line) : List Finding :=
  if l.isBlank then [] else Finding.ofCheck l.statementRange l.operandProblem

theorem states_of_isBlank {l : Line} (h : l.isBlank = true) (m : Mnemonic) :
    l.states m = false := by
  simp [states, h]

theorem states_of_not_isBlank {l : Line} (h : l.isBlank = false) (m : Mnemonic) :
    l.states m = (l.mnemonic? == some m) := by
  simp [states, h]

end Line

section

variable {l : Line} (rest : List Line)

theorem aboveEnd_cons_of_end (h : l.states .END = true) : aboveEnd (l :: rest) = [] := by
  simp [aboveEnd, h]

theorem aboveEnd_cons (h : l.states .END = false) :
    aboveEnd (l :: rest) = l :: aboveEnd rest := by
  simp [aboveEnd, h]

theorem belowEnd_cons_of_end (h : l.states .END = true) : belowEnd (l :: rest) = rest := by
  simp [belowEnd, h]

theorem belowEnd_cons (h : l.states .END = false) : belowEnd (l :: rest) = belowEnd rest := by
  simp [belowEnd, h]

end

def spellingFindings (lines : List Line) : List Finding :=
  ((aboveEnd lines).filter Line.isMisspelt).map
    (fun l => .problem ⟨l.statementRange, .unknownKeyword l.mnemonic⟩)

theorem spellingFindings_cons {l : Line} (rest : List Line) (h : l.states .END = false) :
    spellingFindings (l :: rest) =
      (if l.isMisspelt then [.problem ⟨l.statementRange, .unknownKeyword l.mnemonic⟩] else []) ++
        spellingFindings rest := by
  rw [spellingFindings, aboveEnd_cons rest h, List.filter_cons]
  split <;> rfl

private theorem enter_spellingFindings (ledger : Ledger) (lines : List Line) :
    ledger.enter (spellingFindings lines) = .ok (checkSpelling ledger lines) := by
  induction lines generalizing ledger with
  | nil => rfl
  | cons l rest ih =>
      rw [checkSpelling]
      by_cases hx : ledger.exhausted = true
      · rw [Ledger.enter_of_exhausted hx, if_pos hx]
      rw [if_neg hx]
      cases hb : l.isBlank with
      | true =>
          rw [spellingFindings_cons rest (Line.states_of_isBlank hb .END)]
          simpa [Line.isMisspelt, hb] using ih ledger
      | false =>
          have hstates := Line.states_of_not_isBlank hb .END
          cases hm : l.mnemonic? with
          | none =>
              rw [spellingFindings_cons rest (by simp [hstates, hm])]
              simpa [Line.isMisspelt, hb, hm, Ledger.enter_problem] using ih _
          | some m =>
              by_cases he : m = .END
              · subst he
                have hend : l.states .END = true := by simp [hstates, hm]
                rw [spellingFindings, aboveEnd_cons_of_end rest hend]
                rfl
              · rw [spellingFindings_cons rest (by simp [hstates, hm, he])]
                simpa [Line.isMisspelt, hb, hm, he] using ih ledger

def belowFindings (lines : List Line) : List Finding :=
  (lines.filter (fun l => !l.isBlank)).map (fun l => .problem ⟨l.wholeRange, .belowEnd⟩)

private theorem enter_belowFindings (ledger : Ledger) (lines : List Line) :
    ledger.enter (belowFindings lines) = .ok (reportBelowEnd ledger lines) := by
  induction lines generalizing ledger with
  | nil => rfl
  | cons l rest ih =>
      rw [reportBelowEnd]
      cases hb : l.isBlank with
      | true =>
          have hcons : belowFindings (l :: rest) = belowFindings rest := by
            simp [belowFindings, hb]
          rw [hcons]
          exact ih ledger
      | false =>
          have hcons : belowFindings (l :: rest) =
              .problem ⟨l.wholeRange, .belowEnd⟩ :: belowFindings rest := by
            simp [belowFindings, hb]
          rw [hcons]
          cases hx : ledger.exhausted with
          | true => simp [Ledger.enter, Ledger.emit?, hx]
          | false =>
              rw [Ledger.enter_problem, Ledger.emit?_of_not_exhausted hx]
              exact ih _

/-- The findings about the source lines: operands above `END`, statements below it, and a missing
`END` or `HLT`, where a scan may have met one before. -/
def scanFindings (last : Range) (seenEnd seenHalt : Bool) (lines : List Line) : List Finding :=
  (aboveEnd lines).flatMap Line.operandFindings ++ (belowFindings (belowEnd lines) ++
    (Finding.ofCheck last (.ok
        (if seenEnd || lines.any (·.states .END) then none else some .missingEnd)) ++
      Finding.ofCheck last (.ok
        (if seenHalt || (aboveEnd lines).any (·.states .HLT) then none else some .missingHalt))))

def sourceFindings (lines : List Line) : List Finding :=
  scanFindings (.wholeLine (lines.length - 1 : Int)) false false lines

theorem scanFindings_cons (last : Range) (seenEnd seenHalt : Bool) {l : Line} (rest : List Line)
    (h : l.states .END = false) :
    scanFindings last seenEnd seenHalt (l :: rest) =
      l.operandFindings ++ scanFindings last seenEnd (seenHalt || l.states .HLT) rest := by
  simp [scanFindings, aboveEnd_cons rest h, belowEnd_cons rest h, h, Bool.or_assoc]

theorem scanFindings_cons_of_end (last : Range) (seenEnd seenHalt : Bool) {l : Line}
    (rest : List Line) (h : l.states .END = true) :
    scanFindings last seenEnd seenHalt (l :: rest) = belowFindings rest ++
      Finding.ofCheck last (.ok (if seenHalt then none else some .missingHalt)) := by
  simp [scanFindings, aboveEnd_cons_of_end rest h, belowEnd_cons_of_end rest h, h,
    Finding.ofCheck]

private theorem Line.operandProblem_of_halt {l : Line} (h : l.mnemonic? = some .HLT) :
    l.operandProblem = .ok none := by
  simp [operandProblem, h, Mnemonic.family]

/-- A scan that the budget cuts short has not met the `END` and the `HLT` that follow, and by then
the budget keeps it from reporting them. -/
private theorem SourceScan.close_of_exhausted {s : SourceScan} (h : s.ledger.exhausted = true)
    (last : Range) : s.close last = s.ledger := by
  rw [close, Ledger.report_of_exhausted h, Ledger.report_of_exhausted h]

private theorem enter_scanFindings (s : SourceScan) (last : Range) (lines : List Line) :
    s.ledger.enter (scanFindings last s.seenEnd s.seenHalt lines) =
      (scanSource s lines).map (·.close last) := by
  induction lines generalizing s with
  | nil =>
      have hnil : scanFindings last s.seenEnd s.seenHalt [] =
          Finding.ofCheck last (.ok (if s.seenEnd then none else some .missingEnd)) ++
            (Finding.ofCheck last (.ok (if s.seenHalt then none else some .missingHalt)) ++
              []) := by
        simp [scanFindings, aboveEnd, belowEnd, belowFindings]
      rw [hnil, Ledger.enter_ofCheck_ok, Ledger.enter_ofCheck_ok]
      rfl
  | cons l rest ih =>
      rw [scanSource]
      -- A scan that breaks off may have missed END and HLT, but then it reports neither.
      by_cases hx : s.ledger.exhausted = true
      · rw [Ledger.enter_of_exhausted hx, if_pos hx]
        simp [Except.map, SourceScan.close_of_exhausted hx]
      rw [if_neg hx]
      have hx' : s.ledger.exhausted = false := by simpa using hx
      cases hb : l.isBlank with
      | true =>
          rw [scanFindings_cons _ _ _ _ (Line.states_of_isBlank hb .END),
            Line.states_of_isBlank hb .HLT]
          simpa [Line.operandFindings, hb] using ih s
      | false =>
          have hfind : l.operandFindings = Finding.ofCheck l.statementRange l.operandProblem := by
            simp [Line.operandFindings, hb]
          have hend := Line.states_of_not_isBlank hb .END
          have hhalt := Line.states_of_not_isBlank hb .HLT
          by_cases he : l.mnemonic? = some .END
          · rw [scanFindings_cons_of_end _ _ _ _ (by simp [hend, he]), Ledger.enter_append,
              enter_belowFindings]
            simp only [he, Bool.false_eq_true, if_false, Except.map, Except.bind]
            rw [← List.append_nil (Finding.ofCheck _ _), Ledger.enter_ofCheck_ok]
            rfl
          rw [scanFindings_cons _ _ _ _ (by simp [hend, he]), hfind, Ledger.enter_ofCheck hx']
          by_cases hh : l.mnemonic? = some .HLT
          · rw [Line.operandProblem_of_halt hh]
            simpa [hhalt, hh, Except.bind, Ledger.report] using ih { s with seenHalt := true }
          · have hseen : (s.seenHalt || l.states .HLT) = s.seenHalt := by simp [hhalt, hh]
            rw [hseen]
            cases hp : l.operandProblem with
            | error f => simp [Except.bind, Except.map]
            | ok p =>
                simpa [Except.bind, he, hh] using
                  ih { s with ledger := s.ledger.report l.statementRange p }

private theorem enter_sourceFindings (ledger : Ledger) (lines : List Line) :
    ledger.enter (sourceFindings lines) = checkSource ledger lines :=
  enter_scanFindings { ledger } _ lines

namespace Cell

/-- The scan of memory checks the form of the cell: it neither ends there nor looks for a jump. -/
def isChecked (c : Cell) : Bool := !c.endsScan && !c.mentionsOrigin

def formDiagnostic? (c : Cell) : Option Diagnostic := c.formProblem?.map fun p => ⟨c.range, p⟩

end Cell

def cellFormFindings : Nat → List (Nat × Cell) → List Finding
  | _, [] => []
  | first, (address, c) :: rest =>
    if address < first then cellFormFindings first rest
    else if c.endsScan then []
    else if c.mentionsOrigin then
      match originJump c.text with
      | .error f => [.fault f]
      | .ok none => []
      | .ok (some jump) =>
        if jump + 1 ≤ address then [] else cellFormFindings (jump + 1).toNat rest
    else Finding.ofCheck c.range (.ok c.formProblem?) ++ cellFormFindings first rest

theorem enter_cellFormFindings (ledger : Ledger) (first : Nat) (cells : List (Nat × Cell)) :
    ledger.enter (cellFormFindings first cells) = checkCellForms ledger first cells := by
  induction cells generalizing ledger first with
  | nil => rfl
  | cons e rest ih =>
      obtain ⟨address, c⟩ := e
      rw [checkCellForms, cellFormFindings]
      by_cases hlt : address < first
      · rw [if_pos hlt, if_pos hlt]
        exact ih ledger first
      rw [if_neg hlt, if_neg hlt]
      by_cases hx : ledger.exhausted = true
      · rw [Ledger.enter_of_exhausted hx]
        simp [hx]
      by_cases he : c.endsScan = true
      · simp [he]
      have hstop : ¬ (c.endsScan || ledger.exhausted) = true := by simp [he, hx]
      rw [if_neg he, if_neg hstop]
      by_cases ho : c.mentionsOrigin = true
      · rw [if_pos ho, if_pos ho]
        cases hj : originJump c.text with
        | error f => simp [Ledger.enter, hx]
        | ok jump? =>
            cases jump? with
            | none => rfl
            | some jump =>
                by_cases hjump : jump + 1 ≤ address
                · simp [hjump]
                · simpa [hjump] using ih ledger (jump + 1).toNat
      · rw [if_neg ho, if_neg ho, Ledger.enter_ofCheck_ok]
        exact ih _ first

def formFindings (lines : List Line) (image : Image) : List Finding :=
  sourceFindings lines ++ cellFormFindings 0 image.cells

private theorem enter_formFindings (ledger : Ledger) (lines : List Line) (image : Image) :
    ledger.enter (formFindings lines image) = checkForm ledger lines image := by
  rw [formFindings, Ledger.enter_append, enter_sourceFindings]
  simp only [enter_cellFormFindings]
  rfl

/-- The findings about origins; `seen` pairs origins with their first line. -/
def originFindings : List (Int × Nat) → List Line → List Finding
  | _, [] => []
  | seen, l :: rest =>
    match l.origin? with
    | none => originFindings seen rest
    | some origin =>
      match Table.find? origin seen with
      | none => originFindings (seen ++ [(origin, l.index + 1)]) rest
      | some firstLine =>
        .problem ⟨l.wholeRange, .duplicateOrigin firstLine⟩ :: originFindings seen rest

private theorem enter_originFindings (ledger : Ledger) (seen : List (Int × Nat))
    (lines : List Line) :
    ledger.enter (originFindings seen lines) = .ok (checkOrigins ledger seen lines) := by
  induction lines generalizing ledger seen with
  | nil => rfl
  | cons l rest ih =>
      rw [checkOrigins, originFindings]
      cases l.origin? with
      | none => exact ih ledger seen
      | some origin =>
          cases hseen : Table.find? origin seen with
          | none => simpa [hseen] using ih ledger _
          | some firstLine =>
              simp only [hseen]
              cases hx : ledger.exhausted with
              | true => simp [Ledger.enter, Ledger.emit?, hx]
              | false =>
                  rw [Ledger.enter_problem, Ledger.emit?_of_not_exhausted hx]
                  exact ih _ seen

def cellLogicFindings (image : Image) (cells : List (Nat × Cell)) : List Finding :=
  (cells.takeWhile (fun e => !e.2.endsScan)).flatMap
    (fun e => Finding.ofCheck e.2.range (image.logicProblem e.1 e.2))

theorem cellLogicFindings_cons (image : Image) {e : Nat × Cell} (rest : List (Nat × Cell))
    (h : e.2.endsScan = false) :
    cellLogicFindings image (e :: rest) =
      Finding.ofCheck e.2.range (image.logicProblem e.1 e.2) ++ cellLogicFindings image rest := by
  simp [cellLogicFindings, h]

private theorem enter_cellLogicFindings (image : Image) (ledger : Ledger)
    (cells : List (Nat × Cell)) :
    ledger.enter (cellLogicFindings image cells) = image.checkCellLogic ledger cells := by
  induction cells generalizing ledger with
  | nil => rfl
  | cons e rest ih =>
      obtain ⟨address, c⟩ := e
      rw [Image.checkCellLogic]
      by_cases hx : ledger.exhausted = true
      · rw [Ledger.enter_of_exhausted hx]
        simp [hx]
      by_cases he : c.endsScan = true
      · simp [cellLogicFindings, he]
      have hstop : ¬ (c.endsScan || ledger.exhausted) = true := by simp [he, hx]
      rw [cellLogicFindings_cons image rest (by simpa using he), if_neg hstop,
        Ledger.enter_ofCheck (by simpa using hx)]
      cases image.logicProblem address c with
      | error f => rfl
      | ok p => exact ih _

def logicFindings (lines : List Line) (image : Image) : List Finding :=
  originFindings [] lines ++ cellLogicFindings image image.cells

private theorem enter_logicFindings (ledger : Ledger) (lines : List Line) (image : Image) :
    ledger.enter (logicFindings lines image) = checkLogic ledger lines image := by
  rw [logicFindings, Ledger.enter_append, enter_originFindings]
  exact enter_cellLogicFindings image _ image.cells

namespace Analysis

def findings (lines : List Line) (image : Image) : List Finding :=
  spellingFindings lines ++ (formFindings lines image ++ logicFindings lines image)

/-- The gated diagnostics of an analysis and what it leaves of the budget. -/
def ledger (a : Analysis) : Ledger := ⟨a.budget, a.gated⟩

/-- The passes of an analysis enter their findings one after the other into one ledger. -/
theorem ledger_check (lines : List Line) (r : Resolution) (m : Memory) (budget : Budget) :
    (check lines r m budget).map ledger =
      ({ budget } : Ledger).enter (findings lines m.image) := by
  rw [findings, Ledger.enter_append, enter_spellingFindings]
  generalize hs : checkSpelling { budget } lines = spelling
  obtain ⟨b₁, ds₁⟩ := spelling
  have hcheck : check lines r m budget = (checkForm ⟨b₁, []⟩ lines m.image).bind fun form =>
      (checkLogic ⟨form.budget, []⟩ lines m.image).bind fun logic =>
        .ok { lines, resolution := r, memory := m, spelling := ds₁, form := form.diagnostics
              logic := logic.diagnostics, labels := labelReport r m.unused
              budget := logic.budget } := by
    simp only [check, hs]
    rfl
  rw [hcheck]
  simp only [Except.bind]
  rw [Ledger.enter_append, Ledger.enter_diagnostics, enter_formFindings]
  cases checkForm ⟨b₁, []⟩ lines m.image with
  | error f => rfl
  | ok form =>
      obtain ⟨b₂, ds₂⟩ := form
      simp only [Except.map, Except.bind]
      rw [Ledger.enter_diagnostics, enter_logicFindings]
      cases checkLogic ⟨b₂, []⟩ lines m.image with
      | error f => rfl
      | ok logic => rfl

end Analysis

end TeachAsm
