import TeachAsm.Proofs.Jumps
import TeachAsm.Proofs.Truncation

/-!
# The scan of memory

The check of the form of cells goes through memory by address and follows jumps that it reads out
of the text of cells. Here the scan is a relation that names every address it visits, written or
not. Each step goes up, so every scan ends, and what it reports comes from the visited cells in
the order of their addresses.
-/

namespace TeachAsm

section

variable {first : Nat} {cells : List (Nat × Cell)}

private theorem cellFormFindings_append {low : List (Nat × Cell)} (hlow : ∀ e ∈ low, e.1 < first)
    (high : List (Nat × Cell)) :
    cellFormFindings first (low ++ high) = cellFormFindings first high := by
  induction low with
  | nil => rfl
  | cons e rest ih =>
      rw [List.forall_mem_cons] at hlow
      rw [List.cons_append, cellFormFindings, if_pos hlow.1]
      exact ih hlow.2

private theorem cellFormFindings_succ (h : ∀ e ∈ cells, e.1 ≠ first) :
    cellFormFindings first cells = cellFormFindings (first + 1) cells := by
  induction cells with
  | nil => rfl
  | cons e rest ih =>
      obtain ⟨address, c⟩ := e
      rw [List.forall_mem_cons] at h
      have hskip : address < first + 1 ↔ address < first := by
        have hne : address ≠ first := h.1
        omega
      rw [cellFormFindings, cellFormFindings, ih h.2]
      simp only [hskip]

end

/-- What the scan finds at a cell, and what it finds later from the address at which it goes on. -/
def Cell.findingsThen (c : Cell) (address : Nat) (later : Nat → List Finding) : List Finding :=
  if c.endsScan then []
  else if c.mentionsOrigin then
    match originJump c.text with
    | .error f => [.fault f]
    | .ok none => []
    | .ok (some jump) => if jump + 1 ≤ address then [] else later (jump + 1).toNat
  else Finding.ofCheck c.range (.ok c.formProblem?) ++ later (address + 1)

namespace Image

def findingsFrom (image : Image) (address : Nat) : List Finding :=
  cellFormFindings address image.cells

variable (image : Image) {address : Nat}

private theorem findingsFrom_past (h : memorySize ≤ address) : image.findingsFrom address = [] := by
  have hlow : ∀ e ∈ image.cells, e.1 < address := by
    intro e he
    exact Nat.lt_of_lt_of_le (image.bounded e.1 (List.mem_map_of_mem he)) h
  have hpassed := cellFormFindings_append hlow []
  rw [List.append_nil] at hpassed
  exact hpassed

private theorem exists_split_of_mem {c : Cell} (h : (address, c) ∈ image.cells) :
    ∃ low high, image.cells = low ++ (address, c) :: high ∧ (∀ e ∈ low, e.1 < address) ∧
      ∀ e ∈ high, address < e.1 := by
  obtain ⟨low, high, hsplit⟩ := List.append_of_mem h
  have hordered := image.ascending
  rw [hsplit, List.pairwise_map, List.pairwise_append, List.pairwise_cons] at hordered
  refine ⟨low, high, hsplit, ?_, hordered.2.1.1⟩
  intro e he
  exact hordered.2.2 e he (address, c) List.mem_cons_self

private theorem findingsFrom_of_mem {c : Cell} (h : (address, c) ∈ image.cells) :
    image.findingsFrom address = c.findingsThen address image.findingsFrom := by
  obtain ⟨low, high, hsplit, hlow, hhigh⟩ := image.exists_split_of_mem h
  have hafter {first : Nat} (hfirst : address < first) :
      image.findingsFrom first = cellFormFindings first high := by
    rw [findingsFrom, hsplit, cellFormFindings_append fun e he => (hlow e he).trans hfirst,
      cellFormFindings, if_pos hfirst]
  have hnext : cellFormFindings address high = image.findingsFrom (address + 1) := by
    rw [hafter (Nat.lt_succ_self address)]
    exact cellFormFindings_succ fun e he => Nat.ne_of_gt (hhigh e he)
  rw [findingsFrom, hsplit, cellFormFindings_append hlow, cellFormFindings,
    if_neg (Nat.lt_irrefl address), hnext, Cell.findingsThen]
  cases hjump : originJump c.text with
  | error f => rfl
  | ok jump? =>
      cases jump? with
      | none => rfl
      | some jump =>
          by_cases hback : jump + 1 ≤ address
          · simp only [if_pos hback]
          · simp only [if_neg hback, hafter (show address < (jump + 1).toNat by omega)]

private theorem findingsFrom_of_not_mem (h : ∀ e ∈ image.cells, e.1 ≠ address) :
    image.findingsFrom address = image.findingsFrom (address + 1) :=
  cellFormFindings_succ h

private theorem mem_or_not_written (address : Nat) : (address, image.cell address) ∈ image.cells ∨
    image.cell address = {} ∧ ∀ e ∈ image.cells, e.1 ≠ address := by
  by_cases hwritten : ∃ e ∈ image.cells, e.1 = address
  · obtain ⟨⟨a, c⟩, hmem, rfl⟩ := hwritten
    rw [image.cell_of_mem hmem]
    exact .inl hmem
  · rcases image.mem_or_cell_eq_empty address with hmem | hempty
    · exact .inl hmem
    · exact .inr ⟨hempty, fun e he heq => hwritten ⟨e, he, heq⟩⟩

/-- What the scan finds from an address on, by the cell that stands there. -/
theorem findingsFrom_eq (address : Nat) :
    image.findingsFrom address =
      (image.cell address).findingsThen address image.findingsFrom := by
  rcases image.mem_or_not_written address with hmem | ⟨hempty, hnone⟩
  · exact image.findingsFrom_of_mem hmem
  · have hquiet : ({} : Cell).endsScan = false ∧ ({} : Cell).mentionsOrigin = false ∧
        ({} : Cell).formProblem? = none := by decide
    rw [hempty, Cell.findingsThen, hquiet.1, hquiet.2.1, hquiet.2.2]
    exact image.findingsFrom_of_not_mem hnone

/-- The scan goes on at an address: it is inside memory, nothing ends the scan there and there is
budget left. -/
structure Continues (image : Image) (address : Nat) (ledger : Ledger) : Prop where
  inside : address < memorySize
  goesOn : (image.cell address).endsScan = false
  budget : ledger.exhausted = false

namespace Continues

variable {image} {ledger : Ledger} (h : image.Continues address ledger)

include h

private theorem findingsFrom_of_jump {jump : Int}
    (horigin : (image.cell address).mentionsOrigin = true)
    (hjump : originJump (image.cell address).text = .ok (some jump))
    (hforward : address < jump + 1) :
    image.findingsFrom address = image.findingsFrom (jump + 1).toNat := by
  rw [findingsFrom_eq, Cell.findingsThen, h.goesOn, horigin, hjump]
  simp [Int.not_le.mpr hforward]

private theorem findingsFrom_of_plain (hplain : (image.cell address).mentionsOrigin = false) :
    image.findingsFrom address =
      Finding.ofCheck (image.cell address).range (.ok (image.cell address).formProblem?) ++
        image.findingsFrom (address + 1) := by
  rw [findingsFrom_eq, Cell.findingsThen, h.goesOn, hplain]
  rfl

private theorem bounds_cons {next : Nat} {visits : List Nat} (hnext : address < next)
    (hlater : ∀ visit ∈ visits, next ≤ visit ∧ visit < memorySize) :
    ∀ visit ∈ address :: visits, address ≤ visit ∧ visit < memorySize := by
  rw [List.forall_mem_cons]
  refine ⟨⟨Nat.le_refl _, h.inside⟩, ?_⟩
  intro visit hvisit
  have hbounds := hlater visit hvisit
  exact ⟨Nat.le_of_lt (Nat.lt_of_lt_of_le hnext hbounds.1), hbounds.2⟩

end Continues

/-- A scan of memory from an address on, with the addresses that it visits and its outcome. There
is one rule for each way through the body of the loop. -/
inductive Scan (image : Image) : Nat → Ledger → List Nat → Except Fault Ledger → Prop where
  | past {address : Nat} {ledger : Ledger} (houtside : memorySize ≤ address) :
      Scan image address ledger [] (.ok ledger)
  | ended {address : Nat} {ledger : Ledger} (hinside : address < memorySize)
      (hend : (image.cell address).endsScan = true ∨ ledger.exhausted = true) :
      Scan image address ledger [address] (.ok ledger)
  | failed {address : Nat} {ledger : Ledger} {f : Fault}
      (hgoes : image.Continues address ledger)
      (horigin : (image.cell address).mentionsOrigin = true)
      (hjump : originJump (image.cell address).text = .error f) :
      Scan image address ledger [address] (.error f)
  | stopped {address : Nat} {ledger : Ledger} {jump? : Option Int}
      (hgoes : image.Continues address ledger)
      (horigin : (image.cell address).mentionsOrigin = true)
      (hjump : originJump (image.cell address).text = .ok jump?)
      (hback : ∀ jump ∈ jump?, jump + 1 ≤ address) :
      Scan image address ledger [address] (.ok ledger)
  | jumped {address : Nat} {ledger : Ledger} {jump : Int} {visits : List Nat}
      {result : Except Fault Ledger} (hgoes : image.Continues address ledger)
      (horigin : (image.cell address).mentionsOrigin = true)
      (hjump : originJump (image.cell address).text = .ok (some jump))
      (hforward : address < jump + 1)
      (later : Scan image (jump + 1).toNat ledger visits result) :
      Scan image address ledger (address :: visits) result
  | checked {address : Nat} {ledger : Ledger} {visits : List Nat}
      {result : Except Fault Ledger} (hgoes : image.Continues address ledger)
      (hplain : (image.cell address).mentionsOrigin = false)
      (later : Scan image (address + 1)
        (ledger.report (image.cell address).range (image.cell address).formProblem?)
        visits result) :
      Scan image address ledger (address :: visits) result

private theorem continues_of_not_ended {ledger : Ledger} (hinside : address < memorySize)
    (h : ¬ ((image.cell address).endsScan = true ∨ ledger.exhausted = true)) :
    image.Continues address ledger := by
  rw [not_or, Bool.not_eq_true, Bool.not_eq_true] at h
  exact ⟨hinside, h.1, h.2⟩

/-- Every scan ends: whatever the cells hold, a step goes up. -/
theorem exists_scan (address : Nat) (ledger : Ledger) :
    ∃ visits result, image.Scan address ledger visits result := by
  induction hleft : memorySize - address using Nat.strong_induction_on
    generalizing address ledger with
  | h left ih =>
      by_cases houtside : memorySize ≤ address
      · exact ⟨_, _, .past houtside⟩
      have hinside : address < memorySize := Nat.lt_of_not_le houtside
      by_cases hend : (image.cell address).endsScan = true ∨ ledger.exhausted = true
      · exact ⟨_, _, .ended hinside hend⟩
      have hgoes := image.continues_of_not_ended hinside hend
      cases horigin : (image.cell address).mentionsOrigin with
      | false =>
          obtain ⟨visits, result, later⟩ := ih _ (by omega) (address + 1)
            (ledger.report (image.cell address).range (image.cell address).formProblem?) rfl
          exact ⟨_, _, .checked hgoes horigin later⟩
      | true =>
          cases hjump : originJump (image.cell address).text with
          | error f => exact ⟨_, _, .failed hgoes horigin hjump⟩
          | ok jump? =>
              cases jump? with
              | none => exact ⟨_, _, .stopped hgoes horigin hjump (by simp)⟩
              | some jump =>
                  by_cases hback : jump + 1 ≤ address
                  · exact ⟨_, _, .stopped hgoes horigin hjump (by simpa using hback)⟩
                  · obtain ⟨visits, result, later⟩ := ih _ (by omega) (jump + 1).toNat ledger rfl
                    exact ⟨_, _, .jumped hgoes horigin hjump (Int.lt_of_not_ge hback) later⟩

def formReport (visits : List Nat) : List Diagnostic :=
  ((visits.map image.cell).filter Cell.isChecked).filterMap Cell.formDiagnostic?

namespace Scan

variable {image} {ledger : Ledger} {visits : List Nat} {result : Except Fault Ledger}

private theorem enter_findingsFrom (h : image.Scan address ledger visits result) :
    ledger.enter (image.findingsFrom address) = result := by
  induction h with
  | past houtside => rw [findingsFrom_past image houtside, Ledger.enter_nil]
  | ended hinside hend =>
      rcases hend with hend | hexhausted
      · rw [findingsFrom_eq, Cell.findingsThen, if_pos hend, Ledger.enter_nil]
      · exact Ledger.enter_of_exhausted hexhausted _
  | failed hgoes horigin hjump =>
      rw [findingsFrom_eq, Cell.findingsThen, hgoes.goesOn, horigin, hjump]
      simp [Ledger.enter, hgoes.budget]
  | @stopped address ledger jump? hgoes horigin hjump hback =>
      rw [findingsFrom_eq, Cell.findingsThen, hgoes.goesOn, horigin, hjump]
      cases jump? with
      | none => rfl
      | some jump => simp [hback jump rfl]
  | jumped hgoes horigin hjump hforward later ih =>
      rw [hgoes.findingsFrom_of_jump horigin hjump hforward, ih]
  | checked hgoes hplain later ih =>
      rw [hgoes.findingsFrom_of_plain hplain, Ledger.enter_ofCheck_ok, ih]

theorem mem_start (h : image.Scan address ledger visits result) (hinside : address < memorySize) :
    address ∈ visits := by
  cases h with
  | past houtside => exact absurd hinside (Nat.not_lt_of_le houtside)
  | ended hinside hend => exact List.mem_cons_self
  | failed hgoes horigin hjump => exact List.mem_cons_self
  | stopped hgoes horigin hjump hback => exact List.mem_cons_self
  | jumped hgoes horigin hjump hforward later => exact List.mem_cons_self
  | checked hgoes hplain later => exact List.mem_cons_self

theorem bounds (h : image.Scan address ledger visits result) :
    ∀ visit ∈ visits, address ≤ visit ∧ visit < memorySize := by
  induction h with
  | past houtside => simp
  | ended hinside hend => simpa using hinside
  | failed hgoes horigin hjump => simpa using hgoes.inside
  | stopped hgoes horigin hjump hback => simpa using hgoes.inside
  | jumped hgoes horigin hjump hforward later ih => exact hgoes.bounds_cons (by omega) ih
  | checked hgoes hplain later ih => exact hgoes.bounds_cons (Nat.lt_succ_self _) ih

private theorem increasing (h : image.Scan address ledger visits result) :
    visits.Pairwise (· < ·) := by
  induction h with
  | past houtside => exact .nil
  | ended hinside hend => exact List.pairwise_singleton _ _
  | failed hgoes horigin hjump => exact List.pairwise_singleton _ _
  | stopped hgoes horigin hjump hback => exact List.pairwise_singleton _ _
  | jumped hgoes horigin hjump hforward later ih =>
      refine .cons ?_ ih
      intro visit hvisit
      have hlater := later.bounds visit hvisit
      omega
  | checked hgoes hplain later ih =>
      refine .cons ?_ ih
      intro visit hvisit
      have hlater := later.bounds visit hvisit
      omega

private theorem exists_visit_of_error (h : image.Scan address ledger visits result) {f : Fault}
    (hresult : result = .error f) :
    ∃ visit ∈ visits, (image.cell visit).mentionsOrigin = true ∧
      originJump (image.cell visit).text = .error f := by
  induction h with
  | past houtside => cases hresult
  | ended hinside hend => cases hresult
  | failed hgoes horigin hjump =>
      cases hresult
      exact ⟨_, List.mem_singleton_self _, horigin, hjump⟩
  | stopped hgoes horigin hjump hback => cases hresult
  | jumped hgoes horigin hjump hforward later ih =>
      obtain ⟨visit, hvisit, hfails⟩ := ih hresult
      exact ⟨visit, List.mem_cons_of_mem _ hvisit, hfails⟩
  | checked hgoes hplain later ih =>
      obtain ⟨visit, hvisit, hfails⟩ := ih hresult
      exact ⟨visit, List.mem_cons_of_mem _ hvisit, hfails⟩

/-- A scan enters what is shown about the checked ones of the cells it visits, one after the
other. -/
private theorem diagnostics_eq (h : image.Scan address ledger visits result) {after : Ledger}
    (hresult : result = .ok after) :
    after.diagnostics =
      ledger.diagnostics ++ (image.formReport visits).take ledger.budget.room := by
  induction h with
  | past houtside =>
      cases hresult
      simp [formReport]
  | ended hinside hend =>
      cases hresult
      rcases hend with hend | hexhausted
      · simp [formReport, Cell.isChecked, hend]
      · simp [Budget.room_of_exhausted hexhausted]
  | failed hgoes horigin hjump => cases hresult
  | stopped hgoes horigin hjump hback =>
      cases hresult
      simp [formReport, Cell.isChecked, horigin]
  | @jumped address ledger jump visits result hgoes horigin hjump hforward later ih =>
      have hskip : image.formReport (address :: visits) = image.formReport visits := by
        simp [formReport, Cell.isChecked, horigin]
      rw [ih hresult, hskip]
  | @checked address ledger visits result hgoes hplain later ih =>
      have hchecked : (image.cell address).isChecked = true := by
        simp [Cell.isChecked, hgoes.goesOn, hplain]
      rw [ih hresult]
      cases hproblem : (image.cell address).formProblem? with
      | none =>
          simp [formReport, hchecked, Cell.formDiagnostic?, hproblem, Ledger.report]
      | some p =>
          have hbudget : ledger.budget.exhausted = false := hgoes.budget
          simp [formReport, hchecked, Cell.formDiagnostic?, hproblem, Ledger.report, Ledger.emit,
            Ledger.emit?, hgoes.budget, Budget.room_of_not_exhausted hbudget]

/-- What a scan finds from its start on ends with what is found from each address it visits. -/
theorem exists_front (h : image.Scan address ledger visits result) {visit : Nat}
    (hvisit : visit ∈ visits) :
    ∃ front, image.findingsFrom address = front ++ image.findingsFrom visit := by
  induction h with
  | past houtside => cases hvisit
  | ended hinside hend => exact ⟨[], by rw [List.mem_singleton.mp hvisit, List.nil_append]⟩
  | failed hgoes horigin hjump =>
      exact ⟨[], by rw [List.mem_singleton.mp hvisit, List.nil_append]⟩
  | stopped hgoes horigin hjump hback =>
      exact ⟨[], by rw [List.mem_singleton.mp hvisit, List.nil_append]⟩
  | jumped hgoes horigin hjump hforward later ih =>
      rcases List.mem_cons.mp hvisit with rfl | hlater
      · exact ⟨[], rfl⟩
      · obtain ⟨front, hfront⟩ := ih hlater
        exact ⟨front, by rw [hgoes.findingsFrom_of_jump horigin hjump hforward, hfront]⟩
  | checked hgoes hplain later ih =>
      rcases List.mem_cons.mp hvisit with rfl | hlater
      · exact ⟨[], rfl⟩
      · obtain ⟨front, hfront⟩ := ih hlater
        rw [hgoes.findingsFrom_of_plain hplain, hfront, ← List.append_assoc]
        exact ⟨_, rfl⟩

end Scan

/-- The first `ORG` of each cell stands inside the columns that a jump is read up to. -/
def OriginsEarly (image : Image) : Prop :=
  ∀ address < memorySize, (image.cell address).mentionsOrigin = true →
    ∃ position ≤ 15,
      Text.indexOf? (Mnemonic.spelling .ORG) (image.cell address).text = some position

/-- The cells of memory in front of the first one with the word `END` or a mention of `ORG`. -/
def checkedCells (image : Image) : List Cell :=
  ((List.range memorySize).map image.cell).takeWhile Cell.isChecked

private theorem findingsFrom_of_originsEarly {image : Image} (h : image.OriginsEarly) {n : Nat}
    (hn : address + n = memorySize) :
    image.findingsFrom address = ((((List.range' address n).map image.cell).takeWhile
      Cell.isChecked).filterMap Cell.formDiagnostic?).map .problem := by
  induction n generalizing address with
  | zero => exact image.findingsFrom_past (Nat.le_of_eq hn.symm)
  | succ n ih =>
      have hlater := @ih (address + 1) (by omega)
      rw [List.range'_succ, List.map_cons, findingsFrom_eq, Cell.findingsThen]
      cases hend : (image.cell address).endsScan with
      | true => simp [Cell.isChecked, hend]
      | false =>
          cases horigin : (image.cell address).mentionsOrigin with
          | true =>
              obtain ⟨position, hearly, hposition⟩ := h address (by omega) horigin
              rw [originJump_of_early hposition (Nat.succ_le_succ hearly)]
              simp [Cell.isChecked, horigin]
          | false =>
              rw [hlater]
              cases hproblem : (image.cell address).formProblem? <;>
                simp [Cell.isChecked, hend, horigin, Cell.formDiagnostic?, hproblem,
                  Finding.ofCheck]

end Image

private theorem Ledger.enter_problems (ledger : Ledger) (ds : List Diagnostic) :
    ∃ after, ledger.enter (ds.map .problem) = .ok after ∧
      after.diagnostics = ledger.diagnostics ++ ds.take ledger.budget.room := by
  obtain ⟨b, earlier⟩ := ledger
  rw [enter_diagnostics, enter_eq_collect, ← List.map_take, collect_problems]
  exact ⟨_, rfl, rfl⟩

private theorem Cell.digits_of_originJump {c : Cell} {f : Fault} (horigin : c.mentionsOrigin = true)
    (h : originJump c.text = .error f) : ∃ e, f = .digits e := by
  rw [mentionsOrigin, ← Text.isSome_indexOf?, Option.isSome_iff_exists] at horigin
  obtain ⟨position, hposition⟩ := horigin
  rw [originJump, hposition] at h
  cases hread : Radix.decimal.read (jumpText c.text position) with
  | ok n => simp only [hread, Except.mapError, reduceCtorEq] at h
  | error e =>
      simp only [hread, Except.mapError, Except.error.injEq] at h
      exact ⟨e, h.symm⟩

/-- The scan of a memory with any cells under any budget. It ends, with the ledger or with a number
of too many digits in the jump of a cell. The addresses it visits go up, and it enters what is
shown about the visited cells up to the budget. Where every `ORG` stands early no jump is followed,
and the cells are those in front of the first one that ends the scan. -/
theorem checkCellForms_scan (image : Image) (ledger : Ledger) :
    (∃ visits, image.Scan 0 ledger visits (checkCellForms ledger 0 image.cells)) ∧
    (∀ visits result, image.Scan 0 ledger visits result →
      result = checkCellForms ledger 0 image.cells ∧
      visits.Pairwise (· < ·) ∧ (∀ visit ∈ visits, visit < memorySize) ∧
      (∀ f, result = .error f → ∃ e, f = .digits e ∧ ∃ visit ∈ visits,
        (image.cell visit).mentionsOrigin = true ∧ originJump (image.cell visit).text = .error f) ∧
      (∀ after, result = .ok after → after.diagnostics =
        ledger.diagnostics ++ (image.formReport visits).take ledger.budget.room)) ∧
    (∀ text position, position ≤ 15 →
      Text.indexOf? (Mnemonic.spelling .ORG) text = some position → originJump text = .ok none) ∧
    (image.OriginsEarly → ∃ after, checkCellForms ledger 0 image.cells = .ok after ∧
      after.diagnostics = ledger.diagnostics ++
        (image.checkedCells.filterMap Cell.formDiagnostic?).take ledger.budget.room) := by
  have hresult {visits : List Nat} {result : Except Fault Ledger}
      (hscan : image.Scan 0 ledger visits result) :
      result = checkCellForms ledger 0 image.cells := by
    rw [← enter_cellFormFindings]
    exact hscan.enter_findingsFrom.symm
  refine ⟨?_, ?_, ?_, ?_⟩
  · obtain ⟨visits, result, hscan⟩ := image.exists_scan 0 ledger
    rw [hresult hscan] at hscan
    exact ⟨visits, hscan⟩
  · intro visits result hscan
    refine ⟨hresult hscan, hscan.increasing, fun visit hvisit => (hscan.bounds visit hvisit).2, ?_,
      fun after hafter => hscan.diagnostics_eq hafter⟩
    intro f hf
    obtain ⟨visit, hvisit, horigin, hjump⟩ := hscan.exists_visit_of_error hf
    obtain ⟨e, he⟩ := Cell.digits_of_originJump horigin hjump
    exact ⟨e, he, visit, hvisit, horigin, hjump⟩
  · intro text position hearly hposition
    exact originJump_of_early hposition (Nat.succ_le_succ hearly)
  · intro hearly
    have hfindings := Image.findingsFrom_of_originsEarly hearly (Nat.zero_add memorySize)
    rw [← enter_cellFormFindings, ← Image.findingsFrom, hfindings, ← List.range_eq_range']
    exact ledger.enter_problems _

/-- A number in front of an `ORG` far to the right is a jump, and the cell up to which it leads is
not checked. -/
example : ((checkCellForms { budget := { limit := 100 } } 0
    [(0, { text := .ofString "----------------1 ORG" }), (1, { text := .ofString "HLT 5" }),
      (2, { text := .ofString "CLA 7" })]).map (·.diagnostics.length)) = .ok 1 := by
  decide +kernel

end TeachAsm
