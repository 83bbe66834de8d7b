import TeachAsm.Proofs.Literals
import TeachAsm.Proofs.LogicReport

/-!
# Surviving statements

The checks of references and of halts read the memory image. Here they are told on the source
instead: memory holds the last statement with each address, an operand refers to the last
declaration of its label or to the address that it spells, and a literal is worth what its operand
says. So each report names the statements that a reader of the source would name.
-/

namespace TeachAsm

/-- The statement is the last one with its address, and the address is inside memory. -/
structure Survives (lines : List Line) (address : Nat) (l : Line) : Prop where
  inside : address < memorySize
  latest : Latest Line.index (LaidOut lines address) l

/-- The address that the operand of a line refers to: a label comes before a hexadecimal
address. -/
inductive RefersTo (lines : List Line) (l : Line) : Nat → Prop
  /-- The last declaration of the label counts. It may lie past the end of memory. -/
  | label {d : Declaration}
      (declared : Latest Declaration.line (Declares lines l.operandWord) d) :
      RefersTo lines l d.address
  | address {n : Nat} (undeclared : ∀ d, ¬ Declares lines l.operandWord d)
      (spelt : address? l.operandWord = some n) : RefersTo lines l n

/-- A literal statement with the value survives at the address. -/
def StoresLiteral (lines : List Line) (address : Nat) (value : Int) : Prop :=
  ∃ l, Survives lines address l ∧ ∃ r : Radix, l.mnemonic? = some r.mnemonic ∧
    (-32768 ≤ value ∧ value ≤ 32767) ∧ r.Denotes l.operand value

/-- A literal stands at the address or, with indirect addressing, at the address that the literal
there is worth. -/
inductive PointsToData (lines : List Line) : Nat → Bool → Prop
  | direct {address : Nat} {value : Int} (data : StoresLiteral lines address value) :
      PointsToData lines address false
  | indirect {address pointer : Nat} {value : Int} (holder : StoresLiteral lines address pointer)
      (data : StoresLiteral lines pointer value) : PointsToData lines address true

/-- A surviving memory reference to an address where it finds no data. -/
structure MissesData (lines : List Line) (w : Placement) : Prop where
  survives : Survives lines w.address w.line
  isReference : w.line.isReference = true
  refers : ∃ address, RefersTo lines w.line address ∧
    ¬ PointsToData lines address w.line.isIndirect

def SurvivesWith (lines : List Line) (address : Nat) (mnemonics : List Mnemonic) : Prop :=
  ∃ l, Survives lines address l ∧ ∃ m ∈ mnemonics, l.mnemonic? = some m

/-- A surviving `HLT` behind a jump that no statement skips. -/
structure HaltUnreached (lines : List Line) (w : Placement) : Prop where
  survives : Survives lines w.address w.line
  halts : w.line.mnemonic? = some .HLT
  low : 2 ≤ w.address
  jumps : SurvivesWith lines (w.address - 1) [.BUN, .BSA]
  unskipped : ¬ SurvivesWith lines (w.address - 2) [.ISZ, .SPA, .SNA, .SZA, .SZE]

def loadedImage (text : Text) : Image :=
  (load (sourceLines text) (resolve (sourceLines text))).image

section

variable {text : Text} {address : Nat} {l : Line}

theorem Survives.mem (h : Survives (sourceLines text) address l) : l ∈ sourceLines text :=
  List.takeWhile_subset _ h.latest.holds.above

private theorem Survives.eq {l' : Line} (h : Survives (sourceLines text) address l)
    (h' : Survives (sourceLines text) address l') : l = l' := by
  apply eq_of_index_eq h.mem h'.mem
  exact Nat.le_antisymm (h'.latest.last l h.latest.holds) (h.latest.last l' h'.latest.holds)

theorem Survives.cell (h : Survives (sourceLines text) address l) :
    (loadedImage text).cell address = l.cell (resolve (sourceLines text)).symbols :=
  cell_load_of_latest _ h.inside h.latest

/-- Every address inside memory is empty or has a surviving statement. -/
private theorem survives_or_empty (hinside : address < memorySize) :
    (∃ l, Survives (sourceLines text) address l) ∨ (loadedImage text).cell address = {} := by
  by_cases hsome : ∃ l, LaidOut (sourceLines text) address l
  · obtain ⟨l, hl⟩ := exists_latest_laidOut hsome
    exact .inl ⟨l, hinside, hl⟩
  · exact .inr (cell_load_of_none _ (not_exists.mp hsome))

private theorem iff_exists_survives (hinside : address < memorySize) {p : Cell → Prop}
    (hempty : ¬ p {}) : p ((loadedImage text).cell address) ↔
      ∃ l, Survives (sourceLines text) address l ∧
      p (l.cell (resolve (sourceLines text)).symbols) := by
  constructor
  · intro h
    rcases survives_or_empty hinside with hsurvives | hnone
    · obtain ⟨l, hl⟩ := hsurvives
      rw [hl.cell] at h
      exact ⟨l, hl, h⟩
    · rw [hnone] at h
      exact absurd h hempty
  · intro h
    obtain ⟨l, hl, hp⟩ := h
    rw [hl.cell]
    exact hp

private theorem target?_eq_some_iff : l.target? (resolve (sourceLines text)).symbols =
      some address ↔ RefersTo (sourceLines text) l address := by
  have hlabels := (records_bindings text).labels l.operandWord
  rw [Line.target?, resolve_eq, Bindings.get?_symbols_tables]
  constructor
  · intro h
    cases hfound : (bindings (sourceLines text)).labels.get? l.operandWord with
    | some d =>
        rw [hfound, Option.map_some, Option.some_or, Option.some.injEq] at h
        rw [← h]
        exact .label ((hlabels d).mp hfound)
    | none =>
        rw [hfound, Option.map_none, Option.none_or] at h
        refine .address ?_ h
        intro d hd
        have hbound (d : Declaration) (hd : Declares (sourceLines text) l.operandWord d) :
            d.line < (sourceLines text).length := lt_length_of_getElem? hd.named
        obtain ⟨last, hlast⟩ := Latest.exists_of_bound ⟨d, hd⟩ hbound
        rw [(hlabels last).mpr hlast] at hfound
        cases hfound
  · intro h
    cases h with
    | label declared => simp [(hlabels _).mpr declared]
    | address undeclared spelt =>
        have hnone : (bindings (sourceLines text)).labels.get? l.operandWord = none := by
          rw [Option.eq_none_iff_forall_ne_some]
          intro d hd
          exact undeclared d ((hlabels d).mp hd).holds
        rw [hnone, spelt]
        rfl

private theorem holdsLiteral_iff {value : Int} : (loadedImage text).HoldsLiteral address value ↔
    StoresLiteral (sourceLines text) address value := by
  have hempty : ¬ ({} : Cell).literal = .ok (some value) := by simp [Cell.literal_empty]
  have hcell (hinside : address < memorySize) :
      ((loadedImage text).cell address).literal = .ok (some value) ↔
        ∃ l, Survives (sourceLines text) address l ∧
          (l.cell (resolve (sourceLines text)).symbols).literal = .ok (some value) :=
    iff_exists_survives hinside (p := fun c => c.literal = .ok (some value)) hempty
  rw [Image.HoldsLiteral, isAddress_natCast_iff, Int.toNat_natCast, StoresLiteral]
  constructor
  · intro h
    obtain ⟨l, hl, hliteral⟩ := (hcell h.1).mp h.2
    rw [Line.literal_cell, Line.literal_operand_eq_some_iff] at hliteral
    exact ⟨l, hl, hliteral⟩
  · intro h
    obtain ⟨l, hl, hvalue⟩ := h
    refine ⟨hl.inside, (hcell hl.inside).mpr ⟨l, hl, ?_⟩⟩
    rw [Line.literal_cell, Line.literal_operand_eq_some_iff]
    exact hvalue

private theorem leadsToLiteral_iff_pointsToData {indirect : Bool} :
    (loadedImage text).LeadsToLiteral address indirect ↔
      PointsToData (sourceLines text) address indirect := by
  cases indirect with
  | false =>
      simp only [Image.LeadsToLiteral, Bool.false_eq_true, if_false, holdsLiteral_iff]
      constructor
      · intro h
        obtain ⟨value, hvalue⟩ := h
        exact .direct hvalue
      · intro h
        cases h with
        | direct data => exact ⟨_, data⟩
  | true =>
      simp only [Image.LeadsToLiteral, if_true]
      constructor
      · intro h
        obtain ⟨pointer, value, hholder, hdata⟩ := h
        -- a pointer at which a literal is held is inside memory, so it is not negative
        have hpointer : ((pointer.toNat : Nat) : Int) = pointer :=
          Int.toNat_of_nonneg (isAddress_iff.mp hdata.1).1
        rw [← hpointer] at hholder hdata
        exact .indirect (holdsLiteral_iff.mp hholder) (holdsLiteral_iff.mp hdata)
      · intro h
        cases h with
        | indirect holder data =>
            exact ⟨_, _, holdsLiteral_iff.mpr holder, holdsLiteral_iff.mpr data⟩

private theorem survivesWith_iff (hinside : address < memorySize) {mnemonics : List Mnemonic}
    {p : Mnemonic → Bool} (hp : ∀ m, p m = true ↔ m ∈ mnemonics) :
    ((loadedImage text).cell address).mnemonic?.any p = true ↔
      SurvivesWith (sourceLines text) address mnemonics := by
  have hempty : ¬ ({} : Cell).mnemonic?.any p = true := by
    have hnone : ({} : Cell).mnemonic? = none := by decide
    simp [hnone]
  have hmnemonic (l : Line) : (l.cell (resolve (sourceLines text)).symbols).mnemonic?.any p = true ↔
      ∃ m ∈ mnemonics, l.mnemonic? = some m := by
    rw [Cell.mnemonic?, l.cell_mnemonic, ← Line.mnemonic?, Option.any_eq_true]
    simp only [hp, and_comm]
  have hcell : ((loadedImage text).cell address).mnemonic?.any p = true ↔
      ∃ l, Survives (sourceLines text) address l ∧
        (l.cell (resolve (sourceLines text)).symbols).mnemonic?.any p = true :=
    iff_exists_survives hinside (p := fun c => c.mnemonic?.any p = true) hempty
  rw [hcell]
  simp only [hmnemonic, SurvivesWith]

end

section

variable {image : Image} {address : Nat} {l : Line} {symbols : Table Text Nat}

private theorem logicProblem_cell_of_target (hl : l.isReference = true) {target : Nat}
    (htarget : l.target? symbols = some target) :
    image.logicProblem address (l.cell symbols) =
      (image.leadsToLiteral target l.isIndirect).map
        fun leads => if leads then none else some .invalidTarget := by
  simp [Image.logicProblem, Line.cell, hl, htarget]

private theorem logicProblem_cell_of_unresolved (hl : l.isReference = true)
    (htarget : l.target? symbols = none) :
    image.logicProblem address (l.cell symbols) = .ok none := by
  have hkind : (l.cell symbols).kind = .unresolved := by simp [Line.cell, hl, htarget]
  have hhalt : (l.cell symbols).mnemonic? ≠ some .HLT := by
    rw [Cell.mnemonic?, l.cell_mnemonic, ← Line.mnemonic?]
    exact Line.mnemonic?_ne_of_isReference hl (by decide)
  simp [Image.logicProblem, hkind, hhalt]

private theorem logicProblem_cell_of_other (hl : l.isReference = false) :
    image.logicProblem address (l.cell symbols) =
      if l.mnemonic? = some .HLT ∧ 2 ≤ address then
        (image.hiddenByJump address).map
          fun hidden => if hidden then some .unreachableHalt else none
      else .ok none := by
  have hkind : (l.cell symbols).kind = .verbatim := by simp [Line.cell, hl]
  rw [Image.logicProblem, hkind, Cell.mnemonic?, l.cell_mnemonic, ← Line.mnemonic?]

private theorem invalidTarget_cell_iff
    (hok : ∃ problem?, image.logicProblem address (l.cell symbols) = .ok problem?) :
    image.logicProblem address (l.cell symbols) = .ok (some .invalidTarget) ↔
      l.isReference = true ∧ ∃ target : Nat, l.target? symbols = some target ∧
        ¬ image.LeadsToLiteral target l.isIndirect := by
  cases hl : l.isReference with
  | false =>
      rw [logicProblem_cell_of_other hl]
      constructor
      · intro h
        split at h
        · rcases eq_some_of_map_ite h with h | h <;> cases h
        · cases h
      · intro h
        cases h.1
  | true =>
      cases htarget : l.target? symbols with
      | none => simp [logicProblem_cell_of_unresolved hl htarget]
      | some target =>
          rw [logicProblem_cell_of_target hl htarget] at hok ⊢
          simp only [← Image.leadsToLiteral_iff, Option.some.injEq, exists_eq_left', true_and]
          cases hleads : image.leadsToLiteral target l.isIndirect with
          | error f =>
              obtain ⟨problem?, hproblem⟩ := hok
              rw [hleads] at hproblem
              cases hproblem
          | ok leads => cases leads <;> simp [Except.map]

private theorem unreachableHalt_cell_iff (hinside : address < memorySize) :
    image.logicProblem address (l.cell symbols) = .ok (some .unreachableHalt) ↔
      l.mnemonic? = some .HLT ∧ 2 ≤ address ∧
        (image.cell (address - 1)).mnemonic?.any Mnemonic.jumps = true ∧
        ¬ (image.cell (address - 2)).mnemonic?.any Mnemonic.skips = true := by
  cases hl : l.isReference with
  | true =>
      have hhalt : l.mnemonic? ≠ some .HLT := Line.mnemonic?_ne_of_isReference hl (by decide)
      cases htarget : l.target? symbols with
      | none => simp [logicProblem_cell_of_unresolved hl htarget, hhalt]
      | some target =>
          rw [logicProblem_cell_of_target hl htarget]
          constructor
          · intro h
            rcases eq_some_of_map_ite h with h | h <;> cases h
          · intro h
            exact absurd h.1 hhalt
  | false =>
      rw [logicProblem_cell_of_other hl]
      by_cases hhalt : l.mnemonic? = some .HLT ∧ 2 ≤ address
      · rw [if_pos hhalt, Image.hiddenByJump_eq hhalt.2 hinside]
        simp [Except.map, hhalt.1, hhalt.2]
      · rw [if_neg hhalt]
        constructor
        · intro h
          cases h
        · intro h
          exact absurd ⟨h.1, h.2.1⟩ hhalt

end

section

variable {text : Text} {w : Placement}

private theorem invalidTarget_iff_missesData (hw : Survives (sourceLines text) w.address w.line)
    (hok : ∃ problem?, (loadedImage text).logicProblem w.address
      (w.line.cell (resolve (sourceLines text)).symbols) = .ok problem?) :
    (loadedImage text).logicProblem w.address (w.line.cell (resolve (sourceLines text)).symbols) =
      .ok (some .invalidTarget) ↔ MissesData (sourceLines text) w := by
  rw [invalidTarget_cell_iff hok]
  simp only [target?_eq_some_iff, leadsToLiteral_iff_pointsToData]
  constructor
  · intro h
    exact ⟨hw, h.1, h.2⟩
  · intro h
    exact ⟨h.isReference, h.refers⟩

private theorem unreachableHalt_iff_haltUnreached
    (hw : Survives (sourceLines text) w.address w.line) :
    (loadedImage text).logicProblem w.address (w.line.cell (resolve (sourceLines text)).symbols) =
      .ok (some .unreachableHalt) ↔ HaltUnreached (sourceLines text) w := by
  have hinside := hw.inside
  have hjumps : ((loadedImage text).cell (w.address - 1)).mnemonic?.any Mnemonic.jumps = true ↔
      SurvivesWith (sourceLines text) (w.address - 1) [.BUN, .BSA] :=
    survivesWith_iff (by omega) fun m => by simp [Mnemonic.jumps]
  have hskips : ((loadedImage text).cell (w.address - 2)).mnemonic?.any Mnemonic.skips = true ↔
      SurvivesWith (sourceLines text) (w.address - 2) [.ISZ, .SPA, .SNA, .SZA, .SZE] :=
    survivesWith_iff (by omega) fun m => by simp [Mnemonic.skips]
  rw [unreachableHalt_cell_iff hinside, hjumps, hskips]
  constructor
  · intro h
    obtain ⟨hhalts, hlow, hjumped, hunskipped⟩ := h
    exact ⟨hw, hhalts, hlow, hjumped, hunskipped⟩
  · intro h
    exact ⟨h.halts, h.low, h.jumps, h.unskipped⟩

end

private theorem exists_map_eq {α β : Type} {f : α → β} {p : α → Prop} {ys : List β}
    (h : ∀ y ∈ ys, ∃ x, p x ∧ f x = y) : ∃ xs : List α, xs.map f = ys ∧ ∀ x ∈ xs, p x := by
  induction ys with
  | nil => exact ⟨[], rfl, List.forall_mem_nil _⟩
  | cons y ys ih =>
      rw [List.forall_mem_cons] at h
      obtain ⟨x, hx, rfl⟩ := h.1
      obtain ⟨xs, rfl, hxs⟩ := ih h.2
      exact ⟨x :: xs, rfl, List.forall_mem_cons.mpr ⟨hx, hxs⟩⟩

private theorem Survives.mem_cells {text : Text} {address : Nat} {l : Line}
    (h : Survives (sourceLines text) address l) :
    (address, l.cell (resolve (sourceLines text)).symbols) ∈ (loadedImage text).cells := by
  rcases (loadedImage text).mem_or_cell_eq_empty address with hmem | hnone
  · rw [h.cell] at hmem
    exact hmem
  · rw [h.cell] at hnone
    exact absurd (congrArg Cell.kind hnone) (l.kind_cell_ne_empty _)

private theorem exists_survives_of_mem_cells {text : Text} {e : Nat × Cell}
    (he : e ∈ (loadedImage text).cells) :
    ∃ w : Placement, Survives (sourceLines text) w.address w.line ∧
      (w.address, w.line.cell (resolve (sourceLines text)).symbols) = e := by
  obtain ⟨address, c⟩ := e
  have hinside := (loadedImage text).bounded address (List.mem_map_of_mem he)
  have hcell := (loadedImage text).cell_of_mem he
  obtain ⟨w, hw, hwrite⟩ := exists_placement_of_mem_cells he
  rw [Prod.mk.injEq] at hwrite
  have hlaid : LaidOut (sourceLines text) address w.line :=
    (laidOut_iff text address w.line).mpr (hwrite.1 ▸ hw)
  obtain ⟨l, hl⟩ := exists_latest_laidOut ⟨w.line, hlaid⟩
  have hsurvives : Survives (sourceLines text) address l := ⟨hinside, hl⟩
  exact ⟨⟨address, l⟩, hsurvives, by rw [← hcell, hsurvives.cell]⟩

private theorem exists_placements (text : Text) : ∃ placements : List Placement,
    placements.map (fun w => (w.address, w.line.cell (resolve (sourceLines text)).symbols)) =
      (loadedImage text).cells ∧
    placements.Pairwise (fun w w' => w.address < w'.address) ∧
    ∀ w, w ∈ placements ↔ Survives (sourceLines text) w.address w.line := by
  obtain ⟨placements, hmap, hsurvive⟩ :=
    exists_map_eq fun e (he : e ∈ (loadedImage text).cells) => exists_survives_of_mem_cells he
  refine ⟨placements, hmap, ?_, fun w => ⟨hsurvive w, ?_⟩⟩
  · have hordered := (loadedImage text).ascending
    rw [← hmap, List.map_map, List.pairwise_map] at hordered
    exact hordered
  · intro hw
    have hmem := hw.mem_cells
    rw [← hmap] at hmem
    obtain ⟨w', hw', hsame⟩ := List.mem_map.mp hmem
    rw [Prod.mk.injEq] at hsame
    have hline : w'.line = w.line := (hsame.1 ▸ hsurvive w' hw').eq hw
    have hplacement : w' = w := by
      cases w
      cases w'
      simp_all
    exact hplacement ▸ hw'

namespace Analysis

variable {limit : Int} {text : Text} {a : Analysis}

private theorem image_run (h : run limit text = .ok a) : a.memory.image = loadedImage text :=
  congrArg Memory.image (fields_run h).2.1

/-- A problem of cells is reported on the surviving statements that have it. -/
private theorem reports_of_survives (h : run limit text = .ok a)
    (hbudget : a.budget.exhausted = false) (hend : ∀ e ∈ a.memory.image.cells, e.2.endsScan = false)
    {problem : Problem} (hproblem : problem = .invalidTarget ∨ problem = .unreachableHalt)
    {p : Placement → Prop} (hsurvives : ∀ w, p w → Survives (sourceLines text) w.address w.line)
    (hp : ∀ w, Survives (sourceLines text) w.address w.line →
      (∃ problem?, (loadedImage text).logicProblem w.address
        (w.line.cell (resolve (sourceLines text)).symbols) = .ok problem?) →
      ((loadedImage text).logicProblem w.address
        (w.line.cell (resolve (sourceLines text)).symbols) = .ok (some problem) ↔ p w)) :
    ReportsInOrder (a.diagnostics.filter fun d => d.problem = problem) Placement.address
      (fun w => ⟨w.line.wholeRange, problem⟩) p := by
  obtain ⟨placements, hmap, hordered, hmem⟩ := exists_placements text
  have hok : ∀ w ∈ placements, ∃ problem?, (loadedImage text).logicProblem w.address
      (w.line.cell (resolve (sourceLines text)).symbols) = .ok problem? := by
    intro w hw
    have hcell := ((hmem w).mp hw).mem_cells
    rw [← image_run h] at hcell
    have hcheck := exists_logicProblem h hbudget hend hcell
    rw [image_run h] at hcheck
    exact hcheck
  refine ⟨placements.filter fun w => (loadedImage text).logicProblem w.address
    (w.line.cell (resolve (sourceLines text)).symbols) = .ok (some problem),
    hordered.filter _, ?_, ?_⟩
  · intro w
    rw [List.mem_filter, decide_eq_true_eq]
    constructor
    · intro hw
      exact (hp w ((hmem w).mp hw.1) (hok w hw.1)).mp hw.2
    · intro hw
      have hplaced := (hmem w).mpr (hsurvives w hw)
      exact ⟨hplaced, (hp w (hsurvives w hw) (hok w hplaced)).mpr hw⟩
  · rw [filter_cells h hbudget hend hproblem, image_run h, ← hmap, List.filter_map, List.map_map]
    simp only [Function.comp_def, Line.range_cell]

end Analysis

/-- Under a budget that lasts, and with no `END` among the words of a cell, the reports on invalid
targets and on unreachable halts name exactly the surviving references that miss data and the
surviving halts behind a jump that nothing skips, by address and once each. -/
theorem logic_problems_reported {limit : Int} {text : Text} {a : Analysis}
    (h : Analysis.run limit text = .ok a) (hbudget : a.budget.exhausted = false)
    (hend : ∀ e ∈ a.memory.image.cells, Mnemonic.spelling .END ∉ e.2.words) :
    let lines := sourceLines text
    ReportsInOrder (a.diagnostics.filter fun d => d.problem = .invalidTarget) Placement.address
      (fun w => ⟨w.line.wholeRange, .invalidTarget⟩) (MissesData lines) ∧
    ReportsInOrder (a.diagnostics.filter fun d => d.problem = .unreachableHalt) Placement.address
      (fun w => ⟨w.line.wholeRange, .unreachableHalt⟩) (HaltUnreached lines) := by
  intro lines
  have hscanned : ∀ e ∈ a.memory.image.cells, e.2.endsScan = false := by
    intro e he
    rw [Cell.endsScan, Bool.eq_false_iff, ne_eq, List.contains_iff_mem]
    exact hend e he
  constructor
  · exact Analysis.reports_of_survives h hbudget hscanned (.inl rfl) (fun _ hw => hw.survives)
      fun _ => invalidTarget_iff_missesData
  · exact Analysis.reports_of_survives h hbudget hscanned (.inr rfl) (fun _ hw => hw.survives)
      fun _ hw _ => unreachableHalt_iff_haltUnreached hw

/-- A jump to a statement misses data, as does a pointer that is negative, and the jump hides the
`HLT` behind it. -/
theorem logic_problems_reported_jump :
    let text : Text := .ofString "LDA P I\nBUN 0\nHLT\nP, DEC -1\nEND"
    ∃ a, Analysis.run 100 text = .ok a ∧ a.budget.exhausted = false ∧
      (∀ e ∈ a.memory.image.cells, Mnemonic.spelling .END ∉ e.2.words) ∧
      (∃ w, MissesData (sourceLines text) w ∧ w.line.wholeRange = .wholeLine 0) ∧
      (∃ w, MissesData (sourceLines text) w ∧ w.line.wholeRange = .wholeLine 1) ∧
      ∃ w, HaltUnreached (sourceLines text) w ∧ w.line.wholeRange = .wholeLine 2 := by
  intro text
  have heval : (Analysis.run 100 text).toOption.map (fun a => (a.budget.exhausted,
      a.memory.image.cells.all fun e => !e.2.words.contains (Mnemonic.spelling .END),
      a.diagnostics)) =
      some (false, true, [⟨.wholeLine 0, .invalidTarget⟩, ⟨.wholeLine 1, .invalidTarget⟩,
        ⟨.wholeLine 2, .unreachableHalt⟩]) := by
    decide +kernel
  obtain ⟨a, hrun, hvalues⟩ := exists_ok_of_toOption heval
  rw [Prod.mk.injEq, Prod.mk.injEq] at hvalues
  obtain ⟨hbudget, hcells, hdiagnostics⟩ := hvalues
  have hend : ∀ e ∈ a.memory.image.cells, Mnemonic.spelling .END ∉ e.2.words := by
    intro e he
    have hword := List.all_eq_true.mp hcells e he
    rwa [Bool.not_eq_true', ← Bool.not_eq_true, List.contains_iff_mem] at hword
  obtain ⟨hmisses, hhalts⟩ := logic_problems_reported hrun hbudget hend
  rw [hdiagnostics] at hmisses hhalts
  have hmissed {n : Int} (hn : n = 0 ∨ n = 1) :
      ∃ w, MissesData (sourceLines text) w ∧ w.line.wholeRange = .wholeLine n := by
    obtain ⟨w, hw, hshown⟩ := hmisses.exists_of_mem (d := ⟨.wholeLine n, .invalidTarget⟩)
      (by rcases hn with rfl | rfl <;> decide)
    exact ⟨w, hw, congrArg Diagnostic.range hshown⟩
  obtain ⟨w, hw, hshown⟩ := hhalts.exists_of_mem (d := ⟨.wholeLine 2, .unreachableHalt⟩)
    (by decide)
  exact ⟨a, hrun, hbudget, hend, hmissed (.inl rfl), hmissed (.inr rfl), w, hw,
    congrArg Diagnostic.range hshown⟩

end TeachAsm
