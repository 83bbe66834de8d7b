import TeachAsm.Proofs.Declarations
import TeachAsm.Proofs.Loading

/-!
# Contents of memory

What stands in memory after a program was loaded. A word holds the last statement that the walk
reaches with its address, however often origins move the counter back; a word that no statement is
laid out at is empty, and what is laid out past the end of memory is lost.
-/

namespace TeachAsm

/-- A statement above `END` that sets no origin, and the counter with which the walk reaches it. -/
structure LaidOut (lines : List Line) (address : Nat) (l : Line) : Prop where
  above : l ∈ aboveEnd lines
  stated : l.isBlank = false
  notOrigin : l.states .ORG = false
  counter : counterAt Line.statementStep 0 lines l.index = some address

theorem Line.statementStep_eq_occupy_iff {l : Line} :
    l.statementStep = .occupy ↔ l.isBlank = false ∧ l.states .ORG = false ∧
      l.states .END = false := by
  unfold statementStep states
  cases l.isBlank with
  | true => simp
  | false =>
      rw [if_neg (by simp)]
      split <;> simp_all

theorem laidOut_iff (text : Text) (address : Nat) (l : Line) :
    LaidOut (sourceLines text) address l ↔ ⟨address, l⟩ ∈ statements (sourceLines text) := by
  constructor
  · intro h
    have hl := getElem?_of_mem_sourceLines (List.takeWhile_subset _ h.above)
    rw [statements, mem_place_sourceLines_iff _ hl, Line.statementStep_eq_occupy_iff]
    exact ⟨h.counter, h.stated, h.notOrigin, states_end_of_mem_aboveEnd h.above⟩
  · intro h
    have hl := getElem?_of_mem_sourceLines (mem_of_mem_place h)
    obtain ⟨hcounter, hstep⟩ := (mem_place_sourceLines_iff _ hl address).mp h
    rw [Line.statementStep_eq_occupy_iff] at hstep
    have habove : l ∈ (statements (sourceLines text)).map Placement.line := List.mem_map_of_mem h
    rw [statements, map_line_place] at habove
    exact ⟨(List.mem_filter.mp habove).1, hstep.1, hstep.2.1, hcounter⟩

theorem latest_of_statements {text : Text} {address : Nat} {l : Line}
    (h : ⟨address, l⟩ ∈ statements (sourceLines text))
    (hlast : ∀ p ∈ statements (sourceLines text), p.address = address → p.line.index ≤ l.index) :
    Latest Line.index (LaidOut (sourceLines text) address) l where
  holds := (laidOut_iff text address l).mpr h
  last := by
    intro l' hl'
    exact hlast ⟨address, l'⟩ ((laidOut_iff text address l').mp hl') rfl

private theorem exists_counterAt {lines : List Line} {i : Nat} (h : i ≤ (aboveEnd lines).length)
    (counter : Nat) : ∃ address, counterAt Line.statementStep counter lines i = some address := by
  induction lines generalizing i counter with
  | nil =>
      rw [Nat.le_zero.mp h]
      exact ⟨counter, rfl⟩
  | cons l rest ih =>
      cases i with
      | zero => exact ⟨counter, rfl⟩
      | succ i =>
          by_cases hend : l.states .END = true
          · rw [aboveEnd_cons_of_end rest hend] at h
            exact absurd h (Nat.not_succ_le_zero i)
          · rw [Bool.not_eq_true] at hend
            rw [aboveEnd_cons rest hend, List.length_cons, Nat.add_le_add_iff_right] at h
            have hgoes : l.statementStep ≠ .stop := by
              rw [ne_eq, Line.statementStep_eq_stop_iff, hend]
              exact Bool.false_ne_true
            rw [counterAt]
            cases hstep : l.statementStep with
            | stop => exact absurd hstep hgoes
            | skip => exact ih h _
            | origin address => exact ih h _
            | occupy => exact ih h _

private theorem exists_counter_of_mem_aboveEnd {text : Text} {l : Line}
    (h : l ∈ aboveEnd (sourceLines text)) :
    ∃ address, counterAt Line.statementStep 0 (sourceLines text) l.index = some address := by
  obtain ⟨i, hi⟩ := List.getElem?_of_mem h
  have hbound := (List.getElem?_eq_some_iff.mp hi).1
  have hprefix : aboveEnd (sourceLines text) <+: sourceLines text := List.takeWhile_prefix _
  have hline : (sourceLines text)[i]? = some l := by
    rw [← hi]
    exact (List.prefix_iff_getElem?.mp hprefix i hbound).trans
      (List.getElem?_eq_getElem hbound).symm
  rw [getElem?_sourceLines hline]
  exact exists_counterAt (Nat.le_of_lt hbound) 0

namespace Image

private theorem cell_of_outside (image : Image) {address : Nat} (h : memorySize ≤ address) :
    image.cell address = {} := by
  rcases image.mem_or_cell_eq_empty address with hmem | hnone
  · have hbound := image.bounded address (List.mem_map_of_mem hmem)
    exact absurd hbound (Nat.not_lt_of_le h)
  · exact hnone

private theorem cellAt_eq_ok_iff (image : Image) (address : Nat) (c : Cell) :
    image.cellAt address = .ok c ↔ address < memorySize ∧ image.cell address = c := by
  by_cases h : address < memorySize
  · have hinside : 0 ≤ (address : Int) ∧ (address : Int) < memorySize := by omega
    rw [cellAt, if_pos hinside, Int.toNat_natCast, Except.ok.injEq, and_iff_right h]
  · have houtside : ¬ (0 ≤ (address : Int) ∧ (address : Int) < memorySize) := by omega
    have hpositive : ¬ (-(memorySize : Int) ≤ address ∧ (address : Int) < 0) := by omega
    rw [cellAt, if_neg houtside, if_neg hpositive]
    simp [h]

private theorem store?_of_outside (image : Image) {address : Nat} (h : memorySize ≤ address)
    (c : Cell) : image.store? address c = none := by
  rw [store?, dif_neg]
  omega

private theorem ofWrites_filter (writes : List (Nat × Cell)) :
    ofWrites (writes.filter fun w => w.1 < memorySize) = ofWrites writes := by
  have hfold (image : Image) : (writes.filter fun w => w.1 < memorySize).foldl
      (fun image w => (image.store? w.1 w.2).getD image) image =
        writes.foldl (fun image w => (image.store? w.1 w.2).getD image) image := by
    induction writes generalizing image with
    | nil => rfl
    | cons w rest ih =>
        by_cases hinside : w.1 < memorySize
        · rw [List.filter_cons_of_pos (by simpa using hinside), List.foldl_cons, List.foldl_cons,
            ih]
        · rw [List.filter_cons_of_neg (by simpa using hinside), List.foldl_cons, ih,
            image.store?_of_outside (Nat.le_of_not_lt hinside)]
          rfl
  exact hfold empty

def LinesAgree (image : Image) : Prop :=
  ∀ address, image.lines.get? address = (image.cell address).line

theorem LinesAgree.store? {image : Image} (h : image.LinesAgree) (address : Nat) {c : Cell}
    (hc : c.line.isSome = true) : ((image.store? address c).getD image).LinesAgree := by
  intro a
  by_cases haddress : address = a
  · subst haddress
    by_cases hinside : address < memorySize
    · obtain ⟨line, hline⟩ := Option.isSome_iff_exists.mp hc
      rw [lines_store?_self image hinside hline, cell_store?_self image hinside, hline]
    · rw [image.store?_of_outside (Nat.le_of_not_lt hinside)]
      exact h address
  · rw [lines_store?_of_ne image haddress, cell_store?_of_ne image haddress]
    exact h a

private theorem linesAgree_ofWrites {writes : List (Nat × Cell)}
    (h : ∀ w ∈ writes, w.2.line.isSome = true) : (ofWrites writes).LinesAgree := by
  have hfold (image : Image) (himage : image.LinesAgree) : LinesAgree
      (writes.foldl (fun image w => (image.store? w.1 w.2).getD image) image) := by
    induction writes generalizing image with
    | nil => exact himage
    | cons w rest ih =>
        rw [List.forall_mem_cons] at h
        rw [List.foldl_cons]
        exact ih h.2 _ (himage.store? w.1 h.1)
  exact hfold empty fun _ => rfl

end Image

/-- What a cell shows of the line it was built from. -/
structure Cell.LaidFrom (c : Cell) (symbols : Table Text Nat) (l : Line) : Prop where
  line : c.line = some ((l.index : Int) + 1)
  mnemonic : c.mnemonic = l.mnemonic
  label : l.isReference = true → ∀ address, symbols.get? l.operandWord = some address →
    c.kind = .reference ∧ c.target = some (address : Int)
  address : l.isReference = true → symbols.get? l.operandWord = none →
    (address? l.operandWord).isSome = true →
      c.kind = .reference ∧ c.target = some (Radix.hexadecimal.value l.operandWord : Int)
  unresolved : l.isReference = true → symbols.get? l.operandWord = none →
    address? l.operandWord = none → c.kind = .unresolved ∧ c.symbol = some l.operandWord
  verbatim : l.isReference = false → c.kind = .verbatim ∧ c.text = l.stripped
  indirect : c.indirect = true ↔ l.isReference = true ∧ indirectMark ∈ l.words.drop 2

namespace Line

variable (l : Line) (symbols : Table Text Nat)

theorem laidFrom_cell : (l.cell symbols).LaidFrom symbols l where
  line := l.line_cell symbols
  mnemonic := l.cell_mnemonic symbols
  label := by
    intro hreference address hlabel
    simp [cell, hreference, target?, hlabel]
  address := by
    intro hreference hlabel haddress
    obtain ⟨address, haddress⟩ := Option.isSome_iff_exists.mp haddress
    rw [value_of_address? haddress]
    simp [cell, hreference, target?, hlabel, haddress]
  unresolved := by
    intro hreference hlabel haddress
    simp [cell, hreference, target?, hlabel, haddress]
  verbatim := by
    intro hreference
    simp [cell, hreference]
  indirect := by
    have hmark : l.isIndirect = true ↔ indirectMark ∈ l.words.drop 2 := List.contains_iff_mem
    rw [← hmark]
    cases hreference : l.isReference with
    | false => simp [cell, hreference]
    | true => cases htarget : l.target? symbols <;> simp [cell, hreference, htarget]

theorem kind_cell_ne_empty : (l.cell symbols).kind ≠ .empty := by
  unfold cell
  split
  · split <;> simp
  · simp

private theorem isSome_target_cell_iff :
    (l.cell symbols).target.isSome = true ↔ (l.cell symbols).kind = .reference := by
  unfold cell
  split
  · split <;> simp
  · simp

private theorem isSome_symbol_cell_iff :
    (l.cell symbols).symbol.isSome = true ↔ (l.cell symbols).kind = .unresolved := by
  unfold cell
  split
  · split <;> simp
  · simp

end Line

section

variable {text : Text} (r : Resolution) {address : Nat}

/-- Among the statements at an address the last one is found there. -/
theorem cell_load_of_latest (hinside : address < memorySize) {l : Line}
    (h : Latest Line.index (LaidOut (sourceLines text) address) l) :
    (load (sourceLines text) r).image.cell address = l.cell r.symbols := by
  have hplaced := (laidOut_iff text address l).mp h.holds
  obtain ⟨earlier, later, hsplit⟩ := List.append_of_mem hplaced
  have hordered := pairwise_index_place Line.statementStep text
  rw [← statements, hsplit, List.pairwise_append, List.pairwise_cons] at hordered
  have hlater : ∀ v ∈ later, v.address ≠ address := by
    rintro v hv rfl
    have hmem : v ∈ statements (sourceLines text) := by
      rw [hsplit]
      exact List.mem_append_right _ (List.mem_cons_of_mem _ hv)
    have hafter := h.last v.line ((laidOut_iff text v.address v.line).mpr hmem)
    exact absurd (hordered.2.1.1 v hv) (Nat.not_lt_of_le hafter)
  rw [load_image, hsplit, List.map_append, List.map_cons]
  apply Image.cell_ofWrites_append _ _ (l.cell r.symbols) hinside
  intro w hw
  obtain ⟨v, hv, rfl⟩ := List.mem_map.mp hw
  exact hlater v hv

theorem cell_load_of_none (h : ∀ l, ¬ LaidOut (sourceLines text) address l) :
    (load (sourceLines text) r).image.cell address = {} := by
  rw [load_image, Image.ofWrites, Image.cell_foldl_of_ne]
  · rfl
  · intro w hw haddress
    obtain ⟨p, hp, rfl⟩ := List.mem_map.mp hw
    apply h p.line
    rw [laidOut_iff, ← show p.address = address from haddress]
    exact hp

theorem exists_latest_laidOut (h : ∃ l, LaidOut (sourceLines text) address l) :
    ∃ l, Latest Line.index (LaidOut (sourceLines text) address) l := by
  have hbound : ∀ l, LaidOut (sourceLines text) address l →
      l.index < (sourceLines text).length := by
    intro l hl
    have hline := getElem?_of_mem_sourceLines (List.takeWhile_subset _ hl.above)
    exact (List.getElem?_eq_some_iff.mp hline).1
  exact Latest.exists_of_bound h hbound

private theorem kind_cell_load_eq_empty_iff (hinside : address < memorySize) :
    ((load (sourceLines text) r).image.cell address).kind = .empty ↔
      ∀ l, ¬ LaidOut (sourceLines text) address l := by
  constructor
  · intro hkind l hl
    obtain ⟨last, hlast⟩ := exists_latest_laidOut ⟨l, hl⟩
    rw [cell_load_of_latest r hinside hlast] at hkind
    exact last.kind_cell_ne_empty r.symbols hkind
  · intro hnone
    rw [cell_load_of_none r hnone]

private theorem exists_latest_of_kind_ne_empty (hinside : address < memorySize)
    (h : ((load (sourceLines text) r).image.cell address).kind ≠ .empty) :
    ∃ l, Latest Line.index (LaidOut (sourceLines text) address) l ∧
      (load (sourceLines text) r).image.cell address = l.cell r.symbols := by
  rw [ne_eq, kind_cell_load_eq_empty_iff r hinside, not_forall_not] at h
  obtain ⟨l, hl⟩ := exists_latest_laidOut h
  exact ⟨l, hl, cell_load_of_latest r hinside hl⟩

/-- What is true of the empty cell and of the cell of every statement is true of every cell. -/
theorem forall_cell_load {p : Cell → Prop} (hempty : p {})
    (hcell : ∀ l, LaidOut (sourceLines text) address l → p (l.cell r.symbols)) :
    p ((load (sourceLines text) r).image.cell address) := by
  rcases Image.mem_or_cell_eq_empty (load (sourceLines text) r).image address with hmem | hnone
  · obtain ⟨v, hv, hwrite⟩ := exists_placement_of_mem_cells hmem
    rw [Prod.mk.injEq] at hwrite
    rw [← hwrite.2]
    apply hcell
    rw [laidOut_iff, ← hwrite.1]
    exact hv
  · rw [hnone]
    exact hempty

end

private theorem linesAgree_load (text : Text) (r : Resolution) :
    (load (sourceLines text) r).image.LinesAgree := by
  rw [load_image]
  apply Image.linesAgree_ofWrites
  intro w hw
  obtain ⟨p, -, rfl⟩ := List.mem_map.mp hw
  rw [Line.line_cell]
  rfl

private theorem mem_keys_lines_load_iff (text : Text) (r : Resolution) (address : Nat) :
    address ∈ (load (sourceLines text) r).image.lines.keys ↔
      address < memorySize ∧ ((load (sourceLines text) r).image.cell address).kind ≠ .empty := by
  rw [Table.mem_keys_iff, linesAgree_load text r address]
  constructor
  · rintro ⟨line, hline⟩
    have hinside : address < memorySize := by
      by_contra houtside
      rw [Image.cell_of_outside _ (Nat.le_of_not_lt houtside)] at hline
      cases hline
    refine ⟨hinside, ?_⟩
    rw [ne_eq, kind_cell_load_eq_empty_iff r hinside]
    intro hnone
    rw [cell_load_of_none r hnone] at hline
    cases hline
  · rintro ⟨hinside, hkind⟩
    obtain ⟨l, -, hcell⟩ := exists_latest_of_kind_ne_empty r hinside hkind
    rw [hcell, Line.line_cell]
    exact ⟨_, rfl⟩

/-- What an image has at an address. -/
structure Image.ContentsAt (image : Image) (lines : List Line) (symbols : Table Text Nat)
    (address : Nat) : Prop where
  bound : ∀ c, image.cellAt address = .ok c ↔ address < memorySize ∧ image.cell address = c
  isEmpty : address < memorySize →
    ((image.cell address).kind = .empty ↔ ∀ l, ¬ LaidOut lines address l)
  /-- The cell is that of the last statement with the address, and of no other line. -/
  isLatest : address < memorySize → (image.cell address).kind ≠ .empty →
    ∃ l, Latest Line.index (LaidOut lines address) l ∧ image.cell address = l.cell symbols ∧
      (image.cell address).LaidFrom symbols l
  mapped : address ∈ image.lines.keys ↔ address < memorySize ∧ (image.cell address).kind ≠ .empty
  line : image.lines.get? address = (image.cell address).line
  target : (image.cell address).target.isSome = true ↔ (image.cell address).kind = .reference
  symbol : (image.cell address).symbol.isSome = true ↔ (image.cell address).kind = .unresolved
  notOrigin : (image.cell address).mnemonic ≠ Mnemonic.spelling .ORG
  notEnd : (image.cell address).mnemonic ≠ Mnemonic.spelling .END

private theorem LaidOut.mnemonic_ne {lines : List Line} {address : Nat} {l : Line}
    (h : LaidOut lines address l) : l.mnemonic ≠ Mnemonic.spelling .ORG ∧
      l.mnemonic ≠ Mnemonic.spelling .END := by
  have hspells {m : Mnemonic} (hnot : l.states m = false) : l.mnemonic ≠ m.spelling := by
    intro hspelling
    rw [Line.states, h.stated, Line.mnemonic?, hspelling, Mnemonic.ofWord?_spelling] at hnot
    simp at hnot
  exact ⟨hspells h.notOrigin, hspells (states_end_of_mem_aboveEnd h.above)⟩

private theorem contentsAt_load (text : Text) (r : Resolution) (address : Nat) :
    (load (sourceLines text) r).image.ContentsAt (sourceLines text) r.symbols address := by
  refine ⟨Image.cellAt_eq_ok_iff _ address, kind_cell_load_eq_empty_iff r, ?_,
    mem_keys_lines_load_iff text r address, linesAgree_load text r address, ?_, ?_, ?_, ?_⟩
  · intro hinside hkind
    obtain ⟨l, hl, hcell⟩ := exists_latest_of_kind_ne_empty r hinside hkind
    refine ⟨l, hl, hcell, ?_⟩
    rw [hcell]
    exact l.laidFrom_cell r.symbols
  · apply forall_cell_load r (p := fun c => c.target.isSome = true ↔ c.kind = .reference) (by simp)
    exact fun l _ => l.isSome_target_cell_iff r.symbols
  · apply forall_cell_load r (p := fun c => c.symbol.isSome = true ↔ c.kind = .unresolved) (by simp)
    exact fun l _ => l.isSome_symbol_cell_iff r.symbols
  · apply forall_cell_load r (p := fun c => c.mnemonic ≠ Mnemonic.spelling .ORG) (by decide)
    intro l hl
    rw [Line.cell_mnemonic]
    exact hl.mnemonic_ne.1
  · apply forall_cell_load r (p := fun c => c.mnemonic ≠ Mnemonic.spelling .END) (by decide)
    intro l hl
    rw [Line.cell_mnemonic]
    exact hl.mnemonic_ne.2

/-- Memory after a program was loaded. The walk reaches every line above `END` with a counter. A
word holds the last statement that was reached with its address, or nothing; the map of lines has
exactly the words that hold one. Statements past the end of memory may as well be left out. -/
theorem load_keeps_latest (text : Text) :
    let lines := sourceLines text
    let r := resolve lines
    let image := (load lines r).image
    (∀ l ∈ aboveEnd lines, ∃ address, counterAt Line.statementStep 0 lines l.index = some address) ∧
    (∀ address, image.ContentsAt lines r.symbols address) ∧
    image = .ofWrites (((statements lines).filter fun p => p.address < memorySize).map
      fun p => (p.address, p.line.cell r.symbols)) := by
  intro lines r image
  refine ⟨fun l hl => exists_counter_of_mem_aboveEnd hl, contentsAt_load text r, ?_⟩
  have hinside := Image.ofWrites_filter
    ((statements lines).map fun p => (p.address, p.line.cell r.symbols))
  rw [List.filter_map] at hinside
  rw [show image = _ from load_image lines r, ← hinside]
  rfl

/-- A literal is not indirect, even where the mark stands behind it. -/
theorem literal_not_indirect_despite_mark :
    let lines := sourceLines (.ofString "DEC 5 I")
    let image := (load lines (resolve lines)).image
    ∃ l, Latest Line.index (LaidOut lines 0) l ∧ indirectMark ∈ l.words.drop 2 ∧
      (image.cell 0).indirect = false := by
  intro lines image
  have hlines : lines = [⟨0, .ofString "DEC 5 I"⟩] := by decide +kernel
  refine ⟨⟨0, .ofString "DEC 5 I"⟩, ⟨?_, ?_⟩, by decide +kernel, by decide +kernel⟩
  · rw [laidOut_iff]
    decide +kernel
  · intro l hl
    have hmem : l ∈ lines := List.takeWhile_subset _ hl.above
    rw [hlines, List.mem_singleton] at hmem
    rw [hmem]

end TeachAsm
