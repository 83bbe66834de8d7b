import TeachAsm.Proofs.ChangedLines
import TeachAsm.Proofs.Jumps

/-!
# Renumbered lines

What becomes of an analysis when the lines of a document keep their text and get other numbers. The
numbers go into tables, cells and messages, and every table, cell and message of the renumbered
lines is that of the old ones with the new numbers in it: no walk and no scan depends on them.
-/

namespace TeachAsm

variable (f : Nat → Nat)

def Line.renumber (l : Line) : Line := { l with index := f l.index }

def Placement.renumber (p : Placement) : Placement := { p with line := p.line.renumber f }

def Declaration.renumber (d : Declaration) : Declaration := { d with line := f d.line }

def Redeclaration.renumber (d : Redeclaration) : Redeclaration :=
  { d with line := f d.line, previous := d.previous.renumber f }

def Resolution.renumber (r : Resolution) : Resolution where
  symbols := r.symbols
  duplicates := r.duplicates.mapValues (Redeclaration.renumber f)
  unused := r.unused.mapValues f
  invalid := r.invalid.mapValues f
  declarations := r.declarations.mapValues f

def Bindings.renumber (b : Bindings) : Bindings where
  labels := b.labels.mapValues (Declaration.renumber f)
  duplicates := b.duplicates.mapValues (Redeclaration.renumber f)
  invalid := b.invalid.mapValues f

private theorem place_renumber {reading : Line → Step} (h : ∀ l, reading (l.renumber f) = reading l)
    (counter : Nat) (lines : List Line) :
    place reading counter (lines.map (Line.renumber f)) =
      (place reading counter lines).map (Placement.renumber f) :=
  place_map h counter lines

private theorem statements_renumber (lines : List Line) :
    statements (lines.map (Line.renumber f)) = (statements lines).map (Placement.renumber f) :=
  place_renumber f (fun _ => Line.statementStep_congr rfl) 0 lines

namespace Bindings

variable (b : Bindings)

private theorem declare_renumber (label : Text) (d : Declaration) :
    (b.renumber f).declare label (d.renumber f) = (b.declare label d).renumber f := by
  simp only [declare, renumber, Table.get?_mapValues, Table.mapValues_assign]
  cases b.labels.get? label with
  | none => rfl
  | some previous => simp [Table.mapValues_assign, Redeclaration.renumber, Declaration.renumber]

private theorem enter_renumber (p : Placement) :
    (b.renumber f).enter (p.renumber f) = (b.enter p).renumber f := by
  have hlabelled : (p.renumber f).line.hasLabel = p.line.hasLabel := rfl
  have hlabel : (p.renumber f).line.label = p.line.label := rfl
  simp only [enter, hlabelled, hlabel]
  split
  · rfl
  · split
    · exact declare_renumber f b _ ⟨p.address, p.line.index⟩
    · simp only [renumber, Table.mapValues_assign]
      rfl

private theorem foldl_renumber (placements : List Placement) :
    (placements.map (Placement.renumber f)).foldl enter (b.renumber f) =
      (placements.foldl enter b).renumber f := by
  induction placements generalizing b with
  | nil => rfl
  | cons p rest ih => rw [List.map_cons, List.foldl_cons, List.foldl_cons, enter_renumber, ih]

private theorem tables_renumber : (b.renumber f).tables = b.tables.renumber f := by
  simp only [tables, renumber, Resolution.renumber, Table.mapValues_mapValues]
  rfl

end Bindings

private theorem unusedIn_renumber (r : Resolution) (placements : List Placement) :
    (r.renumber f).unusedIn (placements.map (Placement.renumber f)) =
      (r.unusedIn placements).mapValues f := by
  rw [Resolution.unusedIn, Resolution.unusedIn, Resolution.renumber]
  generalize r.unused = unused
  induction placements generalizing unused with
  | nil => rfl
  | cons p rest ih =>
      have hreference : (p.renumber f).line.isReference = p.line.isReference := rfl
      have hword : (p.renumber f).line.operandWord = p.line.operandWord := rfl
      rw [List.map_cons, List.foldl_cons, List.foldl_cons, ← ih, hreference, hword]
      split
      · rw [Table.mapValues_erase]
      · rfl

theorem resolve_renumber (lines : List Line) :
    resolve (lines.map (Line.renumber f)) = (resolve lines).renumber f := by
  rw [resolve_eq, resolve_eq, ← Bindings.tables_renumber, bindings, bindings,
    place_renumber f fun _ => Line.labelStep_congr rfl]
  exact congrArg Bindings.tables (Bindings.foldl_renumber f {} _)

def Range.mapLines (g : Int → Int) (r : Range) : Range :=
  ⟨{ r.start with line := g r.start.line }, { r.stop with line := g r.stop.line }⟩

/-- The line that a problem is shown on, where what is missing is shown on the last line. -/
def Problem.moveLine (last : Nat) (p : Problem) (line : Int) : Int :=
  match p with
  | missingEnd | missingHalt => last
  | _ => f line.toNat

def Problem.renumber : Problem → Problem
  | duplicateOrigin line => duplicateOrigin (f (line - 1) + 1)
  | duplicateLabel label line => duplicateLabel label (f (line - 1) + 1)
  | p => p

def Diagnostic.renumber (last : Nat) (d : Diagnostic) : Diagnostic :=
  ⟨d.range.mapLines (d.problem.moveLine f last), d.problem.renumber f⟩

def Finding.renumber (last : Nat) : Finding → Finding
  | problem d => problem (d.renumber f last)
  | fault e => fault e

def Range.renumber (r : Range) : Range := r.mapLines fun line => f line.toNat

theorem Diagnostic.severity_renumber (last : Nat) (d : Diagnostic) :
    (d.renumber f last).severity = d.severity := by
  obtain ⟨range, p⟩ := d
  cases p <;> rfl

private theorem Line.statementRange_renumber (l : Line) :
    (l.renumber f).statementRange = l.statementRange.renumber f := by
  simp [statementRange, Range.renumber, Range.mapLines, Range.columns, renumber, column, text]

private theorem Range.renumber_wholeLine (line : Nat) :
    (Range.wholeLine line).renumber f = .wholeLine (f line) := by
  simp [wholeLine, renumber, mapLines]

private theorem Line.wholeRange_renumber (l : Line) :
    (l.renumber f).wholeRange = l.wholeRange.renumber f :=
  (Range.renumber_wholeLine f l.index).symm

/-- A problem of a statement or of a cell quotes no line and is not shown on the last one. -/
private theorem Diagnostic.renumber_of_site (last : Nat) {p : Problem}
    (h : p.site = .statement ∨ p.site = .belowEnd ∨ p.site = .cell) (range : Range) :
    renumber f last ⟨range, p⟩ = ⟨range.renumber f, p⟩ := by
  cases p with
  | missingEnd | missingHalt | duplicateOrigin _ | duplicateLabel _ _ => simp [Problem.site] at h
  | _ => rfl

theorem Finding.renumber_eq_map (last : Nat) :
    Finding.renumber f last = Finding.map (Diagnostic.renumber f last) := by
  funext finding
  cases finding <;> rfl

private theorem Finding.map_ofCheck (last : Nat) {range : Range}
    {check : Except Fault (Option Problem)}
    (h : ∀ p, check = .ok (some p) → p.site = .statement ∨ p.site = .cell) :
    (ofCheck range check).map (Finding.renumber f last) = ofCheck (range.renumber f) check := by
  rw [renumber_eq_map]
  exact ofCheck_map fun p hp => Diagnostic.renumber_of_site f last ((h p hp).imp_right .inr) range

section

variable (last : Nat) (lines : List Line)

private theorem follows_renumber :
    Follows (Diagnostic.renumber f last) (Line.renumber f) lines where
  text _ := rfl
  statement l _ p hp := by
    rw [Diagnostic.renumber_of_site f last (.inl hp), Line.statementRange_renumber]
  below l _ := by
    rw [Diagnostic.renumber_of_site f last (.inr (.inl rfl)), Line.wholeRange_renumber]

theorem spellingFindings_renumber :
    spellingFindings (lines.map (Line.renumber f)) =
      (spellingFindings lines).map (Finding.renumber f last) := by
  rw [Finding.renumber_eq_map]
  exact (follows_renumber f last lines).spellingFindings_map

theorem scanFindings_renumber (old : Int) (seenEnd seenHalt : Bool) :
    scanFindings (.wholeLine last) seenEnd seenHalt (lines.map (Line.renumber f)) =
      (scanFindings (.wholeLine old) seenEnd seenHalt lines).map (Finding.renumber f last) := by
  have hlast (p : Problem) (hp : p.site = .document) :
      Diagnostic.renumber f last ⟨.wholeLine old, p⟩ = ⟨.wholeLine last, p⟩ := by
    cases p with
    | missingEnd | missingHalt => rfl
    | _ => cases hp
  rw [Finding.renumber_eq_map]
  exact (follows_renumber f last lines).scanFindings_map hlast seenEnd seenHalt

theorem originFindings_renumber (seen : List (Int × Nat)) :
    originFindings (seen.map fun e => (e.1, f (e.2 - 1) + 1)) (lines.map (Line.renumber f)) =
      (originFindings seen lines).map (Finding.renumber f last) := by
  induction lines generalizing seen with
  | nil => rfl
  | cons l rest ih =>
      have horigin : (l.renumber f).origin? = l.origin? := Line.origin?_congr rfl
      rw [List.map_cons, originFindings, originFindings, horigin]
      cases l.origin? with
      | none => exact ih seen
      | some origin =>
          dsimp only
          rw [Table.find?_map (fun line => f (line - 1) + 1)]
          cases Table.find? origin seen with
          | none =>
              rw [← ih, List.map_append]
              rfl
          | some firstLine =>
              rw [Option.map_some, ih, Line.wholeRange_renumber]
              rfl

end

/-- A cell after its line got another number. A scan sees no difference but that number. -/
structure Cell.Renumbered (c c' : Cell) : Prop where
  kind : c'.kind = c.kind
  mnemonic : c'.mnemonic = c.mnemonic
  target : c'.target = c.target
  indirect : c'.indirect = c.indirect
  range : c'.range = c.range.renumber f
  endsScan : c'.endsScan = c.endsScan
  mentionsOrigin : c'.mentionsOrigin = c.mentionsOrigin
  jump : originJump c'.text = originJump c.text
  formProblem? : c'.formProblem? = c.formProblem?
  value : c'.value = c.value

namespace Line

variable (l : Line) (symbols : Table Text Nat)

private theorem value_of_isReference {l : Line} (h : l.isReference = true)
    (symbols : Table Text Nat) : (l.cell symbols).value = .ok none := by
  rw [Cell.value, Cell.literal, l.cell_mnemonic, literal_of_isReference h]
  rfl

private theorem fields_cell_renumber :
    ((l.renumber f).cell symbols).kind = (l.cell symbols).kind ∧
      ((l.renumber f).cell symbols).target = (l.cell symbols).target ∧
      ((l.renumber f).cell symbols).indirect = (l.cell symbols).indirect ∧
      ((l.renumber f).cell symbols).symbol = (l.cell symbols).symbol := by
  have hreference : (l.renumber f).isReference = l.isReference := rfl
  have htarget : (l.renumber f).target? symbols = l.target? symbols := rfl
  unfold cell
  rw [hreference, htarget]
  split
  · split <;> exact ⟨rfl, rfl, rfl, rfl⟩
  · exact ⟨rfl, rfl, rfl, rfl⟩

/-- The number of its line stands in the text of a cell only if it is an unresolved reference. -/
private theorem text_cell_renumber (h : l.isReference = false ∨ (l.target? symbols).isSome = true) :
    ((l.renumber f).cell symbols).text = (l.cell symbols).text := by
  have hreference : (l.renumber f).isReference = l.isReference := rfl
  have htarget : (l.renumber f).target? symbols = l.target? symbols := rfl
  cases hl : l.isReference with
  | false => rw [cell_text_verbatim hl, cell_text_verbatim (hreference.trans hl)]; rfl
  | true =>
      rw [hl, or_iff_right nofun, Option.isSome_iff_exists] at h
      obtain ⟨target, hsome⟩ := h
      rw [cell_text_reference hl hsome,
        cell_text_reference (hreference.trans hl) (htarget.trans hsome)]
      rfl

private theorem renumbered_cell : (l.cell symbols).Renumbered f ((l.renumber f).cell symbols) := by
  obtain ⟨hkind, htarget, hindirect, hsymbol⟩ := l.fields_cell_renumber f symbols
  have hmnemonic : ((l.renumber f).cell symbols).mnemonic = (l.cell symbols).mnemonic := by
    rw [cell_mnemonic, cell_mnemonic]
    rfl
  have hrange : ((l.renumber f).cell symbols).range = (l.cell symbols).range.renumber f := by
    rw [range_cell, range_cell, wholeRange_renumber]
  by_cases hresolved : l.isReference = false ∨ (l.target? symbols).isSome = true
  · have htext := l.text_cell_renumber f symbols hresolved
    refine ⟨hkind, hmnemonic, htarget, hindirect, hrange, ?_, ?_, ?_, ?_, ?_⟩
    · rw [Cell.endsScan, Cell.words, htext, ← Cell.words, ← Cell.endsScan]
    · rw [Cell.mentionsOrigin, htext, ← Cell.mentionsOrigin]
    · rw [htext]
    · simp only [Cell.formProblem?, hkind, hsymbol, htext]
    · simp only [Cell.value, Cell.literal, Cell.operand, hmnemonic, htext]
  · rw [not_or, Bool.not_eq_false, Bool.not_eq_true, Option.isSome_eq_false_iff,
      Option.isNone_iff_eq_none] at hresolved
    obtain ⟨hl, hnone⟩ := hresolved
    have hl' : (l.renumber f).isReference = true := hl
    have hnone' : (l.renumber f).target? symbols = none := hnone
    have hunresolved : (l.cell symbols).kind = .unresolved := by
      simp [cell, hl, hnone]
    refine ⟨hkind, hmnemonic, htarget, hindirect, hrange, ?_, ?_, ?_, ?_, ?_⟩
    · rw [endsScan_unresolved hl hnone, endsScan_unresolved hl' hnone']
    · rw [mentionsOrigin_unresolved hl hnone, mentionsOrigin_unresolved hl' hnone']
      rfl
    · rw [originJump_unresolved hl hnone, originJump_unresolved hl' hnone']
      rfl
    · rw [Cell.formProblem?, Cell.formProblem?, hkind, if_pos hunresolved, if_pos hunresolved,
        hsymbol]
    · rw [value_of_isReference hl, value_of_isReference hl']

end Line

/-- Cells at the same addresses, after their lines got other numbers. -/
def CellsRenumbered : List (Nat × Cell) → List (Nat × Cell) → Prop :=
  List.Forall₂ fun e e' => e'.1 = e.1 ∧ e.2.Renumbered f e'.2

def Image.Renumbered (image image' : Image) : Prop := CellsRenumbered f image.cells image'.cells

variable {f}

namespace CellsRenumbered

variable {cells cells' : List (Nat × Cell)} (h : CellsRenumbered f cells cells')

include h

theorem putCell {c c' : Cell} (hc : c.Renumbered f c') (address : Nat) :
    CellsRenumbered f (putCell address c cells) (putCell address c' cells') := by
  induction h with
  | nil => exact .cons ⟨rfl, hc⟩ .nil
  | @cons e e' rest rest' hfirst hrest ih =>
      obtain ⟨a, d⟩ := e
      obtain ⟨a', d'⟩ := e'
      obtain ⟨rfl, hd⟩ := hfirst
      unfold TeachAsm.putCell
      dsimp only
      split
      · exact .cons ⟨rfl, hc⟩ (.cons ⟨rfl, hd⟩ hrest)
      · split
        · exact .cons ⟨rfl, hc⟩ hrest
        · exact .cons ⟨rfl, hd⟩ ih

theorem find? (address : Nat) :
    (Table.find? address cells = none ∧ Table.find? address cells' = none) ∨
      ∃ c c', Table.find? address cells = some c ∧ Table.find? address cells' = some c' ∧
        c.Renumbered f c' := by
  induction h with
  | nil => exact .inl ⟨rfl, rfl⟩
  | @cons e e' rest rest' hfirst hrest ih =>
      obtain ⟨a, c⟩ := e
      obtain ⟨a', c'⟩ := e'
      obtain ⟨rfl, hc⟩ := hfirst
      by_cases ha : a' = address
      · exact .inr ⟨c, c', by simp [Table.find?, ha], by simp [Table.find?, ha], hc⟩
      · simpa [Table.find?, ha] using ih

end CellsRenumbered

namespace Image

theorem Renumbered.store? {image image' : Image} (h : image.Renumbered f image') {c c' : Cell}
    (hc : c.Renumbered f c') (address : Int) :
    ((image.store? address c).getD image).Renumbered f
      ((image'.store? address c').getD image') := by
  unfold Image.store?
  split
  · exact CellsRenumbered.putCell h hc _
  · exact h

private theorem renumbered_foldl {image image' : Image} (h : image.Renumbered f image')
    (symbols : Table Text Nat) (placements : List Placement) :
    ((placements.map fun p => (p.address, p.line.cell symbols)).foldl
        (fun image w => (image.store? w.1 w.2).getD image) image).Renumbered f
      (((placements.map (Placement.renumber f)).map fun p => (p.address, p.line.cell symbols)).foldl
        (fun image w => (image.store? w.1 w.2).getD image) image') := by
  induction placements generalizing image image' with
  | nil => exact h
  | cons p rest ih =>
      have hline : (p.renumber f).line = p.line.renumber f := rfl
      have haddress : (p.renumber f).address = p.address := rfl
      simp only [List.map_cons, List.foldl_cons, hline, haddress]
      exact ih (h.store? (p.line.renumbered_cell f symbols) p.address)

def literalAt (image : Image) (position : Int) : Except Fault (Option Int) :=
  (image.fetch position).bind Cell.value

private theorem bind_value {β : Type} (image : Image) (position : Int)
    (next : Option Int → Except Fault β) :
    ((image.fetch position).bind fun c => c.value.bind next) =
      (image.literalAt position).bind next := by
  unfold literalAt
  cases image.fetch position <;> rfl

namespace Renumbered

variable {image image' : Image} (h : image.Renumbered f image')

include h

theorem cell (address : Nat) : (image'.cell address).mnemonic = (image.cell address).mnemonic ∧
    (image'.cell address).value = (image.cell address).value := by
  unfold Image.cell
  rcases CellsRenumbered.find? h address with ⟨hnone, hnone'⟩ | ⟨c, c', hsome, hsome', hc⟩
  · rw [hnone, hnone']
    exact ⟨rfl, rfl⟩
  · rw [hsome, hsome']
    exact ⟨hc.mnemonic, hc.value⟩

theorem fetch (position : Int) :
    (∃ e, image.fetch position = .error e ∧ image'.fetch position = .error e) ∨
      ∃ c c', image.fetch position = .ok c ∧ image'.fetch position = .ok c' ∧
        c'.mnemonic = c.mnemonic ∧ c'.value = c.value := by
  unfold Image.fetch cellAt
  split
  · exact .inr ⟨_, _, rfl, rfl, h.cell _⟩
  · split
    · exact .inr ⟨_, _, rfl, rfl, h.cell _⟩
    · exact .inl ⟨_, rfl, rfl⟩

private theorem literalAt (position : Int) :
    image'.literalAt position = image.literalAt position := by
  unfold Image.literalAt
  rcases h.fetch position with ⟨e, he, he'⟩ | ⟨c, c', hc, hc', -, hvalue⟩
  · rw [he, he']
  · rw [hc, hc']
    exact hvalue

theorem hiddenByJump (address : Nat) :
    image'.hiddenByJump address = image.hiddenByJump address := by
  unfold Image.hiddenByJump
  rcases h.fetch (address - 1) with ⟨e, he, he'⟩ | ⟨c, c', hc, hc', hmnemonic, -⟩
  · rw [he, he']
    rfl
  · rw [hc, hc']
    rcases h.fetch (address - 2) with ⟨e, he, he'⟩ | ⟨d, d', hd, hd', hbefore, -⟩
    · rw [he, he']
      rfl
    · rw [hd, hd']
      simp only [bind, Except.bind, Cell.mnemonic?, hmnemonic, hbefore]

theorem leadsToLiteral (target : Int) (indirect : Bool) :
    image'.leadsToLiteral target indirect = image.leadsToLiteral target indirect := by
  simp only [Image.leadsToLiteral, bind, bind_value, h.literalAt]

theorem logicProblem {c c' : Cell} (hc : c.Renumbered f c') (address : Nat) :
    image'.logicProblem address c' = image.logicProblem address c := by
  have hmnemonic : c'.mnemonic? = c.mnemonic? := congrArg Mnemonic.ofWord? hc.mnemonic
  unfold Image.logicProblem
  rw [hc.kind, hc.target, hc.indirect, hmnemonic, h.hiddenByJump]
  simp only [h.leadsToLiteral]

end Renumbered

end Image

theorem cellFormFindings_renumber (last : Nat) {cells cells' : List (Nat × Cell)}
    (h : CellsRenumbered f cells cells') (first : Nat) :
    cellFormFindings first cells' =
      (cellFormFindings first cells).map (Finding.renumber f last) := by
  induction h generalizing first with
  | nil => rfl
  | @cons e e' rest rest' hfirst hrest ih =>
      obtain ⟨a, c⟩ := e
      obtain ⟨a', c'⟩ := e'
      obtain ⟨rfl, hc⟩ := hfirst
      have hproblem : (Finding.ofCheck c.range (.ok c.formProblem?)).map (Finding.renumber f last) =
          Finding.ofCheck (c.range.renumber f) (.ok c.formProblem?) := by
        apply Finding.map_ofCheck f last
        intro p hp
        exact .inr (Cell.site_of_formProblem? (Except.ok.inj hp))
      rw [cellFormFindings, cellFormFindings, hc.endsScan, hc.mentionsOrigin, hc.jump,
        hc.formProblem?, hc.range, ← hproblem]
      split
      · exact ih first
      · split
        · rfl
        · split
          · cases originJump c.text with
            | error e => rfl
            | ok jump =>
                cases jump with
                | none => rfl
                | some jump =>
                    dsimp only
                    split
                    · rfl
                    · exact ih _
          · rw [ih, List.map_append]

theorem cellLogicFindings_renumber (last : Nat) {image image' : Image}
    (himage : image.Renumbered f image') {cells cells' : List (Nat × Cell)}
    (h : CellsRenumbered f cells cells') :
    cellLogicFindings image' cells' =
      (cellLogicFindings image cells).map (Finding.renumber f last) := by
  induction h with
  | nil => rfl
  | @cons e e' rest rest' hfirst hrest ih =>
      obtain ⟨a, c⟩ := e
      obtain ⟨a', c'⟩ := e'
      obtain ⟨rfl, hc⟩ := hfirst
      have hproblem : (Finding.ofCheck c.range (image.logicProblem a' c)).map
          (Finding.renumber f last) =
            Finding.ofCheck (c.range.renumber f) (image.logicProblem a' c) := by
        apply Finding.map_ofCheck f last
        intro p hp
        exact .inr (Image.site_of_logicProblem hp)
      unfold cellLogicFindings at ih ⊢
      cases hends : c.endsScan with
      | true => simp [hc.endsScan, hends]
      | false =>
          rw [List.takeWhile_cons_of_pos (by simp [hc.endsScan, hends]),
            List.takeWhile_cons_of_pos (by simp [hends]), List.flatMap_cons, List.flatMap_cons,
            List.map_append, hproblem, ih, hc.range, himage.logicProblem hc]

variable (f)

theorem renumbered_load (lines : List Line) (r : Resolution) : (load lines r).image.Renumbered f
    (load (lines.map (Line.renumber f)) (r.renumber f)).image := by
  rw [load_image, load_image, statements_renumber]
  have hempty : Image.empty.Renumbered f Image.empty := List.Forall₂.nil
  exact Image.renumbered_foldl hempty r.symbols (statements lines)

theorem unused_load_renumber (lines : List Line) (r : Resolution) :
    (load (lines.map (Line.renumber f)) (r.renumber f)).unused =
      (load lines r).unused.mapValues f := by
  rw [load_unused, load_unused, statements_renumber, unusedIn_renumber]

theorem labelReport_renumber (last : Nat) (r : Resolution) (unused : Table Text Nat) :
    labelReport (r.renumber f) (unused.mapValues f) =
      (labelReport r unused).map (Diagnostic.renumber f last) := by
  have hshown (line : Nat) {p : Problem} (hp : p.site = .label) :
      Diagnostic.renumber f last ⟨.wholeLine line, p⟩ = ⟨.wholeLine (f line), p.renumber f⟩ := by
    rw [← Range.renumber_wholeLine]
    cases p with
    | duplicateLabel _ _ | unusedLabel _ | invalidLabel _ => rfl
    | _ => cases hp
  have hduplicates : ((r.renumber f).duplicates.values.map fun d =>
        (⟨.wholeLine d.line, .duplicateLabel d.label (d.previous.line + 1)⟩ : Diagnostic)) =
      (r.duplicates.values.map fun d =>
        (⟨.wholeLine d.line, .duplicateLabel d.label (d.previous.line + 1)⟩ : Diagnostic)).map
          (Diagnostic.renumber f last) := by
    rw [Resolution.renumber, Table.values_mapValues, List.map_map, List.map_map]
    apply List.map_congr_left
    intro d _
    rw [Function.comp_apply, Function.comp_apply, hshown d.line rfl]
    rfl
  have hentries (t : Table Text Nat) {p : Text → Problem}
      (hp : ∀ word, (p word).site = .label ∧ (p word).renumber f = p word) :
      ((t.mapValues f).entries.map fun e => (⟨.wholeLine e.2, p e.1⟩ : Diagnostic)) =
        (t.entries.map fun e => (⟨.wholeLine e.2, p e.1⟩ : Diagnostic)).map
          (Diagnostic.renumber f last) := by
    rw [Table.mapValues, List.map_map, List.map_map]
    apply List.map_congr_left
    intro e _
    rw [Function.comp_apply, Function.comp_apply, hshown e.2 (hp e.1).1, (hp e.1).2]
  rw [labelReport, labelReport, List.map_append, List.map_append, ← hduplicates,
    ← hentries unused fun _ => ⟨rfl, rfl⟩, ← hentries r.invalid fun _ => ⟨rfl, rfl⟩]
  rfl

end TeachAsm
